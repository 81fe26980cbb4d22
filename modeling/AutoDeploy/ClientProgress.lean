import AutoDeploy.CancelProtocol
import AutoDeploy.EventHub
import Mathlib.Data.List.Basic
import Mathlib.Data.Option.Basic

namespace Replay

variable {M K E : Type} {receive : M → (K → E) → K → E}

/-- The entries after the messages, the first one first. -/
def replay (receive : M → (K → E) → K → E) (messages : List M) (entries : K → E) : K → E :=
  messages.foldl (fun entries m => receive m entries) entries

/-- Whatever the entries were, the messages leave `written` at the key, or what was there. -/
def Overwrites (receive : M → (K → E) → K → E) (messages : List M) (key : K) (written : Option E) :
    Prop :=
  ∀ entries, replay receive messages entries key = written.getD (entries key)

section Rules

variable {messages more : List M} {m : M} {entries : K → E} {key : K} {written later : Option E}

theorem replay_cons :
    replay receive (m :: messages) entries = replay receive messages (receive m entries) := rfl

theorem replay_append : replay receive (messages ++ more) entries =
    replay receive more (replay receive messages entries) := List.foldl_append

theorem overwrites_nil : Overwrites receive [] key none := fun _ => rfl

theorem overwrites_singleton (h : ∀ entries, receive m entries key = written.getD (entries key)) :
    Overwrites receive [m] key written := h

/-- The last message that writes at the key wins. -/
theorem Overwrites.append (h : Overwrites receive messages key written)
    (hmore : Overwrites receive more key later) :
    Overwrites receive (messages ++ more) key (later.or written) := by
  intro entries
  rw [replay_append, hmore, h]
  cases later with
  | none => rfl
  | some e => rfl

theorem overwrites_last {e : E} (h : ∀ entries, receive m entries key = e) :
    Overwrites receive (messages ++ [m]) key (some e) := by
  intro entries
  rw [replay_append]
  exact h _

/-- A message that changes nothing may come anywhere. -/
theorem replay_ignored (h : ∀ entries, receive m entries = entries) :
    replay receive (messages ++ m :: more) entries = replay receive (messages ++ more) entries := by
  rw [replay_append, replay_append, replay_cons, h]

end Rules

end Replay

namespace AutoDeploy

/-- What a frame does to the record of the jobs, which is all that it depends on. -/
def progressAfter (data : Json) (progress : ProgressRecord) : ProgressRecord :=
  (onmessage data ⟨false, [], progress⟩).progress

/-- What the page has of a job after a compact frame. -/
def compactEntry (snapshot : ProgressSnapshot) : NormalizedProgress :=
  let f := progressEventFrame snapshot
  { appId := snapshot.appID
    jobId := snapshot.jobID
    phase := snapshot.phase.text
    status := progressStatusForStage snapshot.phase
    percent := (compactProgressOptionalPercent f).map fun n => (JsNumbers.ofInt n.toInt : ℚ)
    doneBytes := some (JsNumbers.ofInt f.downloadedBytes.toInt : ℚ)
    totalBytes := (compactProgressOptionalTotal f).map fun n => (JsNumbers.ofInt n.toInt : ℚ)
    bytesPerSecond := some (JsNumbers.ofInt f.speedBPS.toInt : ℚ)
    message := some "" }

/-- What the page has of a job after the snapshot. -/
def snapshotEntry (snapshot : ProgressSnapshot) : NormalizedProgress where
  appId := snapshot.appID
  jobId := snapshot.jobID
  phase := snapshot.phase.text
  status := snapshot.phase.text
  percent := (some snapshot.percent).filter fun pct => 0 ≤ pct
  doneBytes := some (JsNumbers.ofInt snapshot.downloadedBytes : ℚ)
  totalBytes := (some (JsNumbers.ofInt snapshot.totalBytes : ℚ)).filter fun tb => 0 < tb
  bytesPerSecond := some snapshot.speedBPS
  message := none

section Frames

variable {stamp : EventStamp} {data : Json} {snapshot : ProgressSnapshot} {s : AdminEventState}
  {progress : ProgressRecord}

theorem onmessage_progress : (onmessage data s).progress = progressAfter data s.progress := by
  unfold progressAfter onmessage
  split
  next => rfl
  next =>
    split
    next => rfl
    next =>
      split
      next => rfl
      next => rfl

/-- The fields of a compact frame are found again, whether the optional ones are there or not. -/
theorem compactProgress_marshal (event : AdminHubEvent) (f : ProgressFrame String) :
    compactProgress (compactAdminProgressEvent event f) = some
      { appId := if f.appID = "" then event.appID else f.appID
        jobId := if f.jobID = "" then event.jobID else f.jobID
        phase := f.stage
        status := f.status
        percent := (compactProgressOptionalPercent f).map fun n => (JsNumbers.ofInt n.toInt : ℚ)
        doneBytes := some (JsNumbers.ofInt f.downloadedBytes.toInt : ℚ)
        totalBytes := (compactProgressOptionalTotal f).map fun n => (JsNumbers.ofInt n.toInt : ℚ)
        bytesPerSecond := some (JsNumbers.ofInt f.speedBPS.toInt : ℚ)
        message := some f.message } := by
  unfold compactAdminProgressEvent
  generalize compactProgressOptionalPercent f = pct
  generalize compactProgressOptionalTotal f = total
  cases pct with
  | none =>
    cases total with
    | none => rfl
    | some total => rfl
  | some pct =>
    cases total with
    | none => rfl
    | some total => rfl

theorem progressAfter_compact
    (h : AdminEventHub.encode stamp (progressEvent snapshot) = some data) :
    progressAfter data progress =
      Function.update progress snapshot.jobID (some (compactEntry snapshot)) := by
  have hentry : compactProgress data = some (compactEntry snapshot) := by
    rw [← Option.some.inj h, compactProgress_marshal]
    change some { compactEntry snapshot with
      appId := if snapshot.appID = "" then snapshot.appID else snapshot.appID
      jobId := if snapshot.jobID = "" then snapshot.jobID else snapshot.jobID } = _
    rw [ite_self, ite_self]
    rfl
  have ht : string? (data.get? "t") = some "p" := by
    rw [← Option.some.inj h]
    rfl
  rw [progressAfter, onmessage, if_pos ht, hentry]
  rfl

theorem progressAfter_heartbeat (h : AdminEventHub.encode stamp heartbeatEvent = some data) :
    progressAfter data progress = progress := by
  rw [← Option.some.inj h]
  rfl

theorem progressAfter_cancel {event : CancelEvent}
    (h : AdminEventHub.encode stamp event.adminEvent = some data) :
    progressAfter data progress = progress := by
  have hcancel := @receiveEvent_cancel stamp.id stamp.now event ⟨false, [], progress⟩
  rw [receiveEvent] at hcancel
  rw [AdminEventHub.encode] at h
  rwa [h, Option.elim_some] at hcancel

theorem snapshotProgress_marshal (happ : snapshot.appID ≠ "") (hjob : snapshot.jobID ≠ "") :
    snapshotProgress snapshot.marshal = some (snapshotEntry snapshot) := by
  have htruthy : (truthy (some (.str snapshot.jobID)) && truthy (some (.str snapshot.appID))) =
      true := by simp [truthy, happ, hjob]
  exact if_pos htruthy

/-- The page has the entry of a job of the snapshot, if all the jobs with its id are the same. -/
theorem mergeSnapshot_entry {all : List ProgressSnapshot}
    (hids : ∀ snapshot ∈ all, snapshot.appID ≠ "" ∧ snapshot.jobID ≠ "")
    (hsame : ∀ other ∈ all, other.jobID = snapshot.jobID → other = snapshot)
    (h : snapshot ∈ all ∨ progress snapshot.jobID = some (snapshotEntry snapshot)) :
    mergeSnapshot (all.map ProgressSnapshot.marshal) progress snapshot.jobID =
      some (snapshotEntry snapshot) := by
  induction all generalizing progress with
  | nil =>
    obtain h | h := h
    · simp at h
    · exact h
  | cons first rest ih =>
    obtain ⟨happ, hjob⟩ := hids first List.mem_cons_self
    rw [List.map_cons, mergeSnapshot, List.foldl_cons, snapshotProgress_marshal happ hjob]
    apply ih
    · exact fun other hmem => hids other (List.mem_cons_of_mem _ hmem)
    · exact fun other hmem => hsame other (List.mem_cons_of_mem _ hmem)
    · by_cases heq : first.jobID = snapshot.jobID
      · right
        rw [← hsame first List.mem_cons_self heq]
        exact Function.update_self ..
      · obtain h | h := h
        · obtain rfl | hmem := List.mem_cons.mp h
          · exact absurd rfl heq
          · exact Or.inl hmem
        · right
          change Function.update progress first.jobID _ snapshot.jobID = _
          rwa [Function.update_of_ne (Ne.symm heq)]

theorem progressAfter_snapshot {all : List ProgressSnapshot}
    (h : AdminEventHub.encode stamp (snapshotEvent all) = some data) :
    progressAfter data progress = mergeSnapshot (all.map ProgressSnapshot.marshal) progress := by
  rw [← Option.some.inj h]
  rfl

end Frames

end AutoDeploy
