import AutoDeploy.HubInvariant

namespace AutoDeploy

open Replay

section Tracker

variable {owner : String → String} {now : Int} {call : TrackerCall} {pt : ProgressTracker}
  {appID : String} {snapshot : ProgressSnapshot}

theorem mutate_snapshot {fn : ProgressEntry → ProgressEntry} {name : String} :
    (pt.mutate name fn).snapshot appID = if appID = name then
      ((pt.entries name).map fn).map ProgressEntry.snapshot else pt.snapshot appID := by
  unfold ProgressTracker.mutate ProgressTracker.snapshot
  by_cases h : appID = name
  · rw [if_pos h, h]
    simp
  · rw [if_neg h]
    simp [Function.update_of_ne h]

/-- A call is about one app. -/
theorem apply_other (h : appID ≠ call.appID) :
    (call.apply now pt).snapshot appID = pt.snapshot appID := by
  cases call with
  | start name jobID tag =>
    have hne : appID ≠ name := h
    simp only [TrackerCall.apply, ProgressTracker.start, ProgressTracker.snapshot]
    rw [Function.update_of_ne hne]
  | update name downloaded total speedBPS => exact mutate_snapshot.trans (if_neg h)
  | setPhase name phase => exact mutate_snapshot.trans (if_neg h)
  | finish name => exact mutate_snapshot.trans (if_neg h)
  | fail name => exact mutate_snapshot.trans (if_neg h)

/-- What a call other than `Start` leaves in the entry of its app comes from the entry before. -/
theorem mutate_tracked {fn : ProgressEntry → ProgressEntry} {name : String}
    (hpt : ∀ appID snapshot, pt.snapshot appID = some snapshot →
      TrackedAs owner appID snapshot)
    (hfn : ∀ e, TrackedAs owner name e.snapshot → TrackedAs owner name (fn e).snapshot)
    (h : (pt.mutate name fn).snapshot appID = some snapshot) :
    TrackedAs owner appID snapshot := by
  rw [mutate_snapshot] at h
  split at h
  next happ =>
    obtain ⟨e', he', rfl⟩ := Option.map_eq_some_iff.mp h
    obtain ⟨e, he, rfl⟩ := Option.map_eq_some_iff.mp he'
    rw [happ]
    exact hfn e (hpt name e.snapshot (by rw [ProgressTracker.snapshot, he, Option.map_some]))
  next => exact hpt appID snapshot h

theorem TrackedAs.setPhase {phase : ProgressStage} (h : TrackedAs owner appID snapshot) :
    TrackedAs owner appID { snapshot with phase := phase, updatedAt := now } :=
  ⟨h.app, h.job, h.appID_ne, h.jobID_ne, h.downloaded, h.total, h.known⟩

theorem apply_tracked (hissued : (HubAction.track now call).Issued owner)
    (hpt : ∀ appID snapshot, pt.snapshot appID = some snapshot →
      TrackedAs owner appID snapshot)
    (h : (call.apply now pt).snapshot appID = some snapshot) :
    TrackedAs owner appID snapshot := by
  cases call with
  | start name jobID tag =>
    by_cases happ : appID = name
    · obtain ⟨howner, happID, hjobID⟩ := hissued
      subst happ
      simp only [TrackerCall.apply, ProgressTracker.start, ProgressTracker.snapshot,
        Function.update_self, Option.map_some, Option.some.injEq] at h
      subst h
      exact ⟨rfl, howner, happID, hjobID, rfl, rfl, Or.inl rfl⟩
    · have hother := @apply_other now (.start name jobID tag) pt appID happ
      exact hpt appID snapshot (hother ▸ h)
  | update name downloaded total speedBPS =>
    refine mutate_tracked hpt (fun e he => ?_) h
    refine ⟨he.app, he.job, he.appID_ne, he.jobID_ne, by simp, ?_, ?_⟩
    · dsimp only
      split
      next => rw [Int64.ofInt_toInt]
      next => rfl
    · dsimp only
      split
      next hpos => exact Or.inr hpos
      next => exact Or.inl rfl
  | setPhase name phase =>
    refine mutate_tracked hpt (fun e he => ?_) h
    exact he.setPhase
  | finish name =>
    refine mutate_tracked hpt (fun e he => ?_) h
    exact he.setPhase
  | fail name =>
    refine mutate_tracked hpt (fun e he => ?_) h
    exact he.setPhase

theorem cleanup_snapshot (h : (pt.cleanup now).snapshot appID = some snapshot) :
    pt.snapshot appID = some snapshot := by
  obtain ⟨e, he, rfl⟩ := Option.map_eq_some_iff.mp h
  rw [ProgressTracker.snapshot, (Option.filter_eq_some_iff.mp he).1, Option.map_some]

end Tracker

section Hub

variable {owner : String → String} {heard : ℕ → String → Bool} {h : AdminEventHub} {now : Int}
  {call : TrackerCall} {stamp : EventStamp} {appID : String}

theorem empty_invariant : HubInvariant owner (fun _ _ => false) .empty := by
  refine ⟨?_, ?_, ?_, ?_, fun _ => absent_invariant⟩
  · intro appID snapshot hsnapshot
    cases hsnapshot
  · intro appID snapshot hpending
    cases hpending
  · intro appID snapshot snapshot' hpending
    cases hpending
  · intro appID snapshot hsnapshot
    cases hsnapshot

theorem HubInvariant.onClient {c : ℕ} {fn : AdminEventClient → AdminEventClient}
    (hi : HubInvariant owner heard h)
    (hfn : ClientInvariant h.Settled (heard c) (fn (h.clients c))) :
    HubInvariant owner heard (h.onClient c fn) := by
  refine ⟨hi.tracked, hi.pending, hi.current, hi.listed, ?_⟩
  intro c'
  by_cases hc : c' = c
  · subst hc
    simp only [AdminEventHub.onClient, Function.update_self]
    exact hfn
  · simp only [AdminEventHub.onClient, Function.update_of_ne hc]
    exact hi.client c'

/-- After a call nothing about its app is settled, and the other apps are as they were. -/
theorem HubInvariant.track (hi : HubInvariant owner heard h)
    (hissued : (HubAction.track now call).Issued owner) :
    HubInvariant owner heard (h.track now call) := by
  unfold AdminEventHub.track
  split
  next hfree =>
    have htracked := fun appID snapshot => @apply_tracked owner now call h.tracker appID snapshot
      hissued hi.tracked
    refine ⟨htracked, ?_, ?_, ?_, fun c => (hi.client c).mono ?_⟩
    · intro appID snapshot hpending
      by_cases happ : appID = call.appID
      · subst happ
        dsimp only at hpending
        rw [Function.update_self] at hpending
        exact htracked _ _ hpending
      · dsimp only at hpending
        rw [Function.update_of_ne happ] at hpending
        exact hi.pending appID snapshot hpending
    · intro appID snapshot snapshot' hpending hsnapshot
      by_cases happ : appID = call.appID
      · subst happ
        dsimp only at hpending hsnapshot
        rw [Function.update_self, hsnapshot] at hpending
        exact Option.some.inj hpending
      · dsimp only at hpending hsnapshot
        rw [Function.update_of_ne happ] at hpending
        rw [apply_other happ] at hsnapshot
        exact hi.current appID snapshot snapshot' hpending hsnapshot
    · intro appID snapshot hsnapshot
      rw [List.mem_insert_iff]
      by_cases happ : appID = call.appID
      · exact Or.inl happ
      · dsimp only at hsnapshot
        rw [apply_other happ] at hsnapshot
        exact Or.inr (hi.listed appID snapshot hsnapshot)
    · intro appID snapshot ⟨hsnapshot, hpending⟩
      dsimp only at hsnapshot hpending
      by_cases happ : appID = call.appID
      · subst happ
        rw [Function.update_self, hsnapshot] at hpending
        cases hpending
      · rw [Function.update_of_ne happ] at hpending
        rw [apply_other happ] at hsnapshot
        exact ⟨hsnapshot, hpending⟩
  next => exact hi

theorem HubInvariant.cleanup (hi : HubInvariant owner heard h) :
    HubInvariant owner heard { h with tracker := h.tracker.cleanup now } where
  tracked appID snapshot hsnapshot := hi.tracked appID snapshot (cleanup_snapshot hsnapshot)
  pending := hi.pending
  current appID snapshot snapshot' hpending hsnapshot :=
    hi.current appID snapshot snapshot' hpending (cleanup_snapshot hsnapshot)
  listed appID snapshot hsnapshot := hi.listed appID snapshot (cleanup_snapshot hsnapshot)
  client c := (hi.client c).mono fun _ _ hsettled =>
    ⟨cleanup_snapshot hsettled.1, hsettled.2⟩

theorem pending_cleared {pending : String → Option ProgressSnapshot} {name : String}
    {snapshot : ProgressSnapshot}
    (hpending : Function.update pending name none appID = some snapshot) :
    appID ≠ name ∧ pending appID = some snapshot := by
  by_cases happ : appID = name
  · rw [happ, Function.update_self] at hpending
    cases hpending
  · rw [Function.update_of_ne happ] at hpending
    exact ⟨happ, hpending⟩

/-- The frame of a publication is the last word on its job, and no word on any other. -/
theorem HubInvariant.publish (hi : HubInvariant owner heard h) :
    HubInvariant owner
      (fun c jobID => heard c jobID || AdminEventHub.hears c jobID (.publish stamp appID) h)
      (h.publish stamp appID) := by
  cases hpending : h.pending appID with
  | none =>
    have hsame : (fun c jobID => heard c jobID ||
        AdminEventHub.hears c jobID (.publish stamp appID) h) = heard := by
      funext c jobID
      simp [AdminEventHub.hears, hpending]
    rw [hsame, AdminEventHub.publish, hpending]
    exact hi
  | some snapshot =>
    obtain ⟨data, hdata⟩ : ∃ data, AdminEventHub.encode stamp (progressEvent snapshot) =
      some data := ⟨_, rfl⟩
    rw [AdminEventHub.publish, hpending]
    simp only [AdminEventHub.broadcast, hdata]
    refine ⟨hi.tracked, ?_, ?_, hi.listed, fun c => (hi.client c).offer ?_ ?_⟩
    · intro appID' snapshot' hpending'
      exact hi.pending appID' snapshot' (pending_cleared hpending').2
    · intro appID' first second hpending'
      exact hi.current appID' first second (pending_cleared hpending').2
    · intro hgone
      funext jobID
      simp [AdminEventHub.hears, hgone]
    · intro hmem appID' snapshot' ⟨hsnapshot', hpending'⟩
      dsimp only at hsnapshot' hpending'
      by_cases happ : appID' = appID
      · right
        subst happ
        obtain rfl := hi.current appID' snapshot snapshot' hpending hsnapshot'
        refine ⟨by simp [AdminEventHub.hears, hmem, hpending], fun progress => ?_⟩
        rw [progressAfter_compact hdata, Function.update_self]
      · left
        rw [Function.update_of_ne happ] at hpending'
        have hjob : snapshot'.jobID ≠ snapshot.jobID := by
          intro heq
          have howner := (hi.tracked appID' snapshot' hsnapshot').job
          rw [heq, (hi.pending appID snapshot hpending).job] at howner
          exact happ howner.symm
        refine ⟨⟨hsnapshot', hpending'⟩, ?_, fun progress => ?_⟩
        · simp [AdminEventHub.hears, hpending, Ne.symm hjob]
        · rw [progressAfter_compact hdata, Function.update_of_ne hjob]

/-- The events of a cancellation leave the jobs of the pages alone. -/
theorem HubInvariant.broadcastCancel {event : CancelEvent} (hi : HubInvariant owner heard h) :
    HubInvariant owner heard (h.broadcast stamp event.adminEvent) := by
  unfold AdminEventHub.broadcast
  split
  next => exact hi
  next payload hpayload =>
    refine ⟨hi.tracked, hi.pending, hi.current, hi.listed, fun c => ?_⟩
    refine (hi.client c).offer (fun _ => rfl) fun _ _ _ hsettled => Or.inl ?_
    exact ⟨hsettled, rfl, fun progress => by rw [progressAfter_cancel hpayload]⟩

theorem mem_snapshotAll {snapshot : ProgressSnapshot} : snapshot ∈ h.snapshotAll ↔
    ∃ appID ∈ h.apps, h.tracker.snapshot appID = some snapshot := by
  rw [AdminEventHub.snapshotAll, List.mem_filterMap]
  simp only [List.mem_insertionSort]

/-- The snapshot has every app of the tracker, settled or not. -/
theorem HubInvariant.snapshot {c : ℕ} (hi : HubInvariant owner heard h) :
    HubInvariant owner heard (AdminEventHub.step (.snapshot stamp c) h) := by
  apply hi.onClient
  apply (hi.client c).snapshot
  intro data hdata appID snapshot hsettled progress
  rw [progressAfter_snapshot hdata]
  apply mergeSnapshot_entry
  · intro other hmem
    obtain ⟨name, -, hother⟩ := mem_snapshotAll.mp hmem
    exact ⟨(hi.tracked name other hother).appID_ne, (hi.tracked name other hother).jobID_ne⟩
  · intro other hmem hjob
    obtain ⟨name, -, hother⟩ := mem_snapshotAll.mp hmem
    have hname : name = appID := by
      rw [← (hi.tracked name other hother).job, ← (hi.tracked appID snapshot hsettled.1).job, hjob]
    rw [hname, hsettled.1] at hother
    exact (Option.some.inj hother).symm
  · exact Or.inl (mem_snapshotAll.mpr ⟨appID, hi.listed appID snapshot hsettled.1, hsettled.1⟩)

/-- An action that is no publication is not heard. -/
theorem HubInvariant.unheard {a : HubAction} {h' : AdminEventHub}
    (hi : HubInvariant owner heard h')
    (hsilent : ∀ c jobID, AdminEventHub.hears c jobID a h = false) :
    HubInvariant owner (fun c jobID => heard c jobID || AdminEventHub.hears c jobID a h) h' := by
  have hsame : (fun c jobID => heard c jobID || AdminEventHub.hears c jobID a h) = heard := by
    funext c jobID
    rw [hsilent, Bool.or_false]
  rwa [hsame]

theorem HubInvariant.step {a : HubAction} (hi : HubInvariant owner heard h)
    (hissued : a.Issued owner) :
    HubInvariant owner (fun c jobID => heard c jobID || AdminEventHub.hears c jobID a h)
      (AdminEventHub.step a h) := by
  cases a with
  | publish stamp appID => exact hi.publish
  | track now call => exact (hi.track hissued).unheard fun _ _ => rfl
  | cleanup now => exact hi.cleanup.unheard fun _ _ => rfl
  | broadcastCancel stamp event => exact hi.broadcastCancel.unheard fun _ _ => rfl
  | addClient c page => exact (hi.onClient ((hi.client c).add page)).unheard fun _ _ => rfl
  | hello stamp c => exact (hi.onClient (hi.client c).hello).unheard fun _ _ => rfl
  | snapshot stamp c => exact hi.snapshot.unheard fun _ _ => rfl
  | forward c => exact (hi.onClient (hi.client c).forward).unheard fun _ _ => rfl
  | heartbeat stamp c =>
    have hclient := (hi.client c).heartbeat fun data hdata progress =>
      @progressAfter_heartbeat stamp data progress hdata
    exact (hi.onClient hclient).unheard fun _ _ => rfl
  | receive c => exact (hi.onClient (hi.client c).receive).unheard fun _ _ => rfl
  | removeClient c => exact (hi.onClient (hi.client c).remove).unheard fun _ _ => rfl
  | closeClient c => exact (hi.onClient (hi.client c).finish).unheard fun _ _ => rfl

theorem HubInvariant.run {actions : List HubAction} (hi : HubInvariant owner heard h)
    (hissued : ∀ a ∈ actions, a.Issued owner) :
    HubInvariant owner (fun c jobID => heard c jobID || AdminEventHub.heard c jobID actions h)
      (AdminEventHub.run actions h) := by
  induction actions generalizing heard h with
  | nil =>
    have hsame : (fun c jobID => heard c jobID || AdminEventHub.heard c jobID [] h) = heard := by
      funext c jobID
      exact Bool.or_false _
    rw [hsame]
    exact hi
  | cons a rest ih =>
    have hrun := ih (hi.step (hissued a List.mem_cons_self))
      fun b hb => hissued b (List.mem_cons_of_mem a hb)
    simp only [Bool.or_assoc] at hrun
    exact hrun

end Hub

/-- The entry has the phase and the bytes of the tracker, as JavaScript has such numbers: they are
the same up to 2^53, which no artifact comes near. -/
structure NormalizedProgress.Shows (e : NormalizedProgress) (snapshot : ProgressSnapshot) :
    Prop where
  phase : e.phase = snapshot.phase.text
  doneBytes : e.doneBytes = some (JsNumbers.ofInt snapshot.downloadedBytes : ℚ)
  totalBytes : e.totalBytes = if snapshot.totalBytes = -1 then none
    else some (JsNumbers.ofInt snapshot.totalBytes : ℚ)
  doneExact : snapshot.downloadedBytes.natAbs ≤ 2 ^ 53 →
    e.doneBytes = some (snapshot.downloadedBytes : ℚ)
  totalExact : snapshot.totalBytes.natAbs ≤ 2 ^ 53 →
    e.totalBytes = if snapshot.totalBytes = -1 then none else some (snapshot.totalBytes : ℚ)

section Entries

variable {owner : String → String} {appID : String} {snapshot : ProgressSnapshot}

theorem shows_of_bytes {e : NormalizedProgress} (hphase : e.phase = snapshot.phase.text)
    (hdone : e.doneBytes = some (JsNumbers.ofInt snapshot.downloadedBytes : ℚ))
    (htotal : e.totalBytes = if snapshot.totalBytes = -1 then none
      else some (JsNumbers.ofInt snapshot.totalBytes : ℚ)) : e.Shows snapshot := by
  refine ⟨hphase, hdone, htotal, ?_, ?_⟩
  · intro hexact
    rw [hdone, JsNumbers.ofInt_exact hexact]
  · intro hexact
    rw [htotal, JsNumbers.ofInt_exact hexact]

theorem compactEntry_shows (h : TrackedAs owner appID snapshot) :
    (compactEntry snapshot).Shows snapshot := by
  have hdone : (progressEventFrame snapshot).downloadedBytes.toInt = snapshot.downloadedBytes :=
    h.downloaded
  have htotal : (progressEventFrame snapshot).totalBytes.toInt = snapshot.totalBytes := h.total
  have hzero := Int64.toInt_zero
  apply shows_of_bytes rfl
  · rw [compactEntry, hdone]
  · have hsign : (progressEventFrame snapshot).totalBytes ≤ 0 ↔ snapshot.totalBytes ≤ 0 := by
      rw [Int64.le_iff_toInt_le, htotal, hzero]
    simp only [compactEntry, compactProgressOptionalTotal, hsign]
    obtain hunknown | hknown := h.known
    · rw [if_pos (by omega), if_pos hunknown, Option.map_none]
    · rw [if_neg (by omega), if_neg (by omega), Option.map_some, htotal]

theorem snapshotEntry_shows (h : TrackedAs owner appID snapshot) :
    (snapshotEntry snapshot).Shows snapshot := by
  apply shows_of_bytes rfl rfl
  have hpos : (0 : ℚ) < (JsNumbers.ofInt snapshot.totalBytes : ℚ) ↔ 0 < snapshot.totalBytes := by
    rw [Int.cast_pos, JsNumbers.ofInt_pos_iff]
  simp only [snapshotEntry, Option.filter_some, decide_eq_true_eq, hpos]
  obtain hunknown | hknown := h.known
  · rw [if_neg (by omega), if_pos hunknown]
  · rw [if_pos hknown, if_neg (by omega)]

theorem shown_shows (h : TrackedAs owner appID snapshot) (heard : Bool) :
    (shown heard snapshot).Shows snapshot := by
  cases heard with
  | false => exact snapshotEntry_shows h
  | true => exact compactEntry_shows h

end Entries

section Runs

variable {owner : String → String} {actions : List HubAction}

theorem run_invariant (hissued : ∀ a ∈ actions, a.Issued owner) :
    HubInvariant owner (fun c jobID => AdminEventHub.heard c jobID actions .empty)
      (AdminEventHub.run actions .empty) := by
  have hrun := (@empty_invariant owner).run hissued
  simp only [Bool.false_or] at hrun
  exact hrun

/-- A page that has handled everything has an entry of every settled job. -/
theorem drained_entry {owner : String → String} {heard : ℕ → String → Bool} {h : AdminEventHub}
    {c : ℕ} {appID : String} {snapshot : ProgressSnapshot} (hi : HubInvariant owner heard h)
    (hdrained : (h.clients c).Drained) (hsettled : h.Settled appID snapshot) :
    (h.clients c).page.progress snapshot.jobID =
      some (shown (heard c snapshot.jobID) snapshot) := by
  obtain ⟨hmem, hstage, hsend, hwire⟩ := hdrained
  have hentry := (hi.client c).streaming hmem hstage appID snapshot hsettled
  rwa [hsend, hwire] at hentry

/-- Whatever the order of the steps, nothing is sent on a closed channel, and in the end every
page that was never dropped shows what the tracker has. -/
theorem hub_converges (hissued : ∀ a ∈ actions, a.Issued owner) :
    (∀ c, ((AdminEventHub.run actions .empty).clients c).panicked = false) ∧
    ((∀ appID, (AdminEventHub.run actions .empty).pending appID = none) →
      ∀ c, ((AdminEventHub.run actions .empty).clients c).Drained →
      ∀ appID snapshot, (AdminEventHub.run actions .empty).tracker.snapshot appID = some snapshot →
        ∃ e, ((AdminEventHub.run actions .empty).clients c).page.progress snapshot.jobID = some e ∧
          e.Shows snapshot) := by
  have hi := run_invariant hissued
  refine ⟨fun c => (hi.client c).panicked, ?_⟩
  intro hpublished c hdrained appID snapshot hsnapshot
  have hentry := drained_entry hi hdrained ⟨hsnapshot, hpublished appID⟩
  exact ⟨_, hentry, shown_shows (hi.tracked appID snapshot hsnapshot) _⟩

end Runs

/-- One page is there when a deploy starts, the other one connects after the first update. -/
def lateJoin : List HubAction :=
  let stamp : EventStamp := ⟨"evt-1", "2026-01-02T03:04:05Z"⟩
  [.addClient 0 initialState, .hello stamp 0, .snapshot stamp 0,
    .track 0 (.start "a0" "1f" "v1"), .publish stamp "a0", .forward 0,
    .addClient 1 initialState, .hello stamp 1, .snapshot stamp 1,
    .receive 0, .receive 0, .receive 0, .receive 1, .receive 1]

theorem lateJoin_issued : ∀ a ∈ lateJoin, a.Issued fun _ => "a0" := by
  simp [lateJoin, HubAction.Issued]

theorem lateJoin_published (appID : String) :
    (AdminEventHub.run lateJoin .empty).pending appID = none := by
  change Function.update (Function.update (fun _ => none) "a0" _) "a0" none appID = none
  rw [Function.update_idem]
  simp

theorem lateJoin_drained : ((AdminEventHub.run lateJoin .empty).clients 0).Drained ∧
    ((AdminEventHub.run lateJoin .empty).clients 1).Drained :=
  ⟨⟨rfl, rfl, rfl, rfl⟩, ⟨rfl, rfl, rfl, rfl⟩⟩

/-- What the tracker has after `Start`. -/
def startedSnapshot : ProgressSnapshot := ⟨"a0", "1f", "v1", .downloading, 0, -1, 0, -1, 0⟩

theorem lateJoin_snapshot :
    (AdminEventHub.run lateJoin .empty).tracker.snapshot "a0" = some startedSnapshot := rfl

theorem lateJoin_converges :
    ((AdminEventHub.run lateJoin .empty).clients 0).panicked = false ∧
      ∃ e, ((AdminEventHub.run lateJoin .empty).clients 0).page.progress "1f" = some e ∧
        e.Shows startedSnapshot :=
  ⟨(hub_converges lateJoin_issued).1 0,
    (hub_converges lateJoin_issued).2 lateJoin_published 0 lateJoin_drained.1 "a0" startedSnapshot
      lateJoin_snapshot⟩

end AutoDeploy
