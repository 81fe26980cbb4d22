import AutoDeploy.FrameWriter
import AutoDeploy.ProgressProtocol

namespace AutoDeploy.ProgressPolling

open FrameWriter

/-- The values of `app_id` and `job_id` in the query of the request. -/
structure ProgressQuery where
  appIDs : List String
  jobIDs : List String

/-- Trimmed values, without the empty ones and the repetitions. -/
def uniqueSorted (values : List String) : List String :=
  (values.foldl (fun result value =>
    let value := GoStrings.trimSpace value
    if value = "" ∨ value ∈ result then result else result ++ [value]) []).mergeSort (· ≤ ·)

/-- A set that is empty lets everything pass. -/
def passes (filter : List String) (value : String) : Bool := filter.isEmpty || filter.contains value

def snapshotLE (a b : ProgressSnapshot) : Bool :=
  if a.appID = b.appID then decide (a.jobID ≤ b.jobID) else decide (a.appID ≤ b.appID)

/-- `snapshots` is what `SnapshotAll` returns, in the order of the map. -/
def matchingProgressSnapshots (q : ProgressQuery) (snapshots : List ProgressSnapshot) :
    List ProgressSnapshot :=
  (snapshots.mergeSort snapshotLE).filter fun snap =>
    passes (uniqueSorted q.appIDs) snap.appID && passes (uniqueSorted q.jobIDs) snap.jobID

def frameKey (snap : ProgressSnapshot) : String := snap.appID ++ "\x00" ++ snap.jobID

abbrev Connection := FrameOutput String GoBytes

/-- `writes` says which of the writes to the connection succeed. -/
def writeProgressFrame (writes : ℕ → Bool) (c : Connection) (snap : ProgressSnapshot) :
    Connection :=
  match progressSnapshotFrame snap with
  | .error _ => c
  | .ok frame => offer writes c (frameKey snap, frame)

def writeMatchingProgressFrames (q : ProgressQuery) (writes : ℕ → Bool) (c : Connection)
    (snapshots : List ProgressSnapshot) : Connection :=
  (matchingProgressSnapshots q snapshots).foldl (writeProgressFrame writes) c

/-- The first write of the frames, and one more at each tick. -/
def progressWebSocket (q : ProgressQuery) (writes : ℕ → Bool)
    (polls : List (List ProgressSnapshot)) : Connection :=
  polls.foldl (writeMatchingProgressFrames q writes) (opened [])

/-- The request asks for this deployment. -/
def ProgressQuery.Asks (q : ProgressQuery) (snap : ProgressSnapshot) : Prop :=
  ((∀ raw ∈ q.appIDs, GoStrings.trimSpace raw = "") ∨
    ∃ raw ∈ q.appIDs, GoStrings.trimSpace raw ≠ "" ∧ GoStrings.trimSpace raw = snap.appID) ∧
  ((∀ raw ∈ q.jobIDs, GoStrings.trimSpace raw = "") ∨
    ∃ raw ∈ q.jobIDs, GoStrings.trimSpace raw ≠ "" ∧ GoStrings.trimSpace raw = snap.jobID)

/-- The keyed frame of a snapshot. -/
def keyedFrame? (snap : ProgressSnapshot) : Option (String × GoBytes) :=
  match progressSnapshotFrame snap with
  | .error _ => none
  | .ok frame => some (frameKey snap, frame)

/-- The frames of one poll, with or without a change since the last one. -/
def polled (q : ProgressQuery) (snapshots : List ProgressSnapshot) : List (String × GoBytes) :=
  (matchingProgressSnapshots q snapshots).filterMap keyedFrame?

section Filter

variable {q : ProgressQuery} {snap : ProgressSnapshot} {snapshots : List ProgressSnapshot}

theorem mem_uniqueSorted {values : List String} {value : String} : value ∈ uniqueSorted values ↔
    value ≠ "" ∧ ∃ raw ∈ values, GoStrings.trimSpace raw = value := by
  unfold uniqueSorted
  rw [List.mem_mergeSort]
  induction values using List.reverseRecOn with
  | nil => simp
  | append_singleton values last ih =>
    rw [List.foldl_append, List.foldl_cons, List.foldl_nil]
    dsimp only
    split
    next h =>
      rw [ih]
      constructor
      · rintro ⟨hne, raw, hraw, he⟩
        exact ⟨hne, raw, List.mem_append_left _ hraw, he⟩
      · rintro ⟨hne, raw, hraw, he⟩
        rcases List.mem_append.mp hraw with hraw | hraw
        · exact ⟨hne, raw, hraw, he⟩
        · rw [List.mem_singleton] at hraw
          subst hraw
          rw [he] at h
          exact ih.mp (h.resolve_left hne)
    next h =>
      rw [List.mem_append, ih, List.mem_singleton]
      constructor
      · rintro (⟨hne, raw, hraw, he⟩ | rfl)
        · exact ⟨hne, raw, List.mem_append_left _ hraw, he⟩
        · exact ⟨fun he => h (Or.inl he), last, by simp, rfl⟩
      · rintro ⟨hne, raw, hraw, he⟩
        rcases List.mem_append.mp hraw with hraw | hraw
        · exact Or.inl ⟨hne, raw, hraw, he⟩
        · rw [List.mem_singleton] at hraw
          subst hraw
          exact Or.inr he.symm

theorem passes_uniqueSorted {values : List String} {value : String} :
    passes (uniqueSorted values) value = true ↔
      (∀ raw ∈ values, GoStrings.trimSpace raw = "") ∨
        ∃ raw ∈ values, GoStrings.trimSpace raw ≠ "" ∧ GoStrings.trimSpace raw = value := by
  have hempty : (uniqueSorted values).isEmpty = true ↔
      ∀ raw ∈ values, GoStrings.trimSpace raw = "" := by
    rw [List.isEmpty_iff, List.eq_nil_iff_forall_not_mem]
    constructor
    · intro h raw hraw
      by_contra hne
      exact h _ (mem_uniqueSorted.mpr ⟨hne, raw, hraw, rfl⟩)
    · intro h value hm
      obtain ⟨hne, raw, hraw, he⟩ := mem_uniqueSorted.mp hm
      exact hne (he.symm.trans (h raw hraw))
  unfold passes
  rw [Bool.or_eq_true, hempty, List.contains_iff_mem, mem_uniqueSorted]
  refine or_congr Iff.rfl ?_
  constructor
  · rintro ⟨hne, raw, hraw, rfl⟩
    exact ⟨raw, hraw, hne, rfl⟩
  · rintro ⟨raw, hraw, hne, rfl⟩
    exact ⟨hne, raw, hraw, rfl⟩

theorem mem_matching : snap ∈ matchingProgressSnapshots q snapshots ↔
    snap ∈ snapshots ∧ q.Asks snap := by
  unfold matchingProgressSnapshots ProgressQuery.Asks
  rw [List.mem_filter, List.mem_mergeSort, Bool.and_eq_true, passes_uniqueSorted,
    passes_uniqueSorted]

end Filter

section Polled

variable {q : ProgressQuery} {writes : ℕ → Bool} {snap : ProgressSnapshot} {frame : GoBytes}

theorem keyedFrame?_eq_some {item : String × GoBytes} : keyedFrame? snap = some item ↔
    item.1 = frameKey snap ∧ progressSnapshotFrame snap = .ok item.2 := by
  unfold keyedFrame?
  cases progressSnapshotFrame snap with
  | error e => simp
  | ok frame =>
    simp only [Option.some.injEq, Except.ok.injEq]
    constructor
    · rintro rfl
      exact ⟨rfl, rfl⟩
    · rintro ⟨hkey, hframe⟩
      exact Prod.ext hkey.symm hframe

theorem mem_polled {snapshots : List ProgressSnapshot} {item : String × GoBytes} :
    item ∈ polled q snapshots ↔ ∃ snap ∈ snapshots, q.Asks snap ∧
      item.1 = frameKey snap ∧ progressSnapshotFrame snap = .ok item.2 := by
  unfold polled
  rw [List.mem_filterMap]
  constructor
  · rintro ⟨snap, hm, hitem⟩
    obtain ⟨hsnap, hasks⟩ := mem_matching.mp hm
    exact ⟨snap, hsnap, hasks, keyedFrame?_eq_some.mp hitem⟩
  · rintro ⟨snap, hsnap, hasks, hitem⟩
    exact ⟨snap, mem_matching.mpr ⟨hsnap, hasks⟩, keyedFrame?_eq_some.mpr hitem⟩

theorem progressSnapshotFrame_ne_nil (h : progressSnapshotFrame snap = .ok frame) :
    frame ≠ [] := by
  unfold progressSnapshotFrame at h
  rw [encodeProgressFrame_ok (encodeProgressFrame_iff.mp ⟨frame, h⟩)] at h
  cases h
  intro hnil
  simp [progressFrameParts, List.intercalate] at hnil

/-- One poll offers its frames, one after the other. -/
theorem writeMatching_eq (c : Connection) (snapshots : List ProgressSnapshot) :
    writeMatchingProgressFrames q writes c snapshots =
      (polled q snapshots).foldl (offer writes) c := by
  unfold writeMatchingProgressFrames polled
  generalize matchingProgressSnapshots q snapshots = matching
  induction matching generalizing c with
  | nil => rfl
  | cons snap rest ih =>
    rw [List.foldl_cons, ih]
    unfold writeProgressFrame
    cases h : progressSnapshotFrame snap with
    | error e => simp [keyedFrame?, h]
    | ok frame => simp [keyedFrame?, h]

theorem progressWebSocket_eq (polls : List (List ProgressSnapshot)) :
    progressWebSocket q writes polls =
      (polls.flatMap (polled q)).foldl (offer writes) (opened []) := by
  unfold progressWebSocket
  generalize opened [] = c
  induction polls generalizing c with
  | nil => rfl
  | cons poll rest ih =>
    rw [List.foldl_cons, ih, writeMatching_eq, List.flatMap_cons, List.foldl_append]

/-- Ids without the separator are read back from a key. -/
theorem frameKey_inj {other : ProgressSnapshot} (happ : '\x00' ∉ snap.appID.toList)
    (happ' : '\x00' ∉ other.appID.toList) (h : frameKey snap = frameKey other) :
    snap.appID = other.appID := by
  have hchars := congrArg String.toList h
  have hsep : "\x00".toList = ['\x00'] := by decide
  simp only [frameKey, String.toList_append, hsep, List.append_assoc, List.singleton_append]
    at hchars
  have hcut := congrArg (List.takeWhile (· ≠ '\x00')) hchars
  have htake : ∀ {cs rest : List Char}, '\x00' ∉ cs →
      (cs ++ '\x00' :: rest).takeWhile (· ≠ '\x00') = cs := by
    intro cs rest hm
    rw [List.takeWhile_append_of_pos, List.takeWhile_cons_of_neg (by simp), List.append_nil]
    intro c hc
    exact decide_eq_true fun he => hm (he ▸ hc)
  rw [htake happ, htake happ'] at hcut
  exact String.toList_injective hcut

end Polled

/-- What a client gets to read in these polls: only what it asks for, in the order of the polls,
for each key without the repetitions and up to the first write that failed, and up to the frame
of the last poll if that one has listed a tracker. -/
structure Polled (q : ProgressQuery) (writes : ℕ → Bool) (polls : List (List ProgressSnapshot))
    (c : Connection) : Prop where
  asked : ∀ item ∈ c.written, ∃ poll ∈ polls, ∃ snap ∈ poll, q.Asks snap ∧
    item.1 = frameKey snap ∧ progressSnapshotFrame snap = .ok item.2
  written : ∃ seen, Until writes (polls.flatMap (polled q)) seen c ∧ c.written.Sublist seen ∧
    ∀ key, framesOf key c.written = (framesOf key seen).destutter (· ≠ ·)
  latest : c.live = true → ∀ (pt : ProgressTracker) (earlier : List (List ProgressSnapshot))
    (last : List ProgressSnapshot), polls = earlier ++ [last] →
    (∀ snap, snap ∈ last ↔ pt.snapshot snap.appID = some snap) →
    (∀ snap ∈ last, '\x00' ∉ snap.appID.toList) → ∀ snap ∈ last, q.Asks snap →
    ∃ frame, progressSnapshotFrame snap = .ok frame ∧
      (framesOf (frameKey snap) c.written).getLast? = some frame

theorem getLast?_append_all {α : Type} {earlier last : List α} {a : α} (hm : a ∈ last)
    (hall : ∀ b ∈ last, b = a) : (earlier ++ last).getLast? = some a := by
  obtain ⟨init, b, rfl⟩ := List.eq_nil_or_concat last |>.resolve_left (List.ne_nil_of_mem hm)
  rw [List.concat_eq_append, ← List.append_assoc, List.getLast?_concat, hall b (by simp)]

/-- In a listing of the tracker one app has one entry, so every frame under its key is its frame. -/
theorem listed_frame {q : ProgressQuery} {last : List ProgressSnapshot} {pt : ProgressTracker}
    (hlisted : ∀ snap, snap ∈ last ↔ pt.snapshot snap.appID = some snap)
    (hnul : ∀ snap ∈ last, '\x00' ∉ snap.appID.toList) {snap : ProgressSnapshot}
    (hsnap : snap ∈ last) {frame other : GoBytes} (hframe : progressSnapshotFrame snap = .ok frame)
    (hother : other ∈ framesOf (frameKey snap) (polled q last)) : other = frame := by
  obtain ⟨snap', hsnap', -, hkey, hframe'⟩ := mem_polled.mp (mem_framesOf.mp hother)
  have happ := frameKey_inj (hnul snap hsnap) (hnul snap' hsnap') hkey
  have hsame := (hlisted snap).mp hsnap
  rw [happ, (hlisted snap').mp hsnap'] at hsame
  cases hsame
  exact Except.ok.inj (hframe'.symm.trans hframe)

/-- A connection that polls the tracker writes what one would that writes every frame of every
poll, without the repetitions, for all snapshots and filters and whichever write fails. -/
theorem progress_polled (q : ProgressQuery) (writes : ℕ → Bool)
    (polls : List (List ProgressSnapshot)) :
    Polled q writes polls (progressWebSocket q writes polls) := by
  have hne : ∀ item ∈ polls.flatMap (polled q), item.2 ≠ [] := by
    intro item hm
    obtain ⟨poll, -, hitem⟩ := List.mem_flatMap.mp hm
    obtain ⟨snap, -, -, -, hframe⟩ := mem_polled.mp hitem
    exact progressSnapshotFrame_ne_nil hframe
  obtain ⟨seen, hfront, huntil, hfollows⟩ := offers_follows writes _ hne
  rw [← progressWebSocket_eq] at huntil hfollows
  refine ⟨?_, ⟨seen, huntil, hfollows.order, hfollows.written⟩, ?_⟩
  · intro item hm
    have hframe : item.2 ∈ framesOf item.1 (progressWebSocket q writes polls).written :=
      mem_framesOf.mpr hm
    rw [hfollows.written] at hframe
    have hseen := mem_framesOf.mp ((List.destutter_sublist _ _).subset hframe)
    obtain ⟨poll, hpoll, hitem⟩ := List.mem_flatMap.mp (hfront.subset hseen)
    exact ⟨poll, hpoll, mem_polled.mp hitem⟩
  · intro hopen pt earlier last hpolls hlisted hnul snap hsnap hasks
    obtain ⟨frame, hframe⟩ : ∃ frame, progressSnapshotFrame snap = .ok frame :=
      ⟨_, progressSnapshotFrame_ok snap⟩
    refine ⟨frame, hframe, ?_⟩
    rw [hfollows.written, getLast?_destutter, huntil.live hopen, hpolls, List.flatMap_append,
      framesOf_append, List.flatMap_singleton]
    apply getLast?_append_all
    · exact mem_framesOf.mpr (mem_polled.mpr ⟨snap, hsnap, hasks, rfl, hframe⟩)
    · intro other hother
      exact listed_frame hlisted hnul hsnap hframe hother

end AutoDeploy.ProgressPolling
