import AutoDeploy.DeployCancel

namespace AutoDeploy

open Interleaving

/-- From a tracker with `I`, the call ends with a tracker and a value with `J`, whatever happens
to the rest of the world. -/
def Tracks {α : Type} (I : ProgressTracker → Prop) (p : Deploy α)
    (J : ProgressTracker → α → Prop) : Prop :=
  ∀ own w, I w.tracker → p.Wp (fun _ w' value => J w'.tracker value) own w

/-- The call keeps what is known of the tracker, and its value is like this. -/
abbrev Keeps {α : Type} (I : ProgressTracker → Prop) (p : Deploy α) (R : α → Prop) : Prop :=
  Tracks I p fun pt value => I pt ∧ R value

/-- The error does not stand for a canceled deploy. -/
def Plain (err : GoError) : Prop := err.is .deployCanceled = false

/-- The error of a canceled deploy, or one that `errors.Is` tells apart from it. -/
def Verdict (err : GoError) : Prop := err = errDeployCanceled ∨ Plain err

abbrev PlainErr (err : Option GoError) : Prop := ∀ e, err = some e → Plain e

abbrev VerdictErr (err : Option GoError) : Prop := ∀ e, err = some e → Verdict e

abbrev PlainResult {α : Type} (result : Except GoError α) : Prop :=
  ∀ e, result = .error e → Plain e

theorem plainErr_none : PlainErr none := by
  intro e h
  cases h

theorem plainErr_some {err : GoError} (h : Plain err) : PlainErr (some err) := by
  intro e he
  exact Option.some.inj he ▸ h

theorem verdictErr_none : VerdictErr none := by
  intro e h
  cases h

theorem verdictErr_some {err : GoError} (h : Verdict err) : VerdictErr (some err) := by
  intro e he
  exact Option.some.inj he ▸ h

theorem plainResult_error {α : Type} {err : GoError} (h : Plain err) :
    PlainResult (.error err : Except GoError α) := by
  intro e he
  exact Except.error.inj he ▸ h

theorem plainResult_ok {α : Type} {value : α} : PlainResult (.ok value) := by
  intro e h
  cases h

section Tracks

variable {α β : Type} {I : ProgressTracker → Prop} {J : ProgressTracker → α → Prop}
  {p : Deploy α}

theorem tracks_pure {value : α} (h : ∀ pt, I pt → J pt value) : Tracks I (pure value) J :=
  fun _ w hI => h w.tracker hI

theorem tracks_bind {first : Deploy β} {rest : β → Deploy α} {M : ProgressTracker → β → Prop}
    (hf : Tracks I first M) (hr : ∀ value, Tracks (fun pt => M pt value) (rest value) J) :
    Tracks I (first >>= rest) J := by
  intro own w hI
  apply Prog.wp_bind (hf own w hI)
  intro own' w' value hM
  exact hr value own' w' hM

theorem keeps_bind {first : Deploy β} {rest : β → Deploy α} {R : β → Prop}
    (hf : Keeps I first R) (hr : ∀ value, R value → Tracks I (rest value) J) :
    Tracks I (first >>= rest) J :=
  tracks_bind hf fun value own w h => hr value h.2 own w h.1

theorem tracks_map {f : β → α} {q : Deploy β} (h : Tracks I q fun pt value => J pt (f value)) :
    Tracks I (f <$> q) J :=
  fun own w hI => Prog.wp_map (h own w hI)

theorem Tracks.mono {J' : ProgressTracker → α → Prop} (h : Tracks I p J)
    (hJ : ∀ pt value, J pt value → J' pt value) : Tracks I p J' :=
  fun own w hI => (h own w hI).mono fun _ w' value => hJ w'.tracker value

theorem keeps_pure {value : α} {R : α → Prop} (h : R value) : Keeps I (pure value) R :=
  tracks_pure fun _ hI => ⟨hI, h⟩

theorem tracks_call {run : DeployWorld → Answer → α × DeployWorld × List DeployEvent}
    (h : ∀ w k, I w.tracker → J (run w k).2.1.tracker (run w k).1) : Tracks I (call run) J :=
  fun _ w hI => wp_call fun k => h (w.meanwhile k) k hI

theorem keeps_call {run : DeployWorld → Answer → α × DeployWorld × List DeployEvent}
    {R : α → Prop} (htracker : ∀ w k, (run w k).2.1.tracker = w.tracker)
    (hvalue : ∀ w k, R (run w k).1) : Keeps I (call run) R :=
  tracks_call fun w k hI => ⟨(htracker w k).symm ▸ hI, hvalue w k⟩

theorem tracks_internal {effect : Answer → DeployWorld → DeployWorld} {J : ProgressTracker → Prop}
    (h : ∀ k w, I w.tracker → J (effect k w).tracker) :
    Tracks I (internal effect) fun pt _ => J pt :=
  tracks_call fun w k => h k w

theorem keeps_internal {effect : Answer → DeployWorld → DeployWorld}
    (h : ∀ k w, I w.tracker → I (effect k w).tracker) :
    Keeps I (internal effect) fun _ => True :=
  tracks_call fun w k hI => ⟨h k w hI, trivial⟩

theorem keeps_fallible {event : Option GoError → DeployEvent}
    {effect : DeployWorld → Answer → Except GoError DeployWorld}
    (herror : ∀ w k e, effect w k = .error e → Plain e)
    (hok : ∀ w k after, effect w k = .ok after → after.tracker = w.tracker) :
    Keeps I (fallible event effect) PlainErr := by
  intro own w hI
  apply wp_fallible
  · exact fun k text => ⟨hI, plainErr_some rfl⟩
  · exact fun k e h => ⟨hI, plainErr_some (herror _ _ _ h)⟩
  · intro k after h
    exact ⟨(hok _ _ _ h).symm ▸ hI, plainErr_none⟩

/-- A call on a file, which has to be there. -/
theorem keeps_file {event : Option GoError → DeployEvent} {path : DeployPath}
    {effect : DeployWorld → Content → DeployWorld}
    (h : ∀ w content, (effect w content).tracker = w.tracker) :
    Keeps I (fallible event fun w _ =>
      match w.disk.get path with
      | none => .error ⟨"no such file or directory", some .notExist⟩
      | some content => .ok (effect w content)) PlainErr := by
  apply keeps_fallible
  · intro w k e he
    split at he
    next => exact Except.error.inj he ▸ rfl
    next => cases he
  · intro w k after hafter
    split at hafter
    next => cases hafter
    next => exact Except.ok.inj hafter ▸ h w _

end Tracks

section Calls

variable {I : ProgressTracker → Prop} {jobID : String} {phase : DeployPhase}

theorem mkdirAll_keeps {dir : String} : Keeps I (mkdirAll dir) PlainErr :=
  keeps_fallible (fun _ _ _ h => by cases h) fun _ _ _ h => by rw [Except.ok.inj h]

theorem renameFile_keeps {src dst : DeployPath} : Keeps I (renameFile src dst) PlainErr :=
  keeps_file fun _ _ => rfl

theorem chmodFile_keeps : Keeps I chmodFile PlainErr :=
  @keeps_file I _ .tmp (fun w _ => w) fun _ _ => rfl

theorem osRemove_keeps {site : RemoveSite} : Keeps I (osRemove site) PlainErr :=
  @keeps_file I _ .tmp (fun w _ => { w with disk := w.disk.set none .tmp }) fun _ _ => rfl

theorem removeIfExists_keeps {site : RemoveSite} : Keeps I (removeIfExists site) PlainErr := by
  apply keeps_bind osRemove_keeps
  rintro (_ | e) hplain
  · exact keeps_pure plainErr_none
  · apply keeps_pure
    split
    next => exact plainErr_none
    next => exact hplain

theorem osStat_keeps {path : DeployPath} : Keeps I (osStat path) fun _ => True :=
  keeps_call (fun _ _ => rfl) fun _ _ => trivial

theorem systemctlRestart_keeps {site : RestartSite} :
    Keeps I (systemctlRestart site) fun out => PlainErr out.1 := by
  apply keeps_call (fun _ _ => rfl)
  intro w k e h
  obtain ⟨text, -, rfl⟩ := Option.map_eq_some_iff.mp h
  rfl

theorem systemctlIsActive_keeps : Keeps I systemctlIsActive fun _ => True :=
  keeps_call (fun _ _ => rfl) fun _ _ => trivial

theorem contextErr_keeps : Keeps I contextErr PlainErr := by
  apply keeps_call (fun _ _ => rfl)
  intro w k e h
  dsimp only at h
  split at h
  next => exact Option.some.inj h ▸ rfl
  next => cases h

theorem readStatus_keeps : Keeps I (readStatus phase) PlainResult := by
  apply keeps_call
  · intro w k
    cases k.fault <;> rfl
  · intro w k e h
    cases hk : k.fault with
    | some text =>
      simp only [hk, Except.error.injEq] at h
      exact h ▸ rfl
    | none => simp [hk] at h

theorem writeTerminal_keeps {status : JobStatus} {message : String} :
    Keeps I (writeTerminal phase status message) PlainErr := by
  apply keeps_fallible
  · intro w k e h
    cases h
  · intro w k after h
    rw [← Except.ok.inj h]
    split <;> rfl

theorem controlCheckpoint_keeps : Keeps I (controlCheckpoint jobID phase) PlainResult := by
  unfold controlCheckpoint
  apply keeps_bind readStatus_keeps
  rintro (e | status) hplain
  · exact keeps_pure (plainResult_error (hplain e rfl))
  · dsimp only
    split
    next => exact keeps_pure plainResult_ok
    next terminal _ =>
      apply keeps_bind writeTerminal_keeps
      rintro (_ | e) hplain
      · exact keeps_pure plainResult_ok
      · exact keeps_pure (plainResult_error (hplain e rfl))

theorem concludeCancel_keeps {err : GoError} (h : Verdict err) :
    Keeps I (concludeCancel jobID phase err) Verdict := by
  unfold concludeCancel
  apply keeps_bind controlCheckpoint_keeps
  rintro (e | decision) hplain
  · exact keeps_pure (Or.inr (hplain e rfl))
  · exact keeps_pure h

/-- The report of a cancel, as a checkpoint returns it. -/
theorem concluded_keeps {err : GoError} (h : Verdict err) :
    Keeps I (some <$> concludeCancel jobID phase err) VerdictErr := by
  apply tracks_map
  apply (concludeCancel_keeps h).mono
  rintro pt e ⟨hI, hverdict⟩
  exact ⟨hI, verdictErr_some hverdict⟩

theorem finishCanceledCleanup_keeps : Keeps I (finishCanceledCleanup jobID) PlainErr := by
  unfold finishCanceledCleanup
  apply keeps_bind controlCheckpoint_keeps
  rintro (e | decision) hplain
  · exact keeps_pure (plainErr_some (hplain e rfl))
  · apply keeps_bind removeIfExists_keeps
    rintro (_ | e) hplain
    · apply keeps_bind controlCheckpoint_keeps
      rintro (e | decision) hplain
      · exact keeps_pure (plainErr_some (hplain e rfl))
      · exact keeps_pure plainErr_none
    · unfold concludeCancel
      apply tracks_map
      apply keeps_bind controlCheckpoint_keeps
      rintro (e' | decision) hplain'
      · exact keeps_pure (plainErr_some (hplain' e' rfl))
      · exact keeps_pure (plainErr_some (hplain e rfl))

/-- A checkpoint keeps what its cleanup after a cancel keeps. -/
theorem checkpoint_keeps {control : Bool} {cleanup : Deploy (Option GoError)}
    (h : Keeps I cleanup VerdictErr) :
    Keeps I (if control then do
        match ← controlCheckpoint jobID phase with
        | .error err => return some err
        | .ok decision => if decision.cancelRequested then cleanup else return none
      else return none) VerdictErr := by
  split
  next =>
    apply keeps_bind controlCheckpoint_keeps
    rintro (e | decision) hplain
    · exact keeps_pure (verdictErr_some (Or.inr (hplain e rfl)))
    · dsimp only
      split
      next => exact h
      next => exact keeps_pure verdictErr_none
  next => exact keeps_pure verdictErr_none

theorem checkpointCleanupTemp_keeps {d : Deployment} :
    Keeps I (checkpointCleanupTemp d phase) VerdictErr := by
  apply checkpoint_keeps
  apply keeps_bind removeIfExists_keeps
  rintro (_ | e) hplain
  · exact concluded_keeps (Or.inl rfl)
  · exact concluded_keeps (Or.inr (hplain e rfl))

theorem checkpointRestoreBackup_keeps {d : Deployment} {backupCreated : Bool} :
    Keeps I (checkpointRestoreBackup d backupCreated) VerdictErr := by
  apply checkpoint_keeps
  apply keeps_bind removeIfExists_keeps
  rintro (_ | e) hplain
  · dsimp only
    split
    next =>
      apply keeps_bind renameFile_keeps
      rintro (_ | e) hplain
      · exact concluded_keeps (Or.inl rfl)
      · exact concluded_keeps (Or.inr (hplain e rfl))
    next => exact concluded_keeps (Or.inl rfl)
  · exact concluded_keeps (Or.inr (hplain e rfl))

theorem checkpointRollbackInstalled_keeps {d : Deployment} {backupCreated : Bool} :
    Keeps I (checkpointRollbackInstalled d phase backupCreated) VerdictErr := by
  apply checkpoint_keeps
  split
  next =>
    apply keeps_bind renameFile_keeps
    rintro (_ | e) hplain
    · apply keeps_bind systemctlRestart_keeps
      rintro ⟨_ | e, out⟩ hplain
      · exact concluded_keeps (Or.inl rfl)
      · exact concluded_keeps (Or.inr (hplain e rfl))
    · exact concluded_keeps (Or.inr (hplain e rfl))
  next => exact concluded_keeps (Or.inr rfl)

end Calls

end AutoDeploy
