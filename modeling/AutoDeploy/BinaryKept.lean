import AutoDeploy.DeploySequence
import AutoDeploy.InterleavingRestart

namespace AutoDeploy

open Interleaving

/-- A condition on what is at the path of the binary and in its backup. -/
def Files (K : Option Content → Option Content → Prop) (w : DeployWorld) : Prop :=
  K w.disk.binary w.disk.backup

section Quiet

variable {K : Option Content → Option Content → Prop} {α β : Type}

/-- A call that leaves both files where they are. -/
theorem stays_call {run : DeployWorld → Answer → α × DeployWorld × List DeployEvent}
    (h : ∀ w k, (run w k).2.1.disk.binary = w.disk.binary ∧
      (run w k).2.1.disk.backup = w.disk.backup) : (call run).Stays (Files K) := by
  apply Prog.stays_atomic
  intro w k hw
  obtain ⟨hbinary, hbackup⟩ := h (w.meanwhile k) k
  unfold Files
  rw [hbinary, hbackup]
  exact hw

theorem stays_fallible {event : Option GoError → DeployEvent}
    {effect : DeployWorld → Answer → Except GoError DeployWorld}
    (h : ∀ w k after, effect w k = .ok after →
      after.disk.binary = w.disk.binary ∧ after.disk.backup = w.disk.backup) :
    (fallible event effect).Stays (Files K) := by
  apply stays_call
  intro w k
  split
  next => exact ⟨rfl, rfl⟩
  next =>
    split
    next => exact ⟨rfl, rfl⟩
    next after he => exact h w k after he

theorem stays_internal {effect : Answer → DeployWorld → DeployWorld}
    (h : ∀ k w, (effect k w).disk = w.disk) : (internal effect).Stays (Files K) :=
  stays_call fun w k => ⟨congrArg Disk.binary (h k w), congrArg Disk.backup (h k w)⟩

theorem stays_trackerSetPhase {appID : String} {phase : ProgressStage} :
    (trackerSetPhase appID phase).Stays (Files K) :=
  stays_internal fun _ _ => rfl

theorem stays_osRemove {site : RemoveSite} : (osRemove site).Stays (Files K) := by
  apply stays_fallible
  intro w k after h
  split at h
  next => cases h
  next =>
    cases h
    exact ⟨rfl, rfl⟩

theorem stays_removeIfExists {site : RemoveSite} : (removeIfExists site).Stays (Files K) := by
  apply Prog.stays_bind stays_osRemove
  intro err
  cases err with
  | none => exact Prog.stays_pure
  | some err => exact Prog.stays_pure

theorem stays_controlCheckpoint {jobID : String} {phase : DeployPhase} :
    (controlCheckpoint jobID phase).Stays (Files K) := by
  have hread : (readStatus phase).Stays (Files K) := by
    apply stays_call
    intro w k
    split
    next => exact ⟨rfl, rfl⟩
    next => exact ⟨rfl, rfl⟩
  apply Prog.stays_bind hread
  intro result
  cases result with
  | error err => exact Prog.stays_pure
  | ok status =>
    dsimp only
    split
    next => exact Prog.stays_pure
    next terminal _ =>
      have hwrite : ∀ message : String,
          (writeTerminal phase terminal message).Stays (Files K) := by
        intro message
        apply stays_fallible
        intro w k after h
        cases h
        split
        next => exact ⟨rfl, rfl⟩
        next => exact ⟨rfl, rfl⟩
      apply Prog.stays_bind (hwrite _)
      intro err
      cases err with
      | none => exact Prog.stays_pure
      | some err => exact Prog.stays_pure

theorem stays_concludeCancel {jobID : String} {phase : DeployPhase} {err : GoError} :
    (concludeCancel jobID phase err).Stays (Files K) := by
  apply Prog.stays_bind stays_controlCheckpoint
  intro result
  cases result with
  | error e => exact Prog.stays_pure
  | ok decision => exact Prog.stays_pure

theorem stays_finishCanceledCleanup {jobID : String} :
    (finishCanceledCleanup jobID).Stays (Files K) := by
  apply Prog.stays_bind stays_controlCheckpoint
  intro result
  cases result with
  | error e => exact Prog.stays_pure
  | ok decision =>
    apply Prog.stays_bind stays_removeIfExists
    intro removed
    cases removed with
    | some err => exact Prog.stays_map stays_concludeCancel
    | none =>
      apply Prog.stays_bind stays_controlCheckpoint
      intro completed
      cases completed with
      | error e => exact Prog.stays_pure
      | ok decision => exact Prog.stays_pure

theorem stays_checkpointCleanupTemp {d : Deployment} {phase : DeployPhase} :
    (checkpointCleanupTemp d phase).Stays (Files K) := by
  unfold checkpointCleanupTemp
  split
  next =>
    apply Prog.stays_bind stays_controlCheckpoint
    intro result
    cases result with
    | error e => exact Prog.stays_pure
    | ok decision =>
      dsimp only
      split
      next =>
        apply Prog.stays_bind stays_removeIfExists
        intro removed
        cases removed with
        | some err => exact Prog.stays_map stays_concludeCancel
        | none => exact Prog.stays_map stays_concludeCancel
      next => exact Prog.stays_pure
  next => exact Prog.stays_pure

theorem stays_failed {d : Deployment} {summary : DownloadSummary} {cleanup : Bool}
    {err : GoError} : (failed d summary cleanup err).Stays (Files K) :=
  Prog.stays_bind (stays_internal fun _ _ => rfl) fun _ => Prog.stays_pure

theorem stays_stopped {d : Deployment} {summary : DownloadSummary} {cleanup : Bool}
    {err : GoError} : (stopped d summary cleanup err).Stays (Files K) := by
  unfold stopped
  split
  next => exact Prog.stays_pure
  next => exact stays_failed

theorem stays_contextErr : contextErr.Stays (Files K) := stays_call fun _ _ => ⟨rfl, rfl⟩

theorem stays_systemctlRestart {site : RestartSite} :
    (systemctlRestart site).Stays (Files K) :=
  stays_call fun _ _ => ⟨rfl, rfl⟩

end Quiet

section Download

variable {K : Option Content → Option Content → Prop} {appID url : String} {headers : Headers}

theorem stays_downloadAttempts (n : ℕ) (last : GoError) :
    (downloadAttempts url headers n last).Stays (Files K) := by
  induction n generalizing last with
  | zero => exact Prog.stays_pure
  | succ n ih =>
    apply Prog.stays_bind stays_contextErr
    intro canceled
    cases canceled with
    | some err => exact Prog.stays_pure
    | none =>
      have hrequest : (doWithRedirects url headers).Stays (Files K) := by
        apply stays_call
        intro w k
        split
        next => exact ⟨rfl, rfl⟩
        next => exact ⟨rfl, rfl⟩
      apply Prog.stays_bind hrequest
      intro result
      cases result with
      | error e =>
        apply Prog.stays_bind stays_contextErr
        intro canceled
        cases canceled with
        | some err => exact Prog.stays_pure
        | none =>
          dsimp only
          split
          next => exact ih e.err
          next => exact Prog.stays_pure
      | ok resp =>
        dsimp only
        split
        next => exact ih _
        next =>
          split
          next => exact Prog.stays_pure
          next => exact Prog.stays_pure

theorem stays_rejectDownload {err : GoError} : (rejectDownload err).Stays (Files K) :=
  Prog.stays_bind (Prog.stays_bind stays_osRemove fun _ => Prog.stays_pure)
    fun _ => Prog.stays_pure

theorem stays_acceptDownload {resp : HttpResponse} {maxBytes : Int} {written : ℕ} :
    (acceptDownload resp maxBytes written).Stays (Files K) := by
  apply Prog.stays_bind stays_contextErr
  intro canceled
  cases canceled with
  | some err => exact stays_rejectDownload
  | none =>
    dsimp only
    split
    next => exact stays_rejectDownload
    next =>
      split
      next => exact stays_rejectDownload
      next =>
        have hclose : closeTmp.Stays (Files K) := by
          apply stays_fallible
          intro w k after h
          cases h
          exact ⟨rfl, rfl⟩
        apply Prog.stays_bind hclose
        intro closed
        cases closed with
        | some err => exact stays_rejectDownload
        | none => exact Prog.stays_bind (stays_call fun _ _ => ⟨rfl, rfl⟩) fun _ => Prog.stays_pure

theorem stays_copyFailed {resp : HttpResponse} {written : ℕ} {err : GoError} :
    (copyFailed resp written err).Stays (Files K) := by
  apply Prog.stays_bind (Prog.stays_bind stays_osRemove fun _ => Prog.stays_pure)
  intro _
  apply Prog.stays_bind stays_contextErr
  intro canceled
  cases canceled with
  | some err => exact Prog.stays_pure
  | none =>
    dsimp only
    split
    next => exact Prog.stays_pure
    next => exact Prog.stays_pure

theorem stays_downloadBinaryContext {maxBytes : Int} :
    (downloadBinaryContext appID url headers maxBytes).Stays (Files K) := by
  apply Prog.stays_bind (stays_downloadAttempts 3 _)
  intro response
  cases response with
  | error err => exact Prog.stays_pure
  | ok resp =>
    dsimp only
    split
    next => exact Prog.stays_pure
    next =>
      split
      next => exact Prog.stays_pure
      next =>
        have hcreate : createTmp.Stays (Files K) := by
          apply stays_fallible
          intro w k after h
          cases h
          exact ⟨rfl, rfl⟩
        apply Prog.stays_bind hcreate
        intro created
        cases created with
        | some err => exact Prog.stays_pure
        | none =>
          apply Prog.stays_bind (stays_call fun _ _ => ⟨rfl, rfl⟩)
          intro copied
          obtain ⟨written, _ | err⟩ := copied
          · exact stays_acceptDownload
          · exact stays_copyFailed

theorem stays_validateDownloadedArtifact : validateDownloadedArtifact.Stays (Files K) := by
  apply Prog.stays_bind (stays_call fun _ _ => ⟨rfl, rfl⟩)
  intro size
  cases size with
  | none => exact Prog.stays_pure
  | some size =>
    dsimp only
    split
    next => exact Prog.stays_pure
    next =>
      split
      next => exact Prog.stays_pure
      next =>
        have hopen : openTmp.Stays (Files K) := by
          apply stays_fallible
          intro w k after h
          cases h
          exact ⟨rfl, rfl⟩
        apply Prog.stays_bind hopen
        intro opened
        cases opened with
        | some err => exact Prog.stays_pure
        | none =>
          have hread : readMagic.Stays (Files K) := by
            apply stays_call
            intro w k
            split
            next => exact ⟨rfl, rfl⟩
            next => exact ⟨rfl, rfl⟩
          apply Prog.stays_bind hread
          intro magic
          cases magic with
          | error err => exact Prog.stays_pure
          | ok magic =>
            dsimp only
            split
            next => exact Prog.stays_pure
            next => exact Prog.stays_pure

end Download

section Renames

variable {previous : Content} {d : Deployment} {summary : DownloadSummary} {w : DeployWorld}

/-- The binary that the run started with is at its path. -/
abbrev AtPath (previous : Content) : DeployWorld → Prop :=
  Files fun binary _ => binary = some previous

/-- The binary that the run started with is in the backup. -/
abbrev BackedUp (previous : Content) : DeployWorld → Prop :=
  Files fun _ backup => backup = some previous

/-- The claim about every moment of the run. -/
abbrev BinaryIntact (previous : Content) : DeployWorld → Prop :=
  Files fun binary backup => binary = some previous ∨ backup = some previous

/-- A rename fails and leaves the files alone, or it moves one of them. -/
theorem always_renameFile {J : DeployWorld → Prop} {Q : DeployWorld → Option GoError → Prop}
    {src dst : DeployPath} (hw : J w)
    (hfails : ∀ w' err, w'.disk = w.disk → J w' ∧ Q w' (some err))
    (hmoves : ∀ w' content, w.disk.get src = some content →
      w'.disk = (w.disk.set (some content) dst).set none src → J w' ∧ Q w' none) :
    (renameFile src dst).Always J Q w := by
  apply Prog.always_atomic hw
  intro k
  dsimp only
  split
  next => exact hfails _ _ rfl
  next =>
    split
    next e he => exact hfails _ _ rfl
    next after he =>
      split at he
      next => cases he
      next content hsource =>
        cases he
        exact hmoves _ content hsource rfl

/-- The rename that takes the backup: wherever it ends, the bytes are in one of the two places. -/
theorem always_takeBackup (hw : AtPath previous w) :
    (renameFile .binary .backup).Always (BinaryIntact previous)
      (fun w err => (err = none → BackedUp previous w) ∧ (err ≠ none → AtPath previous w)) w := by
  apply always_renameFile (Or.inl hw)
  · intro w' err hdisk
    have hpath : AtPath previous w' := by
      unfold AtPath Files
      rw [hdisk]
      exact hw
    exact ⟨Or.inl hpath, by simp, fun _ => hpath⟩
  · intro w' content hsource hdisk
    have hcontent : content = previous := Option.some.inj (hsource.symm.trans hw)
    have hbackup : BackedUp previous w' := by
      unfold BackedUp Files
      rw [hdisk, hcontent]
      rfl
    exact ⟨Or.inr hbackup, fun _ => hbackup, by simp⟩

/-- The rename that installs the artifact does not touch the backup. -/
theorem always_install (hw : BackedUp previous w) :
    (renameFile .tmp .binary).Always (BackedUp previous) (fun _ _ => True) w := by
  apply always_renameFile hw
  · intro w' err hdisk
    refine ⟨?_, trivial⟩
    unfold BackedUp Files
    rw [hdisk]
    exact hw
  · intro w' content _ hdisk
    refine ⟨?_, trivial⟩
    unfold BackedUp Files
    rw [hdisk]
    exact hw

/-- The rename that restores the backup moves the bytes back to the path. -/
theorem always_restore (hw : BackedUp previous w) :
    (renameFile .backup .binary).Always (BinaryIntact previous) (fun _ _ => True) w := by
  apply always_renameFile (Or.inr hw)
  · intro w' err hdisk
    refine ⟨Or.inr ?_, trivial⟩
    rw [hdisk]
    exact hw
  · intro w' content hsource hdisk
    have hcontent : content = previous := Option.some.inj (hsource.symm.trans hw)
    refine ⟨Or.inl ?_, trivial⟩
    rw [hdisk, hcontent]
    rfl

/-- What comes behind a rename that restores only has to stay where the bytes are intact. -/
theorem always_restoreThen {α : Type} {rest : Option GoError → Deploy α}
    (hw : BackedUp previous w) (hrest : ∀ err, (rest err).Stays (BinaryIntact previous)) :
    (renameFile .backup .binary >>= rest).Always (BinaryIntact previous) (fun _ _ => True) w :=
  Prog.always_bind (always_restore hw) fun w' err hw' _ => hrest err w' hw'

/-- A program that leaves the files alone, while the bytes are in the backup. -/
theorem backedUp_always {α : Type} {p : Deploy α} (h : p.Stays (BackedUp previous))
    (hw : BackedUp previous w) :
    p.Always (BinaryIntact previous) (fun w _ => BackedUp previous w) w :=
  (h w hw).imp (fun _ hs => Or.inr hs) fun _ _ hs _ => hs

/-- A program after the backup: the bytes stay intact, and where it lets the deploy go on they
are in the backup. -/
def Resumes (previous : Content) (p : Deploy (Option GoError)) : Prop :=
  ∀ w, BackedUp previous w →
    p.Always (BinaryIntact previous) (fun w err => err = none → BackedUp previous w) w

/-- A program that ends the deploy and leaves the bytes intact. -/
def Stops (previous : Content) (p : Deploy (Option GoError)) : Prop :=
  ∀ w, BinaryIntact previous w → p.Always (BinaryIntact previous) (fun _ err => err ≠ none) w

theorem stops_some {p : Deploy GoError} (h : p.Stays (BinaryIntact previous)) :
    Stops previous (some <$> p) := by
  intro w hw
  apply Prog.always_bind (h w hw)
  intro w' err hw' _
  exact ⟨hw', by simp⟩

theorem Stops.resumes {p : Deploy (Option GoError)} (h : Stops previous p) :
    Resumes previous p := by
  intro w hw
  apply (h w (Or.inr hw)).mono
  intro w' err _ hne he
  exact absurd he hne

theorem resumes_bind {α : Type} {first : Deploy α} {rest : α → Deploy (Option GoError)}
    (hf : first.Stays (BackedUp previous)) (hr : ∀ value, Resumes previous (rest value)) :
    Resumes previous (first >>= rest) :=
  fun _ hw => Prog.always_bind (backedUp_always hf hw) fun w' value _ hw' => hr value w' hw'

theorem resumes_restore {rest : Option GoError → Deploy (Option GoError)}
    (hr : ∀ err, Stops previous (rest err)) :
    Resumes previous (renameFile .backup .binary >>= rest) := by
  intro w hw
  apply Prog.always_bind (always_restore hw)
  intro w' err hw' _
  apply (hr err w' hw').mono
  intro w'' result _ hne he
  exact absurd he hne

theorem resumes_pure {result : Option GoError} :
    Resumes previous (pure result : Deploy (Option GoError)) :=
  fun _ hw => ⟨Or.inr hw, fun _ => hw⟩

/-- A checkpoint resumes as its cleanup after a cancel does. -/
theorem resumes_checkpoint {control : Bool} {jobID : String} {phase : DeployPhase}
    {cleanup : Deploy (Option GoError)} (h : Resumes previous cleanup) :
    Resumes previous (if control then do
        match ← controlCheckpoint jobID phase with
        | .error err => return some err
        | .ok decision => if decision.cancelRequested then cleanup else return none
      else return none) := by
  split
  next =>
    apply resumes_bind stays_controlCheckpoint
    intro result
    cases result with
    | error err => exact resumes_pure
    | ok decision =>
      dsimp only
      split
      next => exact h
      next => exact resumes_pure
  next => exact resumes_pure

theorem resumes_checkpointRestoreBackup : Resumes previous (checkpointRestoreBackup d true) := by
  apply resumes_checkpoint
  apply resumes_bind stays_removeIfExists
  intro removed
  cases removed with
  | some err => exact (stops_some stays_concludeCancel).resumes
  | none =>
    apply resumes_restore
    intro restored
    cases restored with
    | some err => exact stops_some stays_concludeCancel
    | none => exact stops_some stays_concludeCancel

theorem resumes_checkpointRollbackInstalled {phase : DeployPhase} :
    Resumes previous (checkpointRollbackInstalled d phase true) := by
  apply resumes_checkpoint
  apply resumes_restore
  intro restored
  cases restored with
  | some err => exact stops_some stays_concludeCancel
  | none =>
    intro w hw
    apply Prog.always_bind (stays_systemctlRestart w hw)
    intro w' restarted hw' _
    obtain ⟨_ | err, out⟩ := restarted
    · exact stops_some stays_concludeCancel w' hw'
    · exact stops_some stays_concludeCancel w' hw'

end Renames

section Forward

variable {previous : Content} {d : Deployment} {summary : DownloadSummary} {w : DeployWorld}

/-- A part of the deploy that starts while the bytes are in the backup. -/
abbrev KeepsFrom (previous : Content) (p : Deploy DeployExit) : Prop :=
  ∀ w, BackedUp previous w → p.Always (BinaryIntact previous) (fun _ _ => True) w

theorem backed_bind {α : Type} {first : Deploy α} {rest : α → Deploy DeployExit}
    (hf : first.Stays (BackedUp previous)) (hr : ∀ value, KeepsFrom previous (rest value)) :
    KeepsFrom previous (first >>= rest) :=
  fun _ hw => Prog.always_bind (backedUp_always hf hw) fun w' value _ hw' => hr value w' hw'

/-- A checkpoint, and the deploy behind it. -/
theorem backed_checkpoint {p : Deploy (Option GoError)} {cleanup : Bool}
    {rest : Deploy DeployExit} (hp : Resumes previous p) (hr : KeepsFrom previous rest) :
    KeepsFrom previous (do
      match ← p with
      | some err => stopped d summary cleanup err
      | none => rest) := by
  intro w hw
  apply Prog.always_bind (hp w hw)
  intro w' err hw' hback
  cases err with
  | some err => exact stays_stopped w' hw'
  | none => exact hr w' (hback rfl)

theorem backed_deployRollback : KeepsFrom previous (deployRollback d summary true) := by
  apply backed_bind stays_trackerSetPhase
  intro _ w hw
  apply always_restoreThen hw
  intro restored
  cases restored with
  | some err => exact stays_failed
  | none =>
    apply Prog.stays_bind stays_systemctlRestart
    intro restarted
    obtain ⟨_ | err, out⟩ := restarted
    · exact stays_failed
    · exact stays_failed

theorem backed_deployHealthcheck (n : ℕ) :
    KeepsFrom previous (deployHealthcheck d summary true n) := by
  induction n with
  | zero => exact backed_deployRollback
  | succ n ih =>
    apply backed_checkpoint resumes_checkpointRollbackInstalled
    apply backed_bind (stays_call fun _ _ => ⟨rfl, rfl⟩)
    intro answered
    obtain ⟨err, out⟩ := answered
    dsimp only
    split
    next =>
      have hfinish : (trackerFinish d.app.id).Stays (BackedUp previous) :=
        stays_internal fun _ _ => rfl
      apply backed_bind hfinish
      intro _ w hw
      exact ⟨Or.inr hw, trivial⟩
    next => exact ih

theorem backed_deployRestart : KeepsFrom previous (deployRestart d summary true) := by
  apply backed_bind stays_trackerSetPhase
  intro _
  apply backed_bind stays_systemctlRestart
  intro restarted
  obtain ⟨_ | err, out⟩ := restarted
  · apply backed_checkpoint resumes_checkpointRollbackInstalled
    apply backed_bind stays_trackerSetPhase
    intro _
    exact backed_deployHealthcheck 5
  · exact fun w hw => stays_failed w (Or.inr hw)

theorem backed_deployInstall : KeepsFrom previous (deployInstall d summary true) := by
  apply backed_bind stays_trackerSetPhase
  intro _ w hw
  have hinstall : (renameFile .tmp .binary).Always (BinaryIntact previous)
      (fun w _ => BackedUp previous w) w :=
    (always_install hw).imp (fun _ hs => Or.inr hs) fun _ _ hs _ => hs
  apply Prog.always_bind hinstall
  intro w' installed _ hw'
  cases installed with
  | some err =>
    have hfail : (trackerFail d.app.id).Stays (BackedUp previous) :=
      stays_internal fun _ _ => rfl
    refine backed_bind hfail ?_ w' hw'
    intro _ w hw
    apply always_restoreThen hw
    intro restored
    cases restored with
    | some err => exact Prog.stays_pure
    | none => exact Prog.stays_pure
  | none => exact backed_checkpoint resumes_checkpointRollbackInstalled backed_deployRestart w' hw'

theorem backed_deployBackedUp : KeepsFrom previous (deployBackedUp d summary true) :=
  backed_checkpoint resumes_checkpointRestoreBackup backed_deployInstall

/-- A part of the deploy that starts while the bytes are at their path. -/
abbrev KeepsPath (previous : Content) (p : Deploy DeployExit) : Prop :=
  ∀ w, AtPath previous w → p.Always (BinaryIntact previous) (fun _ _ => True) w

theorem path_bind {α : Type} {first : Deploy α} {rest : α → Deploy DeployExit}
    (hf : first.Stays (AtPath previous)) (hr : ∀ value, KeepsPath previous (rest value)) :
    KeepsPath previous (first >>= rest) := by
  intro w hw
  have hfirst : first.Always (BinaryIntact previous) (fun w _ => AtPath previous w) w :=
    (hf w hw).imp (fun _ hs => Or.inl hs) fun _ _ hs _ => hs
  exact Prog.always_bind hfirst fun w' value _ hw' => hr value w' hw'

theorem path_stays {p : Deploy DeployExit} (h : p.Stays (BinaryIntact previous)) :
    KeepsPath previous p :=
  fun w hw => h w (Or.inl hw)

theorem path_checkpoint {phase : DeployPhase} {cleanup : Bool} {rest : Deploy DeployExit}
    (h : KeepsPath previous rest) :
    KeepsPath previous (do
      match ← checkpointCleanupTemp d phase with
      | some err => stopped d summary cleanup err
      | none => rest) := by
  apply path_bind stays_checkpointCleanupTemp
  intro checked
  cases checked with
  | some err => exact path_stays stays_stopped
  | none => exact h

/-- A file that is at its path is found there, so the backup is taken. -/
theorem path_deployBackup : KeepsPath previous (deployBackup d summary) := by
  apply path_bind stays_trackerSetPhase
  intro _
  apply path_checkpoint
  intro w hw
  have hfound : (osStat .binary).Always (BinaryIntact previous)
      (fun w size => AtPath previous w ∧ size = some previous.length) w := by
    have hintact : BinaryIntact previous w := Or.inl hw
    apply Prog.always_atomic hintact
    intro k
    refine ⟨hintact, hw, ?_⟩
    exact congrArg (Option.map List.length) hw
  apply Prog.always_bind hfound
  rintro w' size _ ⟨hw', rfl⟩
  apply Prog.always_bind (always_takeBackup hw')
  intro w'' err hw'' hback
  cases err with
  | some err => exact stays_failed w'' hw''
  | none => exact backed_deployBackedUp w'' (hback.1 rfl)

theorem path_deployValidate : KeepsPath previous (deployValidate d summary) := by
  apply path_checkpoint
  apply path_bind stays_trackerSetPhase
  intro _
  apply path_checkpoint
  apply path_bind stays_validateDownloadedArtifact
  intro validated
  cases validated with
  | some err => exact path_stays stays_failed
  | none =>
    have hchmod : chmodFile.Stays (AtPath previous) := by
      apply stays_fallible
      intro w k after h
      split at h
      next => cases h
      next =>
        cases h
        exact ⟨rfl, rfl⟩
    apply path_bind hchmod
    intro changed
    cases changed with
    | some err => exact path_stays stays_failed
    | none => exact path_deployBackup

theorem path_deployDownload : KeepsPath previous (deployDownload d) := by
  have hcontext : (deployDownloadContext d).Stays (AtPath previous) :=
    stays_internal fun _ _ => rfl
  have hstop : stopDownloadCancelWatcher.Stays (AtPath previous) :=
    stays_internal fun _ _ => rfl
  apply path_bind hcontext
  intro _
  have hresolve : (resolveArtifactDownload d).Stays (AtPath previous) := by
    unfold resolveArtifactDownload
    split
    next =>
      apply stays_call
      intro w k
      split
      next => exact ⟨rfl, rfl⟩
      next => exact ⟨rfl, rfl⟩
    next => exact Prog.stays_pure
  apply path_bind hresolve
  intro resolved
  cases resolved with
  | error err =>
    apply path_bind hstop
    intro _
    exact path_stays stays_failed
  | ok target =>
    obtain ⟨url, headers⟩ := target
    apply path_bind stays_downloadBinaryContext
    intro downloaded
    apply path_bind hstop
    intro _
    cases downloaded with
    | ok summary => exact path_deployValidate
    | error err =>
      dsimp only
      split
      next =>
        apply path_bind stays_finishCanceledCleanup
        intro canceled
        cases canceled with
        | some err => exact path_stays stays_failed
        | none => exact path_stays Prog.stays_pure
      next => exact path_stays stays_failed

theorem path_deployBody : KeepsPath previous (deployBody d) := by
  have hstart : (trackerStart d.app.id d.jobID d.tag).Stays (AtPath previous) :=
    stays_internal fun _ _ => rfl
  apply path_bind hstart
  intro _
  dsimp only
  split
  next =>
    have hmkdir : (mkdirAll (GoStrings.filepathDir d.app.binaryPath)).Stays
        (AtPath previous) := by
      apply stays_fallible
      intro w k after h
      cases h
      exact ⟨rfl, rfl⟩
    apply path_bind hmkdir
    intro made
    cases made with
    | some err => exact path_stays stays_failed
    | none => exact path_deployDownload
  next => exact path_deployDownload

theorem path_deployArtifact : KeepsPath previous (deployArtifact d) := by
  intro w hw
  apply Prog.always_bind (path_deployBody w hw)
  intro w' exit hw' _
  split
  next => exact Prog.stays_bind stays_osRemove (fun _ => Prog.stays_pure) w' hw'
  next => exact ⟨hw', trivial⟩

/-- Wherever a deploy that found a binary is cut off, or when it has returned, the bytes of that
binary are at the path or in the backup. -/
theorem binary_kept {p : Deploy DeployExit} {w' : DeployWorld}
    (runs : Prog.Runs (deployArtifact d) w p w') (h : w.disk.binary = some previous) :
    w'.disk.binary = some previous ∨ w'.disk.backup = some previous :=
  (path_deployArtifact w h).cut runs

end Forward

/-- A deploy that is cut off after some of its calls. -/
def Deploying.cutOff (i : Deploying) (disk : Disk) (calls : ℕ) : DeployWorld :=
  ((deployArtifact i.deployment).cutOff i.answers calls (.begins i.row disk i.tracker)).2

/-- The disk while the artifact is not installed yet. -/
def beforeInstall : Disk :=
  ((deployingApp fun _ => .calm binaryB).cutOff ⟨some binaryA, none, none⟩ 23).disk

theorem binary_kept_beforeInstall : beforeInstall = ⟨none, some binaryB, some binaryA⟩ ∧
    (beforeInstall.binary = some binaryA ∨ beforeInstall.backup = some binaryA) :=
  ⟨by decide +kernel, binary_kept (Prog.runs_cutOff _ _ _ _) rfl⟩

end AutoDeploy
