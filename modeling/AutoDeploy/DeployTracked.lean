import AutoDeploy.DeployTracker

namespace AutoDeploy

open Interleaving

/-- A canceled deploy leaves its entry open, and every other end closes it. -/
inductive TrackerEnd (d : Deployment) (pt : ProgressTracker) : Option GoError → Prop
  | opened (entry : pt.Opened d.app.id d.jobID) : TrackerEnd d pt (some errDeployCanceled)
  | closed (err : Option GoError) (finished : err ≠ some errDeployCanceled)
      (entry : pt.Closed d.app.id d.jobID) : TrackerEnd d pt err

section Download

variable {I : ProgressTracker → Prop}

theorem plain_clientErr {w : DeployWorld} {err : GoError} : Plain (w.clientErr err) :=
  clientErr_not_deployCanceled

theorem plain_new (text : String) : Plain (.new text) := rfl

theorem doWithRedirects_keeps {url : String} {headers : Headers} :
    Keeps I (doWithRedirects url headers) fun result =>
      ∀ e, result = .error e → Plain e.err := by
  apply keeps_call
  · intro w k
    cases k.response <;> rfl
  · intro w k e h
    cases hk : k.response with
    | error e' =>
      simp only [hk, Except.error.injEq] at h
      exact h ▸ plain_clientErr
    | ok resp => simp [hk] at h

theorem downloadAttempts_keeps {url : String} {headers : Headers} {n : ℕ} {last : GoError}
    (hlast : Plain last) : Keeps I (downloadAttempts url headers n last) PlainResult := by
  induction n generalizing last with
  | zero => exact keeps_pure (plainResult_error hlast)
  | succ n ih =>
    unfold downloadAttempts
    apply keeps_bind contextErr_keeps
    rintro (_ | e) hplain
    · apply keeps_bind doWithRedirects_keeps
      rintro (e | resp) hplain
      · apply keeps_bind contextErr_keeps
        rintro (_ | e') hplain'
        · dsimp only
          split
          next => exact ih (hplain e rfl)
          next => exact keeps_pure (plainResult_error (hplain e rfl))
        · exact keeps_pure (plainResult_error (hplain' e' rfl))
      · dsimp only
        split
        next => exact ih rfl
        next =>
          split
          next => exact keeps_pure plainResult_ok
          next => exact keeps_pure (plainResult_error rfl)
    · exact keeps_pure (plainResult_error (hplain e rfl))

theorem createTmp_keeps : Keeps I createTmp PlainErr :=
  keeps_fallible (fun _ _ _ h => by cases h) fun _ _ _ h => by rw [← Except.ok.inj h]

theorem closeTmp_keeps : Keeps I closeTmp PlainErr :=
  keeps_fallible (fun _ _ _ h => by cases h) fun _ _ _ h => by rw [Except.ok.inj h]

theorem openTmp_keeps : Keeps I openTmp PlainErr :=
  keeps_fallible (fun _ _ _ h => by cases h) fun _ _ _ h => by rw [Except.ok.inj h]

/-- The reports of a copy keep the entry of the app open. -/
theorem copyBody_keeps {appID jobID : String} {resp : HttpResponse} {limit : Int} :
    Keeps (fun pt => pt.Opened appID jobID) (copyBody appID resp limit)
      fun out => PlainErr out.2 := by
  apply tracks_call
  intro w k hopened
  constructor
  · have hreports : ∀ (reports : List (Int × ℚ)) (pt : ProgressTracker), pt.Opened appID jobID →
        (reports.foldl
          (fun pt report => .update k.now appID report.1 resp.contentLength report.2 pt) pt).Opened
            appID jobID := by
      intro reports
      induction reports with
      | nil => exact fun _ h => h
      | cons report reports ih => exact fun pt h => ih _ h.update
    cases k.fault <;> exact hreports _ _ hopened
  · intro e h
    cases hk : k.fault with
    | some text =>
      simp only [hk, Option.some.injEq] at h
      exact h ▸ rfl
    | none =>
      simp only [hk] at h
      obtain ⟨err, -, rfl⟩ := Option.map_eq_some_iff.mp h
      exact plain_clientErr

theorem cleanupRejectedDownload_keeps : Keeps I cleanupRejectedDownload fun _ => True :=
  keeps_bind osRemove_keeps fun _ _ => keeps_pure trivial

theorem rejectDownload_keeps {err : GoError} (h : Plain err) :
    Keeps I (rejectDownload err) PlainResult :=
  keeps_bind cleanupRejectedDownload_keeps fun _ _ => keeps_pure (plainResult_error h)

theorem acceptDownload_keeps {resp : HttpResponse} {maxBytes : Int} {written : ℕ} :
    Keeps I (acceptDownload resp maxBytes written) PlainResult := by
  unfold acceptDownload
  apply keeps_bind contextErr_keeps
  rintro (_ | e) hplain
  · dsimp only
    split
    next => exact rejectDownload_keeps rfl
    next =>
      split
      next => exact rejectDownload_keeps rfl
      next =>
        apply keeps_bind closeTmp_keeps
        rintro (_ | e) hplain
        · have htiming : Keeps I timing fun _ => True :=
            keeps_call (fun _ _ => rfl) fun _ _ => trivial
          exact keeps_bind htiming fun _ _ => keeps_pure plainResult_ok
        · exact rejectDownload_keeps (hplain e rfl)
  · exact rejectDownload_keeps (hplain e rfl)

theorem copyFailed_keeps {resp : HttpResponse} {written : ℕ} {err : GoError} (h : Plain err) :
    Keeps I (copyFailed resp written err) PlainResult := by
  unfold copyFailed
  apply keeps_bind cleanupRejectedDownload_keeps
  rintro _ -
  apply keeps_bind contextErr_keeps
  rintro (_ | e) hplain
  · dsimp only
    split
    next => exact keeps_pure (plainResult_error h)
    next => exact keeps_pure (plainResult_error h)
  · exact keeps_pure (plainResult_error (hplain e rfl))

theorem downloadBinaryContext_keeps {appID jobID url : String} {headers : Headers}
    {maxBytes : Int} :
    Keeps (fun pt => pt.Opened appID jobID) (downloadBinaryContext appID url headers maxBytes)
      PlainResult := by
  unfold downloadBinaryContext downloadWithRetryContext
  apply keeps_bind (downloadAttempts_keeps (plain_new ""))
  rintro (e | resp) hplain
  · exact keeps_pure (plainResult_error (hplain e rfl))
  · dsimp only
    split
    next => exact keeps_pure (plainResult_error rfl)
    next =>
      split
      next => exact keeps_pure (plainResult_error rfl)
      next =>
        apply keeps_bind createTmp_keeps
        rintro (_ | e) hplain
        · apply keeps_bind copyBody_keeps
          rintro ⟨written, _ | e⟩ hplain
          · exact acceptDownload_keeps
          · exact copyFailed_keeps (hplain e rfl)
        · exact keeps_pure (plainResult_error (hplain e rfl))

theorem validateDownloadedArtifact_keeps : Keeps I validateDownloadedArtifact PlainErr := by
  unfold validateDownloadedArtifact
  apply keeps_bind osStat_keeps
  rintro (_ | size) -
  · exact keeps_pure (plainErr_some rfl)
  · dsimp only
    split
    next => exact keeps_pure (plainErr_some rfl)
    next =>
      split
      next => exact keeps_pure (plainErr_some rfl)
      next =>
        apply keeps_bind openTmp_keeps
        rintro (_ | e) hplain
        · have hmagic : Keeps I readMagic PlainResult := by
            apply keeps_call
            · intro w k
              cases k.fault <;> rfl
            · intro w k
              cases k.fault with
              | some text => exact plainResult_error rfl
              | none => exact plainResult_ok
          apply keeps_bind hmagic
          rintro (e | magic) hplain
          · exact keeps_pure (plainErr_some (hplain e rfl))
          · dsimp only
            split
            next => exact keeps_pure plainErr_none
            next => exact keeps_pure (plainErr_some rfl)
        · exact keeps_pure (plainErr_some (hplain e rfl))

end Download

section Deploy

variable {d : Deployment} {summary : DownloadSummary} {cleanup backupCreated : Bool}

/-- The deploy ends with the entry of its job as its error says. -/
abbrev EndsTracked (d : Deployment) (p : Deploy DeployExit) : Prop :=
  Tracks (fun pt => pt.Opened d.app.id d.jobID) p fun pt exit => TrackerEnd d pt exit.err

theorem Plain.ne_deployCanceled {err : GoError} (h : Plain err) :
    some err ≠ some errDeployCanceled := by
  intro he
  rw [Option.some.inj he] at h
  cases h

theorem trackerFail_closes : Tracks (fun pt => pt.Opened d.app.id d.jobID) (trackerFail d.app.id)
    fun pt _ => pt.Closed d.app.id d.jobID :=
  tracks_internal fun _ _ h => h.fail

theorem setPhase_keeps {phase : ProgressStage} (hphase : phase.isTerminal = false) :
    Keeps (fun pt => pt.Opened d.app.id d.jobID) (trackerSetPhase d.app.id phase) fun _ => True :=
  keeps_internal fun _ _ h => h.setPhase hphase

theorem failed_tracked {err : GoError} (h : Plain err) :
    EndsTracked d (failed d summary cleanup err) := by
  unfold failed
  apply tracks_bind trackerFail_closes
  intro _
  exact tracks_pure fun pt hclosed => .closed _ h.ne_deployCanceled hclosed

theorem stopped_tracked {err : GoError} (h : Verdict err) :
    EndsTracked d (stopped d summary cleanup err) := by
  unfold stopped
  split
  next hcanceled =>
    rcases h with rfl | hplain
    · exact tracks_pure fun pt hopened => .opened hopened
    · rw [hplain] at hcanceled
      cases hcanceled
  next hfailed =>
    apply failed_tracked
    simpa [Plain] using hfailed

theorem deployRollback_tracked : EndsTracked d (deployRollback d summary backupCreated) := by
  unfold deployRollback
  apply keeps_bind (setPhase_keeps rfl)
  rintro _ -
  split
  next =>
    apply keeps_bind renameFile_keeps
    rintro (_ | e) hplain
    · apply keeps_bind systemctlRestart_keeps
      rintro ⟨_ | e, out⟩ hplain
      · exact failed_tracked rfl
      · exact failed_tracked (hplain e rfl)
    · exact failed_tracked (hplain e rfl)
  next => exact failed_tracked rfl

theorem deployHealthcheck_tracked {n : ℕ} :
    EndsTracked d (deployHealthcheck d summary backupCreated n) := by
  induction n with
  | zero => exact deployRollback_tracked
  | succ n ih =>
    unfold deployHealthcheck
    apply keeps_bind checkpointRollbackInstalled_keeps
    rintro (_ | e) hverdict
    · apply keeps_bind systemctlIsActive_keeps
      rintro ⟨err, out⟩ -
      dsimp only
      split
      next =>
        have hfinish : Tracks (fun pt => pt.Opened d.app.id d.jobID) (trackerFinish d.app.id)
            fun pt _ => pt.Closed d.app.id d.jobID := tracks_internal fun _ _ h => h.finish
        apply tracks_bind hfinish
        intro _
        exact tracks_pure fun pt hclosed => .closed _ (by simp) hclosed
      next => exact ih
    · exact stopped_tracked (hverdict e rfl)

theorem deployRestart_tracked : EndsTracked d (deployRestart d summary backupCreated) := by
  unfold deployRestart
  apply keeps_bind (setPhase_keeps rfl)
  rintro _ -
  apply keeps_bind systemctlRestart_keeps
  rintro ⟨_ | e, out⟩ hplain
  · apply keeps_bind checkpointRollbackInstalled_keeps
    rintro (_ | e) hverdict
    · apply keeps_bind (setPhase_keeps rfl)
      rintro _ -
      exact deployHealthcheck_tracked
    · exact stopped_tracked (hverdict e rfl)
  · exact failed_tracked (hplain e rfl)

theorem deployInstall_tracked : EndsTracked d (deployInstall d summary backupCreated) := by
  unfold deployInstall
  apply keeps_bind (setPhase_keeps rfl)
  rintro _ -
  apply keeps_bind renameFile_keeps
  rintro (_ | e) hplain
  · apply keeps_bind checkpointRollbackInstalled_keeps
    rintro (_ | e) hverdict
    · exact deployRestart_tracked
    · exact stopped_tracked (hverdict e rfl)
  · have hends : ∀ context, some (GoError.mk context e.wraps) ≠ some errDeployCanceled := by
      intro context
      apply Plain.ne_deployCanceled
      exact hplain e rfl
    apply tracks_bind trackerFail_closes
    intro _
    split
    next =>
      apply keeps_bind renameFile_keeps
      rintro (_ | restoreErr) -
      · exact tracks_pure fun pt hclosed => .closed _ (hends _) hclosed
      · exact tracks_pure fun pt hclosed => .closed _ (hends _) hclosed
    next => exact tracks_pure fun pt hclosed => .closed _ (hends _) hclosed

theorem deployBackedUp_tracked : EndsTracked d (deployBackedUp d summary backupCreated) := by
  unfold deployBackedUp
  apply keeps_bind checkpointRestoreBackup_keeps
  rintro (_ | e) hverdict
  · exact deployInstall_tracked
  · exact stopped_tracked (hverdict e rfl)

theorem deployBackup_tracked : EndsTracked d (deployBackup d summary) := by
  unfold deployBackup
  apply keeps_bind (setPhase_keeps rfl)
  rintro _ -
  apply keeps_bind checkpointCleanupTemp_keeps
  rintro (_ | e) hverdict
  · apply keeps_bind osStat_keeps
    rintro (_ | size) -
    · exact deployBackedUp_tracked
    · apply keeps_bind renameFile_keeps
      rintro (_ | e) hplain
      · exact deployBackedUp_tracked
      · exact failed_tracked (hplain e rfl)
  · exact stopped_tracked (hverdict e rfl)

theorem deployValidate_tracked : EndsTracked d (deployValidate d summary) := by
  unfold deployValidate
  apply keeps_bind checkpointCleanupTemp_keeps
  rintro (_ | e) hverdict
  · apply keeps_bind (setPhase_keeps rfl)
    rintro _ -
    apply keeps_bind checkpointCleanupTemp_keeps
    rintro (_ | e) hverdict
    · apply keeps_bind validateDownloadedArtifact_keeps
      rintro (_ | e) hplain
      · apply keeps_bind chmodFile_keeps
        rintro (_ | e) hplain
        · exact deployBackup_tracked
        · exact failed_tracked (hplain e rfl)
      · exact failed_tracked (hplain e rfl)
    · exact stopped_tracked (hverdict e rfl)
  · exact stopped_tracked (hverdict e rfl)

theorem deployDownload_tracked : EndsTracked d (deployDownload d) := by
  have hcontext : Keeps (fun pt => pt.Opened d.app.id d.jobID) (deployDownloadContext d)
      fun _ => True := keeps_internal fun _ _ h => h
  have hwatcher : Keeps (fun pt => pt.Opened d.app.id d.jobID) stopDownloadCancelWatcher
      fun _ => True := keeps_internal fun _ _ h => h
  have hresolve : Keeps (fun pt => pt.Opened d.app.id d.jobID) (resolveArtifactDownload d)
      PlainResult := by
    unfold resolveArtifactDownload
    split
    next =>
      apply keeps_call
      · intro w k
        cases k.resolved <;> rfl
      · intro w k
        cases k.resolved with
        | error e => exact plainResult_error plain_clientErr
        | ok target => exact plainResult_ok
    next => exact keeps_pure plainResult_ok
  unfold deployDownload
  apply keeps_bind hcontext
  rintro _ -
  apply keeps_bind hresolve
  rintro (e | ⟨url, headers⟩) hplain
  · apply keeps_bind hwatcher
    rintro _ -
    exact failed_tracked (hplain e rfl)
  · apply keeps_bind downloadBinaryContext_keeps
    intro downloaded hplain
    apply keeps_bind hwatcher
    rintro _ -
    cases downloaded with
    | error e =>
      dsimp only
      split
      next =>
        apply keeps_bind finishCanceledCleanup_keeps
        rintro (_ | e) hplain
        · exact tracks_pure fun pt hopened => .opened hopened
        · exact failed_tracked (hplain e rfl)
      next => exact failed_tracked (hplain e rfl)
    | ok summary => exact deployValidate_tracked

/-- Whatever the tracker knew before, the deploy starts with an entry of its own. -/
theorem deployArtifact_tracked {I : ProgressTracker → Prop} :
    Tracks I (deployArtifact d) fun pt exit => TrackerEnd d pt exit.err := by
  have hbody : Tracks I (deployBody d) fun pt exit => TrackerEnd d pt exit.err := by
    have hstart : Tracks I (trackerStart d.app.id d.jobID d.tag)
        fun pt _ => pt.Opened d.app.id d.jobID :=
      tracks_internal fun _ _ _ => ProgressTracker.start_opened
    unfold deployBody
    apply tracks_bind hstart
    intro _
    dsimp only
    split
    next =>
      apply keeps_bind mkdirAll_keeps
      rintro (_ | e) hplain
      · exact deployDownload_tracked
      · exact failed_tracked (hplain e rfl)
    next => exact deployDownload_tracked
  unfold deployArtifact
  apply tracks_bind hbody
  intro exit
  split
  next => exact keeps_bind osRemove_keeps fun _ _ => tracks_pure fun _ h => h
  next => exact tracks_pure fun _ h => h

end Deploy

/-- The run sees no cancel of its job, or cannot follow it: a cleanup, rollback or database step
fails, or there is no previous binary to roll an installed artifact back to. -/
def Unheeded (disk : Disk) (events : List DeployEvent) : Prop :=
  events.any DeployEvent.stops = false ∨ events.any DeployEvent.faults = true ∨
    (disk.binary = none ∧ events.any DeployEvent.installs = true)

theorem Deploying.run_tracked (i : Deploying) (disk : Disk) :
    TrackerEnd i.deployment (i.run disk).state.tracker (i.run disk).value.err := by
  have htracked : Tracks (fun _ => True) (deployArtifact i.deployment) fun pt exit =>
      TrackerEnd i.deployment pt exit.err := deployArtifact_tracked
  exact Prog.alone_wp i.answers (htracked [] (.begins i.row disk i.tracker) trivial)

/-- A run closes the entry of its job unless it ends as a canceled one. -/
theorem run_closed_iff (i : Deploying) (disk : Disk) :
    (i.run disk).state.tracker.Closed i.deployment.app.id i.deployment.jobID ↔
      Unheeded disk (emissions (i.run disk).steps) := by
  have hstatus := (i.run_end disk).status
  have htracked := i.run_tracked disk
  generalize (i.run disk).value.err = err at hstatus htracked
  constructor
  · intro hclosed
    cases hstatus with
    | other finished row stops =>
      cases hs : (emissions (i.run disk).steps).any DeployEvent.stops with
      | false => exact Or.inl hs
      | true => exact Or.inr (stops hs)
    | canceled stopped =>
      cases htracked with
      | opened hopened => exact absurd hclosed hopened.not_closed
      | closed err finished => exact absurd stopped finished
  · intro hunheeded
    cases htracked with
    | closed err finished hclosed => exact hclosed
    | opened hopened =>
      cases hstatus with
      | other finished => exact absurd rfl finished
      | canceled stopped row binary tmp resolver seen unhindered possible =>
        rcases hunheeded with hunseen | hfaults | ⟨hnone, hinstalls⟩
        · rw [seen] at hunseen
          cases hunseen
        · rw [unhindered] at hfaults
          cases hfaults
        · have hexisted := possible hinstalls
          simp [hnone] at hexisted

/-- A deploy that a cancel stops in front of the backup. -/
theorem cancelsBackup_not_closed :
    ¬ ((deployingApp cancelsBackup).run ⟨some binaryA, none, none⟩).state.tracker.Closed
      "app" "job" := by
  have hentry : (((deployingApp cancelsBackup).run
      ⟨some binaryA, none, none⟩).state.tracker.entries "app").map
        (fun e => e.snapshot.phase.isTerminal) = some false := by decide +kernel
  rintro ⟨⟨e, he, -, hphase, -⟩, -, -⟩
  rw [he, Option.map_some, hphase] at hentry
  cases hentry

end AutoDeploy
