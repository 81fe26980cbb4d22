import AutoDeploy.JobStatus

namespace AutoDeploy

/-- `unknown` is any text that is not one of the `DeployPhase` constants. -/
inductive DeployPhase
  | pending
  | downloading
  | downloaded
  | validating
  | backingUp
  | backupComplete
  | installing
  | restarting
  | healthcheck
  | rollback
  | rollbackComplete
  | rollbackFailed
  | cleanup
  | cleanupComplete
  | cleanupFailed
  | systemConsistent
  | systemInconsistent
  | succeeded
  | failed
  | canceled
  | unknown (text : String)
deriving DecidableEq

inductive CancelOutcome
  | pendingCanceled
  | activeRequested
  | terminalNoop
  | unknownJob
deriving DecidableEq

inductive CancelAction
  | continue
  | noop
  | markCanceled
  | markFailed
  | abortDownloadCleanupTemp
  | cleanupTemp
  | restoreBackup
  | rollbackCleanup
deriving DecidableEq

/-- `status` is `none` where the Go field is the empty string. -/
structure CancelJobResult where
  jobID : String
  appID : String
  previousState : Option JobStatus
  status : Option JobStatus
  outcome : CancelOutcome
  message : String
deriving DecidableEq

structure CancelAppResult where
  appID : String
  total : ℕ
  pending : ℕ
  active : ℕ
  terminal : ℕ
  unknown : ℕ
  pendingCanceled : ℕ
  activeSignaled : ℕ
  alreadyTerminal : ℕ
  requested : List CancelJobResult
deriving DecidableEq

structure CancelCheckpointDecision where
  jobID : String
  phase : DeployPhase
  status : Option JobStatus
  cancelRequested : Bool
  action : CancelAction
  terminalStatus : Option JobStatus
  requiresCleanup : Bool
  requiresRollback : Bool
  abortDownload : Bool
  message : String
deriving DecidableEq

/-- The decision as the code declares it, before a branch fills it in. -/
def CancelCheckpointDecision.declared (jobID : String) (status : Option JobStatus)
    (phase : DeployPhase) (action : CancelAction) (message : String) :
    CancelCheckpointDecision where
  jobID := jobID
  phase := phase
  status := status
  cancelRequested := false
  action := action
  terminalStatus := none
  requiresCleanup := false
  requiresRollback := false
  abortDownload := false
  message := message

def CancelCheckpointDecision.requested (jobID : String) (phase : DeployPhase)
    (action : CancelAction) (message : String) : CancelCheckpointDecision :=
  { declared jobID (some .cancelRequested) phase action message with cancelRequested := true }

open CancelCheckpointDecision in
def cancelDecisionForStatus (jobID : String) (status : JobStatus) (phase : DeployPhase) :
    CancelCheckpointDecision :=
  if isTerminalJobStatus status then
    { declared jobID (some status) phase .noop "terminal job unchanged" with
      terminalStatus := some status }
  else if status ≠ .cancelRequested then
    declared jobID (some status) phase .continue "no cancel requested"
  else match phase with
    | .pending =>
      { requested jobID phase .markCanceled "pending job can stop before dequeue" with
        terminalStatus := some .canceled }
    | .downloading =>
      { requested jobID phase .abortDownloadCleanupTemp
          "abort download and remove temporary artifact before canceling" with
        abortDownload := true
        requiresCleanup := true }
    | .downloaded | .validating =>
      { requested jobID phase .cleanupTemp
          "remove downloaded temporary artifact before canceling" with
        requiresCleanup := true }
    | .cleanup | .backingUp =>
      { requested jobID phase .cleanupTemp "finish cleanup before canceling" with
        requiresCleanup := true }
    | .cleanupComplete =>
      { requested jobID phase .markCanceled "cleanup complete; job canceled safely" with
        terminalStatus := some .canceled }
    | .cleanupFailed =>
      { requested jobID phase .markFailed "cleanup failed during cancel" with
        terminalStatus := some .failed }
    | .backupComplete =>
      { requested jobID phase .restoreBackup "restore backup before canceling" with
        requiresRollback := true }
    | .installing | .restarting | .healthcheck | .rollback =>
      { requested jobID phase .rollbackCleanup "rollback and cleanup before canceling" with
        requiresRollback := true
        requiresCleanup := true }
    | .rollbackComplete | .systemConsistent =>
      { requested jobID phase .markCanceled "system consistent after rollback; job canceled" with
        terminalStatus := some .canceled }
    | .rollbackFailed | .systemInconsistent =>
      { requested jobID phase .markFailed
          "rollback failed or left system inconsistent during cancel" with
        terminalStatus := some .failed }
    | .succeeded | .failed | .canceled =>
      requested jobID phase .noop "deploy already reached a terminal phase"
    | .unknown _ =>
      requested jobID phase .continue "unknown phase; continue until a safe checkpoint"

/-- What `Checkpoint` writes after its read: the guard in front of `markTerminal`. -/
def CancelCheckpointDecision.marks (decision : CancelCheckpointDecision) (status : JobStatus) :
    Option JobStatus :=
  if status = .cancelRequested then decision.terminalStatus else none

theorem cancelRequested_iff (jobID : String) (status : JobStatus) (phase : DeployPhase) :
    (cancelDecisionForStatus jobID status phase).cancelRequested = true ↔
      status = .cancelRequested := by
  constructor
  · intro h
    by_contra hne
    unfold cancelDecisionForStatus at h
    split at h
    next => simp [CancelCheckpointDecision.declared] at h
    next => simp [CancelCheckpointDecision.declared] at h
  · rintro rfl
    cases phase <;> rfl

/-- A checkpoint only ever writes `canceled` or `failed`. -/
theorem marks_terminal {jobID : String} {status result : JobStatus} {phase : DeployPhase}
    (h : (cancelDecisionForStatus jobID status phase).marks status = some result) :
    status = .cancelRequested ∧ (result = .canceled ∨ result = .failed) := by
  unfold CancelCheckpointDecision.marks at h
  split at h
  next hs =>
    subst hs
    refine ⟨rfl, ?_⟩
    cases phase <;>
      simp [cancelDecisionForStatus, isTerminalJobStatus, CancelCheckpointDecision.requested,
        CancelCheckpointDecision.declared] at h <;> simp [← h]
  next => simp at h

end AutoDeploy
