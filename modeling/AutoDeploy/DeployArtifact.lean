import AutoDeploy.AppTable
import AutoDeploy.Download
import AutoDeploy.GoStrings

namespace AutoDeploy

open Interleaving

/-- The arguments of `DeployArtifact`: whether it was given a cancel service and a resolver. -/
structure Deployment where
  app : App
  jobID : String
  tag : String
  control : Bool
  resolver : Bool

def readStatus (phase : DeployPhase) : Deploy (Except GoError JobStatus) :=
  call fun w k =>
    match k.fault with
    | some text => (.error (.new text), w, [.statusRead phase (.error (.new text))])
    | none => (.ok w.row.status, w, [.statusRead phase (.ok w.row.status)])

/-- The guarded UPDATE of `markTerminal` on the row of the job. -/
def writeTerminal (phase : DeployPhase) (status : JobStatus) (message : String) :
    Deploy (Option GoError) :=
  fallible (.markedTerminal phase status) fun w _ =>
    .ok (if w.row.status = .cancelRequested then
      { w with row := w.row.setStatus status message } else w)

/-- `control.Checkpoint`, for a job whose row exists. -/
def controlCheckpoint (jobID : String) (phase : DeployPhase) :
    Deploy (Except GoError CancelCheckpointDecision) := do
  match ← readStatus phase with
  | .error err => return .error err
  | .ok status =>
    let decision := cancelDecisionForStatus jobID status phase
    match decision.marks status with
    | none => return .ok decision
    | some terminal =>
      match ← writeTerminal phase terminal decision.message with
      | some err => return .error err
      | none => return .ok { decision with status := some terminal }

/-- A checkpoint that reports how a cancel ended, and the error that the deploy then returns. -/
def concludeCancel (jobID : String) (phase : DeployPhase) (err : GoError) : Deploy GoError := do
  match ← controlCheckpoint jobID phase with
  | .error checkpointErr => return checkpointErr
  | .ok _ => return err

def finishCanceledCleanup (jobID : String) : Deploy (Option GoError) := do
  match ← controlCheckpoint jobID .downloading with
  | .error err => return some err
  | .ok _ =>
    match ← removeIfExists (.checkpoint .downloading) with
    | some err =>
      some <$> concludeCancel jobID .cleanupFailed (.errorf "cancel cleanup temp: " err)
    | none =>
      match ← controlCheckpoint jobID .cleanupComplete with
      | .error err => return some err
      | .ok _ => return none

def checkpointCleanupTemp (d : Deployment) (phase : DeployPhase) : Deploy (Option GoError) :=
  if d.control then do
    match ← controlCheckpoint d.jobID phase with
    | .error err => return some err
    | .ok decision =>
      if decision.cancelRequested then
        match ← removeIfExists (.checkpoint phase) with
        | some err =>
          some <$> concludeCancel d.jobID .cleanupFailed (.errorf "cancel cleanup temp: " err)
        | none => some <$> concludeCancel d.jobID .cleanupComplete errDeployCanceled
      else return none
  else return none

def checkpointRestoreBackup (d : Deployment) (backupCreated : Bool) : Deploy (Option GoError) :=
  if d.control then do
    match ← controlCheckpoint d.jobID .backupComplete with
    | .error err => return some err
    | .ok decision =>
      if decision.cancelRequested then
        match ← removeIfExists (.checkpoint .backupComplete) with
        | some err =>
          some <$> concludeCancel d.jobID .cleanupFailed (.errorf "cancel cleanup temp: " err)
        | none =>
          if backupCreated then
            match ← renameFile .backup .binary with
            | some err =>
              some <$> concludeCancel d.jobID .rollbackFailed
                (.errorf "cancel restore backup: " err)
            | none => some <$> concludeCancel d.jobID .rollbackComplete errDeployCanceled
          else some <$> concludeCancel d.jobID .rollbackComplete errDeployCanceled
      else return none
  else return none

def checkpointRollbackInstalled (d : Deployment) (phase : DeployPhase) (backupCreated : Bool) :
    Deploy (Option GoError) :=
  if d.control then do
    match ← controlCheckpoint d.jobID phase with
    | .error err => return some err
    | .ok decision =>
      if decision.cancelRequested then
        if backupCreated then
          match ← renameFile .backup .binary with
          | some err =>
            some <$> concludeCancel d.jobID .rollbackFailed
              (.errorf "cancel rollback rename failed: " err)
          | none =>
            match ← systemctlRestart .rolledBack with
            | (some err, out) =>
              some <$> concludeCancel d.jobID .rollbackFailed
                ⟨"cancel rollback restart failed: " ++ err.text ++ ": " ++ out, err.wraps⟩
            | (none, _) => some <$> concludeCancel d.jobID .rollbackComplete errDeployCanceled
        else
          some <$> concludeCancel d.jobID .systemInconsistent
            (.new "cancel rollback unavailable: no previous binary backup")
      else return none
  else return none

/-- What `DeployArtifact` returns, with the variable `cleanup` that its deferred function reads. -/
structure DeployExit where
  summary : DownloadSummary
  err : Option GoError
  cleanup : Bool

def noSummary : DownloadSummary := ⟨0, 0, 0⟩

def failed (d : Deployment) (summary : DownloadSummary) (cleanup : Bool) (err : GoError) :
    Deploy DeployExit := do
  trackerFail d.app.id
  return ⟨summary, some err, cleanup⟩

/-- The return after a checkpoint: only a canceled deploy leaves the tracker alone. -/
def stopped (d : Deployment) (summary : DownloadSummary) (cleanup : Bool) (err : GoError) :
    Deploy DeployExit :=
  if err.is .deployCanceled then return ⟨summary, some err, cleanup⟩
  else failed d summary cleanup err

def deployRollback (d : Deployment) (summary : DownloadSummary) (backupCreated : Bool) :
    Deploy DeployExit := do
  trackerSetPhase d.app.id .rollback
  if backupCreated then
    match ← renameFile .backup .binary with
    | some err => failed d summary false (.errorf "rollback rename failed: " err)
    | none =>
      match ← systemctlRestart .rolledBack with
      | (some err, out) =>
        failed d summary false
          ⟨"rollback restart failed: " ++ err.text ++ ": " ++ out, err.wraps⟩
      | (none, _) =>
        failed d summary false (.new "service failed to restart after deploy, rolled back")
  else failed d summary false (.new "rollback unavailable: no previous binary backup")

/-- The attempts that are left of the health check, without the pauses between them. -/
def deployHealthcheck (d : Deployment) (summary : DownloadSummary) (backupCreated : Bool) :
    ℕ → Deploy DeployExit
  | 0 => deployRollback d summary backupCreated
  | n + 1 => do
    match ← checkpointRollbackInstalled d .healthcheck backupCreated with
    | some err => stopped d summary false err
    | none =>
      let (err, out) ← systemctlIsActive
      if err = none ∧ GoStrings.trimSpace out = "active" then
        trackerFinish d.app.id
        return ⟨summary, none, false⟩
      else deployHealthcheck d summary backupCreated n

def deployRestart (d : Deployment) (summary : DownloadSummary) (backupCreated : Bool) :
    Deploy DeployExit := do
  trackerSetPhase d.app.id .restarting
  match ← systemctlRestart .installed with
  | (some err, out) =>
    failed d summary false ⟨"restart service: " ++ err.text ++ ": " ++ out, err.wraps⟩
  | (none, _) =>
    match ← checkpointRollbackInstalled d .restarting backupCreated with
    | some err => stopped d summary false err
    | none =>
      trackerSetPhase d.app.id .healthcheck
      deployHealthcheck d summary backupCreated 5

def deployInstall (d : Deployment) (summary : DownloadSummary) (backupCreated : Bool) :
    Deploy DeployExit := do
  trackerSetPhase d.app.id .installing
  match ← renameFile .tmp .binary with
  | some err =>
    trackerFail d.app.id
    if backupCreated then
      match ← renameFile .backup .binary with
      | some restoreErr =>
        return ⟨summary, some ⟨"replace binary: " ++ err.text ++ "; restore backup: " ++
          restoreErr.text, err.wraps⟩, true⟩
      | none => return ⟨summary, some (.errorf "replace binary: " err), true⟩
    else return ⟨summary, some (.errorf "replace binary: " err), true⟩
  | none =>
    match ← checkpointRollbackInstalled d .installing backupCreated with
    | some err => stopped d summary false err
    | none => deployRestart d summary backupCreated

def deployBackedUp (d : Deployment) (summary : DownloadSummary) (backupCreated : Bool) :
    Deploy DeployExit := do
  match ← checkpointRestoreBackup d backupCreated with
  | some err => stopped d summary true err
  | none => deployInstall d summary backupCreated

def deployBackup (d : Deployment) (summary : DownloadSummary) : Deploy DeployExit := do
  trackerSetPhase d.app.id .backingUp
  match ← checkpointCleanupTemp d .backingUp with
  | some err => stopped d summary true err
  | none =>
    match ← osStat .binary with
    | none => deployBackedUp d summary false
    | some _ =>
      match ← renameFile .binary .backup with
      | some err => failed d summary true (.errorf "backup: " err)
      | none => deployBackedUp d summary true

def deployValidate (d : Deployment) (summary : DownloadSummary) : Deploy DeployExit := do
  match ← checkpointCleanupTemp d .downloaded with
  | some err => stopped d summary true err
  | none =>
    trackerSetPhase d.app.id .validating
    match ← checkpointCleanupTemp d .validating with
    | some err => stopped d summary true err
    | none =>
      match ← validateDownloadedArtifact with
      | some err => failed d summary true err
      | none =>
        match ← chmodFile with
        | some err => failed d summary true (.errorf "chmod: " err)
        | none => deployBackup d summary

/-- `deployDownloadContext`, which starts the watcher when there is a cancel service. -/
def deployDownloadContext (d : Deployment) : Deploy Unit :=
  internal fun _ w => { w with ctxCanceled := false, watching := d.control }

/-- Ends the watcher. The context is canceled too, but nothing reads it any more. -/
def stopDownloadCancelWatcher : Deploy Unit := internal fun _ w => { w with watching := false }

def publicDownloadURL (repo tag artifact : String) : String :=
  "https://github.com/" ++ repo ++ "/releases/download/" ++ tag ++ "/" ++ artifact

def resolveArtifactDownload (d : Deployment) : Deploy (Except GoError (String × Headers)) :=
  if d.resolver then
    call fun w k =>
      match k.resolved with
      | .error e => (.error (w.clientErr e.err), w, [.resolved (some (w.clientErr e.err))])
      | .ok target => (.ok target, w, [.resolved none])
  else return .ok (publicDownloadURL d.app.githubRepo d.tag d.app.artifactName, [])

def maxArtifactBytes : Int := 100 * 1024 * 1024

def deployDownload (d : Deployment) : Deploy DeployExit := do
  deployDownloadContext d
  match ← resolveArtifactDownload d with
  | .error err =>
    stopDownloadCancelWatcher
    failed d noSummary true (.errorf "resolve artifact download: " err)
  | .ok (url, headers) =>
    let downloaded ← downloadBinaryContext d.app.id url headers maxArtifactBytes
    stopDownloadCancelWatcher
    match downloaded with
    | .error err =>
      if err.is .contextCanceled ∧ d.control then
        match ← finishCanceledCleanup d.jobID with
        | some cancelErr => failed d noSummary true cancelErr
        | none => return ⟨noSummary, some errDeployCanceled, true⟩
      else failed d noSummary true err
    | .ok summary => deployValidate d summary

/-- The body of `DeployArtifact`, in front of its deferred function. -/
def deployBody (d : Deployment) : Deploy DeployExit := do
  trackerStart d.app.id d.jobID d.tag
  let dir := GoStrings.filepathDir d.app.binaryPath
  if dir ≠ "" ∧ dir ≠ "." then
    match ← mkdirAll dir with
    | some err =>
      failed d noSummary true (.errorf ("create binary directory " ++ dir ++ ": ") err)
    | none => deployDownload d
  else deployDownload d

def deployArtifact (d : Deployment) : Deploy DeployExit := do
  let exit ← deployBody d
  if exit.cleanup then
    let _ ← osRemove .deferred
    return exit
  else return exit

/-- `MarkDone` on the row of the job. -/
def queueMarkDone (success : Bool) (errMsg : String) (summary : Option DownloadSummary) :
    Deploy (Option GoError) :=
  fallible (.markedDone success) fun w _ =>
    .ok (if w.row.isRunning then { w with row := w.row.markDone success errMsg summary } else w)

/-- The part of `runDeploy` that decides the status of the job. -/
def runDeploy (d : Deployment) : Deploy (DeployExit × Option GoError) := do
  let exit ← deployArtifact d
  let errMsg := (exit.err.map GoError.text).getD ""
  let markErr ← queueMarkDone exit.err.isNone errMsg
    (if 0 < exit.summary.bytes then some exit.summary else none)
  return (exit, markErr)

end AutoDeploy
