import AutoDeploy.AppStore

namespace AutoDeploy

open Interleaving

inductive AdmissionOutcome
  | unauthorized
  | badRequest
  | duplicate
  | queued
  | error
deriving DecidableEq

inductive AdmissionError
  | store (cause : AppError)
  | queue (cause : QueueError)
  | queueFull
deriving DecidableEq

structure AdmissionResult where
  outcome : AdmissionOutcome
  app : Option App
  tag : String
  error : Option AdmissionError
deriving DecidableEq

def resolveApp (hashSecret : String → String) (bearerToken : String) :
    Op (Except AppError (Option App)) :=
  getBySecretHash (hashSecret bearerToken)

def admissionAdmit (hashSecret : String → String) (maxPending : Int) (bearerToken tag : String) :
    Op AdmissionResult := do
  match ← resolveApp hashSecret bearerToken with
  | .error e => return ⟨.error, none, "", some (.store e)⟩
  | .ok none => return ⟨.unauthorized, none, "", none⟩
  | .ok (some app) =>
    if tag = "" then return ⟨.badRequest, some app, "", none⟩
    else match ← isDuplicate app.id tag with
      | .error e => return ⟨.error, some app, tag, some (.queue e)⟩
      | .ok true => return ⟨.duplicate, some app, tag, none⟩
      | .ok false =>
        match ← enqueue maxPending app.id tag with
        | .error .duplicate => return ⟨.duplicate, some app, tag, none⟩
        | .error (.invalidTag reason) =>
          return ⟨.badRequest, some app, tag, some (.queue (.invalidTag reason))⟩
        | .error .queueFull => return ⟨.error, some app, tag, some .queueFull⟩
        | .error e => return ⟨.error, some app, tag, some (.queue e)⟩
        | .ok () => return ⟨.queued, some app, tag, none⟩

/-- The events of `publishCancelResult`, whose sink `main` has set. -/
def CancelJobResult.events (result : CancelJobResult) : List CancelEvent :=
  if result.outcome = .unknownJob ∨ result.outcome = .terminalNoop then []
  else
    .cancelRequested result.appID result.jobID result.previousState result.status result.outcome
      result.message ::
    match result.status with
    | some .canceled => [.jobStatus result.jobID .canceled result.message]
    | some .failed => [.jobStatus result.jobID .failed result.message]
    | some .succeeded => [.jobStatus result.jobID .succeeded result.message]
    | _ => []

def broadcastAll : List CancelEvent → Op Unit
  | [] => return ()
  | event :: rest => do
    broadcastCancelEvent event
    broadcastAll rest

def publishCancelResult (result : CancelJobResult) : Op Unit := broadcastAll result.events

def publishAll : List CancelJobResult → Op Unit
  | [] => return ()
  | result :: rest => do
    publishCancelResult result
    publishAll rest

def requestJobCancel (quote : String → String) (jobID : String) :
    Op (Except SqlError CancelJobResult) := do
  let outcome ← exec .other fun s => do
    let (result, jobs) ← s.jobs.requestJobCancel quote jobID
    return ((result, (s.jobs.find? jobID).isSome), { s with jobs := jobs },
      [.cancelReported result])
  match outcome with
  | .error e => return .error e
  | .ok (result, false) => return .ok result
  | .ok (result, true) =>
    invalidateActiveJobsCache
    publishCancelResult result
    return .ok result

def requestAppCancel (quote : String → String) (appID : String) :
    Op (Except SqlError CancelAppResult) := do
  let outcome ← exec .other fun s => do
    let (result, jobs) ← s.jobs.requestAppCancel quote appID
    return (result, { s with jobs := jobs }, result.requested.map StoreEvent.cancelReported)
  match outcome with
  | .error e => return .error e
  | .ok result =>
    invalidateActiveJobsCache
    publishAll result.requested
    return .ok result

def isCancelRequested (jobID : String) : Op (Except SqlError Bool) :=
  query fun s =>
    match s.jobs.find? jobID with
    | none => false
    | some row => row.status == .cancelRequested || row.status == .canceled

def markTerminal (jobID : String) (status : JobStatus) (message : String) :
    Op (Except SqlError Unit) := do
  let result ← execJobs fun jobs => jobs.markTerminal jobID status message
  invalidateActiveJobsCache
  return result

def checkpoint (jobID : String) (phase : DeployPhase) :
    Op (Except SqlError CancelCheckpointDecision) := do
  match ← query fun s => (s.jobs.find? jobID).map JobRow.status with
  | .error e => return .error e
  | .ok none => return .ok (.declared jobID none phase .noop "job not found")
  | .ok (some status) =>
    let decision := cancelDecisionForStatus jobID status phase
    match decision.marks status with
    | none => return .ok decision
    | some terminal =>
      match ← markTerminal jobID terminal decision.message with
      | .error e => return .error e
      | .ok () =>
        broadcastCancelEvent (.jobStatus jobID terminal decision.message)
        return .ok { decision with status := some terminal }

end AutoDeploy
