import AutoDeploy.AdminAPI
import AutoDeploy.InterleavingRun

namespace AutoDeploy

open Interleaving

/-- What a server is started with: the queue bound, and the parts of Go's library that the
stores call, SHA-256 in hexadecimal and the `%q` verb. -/
structure Runtime where
  maxPending : Int
  hashSecret : String → String
  quote : String → String

inductive Call
  | enqueue (appID tag : String)
  | enqueueManual (appID tag : String)
  | createRetryJob (originalJobID appID tag : String)
  | dequeueNext (appID : String)
  | markDone (id : String) (success : Bool) (errMsg : String) (summary : Option DownloadSummary)
  | saveJobLog (id log : String)
  | recoverStale
  | requestJobCancel (jobID : String)
  | requestAppCancel (appID : String)
  | checkpoint (jobID : String) (phase : DeployPhase)
  | deleteApp (id : String)
  | admissionAdmit (bearerToken tag : String)
  | createApp (fields : AppFields) (secret : String)
  | updateApp (id : String) (fields : AppFields) (secret : String) (enabled : Bool)
  | rotateSecret (id newSecret : String)
  | setEnabled (id : String) (enabled : Bool)
  | listApps
  | isDuplicate (appID tag : String)
  | getBySecretHash (hash : String)
  | createAppRequest (req : AdminRequest AdminAPIAppRequest)
  | manualDeployApp (id : String) (req : AdminRequest String)
  | retryHistoryJob (jobID : String) (req : AdminRequest Unit)
  | saveAppEnv (id : String) (req : AdminRequest (List EnvVar))
  | saveAppArgs (id : String) (req : AdminRequest (List String))

inductive Reply
  | queued (result : Except QueueError Unit)
  | retried (result : Except QueueError String)
  | dequeued (result : Except SqlError (Option (String × String)))
  | written (result : Except SqlError Unit)
  | logged (result : Except QueueError Unit)
  | jobCanceled (result : Except SqlError CancelJobResult)
  | appCanceled (result : Except SqlError CancelAppResult)
  | decided (result : Except SqlError CancelCheckpointDecision)
  | appWritten (result : Except AppError Unit)
  | appCreated (result : Except AppError App)
  | admitted (result : AdmissionResult)
  | listed (result : Except AppError (List App))
  | duplicate (result : Except QueueError Bool)
  | found (result : Except AppError (Option App))
  | answered (response : AdminResponse)

def Runtime.program (rt : Runtime) : Call → Op Reply
  | .enqueue appID tag => Reply.queued <$> enqueue rt.maxPending appID tag
  | .enqueueManual appID tag => Reply.queued <$> enqueueManual rt.maxPending appID tag
  | .createRetryJob originalJobID appID tag =>
    Reply.retried <$> createRetryJob originalJobID appID tag
  | .dequeueNext appID => Reply.dequeued <$> dequeueNext appID
  | .markDone id success errMsg summary => Reply.written <$> markDone id success errMsg summary
  | .saveJobLog id log => Reply.logged <$> saveJobLog id log
  | .recoverStale => Reply.written <$> recoverStale
  | .requestJobCancel jobID => Reply.jobCanceled <$> requestJobCancel rt.quote jobID
  | .requestAppCancel appID => Reply.appCanceled <$> requestAppCancel rt.quote appID
  | .checkpoint jobID phase => Reply.decided <$> checkpoint jobID phase
  | .deleteApp id => Reply.appWritten <$> deleteAppOp id
  | .admissionAdmit bearerToken tag =>
    Reply.admitted <$> admissionAdmit rt.hashSecret rt.maxPending bearerToken tag
  | .createApp fields secret => Reply.appCreated <$> createApp rt.hashSecret fields secret
  | .updateApp id fields secret enabled =>
    Reply.appWritten <$> updateWithOptionalSecret rt.hashSecret id fields secret enabled
  | .rotateSecret id newSecret => Reply.appWritten <$> rotateSecret rt.hashSecret id newSecret
  | .setEnabled id enabled => Reply.appWritten <$> setEnabled id enabled
  | .listApps => Reply.listed <$> listApps
  | .isDuplicate appID tag => Reply.duplicate <$> isDuplicate appID tag
  | .getBySecretHash hash => Reply.found <$> getBySecretHash hash
  | .createAppRequest req => Reply.answered <$> createAppRequest rt.hashSecret req
  | .manualDeployApp id req => Reply.answered <$> manualDeployApp rt.maxPending id req
  | .retryHistoryJob jobID req => Reply.answered <$> retryHistoryJob jobID req
  | .saveAppEnv id req => Reply.answered <$> saveAppEnv rt.quote id req
  | .saveAppArgs id req => Reply.answered <$> saveAppArgs rt.quote id req

abbrev ServerStep := Step Server StoreEvent

abbrev ServerHistory := List (Record Server StoreEvent Reply Call)

abbrev ServerConfig := Config Server Choice StoreEvent Reply Call

/-- A configuration that the server reaches, from a state of its database, by any interleaving
of any calls. -/
abbrev Runtime.Reaches (rt : Runtime) (s₀ : Server) (cfg : ServerConfig) : Prop :=
  Interleaving.Reaches rt.program s₀ cfg

end AutoDeploy
