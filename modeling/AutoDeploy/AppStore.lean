import AutoDeploy.DeployQueue

namespace AutoDeploy

open Interleaving

def loadSecretHashCache : Op (Except AppError (List App)) := do
  match ← readSecretHashCache with
  | some m => return .ok m
  | none =>
    lockSecretHashCache
    match ← readSecretHashCache with
    | some m =>
      unlockSecretHashCache
      return .ok m
    | none =>
      match ← query fun s => s.apps.enabledApps with
      | .error e =>
        unlockSecretHashCache
        return .error (.sql "app_store: load secret hash cache: " e)
      | .ok m =>
        storeSecretHashCache m
        unlockSecretHashCache
        return .ok m

def getBySecretHash (hash : String) : Op (Except AppError (Option App)) := do
  match ← loadSecretHashCache with
  | .error e => return .error e
  | .ok m => return .ok (m.find? fun app => app.webhookSecretHash == hash)

def listApps : Op (Except AppError (List App)) := do
  match ← query fun s => s.apps.rows with
  | .error e => return .error (.sql "app_store: list: " e)
  | .ok apps => return .ok apps

def getApp (id : String) : Op (Except AppError App) := do
  match ← query fun s => s.apps.get? id with
  | .error e => return .error (.sql "app_store: get: " e)
  | .ok none => return .error (.notFound id)
  | .ok (some app) => return .ok app

/-- The fields of an app that `Create` and `Update` take from the request. -/
structure AppFields where
  name : String
  binaryPath : String
  serviceName : String
  githubRepo : String
  artifactName : String
deriving DecidableEq

def appSqlError (context : String) (e : SqlError) : AppError :=
  if isUniqueViolation e then .duplicateApp else .sql context e

def createApp (hashSecret : String → String) (fields : AppFields) (secret : String) :
    Op (Except AppError App) := do
  match ← generateJobID with
  | .error e => return .error (.sql "app_store: generate id: " (.other e))
  | .ok id =>
    let app : App := ⟨id, fields.name, hashSecret secret, fields.binaryPath, fields.serviceName,
      fields.githubRepo, fields.artifactName, true⟩
    let inserted ← exec .other fun s => do
      let apps ← s.apps.insert app
      return ((), { s with apps := apps }, [])
    match inserted with
    | .error e => return .error (appSqlError "app_store: insert: " e)
    | .ok () =>
      invalidateSecretHashCache
      getApp id

/-- The UPDATE that `UpdateWithOptionalSecret`, `RotateSecret` and `SetEnabled` share. -/
def updateApp (context : String) (id : String) (set : App → App) : Op (Except AppError Unit) := do
  let updated ← exec .other fun s => do
    let (n, apps) ← s.apps.update id set
    return (n, { s with apps := apps }, [])
  match updated with
  | .error e => return .error (appSqlError context e)
  | .ok n =>
    if n = 0 then return .error (.notFound id)
    else
      invalidateSecretHashCache
      return .ok ()

def updateWithOptionalSecret (hashSecret : String → String) (id : String) (fields : AppFields)
    (secret : String) (enabled : Bool) : Op (Except AppError Unit) :=
  updateApp "app_store: update with optional secret: " id fun app =>
    { app with
      name := fields.name
      webhookSecretHash := if secret = "" then app.webhookSecretHash else hashSecret secret
      binaryPath := fields.binaryPath
      serviceName := fields.serviceName
      githubRepo := fields.githubRepo
      artifactName := fields.artifactName
      enabled := enabled }

def rotateSecret (hashSecret : String → String) (id newSecret : String) :
    Op (Except AppError Unit) :=
  updateApp "app_store: rotate secret: " id fun app =>
    { app with webhookSecretHash := hashSecret newSecret }

def setEnabled (id : String) (enabled : Bool) : Op (Except AppError Unit) :=
  updateApp "app_store: set enabled: " id fun app => { app with enabled := enabled }

/-- `Delete`, with the hook that `main` sets to drop the queue's cache. -/
def deleteAppOp (id : String) : Op (Except AppError Unit) := do
  let deleted ← exec (fun text => AppError.sql "app_store: " (.other text)) fun s => do
    let (jobs, apps) ← deleteApp s.jobs s.apps id
    return ((), { s with jobs := jobs, apps := apps }, [])
  match deleted with
  | .error e => return .error e
  | .ok () =>
    invalidateSecretHashCache
    invalidateActiveJobsCache
    return .ok ()

end AutoDeploy
