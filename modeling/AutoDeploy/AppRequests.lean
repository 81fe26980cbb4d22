import AutoDeploy.Calls

namespace AutoDeploy

open Interleaving

/-- The replies of the app handlers that are not among those of `AdminResponse`. -/
inductive AppReply
  | api (response : AdminResponse)
  | form (errors : List String)
  | text (status : ℕ) (message : String)
  | navigated (message : String)
  | updated (app : App)

def appFormErrors (fields : AppFields) : List String :=
  requireField fields.name "Name is required" ++
  requireField fields.binaryPath "Binary Path is required" ++
  requireField fields.serviceName "Service Name is required" ++
  requireField fields.githubRepo "GitHub Repo is required" ++
  requireField fields.artifactName "Artifact Name is required"

/-- `CreateAppHertz` of the app form. -/
def createAppForm (hashSecret : String → String) (fields : AppFields) (secret : String) :
    Op AppReply := do
  let errs := appFormErrors fields ++ requireField secret "Webhook Secret is required"
  if errs ≠ [] then return .form errs
  else match ← createApp hashSecret fields secret with
    | .error .duplicateApp => return .form [duplicateAppMessage]
    | .error _ => return .form ["Internal error creating app"]
    | .ok _ => return .navigated "App created successfully"

/-- `Update`, which keeps the secret. -/
def updateAppFields (hashSecret : String → String) (id : String) (fields : AppFields)
    (enabled : Bool) : Op (Except AppError Unit) :=
  updateWithOptionalSecret hashSecret id fields "" enabled

/-- `UpdateAppHertz` of the app form. -/
def updateAppForm (hashSecret : String → String) (id : String) (fields : AppFields)
    (secret : String) : Op AppReply := do
  match ← getApp id with
  | .error _ => return .text 404 "App not found"
  | .ok app =>
    let errs := appFormErrors fields
    if errs ≠ [] then return .form errs
    else match ← updateAppFields hashSecret id fields app.enabled with
      | .error .duplicateApp =>
        return .form ["An app with this binary path or service name already exists"]
      | .error _ => return .form ["Internal error updating app"]
      | .ok () =>
        if secret = "" then return .navigated "App updated successfully"
        else match ← rotateSecret hashSecret id secret with
          | .error .duplicateApp => return .form ["An app with this webhook secret already exists"]
          | .error _ => return .text 500 "Failed to rotate secret"
          | .ok () => return .navigated "App updated successfully"

/-- `UpdateAppHertz` of the admin API. -/
def updateAppRequest (hashSecret : String → String) (id : String)
    (req : AdminRequest AdminAPIAppRequest) : Op AppReply := do
  if !isJSONRequest req then return .api unsupportedMediaType
  else match ← getApp id with
    | .error _ => return .api appNotFound
    | .ok app =>
      match req.body with
      | none => return .api invalidJSON
      | some body =>
        let errs := validateAdminAPIAppRequest body false
        if errs ≠ [] then return .api (.invalid errs)
        else
          let enabled := body.enabled.getD app.enabled
          match ← updateWithOptionalSecret hashSecret id body.fields body.webhookSecretOf
            enabled with
          | .error .duplicateApp => return .api (.invalid [duplicateAppMessage])
          | .error _ => return .api (.error 500 "Internal error updating app")
          | .ok () =>
            match ← getApp id with
            | .error _ => return .api (.error 500 "Failed to load updated app")
            | .ok updated => return .updated updated

/-- The calls of the stores that take a secret from a handler, which validates it. -/
def Call.validated : Call → Bool
  | .createApp .. | .updateApp .. | .rotateSecret .. => true
  | _ => false

/-- What comes to the server: the requests of the app handlers, and every other call. -/
inductive Request
  | createForm (fields : AppFields) (secret : String)
  | updateForm (id : String) (fields : AppFields) (secret : String)
  | update (id : String) (req : AdminRequest AdminAPIAppRequest)
  | other (call : Call) (direct : call.validated = false)

inductive RequestReply
  | app (reply : AppReply)
  | other (reply : Reply)

def Runtime.serve (rt : Runtime) : Request → Op RequestReply
  | .createForm fields secret => .app <$> createAppForm rt.hashSecret fields secret
  | .updateForm id fields secret => .app <$> updateAppForm rt.hashSecret id fields secret
  | .update id req => .app <$> updateAppRequest rt.hashSecret id req
  | .other call _ => .other <$> rt.program call

abbrev RequestConfig := Config Server Choice StoreEvent RequestReply Request

end AutoDeploy
