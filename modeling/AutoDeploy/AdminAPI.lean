import AutoDeploy.Services
import AutoDeploy.GoStrings

namespace AutoDeploy

open Interleaving

/-- A request with a JSON body, which is `none` where it does not decode. -/
structure AdminRequest (β : Type) where
  contentType : String
  body : Option β
deriving DecidableEq

/-- `secret` has gone through `webhookSecret`, and `enabled` is what the field points to. -/
structure AdminAPIAppRequest where
  fields : AppFields
  secret : String
  webhookSecret : String
  enabled : Option Bool
deriving DecidableEq

inductive SettingsError
  | rejected (text : String)
  | sql (context : String) (cause : SqlError)
deriving DecidableEq

/-- The replies of the handlers. The text of `failed` goes on with that of its cause, and
`unsaved` is a validation error with the text of its cause. -/
inductive AdminResponse
  | error (status : ℕ) (message : String)
  | invalid (errors : List String)
  | failed (message : String) (cause : QueueError)
  | unsaved (cause : SettingsError)
  | created (app : App)
  | queued (tag : String)
  | retried (jobID : String)
  | envSaved (vars : List EnvVar)
  | argsSaved (args : List String)
deriving DecidableEq

def isJSONRequest {β : Type} (req : AdminRequest β) : Bool :=
  GoStrings.hasPrefix req.contentType "application/json"

def unsupportedMediaType : AdminResponse := .error 415 "Content-Type must be application/json"

def invalidJSON : AdminResponse := .error 400 "Invalid JSON body"

def appNotFound : AdminResponse := .error 404 "App not found"

def AdminAPIAppRequest.webhookSecretOf (body : AdminAPIAppRequest) : String :=
  if body.secret ≠ "" then body.secret else body.webhookSecret

/-- A field that has to be there. -/
def requireField (value message : String) : List String := if value = "" then [message] else []

def validateAdminAPIAppRequest (body : AdminAPIAppRequest) (requireSecret : Bool) : List String :=
  requireField body.fields.name "Name is required" ++
  requireField body.fields.binaryPath "Binary Path is required" ++
  requireField body.fields.serviceName "Service Name is required" ++
  requireField body.fields.githubRepo "GitHub Repo is required" ++
  requireField body.fields.artifactName "Artifact Name is required" ++
  if requireSecret then requireField body.webhookSecretOf "Webhook Secret is required" else []

def duplicateAppMessage : String :=
  "An app with this binary path, service name, or webhook secret already exists"

/-- `CreateAppHertz`. -/
def createAppRequest (hashSecret : String → String) (req : AdminRequest AdminAPIAppRequest) :
    Op AdminResponse := do
  if !isJSONRequest req then return unsupportedMediaType
  else match req.body with
    | none => return invalidJSON
    | some body =>
      let errs := validateAdminAPIAppRequest body true
      if errs ≠ [] then return .invalid errs
      else match ← createApp hashSecret body.fields body.webhookSecretOf with
        | .error .duplicateApp => return .invalid [duplicateAppMessage]
        | .error _ => return .error 500 "Internal error creating app"
        | .ok app => return .created app

/-- `ManualDeployAppHertz`. -/
def manualDeployApp (maxPending : Int) (id : String) (req : AdminRequest String) :
    Op AdminResponse := do
  if !isJSONRequest req then return unsupportedMediaType
  else match ← getApp id with
    | .error _ => return appNotFound
    | .ok app =>
      if !app.enabled then return .error 400 "Cannot deploy disabled app"
      else match req.body with
        | none => return invalidJSON
        | some tag =>
          if tag = "" then return .invalid ["Tag is required"]
          else match ← enqueueManual maxPending id tag with
            | .error .duplicate => return .error 409 "Deploy already queued for this tag"
            | .error .queueFull => return .error 503 "Queue is full"
            | .error e => return .failed "Failed to queue deploy: " e
            | .ok () => return .queued tag

def getJob (jobID : String) : Op (Except SqlError (Option JobRow)) :=
  query fun s => s.jobs.find? jobID

/-- `RetryHistoryJobHertz`, which reads nothing of the body. -/
def retryHistoryJob (jobID : String) (req : AdminRequest Unit) : Op AdminResponse := do
  if !isJSONRequest req then return unsupportedMediaType
  else match ← getJob jobID with
    | .error _ | .ok none => return .error 404 "Job not found"
    | .ok (some job) =>
      match ← getApp job.appID with
      | .error _ => return appNotFound
      | .ok app =>
        if !app.enabled then return .error 400 "Cannot retry disabled app"
        else match ← createRetryJob jobID app.id job.tag with
          | .error .duplicate => return .error 409 "Deploy already pending for this tag"
          | .error e => return .failed "Failed to create retry job: " e
          | .ok retryJobID => return .retried retryJobID

/-- The first error of a loop that validates. -/
def firstError {α : Type} (validate : α → Except String Unit) (values : List α) : Option String :=
  values.findSome? fun value =>
    match validate value with
    | .error e => some e
    | .ok () => none

/-- `AppEnvStore.Set`. -/
def setAppEnv (quote : String → String) (appID : String) (vars : List EnvVar) :
    Op (Except SettingsError Unit) := do
  match firstError (fun v => validateEnvVarName quote v.name) vars with
  | some text => return .error (.rejected text)
  | none =>
    let saved ← exec .other fun s => .ok ((), { s with appEnv := s.appEnv.set appID vars }, [])
    match saved with
    | .error e => return .error (.sql "app_env_store: set: " e)
    | .ok () => return .ok ()

/-- `AppArgsStore.Set`. -/
def setAppArgs (quote : String → String) (appID : String) (args : List String) :
    Op (Except SettingsError Unit) := do
  if maxServiceArgs < args.length then
    return .error (.rejected ("too many arguments: " ++ toString args.length ++ ", max " ++
      toString maxServiceArgs))
  else match firstError (validateServiceArg quote) args with
    | some text => return .error (.rejected text)
    | none =>
      let saved ← exec .other fun s =>
        .ok ((), { s with appArgs := s.appArgs.set appID args }, [])
      match saved with
      | .error e => return .error (.sql "app_args_store: set: " e)
      | .ok () => return .ok ()

/-- The loop of `SaveAppEnvHertz`: the variables to save, with the errors. `seen` are the names
that were saved before. -/
def checkEnvVars (quote : String → String) :
    List String → List EnvVar → List EnvVar × List String
  | _, [] => ([], [])
  | seen, v :: rest =>
    if v.name = "" then checkEnvVars quote seen rest
    else match validateEnvVarName quote v.name with
      | .error e =>
        let (vars, errs) := checkEnvVars quote seen rest
        (vars, e :: errs)
      | .ok () =>
        if v.name ∈ seen then
          let (vars, errs) := checkEnvVars quote seen rest
          (vars, ("duplicate env var name: " ++ v.name) :: errs)
        else
          let (vars, errs) := checkEnvVars quote (v.name :: seen) rest
          (v :: vars, errs)

/-- `SaveAppEnvHertz`. -/
def saveAppEnv (quote : String → String) (id : String) (req : AdminRequest (List EnvVar)) :
    Op AdminResponse := do
  if !isJSONRequest req then return unsupportedMediaType
  else match ← getApp id with
    | .error _ => return appNotFound
    | .ok _ =>
      match req.body with
      | none => return invalidJSON
      | some envVars =>
        let (vars, errs) := checkEnvVars quote [] envVars
        if errs ≠ [] then return .invalid errs
        else match ← setAppEnv quote id vars with
          | .error _ => return .error 500 "Failed to save environment variables"
          | .ok () => return .envSaved vars

def checkServiceArgs (quote : String → String) (args : List String) : List String :=
  args.filterMap fun arg =>
    match validateServiceArg quote arg with
    | .error e => some e
    | .ok () => none

/-- `SaveAppArgsHertz`. -/
def saveAppArgs (quote : String → String) (id : String) (req : AdminRequest (List String)) :
    Op AdminResponse := do
  if !isJSONRequest req then return unsupportedMediaType
  else match ← getApp id with
    | .error _ => return appNotFound
    | .ok _ =>
      match req.body with
      | none => return invalidJSON
      | some args =>
        let errs := checkServiceArgs quote args
        if errs ≠ [] then return .invalid errs
        else match ← setAppArgs quote id args with
          | .error e => return .unsaved e
          | .ok () => return .argsSaved args

end AutoDeploy
