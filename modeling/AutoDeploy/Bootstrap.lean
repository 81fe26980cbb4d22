import AutoDeploy.Calls
import AutoDeploy.InterleavingAlone

namespace AutoDeploy

open Interleaving

structure LegacyBootstrapConfig where
  secret : String
  binaryPath : String
  serviceName : String
  githubRepo : String
  artifactName : String
deriving DecidableEq

/-- What `os.LookupEnv` finds is not there, or it is empty. -/
def envUnset (value : Option String) : Bool := value.isNone || value == some ""

/-- `LoadLegacyBootstrapConfig`, in an environment. -/
def loadLegacyBootstrapConfig (env : String → Option String) : Option LegacyBootstrapConfig :=
  let secret := env "WEBHOOK_SECRET"
  let binaryPath := env "DEPLOY_BINARY_PATH"
  let serviceName := env "DEPLOY_SERVICE_NAME"
  let githubRepo := env "GITHUB_REPO"
  let artifactName := env "ARTIFACT_NAME"
  if envUnset secret && envUnset binaryPath && envUnset serviceName && envUnset githubRepo &&
      envUnset artifactName then none
  else some ⟨secret.getD "", binaryPath.getD "", serviceName.getD "", githubRepo.getD "",
    artifactName.getD ""⟩

/-- `BootstrapIfEmpty`. -/
def bootstrapIfEmpty (hashSecret : String → String) (legacy : Option LegacyBootstrapConfig) :
    Op (Except AppError (Option App)) := do
  match legacy with
  | none => return .ok none
  | some legacy =>
    match ← query fun s => s.apps.rows.length with
    | .error e => return .error (.sql "app_store: bootstrap count: " e)
    | .ok count =>
      if 0 < count then
        match ← query fun s => s.apps.rows.head? with
        | .error e => return .error (.sql "app_store: bootstrap get existing: " e)
        | .ok none => return .error (.sql "app_store: bootstrap get existing: "
            (.other "sql: no rows in result set"))
        | .ok (some app) => return .ok (some app)
      else
        match ← createApp hashSecret ⟨"default", legacy.binaryPath, legacy.serviceName,
            legacy.githubRepo, legacy.artifactName⟩ legacy.secret with
        | .error e => return .error e
        | .ok app => return .ok (some app)

/-- The bootstrap of `main`, which no goroutine is there to interrupt. -/
def Runtime.bootstrap (rt : Runtime) (env : String → Option String) (answers : ℕ → Choice)
    (s : Server) : Outcome Server StoreEvent (Except AppError (Option App)) :=
  (bootstrapIfEmpty rt.hashSecret (loadLegacyBootstrapConfig env)).alone answers s

theorem envUnset_iff {value : Option String} :
    envUnset value = true ↔ value = none ∨ value = some "" := by
  cases value with
  | none => simp [envUnset]
  | some text => simp [envUnset]

theorem envUnset_getD {value : Option String} : envUnset value = true ↔ value.getD "" = "" := by
  rw [envUnset_iff]
  cases value with
  | none => simp
  | some text => simp

/-- The variables besides the secret that make a bootstrap configuration. -/
def bootstrapVariables : List String :=
  ["DEPLOY_BINARY_PATH", "DEPLOY_SERVICE_NAME", "GITHUB_REPO", "ARTIFACT_NAME"]

theorem loadLegacy_some {env : String → Option String} {legacy : LegacyBootstrapConfig}
    (h : loadLegacyBootstrapConfig env = some legacy) :
    legacy.secret = (env "WEBHOOK_SECRET").getD "" := by
  unfold loadLegacyBootstrapConfig at h
  dsimp only at h
  split at h
  next => cases h
  next =>
    cases h
    rfl

theorem loadLegacy_none {env : String → Option String} :
    loadLegacyBootstrapConfig env = none ↔
      envUnset (env "WEBHOOK_SECRET") = true ∧
        ∀ name ∈ bootstrapVariables, envUnset (env name) = true := by
  simp [loadLegacyBootstrapConfig, bootstrapVariables, and_assoc]

end AutoDeploy
