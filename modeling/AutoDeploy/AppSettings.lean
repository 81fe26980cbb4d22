import Mathlib.Data.List.Nodup

namespace AutoDeploy

structure EnvVar where
  name : String
  value : String
deriving DecidableEq

def isEnvVarStart (r : Char) : Bool := r.isAlpha || r == '_'

def isEnvVarPart (r : Char) : Bool := r.isAlphanum || r == '_'

/-- `envVarNameRe`, which is `^[A-Za-z_][A-Za-z0-9_]*$`. -/
def isEnvVarName (name : String) : Bool :=
  match name.toList with
  | [] => false
  | first :: rest => isEnvVarStart first && rest.all isEnvVarPart

/-- `quote` is the `%q` verb. -/
def validateEnvVarName (quote : String → String) (name : String) : Except String Unit :=
  if name = "" then .error "env var name must not be empty"
  else if isEnvVarName name then .ok ()
  else .error ("env var name " ++ quote name ++ " is invalid: must match [A-Za-z_][A-Za-z0-9_]*")

def maxServiceArgLen : ℕ := 4096

def maxServiceArgs : ℕ := 256

def isControl (r : Char) : Bool := r.val < 0x20 || r.val == 0x7f

def validateServiceArg (quote : String → String) (arg : String) : Except String Unit :=
  if maxServiceArgLen < arg.utf8ByteSize then
    .error ("argument too long: " ++ toString arg.utf8ByteSize ++ " characters, max " ++
      toString maxServiceArgLen)
  else if arg.toList.any isControl then
    .error ("argument " ++ quote arg ++ " is invalid: control characters are not allowed")
  else .ok ()

/-- The tables `app_env` and `app_args`: one row of decoded JSON for each app at most. -/
structure Settings (α : Type) where
  rows : List (String × α)
  primaryKey : (rows.map Prod.fst).Nodup
deriving DecidableEq

namespace Settings

variable {α : Type}

def empty : Settings α := ⟨[], List.nodup_nil⟩

def get? (settings : Settings α) (appID : String) : Option α :=
  (settings.rows.find? fun row => row.1 == appID).map Prod.snd

/-- The keys of the rows after an upsert. -/
def upsertKeys (keys : List String) (appID : String) : List String :=
  if appID ∈ keys then keys else keys ++ [appID]

def upsertRows (rows : List (String × α)) (appID : String) (value : α) : List (String × α) :=
  if appID ∈ rows.map Prod.fst then
    rows.map fun row => if row.1 = appID then (appID, value) else row
  else rows ++ [(appID, value)]

theorem upsertRows_keys (rows : List (String × α)) (appID : String) (value : α) :
    (upsertRows rows appID value).map Prod.fst = upsertKeys (rows.map Prod.fst) appID := by
  unfold upsertRows upsertKeys
  split
  next =>
    rw [List.map_map]
    apply List.map_congr_left
    intro row _
    by_cases he : row.1 = appID <;> simp [he]
  next => simp

/-- `INSERT ... ON CONFLICT(app_id) DO UPDATE`. -/
def set (settings : Settings α) (appID : String) (value : α) : Settings α where
  rows := upsertRows settings.rows appID value
  primaryKey := by
    rw [upsertRows_keys]
    unfold upsertKeys
    split
    next => exact settings.primaryKey
    next hnew =>
      refine List.nodup_append.mpr ⟨settings.primaryKey, List.nodup_singleton _, ?_⟩
      rintro a ha b hb rfl
      exact hnew (List.mem_singleton.mp hb ▸ ha)

end Settings

end AutoDeploy
