import AutoDeploy.InterleavingAlone
import AutoDeploy.JobTable

namespace AutoDeploy

open Interleaving

/-- A row of `admin_users`. -/
structure AdminUser where
  id : String
  username : String
  passwordHash : String
  mustChangePassword : Bool
deriving DecidableEq

/-- The table `admin_users` with its primary key and its UNIQUE column. -/
structure AdminUsers where
  rows : List AdminUser
  primaryKey : (rows.map AdminUser.id).Nodup
  uniqueUsername : (rows.map AdminUser.username).Nodup
deriving DecidableEq

namespace AdminUsers

def empty : AdminUsers := ⟨[], List.nodup_nil, List.nodup_nil⟩

def check (rows : List AdminUser) : Except SqlError AdminUsers :=
  if pk : (rows.map AdminUser.id).Nodup then
    if u : (rows.map AdminUser.username).Nodup then .ok ⟨rows, pk, u⟩
    else .error .unique
  else .error .primaryKey

def insert (users : AdminUsers) (user : AdminUser) : Except SqlError AdminUsers :=
  check (users.rows ++ [user])

/-- `UPDATE admin_users SET ... WHERE id = ?`, with the number of rows affected. -/
def update (users : AdminUsers) (id : String) (set : AdminUser → AdminUser) :
    Except SqlError (ℕ × AdminUsers) := do
  let after ← check (users.rows.map fun user => if user.id == id then set user else user)
  return (users.rows.countP fun user => user.id == id, after)

def find? (users : AdminUsers) (username : String) : Option AdminUser :=
  users.rows.find? fun user => user.username == username

/-- Some account has the name. -/
def Named (users : AdminUsers) (username : String) : Prop :=
  ∃ user ∈ users.rows, user.username = username

theorem check_rows {rows : List AdminUser} {users : AdminUsers} (h : check rows = .ok users) :
    users.rows = rows := by
  unfold check at h
  split at h
  next =>
    split at h
    next => cases h; rfl
    next => cases h
  next => cases h

theorem update_rows {users after : AdminUsers} {id : String} {set : AdminUser → AdminUser} {n : ℕ}
    (h : users.update id set = .ok (n, after)) :
    n = (users.rows.countP fun user => user.id == id) ∧
      after.rows = users.rows.map fun user => if user.id == id then set user else user := by
  unfold update at h
  generalize hc : check _ = checked at h
  cases checked with
  | error e => cases h
  | ok done =>
    cases h
    exact ⟨rfl, check_rows hc⟩

theorem find?_some {users : AdminUsers} {username : String} {user : AdminUser} :
    users.find? username = some user ↔ user ∈ users.rows ∧ user.username = username := by
  constructor
  · intro h
    have hname := List.find?_some h
    exact ⟨List.mem_of_find?_eq_some h, beq_iff_eq.mp hname⟩
  · intro h
    obtain ⟨hm, rfl⟩ := h
    cases hf : users.find? user.username with
    | none => exact absurd (beq_self_eq_true _) (List.find?_eq_none.mp hf user hm)
    | some other =>
      have hname := List.find?_some hf
      have hin := List.mem_of_find?_eq_some hf
      rw [List.inj_on_of_nodup_map users.uniqueUsername hin hm (beq_iff_eq.mp hname)]

theorem find?_none {users : AdminUsers} {username : String} :
    users.find? username = none ↔ ¬ users.Named username := by
  simp [find?, Named]

/-- A change of the rows that keeps their names. -/
theorem named_update {users after : AdminUsers} {id : String} {set : AdminUser → AdminUser}
    {n : ℕ} (h : users.update id set = .ok (n, after))
    (hset : ∀ user, (set user).username = user.username) (username : String) :
    after.Named username ↔ users.Named username := by
  have hname : ∀ user : AdminUser,
      (if user.id == id then set user else user).username = user.username := by
    intro user
    split
    next => exact hset user
    next => rfl
  simp only [Named, (update_rows h).2, List.mem_map, exists_exists_and_eq_and, hname]

theorem named_renamed {users after : AdminUsers} {id newUsername : String}
    {set : AdminUser → AdminUser} {n : ℕ} (h : users.update id set = .ok (n, after))
    (hset : ∀ user, (set user).username = newUsername) (hn : n ≠ 0) : after.Named newUsername := by
  obtain ⟨hcount, hrows⟩ := update_rows h
  have hpos : 0 < users.rows.countP fun user => user.id == id := by omega
  obtain ⟨user, hm, hid⟩ := List.countP_pos_iff.mp hpos
  refine ⟨set user, ?_, hset user⟩
  rw [hrows]
  exact List.mem_map.mpr ⟨user, hm, if_pos hid⟩

end AdminUsers

inductive AdminUserError
  | notFound
  | duplicate
  | generateID (cause : String)
  | hash (cause : String)
  | sql (context : String) (cause : SqlError)
deriving DecidableEq

/-- What an action takes from outside: an error of the database or of the random source, what
the random source gives, and the Unix time. -/
structure AdminChoice where
  fault : Option String
  random : String
  now : Int

inductive AdminEvent
  | issued (token username : String)
  | gated (path username : String) (failed passed : Bool)
deriving DecidableEq

abbrev AdminOp := Prog AdminUsers AdminChoice AdminEvent

/-- `bcrypt`; the first argument of `generateFromPassword` is what the salt is made of. -/
structure Bcrypt where
  generateFromPassword : String → String → Except String String
  compareHashAndPassword : String → String → Bool

/-- The answer of `GetByUsername` on a table, where the statement may fail. -/
def AdminUsers.lookup (users : AdminUsers) (fault : Option String) (username : String) :
    Except AdminUserError AdminUser :=
  match fault with
  | some text => .error (.sql "admin_user_store: get by username: " (.other text))
  | none =>
    match users.find? username with
    | none => .error .notFound
    | some user => .ok user

def getByUsername (username : String) : AdminOp (Except AdminUserError AdminUser) :=
  Prog.atomic fun users k => (users.lookup k.fault username, users, [])

def verifyPassword (bcrypt : Bcrypt) (username password : String) :
    AdminOp (Except AdminUserError (Option AdminUser)) := do
  match ← getByUsername username with
  | .error .notFound => return .ok none
  | .error e => return .error e
  | .ok user =>
    if bcrypt.compareHashAndPassword user.passwordHash password then return .ok (some user)
    else return .ok none

def hashPassword (bcrypt : Bcrypt) (password : String) : AdminOp (Except AdminUserError String) :=
  Prog.atomic fun users k =>
    match k.fault with
    | some text => (.error (.hash text), users, [])
    | none =>
      match bcrypt.generateFromPassword k.random password with
      | .error text => (.error (.hash text), users, [])
      | .ok hash => (.ok hash, users, [])

/-- `execUpdate`. -/
def execUserUpdate (id : String) (set : AdminUser → AdminUser) :
    AdminOp (Except AdminUserError Unit) :=
  Prog.atomic fun users k =>
    match k.fault with
    | some text => (.error (.sql "admin_user_store: update: " (.other text)), users, [])
    | none =>
      match users.update id set with
      | .error e => (.error (.sql "admin_user_store: update: " e), users, [])
      | .ok (0, after) => (.error .notFound, after, [])
      | .ok (_, after) => (.ok (), after, [])

def AdminUser.withPassword (hash : String) (user : AdminUser) : AdminUser :=
  { user with passwordHash := hash, mustChangePassword := false }

def AdminUser.withUsername (newUsername : String) (user : AdminUser) : AdminUser :=
  { user with username := newUsername }

def updatePassword (bcrypt : Bcrypt) (id newPassword : String) :
    AdminOp (Except AdminUserError Unit) := do
  match ← hashPassword bcrypt newPassword with
  | .error e => return .error e
  | .ok hash => execUserUpdate id (AdminUser.withPassword hash)

def updateUsername (id newUsername : String) : AdminOp (Except AdminUserError Unit) := do
  match ← execUserUpdate id (AdminUser.withUsername newUsername) with
  | .error (.sql _ .unique) => return .error .duplicate
  | result => return result

/-- `EnsureSeed`. -/
def ensureSeed (bcrypt : Bcrypt) (username password : String) :
    AdminOp (Except AdminUserError Bool) := do
  let counted ← Prog.atomic fun users k =>
    match k.fault with
    | some text => (Except.error (AdminUserError.sql "admin_user_store: count: " (.other text)),
        users, [])
    | none => (.ok users.rows.length, users, [])
  match counted with
  | .error e => return .error e
  | .ok count =>
    if 0 < count then return .ok false
    else match ← hashPassword bcrypt password with
      | .error e => return .error e
      | .ok hash =>
        let generated ← Prog.atomic fun users k =>
          match k.fault with
          | some text => (Except.error (AdminUserError.generateID text), users, [])
          | none => (.ok k.random, users, [])
        match generated with
        | .error e => return .error e
        | .ok id =>
          Prog.atomic fun users k =>
            match k.fault with
            | some text => (.error (.sql "admin_user_store: seed: " (.other text)), users, [])
            | none =>
              match users.insert ⟨id, username, hash, true⟩ with
              | .error e => (.error (.sql "admin_user_store: seed: " e), users, [])
              | .ok after => (.ok true, after, [])

end AutoDeploy
