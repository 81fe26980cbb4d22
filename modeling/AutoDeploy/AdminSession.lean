import AutoDeploy.AdminAPI
import AutoDeploy.AdminUsers

namespace AutoDeploy

open Interleaving

structure JWTClaims where
  sub : String
  exp : Int
deriving DecidableEq

/-- What the handlers are built on: bcrypt, `encoding/json` on the claims, unpadded URL-safe
base64, HMAC with SHA-256, and the secret of the process. -/
structure AdminRuntime where
  bcrypt : Bcrypt
  marshal : JWTClaims → Option (List UInt8)
  unmarshal : List UInt8 → Option JWTClaims
  encodeToString : List UInt8 → String
  decodeString : String → Option (List UInt8)
  hmac : List UInt8 → String → List UInt8
  secret : List UInt8

/-- 24 hours, in seconds. -/
def jwtTTL : Int := 86400

namespace AdminRuntime

variable (rt : AdminRuntime)

def sign (unsigned : String) : String := rt.encodeToString (rt.hmac rt.secret unsigned)

def issueJWT (now : Int) (username : String) : Option String :=
  match rt.marshal ⟨username, now + jwtTTL⟩ with
  | none => none
  | some payload =>
    let header := rt.encodeToString (GoStrings.bytes "\x7b\"alg\":\"HS256\",\"typ\":\"JWT\"\x7d")
    let body := rt.encodeToString payload
    let unsigned := header ++ "." ++ body
    some (unsigned ++ "." ++ rt.sign unsigned)

/-- `validateJWT` up to the check of the time. -/
def openJWT (token : String) : Option JWTClaims :=
  match GoStrings.split token '.' with
  | [header, body, signature] =>
    if signature ≠ rt.sign (header ++ "." ++ body) then none
    else match rt.decodeString body with
      | none => none
      | some payload => rt.unmarshal payload
  | _ => none

def validateJWT (now : Int) (token : String) : Option String :=
  match rt.openJWT token with
  | none => none
  | some claims => if claims.exp < now then none else some claims.sub

end AdminRuntime

/-- How a request comes: its `Authorization` header, what `BasicAuth` reads of it, and the
session cookie, which is empty where there is none. -/
structure AdminCredentials where
  authorization : String
  basicAuth : Option (String × String)
  cookie : String
deriving DecidableEq

inductive AdminReply
  | api (response : AdminResponse)
  | unauthorized (path : String)
  | text (status : ℕ) (message : String)
  | loginFailed (username : String)
  | redirect (location : String) (token : Option String)
  | accountSaved (message : String) (token : Option String)
  | handled (username : String)
deriving DecidableEq

def timeNow : AdminOp Int := Prog.atomic fun users k => (k.now, users, [])

/-- `issueJWT` in a handler. -/
def issueToken (rt : AdminRuntime) (username : String) : AdminOp (Option String) :=
  Prog.atomic fun users k =>
    match rt.issueJWT k.now username with
    | none => (none, users, [])
    | some token => (some token, users, [.issued token username])

/-- `HandleLoginHertz`. -/
def handleLogin (rt : AdminRuntime) (formUsername password : String) : AdminOp AdminReply := do
  let username := GoStrings.trimSpace formUsername
  match ← verifyPassword rt.bcrypt username password with
  | .error _ => return .text 500 "internal error"
  | .ok none => return .loginFailed username
  | .ok (some _) =>
    match ← issueToken rt username with
    | none => return .text 500 "internal error"
    | some token => return .redirect "/admin/" (some token)

def isAPIOrEvents (path : String) : Bool :=
  GoStrings.hasPrefix path "/admin/api" || GoStrings.hasPrefix path "/admin/events"

/-- The paths that the gate is for. -/
def isGated (path : String) : Bool :=
  isAPIOrEvents path && !GoStrings.hasPrefix path "/admin/api/account"

def authenticateAdminRequest (rt : AdminRuntime) (creds : AdminCredentials)
    (apiOrEvents : Bool) : AdminOp (Option String) := do
  if apiOrEvents && GoStrings.hasPrefix creds.authorization "Basic " then
    match creds.basicAuth with
    | none => return none
    | some (username, password) =>
      match ← verifyPassword rt.bcrypt username password with
      | .ok (some user) => return some user.username
      | _ => return none
  else
    let now ← timeNow
    return rt.validateJWT now creds.cookie

/-- Whether the gate lets a request go on after its `GetByUsername`. -/
def AdminUsers.passesGate (users : AdminUsers) (fault : Option String) (username : String) :
    Bool :=
  match users.lookup fault username with
  | .ok user => !user.mustChangePassword
  | .error _ => true

/-- The gate. A request that passes is at its handler: there is no other look at the table
between the two. -/
def passwordGate (path username : String) : AdminOp Bool :=
  Prog.atomic fun users k =>
    let passed := users.passesGate k.fault username
    (passed, users, [.gated path username k.fault.isSome passed])

/-- `HertzSessionAuthMiddleware`, before the handler `next`. -/
def sessionAuth (rt : AdminRuntime) (path : String) (creds : AdminCredentials)
    (next : String → AdminOp AdminReply) : AdminOp AdminReply := do
  match ← authenticateAdminRequest rt creds (isAPIOrEvents path) with
  | none =>
    if isAPIOrEvents path then return .unauthorized path
    else return .redirect "/admin/login" none
  | some username =>
    if isGated path then
      if ← passwordGate path username then next username
      else return .api (.error 403 "Password change required")
    else next username

def minAdminPasswordLen : ℕ := 6

/-- `verifyCurrent`: the account, or the reply. -/
def verifyCurrent (rt : AdminRuntime) (username currentPassword : String) :
    AdminOp (AdminReply ⊕ AdminUser) := do
  match ← verifyPassword rt.bcrypt username currentPassword with
  | .error _ => return .inl (.api (.error 500 "internal error"))
  | .ok none => return .inl (.api (.error 401 "Current password is incorrect"))
  | .ok (some user) => return .inr user

/-- The body of a change of the account, `none` where it does not decode. -/
abbrev AccountBody := Option (String × String)

/-- `ChangePasswordHertz`, on the current and the new password. -/
def changePassword (rt : AdminRuntime) (body : AccountBody) (username : String) :
    AdminOp AdminReply := do
  match body with
  | none => return .api invalidJSON
  | some (currentPassword, newPassword) =>
    if newPassword.utf8ByteSize < minAdminPasswordLen then
      return .api (.invalid ["New password must be at least 6 characters"])
    else match ← verifyCurrent rt username currentPassword with
      | .inl reply => return reply
      | .inr user =>
        match ← updatePassword rt.bcrypt user.id newPassword with
        | .error _ => return .api (.error 500 "Failed to update password")
        | .ok () =>
          let token ← issueToken rt username
          return .accountSaved "Password updated" token

/-- `ChangeUsernameHertz`, on the current password and the new name. -/
def changeUsername (rt : AdminRuntime) (body : AccountBody) (username : String) :
    AdminOp AdminReply := do
  match body with
  | none => return .api invalidJSON
  | some (currentPassword, name) =>
    let newUsername := GoStrings.trimSpace name
    if newUsername = "" then return .api (.invalid ["New username is required"])
    else match ← verifyCurrent rt username currentPassword with
      | .inl reply => return reply
      | .inr user =>
        match ← updateUsername user.id newUsername with
        | .error .duplicate => return .api (.invalid ["Username is already taken"])
        | .error _ => return .api (.error 500 "Failed to update username")
        | .ok () =>
          let token ← issueToken rt newUsername
          return .accountSaved "Username updated" token

/-- The requests of the admin pages; `page` is any other path behind the middleware. -/
inductive AdminCall
  | login (username password : String)
  | changePassword (creds : AdminCredentials) (body : AccountBody)
  | changeUsername (creds : AdminCredentials) (body : AccountBody)
  | page (creds : AdminCredentials) (path : String)
deriving DecidableEq

def AdminRuntime.serve (rt : AdminRuntime) : AdminCall → AdminOp AdminReply
  | .login username password => handleLogin rt username password
  | .changePassword creds body =>
    sessionAuth rt "/admin/api/account/password" creds (AutoDeploy.changePassword rt body)
  | .changeUsername creds body =>
    sessionAuth rt "/admin/api/account/username" creds (AutoDeploy.changeUsername rt body)
  | .page creds path => sessionAuth rt path creds fun username => return .handled username

abbrev AdminStep := Step AdminUsers AdminEvent

abbrev AdminHistory := List (Record AdminUsers AdminEvent AdminReply AdminCall)

abbrev AdminConfig := Config AdminUsers AdminChoice AdminEvent AdminReply AdminCall

end AutoDeploy
