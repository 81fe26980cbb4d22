import AutoDeploy.AdminAPI
import AutoDeploy.Utf8

namespace AutoDeploy

open Interleaving

/-- A row of `telegram_config`. Its texts are any bytes. -/
structure TelegramConfig where
  appID : Int
  appHash : List UInt8
  botToken : List UInt8
  chatUsername : List UInt8
  enabled : Bool
deriving DecidableEq

/-- The zero value, which stands for a row that is not there. -/
def TelegramConfig.zero : TelegramConfig := ⟨0, [], [], [], false⟩

/-- The `Config` of a Telegram manager. -/
structure ManagerConfig where
  appID : Int
  appHash : List UInt8
  botToken : List UInt8
  chatUsername : List UInt8
  sessionPath : List UInt8
deriving DecidableEq

/-- What the two config handlers are made with. -/
structure ConfigSetup where
  envToken : List UInt8
  sessionPath : List UInt8

/-- The rows of the two config tables, and what the handlers keep running. `notifier` is `none`
for a `NopNotifier`, and `running` holds the managers that have been started and not stopped. -/
structure LiveWorld where
  github : Option (List UInt8)
  telegram : Option TelegramConfig
  githubLocked : Bool
  clientToken : List UInt8
  telegramLocked : Bool
  manager : Option ManagerConfig
  running : List ManagerConfig
  notifier : Option ManagerConfig
deriving DecidableEq

/-- What one action reads from outside: the error of the database. -/
structure ConfigChoice where
  fault : Option String

/-- `githubChosen` and `telegramChosen` mark the moment from which a request has what it will
apply: it has saved it, or `Reload` has read it back. -/
inductive ConfigEvent
  | githubChosen (token : List UInt8)
  | tokenSet (token : List UInt8)
  | telegramChosen (cfg : TelegramConfig)
  | notifierSet (notifier : Option ManagerConfig)
deriving DecidableEq

abbrev ConfigOp := Prog LiveWorld ConfigChoice ConfigEvent

section GitHub

def LiveWorld.storedToken (w : LiveWorld) : List UInt8 := w.github.getD []

def effectiveToken (setup : ConfigSetup) (storedToken : List UInt8) : List UInt8 :=
  if storedToken = [] then setup.envToken else storedToken

/-- `GitHubConfigStore.Get`. -/
def getGitHub (report : List UInt8 → List ConfigEvent) : ConfigOp (Except String (List UInt8)) :=
  Prog.atomic fun w k =>
    match k.fault with
    | some text => (.error ("github_config_store: get: " ++ text), w, [])
    | none => (.ok w.storedToken, w, report w.storedToken)

/-- `GitHubConfigStore.Save`. -/
def saveGitHub (token : List UInt8) : ConfigOp (Except String Unit) :=
  Prog.atomic fun w k =>
    match k.fault with
    | some text => (.error ("github_config_store: save: " ++ text), w, [])
    | none => (.ok (), { w with github := some token }, [.githubChosen token])

def lockGitHub : ConfigOp Unit :=
  Prog.await (fun w => !w.githubLocked) fun w _ => ((), { w with githubLocked := true }, [])

def unlockGitHub : ConfigOp Unit :=
  Prog.atomic fun w _ => ((), { w with githubLocked := false }, [])

/-- `SetToken` of the live client. -/
def setToken (token : List UInt8) : ConfigOp Unit :=
  Prog.atomic fun w _ => ((), { w with clientToken := token }, [.tokenSet token])

def applyGitHub (setup : ConfigSetup) (storedToken : List UInt8) : ConfigOp Unit := do
  lockGitHub
  setToken (effectiveToken setup storedToken)
  unlockGitHub

end GitHub

section Telegram

def LiveWorld.storedTelegram (w : LiveWorld) : TelegramConfig := w.telegram.getD .zero

def telegramConfigComplete (cfg : TelegramConfig) : Bool :=
  cfg.enabled && decide (cfg.appID ≠ 0) && decide (cfg.appHash ≠ []) &&
    decide (cfg.botToken ≠ []) && decide (cfg.chatUsername ≠ [])

/-- What the notifier should be for this row. -/
def notifierFor (setup : ConfigSetup) (cfg : TelegramConfig) : Option ManagerConfig :=
  if telegramConfigComplete cfg = true then
    some ⟨cfg.appID, cfg.appHash, cfg.botToken, cfg.chatUsername, setup.sessionPath⟩
  else none

/-- `TelegramConfigStore.Get`. -/
def getTelegram (report : TelegramConfig → List ConfigEvent) :
    ConfigOp (Except String TelegramConfig) :=
  Prog.atomic fun w k =>
    match k.fault with
    | some text => (.error ("telegram_config_store: get: " ++ text), w, [])
    | none => (.ok w.storedTelegram, w, report w.storedTelegram)

/-- `TelegramConfigStore.Save`. -/
def saveTelegram (cfg : TelegramConfig) : ConfigOp (Except String Unit) :=
  Prog.atomic fun w k =>
    match k.fault with
    | some text => (.error ("telegram_config_store: save: " ++ text), w, [])
    | none => (.ok (), { w with telegram := some cfg }, [.telegramChosen cfg])

def lockTelegram : ConfigOp Unit :=
  Prog.await (fun w => !w.telegramLocked) fun w _ => ((), { w with telegramLocked := true }, [])

def unlockTelegram : ConfigOp Unit :=
  Prog.atomic fun w _ => ((), { w with telegramLocked := false }, [])

/-- `Stop` of the manager of the handler, which waits for the end of its goroutine. -/
def stopManager : ConfigOp Unit :=
  Prog.atomic fun w _ =>
    match w.manager with
    | none => ((), w, [])
    | some m => ((), { w with manager := none, running := w.running.erase m }, [])

/-- `Start` of a new manager, which the handler then keeps. -/
def startManager (m : ManagerConfig) : ConfigOp Unit :=
  Prog.atomic fun w _ => ((), { w with manager := some m, running := m :: w.running }, [])

def setNotifier (notifier : Option ManagerConfig) : ConfigOp Unit :=
  Prog.atomic fun w _ => ((), { w with notifier := notifier }, [.notifierSet notifier])

def applyTelegram (setup : ConfigSetup) (cfg : TelegramConfig) : ConfigOp Unit := do
  lockTelegram
  stopManager
  match notifierFor setup cfg with
  | none => setNotifier none
  | some m =>
    startManager m
    setNotifier (some m)
  unlockTelegram

end Telegram

section Masking

def star : UInt8 := 42

/-- A length of bytes, and the last four of them shown. -/
def maskBotToken (token : List UInt8) : List UInt8 :=
  if token = [] then []
  else if token.length ≤ 4 then List.replicate token.length star
  else List.replicate (token.length - 4) star ++ token.drop (token.length - 4)

structure TelegramConfigResponse where
  appID : Int
  appHash : List UInt8
  botToken : List UInt8
  chatUsername : List UInt8
  enabled : Bool
deriving DecidableEq

def telegramConfigResponseFrom (cfg : TelegramConfig) : TelegramConfigResponse :=
  ⟨cfg.appID, cfg.appHash, maskBotToken cfg.botToken, cfg.chatUsername, cfg.enabled⟩

structure GitHubConfigResponse where
  token : List UInt8
  hasToken : Bool
  source : String
deriving DecidableEq

def tokenSource (storedToken envToken : List UInt8) : String :=
  if storedToken ≠ [] then "database" else if envToken ≠ [] then "environment" else "none"

def githubResponseFor (setup : ConfigSetup) (storedToken : List UInt8) : GitHubConfigResponse :=
  ⟨maskBotToken (effectiveToken setup storedToken),
    decide (effectiveToken setup storedToken ≠ []), tokenSource storedToken setup.envToken⟩

end Masking

/-- The texts of a decoded body are texts. -/
structure TelegramConfigRequest where
  appID : Int
  appHash : String
  botToken : String
  chatUsername : String
  enabled : Option Bool
deriving DecidableEq

structure GitHubConfigRequest where
  token : String
deriving DecidableEq

inductive ConfigReply
  | error (status : ℕ) (message : String)
  | invalid (errors : List String)
  | telegram (config : TelegramConfigResponse)
  | github (config : GitHubConfigResponse)
  | reloaded (result : Except String Unit)

def validateTelegramConfig (cfg : TelegramConfig) : List String :=
  if cfg.enabled = false then []
  else
    (if cfg.appID = 0 then ["App ID is required"] else []) ++
    (if cfg.appHash = [] then ["App Hash is required"] else []) ++
    (if cfg.botToken = [] then ["Bot Token is required"] else []) ++
    (if cfg.chatUsername = [] then ["Chat Username is required"] else [])

/-- The row that a save makes of the current one. -/
def TelegramConfigRequest.onto (body : TelegramConfigRequest) (current : TelegramConfig) :
    TelegramConfig where
  appID := body.appID
  appHash := GoStrings.bytes (GoStrings.trimSpace body.appHash)
  botToken :=
    if body.botToken = "" ∨ GoStrings.bytes body.botToken = maskBotToken current.botToken then
      current.botToken
    else GoStrings.bytes body.botToken
  chatUsername := GoStrings.bytes (GoStrings.trimSpace body.chatUsername)
  enabled := body.enabled.getD current.enabled

/-- The token that a save makes of the current one. -/
def GitHubConfigRequest.onto (setup : ConfigSetup) (body : GitHubConfigRequest)
    (current : List UInt8) : List UInt8 :=
  let token := GoStrings.bytes (GoStrings.trimSpace body.token)
  if token = [] ∨ token = maskBotToken current ∨ token = maskBotToken setup.envToken then current
  else token

section Handlers

variable (setup : ConfigSetup)

def getTelegramConfig : ConfigOp ConfigReply := do
  match ← getTelegram fun _ => [] with
  | .error _ => return .error 500 "Failed to load telegram config"
  | .ok cfg => return .telegram (telegramConfigResponseFrom cfg)

def saveTelegramConfig (req : AdminRequest TelegramConfigRequest) : ConfigOp ConfigReply := do
  if !isJSONRequest req then return .error 415 "Content-Type must be application/json"
  else match req.body with
    | none => return .error 400 "Invalid JSON body"
    | some body =>
      match ← getTelegram fun _ => [] with
      | .error _ => return .error 500 "Failed to load telegram config"
      | .ok current =>
        let newCfg := body.onto current
        match validateTelegramConfig newCfg with
        | err :: rest => return .invalid (err :: rest)
        | [] =>
          match ← saveTelegram newCfg with
          | .error _ => return .error 500 "Failed to save telegram config"
          | .ok _ =>
            applyTelegram setup newCfg
            return .telegram (telegramConfigResponseFrom newCfg)

/-- `Reload` of the Telegram handler. -/
def reloadTelegram : ConfigOp ConfigReply := do
  match ← getTelegram fun cfg => [.telegramChosen cfg] with
  | .error err => return .reloaded (.error err)
  | .ok cfg =>
    applyTelegram setup cfg
    return .reloaded (.ok ())

def getGitHubConfig : ConfigOp ConfigReply := do
  match ← getGitHub fun _ => [] with
  | .error _ => return .error 500 "Failed to load GitHub config"
  | .ok token => return .github (githubResponseFor setup token)

def saveGitHubConfig (req : AdminRequest GitHubConfigRequest) : ConfigOp ConfigReply := do
  if !isJSONRequest req then return .error 415 "Content-Type must be application/json"
  else match req.body with
    | none => return .error 400 "Invalid JSON body"
    | some body =>
      match ← getGitHub fun _ => [] with
      | .error _ => return .error 500 "Failed to load GitHub config"
      | .ok current =>
        let token := body.onto setup current
        match ← saveGitHub token with
        | .error _ => return .error 500 "Failed to save GitHub config"
        | .ok _ =>
          applyGitHub setup token
          return .github (githubResponseFor setup token)

/-- `Reload` of the GitHub handler. -/
def reloadGitHub : ConfigOp ConfigReply := do
  match ← getGitHub fun token => [.githubChosen token] with
  | .error err => return .reloaded (.error err)
  | .ok token =>
    applyGitHub setup token
    return .reloaded (.ok ())

end Handlers

end AutoDeploy
