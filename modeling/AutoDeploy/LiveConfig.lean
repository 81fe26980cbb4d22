import AutoDeploy.AdminConfig
import AutoDeploy.InterleavingApply
import AutoDeploy.InterleavingMutex

namespace AutoDeploy

open Interleaving

inductive ConfigCall
  | getTelegramConfig
  | saveTelegramConfig (req : AdminRequest TelegramConfigRequest)
  | reloadTelegram
  | getGitHubConfig
  | saveGitHubConfig (req : AdminRequest GitHubConfigRequest)
  | reloadGitHub

def ConfigSetup.program (setup : ConfigSetup) : ConfigCall → ConfigOp ConfigReply
  | .getTelegramConfig => getTelegramConfig
  | .saveTelegramConfig req => saveTelegramConfig setup req
  | .reloadTelegram => reloadTelegram setup
  | .getGitHubConfig => getGitHubConfig setup
  | .saveGitHubConfig req => saveGitHubConfig setup req
  | .reloadGitHub => reloadGitHub setup

abbrev ConfigStep := Step LiveWorld ConfigEvent

abbrev ConfigHistory := List (Record LiveWorld ConfigEvent ConfigReply ConfigCall)

abbrev ConfigRun := Config LiveWorld ConfigChoice ConfigEvent ConfigReply ConfigCall

/-- A process that has just started on these rows. -/
def LiveWorld.booted (setup : ConfigSetup) (github : Option (List UInt8))
    (telegram : Option TelegramConfig) : LiveWorld where
  github := github
  telegram := telegram
  githubLocked := false
  clientToken := setup.envToken
  telegramLocked := false
  manager := none
  running := []
  notifier := none

/-- The manager of the handler, the managers that run, and the notifier of the coordinator. -/
abbrev TelegramPart := Option ManagerConfig × List ManagerConfig × Option ManagerConfig

/-- The mutex of the Telegram handler. -/
def telegramMutex : Mutex LiveWorld TelegramPart :=
  ⟨LiveWorld.telegramLocked, fun w => (w.manager, w.running, w.notifier)⟩

/-- Outside of `apply` the manager of the handler is the one that runs, and is the notifier. -/
def Resting (part : TelegramPart) : Prop := part.2.1 = part.1.toList ∧ part.2.2 = part.1

def AtMostOne (part : TelegramPart) : Prop := part.2.1.length ≤ 1

def githubLive (setup : ConfigSetup) :
    LiveCopy LiveWorld ConfigEvent (List UInt8) (List UInt8) where
  stored := LiveWorld.storedToken
  live := LiveWorld.clientToken
  wanted := effectiveToken setup
  chosen
    | .githubChosen token => some token
    | _ => none
  applies
    | .tokenSet _ => true
    | _ => false

def telegramLive (setup : ConfigSetup) :
    LiveCopy LiveWorld ConfigEvent TelegramConfig (Option ManagerConfig) where
  stored := LiveWorld.storedTelegram
  live := LiveWorld.notifier
  wanted := notifierFor setup
  chosen
    | .telegramChosen cfg => some cfg
    | _ => none
  applies
    | .notifierSet _ => true
    | _ => false

/-- What any step of a config request may do. -/
structure ConfigMoves (setup : ConfigSetup) (own : List ConfigStep) (step : ConfigStep) : Prop where
  mutex : telegramMutex.Moves Resting AtMostOne own step
  github : (githubLive setup).Moves own step
  telegram : (telegramLive setup).Moves own step

/-- How far a request has come: what it holds under the mutex, and what it has to apply. -/
structure ConfigStage (setup : ConfigSetup) (part : Option TelegramPart)
    (token : Option (List UInt8)) (cfg : Option TelegramConfig) (own : List ConfigStep) : Prop where
  mutex : telegramMutex.inside own = part
  github : (githubLive setup).pending own = token
  telegram : (telegramLive setup).pending own = cfg

abbrev ConfigUnder {α : Type} (setup : ConfigSetup) (own : List ConfigStep) (p : ConfigOp α)
    (Q : List ConfigStep → α → Prop) : Prop :=
  p.Under (telegramMutex.Knows Resting) (fun _ _ => False) (fun _ _ => True) (ConfigMoves setup) Q
    own

section Primitives

variable {setup : ConfigSetup} {own : List ConfigStep} {part : Option TelegramPart}
  {token : Option (List UInt8)} {cfg : Option TelegramConfig} {step : ConfigStep}

theorem stage_step
    (hm : telegramMutex.Moves Resting AtMostOne own step ∧
      telegramMutex.inside (own ++ [step]) = part)
    (hg : (githubLive setup).Moves own step ∧ (githubLive setup).pending (own ++ [step]) = token)
    (ht : (telegramLive setup).Moves own step ∧
      (telegramLive setup).pending (own ++ [step]) = cfg) :
    ConfigMoves setup own step ∧ ConfigStage setup part token cfg (own ++ [step]) :=
  ⟨⟨hm.1, hg.1, ht.1⟩, ⟨hm.2, hg.2, ht.2⟩⟩

/-- A step that changes nothing of all this. -/
theorem stage_quiet (h : ConfigStage setup part token cfg own)
    (knows : telegramMutex.Knows Resting own step.before)
    (hpart : telegramMutex.part step.after = telegramMutex.part step.before)
    (hlocked : telegramMutex.locked step.after = telegramMutex.locked step.before)
    (hgithub : step.after.github = step.before.github)
    (htoken : step.after.clientToken = step.before.clientToken)
    (htelegram : step.after.telegram = step.before.telegram) (hemit : step.emitted = []) :
    ConfigMoves setup own step ∧ ConfigStage setup part token cfg (own ++ [step]) := by
  obtain ⟨rfl, rfl, rfl⟩ := h
  have hnotifier : step.after.notifier = step.before.notifier := congrArg (fun p => p.2.2) hpart
  refine stage_step (Mutex.moves_keeps knows hpart hlocked) ?_ ?_
  · exact LiveCopy.moves_keeps (congrArg (fun row => row.getD []) hgithub) htoken
      (by simp [hemit])
  · exact LiveCopy.moves_keeps (congrArg (fun row => row.getD .zero) htelegram) hnotifier
      (by simp [hemit])

/-- What is to apply after a statement that chooses, and leaves the old choice where it fails. -/
def pendingAfter {α τ : Type} (old : Option τ) (chosen : α → τ) : Except String α → Option τ
  | .ok value => some (chosen value)
  | .error _ => old

/-- A statement: it fails and changes nothing, or does what it does. -/
theorem under_statement {α : Type} {other : String → String} {value : LiveWorld → α}
    {after : LiveWorld → LiveWorld} {events : LiveWorld → List ConfigEvent}
    {Q : List ConfigStep → Except String α → Prop} (h : ConfigStage setup part token cfg own)
    (hfails : ∀ text own', ConfigStage setup part token cfg own' → Q own' (.error text))
    (hdoes : ∀ w, telegramMutex.Knows Resting own w →
      ConfigMoves setup own ⟨w, events w, after w⟩ ∧
        Q (own ++ [⟨w, events w, after w⟩]) (.ok (value w))) :
    ConfigUnder setup own (Prog.atomic fun w k =>
      match k.fault with
      | some text => (.error (other text), w, [])
      | none => (.ok (value w), after w, events w)) Q := by
  apply Prog.under_atomic
  intro w k knows _
  cases k.fault with
  | some text =>
    refine And.imp_right (hfails _ _) ?_
    exact stage_quiet h knows rfl rfl rfl rfl rfl rfl
  | none => exact hdoes w knows

theorem under_getGitHub (h : ConfigStage setup part token cfg own) :
    ConfigUnder setup own (getGitHub fun _ => []) fun own' _ =>
      ConfigStage setup part token cfg own' :=
  under_statement h (fun _ _ h' => h') fun _ knows => stage_quiet h knows rfl rfl rfl rfl rfl rfl

theorem under_getTelegram (h : ConfigStage setup part token cfg own) :
    ConfigUnder setup own (getTelegram fun _ => []) fun own' _ =>
      ConfigStage setup part token cfg own' :=
  under_statement h (fun _ _ h' => h') fun _ knows => stage_quiet h knows rfl rfl rfl rfl rfl rfl

/-- A step that saves the token, or reads it back. -/
theorem stage_chooseGitHub {new : List UInt8} (h : ConfigStage setup part token cfg own)
    (knows : telegramMutex.Knows Resting own step.before)
    (hafter : step.after = { step.before with github := step.after.github })
    (hstored : step.after.storedToken = new) (hemit : step.emitted = [.githubChosen new]) :
    ConfigMoves setup own step ∧ ConfigStage setup part (some new) cfg (own ++ [step]) := by
  obtain ⟨rfl, rfl, rfl⟩ := h
  have hpart : telegramMutex.part step.after = telegramMutex.part step.before := by rw [hafter]; rfl
  have hlocked : step.after.telegramLocked = step.before.telegramLocked := by rw [hafter]
  refine stage_step (Mutex.moves_keeps knows hpart hlocked) ?_ ?_
  · rw [← hstored] at hemit ⊢
    exact LiveCopy.moves_chooses hemit rfl rfl (by rw [hafter]; rfl)
  · refine LiveCopy.moves_keeps (by rw [hafter]; rfl) (by rw [hafter]; rfl) ?_
    simp [hemit, telegramLive]

/-- A step that saves the row, or reads it back. -/
theorem stage_chooseTelegram {new : TelegramConfig} (h : ConfigStage setup part token cfg own)
    (knows : telegramMutex.Knows Resting own step.before)
    (hafter : step.after = { step.before with telegram := step.after.telegram })
    (hstored : step.after.storedTelegram = new) (hemit : step.emitted = [.telegramChosen new]) :
    ConfigMoves setup own step ∧ ConfigStage setup part token (some new) (own ++ [step]) := by
  obtain ⟨rfl, rfl, rfl⟩ := h
  have hpart : telegramMutex.part step.after = telegramMutex.part step.before := by rw [hafter]; rfl
  have hlocked : step.after.telegramLocked = step.before.telegramLocked := by rw [hafter]
  refine stage_step (Mutex.moves_keeps knows hpart hlocked) ?_ ?_
  · refine LiveCopy.moves_keeps (by rw [hafter]; rfl) (by rw [hafter]; rfl) ?_
    simp [hemit, githubLive]
  · rw [← hstored] at hemit ⊢
    exact LiveCopy.moves_chooses hemit rfl rfl (by rw [hafter]; rfl)

theorem under_readBackGitHub (h : ConfigStage setup part token cfg own) :
    ConfigUnder setup own (getGitHub fun stored => [.githubChosen stored]) fun own' value =>
      ConfigStage setup part (pendingAfter token id value) cfg own' :=
  under_statement h (fun _ _ h' => h') fun _ knows => stage_chooseGitHub h knows rfl rfl rfl

theorem under_readBackTelegram (h : ConfigStage setup part token cfg own) :
    ConfigUnder setup own (getTelegram fun stored => [.telegramChosen stored]) fun own' value =>
      ConfigStage setup part token (pendingAfter cfg id value) own' :=
  under_statement h (fun _ _ h' => h') fun _ knows => stage_chooseTelegram h knows rfl rfl rfl

theorem under_saveGitHub {new : List UInt8} (h : ConfigStage setup part token cfg own) :
    ConfigUnder setup own (saveGitHub new) fun own' value =>
      ConfigStage setup part (pendingAfter token (fun _ => new) value) cfg own' :=
  under_statement h (fun _ _ h' => h') fun _ knows => stage_chooseGitHub h knows rfl rfl rfl

theorem under_saveTelegram {new : TelegramConfig} (h : ConfigStage setup part token cfg own) :
    ConfigUnder setup own (saveTelegram new) fun own' value =>
      ConfigStage setup part token (pendingAfter cfg (fun _ => new) value) own' :=
  under_statement h (fun _ _ h' => h') fun _ knows => stage_chooseTelegram h knows rfl rfl rfl

theorem under_applyGitHub {new : List UInt8} (h : ConfigStage setup part (some new) cfg own) :
    ConfigUnder setup own (applyGitHub setup new) fun own' _ =>
      ConfigStage setup part none cfg own' := by
  unfold applyGitHub
  apply Prog.under_bind (P := fun own' _ => ConfigStage setup part (some new) cfg own')
  · apply Prog.under_await
    · exact fun _ _ hfree => hfree.elim
    · exact fun w k knows _ _ => stage_quiet h knows rfl rfl rfl rfl rfl rfl
  · intro own₁ _ h₁
    apply Prog.under_bind (P := fun own' _ => ConfigStage setup part none cfg own')
    · apply Prog.under_atomic
      intro w k knows _
      obtain ⟨rfl, hpending, rfl⟩ := h₁
      refine stage_step (Mutex.moves_keeps knows rfl rfl) ?_ ?_
      · exact LiveCopy.moves_applies hpending rfl rfl rfl rfl rfl
      · exact LiveCopy.moves_keeps rfl rfl (by simp [telegramLive])
    · intro own₂ _ h₂
      apply Prog.under_atomic
      exact fun w k knows _ => stage_quiet h₂ knows rfl rfl rfl rfl rfl rfl

theorem under_lockTelegram (h : ConfigStage setup none token cfg own) :
    ConfigUnder setup own lockTelegram fun own' _ =>
      ∃ p, Resting p ∧ ConfigStage setup (some p) token cfg own' := by
  apply Prog.under_await
  · exact fun _ _ hfree => hfree.elim
  · intro w k knows _ hready
    have hopen : w.telegramLocked = false := by simpa using hready
    obtain ⟨-, rfl, rfl⟩ := h
    refine And.imp_right (fun hstage => ⟨telegramMutex.part w, knows.free hopen, hstage⟩) ?_
    exact stage_step (Mutex.moves_locks hopen rfl rfl) (LiveCopy.moves_keeps rfl rfl (by simp))
      (LiveCopy.moves_keeps rfl rfl (by simp))

theorem under_unlockTelegram {p : TelegramPart} (hp : Resting p)
    (h : ConfigStage setup (some p) token cfg own) :
    ConfigUnder setup own unlockTelegram fun own' _ => ConfigStage setup none token cfg own' := by
  apply Prog.under_atomic
  intro w k knows _
  obtain ⟨hinside, rfl, rfl⟩ := h
  exact stage_step (Mutex.moves_unlocks knows hinside hp rfl rfl)
    (LiveCopy.moves_keeps rfl rfl (by simp)) (LiveCopy.moves_keeps rfl rfl (by simp))

/-- A step under the mutex that changes no more than the managers. -/
theorem stage_works {p : TelegramPart} (h : ConfigStage setup (some p) token cfg own)
    (hlocked : telegramMutex.locked step.after = telegramMutex.locked step.before)
    (hone : step.after.running.length ≤ 1) (hgithub : step.after.github = step.before.github)
    (htoken : step.after.clientToken = step.before.clientToken)
    (htelegram : step.after.telegram = step.before.telegram)
    (hnotifier : step.after.notifier = step.before.notifier) (hemit : step.emitted = []) :
    ConfigMoves setup own step ∧
      ConfigStage setup (some (telegramMutex.part step.after)) token cfg (own ++ [step]) := by
  obtain ⟨hinside, rfl, rfl⟩ := h
  refine stage_step (Mutex.moves_works hinside hlocked hone) ?_ ?_
  · exact LiveCopy.moves_keeps (congrArg (fun row => row.getD []) hgithub) htoken
      (by simp [hemit])
  · exact LiveCopy.moves_keeps (congrArg (fun row => row.getD .zero) htelegram) hnotifier
      (by simp [hemit])

/-- After a stop. -/
def NoManager (p : TelegramPart) : Prop := p.1 = none ∧ p.2.1 = []

theorem under_stopManager {p : TelegramPart} (hp : Resting p)
    (h : ConfigStage setup (some p) token cfg own) :
    ConfigUnder setup own stopManager fun own' _ =>
      ∃ q, NoManager q ∧ ConfigStage setup (some q) token cfg own' := by
  apply Prog.under_atomic
  intro w k knows _
  have hpart := knows.part p h.mutex
  have hrunning : w.running = w.manager.toList := by
    have hrest := hp.1
    rw [← hpart] at hrest
    exact hrest
  cases hmanager : w.manager with
  | none =>
    simp only [hmanager] at hrunning ⊢
    refine And.imp_right (fun hstage => ⟨telegramMutex.part w, ⟨hmanager, hrunning⟩, hstage⟩) ?_
    exact stage_works h rfl (by simp [hrunning]) rfl rfl rfl rfl rfl
  | some m =>
    simp only [hmanager] at hrunning ⊢
    have herase : w.running.erase m = [] := by simp [hrunning]
    refine And.imp_right (fun hstage => ⟨(none, w.running.erase m, w.notifier), ⟨rfl, herase⟩,
      hstage⟩) ?_
    exact stage_works h rfl (by simp [herase]) rfl rfl rfl rfl rfl

theorem under_startManager {p : TelegramPart} {m : ManagerConfig} (hp : NoManager p)
    (h : ConfigStage setup (some p) token cfg own) :
    ConfigUnder setup own (startManager m) fun own' _ =>
      ∃ q : TelegramPart, q.1 = some m ∧ q.2.1 = [m] ∧
        ConfigStage setup (some q) token cfg own' := by
  apply Prog.under_atomic
  intro w k knows _
  have hpart := knows.part p h.mutex
  have hrunning : w.running = [] := by
    have hnone := hp.2
    rw [← hpart] at hnone
    exact hnone
  refine And.imp_right (fun hstage => ⟨(some m, m :: w.running, w.notifier), rfl,
    by simp [hrunning], hstage⟩) ?_
  exact stage_works h rfl (by simp [hrunning]) rfl rfl rfl rfl rfl

/-- The notifier becomes the manager that runs, as the row asks for that is to be applied. -/
theorem under_setNotifier {p : TelegramPart} {new : TelegramConfig}
    (hrunning : p.2.1 = p.1.toList) (hmanager : p.1 = notifierFor setup new)
    (h : ConfigStage setup (some p) token (some new) own) :
    ConfigUnder setup own (setNotifier (notifierFor setup new)) fun own' _ =>
      ∃ q, Resting q ∧ ConfigStage setup (some q) token none own' := by
  apply Prog.under_atomic
  intro w k knows _
  obtain ⟨hinside, rfl, hpending⟩ := h
  have hpart := knows.part p hinside
  have hw : w.running = w.manager.toList ∧ w.manager = notifierFor setup new := by
    rw [← hpart] at hrunning hmanager
    exact ⟨hrunning, hmanager⟩
  have hone : w.running.length ≤ 1 := by
    rw [hw.1]
    cases w.manager <;> simp
  refine And.imp_right (fun hstage => ⟨(w.manager, w.running, notifierFor setup new),
    ⟨hw.1, hw.2.symm⟩, hstage⟩) ?_
  refine stage_step (Mutex.moves_works hinside rfl hone) ?_ ?_
  · exact LiveCopy.moves_keeps rfl rfl (by simp [githubLive])
  · exact LiveCopy.moves_applies hpending rfl rfl rfl rfl rfl

theorem under_applyTelegram {new : TelegramConfig}
    (h : ConfigStage setup none token (some new) own) :
    ConfigUnder setup own (applyTelegram setup new) fun own' _ =>
      ConfigStage setup none token none own' := by
  unfold applyTelegram
  apply Prog.under_bind (under_lockTelegram h)
  intro own₁ _ ⟨p₁, hp₁, h₁⟩
  apply Prog.under_bind (under_stopManager hp₁ h₁)
  intro own₂ _ ⟨p₂, hp₂, h₂⟩
  cases hwanted : notifierFor setup new with
  | none =>
    have hset := under_setNotifier (by rw [hp₂.1, hp₂.2]; rfl) (hp₂.1.trans hwanted.symm) h₂
    rw [hwanted] at hset
    apply Prog.under_bind hset
    intro own₃ _ ⟨p₃, hp₃, h₃⟩
    exact under_unlockTelegram hp₃ h₃
  | some m =>
    apply Prog.under_bind (under_startManager hp₂ h₂)
    intro own₃ _ ⟨p₃, hmanager, hrunning, h₃⟩
    have hset := under_setNotifier (by rw [hmanager, hrunning]; rfl)
      (hmanager.trans hwanted.symm) h₃
    rw [hwanted] at hset
    apply Prog.under_bind hset
    intro own₄ _ ⟨p₄, hp₄, h₄⟩
    exact under_unlockTelegram hp₄ h₄

end Primitives

section Handlers

variable {setup : ConfigSetup} {own : List ConfigStep}

/-- A request that holds nothing and has nothing to apply. -/
abbrev Idle (setup : ConfigSetup) (own : List ConfigStep) : Prop :=
  ConfigStage setup none none none own

theorem under_saveTelegramConfig {req : AdminRequest TelegramConfigRequest}
    (h : Idle setup own) :
    ConfigUnder setup own (saveTelegramConfig setup req) fun own' _ => Idle setup own' := by
  unfold saveTelegramConfig
  split
  next => exact h
  next =>
    split
    next => exact h
    next body _ =>
      apply Prog.under_bind (under_getTelegram h)
      intro own₁ current h₁
      cases current with
      | error e => exact h₁
      | ok current =>
        dsimp only
        split
        next => exact h₁
        next =>
          apply Prog.under_bind (under_saveTelegram h₁)
          intro own₂ saved h₂
          cases saved with
          | error e => exact h₂
          | ok _ => exact Prog.under_bind (under_applyTelegram h₂) fun own₃ _ h₃ => h₃

theorem under_saveGitHubConfig {req : AdminRequest GitHubConfigRequest} (h : Idle setup own) :
    ConfigUnder setup own (saveGitHubConfig setup req) fun own' _ => Idle setup own' := by
  unfold saveGitHubConfig
  split
  next => exact h
  next =>
    split
    next => exact h
    next body _ =>
      apply Prog.under_bind (under_getGitHub h)
      intro own₁ current h₁
      cases current with
      | error e => exact h₁
      | ok current =>
        apply Prog.under_bind (under_saveGitHub h₁)
        intro own₂ saved h₂
        cases saved with
        | error e => exact h₂
        | ok _ => exact Prog.under_bind (under_applyGitHub h₂) fun own₃ _ h₃ => h₃

theorem under_reloadTelegram (h : Idle setup own) :
    ConfigUnder setup own (reloadTelegram setup) fun own' _ => Idle setup own' := by
  unfold reloadTelegram
  apply Prog.under_bind (under_readBackTelegram h)
  intro own₁ read h₁
  cases read with
  | error e => exact h₁
  | ok cfg => exact Prog.under_bind (under_applyTelegram h₁) fun own₂ _ h₂ => h₂

theorem under_reloadGitHub (h : Idle setup own) :
    ConfigUnder setup own (reloadGitHub setup) fun own' _ => Idle setup own' := by
  unfold reloadGitHub
  apply Prog.under_bind (under_readBackGitHub h)
  intro own₁ read h₁
  cases read with
  | error e => exact h₁
  | ok token => exact Prog.under_bind (under_applyGitHub h₁) fun own₂ _ h₂ => h₂

theorem under_getTelegramConfig (h : Idle setup own) :
    ConfigUnder setup own getTelegramConfig fun own' _ => Idle setup own' := by
  unfold getTelegramConfig
  apply Prog.under_bind (under_getTelegram h)
  intro own₁ read h₁
  cases read with
  | error e => exact h₁
  | ok cfg => exact h₁

theorem under_getGitHubConfig (h : Idle setup own) :
    ConfigUnder setup own (getGitHubConfig setup) fun own' _ => Idle setup own' := by
  unfold getGitHubConfig
  apply Prog.under_bind (under_getGitHub h)
  intro own₁ read h₁
  cases read with
  | error e => exact h₁
  | ok token => exact h₁

theorem under_config (setup : ConfigSetup) (call : ConfigCall) :
    ConfigUnder setup [] (setup.program call) fun own _ => Idle setup own := by
  have hidle : Idle setup [] := ⟨rfl, rfl, rfl⟩
  cases call with
  | getTelegramConfig => exact under_getTelegramConfig hidle
  | saveTelegramConfig req => exact under_saveTelegramConfig hidle
  | reloadTelegram => exact under_reloadTelegram hidle
  | getGitHubConfig => exact under_getGitHubConfig hidle
  | saveGitHubConfig req => exact under_saveGitHubConfig hidle
  | reloadGitHub => exact under_reloadGitHub hidle

end Handlers

end AutoDeploy
