import AutoDeploy.LiveConfig

namespace AutoDeploy

open Interleaving

/-- The live client and the notifier are what the rows ask for, and no other manager runs. -/
structure LiveWorld.InStep (setup : ConfigSetup) (w : LiveWorld) : Prop where
  github : w.clientToken = effectiveToken setup w.storedToken
  telegram : w.notifier = notifierFor setup w.storedTelegram
  running : w.running = w.notifier.toList

instance (setup : ConfigSetup) (w : LiveWorld) : Decidable (w.InStep setup) :=
  decidable_of_iff (w.clientToken = effectiveToken setup w.storedToken ∧
    w.notifier = notifierFor setup w.storedTelegram ∧ w.running = w.notifier.toList)
    ⟨fun h => ⟨h.1, h.2.1, h.2.2⟩, fun h => ⟨h.github, h.telegram, h.running⟩⟩

def AllReturned (cfg : ConfigRun) : Prop := ∀ thread ∈ cfg.threads, thread.rest = none

instance (cfg : ConfigRun) : Decidable (AllReturned cfg) :=
  decidable_of_iff (∀ thread ∈ cfg.threads, thread.rest.isNone = true)
    (forall₂_congr fun _ _ => Option.isNone_iff_eq_none)

/-- What holds in every run of the config requests. -/
structure ConfigInvariant (setup : ConfigSetup) (s₀ s : LiveWorld) (history : ConfigHistory) :
    Prop where
  guarded : telegramMutex.Guarded Resting AtMostOne s history
  one : ∀ w ∈ visited s₀ history, w.running.length ≤ 1
  github : (githubLive setup).Follows s₀ s history
  telegram : (telegramLive setup).Follows s₀ s history
  explained : Explained (fun _ => ConfigMoves setup) (fun _ own _ => Idle setup own) history

section Runs

variable {setup : ConfigSetup} {github : Option (List UInt8)} {telegram : Option TelegramConfig}
  {cfg : ConfigRun}

theorem config_invariant
    (reach : Reaches setup.program (.booted setup github telegram) cfg) :
    ConfigInvariant setup (.booted setup github telegram) cfg.shared cfg.history := by
  refine reaches_under
    (J := fun s history => ConfigInvariant setup (.booted setup github telegram) s history)
    (fun call => under_config setup call) ?_ ?_ ?_ ?_ ?_ reach
  · refine ⟨?_, ?_, LiveCopy.follows_start, LiveCopy.follows_start, ?_⟩
    · exact Mutex.guarded_open rfl (fun _ => rfl) ⟨rfl, rfl⟩ (Nat.zero_le 1)
    · intro w hw
      rw [List.mem_singleton.mp hw]
      exact Nat.zero_le 1
    · intro pre record post he
      simp at he
  · exact fun s history t h => h.guarded.knows t
  · intro s history t call h
    have hown : ∀ u, ownSteps u (history ++ [.called t call]) = ownSteps u history :=
      fun u => ownSteps_called
    exact ⟨h.guarded.record hown, by simpa using h.one, h.github.record hown steps_called,
      h.telegram.record hown steps_called, explained_concat h.explained trivial⟩
  · intro history t call step h hmoves
    have hguarded : telegramMutex.Guarded Resting AtMostOne step.after
        (history ++ [.acted t call step]) := h.guarded.acted hmoves.mutex
    refine ⟨hguarded, ?_, h.github.acted hmoves.github, h.telegram.acted hmoves.telegram,
      explained_concat h.explained hmoves⟩
    intro w hw
    rw [visited_acted, List.mem_append, List.mem_singleton] at hw
    obtain hold | rfl := hw
    · exact h.one w hold
    · exact hguarded.always
  · intro s history t call value h hidle
    have hown : ∀ u, ownSteps u (history ++ [.returned t call value]) = ownSteps u history :=
      fun u => ownSteps_returned
    exact ⟨h.guarded.record hown, by simpa using h.one, h.github.record hown steps_returned,
      h.telegram.record hown steps_returned, explained_concat h.explained hidle⟩

/-- Once all have returned nobody holds the mutex, and nothing is left to apply. -/
theorem all_idle (reach : Reaches setup.program (.booted setup github telegram) cfg)
    (hall : AllReturned cfg) (t : ℕ) : Idle setup (ownSteps t cfg.history) := by
  refine all_returned reach hall ⟨rfl, rfl, rfl⟩ ?_ t
  intro u call value hm
  obtain ⟨pre, post, hsplit⟩ := List.append_of_mem hm
  rw [ownSteps_final reach hsplit]
  exact (config_invariant reach).explained pre _ post hsplit

theorem returned_resting (reach : Reaches setup.program (.booted setup github telegram) cfg)
    (hall : AllReturned cfg) : cfg.shared.running = cfg.shared.notifier.toList := by
  have hguarded := (config_invariant reach).guarded
  have hopen : cfg.shared.telegramLocked = false := by
    by_contra hlocked
    have hheld : cfg.shared.telegramLocked = true := by simpa using hlocked
    obtain ⟨t, p, hp⟩ := hguarded.held hheld
    rw [(all_idle reach hall t).mutex] at hp
    cases hp
  obtain ⟨hrunning, hnotifier⟩ := (hguarded.knows 0).free hopen
  change cfg.shared.running = cfg.shared.manager.toList at hrunning
  change cfg.shared.notifier = cfg.shared.manager at hnotifier
  rw [hrunning, hnotifier]

theorem moves_github (reach : Reaches setup.program (.booted setup github telegram) cfg) :
    ∀ pre t call step post, cfg.history = pre ++ .acted t call step :: post →
      (githubLive setup).Moves (ownSteps t pre) step :=
  fun pre _ _ _ post h => ((config_invariant reach).explained pre _ post h).github

theorem moves_telegram (reach : Reaches setup.program (.booted setup github telegram) cfg) :
    ∀ pre t call step post, cfg.history = pre ++ .acted t call step :: post →
      (telegramLive setup).Moves (ownSteps t pre) step :=
  fun pre _ _ _ post h => ((config_invariant reach).explained pre _ post h).telegram

end Runs

/-- What holds of one of the two configs in a run. -/
structure Agrees {τ ω : Type} (v : LiveCopy LiveWorld ConfigEvent τ ω) (s₀ : LiveWorld)
    (cfg : ConfigRun) : Prop where
  /-- Once all have returned, if nothing was applied out of order, and if the start was right or
  some request has got through to the row, as the `Reload` of the startup does. -/
  inOrder : AllReturned cfg → v.InOrder cfg.history → (v.Matches s₀ ∨ v.Chosen cfg.history) →
    v.Matches cfg.shared
  /-- Where something is applied out of order. -/
  drifts : ∀ pre t call step post, cfg.history = pre ++ .acted t call step :: post →
    (∃ e ∈ step.emitted, v.applies e = true) → ¬ v.Due step.before pre →
    ¬ v.Matches step.after ∧ ¬ v.Due step.after (pre ++ [.acted t call step])

/-- What holds of a run of config requests from a start of the process. -/
structure ConfigAgrees (setup : ConfigSetup) (s₀ : LiveWorld) (cfg : ConfigRun) : Prop where
  one : ∀ w ∈ visited s₀ cfg.history, w.running.length ≤ 1
  running : AllReturned cfg → cfg.shared.running = cfg.shared.notifier.toList
  github : Agrees (githubLive setup) s₀ cfg
  telegram : Agrees (telegramLive setup) s₀ cfg

theorem agrees_of {τ ω : Type} {v : LiveCopy LiveWorld ConfigEvent τ ω} {s₀ : LiveWorld}
    {cfg : ConfigRun} (hmoves : ∀ pre t call step post,
      cfg.history = pre ++ .acted t call step :: post → v.Moves (ownSteps t pre) step)
    (hfollows : v.Follows s₀ cfg.shared cfg.history)
    (hidle : AllReturned cfg → ∀ t, v.pending (ownSteps t cfg.history) = none) :
    Agrees v s₀ cfg where
  inOrder hall horder hbegun := by
    obtain hmatches | ⟨t, value, ht, -⟩ := hfollows horder hbegun
    · exact hmatches
    · rw [hidle hall t] at ht
      cases ht
  drifts pre t call step post hsplit := LiveCopy.drifts (hmoves pre t call step post hsplit)

/-- Where no request applies a value after the request that has overwritten it, what is live is
what is stored, once all have returned; and two managers never run at once. -/
theorem config_agrees {setup : ConfigSetup} {github : Option (List UInt8)}
    {telegram : Option TelegramConfig} {cfg : ConfigRun}
    (reach : Reaches setup.program (.booted setup github telegram) cfg) :
    ConfigAgrees setup (.booted setup github telegram) cfg where
  one := (config_invariant reach).one
  running := returned_resting reach
  github := agrees_of (moves_github reach) (config_invariant reach).github
    fun hall t => (all_idle reach hall t).github
  telegram := agrees_of (moves_telegram reach) (config_invariant reach).telegram
    fun hall t => (all_idle reach hall t).telegram

def tokenRequest (token : String) : ConfigCall :=
  .saveGitHubConfig ⟨"application/json", some ⟨token⟩⟩

/-- The startup's reloads, and then saves of both configs, one after the other. -/
def savesInTurn : List (Turn ConfigChoice ConfigCall) :=
  solo .reloadTelegram 0 6 ⟨none⟩ ++ solo .reloadGitHub 1 5 ⟨none⟩ ++
    solo (tokenRequest "old") 2 6 ⟨none⟩ ++ solo (tokenRequest "new") 3 6 ⟨none⟩ ++
    solo (.saveTelegramConfig ⟨"application/json", some ⟨1, "h", "bot", "@c", some true⟩⟩) 4 8
      ⟨none⟩

theorem config_agrees_savesInTurn :
    (play (ConfigSetup.program ⟨[101], []⟩) (.booted ⟨[101], []⟩ none none)
      savesInTurn).shared.github = some [110, 101, 119] ∧
    (play (ConfigSetup.program ⟨[101], []⟩) (.booted ⟨[101], []⟩ none none)
      savesInTurn).shared.notifier.isSome = true ∧
    (play (ConfigSetup.program ⟨[101], []⟩) (.booted ⟨[101], []⟩ none none)
      savesInTurn).shared.InStep ⟨[101], []⟩ := by
  have reach := reaches_play (ConfigSetup.program ⟨[101], []⟩) (.booted ⟨[101], []⟩ none none)
    savesInTurn
  have hagrees := config_agrees reach
  have hall : AllReturned (play (ConfigSetup.program ⟨[101], []⟩)
      (.booted ⟨[101], []⟩ none none) savesInTurn) := by decide +kernel
  have hgithub := LiveCopy.inOrder_current (moves_github reach) (by decide +kernel)
  have htelegram := LiveCopy.inOrder_current (moves_telegram reach) (by decide +kernel)
  refine ⟨by decide +kernel, by decide +kernel, ?_, ?_, hagrees.running hall⟩
  · exact hagrees.github.inOrder hall hgithub (Or.inl rfl)
  · exact hagrees.telegram.inOrder hall htelegram (Or.inl rfl)

/-- One request saves, another saves and applies, and the first one applies. -/
def lateApply : List (Turn ConfigChoice ConfigCall) :=
  solo (tokenRequest "old") 0 2 ⟨none⟩ ++ solo (tokenRequest "new") 1 6 ⟨none⟩ ++
    List.replicate 4 (.run 0 ⟨none⟩)

theorem lateApply_drifts : ¬ ∀ (setup : ConfigSetup) (github : Option (List UInt8))
    (telegram : Option TelegramConfig) (cfg : ConfigRun),
    Reaches setup.program (.booted setup github telegram) cfg →
    (LiveWorld.booted setup github telegram).InStep setup → AllReturned cfg →
    cfg.shared.InStep setup := by
  intro h
  have reach := reaches_play (ConfigSetup.program ⟨[101], []⟩) (.booted ⟨[101], []⟩ none none)
    lateApply
  exact absurd (h _ _ _ _ reach (by decide) (by decide +kernel)) (by decide +kernel)

end AutoDeploy
