import AutoDeploy.InterleavingUnder

namespace Interleaving

variable {σ κ ε ρ γ τ : Type}

/-- What may happen while a thread works: its own actions take from outside what `C` allows, and
the actions of the other threads are as `O` says. -/
inductive Stretch (program : γ → Prog σ κ ε ρ) (t : ℕ) (C : σ → κ → Prop) (O : Step σ ε → Prop)
    (first : Config σ κ ε ρ γ) : Config σ κ ε ρ γ → Prop
  | start : Stretch program t C O first first
  | call {cfg : Config σ κ ε ρ γ} (call : γ) : Stretch program t C O first cfg →
      Stretch program t C O first (cfg.begin program call)
  | own {cfg : Config σ κ ε ρ γ} {call : γ} {ready : σ → κ → Bool}
      {effect : σ → κ → σ × List ε} {next : σ → κ → Prog σ κ ε ρ} (k : κ) :
      Stretch program t C O first cfg →
      cfg.threads[t]? = some ⟨call, some (.act ready effect next)⟩ → C cfg.shared k →
      ready cfg.shared k = true →
      Stretch program t C O first
        (cfg.perform t call (effect cfg.shared k) (next cfg.shared k))
  | other {cfg : Config σ κ ε ρ γ} {u : ℕ} {call : γ} {ready : σ → κ → Bool}
      {effect : σ → κ → σ × List ε} {next : σ → κ → Prog σ κ ε ρ} (k : κ) :
      Stretch program t C O first cfg → u ≠ t →
      cfg.threads[u]? = some ⟨call, some (.act ready effect next)⟩ → ready cfg.shared k = true →
      O ⟨cfg.shared, (effect cfg.shared k).2, (effect cfg.shared k).1⟩ →
      Stretch program t C O first
        (cfg.perform u call (effect cfg.shared k) (next cfg.shared k))
  | ret {cfg : Config σ κ ε ρ γ} {u : ℕ} {call : γ} {value : ρ} :
      Stretch program t C O first cfg → cfg.threads[u]? = some ⟨call, some (.ret value)⟩ →
      Stretch program t C O first (cfg.finish u call value)

/-- The shared state that the last of these steps has left. -/
def left (s : σ) (own : List (Step σ ε)) : σ := (own.getLast?.map Step.after).getD s

@[simp] theorem left_nil {s : σ} : left s ([] : List (Step σ ε)) = s := rfl

@[simp] theorem left_snoc {s : σ} {own : List (Step σ ε)} {step : Step σ ε} :
    left s (own ++ [step]) = step.after := by
  simp [left]

section Stretch

variable {program : γ → Prog σ κ ε ρ} {t : ℕ} {C : σ → κ → Prop} {O : Step σ ε → Prop}
  {first cfg : Config σ κ ε ρ γ} {s₀ : σ}

theorem Stretch.reaches (reach : Reaches program s₀ first)
    (h : Stretch program t C O first cfg) : Reaches program s₀ cfg := by
  induction h with
  | start => exact reach
  | call call _ ih => exact ih.next (.call _ call)
  | own k _ ht _ hready ih => exact ih.next (.act k ht hready)
  | other k _ _ hu hready _ ih => exact ih.next (.act k hu hready)
  | ret _ hu ih => exact ih.next (.ret hu)

/-- What the others keep is as the steps of the thread have left it. -/
theorem Stretch.left {f : σ → τ} (hO : ∀ step, O step → f step.after = f step.before)
    (hnone : ownSteps t first.history = []) (h : Stretch program t C O first cfg) :
    f cfg.shared = f (left first.shared (ownSteps t cfg.history)) := by
  induction h with
  | start => rw [hnone, left_nil]
  | call call _ ih => simpa [Config.begin] using ih
  | own k _ _ _ _ _ => simp [Config.perform]
  | other k _ hne _ _ ho ih =>
    simp only [Config.perform]
    rw [ownSteps_acted_ne hne, ← ih]
    exact hO _ ho
  | ret _ _ ih => simpa [Config.finish] using ih

/-- A step of the stretch is one from before it, one of the thread, or as `O` says. -/
theorem Stretch.acted {u : ℕ} {call : γ} {step : Step σ ε} (h : Stretch program t C O first cfg)
    (hm : .acted u call step ∈ cfg.history) :
    .acted u call step ∈ first.history ∨ step ∈ ownSteps t cfg.history ∨ O step := by
  induction h with
  | start => exact Or.inl hm
  | call other _ ih => simpa [Config.begin] using ih (by simpa [Config.begin] using hm)
  | own k _ _ _ _ ih =>
    simp only [Config.perform, ownSteps_acted_self, List.mem_append, List.mem_singleton] at hm ⊢
    rcases hm with hm | hlast
    · have := ih hm
      tauto
    · cases hlast
      exact Or.inr (Or.inl (Or.inr rfl))
  | other k _ hne _ _ ho ih =>
    simp only [Config.perform, List.mem_append, List.mem_singleton] at hm ⊢
    rw [ownSteps_acted_ne hne]
    rcases hm with hm | hlast
    · exact ih hm
    · cases hlast
      exact Or.inr (Or.inr ho)
  | ret _ _ ih => simpa [Config.finish] using ih (by simpa [Config.finish] using hm)

theorem Stretch.history (h : Stretch program t C O first cfg) : first.history <+: cfg.history := by
  induction h with
  | start => exact List.prefix_rfl
  | call _ _ ih => exact ih.trans (List.prefix_append _ _)
  | own _ _ _ _ _ ih => exact ih.trans (List.prefix_append _ _)
  | other _ _ _ _ _ _ ih => exact ih.trans (List.prefix_append _ _)
  | ret _ _ ih => exact ih.trans (List.prefix_append _ _)

variable {I F : List (Step σ ε) → σ → Prop} {R : List (Step σ ε) → Step σ ε → Prop}
  {Q : List (Step σ ε) → ρ → Prop}

/-- What is known of the thread in a stretch. -/
structure Underway (I F : List (Step σ ε) → σ → Prop) (C : σ → κ → Prop)
    (R : List (Step σ ε) → Step σ ε → Prop) (Q : List (Step σ ε) → ρ → Prop) (t : ℕ)
    (cfg : Config σ κ ε ρ γ) : Prop where
  rest : ∀ call rest, cfg.threads[t]? = some ⟨call, some rest⟩ →
    rest.Under I F C R Q (ownSteps t cfg.history)
  returned : ∀ call value, .returned t call value ∈ cfg.history → Q (ownSteps t cfg.history) value

/-- The other threads do not touch what is left to do. -/
theorem Underway.other {u : ℕ} {thread : Thread σ κ ε ρ γ}
    {record : Record σ ε ρ γ} {s : σ} (h : Underway I F C R Q t cfg) (hne : u ≠ t)
    (hrecord : record.thread = u) (hown : ownSteps t (cfg.history ++ [record]) =
      ownSteps t cfg.history) :
    Underway I F C R Q t ⟨s, cfg.threads.set u thread, cfg.history ++ [record]⟩ := by
  constructor
  · intro call rest ht
    rw [hown]
    dsimp only at ht
    rw [List.getElem?_set_ne hne] at ht
    exact h.rest call rest ht
  · intro call value hm
    rw [hown]
    rcases List.mem_append.mp hm with hm | hlast
    · exact h.returned call value hm
    · rw [← List.mem_singleton.mp hlast] at hrecord
      exact absurd hrecord.symm hne

/-- In a stretch the program of the thread goes on as it is under, and returns as it says. -/
theorem Stretch.underway (reach : Reaches program s₀ first)
    (hI : ∀ mid, Stretch program t C O first mid → I (ownSteps t mid.history) mid.shared)
    (hlt : t < first.threads.length) (start : Underway I F C R Q t first)
    (h : Stretch program t C O first cfg) : Underway I F C R Q t cfg ∧ t < cfg.threads.length := by
  induction h with
  | start => exact ⟨start, hlt⟩
  | @call cfg call _ ih =>
    obtain ⟨hunderway, ht⟩ := ih
    refine ⟨⟨?_, ?_⟩, ?_⟩
    · intro other rest hrest
      simp only [Config.begin, ownSteps_called] at hrest ⊢
      rw [List.getElem?_append_left ht] at hrest
      exact hunderway.rest other rest hrest
    · intro other value hm
      simp only [Config.begin, ownSteps_called] at hm ⊢
      exact hunderway.returned other value (by simpa using hm)
    · simp only [Config.begin, List.length_append]
      omega
  | @own cfg call ready effect next k stretch ht hk hready ih =>
    obtain ⟨hunderway, hlen⟩ := ih
    have hnext := ((hunderway.rest _ _ ht _ k (hI _ stretch) hk).2 hready).2
    refine ⟨⟨?_, ?_⟩, by simpa [Config.perform] using hlen⟩
    · intro other rest hrest
      simp only [Config.perform, ownSteps_acted_self] at hrest ⊢
      rw [List.getElem?_set_self hlen] at hrest
      cases hrest
      exact hnext
    · intro other value hm
      have hold : .returned t other value ∈ cfg.history := by simpa [Config.perform] using hm
      rw [returned_done (stretch.reaches reach) hold] at ht
      cases ht
  | @other cfg u call ready effect next k _ hne hu hready _ ih =>
    obtain ⟨hunderway, hlen⟩ := ih
    exact ⟨hunderway.other hne rfl (ownSteps_acted_ne hne),
      by simpa [Config.perform] using hlen⟩
  | @ret cfg u call value _ hu ih =>
    obtain ⟨hunderway, hlen⟩ := ih
    refine ⟨?_, by simpa [Config.finish] using hlen⟩
    by_cases hne : u = t
    · subst hne
      have hQ : Q (ownSteps u cfg.history) value := hunderway.rest _ _ hu
      constructor
      · intro other rest hrest
        simp only [Config.finish] at hrest
        rw [List.getElem?_set_self hlen] at hrest
        cases hrest
      · intro other result hm
        simp only [Config.finish, ownSteps_returned, List.mem_append, List.mem_singleton] at hm ⊢
        rcases hm with hm | hlast
        · exact hunderway.returned other result hm
        · cases hlast
          exact hQ
    · exact hunderway.other hne rfl ownSteps_returned

/-- Where the thread does not have to wait, there is a way for it to return. -/
theorem Stretch.returns
    (hI : ∀ mid, Stretch program t C O first mid → I (ownSteps t mid.history) mid.shared)
    (hC : ∀ s, ∃ k, C s k)
    (hF : ∀ own step, F own step.before → F (own ++ [step]) step.after) {call : γ}
    {rest : Prog σ κ ε ρ} (ht : cfg.threads[t]? = some ⟨call, some rest⟩)
    (hrest : rest.Under I F C R Q (ownSteps t cfg.history))
    (hfree : F (ownSteps t cfg.history) cfg.shared) (h : Stretch program t C O first cfg) :
    ∃ mid value, Stretch program t C O first mid ∧ .returned t call value ∈ mid.history := by
  induction rest generalizing cfg with
  | ret value => exact ⟨_, value, h.ret ht, by simp [Config.finish]⟩
  | act ready effect next ih =>
    obtain ⟨k, hk⟩ := hC cfg.shared
    obtain ⟨hwait, hnext⟩ := hrest cfg.shared k (hI cfg h) hk
    have hready := hwait hfree
    have hlen := (List.getElem?_eq_some_iff.mp ht).1
    refine ih cfg.shared k (List.getElem?_set_self hlen) ?_ ?_ (h.own k ht hk hready)
    · rw [Config.perform, ownSteps_acted_self]
      exact (hnext hready).2
    · rw [Config.perform, ownSteps_acted_self]
      exact hF _ ⟨cfg.shared, _, _⟩ hfree

end Stretch

end Interleaving
