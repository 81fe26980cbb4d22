import AutoDeploy.InterleavingTrace

namespace Interleaving

variable {σ κ ε α β ρ γ : Type}

namespace Prog

/-- A program among others. Where its own steps and the shared state are as `I` says, and the
outside gives what `C` allows, every action satisfies `R`, the program returns as `Q` says, and it
does not wait where `F` holds. -/
def Under (I F : List (Step σ ε) → σ → Prop) (C : σ → κ → Prop)
    (R : List (Step σ ε) → Step σ ε → Prop) (Q : List (Step σ ε) → α → Prop) :
    List (Step σ ε) → Prog σ κ ε α → Prop
  | own, ret value => Q own value
  | own, act ready effect next => ∀ s k, I own s → C s k →
      (F own s → ready s k = true) ∧ (ready s k = true →
        R own ⟨s, (effect s k).2, (effect s k).1⟩ ∧
          (next s k).Under I F C R Q (own ++ [⟨s, (effect s k).2, (effect s k).1⟩]))

variable {I F : List (Step σ ε) → σ → Prop} {C : σ → κ → Prop}
  {R : List (Step σ ε) → Step σ ε → Prop} {Q : List (Step σ ε) → α → Prop}
  {own : List (Step σ ε)}

theorem under_bind {P : List (Step σ ε) → β → Prop} {first : Prog σ κ ε β}
    {rest : β → Prog σ κ ε α} (hf : first.Under I F C R P own)
    (hr : ∀ own value, P own value → (rest value).Under I F C R Q own) :
    (first >>= rest).Under I F C R Q own := by
  change (first.bind rest).Under I F C R Q own
  induction first generalizing own with
  | ret value => exact hr own value hf
  | act ready effect next ih =>
    intro s k hs hk
    obtain ⟨hfree, hnext⟩ := hf s k hs hk
    exact ⟨hfree, fun hready => ⟨(hnext hready).1, ih s k (hnext hready).2⟩⟩

theorem under_map {f : β → α} {p : Prog σ κ ε β}
    (h : p.Under I F C R (fun own value => Q own (f value)) own) :
    (f <$> p).Under I F C R Q own :=
  under_bind h fun _ _ hQ => hQ

theorem under_atomic {run : σ → κ → α × σ × List ε}
    (h : ∀ s k, I own s → C s k → R own ⟨s, (run s k).2.2, (run s k).2.1⟩ ∧
      Q (own ++ [⟨s, (run s k).2.2, (run s k).2.1⟩]) (run s k).1) :
    (atomic run).Under I F C R Q own :=
  fun s k hs hk => ⟨fun _ => rfl, fun _ => h s k hs hk⟩

theorem under_await {ready : σ → Bool} {run : σ → κ → α × σ × List ε}
    (hfree : ∀ s, I own s → F own s → ready s = true)
    (h : ∀ s k, I own s → C s k → ready s = true → R own ⟨s, (run s k).2.2, (run s k).2.1⟩ ∧
      Q (own ++ [⟨s, (run s k).2.2, (run s k).2.1⟩]) (run s k).1) :
    (await ready run : Prog σ κ ε α).Under I F C R Q own :=
  fun s k hs hk => ⟨hfree s hs, h s k hs hk⟩

theorem Under.mono {Q' : List (Step σ ε) → α → Prop} {p : Prog σ κ ε α}
    (h : p.Under I F C R Q own) (hQ : ∀ own value, Q own value → Q' own value) :
    p.Under I F C R Q' own := by
  induction p generalizing own with
  | ret value => exact hQ own value h
  | act ready effect next ih =>
    intro s k hs hk
    obtain ⟨hfree, hnext⟩ := h s k hs hk
    exact ⟨hfree, fun hready => ⟨(hnext hready).1, ih s k (hnext hready).2⟩⟩

end Prog

/-- Each of these steps started from a state that is as `I` says of the steps before it. -/
def Started (I : List (Step σ ε) → σ → Prop) (own : List (Step σ ε)) : Prop :=
  ∀ front step back, own = front ++ step :: back → I front step.before

section Started

variable {I : List (Step σ ε) → σ → Prop} {own : List (Step σ ε)} {step : Step σ ε}

theorem started_nil : Started I ([] : List (Step σ ε)) := by
  intro front step back h
  simp at h

theorem started_snoc : Started I (own ++ [step]) ↔ Started I own ∧ I own step.before := by
  constructor
  · intro h
    refine ⟨?_, h own step [] rfl⟩
    rintro front other back rfl
    exact h front other (back ++ [step]) (by simp)
  · rintro ⟨hown, hlast⟩ front other back h
    rcases List.eq_nil_or_concat back with rfl | ⟨middle, last, rfl⟩
    · obtain ⟨rfl, hstep⟩ := List.append_inj' h rfl
      cases hstep
      exact hlast
    · rw [List.concat_eq_append, ← List.cons_append, ← List.append_assoc] at h
      obtain ⟨rfl, -⟩ := List.append_inj' h rfl
      exact hown front other middle rfl

end Started

section Pool

variable {program : γ → Prog σ κ ε ρ} {I F : List (Step σ ε) → σ → Prop}
  {R : γ → List (Step σ ε) → Step σ ε → Prop} {Q : γ → List (Step σ ε) → ρ → Prop}

/-- A program that is right where its steps start as `I` says, among any other programs. -/
theorem under_safe {R : List (Step σ ε) → Step σ ε → Prop} {Q : List (Step σ ε) → ρ → Prop}
    {p : Prog σ κ ε ρ} {own : List (Step σ ε)}
    (h : Started I own → p.Under I F (fun _ _ => True) R Q own) :
    p.Safe (fun _ => True) (fun own step => Started I (own ++ [step]) → R own step)
      (fun own value => Started I own → Q own value) own := by
  induction p generalizing own with
  | ret value => exact h
  | act ready effect next ih =>
    intro s k _ hready
    refine ⟨?_, ih s k ?_⟩
    · intro hstarted
      obtain ⟨hown, hs⟩ := started_snoc.mp hstarted
      exact ((h hown s k hs trivial).2 hready).1
    · intro hstarted
      obtain ⟨hown, hs⟩ := started_snoc.mp hstarted
      exact ((h hown s k hs trivial).2 hready).2

/-- Induction over the interleavings of programs that rely on what holds of all of them: `J`
gives each thread what its program relies on. -/
theorem reaches_under
    (under : ∀ call, (program call).Under I F (fun _ _ => True) (R call) (Q call) [])
    {s₀ : σ} {J : σ → List (Record σ ε ρ γ) → Prop} (start : J s₀ [])
    (sees : ∀ s history t, J s history → I (ownSteps t history) s)
    (called : ∀ s history t call, J s history → J s (history ++ [.called t call]))
    (acted : ∀ history t call step, J step.before history → R call (ownSteps t history) step →
      J step.after (history ++ [.acted t call step]))
    (returned : ∀ s history t call value, J s history → Q call (ownSteps t history) value →
      J s (history ++ [.returned t call value]))
    {cfg : Config σ κ ε ρ γ} (reach : Reaches program s₀ cfg) : J cfg.shared cfg.history := by
  have safe : ∀ call, (program call).Safe (fun _ => True)
      (fun own step => Started I (own ++ [step]) → R call own step)
      (fun own value => Started I own → Q call own value) [] :=
    fun call => under_safe fun _ => under call
  refine (reaches_invariant (I := fun _ => True)
    (R := fun call own step => Started I (own ++ [step]) → R call own step)
    (Q := fun call own value => Started I own → Q call own value)
    (J := fun s history => J s history ∧ ∀ t, Started I (ownSteps t history)) safe
    (fun _ _ _ _ _ => trivial) trivial ⟨start, fun _ => started_nil⟩ ?_ ?_ ?_ reach).1
  · intro s history t call ⟨hJ, hstarted⟩
    exact ⟨called s history t call hJ, by simpa using hstarted⟩
  · intro history t call step _ ⟨hJ, hstarted⟩ hR
    have hown : Started I (ownSteps t history ++ [step]) :=
      started_snoc.mpr ⟨hstarted t, sees step.before history t hJ⟩
    refine ⟨acted history t call step hJ (hR hown), ?_⟩
    intro u
    by_cases he : t = u
    · subst he
      rw [ownSteps_acted_self]
      exact hown
    · rw [ownSteps_acted_ne he]
      exact hstarted u
  · intro s history t call value _ ⟨hJ, hstarted⟩ hQ
    exact ⟨returned s history t call value hJ (hQ (hstarted t)), by simpa using hstarted⟩

end Pool

end Interleaving
