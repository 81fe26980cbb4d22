import AutoDeploy.InterleavingMoment

namespace Interleaving

variable {σ κ ε ρ γ τ ω : Type}

/-- A stored value with something that is kept live for it. A thread chooses a value when it
stores it or reads it back, and applies it in a step of its own later. -/
structure LiveCopy (σ ε τ ω : Type) where
  stored : σ → τ
  live : σ → ω
  wanted : τ → ω
  chosen : ε → Option τ
  applies : ε → Bool

namespace LiveCopy

def note (v : LiveCopy σ ε τ ω) (pending : Option τ) (event : ε) : Option τ :=
  match v.chosen event with
  | some value => some value
  | none => if v.applies event then none else pending

/-- What these steps have chosen and not applied. -/
def pending (v : LiveCopy σ ε τ ω) (own : List (Step σ ε)) : Option τ :=
  (emissions own).foldl v.note none

/-- What a step may do to the two. -/
inductive Moves (v : LiveCopy σ ε τ ω) (own : List (Step σ ε)) (step : Step σ ε) : Prop
  | keeps : v.stored step.after = v.stored step.before → v.live step.after = v.live step.before →
      (∀ e ∈ step.emitted, v.chosen e = none ∧ v.applies e = false) → Moves v own step
  | chooses {e : ε} : step.emitted = [e] → v.chosen e = some (v.stored step.after) →
      v.applies e = false → v.live step.after = v.live step.before → Moves v own step
  | applies {e : ε} {value : τ} : step.emitted = [e] → v.chosen e = none → v.applies e = true →
      v.pending own = some value → v.stored step.after = v.stored step.before →
      v.live step.after = v.wanted value → Moves v own step

/-- What is live is what the stored value asks for. -/
def Matches (v : LiveCopy σ ε τ ω) (s : σ) : Prop := v.live s = v.wanted (v.stored s)

/-- A thread that has chosen a value which asks for the same as the stored one has still to
apply it. -/
def Due (v : LiveCopy σ ε τ ω) (s : σ) (history : List (Record σ ε ρ γ)) : Prop :=
  ∃ t value, v.pending (ownSteps t history) = some value ∧ v.wanted value = v.wanted (v.stored s)

/-- Whenever a value is applied, the stored value is the one, or is still to be applied. -/
def InOrder (v : LiveCopy σ ε τ ω) (history : List (Record σ ε ρ γ)) : Prop :=
  ∀ pre t call step post, history = pre ++ .acted t call step :: post →
    (∃ e ∈ step.emitted, v.applies e = true) → v.Due step.before pre

/-- Some thread has stored a value or has read it back. -/
def Chosen (v : LiveCopy σ ε τ ω) (history : List (Record σ ε ρ γ)) : Prop :=
  ∃ e ∈ emissions (steps history), (v.chosen e).isSome = true

section Own

variable {v : LiveCopy σ ε τ ω} {own : List (Step σ ε)} {step : Step σ ε} {e : ε}

@[simp] theorem pending_nil : v.pending ([] : List (Step σ ε)) = none := rfl

theorem pending_snoc :
    v.pending (own ++ [step]) = step.emitted.foldl v.note (v.pending own) := by
  simp [pending]

theorem pending_keeps (h : ∀ e ∈ step.emitted, v.chosen e = none ∧ v.applies e = false) :
    v.pending (own ++ [step]) = v.pending own := by
  rw [pending_snoc]
  generalize v.pending own = p
  generalize step.emitted = events at h
  induction events with
  | nil => rfl
  | cons e rest ih =>
    obtain ⟨hchosen, happlies⟩ := h e List.mem_cons_self
    rw [List.foldl_cons, show v.note p e = p by simp [note, hchosen, happlies]]
    exact ih fun e' hm => h e' (List.mem_cons_of_mem _ hm)

theorem pending_chooses {value : τ} (hemit : step.emitted = [e])
    (hchosen : v.chosen e = some value) : v.pending (own ++ [step]) = some value := by
  simp [pending_snoc, hemit, note, hchosen]

theorem pending_applies (hemit : step.emitted = [e]) (hchosen : v.chosen e = none)
    (happlies : v.applies e = true) : v.pending (own ++ [step]) = none := by
  simp [pending_snoc, hemit, note, hchosen, happlies]

/-- The kinds of steps with what is pending after them. -/
theorem moves_keeps (hstored : v.stored step.after = v.stored step.before)
    (hlive : v.live step.after = v.live step.before)
    (hquiet : ∀ e ∈ step.emitted, v.chosen e = none ∧ v.applies e = false) :
    v.Moves own step ∧ v.pending (own ++ [step]) = v.pending own :=
  ⟨.keeps hstored hlive hquiet, pending_keeps hquiet⟩

theorem moves_chooses (hemit : step.emitted = [e])
    (hchosen : v.chosen e = some (v.stored step.after)) (happlies : v.applies e = false)
    (hlive : v.live step.after = v.live step.before) :
    v.Moves own step ∧ v.pending (own ++ [step]) = some (v.stored step.after) :=
  ⟨.chooses hemit hchosen happlies hlive, pending_chooses hemit hchosen⟩

theorem moves_applies {value : τ} (hpending : v.pending own = some value)
    (hemit : step.emitted = [e]) (hchosen : v.chosen e = none) (happlies : v.applies e = true)
    (hstored : v.stored step.after = v.stored step.before)
    (hlive : v.live step.after = v.wanted value) :
    v.Moves own step ∧ v.pending (own ++ [step]) = none :=
  ⟨.applies hemit hchosen happlies hpending hstored hlive,
    pending_applies hemit hchosen happlies⟩

end Own

section Runs

variable {v : LiveCopy σ ε τ ω} {s : σ} {history : List (Record σ ε ρ γ)} {t : ℕ} {call : γ}
  {step : Step σ ε}

theorem InOrder.prefix {late : List (Record σ ε ρ γ)} (h : v.InOrder (history ++ late)) :
    v.InOrder history := by
  rintro pre t call step post rfl
  exact h pre t call step (post ++ late) (by simp)

/-- A step of another thread leaves it due, unless it stores something else. -/
theorem Due.acted {u : ℕ} {value : τ} (hu : v.pending (ownSteps u history) = some value)
    (hwanted : v.wanted value = v.wanted (v.stored s)) (hne : t ≠ u) :
    v.Due s (history ++ [.acted t call step]) :=
  ⟨u, value, by rw [ownSteps_acted_ne hne, hu], hwanted⟩

/-- What one step keeps, if it applies only in order. -/
theorem due_acted (hmoves : v.Moves (ownSteps t history) step)
    (horder : (∃ e ∈ step.emitted, v.applies e = true) → v.Due step.before history)
    (h : v.Matches step.before ∨ v.Due step.before history ∨ ∃ e ∈ step.emitted,
      (v.chosen e).isSome = true) :
    v.Matches step.after ∨ v.Due step.after (history ++ [.acted t call step]) := by
  cases hmoves with
  | keeps hstored hlive hquiet =>
    obtain hmatches | ⟨u, value, hu, hwanted⟩ | ⟨e, he, hsome⟩ := h
    · exact Or.inl (by rw [Matches, hlive, hstored]; exact hmatches)
    · refine Or.inr ⟨u, value, ?_, by rw [hstored]; exact hwanted⟩
      by_cases he : t = u
      · subst he
        rw [ownSteps_acted_self, pending_keeps hquiet, hu]
      · rw [ownSteps_acted_ne he, hu]
    · rw [(hquiet e he).1] at hsome
      cases hsome
  | chooses hemit hchosen _ hlive =>
    refine Or.inr ⟨t, v.stored step.after, ?_, rfl⟩
    rw [ownSteps_acted_self, pending_chooses hemit hchosen]
  | @applies e value hemit hchosen happlies hpending hstored hlive =>
    obtain ⟨u, other, hu, hwanted⟩ := horder ⟨e, by simp [hemit], happlies⟩
    by_cases he : t = u
    · subst he
      obtain rfl := Option.some.inj (hpending.symm.trans hu)
      exact Or.inl (by rw [Matches, hlive, hstored, hwanted])
    · exact Or.inr (Due.acted hu (by rw [hstored]; exact hwanted) he)

/-- What holds of a run that applies in order, once a value was chosen or where the start was
right. -/
def Follows (v : LiveCopy σ ε τ ω) (s₀ s : σ) (history : List (Record σ ε ρ γ)) : Prop :=
  v.InOrder history → (v.Matches s₀ ∨ v.Chosen history) → v.Matches s ∨ v.Due s history

theorem follows_start {s₀ : σ} : v.Follows s₀ s₀ ([] : List (Record σ ε ρ γ)) := by
  intro _ h
  obtain hmatches | ⟨e, he, -⟩ := h
  · exact Or.inl hmatches
  · simp [steps, emissions] at he

theorem Follows.record {s₀ : σ} {record : Record σ ε ρ γ} (h : v.Follows s₀ s history)
    (hown : ∀ t, ownSteps t (history ++ [record]) = ownSteps t history)
    (hsteps : steps (history ++ [record]) = steps history) :
    v.Follows s₀ s (history ++ [record]) := by
  intro horder hbegun
  rw [Chosen, hsteps] at hbegun
  obtain hmatches | ⟨t, value, ht, hwanted⟩ := h horder.prefix hbegun
  · exact Or.inl hmatches
  · exact Or.inr ⟨t, value, by rw [hown, ht], hwanted⟩

theorem Follows.acted {s₀ : σ} (h : v.Follows s₀ step.before history)
    (hmoves : v.Moves (ownSteps t history) step) :
    v.Follows s₀ step.after (history ++ [.acted t call step]) := by
  intro horder hbegun
  refine due_acted hmoves (horder history t call step [] rfl) ?_
  by_cases hbefore : v.Matches s₀ ∨ v.Chosen history
  · obtain hmatches | hdue := h horder.prefix hbefore
    · exact Or.inl hmatches
    · exact Or.inr (Or.inl hdue)
  · obtain ⟨hstart, hnone⟩ := not_or.mp hbefore
    obtain hmatches | ⟨e, he, hsome⟩ := hbegun
    · exact absurd hmatches hstart
    · rw [steps_acted, emissions_append, emissions_singleton, List.mem_append] at he
      obtain hold | hlast := he
      · exact absurd ⟨e, hold, hsome⟩ hnone
      · exact Or.inr (Or.inr ⟨e, hlast, hsome⟩)

/-- A value that is applied out of order is not what the stored value asks for, and no thread is
left to set it right. -/
theorem drifts (hmoves : v.Moves (ownSteps t history) step)
    (happlies : ∃ e ∈ step.emitted, v.applies e = true) (hnot : ¬ v.Due step.before history) :
    ¬ v.Matches step.after ∧ ¬ v.Due step.after (history ++ [.acted t call step]) := by
  obtain ⟨e, he, hyes⟩ := happlies
  cases hmoves with
  | keeps _ _ hquiet =>
    rw [(hquiet e he).2] at hyes
    cases hyes
  | chooses hemit _ hno _ =>
    rw [hemit, List.mem_singleton] at he
    rw [he, hno] at hyes
    cases hyes
  | @applies e value hemit hchosen happlies hpending hstored hlive =>
    constructor
    · intro hmatches
      rw [Matches, hlive, hstored] at hmatches
      exact hnot ⟨t, value, hpending, hmatches⟩
    · rintro ⟨u, other, hu, hwanted⟩
      by_cases hself : t = u
      · subst hself
        rw [ownSteps_acted_self, pending_applies hemit hchosen happlies] at hu
        cases hu
      · rw [ownSteps_acted_ne hself] at hu
        exact hnot ⟨u, other, hu, by rw [← hstored]; exact hwanted⟩

/-- A value is applied in order where the stored value asks for it. -/
theorem inOrder_current
    (moves : ∀ pre t call step post, history = pre ++ .acted t call step :: post →
      v.Moves (ownSteps t pre) step)
    (h : ∀ step ∈ steps history, (∃ e ∈ step.emitted, v.applies e = true) →
      v.live step.after = v.wanted (v.stored step.before)) : v.InOrder history := by
  intro pre t call step post hsplit happlies
  have hlive := h step (mem_steps.mpr ⟨t, call, by rw [hsplit]; simp⟩) happlies
  obtain ⟨e, he, hyes⟩ := happlies
  cases moves pre t call step post hsplit with
  | keeps _ _ hquiet =>
    rw [(hquiet e he).2] at hyes
    cases hyes
  | chooses hemit _ hno _ =>
    rw [hemit, List.mem_singleton] at he
    rw [he, hno] at hyes
    cases hyes
  | applies _ _ _ hpending _ hafter => exact ⟨t, _, hpending, hafter.symm.trans hlive⟩

end Runs

end LiveCopy

end Interleaving
