import AutoDeploy.InterleavingUnder

namespace Interleaving

variable {σ ε ρ γ π : Type}

/-- A mutex of a shared state, with the part of the state that it protects. -/
structure Mutex (σ π : Type) where
  locked : σ → Bool
  part : σ → π

namespace Mutex

def note (x : Mutex σ π) (known : Option π) (step : Step σ ε) : Option π :=
  if x.locked step.before = false ∧ x.locked step.after = true then some (x.part step.after)
  else if x.locked step.before = true ∧ x.locked step.after = false then none
  else known.map fun _ => x.part step.after

/-- The part as these steps of a thread have left it, if they hold the mutex. -/
def inside (x : Mutex σ π) (own : List (Step σ ε)) : Option π := own.foldl x.note none

/-- What a thread may rely on: nobody changes the part while it holds the mutex, and `K` holds
of the part whenever the mutex is free. -/
structure Knows (x : Mutex σ π) (K : π → Prop) (own : List (Step σ ε)) (s : σ) : Prop where
  locked : ∀ p, x.inside own = some p → x.locked s = true
  part : ∀ p, x.inside own = some p → x.part s = p
  free : x.locked s = false → K (x.part s)

/-- What a step may do: the part changes only under the mutex and stays as `M` says, and the
mutex is given back with a part that is as `K` says. -/
inductive Moves (x : Mutex σ π) (K M : π → Prop) (own : List (Step σ ε)) (step : Step σ ε) : Prop
  | keeps : x.part step.after = x.part step.before → x.locked step.after = x.locked step.before →
      Moves x K M own step
  | locks : x.locked step.before = false → x.locked step.after = true →
      x.part step.after = x.part step.before → Moves x K M own step
  | works {p : π} : x.inside own = some p → x.locked step.after = x.locked step.before →
      M (x.part step.after) → Moves x K M own step
  | unlocks {p : π} : x.inside own = some p → K p → x.locked step.after = false →
      x.part step.after = x.part step.before → Moves x K M own step

section Own

variable {x : Mutex σ π} {K M : π → Prop} {own : List (Step σ ε)} {step : Step σ ε} {p : π}

@[simp] theorem inside_nil : x.inside ([] : List (Step σ ε)) = none := rfl

theorem inside_snoc : x.inside (own ++ [step]) = x.note (x.inside own) step := by
  simp [inside]

theorem inside_same (hlocked : x.locked step.after = x.locked step.before) :
    x.inside (own ++ [step]) = (x.inside own).map fun _ => x.part step.after := by
  rw [inside_snoc, note, hlocked]
  cases x.locked step.before <;> simp

theorem inside_keeps (knows : x.Knows K own step.before)
    (hpart : x.part step.after = x.part step.before)
    (hlocked : x.locked step.after = x.locked step.before) :
    x.inside (own ++ [step]) = x.inside own := by
  rw [inside_same hlocked]
  cases h : x.inside own with
  | none => rfl
  | some p => rw [Option.map_some, hpart, knows.part p h]

theorem inside_locks (hbefore : x.locked step.before = false)
    (hafter : x.locked step.after = true) :
    x.inside (own ++ [step]) = some (x.part step.after) := by
  rw [inside_snoc, note, if_pos ⟨hbefore, hafter⟩]

theorem inside_unlocks (hbefore : x.locked step.before = true)
    (hafter : x.locked step.after = false) : x.inside (own ++ [step]) = none := by
  rw [inside_snoc, note, if_neg (by simp [hbefore]), if_pos ⟨hbefore, hafter⟩]

theorem inside_works (hlocked : x.locked step.after = x.locked step.before)
    (h : x.inside own = some p) : x.inside (own ++ [step]) = some (x.part step.after) := by
  rw [inside_same hlocked, h, Option.map_some]

/-- The kinds of steps with what the thread knows after them. -/
theorem moves_keeps (knows : x.Knows K own step.before)
    (hpart : x.part step.after = x.part step.before)
    (hlocked : x.locked step.after = x.locked step.before) :
    x.Moves K M own step ∧ x.inside (own ++ [step]) = x.inside own :=
  ⟨.keeps hpart hlocked, inside_keeps knows hpart hlocked⟩

theorem moves_locks (hbefore : x.locked step.before = false)
    (hafter : x.locked step.after = true) (hpart : x.part step.after = x.part step.before) :
    x.Moves K M own step ∧ x.inside (own ++ [step]) = some (x.part step.before) :=
  ⟨.locks hbefore hafter hpart, by rw [inside_locks hbefore hafter, hpart]⟩

theorem moves_works (h : x.inside own = some p)
    (hlocked : x.locked step.after = x.locked step.before) (hM : M (x.part step.after)) :
    x.Moves K M own step ∧ x.inside (own ++ [step]) = some (x.part step.after) :=
  ⟨.works h hlocked hM, inside_works hlocked h⟩

theorem moves_unlocks (knows : x.Knows K own step.before) (h : x.inside own = some p) (hK : K p)
    (hafter : x.locked step.after = false) (hpart : x.part step.after = x.part step.before) :
    x.Moves K M own step ∧ x.inside (own ++ [step]) = none :=
  ⟨.unlocks h hK hafter hpart, inside_unlocks (knows.locked p h) hafter⟩

end Own

/-- The mutex is locked exactly while one thread holds it, and the part is as that thread knows
it, or as `K` says. -/
structure Guarded (x : Mutex σ π) (K M : π → Prop) (s : σ) (history : List (Record σ ε ρ γ)) :
    Prop where
  knows : ∀ t, x.Knows K (ownSteps t history) s
  alone : ∀ t u p q, x.inside (ownSteps t history) = some p →
    x.inside (ownSteps u history) = some q → t = u
  held : x.locked s = true → ∃ t p, x.inside (ownSteps t history) = some p
  always : M (x.part s)

section Guarded

variable {x : Mutex σ π} {K M : π → Prop} {s : σ} {history : List (Record σ ε ρ γ)} {t : ℕ}
  {call : γ} {step : Step σ ε}

/-- Nobody holds the mutex. -/
theorem guarded_open (hopen : x.locked s = false)
    (hnone : ∀ t, x.inside (ownSteps t history) = none) (hK : K (x.part s)) (hM : M (x.part s)) :
    x.Guarded K M s history := by
  refine ⟨fun t => ⟨?_, ?_, fun _ => hK⟩, ?_, ?_, hM⟩
  · intro p hp
    rw [hnone t] at hp
    cases hp
  · intro p hp
    rw [hnone t] at hp
    cases hp
  · intro t u p q hp _
    rw [hnone t] at hp
    cases hp
  · intro hlocked
    rw [hopen] at hlocked
    cases hlocked

/-- This thread holds the mutex. -/
theorem guarded_held (hlocked : x.locked s = true)
    (hself : x.inside (ownSteps t history) = some (x.part s))
    (hnone : ∀ u, t ≠ u → x.inside (ownSteps u history) = none) (hM : M (x.part s)) :
    x.Guarded K M s history := by
  have honly : ∀ u p, x.inside (ownSteps u history) = some p → t = u := by
    intro u p hp
    by_contra hne
    rw [hnone u hne] at hp
    cases hp
  refine ⟨fun u => ⟨fun _ _ => hlocked, ?_, ?_⟩, ?_, fun _ => ⟨t, _, hself⟩, hM⟩
  · intro p hp
    obtain rfl := honly u p hp
    exact Option.some.inj (hself.symm.trans hp)
  · intro hopen
    rw [hlocked] at hopen
    cases hopen
  · intro u w p q hp hq
    exact (honly u p hp).symm.trans (honly w q hq)

theorem Guarded.record {record : Record σ ε ρ γ} (h : x.Guarded K M s history)
    (hown : ∀ t, ownSteps t (history ++ [record]) = ownSteps t history) :
    x.Guarded K M s (history ++ [record]) where
  knows t := by
    rw [hown]
    exact h.knows t
  alone t u := by
    rw [hown, hown]
    exact h.alone t u
  held hlocked := by
    obtain ⟨t, p, hp⟩ := h.held hlocked
    exact ⟨t, p, by rw [hown, hp]⟩
  always := h.always

/-- The other threads are outside while one is inside. -/
theorem Guarded.outside {p : π} (h : x.Guarded K M s history)
    (hp : x.inside (ownSteps t history) = some p) {u : ℕ} (hne : t ≠ u) :
    x.inside (ownSteps u history) = none := by
  cases hq : x.inside (ownSteps u history) with
  | none => rfl
  | some q => exact absurd (h.alone t u p q hp hq) hne

theorem Guarded.acted (h : x.Guarded K M step.before history)
    (hmoves : x.Moves K M (ownSteps t history) step) :
    x.Guarded K M step.after (history ++ [.acted t call step]) := by
  have hother : ∀ u, t ≠ u →
      ownSteps u (history ++ [.acted t call step]) = ownSteps u history :=
    fun u hne => ownSteps_acted_ne hne
  cases hmoves with
  | keeps hpart hlocked =>
    have hinside : ∀ u, x.inside (ownSteps u (history ++ [.acted t call step])) =
        x.inside (ownSteps u history) := by
      intro u
      by_cases he : t = u
      · subst he
        rw [ownSteps_acted_self, inside_keeps (h.knows t) hpart hlocked]
      · rw [hother u he]
    refine ⟨?_, ?_, ?_, by rw [hpart]; exact h.always⟩
    · intro u
      refine ⟨?_, ?_, ?_⟩
      · intro p hp
        rw [hlocked]
        exact (h.knows u).locked p (hinside u ▸ hp)
      · intro p hp
        rw [hpart]
        exact (h.knows u).part p (hinside u ▸ hp)
      · rw [hlocked, hpart]
        exact (h.knows u).free
    · intro u w p q hp hq
      exact h.alone u w p q (hinside u ▸ hp) (hinside w ▸ hq)
    · intro hl
      obtain ⟨u, p, hp⟩ := h.held (hlocked ▸ hl)
      exact ⟨u, p, by rw [hinside u, hp]⟩
  | locks hbefore hafter hpart =>
    have hnobody : ∀ u, x.inside (ownSteps u history) = none := by
      intro u
      cases hp : x.inside (ownSteps u history) with
      | none => rfl
      | some p =>
        have hlocked := (h.knows u).locked p hp
        rw [hbefore] at hlocked
        cases hlocked
    refine guarded_held (t := t) hafter ?_ ?_ (by rw [hpart]; exact h.always)
    · rw [ownSteps_acted_self, inside_locks hbefore hafter]
    · exact fun u hne => by rw [hother u hne, hnobody u]
  | works hp hlocked hM =>
    have hbefore := (h.knows t).locked _ hp
    refine guarded_held (t := t) (hlocked.trans hbefore) ?_ ?_ hM
    · rw [ownSteps_acted_self, inside_works hlocked hp]
    · exact fun u hne => by rw [hother u hne, h.outside hp hne]
  | @unlocks p hp hK hafter hpart =>
    have hbefore := (h.knows t).locked p hp
    refine guarded_open hafter ?_ ?_ (by rw [hpart]; exact h.always)
    · intro u
      by_cases he : t = u
      · subst he
        rw [ownSteps_acted_self, inside_unlocks hbefore hafter]
      · rw [hother u he, h.outside hp he]
    · rw [hpart, (h.knows t).part p hp]
      exact hK

end Guarded

end Mutex

end Interleaving
