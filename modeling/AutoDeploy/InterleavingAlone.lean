import AutoDeploy.InterleavingRun

namespace Interleaving

variable {σ κ ε α β : Type}

/-- The end of a run: the steps on the way, the last state and the returned value. -/
structure Outcome (σ ε α : Type) where
  steps : List (Step σ ε)
  state : σ
  value : α

namespace Prog

/-- A run that no other program interrupts. Each action takes the next of the answers that the
outside gives. -/
def alone : Prog σ κ ε α → (ℕ → κ) → σ → Outcome σ ε α
  | ret value, _, s => ⟨[], s, value⟩
  | act _ effect next, answers, s =>
    let step : Step σ ε := ⟨s, (effect s (answers 0)).2, (effect s (answers 0)).1⟩
    let rest := (next s (answers 0)).alone (fun n => answers (n + 1)) step.after
    ⟨step :: rest.steps, rest.state, rest.value⟩

@[simp] theorem alone_pure (value : α) (answers : ℕ → κ) (s : σ) :
    (pure value : Prog σ κ ε α).alone answers s = ⟨[], s, value⟩ :=
  rfl

@[simp] theorem alone_atomic (run : σ → κ → α × σ × List ε) (answers : ℕ → κ) (s : σ) :
    (atomic run).alone answers s = ⟨[⟨s, (run s (answers 0)).2.2, (run s (answers 0)).2.1⟩],
      (run s (answers 0)).2.1, (run s (answers 0)).1⟩ :=
  rfl

theorem alone_bind (first : Prog σ κ ε β) (rest : β → Prog σ κ ε α) (answers : ℕ → κ) (s : σ) :
    let o := first.alone answers s
    let o' := (rest o.value).alone (fun n => answers (n + o.steps.length)) o.state
    (first >>= rest).alone answers s = ⟨o.steps ++ o'.steps, o'.state, o'.value⟩ := by
  change (first.bind rest).alone answers s = _
  induction first generalizing answers s with
  | ret value => rfl
  | act ready effect next ih =>
    simp only [bind, alone, ih, List.length_cons, List.cons_append, Nat.add_assoc]

/-- Whatever the outside answers, the program ends as `Q` says, which also sees the steps. -/
def Wp (Q : List (Step σ ε) → σ → α → Prop) : List (Step σ ε) → σ → Prog σ κ ε α → Prop
  | own, s, ret value => Q own s value
  | own, s, act _ effect next => ∀ k,
      (next s k).Wp Q (own ++ [⟨s, (effect s k).2, (effect s k).1⟩]) (effect s k).1

variable {Q : List (Step σ ε) → σ → α → Prop} {own : List (Step σ ε)} {s : σ}

theorem wp_atomic {run : σ → κ → α × σ × List ε}
    (h : ∀ k, Q (own ++ [⟨s, (run s k).2.2, (run s k).2.1⟩]) (run s k).2.1 (run s k).1) :
    (atomic run).Wp Q own s :=
  h

theorem wp_bind {P : List (Step σ ε) → σ → β → Prop} {first : Prog σ κ ε β}
    {rest : β → Prog σ κ ε α} (hf : first.Wp P own s)
    (hr : ∀ own s value, P own s value → (rest value).Wp Q own s) :
    (first >>= rest).Wp Q own s := by
  change (first.bind rest).Wp Q own s
  induction first generalizing own s with
  | ret value => exact hr own s value hf
  | act ready effect next ih =>
    intro k
    exact ih s k (hf k)

theorem wp_map {f : β → α} {p : Prog σ κ ε β}
    (h : p.Wp (fun own s value => Q own s (f value)) own s) :
    (f <$> p).Wp Q own s :=
  wp_bind h fun _ _ _ hQ => hQ

theorem Wp.mono {Q' : List (Step σ ε) → σ → α → Prop} {p : Prog σ κ ε α} (h : p.Wp Q own s)
    (hQ : ∀ own s value, Q own s value → Q' own s value) : p.Wp Q' own s := by
  induction p generalizing own s with
  | ret value => exact hQ own s value h
  | act ready effect next ih =>
    intro k
    exact ih s k (h k)

/-- What holds whatever the outside answers holds of every run. -/
theorem alone_wp {p : Prog σ κ ε α} (answers : ℕ → κ) (h : p.Wp Q own s) :
    Q (own ++ (p.alone answers s).steps) (p.alone answers s).state (p.alone answers s).value := by
  induction p generalizing own s answers with
  | ret value => simpa [alone, Wp] using h
  | act ready effect next ih =>
    have hnext := ih s (answers 0) (fun n => answers (n + 1)) (h (answers 0))
    simpa [alone] using hnext

end Prog

end Interleaving
