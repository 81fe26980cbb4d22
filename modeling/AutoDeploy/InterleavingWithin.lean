import AutoDeploy.InterleavingAlone
import AutoDeploy.InterleavingRestart

namespace Interleaving

variable {σ τ κ ε α β η : Type}

namespace Prog

/-- A program over a part of a larger state. -/
def within (get : τ → σ) (put : τ → σ → τ) : Prog σ κ ε α → Prog τ κ ε α
  | ret value => ret value
  | act ready effect next =>
    act (fun t k => ready (get t) k)
      (fun t k => (put t (effect (get t) k).1, (effect (get t) k).2))
      fun t k => (next (get t) k).within get put

/-- Alone, the program ends as `Q` says, which also sees what the outside has answered and what
was emitted on the way. -/
def Gives (Q : List κ → List ε → σ → α → Prop) : List κ → List ε → σ → Prog σ κ ε α → Prop
  | ks, es, s, ret value => Q ks es s value
  | ks, es, s, act _ effect next => ∀ k,
      (next s k).Gives Q (ks ++ [k]) (es ++ (effect s k).2) (effect s k).1

variable {Q : List κ → List ε → σ → α → Prop} {ks : List κ} {es : List ε} {s : σ}

theorem gives_atomic {run : σ → κ → α × σ × List ε}
    (h : ∀ k, Q (ks ++ [k]) (es ++ (run s k).2.2) (run s k).2.1 (run s k).1) :
    (atomic run).Gives Q ks es s :=
  h

theorem gives_bind {P : List κ → List ε → σ → β → Prop} {first : Prog σ κ ε β}
    {rest : β → Prog σ κ ε α} (hf : first.Gives P ks es s)
    (hr : ∀ ks es s value, P ks es s value → (rest value).Gives Q ks es s) :
    (first >>= rest).Gives Q ks es s := by
  change (first.bind rest).Gives Q ks es s
  induction first generalizing ks es s with
  | ret value => exact hr ks es s value hf
  | act ready effect next ih =>
    intro k
    exact ih s k (hf k)

theorem gives_try {P : List κ → List ε → σ → β → Prop} {R : List κ → List ε → σ → α → Prop}
    {E : List κ → List ε → σ → η → Prop} {first : ExceptT η (Prog σ κ ε) β}
    {rest : β → ExceptT η (Prog σ κ ε) α}
    (hf : first.run.Gives (fun ks es => Ends (P ks es) (E ks es)) ks es s)
    (hr : ∀ ks es s value, P ks es s value →
      (rest value).run.Gives (fun ks es => Ends (R ks es) (E ks es)) ks es s) :
    (first >>= rest).run.Gives (fun ks es => Ends (R ks es) (E ks es)) ks es s := by
  refine gives_bind hf ?_
  intro ks es s result hresult
  cases result with
  | ok value => exact hr ks es s value hresult
  | error e => exact hresult

theorem Gives.mono {Q' : List κ → List ε → σ → α → Prop} {p : Prog σ κ ε α}
    (h : p.Gives Q ks es s) (hQ : ∀ ks es s value, Q ks es s value → Q' ks es s value) :
    p.Gives Q' ks es s := by
  induction p generalizing ks es s with
  | ret value => exact hQ ks es s value h
  | act ready effect next ih =>
    intro k
    exact ih s k (h k)

theorem Gives.and {Q' : List κ → List ε → σ → α → Prop} {p : Prog σ κ ε α}
    (h : p.Gives Q ks es s) (h' : p.Gives Q' ks es s) :
    p.Gives (fun ks es s value => Q ks es s value ∧ Q' ks es s value) ks es s := by
  induction p generalizing ks es s with
  | ret value => exact ⟨h, h'⟩
  | act ready effect next ih =>
    intro k
    exact ih s k (h k) (h' k)

/-- The answers of the outside only get more. -/
theorem gives_prefix (p : Prog σ κ ε α) : p.Gives (fun ks' _ _ _ => ks <+: ks') ks es s := by
  induction p generalizing ks es s with
  | ret value => exact List.prefix_rfl
  | act ready effect next ih =>
    intro k
    refine (ih s k).mono ?_
    intro ks' _ _ _ hks
    exact (List.prefix_append _ _).trans hks

/-- A program over a part of the state ends as it does on that part alone. -/
theorem gives_within {get : τ → σ} {put : τ → σ → τ} {t : τ} {p : Prog σ κ ε α}
    (hget : ∀ t s, get (put t s) = s) (hput : ∀ t s s', put (put t s) s' = put t s')
    (h : p.Gives Q ks es s) :
    (p.within get put).Gives (fun ks es t' value => ∃ s', t' = put t s' ∧ Q ks es s' value) ks es
      (put t s) := by
  induction p generalizing ks es s with
  | ret value => exact ⟨s, rfl, h⟩
  | act ready effect next ih =>
    intro k
    change ((next (get (put t s)) k).within get put).Gives _ (ks ++ [k])
      (es ++ (effect (get (put t s)) k).2) (put (put t s) (effect (get (put t s)) k).1)
    rw [hget, hput]
    exact ih s k (h k)

/-- What a program gives holds of its run with these answers. -/
theorem alone_gives {p : Prog σ κ ε α} (answers : ℕ → κ) (h : p.Gives Q ks es s) :
    Q (ks ++ (List.range (p.alone answers s).steps.length).map answers)
      (es ++ emissions (p.alone answers s).steps) (p.alone answers s).state
      (p.alone answers s).value := by
  induction p generalizing ks es s answers with
  | ret value => simpa [alone, Gives, emissions] using h
  | act ready effect next ih =>
    have hnext := ih s (answers 0) (fun n => answers (n + 1)) (h (answers 0))
    simpa [alone, emissions, List.range_succ_eq_map, Function.comp_def] using hnext

end Prog

end Interleaving
