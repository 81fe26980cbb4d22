import Mathlib.Data.List.Basic

namespace Interleaving

variable {σ κ ε α β : Type}

/-- A program over a shared state `σ`, cut at its atomic actions. An action waits until it is
ready, and reads a value of `κ` that the outside chooses (a fault, a fresh name). -/
inductive Prog (σ κ ε : Type) (α : Type) where
  | ret (value : α)
  | act (ready : σ → κ → Bool) (effect : σ → κ → σ × List ε) (next : σ → κ → Prog σ κ ε α)

namespace Prog

def bind : Prog σ κ ε α → (α → Prog σ κ ε β) → Prog σ κ ε β
  | ret value, rest => rest value
  | act ready effect next, rest => act ready effect fun s k => (next s k).bind rest

instance : Monad (Prog σ κ ε) where
  pure := ret
  bind := bind

/-- One action that may always run. -/
def atomic (run : σ → κ → α × σ × List ε) : Prog σ κ ε α :=
  act (fun _ _ => true) (fun s k => (run s k).2) fun s k => ret (run s k).1

/-- One action that waits for a condition on the shared state. -/
def await (ready : σ → Bool) (run : σ → κ → α × σ × List ε) : Prog σ κ ε α :=
  act (fun s _ => ready s) (fun s k => (run s k).2) fun s k => ret (run s k).1

end Prog

/-- What one action did. -/
structure Step (σ ε : Type) where
  before : σ
  emitted : List ε
  after : σ

namespace Prog

/-- Whatever the other programs do between two actions (they only keep `I`), every action
satisfies `R` and a returned value satisfies `Q`, both of which see the program's own steps. -/
def Safe (I : σ → Prop) (R : List (Step σ ε) → Step σ ε → Prop)
    (Q : List (Step σ ε) → α → Prop) : List (Step σ ε) → Prog σ κ ε α → Prop
  | own, ret value => Q own value
  | own, act ready effect next => ∀ s k, I s → ready s k = true →
      R own ⟨s, (effect s k).2, (effect s k).1⟩ ∧
        (next s k).Safe I R Q (own ++ [⟨s, (effect s k).2, (effect s k).1⟩])

variable {I : σ → Prop} {R : List (Step σ ε) → Step σ ε → Prop}
  {Q : List (Step σ ε) → α → Prop} {own : List (Step σ ε)}

theorem safe_bind {P : List (Step σ ε) → β → Prop} {first : Prog σ κ ε β}
    {rest : β → Prog σ κ ε α} (hf : first.Safe I R P own)
    (hr : ∀ own value, P own value → (rest value).Safe I R Q own) :
    (first >>= rest).Safe I R Q own := by
  change (first.bind rest).Safe I R Q own
  induction first generalizing own with
  | ret value => exact hr own value hf
  | act ready effect next ih =>
    intro s k hs hready
    obtain ⟨hR, hnext⟩ := hf s k hs hready
    exact ⟨hR, ih s k hnext⟩

theorem Safe.mono {Q' : List (Step σ ε) → α → Prop} {p : Prog σ κ ε α}
    (h : p.Safe I R Q own) (hQ : ∀ own value, Q own value → Q' own value) :
    p.Safe I R Q' own := by
  induction p generalizing own with
  | ret value => exact hQ own value h
  | act ready effect next ih =>
    intro s k hs hready
    obtain ⟨hR, hnext⟩ := h s k hs hready
    exact ⟨hR, ih s k hnext⟩

theorem Safe.imp {R' : List (Step σ ε) → Step σ ε → Prop} {Q' : List (Step σ ε) → α → Prop}
    {p : Prog σ κ ε α} (h : p.Safe I R Q own) (hR : ∀ own step, R own step → R' own step)
    (hQ : ∀ own value, Q own value → Q' own value) : p.Safe I R' Q' own := by
  induction p generalizing own with
  | ret value => exact hQ own value h
  | act ready effect next ih =>
    intro s k hs hready
    obtain ⟨hstep, hnext⟩ := h s k hs hready
    exact ⟨hR _ _ hstep, ih s k hnext⟩

theorem safe_trivial {p : Prog σ κ ε α} :
    p.Safe I (fun _ _ => True) (fun _ _ => True) own := by
  induction p generalizing own with
  | ret value => trivial
  | act ready effect next ih => exact fun s k _ _ => ⟨trivial, ih s k⟩

theorem safe_atomic {run : σ → κ → α × σ × List ε}
    (h : ∀ s k, I s → R own ⟨s, (run s k).2.2, (run s k).2.1⟩ ∧
      Q (own ++ [⟨s, (run s k).2.2, (run s k).2.1⟩]) (run s k).1) :
    (atomic run).Safe I R Q own :=
  fun s k hs _ => h s k hs

theorem safe_await {ready : σ → Bool} {run : σ → κ → α × σ × List ε}
    (h : ∀ s k, I s → ready s = true → R own ⟨s, (run s k).2.2, (run s k).2.1⟩ ∧
      Q (own ++ [⟨s, (run s k).2.2, (run s k).2.1⟩]) (run s k).1) :
    (await ready run : Prog σ κ ε α).Safe I R Q own :=
  h

theorem safe_map {f : β → α} {p : Prog σ κ ε β}
    (h : p.Safe I R (fun own value => Q own (f value)) own) : (f <$> p).Safe I R Q own := by
  change (p.bind fun value => ret (f value)).Safe I R Q own
  exact safe_bind h fun own value hq => hq

/-- Some run returns the value, whatever the other programs have done before each action. -/
def Returns : Prog σ κ ε α → α → Prop
  | ret v, value => v = value
  | act ready _ next, value => ∃ s k, ready s k = true ∧ (next s k).Returns value

@[simp] theorem returns_pure {v value : α} :
    (pure v : Prog σ κ ε α).Returns value ↔ v = value :=
  Iff.rfl

theorem returns_bind {first : Prog σ κ ε β} {rest : β → Prog σ κ ε α} {value : α} :
    (first >>= rest).Returns value ↔
      ∃ between, first.Returns between ∧ (rest between).Returns value := by
  change (first.bind rest).Returns value ↔ _
  induction first with
  | ret v => simp [bind, Returns]
  | act ready effect next ih =>
    simp only [bind, Returns, ih]
    constructor
    · intro ⟨s, k, hready, between, hfirst, hrest⟩
      exact ⟨between, ⟨s, k, hready, hfirst⟩, hrest⟩
    · intro ⟨between, ⟨s, k, hready, hfirst⟩, hrest⟩
      exact ⟨s, k, hready, between, hfirst, hrest⟩

end Prog

end Interleaving
