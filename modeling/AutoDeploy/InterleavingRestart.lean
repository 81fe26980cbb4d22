import AutoDeploy.InterleavingProg

namespace Interleaving

variable {σ κ ε α β η : Type}

namespace Prog

/-- How far a program can come that runs alone, and in which state it can be cut off there. -/
inductive Runs : Prog σ κ ε α → σ → Prog σ κ ε α → σ → Prop
  | here {p : Prog σ κ ε α} {s : σ} : Runs p s p s
  | act {ready : σ → κ → Bool} {effect : σ → κ → σ × List ε} {next : σ → κ → Prog σ κ ε α}
      {s s' : σ} {p' : Prog σ κ ε α} (k : κ) : ready s k = true →
      Runs (next s k) (effect s k).1 p' s' → Runs (.act ready effect next) s p' s'

/-- Alone, the program passes only through states of `J`, and returns only as `Q` says. -/
def Always (J : σ → Prop) (Q : σ → α → Prop) : σ → Prog σ κ ε α → Prop
  | s, ret value => J s ∧ Q s value
  | s, act ready effect next => J s ∧ ∀ k, ready s k = true →
      (next s k).Always J Q (effect s k).1

/-- Alone, with what `C` allows from the outside, the program never waits and returns as `Q`
says. -/
def Yields (C : σ → κ → Prop) (Q : σ → α → Prop) : σ → Prog σ κ ε α → Prop
  | s, ret value => Q s value
  | s, act ready effect next => ∀ k, C s k → ready s k = true ∧
      (next s k).Yields C Q (effect s k).1

section Rules

variable {J : σ → Prop} {C : σ → κ → Prop} {Q : σ → α → Prop} {s s' : σ} {p p' : Prog σ κ ε α}

theorem Always.here (h : p.Always J Q s) : J s := by
  cases p with
  | ret value => exact h.1
  | act ready effect next => exact h.1

theorem Always.runs (h : p.Always J Q s) (runs : p.Runs s p' s') : p'.Always J Q s' := by
  induction runs with
  | here => exact h
  | act k hready _ ih => exact ih (h.2 k hready)

/-- Every state in which the program can be cut off is one of `J`. -/
theorem Always.cut (h : p.Always J Q s) (runs : p.Runs s p' s') : J s' :=
  (h.runs runs).here

theorem Always.returned {value : α} (h : p.Always J Q s) (runs : p.Runs s (ret value) s') :
    Q s' value :=
  (h.runs runs).2

theorem Always.imp {J' : σ → Prop} {Q' : σ → α → Prop} (h : p.Always J Q s)
    (hJ : ∀ s, J s → J' s) (hQ : ∀ s value, J s → Q s value → Q' s value) :
    p.Always J' Q' s := by
  induction p generalizing s with
  | ret value => exact ⟨hJ s h.1, hQ s value h.1 h.2⟩
  | act ready effect next ih => exact ⟨hJ s h.1, fun k hready => ih s k (h.2 k hready)⟩

theorem Always.mono {Q' : σ → α → Prop} (h : p.Always J Q s)
    (hQ : ∀ s value, J s → Q s value → Q' s value) : p.Always J Q' s :=
  h.imp (fun _ hs => hs) hQ

theorem always_bind {P : σ → β → Prop} {first : Prog σ κ ε β} {rest : β → Prog σ κ ε α}
    (hf : first.Always J P s) (hr : ∀ s value, J s → P s value → (rest value).Always J Q s) :
    (first >>= rest).Always J Q s := by
  change (first.bind rest).Always J Q s
  induction first generalizing s with
  | ret value => exact hr s value hf.1 hf.2
  | act ready effect next ih => exact ⟨hf.1, fun k hready => ih s k (hf.2 k hready)⟩

theorem always_await {ready : σ → Bool} {run : σ → κ → α × σ × List ε} (hs : J s)
    (h : ∀ k, ready s = true → J (run s k).2.1 ∧ Q (run s k).2.1 (run s k).1) :
    (await ready run : Prog σ κ ε α).Always J Q s :=
  ⟨hs, h⟩

theorem always_atomic {run : σ → κ → α × σ × List ε} (hs : J s)
    (h : ∀ k, J (run s k).2.1 ∧ Q (run s k).2.1 (run s k).1) :
    (atomic run : Prog σ κ ε α).Always J Q s :=
  ⟨hs, fun k _ => h k⟩

/-- One action that may always run, and then how far the rest comes. -/
theorem runs_atomic {run : σ → κ → β × σ × List ε} {rest : β → Prog σ κ ε α} (k : κ)
    (h : (rest (run s k).1).Runs (run s k).2.1 p' s') : (atomic run >>= rest).Runs s p' s' :=
  .act k rfl h

/-- Alone, the program passes only through states of `J` if it starts in one. -/
def Stays (J : σ → Prop) (p : Prog σ κ ε α) : Prop :=
  ∀ s, J s → p.Always J (fun _ _ => True) s

theorem stays_pure {value : α} : (pure value : Prog σ κ ε α).Stays J :=
  fun _ hs => ⟨hs, trivial⟩

theorem stays_bind {first : Prog σ κ ε β} {rest : β → Prog σ κ ε α} (hf : first.Stays J)
    (hr : ∀ value, (rest value).Stays J) : (first >>= rest).Stays J :=
  fun s hs => always_bind (hf s hs) fun s' value hs' _ => hr value s' hs'

theorem stays_map {f : β → α} {p : Prog σ κ ε β} (h : p.Stays J) : (f <$> p).Stays J :=
  stays_bind h fun _ => stays_pure

theorem stays_atomic {run : σ → κ → α × σ × List ε} (h : ∀ s k, J s → J (run s k).2.1) :
    (atomic run : Prog σ κ ε α).Stays J :=
  fun s hs => ⟨hs, fun k _ => ⟨h s k hs, trivial⟩⟩

theorem stays_await {ready : σ → Bool} {run : σ → κ → α × σ × List ε}
    (h : ∀ s k, J s → J (run s k).2.1) : (await ready run : Prog σ κ ε α).Stays J :=
  fun s hs => ⟨hs, fun k _ => ⟨h s k hs, trivial⟩⟩

theorem yields_bind {P : σ → β → Prop} {first : Prog σ κ ε β} {rest : β → Prog σ κ ε α}
    (hf : first.Yields C P s) (hr : ∀ s value, P s value → (rest value).Yields C Q s) :
    (first >>= rest).Yields C Q s := by
  change (first.bind rest).Yields C Q s
  induction first generalizing s with
  | ret value => exact hr s value hf
  | act ready effect next ih =>
    intro k hk
    obtain ⟨hready, hnext⟩ := hf k hk
    exact ⟨hready, ih s k hnext⟩

theorem yields_await {ready : σ → Bool} {run : σ → κ → α × σ × List ε}
    (h : ∀ k, C s k → ready s = true ∧ Q (run s k).2.1 (run s k).1) :
    (await ready run : Prog σ κ ε α).Yields C Q s :=
  h

theorem yields_atomic {run : σ → κ → α × σ × List ε}
    (h : ∀ k, C s k → Q (run s k).2.1 (run s k).1) :
    (atomic run : Prog σ κ ε α).Yields C Q s :=
  fun k hk => ⟨rfl, h k hk⟩

theorem Yields.mono {Q' : σ → α → Prop} (h : p.Yields C Q s)
    (hQ : ∀ s value, Q s value → Q' s value) : p.Yields C Q' s := by
  induction p generalizing s with
  | ret value => exact hQ s value h
  | act ready effect next ih => exact fun k hk => ⟨(h k hk).1, ih s k (h k hk).2⟩

/-- A program that yields has a run to its end. -/
theorem Yields.runs (h : p.Yields C Q s) (allowed : ∀ s, ∃ k, C s k) :
    ∃ s' value, p.Runs s (ret value) s' ∧ Q s' value := by
  induction p generalizing s with
  | ret value => exact ⟨s, value, .here, h⟩
  | act ready effect next ih =>
    obtain ⟨k, hk⟩ := allowed s
    obtain ⟨hready, hnext⟩ := h k hk
    obtain ⟨s', value, runs, hQ⟩ := ih s k hnext
    exact ⟨s', value, .act k hready runs, hQ⟩

end Rules

/-- The program that is left after some actions, and the state in which it is cut off there. -/
def cutOff : Prog σ κ ε α → (ℕ → κ) → ℕ → σ → Prog σ κ ε α × σ
  | p, _, 0, s => (p, s)
  | ret value, _, _ + 1, s => (ret value, s)
  | act ready effect next, answers, n + 1, s =>
    if ready s (answers 0) then
      (next s (answers 0)).cutOff (fun m => answers (m + 1)) n (effect s (answers 0)).1
    else (act ready effect next, s)

theorem runs_cutOff (p : Prog σ κ ε α) (answers : ℕ → κ) (n : ℕ) (s : σ) :
    p.Runs s (p.cutOff answers n s).1 (p.cutOff answers n s).2 := by
  induction n generalizing p answers s with
  | zero =>
    unfold cutOff
    exact .here
  | succ n ih =>
    cases p with
    | ret value => exact .here
    | act ready effect next =>
      unfold cutOff
      split
      next hready => exact .act (answers 0) hready (ih _ _ _)
      next => exact .here

/-- A condition on what a program returns, with one part for each outcome. -/
def Ends (P : σ → β → Prop) (E : σ → η → Prop) (s : σ) : Except η β → Prop
  | .ok value => P s value
  | .error e => E s e

section Except

variable {J : σ → Prop} {C : σ → κ → Prop} {P : σ → β → Prop} {Q : σ → α → Prop}
  {E : σ → η → Prop} {s : σ} {first : ExceptT η (Prog σ κ ε) β}
  {rest : β → ExceptT η (Prog σ κ ε) α}

theorem always_try (hf : first.run.Always J (Ends P E) s)
    (hr : ∀ s value, J s → P s value → (rest value).run.Always J (Ends Q E) s) :
    (first >>= rest).run.Always J (Ends Q E) s := by
  refine always_bind hf ?_
  intro s result hs hresult
  cases result with
  | ok value => exact hr s value hs hresult
  | error e => exact ⟨hs, hresult⟩

theorem yields_try (hf : first.run.Yields C (Ends P E) s)
    (hr : ∀ s value, P s value → (rest value).run.Yields C (Ends Q E) s) :
    (first >>= rest).run.Yields C (Ends Q E) s := by
  refine yields_bind hf ?_
  intro s result hresult
  cases result with
  | ok value => exact hr s value hresult
  | error e => exact hresult

theorem always_lift {p : Prog σ κ ε β} (h : p.Always J P s) :
    (ExceptT.lift p : ExceptT η (Prog σ κ ε) β).run.Always J (Ends P E) s :=
  always_bind h fun _ _ hs hP => ⟨hs, hP⟩

theorem yields_lift {p : Prog σ κ ε β} (h : p.Yields C P s) :
    (ExceptT.lift p : ExceptT η (Prog σ κ ε) β).run.Yields C (Ends P E) s :=
  yields_bind h fun _ _ hP => hP

end Except

end Prog

end Interleaving
