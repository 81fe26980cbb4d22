import AutoDeploy.InterleavingProg
import Mathlib.Data.List.Induction

namespace Interleaving

variable {σ κ ε ρ γ : Type}

/-- A call and what is left of its program; nothing is left once it has returned. -/
structure Thread (σ κ ε ρ γ : Type) where
  call : γ
  rest : Option (Prog σ κ ε ρ)

inductive Record (σ ε ρ γ : Type)
  | called (thread : ℕ) (call : γ)
  | acted (thread : ℕ) (call : γ) (step : Step σ ε)
  | returned (thread : ℕ) (call : γ) (value : ρ)

structure Config (σ κ ε ρ γ : Type) where
  shared : σ
  threads : List (Thread σ κ ε ρ γ)
  history : List (Record σ ε ρ γ)

namespace Config

def begin (cfg : Config σ κ ε ρ γ) (program : γ → Prog σ κ ε ρ) (call : γ) : Config σ κ ε ρ γ :=
  { cfg with
    threads := cfg.threads ++ [⟨call, some (program call)⟩]
    history := cfg.history ++ [.called cfg.threads.length call] }

def perform (cfg : Config σ κ ε ρ γ) (t : ℕ) (call : γ) (effect : σ × List ε)
    (rest : Prog σ κ ε ρ) : Config σ κ ε ρ γ where
  shared := effect.1
  threads := cfg.threads.set t ⟨call, some rest⟩
  history := cfg.history ++ [.acted t call ⟨cfg.shared, effect.2, effect.1⟩]

def finish (cfg : Config σ κ ε ρ γ) (t : ℕ) (call : γ) (value : ρ) : Config σ κ ε ρ γ :=
  { cfg with
    threads := cfg.threads.set t ⟨call, none⟩
    history := cfg.history ++ [.returned t call value] }

end Config

/-- One step of the pool: a new call, one action of one thread, or a return. -/
inductive Moves (program : γ → Prog σ κ ε ρ) : Config σ κ ε ρ γ → Config σ κ ε ρ γ → Prop
  | call (cfg : Config σ κ ε ρ γ) (call : γ) : Moves program cfg (cfg.begin program call)
  | act {cfg : Config σ κ ε ρ γ} {t : ℕ} {call : γ} {ready : σ → κ → Bool}
      {effect : σ → κ → σ × List ε} {next : σ → κ → Prog σ κ ε ρ} (k : κ) :
      cfg.threads[t]? = some ⟨call, some (.act ready effect next)⟩ →
      ready cfg.shared k = true →
      Moves program cfg (cfg.perform t call (effect cfg.shared k) (next cfg.shared k))
  | ret {cfg : Config σ κ ε ρ γ} {t : ℕ} {call : γ} {value : ρ} :
      cfg.threads[t]? = some ⟨call, some (.ret value)⟩ →
      Moves program cfg (cfg.finish t call value)

/-- The configurations that the pool reaches from a shared state, in any order of steps. -/
inductive Reaches (program : γ → Prog σ κ ε ρ) (s₀ : σ) : Config σ κ ε ρ γ → Prop
  | start : Reaches program s₀ ⟨s₀, [], []⟩
  | next {cfg cfg' : Config σ κ ε ρ γ} : Reaches program s₀ cfg → Moves program cfg cfg' →
      Reaches program s₀ cfg'

def Record.thread : Record σ ε ρ γ → ℕ
  | .called t _ | .acted t _ _ | .returned t _ _ => t

def Record.stepOf (t : ℕ) : Record σ ε ρ γ → Option (Step σ ε)
  | .acted u _ step => if u = t then some step else none
  | _ => none

def Record.step? : Record σ ε ρ γ → Option (Step σ ε)
  | .acted _ _ step => some step
  | _ => none

/-- The steps of one thread, in order. -/
def ownSteps (t : ℕ) (history : List (Record σ ε ρ γ)) : List (Step σ ε) :=
  history.filterMap (Record.stepOf t)

/-- The steps of all threads, in order. -/
def steps (history : List (Record σ ε ρ γ)) : List (Step σ ε) :=
  history.filterMap Record.step?

def emissions (steps : List (Step σ ε)) : List ε :=
  steps.flatMap Step.emitted

section Lists

variable {t u : ℕ} {call : γ} {value : ρ} {step : Step σ ε} {history : List (Record σ ε ρ γ)}

@[simp] theorem ownSteps_called :
    ownSteps t (history ++ [.called u call]) = ownSteps t history := by
  simp [ownSteps, Record.stepOf]

@[simp] theorem ownSteps_returned :
    ownSteps t (history ++ [.returned u call value]) = ownSteps t history := by
  simp [ownSteps, Record.stepOf]

@[simp] theorem ownSteps_acted_self :
    ownSteps t (history ++ [.acted t call step]) = ownSteps t history ++ [step] := by
  simp [ownSteps, Record.stepOf]

theorem ownSteps_acted_ne (h : u ≠ t) :
    ownSteps t (history ++ [.acted u call step]) = ownSteps t history := by
  simp [ownSteps, Record.stepOf, h]

@[simp] theorem steps_called : steps (history ++ [.called u call]) = steps history := by
  simp [steps, Record.step?]

@[simp] theorem steps_returned : steps (history ++ [.returned u call value]) = steps history := by
  simp [steps, Record.step?]

@[simp] theorem steps_acted :
    steps (history ++ [.acted u call step]) = steps history ++ [step] := by
  simp [steps, Record.step?]

@[simp] theorem emissions_append (xs ys : List (Step σ ε)) :
    emissions (xs ++ ys) = emissions xs ++ emissions ys := by
  simp [emissions]

@[simp] theorem emissions_singleton : emissions [step] = step.emitted := by
  simp [emissions]

theorem steps_append (xs ys : List (Record σ ε ρ γ)) : steps (xs ++ ys) = steps xs ++ steps ys := by
  simp [steps]

theorem mem_ownSteps : step ∈ ownSteps t history ↔ ∃ call, .acted t call step ∈ history := by
  constructor
  · intro hm
    obtain ⟨record, hrecord, hs⟩ := List.mem_filterMap.mp hm
    cases record with
    | acted u call other =>
      by_cases h : u = t
      · subst h
        simp only [Record.stepOf, ↓reduceIte, Option.some.injEq] at hs
        exact ⟨call, hs ▸ hrecord⟩
      · simp [Record.stepOf, h] at hs
    | called u call => cases hs
    | returned u call value => cases hs
  · rintro ⟨call, hm⟩
    exact List.mem_filterMap.mpr ⟨_, hm, by simp [Record.stepOf]⟩

theorem mem_steps : step ∈ steps history ↔ ∃ t call, .acted t call step ∈ history := by
  constructor
  · intro hm
    obtain ⟨record, hrecord, hs⟩ := List.mem_filterMap.mp hm
    cases record with
    | acted t call other => cases hs; exact ⟨t, call, hrecord⟩
    | called t call => cases hs
    | returned t call value => cases hs
  · rintro ⟨t, call, hm⟩
    exact List.mem_filterMap.mpr ⟨_, hm, rfl⟩

theorem ownSteps_sublist (t : ℕ) (history : List (Record σ ε ρ γ)) :
    List.Sublist (ownSteps t history) (steps history) := by
  induction history with
  | nil => exact List.Sublist.slnil
  | cons entry rest ih =>
    cases entry with
    | acted u call step =>
      by_cases h : u = t
      · simpa [ownSteps, steps, Record.stepOf, Record.step?, h] using ih
      · simpa [ownSteps, steps, Record.stepOf, Record.step?, h] using ih.cons step
    | called u call =>
      simpa only [ownSteps, steps, List.filterMap_cons, Record.stepOf, Record.step?] using ih
    | returned u call value =>
      simpa only [ownSteps, steps, List.filterMap_cons, Record.stepOf, Record.step?] using ih

theorem history_concat {pre post : List (Record σ ε ρ γ)}
    {record last : Record σ ε ρ γ}
    (h : history ++ [last] = pre ++ record :: post) :
    (post = [] ∧ history = pre ∧ last = record) ∨
      ∃ front, post = front ++ [last] ∧ history = pre ++ record :: front := by
  rcases List.eq_nil_or_concat post with rfl | ⟨front, back, rfl⟩
  · obtain ⟨hh, hl⟩ := List.append_inj' h rfl
    exact Or.inl ⟨rfl, hh, List.cons.inj hl |>.1⟩
  · rw [List.concat_eq_append, ← List.cons_append, ← List.append_assoc] at h
    obtain ⟨hh, hl⟩ := List.append_inj' h rfl
    cases hl
    exact Or.inr ⟨front, by simp, hh⟩

end Lists

section Sound

variable {program : γ → Prog σ κ ε ρ} {I : σ → Prop}
  {R : γ → List (Step σ ε) → Step σ ε → Prop} {Q : γ → List (Step σ ε) → ρ → Prop}

/-- What holds of a pool whose programs are all safe. -/
structure Sound (I : σ → Prop) (R : γ → List (Step σ ε) → Step σ ε → Prop)
    (Q : γ → List (Step σ ε) → ρ → Prop) (cfg : Config σ κ ε ρ γ) : Prop where
  shared : I cfg.shared
  threads : ∀ (t : ℕ) (call : γ) (rest : Prog σ κ ε ρ),
    cfg.threads[t]? = some ⟨call, some rest⟩ →
    rest.Safe I (R call) (Q call) (ownSteps t cfg.history)
  fresh : ∀ t, cfg.threads.length ≤ t → ownSteps t cfg.history = []

theorem sound_perform {cfg : Config σ κ ε ρ γ} {t : ℕ} {call : γ} {effect : σ × List ε}
    {rest : Prog σ κ ε ρ} (sound : Sound I R Q cfg) (ht : t < cfg.threads.length)
    (hI : I effect.1)
    (hrest : rest.Safe I (R call) (Q call)
      (ownSteps t cfg.history ++ [⟨cfg.shared, effect.2, effect.1⟩])) :
    Sound I R Q (cfg.perform t call effect rest) := by
  refine ⟨hI, ?_, ?_⟩
  · intro u other p hu
    simp only [Config.perform] at hu ⊢
    by_cases he : t = u
    · subst u
      rw [List.getElem?_set_self ht] at hu
      cases Option.some.inj hu
      simpa using hrest
    · rw [List.getElem?_set_ne he] at hu
      rw [ownSteps_acted_ne he]
      exact sound.threads u other p hu
  · intro u hu
    simp only [Config.perform, List.length_set] at hu ⊢
    rw [ownSteps_acted_ne (by omega)]
    exact sound.fresh u hu

theorem sound_moves (safe : ∀ call, (program call).Safe I (R call) (Q call) [])
    (keeps : ∀ call own step, R call own step → I step.before → I step.after)
    {cfg cfg' : Config σ κ ε ρ γ} (sound : Sound I R Q cfg) (move : Moves program cfg cfg') :
    Sound I R Q cfg' := by
  cases move with
  | call call =>
    refine ⟨sound.shared, ?_, ?_⟩
    · intro t other p ht
      simp only [Config.begin, ownSteps_called] at ht ⊢
      by_cases hlt : t < cfg.threads.length
      · rw [List.getElem?_append_left hlt] at ht
        exact sound.threads t other p ht
      · rw [List.getElem?_append_right (by omega), List.getElem?_singleton] at ht
        split at ht
        next =>
          cases Option.some.inj ht
          rw [sound.fresh t (by omega)]
          exact safe call
        next => simp at ht
    · intro t ht
      simp only [Config.begin, List.length_append, List.length_singleton, ownSteps_called] at ht ⊢
      exact sound.fresh t (by omega)
  | act k ht hready =>
    obtain ⟨hR, hrest⟩ := sound.threads _ _ _ ht _ k sound.shared hready
    exact sound_perform sound (List.getElem?_eq_some_iff.mp ht).1 (keeps _ _ _ hR sound.shared)
      hrest
  | @ret t call value ht =>
    refine ⟨sound.shared, ?_, ?_⟩
    · intro u other p hu
      simp only [Config.finish, ownSteps_returned] at hu ⊢
      by_cases he : t = u
      · subst u
        rw [List.getElem?_set_self (List.getElem?_eq_some_iff.mp ht).1] at hu
        cases Option.some.inj hu
      · rw [List.getElem?_set_ne he] at hu
        exact sound.threads u other p hu
    · intro u hu
      simp only [Config.finish, List.length_set, ownSteps_returned] at hu ⊢
      exact sound.fresh u hu

theorem reaches_sound (safe : ∀ call, (program call).Safe I (R call) (Q call) [])
    (keeps : ∀ call own step, R call own step → I step.before → I step.after)
    {s₀ : σ} (hs : I s₀) {cfg : Config σ κ ε ρ γ} (reach : Reaches program s₀ cfg) :
    Sound I R Q cfg := by
  induction reach with
  | start => exact ⟨hs, by intro t call p ht; simp at ht, by intro t _; rfl⟩
  | next _ move ih => exact sound_moves safe keeps ih move

/-- Induction over the interleavings of safe programs: a property of the shared state and the
history holds at the end if calls and returns keep it and every action that satisfies `R`
does. -/
theorem reaches_invariant (safe : ∀ call, (program call).Safe I (R call) (Q call) [])
    (keeps : ∀ call own step, R call own step → I step.before → I step.after)
    {s₀ : σ} (hs : I s₀) {J : σ → List (Record σ ε ρ γ) → Prop} (start : J s₀ [])
    (called : ∀ s history t call, J s history → J s (history ++ [.called t call]))
    (acted : ∀ history t call step, I step.before → J step.before history →
      R call (ownSteps t history) step → J step.after (history ++ [.acted t call step]))
    (returned : ∀ s history t call value, I s → J s history → Q call (ownSteps t history) value →
      J s (history ++ [.returned t call value]))
    {cfg : Config σ κ ε ρ γ} (reach : Reaches program s₀ cfg) : J cfg.shared cfg.history := by
  induction reach with
  | start => exact start
  | @next cfg cfg' before move ih =>
    have sound := reaches_sound safe keeps hs before
    cases move with
    | call call => exact called _ _ _ call ih
    | act k ht hready =>
      obtain ⟨hR, -⟩ := sound.threads _ _ _ ht _ k sound.shared hready
      exact acted _ _ _ _ sound.shared ih hR
    | ret ht => exact returned _ _ _ _ _ sound.shared ih (sound.threads _ _ _ ht)

/-- What each action and each return did, seen from its place in the history. -/
def Explained (R : γ → List (Step σ ε) → Step σ ε → Prop) (Q : γ → List (Step σ ε) → ρ → Prop)
    (history : List (Record σ ε ρ γ)) : Prop :=
  ∀ pre record post, history = pre ++ record :: post →
    match record with
    | .called _ _ => True
    | .acted t call step => R call (ownSteps t pre) step
    | .returned t call value => Q call (ownSteps t pre) value

theorem explained_concat {history : List (Record σ ε ρ γ)} {last : Record σ ε ρ γ}
    (h : Explained R Q history)
    (hlast : match last with
      | .called _ _ => True
      | .acted t call step => R call (ownSteps t history) step
      | .returned t call value => Q call (ownSteps t history) value) :
    Explained R Q (history ++ [last]) := by
  intro pre record post he
  rcases history_concat he with ⟨-, rfl, rfl⟩ | ⟨front, -, hh⟩
  · exact hlast
  · exact h pre record front hh

theorem reaches_explained (safe : ∀ call, (program call).Safe I (R call) (Q call) [])
    (keeps : ∀ call own step, R call own step → I step.before → I step.after)
    {s₀ : σ} (hs : I s₀) {cfg : Config σ κ ε ρ γ} (reach : Reaches program s₀ cfg) :
    Explained R Q cfg.history :=
  reaches_invariant safe keeps hs (J := fun _ history => Explained R Q history)
    (by intro pre record post he; simp at he)
    (fun _ _ _ _ ih => explained_concat ih trivial)
    (fun _ _ _ _ _ ih hR => explained_concat ih hR)
    (fun _ _ _ _ _ _ ih hQ => explained_concat ih hQ) reach

end Sound

end Interleaving
