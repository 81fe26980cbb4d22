import AutoDeploy.InterleavingRun
import Mathlib.Data.List.Chain

namespace Interleaving

variable {σ κ ε ρ γ : Type}

/-- The shared states of a run, in order. -/
def visited (s₀ : σ) (history : List (Record σ ε ρ γ)) : List σ :=
  s₀ :: (steps history).map Step.after

section Visited

variable {program : γ → Prog σ κ ε ρ} {s₀ : σ} {cfg : Config σ κ ε ρ γ}
  {history : List (Record σ ε ρ γ)} {t : ℕ} {call : γ}

@[simp] theorem visited_called : visited s₀ (history ++ [.called t call]) = visited s₀ history := by
  simp [visited]

@[simp] theorem visited_returned {value : ρ} :
    visited s₀ (history ++ [.returned t call value]) = visited s₀ history := by
  simp [visited]

@[simp] theorem visited_acted {step : Step σ ε} :
    visited s₀ (history ++ [.acted t call step]) = visited s₀ history ++ [step.after] := by
  simp [visited]

theorem visited_prefix {s : σ} {late : List (Record σ ε ρ γ)} (h : s ∈ visited s₀ history) :
    s ∈ visited s₀ (history ++ late) := by
  unfold visited at h ⊢
  rw [steps_append, List.map_append, ← List.cons_append]
  exact List.mem_append_left _ h

theorem visited_getLast (reach : Reaches program s₀ cfg) :
    (visited s₀ cfg.history).getLast? = some cfg.shared := by
  induction reach with
  | start => rfl
  | next _ move ih =>
    cases move with
    | call call => simpa [Config.begin] using ih
    | act k ht hready => simp [Config.perform]
    | ret ht => simpa [Config.finish] using ih

theorem shared_mem_visited (reach : Reaches program s₀ cfg) :
    cfg.shared ∈ visited s₀ cfg.history :=
  List.mem_of_getLast? (visited_getLast reach)

/-- A relation that holds across every step holds between neighbours in the run. -/
theorem visited_chain (reach : Reaches program s₀ cfg) {S : σ → σ → Prop}
    (h : ∀ step ∈ steps cfg.history, S step.before step.after) :
    (visited s₀ cfg.history).IsChain S := by
  induction reach with
  | start => exact List.IsChain.singleton s₀
  | next before move ih =>
    cases move with
    | call call => simpa [Config.begin] using ih (by simpa [Config.begin] using h)
    | act k ht hready =>
      simp only [Config.perform, steps_acted, List.mem_append, List.mem_singleton] at h
      rw [Config.perform, visited_acted]
      refine (ih fun step hm => h step (Or.inl hm)).append (List.IsChain.singleton _) ?_
      intro x hx y hy
      rw [visited_getLast before, Option.mem_some_iff] at hx
      rw [List.head?_cons, Option.mem_some_iff] at hy
      subst hx hy
      exact h _ (Or.inr rfl)
    | ret ht => simpa [Config.finish] using ih (by simpa [Config.finish] using h)

/-- An invariant that every step keeps holds in every state of the run. -/
theorem visited_invariant (reach : Reaches program s₀ cfg) {P : σ → Prop} (start : P s₀)
    (h : ∀ step ∈ steps cfg.history, P step.before → P step.after) :
    ∀ s ∈ visited s₀ cfg.history, P s := by
  have hchain := visited_chain reach (S := fun s s' => P s → P s') h
  unfold visited at hchain ⊢
  generalize (steps cfg.history).map Step.after = rest at hchain ⊢
  clear reach h
  induction rest generalizing s₀ with
  | nil =>
    intro s hm
    rw [List.mem_singleton.mp hm]
    exact start
  | cons second rest ih =>
    rw [List.isChain_cons_cons] at hchain
    intro s hm
    rcases List.mem_cons.mp hm with rfl | hm
    · exact start
    · exact ih (hchain.1 start) hchain.2 s hm

/-- The run up to an action is a run that ends in the state the action started from. -/
theorem reaches_before (reach : Reaches program s₀ cfg) {pre post : List (Record σ ε ρ γ)}
    {step : Step σ ε} (h : cfg.history = pre ++ .acted t call step :: post) :
    ∃ there : Config σ κ ε ρ γ,
      Reaches program s₀ there ∧ there.history = pre ∧ there.shared = step.before := by
  induction reach generalizing post with
  | start => simp at h
  | next before move ih =>
    cases move with
    | call call =>
      rcases history_concat h with ⟨-, -, he⟩ | ⟨front, -, hh⟩
      · cases he
      · exact ih hh
    | act k ht hready =>
      rcases history_concat h with ⟨-, hh, he⟩ | ⟨front, -, hh⟩
      · cases he
        exact ⟨_, before, hh, rfl⟩
      · exact ih hh
    | ret ht =>
      rcases history_concat h with ⟨-, -, he⟩ | ⟨front, -, hh⟩
      · cases he
      · exact ih hh

/-- A thread that has returned has no program left. -/
theorem returned_done (reach : Reaches program s₀ cfg) {value : ρ}
    (hm : .returned t call value ∈ cfg.history) : cfg.threads[t]? = some ⟨call, none⟩ := by
  induction reach with
  | start => simp at hm
  | next before move ih =>
    cases move with
    | call other =>
      have ht := ih (by simpa [Config.begin] using hm)
      obtain ⟨hlt, -⟩ := List.getElem?_eq_some_iff.mp ht
      simp only [Config.begin]
      rw [List.getElem?_append_left hlt]
      exact ht
    | @act u other ready effect next k hu hready =>
      have ht := ih (by simpa [Config.perform] using hm)
      have hne : u ≠ t := by
        rintro rfl
        rw [ht] at hu
        simp at hu
      simp only [Config.perform]
      rw [List.getElem?_set_ne hne]
      exact ht
    | @ret u other result hu =>
      simp only [Config.finish, List.mem_append, List.mem_singleton] at hm ⊢
      rcases hm with hm | hlast
      · have ht := ih hm
        have hne : u ≠ t := by
          rintro rfl
          rw [ht] at hu
          simp at hu
        rw [List.getElem?_set_ne hne]
        exact ht
      · cases hlast
        exact List.getElem?_set_self (List.getElem?_eq_some_iff.mp hu).1

/-- A thread that has returned leaves no further records. -/
theorem returned_last (reach : Reaches program s₀ cfg) {pre post : List (Record σ ε ρ γ)}
    {value : ρ} (h : cfg.history = pre ++ .returned t call value :: post) :
    ∀ record ∈ post, record.thread ≠ t := by
  induction reach generalizing post with
  | start => simp at h
  | @next cfg cfg' before move ih =>
    have hdone : ∀ {front : List (Record σ ε ρ γ)},
        cfg.history = pre ++ .returned t call value :: front →
        cfg.threads[t]? = some ⟨call, none⟩ := by
      intro front hh
      apply returned_done before
      rw [hh]
      exact List.mem_append_right _ List.mem_cons_self
    cases move with
    | call other =>
      rcases history_concat h with ⟨-, -, he⟩ | ⟨front, rfl, hh⟩
      · cases he
      · obtain ⟨hlt, -⟩ := List.getElem?_eq_some_iff.mp (hdone hh)
        intro record hm
        rcases List.mem_append.mp hm with hm | hm
        · exact ih hh record hm
        · rw [List.mem_singleton.mp hm]
          exact Nat.ne_of_gt hlt
    | @act u other ready effect next k hu hready =>
      rcases history_concat h with ⟨-, -, he⟩ | ⟨front, rfl, hh⟩
      · cases he
      · intro record hm
        rcases List.mem_append.mp hm with hm | hm
        · exact ih hh record hm
        · rw [List.mem_singleton.mp hm]
          change u ≠ t
          rintro rfl
          rw [hdone hh] at hu
          simp at hu
    | @ret u other result hu =>
      rcases history_concat h with ⟨rfl, -, -⟩ | ⟨front, rfl, hh⟩
      · simp
      · intro record hm
        rcases List.mem_append.mp hm with hm | hm
        · exact ih hh record hm
        · rw [List.mem_singleton.mp hm]
          change u ≠ t
          rintro rfl
          rw [hdone hh] at hu
          simp at hu

theorem ownSteps_other {history : List (Record σ ε ρ γ)}
    (h : ∀ record ∈ history, record.thread ≠ t) : ownSteps t history = [] := by
  apply List.filterMap_eq_nil_iff.mpr
  intro record hm
  cases record with
  | acted u call step =>
    have hne : u ≠ t := h _ hm
    simp [Record.stepOf, hne]
  | called u call => rfl
  | returned u call value => rfl

/-- The steps of a call are those it took before it returned. -/
theorem ownSteps_final (reach : Reaches program s₀ cfg) {pre post : List (Record σ ε ρ γ)}
    {value : ρ} (h : cfg.history = pre ++ .returned t call value :: post) :
    ownSteps t cfg.history = ownSteps t pre := by
  have hpost := ownSteps_other (returned_last reach h)
  unfold ownSteps at hpost ⊢
  rw [h, List.filterMap_append, List.filterMap_cons, hpost]
  simp [Record.stepOf]

theorem before_mem_visited (reach : Reaches program s₀ cfg) {step : Step σ ε}
    (hm : step ∈ steps cfg.history) : step.before ∈ visited s₀ cfg.history := by
  obtain ⟨t, call, hm⟩ := mem_steps.mp hm
  obtain ⟨pre, post, hsplit⟩ := List.append_of_mem hm
  obtain ⟨there, hreach, hhistory, hshared⟩ := reaches_before reach hsplit
  have hvisited := shared_mem_visited hreach
  rw [hshared, hhistory] at hvisited
  rw [hsplit]
  exact visited_prefix hvisited

end Visited

/-- One turn of an executable schedule: a new call, or what a thread does next. -/
inductive Turn (κ γ : Type)
  | call (call : γ)
  | run (thread : ℕ) (choice : κ)

/-- A call whose program runs for some actions while the others wait. -/
def solo (call : γ) (thread actions : ℕ) (choice : κ) : List (Turn κ γ) :=
  .call call :: List.replicate actions (.run thread choice)

/-- A turn that is not possible changes nothing. -/
def Config.turn (program : γ → Prog σ κ ε ρ) (cfg : Config σ κ ε ρ γ) :
    Turn κ γ → Config σ κ ε ρ γ
  | .call call => cfg.begin program call
  | .run t k =>
    match cfg.threads[t]? with
    | some ⟨call, some (.act ready effect next)⟩ =>
      if ready cfg.shared k then
        cfg.perform t call (effect cfg.shared k) (next cfg.shared k)
      else cfg
    | some ⟨call, some (.ret value)⟩ => cfg.finish t call value
    | _ => cfg

def play (program : γ → Prog σ κ ε ρ) (s₀ : σ) (turns : List (Turn κ γ)) : Config σ κ ε ρ γ :=
  turns.foldl (Config.turn program) ⟨s₀, [], []⟩

theorem reaches_turn {program : γ → Prog σ κ ε ρ} {s₀ : σ} {cfg : Config σ κ ε ρ γ}
    (reach : Reaches program s₀ cfg) (turn : Turn κ γ) :
    Reaches program s₀ (cfg.turn program turn) := by
  cases turn with
  | call call => exact reach.next (.call cfg call)
  | run t k =>
    simp only [Config.turn]
    split
    next call ready effect next ht =>
      split
      next hready => exact reach.next (.act k ht hready)
      next => exact reach
    next call value ht => exact reach.next (.ret ht)
    next => exact reach

/-- Whatever a schedule plays is a run of the pool. -/
theorem reaches_play (program : γ → Prog σ κ ε ρ) (s₀ : σ) (turns : List (Turn κ γ)) :
    Reaches program s₀ (play program s₀ turns) := by
  unfold play
  induction turns using List.reverseRecOn with
  | nil => exact .start
  | append_singleton turns turn ih =>
    rw [List.foldl_append]
    exact reaches_turn ih turn

end Interleaving
