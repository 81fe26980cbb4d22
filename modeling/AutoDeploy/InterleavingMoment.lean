import AutoDeploy.InterleavingTrace

namespace Interleaving

variable {σ κ ε ρ γ : Type}

/-- The shared state after this history. -/
def now (s₀ : σ) (history : List (Record σ ε ρ γ)) : σ :=
  ((steps history).getLast?.map Step.after).getD s₀

def Record.call : Record σ ε ρ γ → γ
  | .called _ call | .acted _ call _ | .returned _ call _ => call

section Moment

variable {program : γ → Prog σ κ ε ρ} {s₀ : σ} {cfg : Config σ κ ε ρ γ}
  {history pre post : List (Record σ ε ρ γ)} {t : ℕ} {call : γ} {value : ρ} {step : Step σ ε}

@[simp] theorem now_nil : now s₀ ([] : List (Record σ ε ρ γ)) = s₀ := rfl

@[simp] theorem now_called : now s₀ (history ++ [.called t call]) = now s₀ history := by
  simp [now]

@[simp] theorem now_returned : now s₀ (history ++ [.returned t call value]) = now s₀ history := by
  simp [now]

@[simp] theorem now_acted : now s₀ (history ++ [.acted t call step]) = step.after := by
  simp [now]

/-- The state some time after a step is what that step or a later one has left. -/
theorem now_after {back : List (Record σ ε ρ γ)} : ∃ later ∈ step :: steps back,
    now s₀ (history ++ .acted t call step :: back) = later.after := by
  have hsteps : steps (history ++ .acted t call step :: back) =
      steps history ++ step :: steps back := by
    rw [steps_append]
    rfl
  refine ⟨(step :: steps back).getLast (List.cons_ne_nil _ _), List.getLast_mem _, ?_⟩
  rw [now, hsteps, List.getLast?_append_of_ne_nil _ (List.cons_ne_nil _ _),
    List.getLast?_eq_some_getLast (List.cons_ne_nil _ _)]
  rfl

theorem reaches_now (reach : Reaches program s₀ cfg) : cfg.shared = now s₀ cfg.history := by
  induction reach with
  | start => rfl
  | next _ move ih =>
    cases move with
    | call call => simpa [Config.begin] using ih
    | act k ht hready => simp [Config.perform]
    | ret ht => simpa [Config.finish] using ih

theorem now_mem_visited : now s₀ history ∈ visited s₀ history := by
  unfold now visited
  cases h : (steps history).getLast? with
  | none => simp
  | some step =>
    refine List.mem_cons_of_mem _ (List.mem_map.mpr ⟨step, List.mem_of_getLast? h, rfl⟩)

/-- Every beginning of a run is a run. -/
theorem reaches_prefix (reach : Reaches program s₀ cfg) (h : cfg.history = pre ++ post) :
    ∃ there : Config σ κ ε ρ γ, Reaches program s₀ there ∧ there.history = pre := by
  induction reach generalizing post with
  | start =>
    obtain ⟨rfl, -⟩ := List.append_eq_nil_iff.mp h.symm
    exact ⟨_, .start, rfl⟩
  | @next cfg cfg' before move ih =>
    rcases List.eq_nil_or_concat post with rfl | ⟨front, last, rfl⟩
    · rw [List.append_nil] at h
      exact ⟨cfg', before.next move, h⟩
    · rw [List.concat_eq_append, ← List.append_assoc] at h
      cases move with
      | call call => exact ih (List.append_inj' h rfl).1
      | act k ht hready => exact ih (List.append_inj' h rfl).1
      | ret ht => exact ih (List.append_inj' h rfl).1

/-- A step starts from the state in which its history left the pool. -/
theorem acted_before (reach : Reaches program s₀ cfg)
    (h : cfg.history = pre ++ .acted t call step :: post) : step.before = now s₀ pre := by
  obtain ⟨there, hreach, hhistory, hshared⟩ := reaches_before reach h
  rw [← hshared, reaches_now hreach, hhistory]

/-- Every record carries the call of its thread. -/
theorem record_thread (reach : Reaches program s₀ cfg) : ∀ record ∈ cfg.history,
    ∃ rest, cfg.threads[record.thread]? = some ⟨record.call, rest⟩ := by
  induction reach with
  | start => simp
  | @next cfg cfg' _ move ih =>
    have hset : ∀ {t : ℕ} {call : γ} {rest rest' : Option (Prog σ κ ε ρ)},
        cfg.threads[t]? = some ⟨call, rest⟩ → ∀ (u : ℕ) (other : γ),
        (∃ old, cfg.threads[u]? = some ⟨other, old⟩) →
        ∃ old, (cfg.threads.set t ⟨call, rest'⟩)[u]? = some ⟨other, old⟩ := by
      rintro t call rest rest' ht u other ⟨old, hu⟩
      by_cases he : t = u
      · subst he
        cases Option.some.inj (ht.symm.trans hu)
        exact ⟨rest', List.getElem?_set_self (List.getElem?_eq_some_iff.mp ht).1⟩
      · exact ⟨old, by rw [List.getElem?_set_ne he, hu]⟩
    intro record hm
    cases move with
    | call call =>
      simp only [Config.begin, List.mem_append, List.mem_singleton] at hm ⊢
      rcases hm with hm | rfl
      · obtain ⟨rest, ht⟩ := ih record hm
        exact ⟨rest, by rw [List.getElem?_append_left (List.getElem?_eq_some_iff.mp ht).1, ht]⟩
      · exact ⟨some (program call), by simp [Record.thread, Record.call]⟩
    | act k ht hready =>
      simp only [Config.perform, List.mem_append, List.mem_singleton] at hm ⊢
      rcases hm with hm | rfl
      · exact hset ht _ _ (ih record hm)
      · exact hset ht _ _ ⟨_, ht⟩
    | ret ht =>
      simp only [Config.finish, List.mem_append, List.mem_singleton] at hm ⊢
      rcases hm with hm | rfl
      · exact hset ht _ _ (ih record hm)
      · exact hset ht _ _ ⟨_, ht⟩

theorem record_call (reach : Reaches program s₀ cfg) {record other : Record σ ε ρ γ}
    (hr : record ∈ cfg.history) (ho : other ∈ cfg.history) (h : record.thread = other.thread) :
    record.call = other.call := by
  obtain ⟨rest, ht⟩ := record_thread reach record hr
  obtain ⟨rest', ht'⟩ := record_thread reach other ho
  rw [h, ht'] at ht
  exact (congrArg Thread.call (Option.some.inj ht)).symm

theorem thread_lt (reach : Reaches program s₀ cfg) {record : Record σ ε ρ γ}
    (hm : record ∈ cfg.history) : record.thread < cfg.threads.length := by
  obtain ⟨rest, ht⟩ := record_thread reach record hm
  exact (List.getElem?_eq_some_iff.mp ht).1

/-- A step among those of a thread, with its place in the history. -/
theorem ownSteps_split {front back : List (Step σ ε)}
    (h : ownSteps t history = front ++ step :: back) :
    ∃ before call after, history = before ++ .acted t call step :: after ∧
      ownSteps t after = back := by
  obtain ⟨before, rest, rfl, -, hrest⟩ := List.filterMap_eq_append_iff.mp h
  obtain ⟨skipped, record, after, rfl, hskipped, hrecord, hafter⟩ :=
    List.filterMap_eq_cons_iff.mp hrest
  cases record with
  | acted u call other =>
    by_cases he : u = t
    · subst he
      simp only [Record.stepOf, ↓reduceIte, Option.some.injEq] at hrecord
      subst hrecord
      exact ⟨before ++ skipped, call, after, by simp, hafter⟩
    · simp [Record.stepOf, he] at hrecord
  | called u call => cases hrecord
  | returned u call value => cases hrecord

/-- What holds at a moment holds later, if every step since then keeps it. -/
theorem now_kept (reach : Reaches program s₀ cfg) {P : σ → Prop}
    {early late : List (Record σ ε ρ γ)} (h : cfg.history = early ++ late)
    (start : P (now s₀ early)) (kept : ∀ step ∈ steps late, P step.before → P step.after) :
    P (now s₀ (early ++ late)) := by
  induction reach generalizing late with
  | start =>
    obtain ⟨rfl, rfl⟩ := List.append_eq_nil_iff.mp h.symm
    exact start
  | @next cfg cfg' before move ih =>
    rcases List.eq_nil_or_concat late with rfl | ⟨front, last, rfl⟩
    · rwa [List.append_nil]
    · rw [List.concat_eq_append, ← List.append_assoc] at h ⊢
      rw [List.concat_eq_append] at kept
      have hfront : ∀ step ∈ steps front, P step.before → P step.after := fun step hm =>
        kept step (by rw [steps_append]; exact List.mem_append_left _ hm)
      cases move with
      | call call =>
        obtain ⟨hhistory, hlast⟩ := List.append_inj' h rfl
        cases hlast
        rw [now_called]
        exact ih hhistory hfront
      | act k ht hready =>
        obtain ⟨hhistory, hlast⟩ := List.append_inj' h rfl
        cases hlast
        rw [now_acted]
        refine kept _ (by simp) ?_
        have hnow := ih hhistory hfront
        rw [← hhistory, ← reaches_now before] at hnow
        exact hnow
      | ret ht =>
        obtain ⟨hhistory, hlast⟩ := List.append_inj' h rfl
        cases hlast
        rw [now_returned]
        exact ih hhistory hfront

/-- A thread leaves no record before it is called. -/
theorem called_first (reach : Reaches program s₀ cfg)
    (h : cfg.history = pre ++ .called t call :: post) : ∀ record ∈ pre, record.thread ≠ t := by
  induction reach generalizing post with
  | start => simp at h
  | next before move ih =>
    cases move with
    | call other =>
      rcases history_concat h with ⟨-, hh, he⟩ | ⟨front, -, hh⟩
      · cases he
        intro record hm
        rw [← hh] at hm
        exact Nat.ne_of_lt (thread_lt before hm)
      · exact ih hh
    | act k ht hready =>
      rcases history_concat h with ⟨-, -, he⟩ | ⟨front, -, hh⟩
      · cases he
      · exact ih hh
    | ret ht =>
      rcases history_concat h with ⟨-, -, he⟩ | ⟨front, -, hh⟩
      · cases he
      · exact ih hh

/-- A record of a thread stands behind the call of the thread. -/
theorem split_after_call (reach : Reaches program s₀ cfg) {record : Record σ ε ρ γ}
    {mid rest : List (Record σ ε ρ γ)} (h : cfg.history = pre ++ .called t call :: post)
    (hrecord : cfg.history = mid ++ record :: rest) (hthread : record.thread = t)
    (hne : record ≠ .called t call) : ∃ late, mid = pre ++ .called t call :: late := by
  have hfirst := called_first reach h
  rw [h] at hrecord
  rcases List.append_eq_append_iff.mp hrecord with ⟨late, rfl, hlate⟩ | ⟨late, rfl, hlate⟩
  · cases late with
    | nil => exact absurd (List.cons.inj hlate).1.symm hne
    | cons first late =>
      obtain ⟨rfl, -⟩ := List.cons.inj hlate
      exact ⟨late, rfl⟩
  · cases late with
    | nil => exact absurd (List.cons.inj hlate).1 hne
    | cons first late =>
      obtain ⟨rfl, -⟩ := List.cons.inj hlate
      exact absurd hthread (hfirst _ (by simp))

/-- A step of a thread leaves every thread its call. -/
theorem set_called {threads : List (Thread σ κ ε ρ γ)} {u : ℕ} {other : γ}
    {old new rest : Option (Prog σ κ ε ρ)} (hu : threads[u]? = some ⟨other, old⟩)
    (h : (threads.set u ⟨other, new⟩)[t]? = some ⟨call, rest⟩) :
    ∃ before, threads[t]? = some ⟨call, before⟩ := by
  by_cases he : u = t
  · subst he
    rw [List.getElem?_set_self (List.getElem?_eq_some_iff.mp hu).1] at h
    cases h
    exact ⟨old, hu⟩
  · rw [List.getElem?_set_ne he] at h
    exact ⟨rest, h⟩

/-- The call of a thread is recorded. -/
theorem thread_called (reach : Reaches program s₀ cfg) {rest : Option (Prog σ κ ε ρ)}
    (h : cfg.threads[t]? = some ⟨call, rest⟩) : .called t call ∈ cfg.history := by
  induction reach generalizing rest with
  | start => simp at h
  | @next cfg cfg' before move ih =>
    cases move with
    | call other =>
      simp only [Config.begin, List.mem_append, List.mem_singleton] at h ⊢
      by_cases hlt : t < cfg.threads.length
      · rw [List.getElem?_append_left hlt] at h
        exact Or.inl (ih h)
      · rw [List.getElem?_append_right (by omega), List.getElem?_singleton] at h
        split at h
        next =>
          cases h
          have ht : t = cfg.threads.length := by omega
          exact Or.inr (by rw [ht])
        next => cases h
    | act k hu hready =>
      obtain ⟨_, hbefore⟩ := set_called hu h
      exact List.mem_append_left _ (ih hbefore)
    | ret hu =>
      obtain ⟨_, hbefore⟩ := set_called hu h
      exact List.mem_append_left _ (ih hbefore)

/-- A thread with no program left has returned. -/
theorem done_returned (reach : Reaches program s₀ cfg) (h : cfg.threads[t]? = some ⟨call, none⟩) :
    ∃ value, .returned t call value ∈ cfg.history := by
  induction reach with
  | start => simp at h
  | @next cfg cfg' before move ih =>
    cases move with
    | call other =>
      simp only [Config.begin] at h ⊢
      by_cases hlt : t < cfg.threads.length
      · rw [List.getElem?_append_left hlt] at h
        obtain ⟨value, hm⟩ := ih h
        exact ⟨value, List.mem_append_left _ hm⟩
      · rw [List.getElem?_append_right (by omega), List.getElem?_singleton] at h
        split at h
        next => cases h
        next => cases h
    | @act u other _ _ _ k hu hready =>
      simp only [Config.perform] at h ⊢
      by_cases he : u = t
      · subst he
        rw [List.getElem?_set_self (List.getElem?_eq_some_iff.mp hu).1] at h
        cases h
      · rw [List.getElem?_set_ne he] at h
        obtain ⟨value, hm⟩ := ih h
        exact ⟨value, List.mem_append_left _ hm⟩
    | @ret u other result hu =>
      simp only [Config.finish] at h ⊢
      by_cases he : u = t
      · subst he
        rw [List.getElem?_set_self (List.getElem?_eq_some_iff.mp hu).1] at h
        cases h
        exact ⟨result, by simp⟩
      · rw [List.getElem?_set_ne he] at h
        obtain ⟨value, hm⟩ := ih h
        exact ⟨value, List.mem_append_left _ hm⟩

/-- Once everyone has returned, what holds of the steps of a call at its return, and of no steps,
holds of the steps of every thread. -/
theorem all_returned (reach : Reaches program s₀ cfg)
    (hdone : ∀ thread ∈ cfg.threads, thread.rest = none) {P : List (Step σ ε) → Prop}
    (hnil : P []) (h : ∀ t call value, .returned t call value ∈ cfg.history →
      P (ownSteps t cfg.history)) (t : ℕ) : P (ownSteps t cfg.history) := by
  cases ht : cfg.threads[t]? with
  | none =>
    rw [ownSteps_other]
    · exact hnil
    · rintro record hm rfl
      have hlt := thread_lt reach hm
      rw [List.getElem?_eq_none_iff] at ht
      omega
  | some thread =>
    obtain ⟨call, rest⟩ := thread
    have hrest : rest = none := hdone _ (List.mem_of_getElem? ht)
    subst hrest
    obtain ⟨value, hm⟩ := done_returned reach ht
    exact h t call value hm

/-- Before a thread acts it is called. -/
theorem acted_called (reach : Reaches program s₀ cfg)
    (h : cfg.history = pre ++ .acted t call step :: post) :
    ∃ front late, pre = front ++ .called t call :: late := by
  have hacted : .acted t call step ∈ cfg.history := by
    rw [h]
    exact List.mem_append_right _ List.mem_cons_self
  obtain ⟨rest, ht⟩ := record_thread reach _ hacted
  obtain ⟨front, back, hfront⟩ := List.append_of_mem (thread_called reach ht)
  obtain ⟨late, hlate⟩ := split_after_call reach hfront h rfl (by simp)
  exact ⟨front, late, hlate⟩

/-- A call of a run, from its start to its return. -/
def Spans (history pre mid post : List (Record σ ε ρ γ)) (t : ℕ) (call : γ) (value : ρ) : Prop :=
  history = pre ++ .called t call :: mid ++ .returned t call value :: post

theorem Spans.returned {mid : List (Record σ ε ρ γ)}
    (h : Spans history pre mid post t call value) : .returned t call value ∈ history := by
  rw [h]
  exact List.mem_append_right _ List.mem_cons_self

/-- The run up to a return is a run, in which the call has taken all its steps. -/
theorem reaches_span {mid : List (Record σ ε ρ γ)} (reach : Reaches program s₀ cfg)
    (h : Spans cfg.history pre mid post t call value) :
    ∃ there : Config σ κ ε ρ γ, Reaches program s₀ there ∧
      there.history = pre ++ .called t call :: mid ∧
      ownSteps t there.history = ownSteps t cfg.history := by
  obtain ⟨there, hreach, hhistory⟩ := reaches_prefix reach h
  refine ⟨there, hreach, hhistory, ?_⟩
  rw [hhistory, ownSteps_final reach h]

end Moment

end Interleaving
