import AutoDeploy.CoordinatorExclusive

namespace AutoDeploy

open Interleaving

/-- The calls that a goroutine at this stage may wait for. -/
def Run.Calls (run : Run) (call : Call) : Prop :=
  match run.stage with
  | .executing => ∃ phase, call = .checkpoint run.jobID phase
  | .marking => ∃ success errMsg summary, call = .markDone run.jobID success errMsg summary
  | .logging => ∃ log, call = .saveJobLog run.jobID log
  | .ending | .ended => False

def SchedulerStage.waits : SchedulerStage → Option (ℕ × Call)
  | listing t => some (t, .listApps)
  | dequeuing app _ t => some (t, .dequeueNext app.id)
  | _ => none

/-- Some goroutine of the coordinator waits for this thread. -/
def Waits (stage : SchedulerStage) (runs : List Run) (w : ℕ × Call) : Prop :=
  stage.waits = some w ∨ SomeRun runs fun run => run.waits = some w

abbrev ServerThreads := List (Thread Server Choice StoreEvent Reply Call)

/-- Every call that still runs was made from outside, or is waited for by the goroutine that
made it. -/
structure Attended (stage : SchedulerStage) (runs : List Run) (threads : ServerThreads) : Prop where
  owned : ∀ (t : ℕ) (call : Call) (rest : Op Reply), threads[t]? = some ⟨call, some rest⟩ →
    call.external = true ∨ Waits stage runs (t, call)
  calls : ∀ (i : ℕ) (run : Run), runs[i]? = some run → ∀ w, run.waits = some w → run.Calls w.2

section Attended

variable {stage stage' : SchedulerStage} {runs runs' : List Run} {threads : ServerThreads}

theorem waits_setRun {i : ℕ} {old new : Run} {w : ℕ × Call} (hi : runs[i]? = some old)
    (keep : old.waits = some w → new.waits = some w) (h : Waits stage runs w) :
    Waits stage (runs.set i new) w :=
  h.imp id (someRun_forth hi keep)

theorem waits_stage {w : ℕ × Call} (keep : stage.waits = some w → stage'.waits = some w)
    (h : Waits stage runs w) : Waits stage' runs w :=
  h.imp keep id

theorem owned_begin {call : Call} {p : Op Reply}
    (owned : ∀ (t : ℕ) (call : Call) (rest : Op Reply), threads[t]? = some ⟨call, some rest⟩ →
      call.external = true ∨ Waits stage runs (t, call))
    (keep : ∀ w, Waits stage runs w → Waits stage' runs' w)
    (new : call.external = true ∨ Waits stage' runs' (threads.length, call)) :
    ∀ (t : ℕ) (other : Call) (rest : Op Reply),
      (threads ++ [⟨call, some p⟩])[t]? = some ⟨other, some rest⟩ →
      other.external = true ∨ Waits stage' runs' (t, other) := by
  intro t other rest ht
  by_cases hlt : t < threads.length
  · rw [List.getElem?_append_left hlt] at ht
    exact (owned t other rest ht).imp id (keep _)
  · rw [List.getElem?_append_right (by omega), List.getElem?_singleton] at ht
    split at ht
    next hz =>
      have hcall : call = other := congrArg Thread.call (Option.some.inj ht)
      have hlen : t = threads.length := by omega
      subst hcall hlen
      exact new
    next => simp at ht

theorem owned_finish {u : ℕ} {call : Call}
    (owned : ∀ (t : ℕ) (call : Call) (rest : Op Reply), threads[t]? = some ⟨call, some rest⟩ →
      call.external = true ∨ Waits stage runs (t, call))
    (keep : ∀ w : ℕ × Call, w.1 ≠ u → Waits stage runs w → Waits stage' runs' w) :
    ∀ (t : ℕ) (other : Call) (rest : Op Reply),
      (threads.set u ⟨call, none⟩)[t]? = some ⟨other, some rest⟩ →
      other.external = true ∨ Waits stage' runs' (t, other) := by
  intro t other rest ht
  by_cases he : u = t
  · subst he
    by_cases hlt : u < threads.length
    · rw [List.getElem?_set_self hlt] at ht
      simp at ht
    · rw [List.getElem?_eq_none (by simpa using hlt)] at ht
      simp at ht
  · rw [List.getElem?_set_ne he] at ht
    exact (owned t other rest ht).imp id (keep _ (Ne.symm he))

theorem owned_act {u : ℕ} {call : Call} {p next : Op Reply}
    (owned : ∀ (t : ℕ) (call : Call) (rest : Op Reply), threads[t]? = some ⟨call, some rest⟩ →
      call.external = true ∨ Waits stage runs (t, call))
    (hu : threads[u]? = some ⟨call, some p⟩) :
    ∀ (t : ℕ) (other : Call) (rest : Op Reply),
      (threads.set u ⟨call, some next⟩)[t]? = some ⟨other, some rest⟩ →
      other.external = true ∨ Waits stage runs (t, other) := by
  intro t other rest ht
  by_cases he : u = t
  · subst he
    rw [List.getElem?_set_self (List.getElem?_eq_some_iff.mp hu).1] at ht
    have hcall : call = other := congrArg Thread.call (Option.some.inj ht)
    subst hcall
    exact owned u call p hu
  · rw [List.getElem?_set_ne he] at ht
    exact owned t other rest ht

/-- The scheduler goes on, and waits for what it waited for. -/
theorem Attended.moveStage (inv : Attended stage runs threads)
    (keep : ∀ {w}, stage.waits = some w → stage'.waits = some w) :
    Attended stage' runs threads :=
  ⟨fun t call rest ht => (inv.owned t call rest ht).imp id (waits_stage keep), inv.calls⟩

/-- A goroutine that waited for nothing makes a call of its stage. -/
theorem Attended.runCalls {i : ℕ} {run new : Run} {call : Call} {p : Op Reply}
    (inv : Attended stage runs threads) (hi : runs[i]? = some run) (hnone : run.waits = none)
    (hwaits : new.waits = some (threads.length, call)) (hcalls : new.Calls call) :
    Attended stage (runs.set i new) (threads ++ [⟨call, some p⟩]) := by
  have hnew : (runs.set i new)[i]? = some new :=
    List.getElem?_set_self (List.getElem?_eq_some_iff.mp hi).1
  refine ⟨owned_begin inv.owned (fun _ => waits_setRun hi (by simp [hnone]))
    (Or.inr (Or.inr ⟨i, new, hnew, hwaits⟩)), ?_⟩
  refine set_forall (P := fun run => ∀ w, run.waits = some w → run.Calls w.2) hi inv.calls ?_
  intro w hw
  rw [hwaits] at hw
  cases hw
  exact hcalls

end Attended

theorem attended_step {rt : Runtime} {c c' : Coordinator}
    (inv : Attended c.stage c.runs c.pool.threads) (step : CoordinatorStep rt c c') :
    Attended c'.stage c'.runs c'.pool.threads := by
  cases step with
  | request hexternal =>
    exact ⟨owned_begin inv.owned (fun _ h => h) (Or.inl hexternal), inv.calls⟩
  | respond _ _ => exact ⟨owned_finish inv.owned fun _ _ h => h, inv.calls⟩
  | act k ht _ => exact ⟨owned_act inv.owned ht, inv.calls⟩
  | stop hs =>
    exact inv.moveStage (by simp [hs, SchedulerStage.waits])
  | list hs =>
    refine ⟨owned_begin inv.owned (fun _ => waits_stage ?_) (Or.inr (Or.inl rfl)), inv.calls⟩
    simp [hs, SchedulerStage.waits]
  | listed hs _ =>
    refine ⟨owned_finish inv.owned fun w hne => waits_stage ?_, inv.calls⟩
    intro hw
    simp only [hs, SchedulerStage.waits, Option.some.injEq] at hw
    exact absurd (hw ▸ rfl) hne
  | scanned hs =>
    exact inv.moveStage (by simp [hs, SchedulerStage.waits])
  | skip hs _ =>
    exact inv.moveStage (by simp [hs, SchedulerStage.waits])
  | free hs _ _ =>
    exact inv.moveStage (by simp [hs, SchedulerStage.waits])
  | dequeue hs =>
    refine ⟨owned_begin inv.owned (fun _ => waits_stage ?_) (Or.inr (Or.inl rfl)), inv.calls⟩
    simp [hs, SchedulerStage.waits]
  | dequeued hs _ =>
    refine ⟨owned_finish inv.owned fun w hne => waits_stage ?_, inv.calls⟩
    intro hw
    simp only [hs, SchedulerStage.waits, Option.some.injEq] at hw
    exact absurd (hw ▸ rfl) hne
  | claim hs =>
    exact inv.moveStage (by simp [hs, SchedulerStage.waits])
  | spawn hs =>
    refine ⟨fun t call rest ht => (inv.owned t call rest ht).imp id ?_, ?_⟩
    · rintro (hw | ⟨i, run, hi, hw⟩)
      · simp [hs, SchedulerStage.waits] at hw
      · exact Or.inr (someRun_append.mpr (Or.inl ⟨i, run, hi, hw⟩))
    · intro i run hi w hw
      rcases append_getElem? hi with hi | ⟨-, rfl⟩
      · exact inv.calls i run hi w hw
      · simp at hw
  | checkpoint phase hi hs hnone =>
    refine inv.runCalls hi hnone rfl ?_
    simp only [Run.Calls, hs]
    exact ⟨phase, rfl⟩
  | runnerReturned err summary hi hs hnone =>
    exact inv.runCalls hi hnone rfl ⟨_, _, _, rfl⟩
  | captureLog log hi hs hnone _ =>
    refine inv.runCalls hi hnone rfl ?_
    simp only [Run.Calls, hs]
    exact ⟨log, rfl⟩
  | noLog hi hs hnone =>
    refine ⟨fun t call rest ht => (inv.owned t call rest ht).imp id
      (waits_setRun hi (by simp [hnone])), ?_⟩
    refine set_forall (P := fun run => ∀ w, run.waits = some w → run.Calls w.2) hi inv.calls ?_
    simp [hnone]
  | @returned i run t call value hi hw _ =>
    refine ⟨owned_finish inv.owned fun w hne => waits_setRun hi ?_, ?_⟩
    · intro hw'
      rw [hw] at hw'
      exact absurd (congrArg Prod.fst (Option.some.inj hw')).symm hne
    · refine set_forall (P := fun run => ∀ w, run.waits = some w → run.Calls w.2) hi inv.calls ?_
      simp
  | @clear i run hi hs =>
    have hnone : run.waits = none := by
      cases hw : run.waits with
      | none => rfl
      | some w =>
        have hcalls := inv.calls i run hi w hw
        simp [Run.Calls, hs] at hcalls
    refine ⟨fun t call rest ht => (inv.owned t call rest ht).imp id
      (waits_setRun hi (by simp [hnone])), ?_⟩
    refine set_forall (P := fun run => ∀ w, run.waits = some w → run.Calls w.2) hi inv.calls ?_
    simp [hnone]

theorem attended_reaches {rt : Runtime} {s₀ : Server} {c : Coordinator}
    (reach : CoordinatorReaches rt s₀ c) : Attended c.stage c.runs c.pool.threads := by
  induction reach with
  | start => exact ⟨by simp [Coordinator.started], by simp [Coordinator.started]⟩
  | next _ step ih => exact attended_step ih step

end AutoDeploy
