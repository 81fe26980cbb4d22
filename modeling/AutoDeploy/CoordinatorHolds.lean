import AutoDeploy.CoordinatorThreads
import AutoDeploy.RunningRows

namespace AutoDeploy

open Interleaving

/-- The job that the scheduler has taken for an app and not yet handed to a goroutine. -/
def SchedulerStage.Holds (stage : SchedulerStage) (history : ServerHistory) (appID id : String) :
    Prop :=
  match stage with
  | .dequeuing app _ t => app.id = appID ∧ ∃ job ∈ dequeuesIn (ownSteps t history), job.id = id
  | .claimed app jobID _ _ | .spawning app jobID _ _ => app.id = appID ∧ jobID = id
  | _ => False

/-- The job that a goroutine has not yet marked done. -/
def Run.Holds (appID id : String) (run : Run) : Prop :=
  (run.stage = .executing ∨ run.stage = .marking) ∧ run.app.id = appID ∧ run.jobID = id

/-- The job whose runner has not yet returned. -/
def Run.Works (appID id : String) (run : Run) : Prop :=
  run.stage = .executing ∧ run.app.id = appID ∧ run.jobID = id

def Coordinator.Holds (c : Coordinator) (appID id : String) : Prop :=
  c.stage.Holds c.pool.history appID id ∨ SomeRun c.runs (Run.Holds appID id)

def Coordinator.Works (c : Coordinator) (appID id : String) : Prop :=
  c.stage.Holds c.pool.history appID id ∨ SomeRun c.runs (Run.Works appID id)

/-- A step that takes no action on the server. -/
structure Bookkeeping (c c' : Coordinator) : Prop where
  shared : c'.pool.shared = c.pool.shared
  own : ∀ t, ownSteps t c'.pool.history = ownSteps t c.pool.history
  steps : steps c'.pool.history = steps c.pool.history
  acted : ∀ t call step, .acted t call step ∈ c'.pool.history ↔ .acted t call step ∈ c.pool.history

/-- A step that is one action of one call, and leaves the goroutines where they are. -/
structure Action (rt : Runtime) (c c' : Coordinator) (t : ℕ) (call : Call) (step : ServerStep) :
    Prop where
  action : JobAction rt call (ownSteps t c.pool.history) step
  before : step.before = c.pool.shared
  after : step.after = c'.pool.shared
  history : c'.pool.history = c.pool.history ++ [.acted t call step]
  thread : ∃ rest, c.pool.threads[t]? = some ⟨call, some rest⟩
  stage : c'.stage = c.stage
  runs : c'.runs = c.runs
  failed : c'.markDoneFailed = c.markDoneFailed

/-- The goroutine of this job learns that its `MarkDone` has returned. -/
def Released (c c' : Coordinator) (appID id : String) : Prop :=
  ∃ (i : ℕ) (run : Run) (t : ℕ) (call : Call) (value : Reply), c.runs[i]? = some run ∧
    run.stage = .marking ∧ run.waits = some (t, call) ∧
    c.pool.threads[t]? = some ⟨call, some (.ret value)⟩ ∧ run.app.id = appID ∧ run.jobID = id ∧
    c'.markDoneFailed = (c.markDoneFailed || !value.isWritten)

theorem Coordinator.Works.holds {c : Coordinator} {appID id : String} (h : c.Works appID id) :
    c.Holds appID id := by
  rcases h with hstage | ⟨i, run, hi, hs, hfacts⟩
  · exact Or.inl hstage
  · exact Or.inr ⟨i, run, hi, Or.inl hs, hfacts⟩

section Steps

variable {rt : Runtime} {s₀ : Server} {c c' : Coordinator}

theorem coordinator_sound (reach : CoordinatorReaches rt s₀ c) :
    Sound (fun _ => True) (JobAction rt) (Returns rt) c.pool :=
  reaches_sound (program_safe rt) (fun _ _ _ _ _ => trivial) trivial (coordinator_pool reach)

/-- What a call says that is about to return. -/
theorem coordinator_returns (reach : CoordinatorReaches rt s₀ c) {t : ℕ} {call : Call}
    {value : Reply} (ht : c.pool.threads[t]? = some ⟨call, some (.ret value)⟩) :
    Returns rt call (ownSteps t c.pool.history) value :=
  (coordinator_sound reach).threads t call _ ht

theorem begin_bookkeeping (rt : Runtime) (c : Coordinator) (call : Call) :
    Bookkeeping c (c.begin rt call) :=
  ⟨rfl, by simp [Coordinator.begin, Config.begin], by simp [Coordinator.begin, Config.begin],
    by simp [Coordinator.begin, Config.begin]⟩

theorem finish_bookkeeping (c : Coordinator) (t : ℕ) (call : Call) (value : Reply) :
    Bookkeeping c (c.finish t call value) :=
  ⟨rfl, by simp [Coordinator.finish, Config.finish], by simp [Coordinator.finish, Config.finish],
    by simp [Coordinator.finish, Config.finish]⟩

theorem holds_own {stage : SchedulerStage} {history history' : ServerHistory} {appID id : String}
    (h : ∀ t, ownSteps t history' = ownSteps t history) :
    stage.Holds history' appID id ↔ stage.Holds history appID id := by
  cases stage <;> simp [SchedulerStage.Holds, h]

/-- What one step does to the jobs that the coordinator holds. -/
structure Moved (c c' : Coordinator) : Prop where
  bookkeeping : Bookkeeping c c'
  holds : ∀ appID id, c'.Holds appID id → c.Holds appID id
  works : ∀ appID id, c'.Works appID id → c.Works appID id
  kept : ∀ appID id, c.Holds appID id → c'.Holds appID id ∨ Released c c' appID id
  marking : ∀ (i : ℕ) (run : Run) (t : ℕ) (call : Call), c'.runs[i]? = some run →
    run.stage = .marking → run.waits = some (t, call) →
    (SomeRun c.runs fun old => old = run) ∨ ownSteps t c'.pool.history = []
  failed : c'.markDoneFailed = false → c.markDoneFailed = false

/-- A step that leaves the goroutines alone, and the job that the scheduler holds. -/
theorem moved_stage (hbook : Bookkeeping c c') (hruns : c'.runs = c.runs)
    (hfailed : c'.markDoneFailed = c.markDoneFailed)
    (hstage : ∀ appID id, c'.stage.Holds c'.pool.history appID id ↔
      c.stage.Holds c.pool.history appID id) : Moved c c' where
  bookkeeping := hbook
  holds appID id h := by simpa only [Coordinator.Holds, hstage, hruns] using h
  works appID id h := by simpa only [Coordinator.Works, hstage, hruns] using h
  kept appID id h := Or.inl (by simpa only [Coordinator.Holds, hstage, hruns] using h)
  marking i run _ _ hi _ _ := Or.inl ⟨i, run, hruns ▸ hi, rfl⟩
  failed h := hfailed ▸ h

/-- A step of one goroutine that goes on holding its job. -/
theorem moved_run (hbook : Bookkeeping c c') {i : ℕ} {old new : Run} (hi : c.runs[i]? = some old)
    (hruns : c'.runs = c.runs.set i new) (hfailed : c'.markDoneFailed = c.markDoneFailed)
    (hstage : c'.stage = c.stage)
    (holds : ∀ appID id, new.Holds appID id ↔ old.Holds appID id)
    (works : ∀ appID id, new.Works appID id → old.Works appID id)
    (marks : ∀ t call, new.stage = .marking → new.waits = some (t, call) →
      ownSteps t c.pool.history = []) : Moved c c' where
  bookkeeping := hbook
  holds appID id h := by
    rw [Coordinator.Holds, hruns, hstage, holds_own hbook.own] at h
    exact h.imp (fun hs => hs) (someRun_back hi (holds appID id).mp)
  works appID id h := by
    rw [Coordinator.Works, hruns, hstage, holds_own hbook.own] at h
    exact h.imp (fun hs => hs) (someRun_back hi (works appID id))
  kept appID id h := by
    rw [Coordinator.Holds, hruns, hstage, holds_own hbook.own]
    exact Or.inl (h.imp (fun hs => hs) (someRun_forth hi (holds appID id).mpr))
  marking j run t call hj hs hw := by
    rw [hruns] at hj
    rcases set_getElem? hi hj with ⟨-, rfl⟩ | ⟨-, hj'⟩
    · exact Or.inr ((hbook.own t).trans (marks t call hs hw))
    · exact Or.inl ⟨j, run, hj', rfl⟩
  failed h := hfailed ▸ h

theorem released_of {i : ℕ} {run : Run} {t : ℕ} {call : Call} {value : Reply} {appID id : String}
    (hi : c.runs[i]? = some run) (hw : run.waits = some (t, call))
    (ht : c.pool.threads[t]? = some ⟨call, some (.ret value)⟩) (hs : run.stage = .marking)
    (hfailed : c'.markDoneFailed =
      (c.markDoneFailed || (run.stage == .marking && !value.isWritten)))
    (hholds : run.app.id = appID ∧ run.jobID = id) : Released c c' appID id :=
  ⟨i, run, t, call, value, hi, hs, hw, ht, hholds.1, hholds.2, by simpa [hs] using hfailed⟩

/-- A goroutine whose call returned holds the job that it held, or has just marked it done. -/
theorem moved_returned {i : ℕ} {run : Run} {t : ℕ} {call : Call} {value : Reply}
    (hi : c.runs[i]? = some run) (hw : run.waits = some (t, call))
    (ht : c.pool.threads[t]? = some ⟨call, some (.ret value)⟩) :
    Moved c { (c.finish t call value).setRun i
        { run with stage := run.stage.afterCall, waits := none } with
      markDoneFailed := c.markDoneFailed || (run.stage == .marking && !value.isWritten) } := by
  have hbook := finish_bookkeeping c t call value
  have hback : run.stage.afterCall = .executing → run.stage = .executing := by
    cases run.stage <;> simp [RunStage.afterCall]
  have hnot : run.stage.afterCall ≠ .marking := by
    cases run.stage <;> simp [RunStage.afterCall]
  refine ⟨⟨hbook.shared, hbook.own, hbook.steps, hbook.acted⟩, ?_, ?_, ?_, ?_, ?_⟩
  · intro appID id h
    refine Or.imp (holds_own hbook.own).mp (someRun_back hi ?_) h
    rintro ⟨hs | hs, hfacts⟩
    · exact ⟨Or.inl (hback hs), hfacts⟩
    · exact absurd hs hnot
  · intro appID id h
    refine Or.imp (holds_own hbook.own).mp (someRun_back hi ?_) h
    rintro ⟨hs, hfacts⟩
    exact ⟨hback hs, hfacts⟩
  · intro appID id h
    by_cases hs : run.stage = .marking ∧ run.app.id = appID ∧ run.jobID = id
    · exact Or.inr (released_of hi hw ht hs.1 rfl hs.2)
    · refine Or.inl (Or.imp (holds_own hbook.own).mpr (someRun_forth hi ?_) h)
      rintro ⟨hstage | hstage, hfacts⟩
      · exact ⟨Or.inl (by simp [hstage, RunStage.afterCall]), hfacts⟩
      · exact absurd ⟨hstage, hfacts⟩ hs
  · intro j other u called hj hs hw'
    rcases set_getElem? hi hj with ⟨-, rfl⟩ | ⟨-, hj'⟩
    · simp at hw'
    · exact Or.inl ⟨j, other, hj', rfl⟩
  · intro h
    exact (Bool.or_eq_false_iff.mp h).1

theorem moved_dequeued (reach : CoordinatorReaches rt s₀ c) {app : App} {rest : List App} {t : ℕ}
    {result : Except SqlError (Option (String × String))} (hs : c.stage = .dequeuing app rest t)
    (ht : c.pool.threads[t]? = some ⟨.dequeueNext app.id, some (.ret (.dequeued result))⟩) :
    Moved c { c.finish t (.dequeueNext app.id) (.dequeued result) with
      stage := .afterDequeue app rest result } := by
  have hbook := finish_bookkeeping c t (.dequeueNext app.id) (.dequeued result)
  have hreturns := coordinator_returns reach ht
  have hstage : ∀ appID id, (SchedulerStage.afterDequeue app rest result).Holds
      (c.finish t (.dequeueNext app.id) (.dequeued result)).pool.history appID id ↔
      c.stage.Holds c.pool.history appID id := by
    intro appID id
    rw [hs]
    match result, hreturns with
    | .error e, hempty =>
      simp only [Returns] at hempty
      simp [SchedulerStage.afterDequeue, SchedulerStage.Holds, hempty]
    | .ok none, hempty =>
      simp only [Returns, DequeuedRow] at hempty
      simp [SchedulerStage.afterDequeue, SchedulerStage.Holds, hempty]
    | .ok (some (jobID, tag)), hrow =>
      obtain ⟨row, hrow, rfl, -, -⟩ := hrow
      simp [SchedulerStage.afterDequeue, SchedulerStage.Holds, hrow]
  refine ⟨⟨hbook.shared, hbook.own, hbook.steps, hbook.acted⟩, ?_, ?_, ?_, ?_, fun h => h⟩
  · exact fun appID id h => Or.imp (hstage appID id).mp (fun hr => hr) h
  · exact fun appID id h => Or.imp (hstage appID id).mp (fun hr => hr) h
  · exact fun appID id h => Or.inl (Or.imp (hstage appID id).mpr (fun hr => hr) h)
  · exact fun i run _ _ hi _ _ => Or.inl ⟨i, run, hi, rfl⟩

/-- Everything that one step of the server with its coordinator may do. -/
theorem coordinator_cases (reach : CoordinatorReaches rt s₀ c) (step : CoordinatorStep rt c c') :
    (∃ t call st, Action rt c c' t call st) ∨ Moved c c' := by
  cases step with
  | @request call _ =>
    have hbook := begin_bookkeeping rt c call
    exact Or.inr (moved_stage hbook rfl rfl fun _ _ => holds_own hbook.own)
  | @respond t call value _ _ =>
    have hbook := finish_bookkeeping c t call value
    exact Or.inr (moved_stage hbook rfl rfl fun _ _ => holds_own hbook.own)
  | @act t call ready effect next k ht hready =>
    obtain ⟨haction, -⟩ := (coordinator_sound reach).threads t call _ ht _ k trivial hready
    exact Or.inl ⟨t, call, _, haction, rfl, rfl, rfl, ⟨_, ht⟩, rfl, rfl, rfl⟩
  | stop hs =>
    refine Or.inr (moved_stage ⟨rfl, fun _ => rfl, rfl, fun _ _ _ => Iff.rfl⟩ rfl rfl ?_)
    simp [hs, SchedulerStage.Holds]
  | list hs =>
    have hbook := begin_bookkeeping rt c .listApps
    refine Or.inr (moved_stage ⟨hbook.shared, hbook.own, hbook.steps, hbook.acted⟩ rfl rfl ?_)
    simp [hs, SchedulerStage.Holds]
  | @listed t result hs _ =>
    have hbook := finish_bookkeeping c t .listApps (.listed result)
    refine Or.inr (moved_stage ⟨hbook.shared, hbook.own, hbook.steps, hbook.acted⟩ rfl rfl ?_)
    cases result <;> simp [hs, SchedulerStage.Holds, SchedulerStage.afterList]
  | scanned hs =>
    refine Or.inr (moved_stage ⟨rfl, fun _ => rfl, rfl, fun _ _ _ => Iff.rfl⟩ rfl rfl ?_)
    simp [hs, SchedulerStage.Holds]
  | skip hs _ =>
    refine Or.inr (moved_stage ⟨rfl, fun _ => rfl, rfl, fun _ _ _ => Iff.rfl⟩ rfl rfl ?_)
    simp [hs, SchedulerStage.Holds]
  | free hs _ _ =>
    refine Or.inr (moved_stage ⟨rfl, fun _ => rfl, rfl, fun _ _ _ => Iff.rfl⟩ rfl rfl ?_)
    simp [hs, SchedulerStage.Holds]
  | @dequeue app rest hs =>
    have hbook := begin_bookkeeping rt c (.dequeueNext app.id)
    have hfresh := (coordinator_sound reach).fresh c.pool.threads.length (le_refl _)
    refine Or.inr (moved_stage ⟨hbook.shared, hbook.own, hbook.steps, hbook.acted⟩ rfl rfl ?_)
    simp [hs, SchedulerStage.Holds, Coordinator.begin, Config.begin, hfresh, dequeuesIn, emissions]
  | dequeued hs ht => exact Or.inr (moved_dequeued reach hs ht)
  | claim hs =>
    refine Or.inr (moved_stage ⟨rfl, fun _ => rfl, rfl, fun _ _ _ => Iff.rfl⟩ rfl rfl ?_)
    simp [hs, SchedulerStage.Holds]
  | @spawn app jobID tag rest hs =>
    refine Or.inr ⟨⟨rfl, fun _ => rfl, rfl, fun _ _ _ => Iff.rfl⟩, ?_, ?_, ?_, ?_, fun h => h⟩
    · rintro appID id (hstage | hruns)
      · exact hstage.elim
      · rcases someRun_append.mp hruns with hold | hnew
        · exact Or.inr hold
        · exact Or.inl (by rw [hs]; exact hnew.2)
    · rintro appID id (hstage | hruns)
      · exact hstage.elim
      · rcases someRun_append.mp hruns with hold | hnew
        · exact Or.inr hold
        · exact Or.inl (by rw [hs]; exact hnew.2)
    · rintro appID id (hstage | hruns)
      · rw [hs] at hstage
        exact Or.inl (Or.inr (someRun_append.mpr (Or.inr ⟨Or.inl rfl, hstage⟩)))
      · exact Or.inl (Or.inr (someRun_append.mpr (Or.inl hruns)))
    · intro i run t call hi hmarking _
      rcases append_getElem? hi with hi | ⟨-, rfl⟩
      · exact Or.inl ⟨i, run, hi, rfl⟩
      · cases hmarking
  | @checkpoint i run phase hi hs _ =>
    have hbook := begin_bookkeeping rt c (.checkpoint run.jobID phase)
    exact Or.inr (moved_run ⟨hbook.shared, hbook.own, hbook.steps, hbook.acted⟩ hi rfl rfl rfl
      (fun _ _ => Iff.rfl) (fun _ _ h => h) (by simp [hs]))
  | @runnerReturned i run err summary hi hs _ =>
    have hbook := begin_bookkeeping rt c (run.markDone err summary)
    refine Or.inr (moved_run ⟨hbook.shared, hbook.own, hbook.steps, hbook.acted⟩ hi rfl rfl rfl
      ?_ ?_ ?_)
    · simp [Run.Holds, hs]
    · simp [Run.Works]
    · intro t call _ hw
      cases hw
      exact (coordinator_sound reach).fresh _ (le_refl _)
  | @captureLog i run log hi hs _ _ =>
    have hbook := begin_bookkeeping rt c (.saveJobLog run.jobID log)
    exact Or.inr (moved_run ⟨hbook.shared, hbook.own, hbook.steps, hbook.acted⟩ hi rfl rfl rfl
      (fun _ _ => Iff.rfl) (fun _ _ h => h) (by simp [hs]))
  | noLog hi hs _ =>
    refine Or.inr (moved_run ⟨rfl, fun _ => rfl, rfl, fun _ _ _ => Iff.rfl⟩ hi rfl rfl rfl
      ?_ ?_ (by simp))
    · simp [Run.Holds, hs]
    · simp [Run.Works]
  | returned hi hw ht => exact Or.inr (moved_returned hi hw ht)
  | clear hi hs =>
    refine Or.inr (moved_run ⟨rfl, fun _ => rfl, rfl, fun _ _ _ => Iff.rfl⟩ hi rfl rfl rfl
      ?_ ?_ (by simp))
    · simp [Run.Holds, hs]
    · simp [Run.Works]

end Steps

end AutoDeploy
