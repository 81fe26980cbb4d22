import AutoDeploy.CoordinatorExclusion
import Mathlib.Logic.Relation

namespace AutoDeploy

open Interleaving

/-- The scheduler has seen the end of its context, and no deploy is left. -/
structure Coordinator.Waited (c : Coordinator) : Prop where
  stage : c.stage = .stopped
  runs : ∀ run ∈ c.runs, run.stage = .ended

/-- Where the goroutine stands that calls the `Cleanup` of the tracker at every tick. -/
inductive CleanupStage
  | selecting
  | cleaning
  | returned
deriving DecidableEq

/-- Everything that `Wait` waits for. `cleanup` is `none` for a coordinator without a tracker. -/
structure Started where
  coordinator : Coordinator
  cleanup : Option CleanupStage

/-- The steps of what `Start` has started. As the scheduler does, the goroutine of the tracker
sees the end of its context when it selects. -/
inductive StartedStep (rt : Runtime) (g : Started) : Started → Prop
  | coordinator {c : Coordinator} : CoordinatorStep rt g.coordinator c →
      StartedStep rt g { g with coordinator := c }
  | tick : g.cleanup = some .selecting → StartedStep rt g { g with cleanup := some .cleaning }
  | cleaned : g.cleanup = some .cleaning → StartedStep rt g { g with cleanup := some .selecting }
  | done : g.cleanup = some .selecting → StartedStep rt g { g with cleanup := some .returned }

/-- `Wait` has returned. -/
structure Started.Waited (g : Started) : Prop where
  coordinator : g.coordinator.Waited
  cleanup : ∀ stage, g.cleanup = some stage → stage = .returned

/-- What the requests may do that come in while the server shuts down. -/
abbrev CoordinatorLater (rt : Runtime) : Coordinator → Coordinator → Prop :=
  Relation.ReflTransGen (CoordinatorStep rt)

/-- A process that starts on the database that another one has left. -/
def Server.reopened (s : Server) (jobs : Jobs) : Server :=
  { s with
    jobs := jobs
    activeCache := none
    activeCacheMu := false
    secretHashCache := none
    secretHashCacheMu := false }

/-- The servers of processes that start one after the other, each when the coordinator of the
one before has been waited for, and with the `RecoverStale` of the startup. -/
inductive Rebooted (rt : Runtime) (s₀ : Server) : Server → Prop
  | first : Rebooted rt s₀ s₀
  | restarted {s : Server} {c : Coordinator} {jobs : Jobs} : Rebooted rt s₀ s →
      CoordinatorReaches rt s c → c.Waited → c.markDoneFailed = false →
      c.pool.shared.jobs.recoverStale = .ok jobs →
      Rebooted rt s₀ (c.pool.shared.reopened jobs)

section Waited

variable {rt : Runtime} {s₀ : Server} {c c' : Coordinator}

theorem CoordinatorReaches.later (reach : CoordinatorReaches rt s₀ c)
    (h : CoordinatorLater rt c c') : CoordinatorReaches rt s₀ c' := by
  induction h with
  | refl => exact reach
  | tail _ step ih => exact ih.next step

theorem Coordinator.Waited.run_ended {i : ℕ} {run : Run} (h : c.Waited)
    (hi : c.runs[i]? = some run) : run.stage = .ended :=
  h.runs run (List.mem_of_getElem? hi)

theorem Coordinator.Waited.not_holds (h : c.Waited) (appID id : String) :
    ¬ c.Holds appID id := by
  rintro (hstage | ⟨i, run, hi, hrun⟩)
  · rw [h.stage] at hstage
    exact hstage
  · have hended := h.run_ended hi
    rcases hrun.1 with hs | hs
    · rw [hended] at hs
      cases hs
    · rw [hended] at hs
      cases hs

/-- Nothing that happens after `Wait` is a step of the coordinator. -/
theorem Coordinator.Waited.step (h : c.Waited) (reach : CoordinatorReaches rt s₀ c)
    (step : CoordinatorStep rt c c') :
    c'.Waited ∧ c'.runs = c.runs ∧ c'.markDoneFailed = c.markDoneFailed := by
  have elsewhere : ∀ {stage : SchedulerStage}, c.stage = stage → stage = .stopped :=
    fun hs => hs.symm.trans h.stage
  have still : ∀ {i : ℕ} {run : Run} {stage : RunStage}, c.runs[i]? = some run →
      run.stage = stage → stage = .ended := fun hi hs => hs.symm.trans (h.run_ended hi)
  cases step with
  | request _ => exact ⟨⟨h.stage, h.runs⟩, rfl, rfl⟩
  | respond _ _ => exact ⟨⟨h.stage, h.runs⟩, rfl, rfl⟩
  | act _ _ _ => exact ⟨⟨h.stage, h.runs⟩, rfl, rfl⟩
  | stop hs => cases elsewhere hs
  | list hs => cases elsewhere hs
  | listed hs _ => cases elsewhere hs
  | scanned hs => cases elsewhere hs
  | skip hs _ => cases elsewhere hs
  | free hs _ _ => cases elsewhere hs
  | dequeue hs => cases elsewhere hs
  | dequeued hs _ => cases elsewhere hs
  | claim hs => cases elsewhere hs
  | spawn hs => cases elsewhere hs
  | checkpoint _ hi hs _ => cases still hi hs
  | runnerReturned _ _ hi hs _ => cases still hi hs
  | captureLog _ hi hs _ _ => cases still hi hs
  | noLog hi hs _ => cases still hi hs
  | clear hi hs => cases still hi hs
  | returned hi hw _ =>
    -- a goroutine that has ended waits for no call
    have hcalls := (attended_reaches reach).calls _ _ hi _ hw
    simp [Run.Calls, h.run_ended hi] at hcalls

theorem Coordinator.Waited.later (h : c.Waited) (reach : CoordinatorReaches rt s₀ c)
    (hlater : CoordinatorLater rt c c') :
    c'.Waited ∧ c'.runs = c.runs ∧ c'.markDoneFailed = c.markDoneFailed := by
  induction hlater with
  | refl => exact ⟨h, rfl, rfl⟩
  | tail hbefore step ih =>
    obtain ⟨hwaited, hruns, hfailed⟩ := ih
    obtain ⟨hwaited', hruns', hfailed'⟩ := hwaited.step (reach.later hbefore) step
    exact ⟨hwaited', hruns'.trans hruns, hfailed'.trans hfailed⟩

theorem Coordinator.Waited.idle (h : c.Waited) (reach : CoordinatorReaches rt s₀ c)
    (start : ∀ row ∈ s₀.jobs.rows, row.isRunning = false) (hok : c.markDoneFailed = false) :
    ∀ row ∈ c.pool.shared.jobs.rows, row.isRunning = false := by
  intro row hrow
  rw [Bool.eq_false_iff]
  intro hrunning
  have hheld := (rowsHeld_reaches start reach).held hok row.appID row.id
    ⟨row, hrow, rfl, rfl, hrunning⟩
  exact h.not_holds _ _ hheld

/-- Where no row runs there is nothing to recover. -/
theorem recoverStale_idle {jobs : Jobs} (h : ∀ row ∈ jobs.rows, row.isRunning = false) :
    jobs.recoverStale = .ok jobs := by
  have hsame : (jobs.rows.map fun row => if row.isRunning then
      row.setStatus .failed "recovered: process crashed" else row) = jobs.rows := by
    conv_rhs => rw [← List.map_id jobs.rows]
    apply List.map_congr_left
    intro row hrow
    simp [h row hrow]
  unfold Jobs.recoverStale Jobs.update Jobs.check
  simp only [hsame, dif_pos jobs.primaryKey, dif_pos jobs.activeUnique]

theorem rebooted_idle (start : ∀ row ∈ s₀.jobs.rows, row.isRunning = false) {s : Server}
    (h : Rebooted rt s₀ s) : ∀ row ∈ s.jobs.rows, row.isRunning = false := by
  induction h with
  | first => exact start
  | restarted _ reach hwaited hok hrecovered ih =>
    have hidle := hwaited.idle reach ih hok
    rw [recoverStale_idle hidle] at hrecovered
    cases hrecovered
    exact hidle

end Waited

/-- A process that has waited for its coordinator, and everything that its requests still do. -/
structure ShutDown (rt : Runtime) (c : Coordinator) : Prop where
  runs : ∀ c', CoordinatorLater rt c c' → c'.Waited ∧ c'.runs = c.runs
  idle : ∀ c', CoordinatorLater rt c c' → ∀ row ∈ c'.pool.shared.jobs.rows, row.isRunning = false
  recovered : ∀ c', CoordinatorLater rt c c' →
    c'.pool.shared.jobs.recoverStale = .ok c'.pool.shared.jobs

/-- Over any number of restarts: once `Wait` has returned, and every `MarkDone` was written, no
deploy starts any more, no row is left running, and the next startup recovers no job. -/
theorem graceful_restart {rt : Runtime} {s₀ s : Server} {c : Coordinator}
    (start : ∀ row ∈ s₀.jobs.rows, row.isRunning = false) (rebooted : Rebooted rt s₀ s)
    (reach : CoordinatorReaches rt s c) (waited : c.Waited) (hok : c.markDoneFailed = false) :
    ShutDown rt c := by
  have hidle : ∀ c', CoordinatorLater rt c c' →
      ∀ row ∈ c'.pool.shared.jobs.rows, row.isRunning = false := by
    intro c' hlater
    obtain ⟨hwaited, -, hfailed⟩ := waited.later reach hlater
    exact hwaited.idle (reach.later hlater) (rebooted_idle start rebooted) (hfailed.trans hok)
  refine ⟨fun c' hlater => ?_, hidle, fun c' hlater => recoverStale_idle (hidle c' hlater)⟩
  obtain ⟨hwaited, hruns, -⟩ := waited.later reach hlater
  exact ⟨hwaited, hruns⟩

/-- The job of `onePending` is deployed and marked done, and then the context ends. -/
theorem onePending_waited : ∃ c, CoordinatorReaches ⟨1, id, id⟩ onePending c ∧
    c.stage = .stopped ∧ c.runs = [⟨api, "j1", "v1", .ended, none⟩] ∧ c.markDoneFailed = false ∧
    c.pool.shared.jobs.rows.map (fun row => (row.id, row.status)) = [("j1", .succeeded)] ∧
    insertsIn (steps c.pool.history) = [] := by
  have reach : CoordinatorReaches ⟨1, id, id⟩ onePending (.started onePending) := .start
  replace reach := reach.next (.list rfl)
  replace reach := reach.next (.act ⟨none, ""⟩ (t := 0) rfl rfl)
  replace reach := reach.next (.listed rfl rfl)
  replace reach := reach.next (.free rfl rfl (by decide))
  replace reach := reach.next (.dequeue rfl)
  replace reach := reach.next (.act ⟨none, ""⟩ (t := 1) rfl rfl)
  replace reach := reach.next (.act ⟨none, ""⟩ (t := 1) rfl rfl)
  replace reach := reach.next (.dequeued rfl rfl)
  replace reach := reach.next (.claim rfl)
  replace reach := reach.next (.spawn rfl)
  replace reach := reach.next (.scanned rfl)
  replace reach := reach.next (.stop rfl)
  replace reach := reach.next (.runnerReturned none ⟨3, 1, 3⟩ (i := 0) rfl rfl rfl)
  replace reach := reach.next (.act ⟨none, ""⟩ (t := 2) rfl rfl)
  replace reach := reach.next (.act ⟨none, ""⟩ (t := 2) rfl rfl)
  replace reach := reach.next (.returned (i := 0) rfl rfl rfl)
  replace reach := reach.next (.noLog (i := 0) rfl rfl rfl)
  replace reach := reach.next (.clear (i := 0) rfl rfl)
  exact ⟨_, reach, rfl, rfl, rfl, rfl, rfl⟩

theorem graceful_restart_onePending : ∃ c, CoordinatorReaches ⟨1, id, id⟩ onePending c ∧
    c.pool.shared.jobs.rows.map (fun row => (row.id, row.status)) = [("j1", .succeeded)] ∧
    ShutDown ⟨1, id, id⟩ c := by
  obtain ⟨c, reach, hstage, hruns, hok, hrows, -⟩ := onePending_waited
  exact ⟨c, reach, hrows, graceful_restart (by decide) .first reach ⟨hstage, by simp [hruns]⟩ hok⟩

end AutoDeploy
