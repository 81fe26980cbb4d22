import AutoDeploy.CoordinatorHolds

namespace AutoDeploy

open Interleaving

section Actions

variable {rt : Runtime} {s₀ : Server} {c c' : Coordinator} {t : ℕ} {call : Call} {st : ServerStep}

/-- Only the scheduler dequeues, and it does so for the app at which it stands. -/
theorem dequeue_stage (reach : CoordinatorReaches rt s₀ c) {appID : String} {rest : Op Reply}
    (ht : c.pool.threads[t]? = some ⟨.dequeueNext appID, some rest⟩) :
    ∃ app later, c.stage = .dequeuing app later t ∧ app.id = appID := by
  have hattended := attended_reaches reach
  rcases hattended.owned t _ rest ht with hexternal | hstage | ⟨i, run, hi, hw⟩
  · simp [Call.external] at hexternal
  · cases hs : c.stage with
    | dequeuing app later u =>
      simp only [hs, SchedulerStage.waits, Option.some.injEq, Prod.mk.injEq,
        Call.dequeueNext.injEq] at hstage
      obtain ⟨rfl, happ⟩ := hstage
      exact ⟨app, later, rfl, happ⟩
    | _ => simp [hs, SchedulerStage.waits] at hstage
  · have hcalls := hattended.calls i run hi _ hw
    unfold Run.Calls at hcalls
    cases hs : run.stage with
    | executing => simp [hs] at hcalls
    | marking => simp [hs] at hcalls
    | logging => simp [hs] at hcalls
    | ending => simp [hs] at hcalls
    | ended => simp [hs] at hcalls

/-- The action that dequeues a job is the one for which the scheduler waits. -/
theorem Action.dequeued_stage (act : Action rt c c' t call st) (reach : CoordinatorReaches rt s₀ c)
    {job : JobRow} (hjob : .dequeued job ∈ st.emitted) :
    ∃ app later, c.stage = .dequeuing app later t ∧ app.id = job.appID := by
  obtain ⟨rest, ht⟩ := act.thread
  rw [(dequeued_next act.action hjob).1] at ht
  exact dequeue_stage reach ht

theorem ownSteps_after (act : Action rt c c' t call st) (u : ℕ) :
    ownSteps u c'.pool.history =
      ownSteps u c.pool.history ++ if t = u then [st] else [] := by
  rw [act.history]
  by_cases he : t = u
  · subst he
    simp
  · rw [ownSteps_acted_ne he]
    simp [he]

/-- No action of the server takes a job away from the goroutine that holds it. -/
theorem Action.holds_mono (act : Action rt c c' t call st) {appID id : String}
    (h : c.Holds appID id) : c'.Holds appID id := by
  unfold Coordinator.Holds at *
  rw [act.stage, act.runs]
  refine h.imp ?_ (fun hr => hr)
  intro hstage
  cases hs : c.stage with
  | dequeuing app later u =>
    simp only [hs, SchedulerStage.Holds] at hstage ⊢
    obtain ⟨happ, job, hjob, hid⟩ := hstage
    refine ⟨happ, job, ?_, hid⟩
    rw [ownSteps_after act, dequeuesIn_append]
    exact List.mem_append_left _ hjob
  | claimed app jobID tag later => simpa only [hs, SchedulerStage.Holds] using hstage
  | spawning app jobID tag later => simpa only [hs, SchedulerStage.Holds] using hstage
  | _ => simp [hs, SchedulerStage.Holds] at hstage

/-- A stage that holds a job after an action held it before, or waits for the action that
dequeued it. -/
theorem Action.stage_origin (act : Action rt c c' t call st) (reach : CoordinatorReaches rt s₀ c)
    {appID id : String} (h : c.stage.Holds c'.pool.history appID id) :
    c.stage.Holds c.pool.history appID id ∨
      ∃ job, .dequeued job ∈ st.emitted ∧ job.appID = appID ∧ job.id = id := by
  cases hs : c.stage with
  | dequeuing app later u =>
    simp only [hs, SchedulerStage.Holds] at h ⊢
    obtain ⟨happ, job, hjob, hid⟩ := h
    rw [ownSteps_after act, dequeuesIn_append, List.mem_append] at hjob
    rcases hjob with hold | hnew
    · exact Or.inl ⟨happ, job, hold, hid⟩
    · by_cases he : t = u
      · subst he
        have hemitted : .dequeued job ∈ st.emitted := by simpa using mem_dequeuesIn.mp hnew
        obtain ⟨app', later', hs', happ'⟩ := act.dequeued_stage reach hemitted
        rw [hs] at hs'
        cases hs'
        exact Or.inr ⟨job, hemitted, happ'.symm.trans happ, hid⟩
      · simp [he, dequeuesIn, emissions] at hnew
  | claimed app jobID tag later => exact Or.inl (by simpa only [hs, SchedulerStage.Holds] using h)
  | spawning app jobID tag later => exact Or.inl (by simpa only [hs, SchedulerStage.Holds] using h)
  | _ => simp [hs, SchedulerStage.Holds] at h

/-- A job that an action dequeued is held after it. -/
theorem Action.dequeued_held (act : Action rt c c' t call st) (reach : CoordinatorReaches rt s₀ c)
    {job : JobRow} (hjob : .dequeued job ∈ st.emitted) : c'.Holds job.appID job.id := by
  obtain ⟨app, later, hs, happ⟩ := act.dequeued_stage reach hjob
  left
  rw [act.stage, hs]
  refine ⟨happ, job, ?_, rfl⟩
  rw [ownSteps_after act, dequeuesIn_append, if_pos rfl]
  exact List.mem_append_right _ (mem_dequeuesIn.mpr (by simpa using hjob))

end Actions

section Held

variable {rt : Runtime} {s₀ : Server} {c c' : Coordinator}

theorem stage_holds_app {stage : SchedulerStage} {history : ServerHistory} {appID id : String}
    (h : stage.Holds history appID id) : ∃ app, stage.app? = some app ∧ app.id = appID := by
  cases stage with
  | dequeuing app later u => exact ⟨app, rfl, h.1⟩
  | claimed app jobID tag later => exact ⟨app, rfl, h.1⟩
  | spawning app jobID tag later => exact ⟨app, rfl, h.1⟩
  | _ => exact h.elim

theorem run_holds_alive {run : Run} {appID id : String} (h : run.Holds appID id) : run.alive := by
  intro hended
  rcases h.1 with hs | hs <;> simp [hended] at hs

theorem eq_of_length_le_one {α : Type} {l : List α} (h : l.length ≤ 1) {a b : α} (ha : a ∈ l)
    (hb : b ∈ l) : a = b := by
  match l, h with
  | [], _ => simp at ha
  | [x], _ => rw [List.mem_singleton.mp ha, List.mem_singleton.mp hb]

/-- The job that the coordinator holds for an app is one. -/
theorem holds_functional (reach : CoordinatorReaches rt s₀ c) {appID id id' : String}
    (h : c.Holds appID id) (h' : c.Holds appID id') : id = id' := by
  have hexclusive := exclusive_reaches reach
  have hapart : ∀ {j j' : String}, c.stage.Holds c.pool.history appID j →
      ¬ SomeRun c.runs (Run.Holds appID j') := by
    rintro j j' hstage ⟨i, run, hi, hrun⟩
    obtain ⟨app, happ, hid⟩ := stage_holds_app hstage
    exact hexclusive.apart app happ i run hi (run_holds_alive hrun) (hrun.2.1.trans hid.symm)
  rcases h with hstage | hruns
  · rcases h' with hstage' | hruns'
    · cases hs : c.stage with
      | dequeuing app later u =>
        rw [hs] at hstage hstage'
        obtain ⟨-, job, hjob, rfl⟩ := hstage
        obtain ⟨-, job', hjob', rfl⟩ := hstage'
        have hone := dequeues_atMostOnce (coordinator_pool reach) u
        rw [eq_of_length_le_one hone hjob hjob']
      | claimed app jobID tag later =>
        rw [hs] at hstage hstage'
        exact hstage.2.symm.trans hstage'.2
      | spawning app jobID tag later =>
        rw [hs] at hstage hstage'
        exact hstage.2.symm.trans hstage'.2
      | _ => simp [hs, SchedulerStage.Holds] at hstage
    · exact absurd hruns' (hapart hstage)
  · rcases h' with hstage' | hruns'
    · exact absurd hruns (hapart hstage')
    · obtain ⟨i, run, hi, hrun⟩ := hruns
      obtain ⟨i', run', hi', hrun'⟩ := hruns'
      have hsame := hexclusive.unique i i' run run' hi hi' (run_holds_alive hrun)
        (run_holds_alive hrun') (hrun.2.1.trans hrun'.2.1.symm)
      subst hsame
      rw [hi] at hi'
      cases hi'
      exact hrun.2.2.symm.trans hrun'.2.2

/-- What ties the running rows to the coordinator: each is held, and the row of a job that its
goroutine has marked done does not run while the goroutine waits for the reply. -/
structure RowsHeld (c : Coordinator) : Prop where
  held : c.markDoneFailed = false → ∀ appID id, RunsFor c.pool.shared.jobs appID id →
    c.Holds appID id
  marked : ∀ (i : ℕ) (run : Run) (t : ℕ) (call : Call), c.runs[i]? = some run →
    run.stage = .marking → run.waits = some (t, call) →
    (∃ st ∈ ownSteps t c.pool.history, FinishedIn run.jobID st) →
    ¬ RunsFor c.pool.shared.jobs run.app.id run.jobID

theorem RowsHeld.act {t : ℕ} {call : Call} {st : ServerStep} (inv : RowsHeld c)
    (reach : CoordinatorReaches rt s₀ c) (act : Action rt c c' t call st) : RowsHeld c' where
  held hok appID id hruns := by
    rw [act.failed] at hok
    rw [← act.after] at hruns
    rcases running_origin act.action hruns with hbefore | ⟨job, hjob, rfl, rfl⟩
    · rw [act.before] at hbefore
      exact act.holds_mono (inv.held hok appID id hbefore)
    · exact act.dequeued_held reach hjob
  marked i run u other hi hs hw hfinished hruns := by
    rw [act.runs] at hi
    rw [← act.after] at hruns
    obtain ⟨done, hdone, hfacts⟩ := hfinished
    rw [ownSteps_after act, List.mem_append] at hdone
    rcases hdone with hold | hnew
    · rcases running_origin act.action hruns with hbefore | ⟨job, hjob, happ, -⟩
      · rw [act.before] at hbefore
        exact inv.marked i run u other hi hs hw ⟨done, hold, hfacts⟩ hbefore
      · -- the scheduler does not dequeue for the app of a goroutine that is still there
        obtain ⟨app, later, hstage, hid⟩ := act.dequeued_stage reach hjob
        have hfree := (exclusive_reaches reach).apart app (by simp [hstage, SchedulerStage.app?])
        exact hfree i run hi (by simp [Run.alive, hs]) (happ.symm.trans hid.symm)
    · split at hnew
      next =>
        obtain rfl := List.mem_singleton.mp hnew
        obtain ⟨row, hrow, -, hid, hrunning⟩ := hruns
        rw [hfacts row hrow hid] at hrunning
        simp at hrunning
      next => simp at hnew

theorem isWritten_iff {value : Reply} : value.isWritten = true ↔ value = .written (.ok ()) := by
  constructor
  · intro h
    cases value with
    | written result =>
      cases result with
      | error e => simp [Reply.isWritten] at h
      | ok _ => rfl
    | _ => simp [Reply.isWritten] at h
  · rintro rfl
    rfl

/-- A goroutine that learns that its `MarkDone` wrote the row leaves no running row behind. -/
theorem released_idle (inv : RowsHeld c) (reach : CoordinatorReaches rt s₀ c) {appID id : String}
    (h : Released c c' appID id) (hok : c'.markDoneFailed = false) :
    ¬ RunsFor c.pool.shared.jobs appID id := by
  obtain ⟨i, run, t, call, value, hi, hs, hw, ht, rfl, rfl, hfailed⟩ := h
  have hwritten : value.isWritten = true := by
    rw [hfailed, Bool.or_eq_false_iff] at hok
    simpa using hok.2
  have hcall := (attended_reaches reach).calls i run hi _ hw
  simp only [Run.Calls, hs] at hcall
  obtain ⟨success, errMsg, summary, rfl⟩ := hcall
  have hreturns := coordinator_returns reach ht
  rw [isWritten_iff.mp hwritten] at hreturns
  exact inv.marked i run t _ hi hs hw hreturns

theorem RowsHeld.move (inv : RowsHeld c) (reach : CoordinatorReaches rt s₀ c)
    (moved : Moved c c') : RowsHeld c' where
  held hok appID id hruns := by
    rw [moved.bookkeeping.shared] at hruns
    rcases moved.kept appID id (inv.held (moved.failed hok) appID id hruns) with hkept | hreleased
    · exact hkept
    · exact absurd hruns (released_idle inv reach hreleased hok)
  marked i run t call hi hs hw hfinished := by
    rw [moved.bookkeeping.shared]
    rw [moved.bookkeeping.own] at hfinished
    rcases moved.marking i run t call hi hs hw with ⟨j, old, hj, rfl⟩ | hnone
    · exact inv.marked j old t call hj hs hw hfinished
    · rw [moved.bookkeeping.own] at hnone
      simp [hnone] at hfinished

theorem rowsHeld_reaches (start : ∀ row ∈ s₀.jobs.rows, row.isRunning = false)
    (reach : CoordinatorReaches rt s₀ c) : RowsHeld c := by
  induction reach with
  | start =>
    refine ⟨?_, by simp [Coordinator.started]⟩
    rintro - appID id ⟨row, hrow, -, -, hrunning⟩
    rw [start row hrow] at hrunning
    simp at hrunning
  | next hreach step ih =>
    rcases coordinator_cases hreach step with ⟨t, call, st, act⟩ | moved
    · exact ih.act hreach act
    · exact ih.move hreach moved

/-- While no `MarkDone` has failed, an app has at most one running row. -/
theorem running_unique (start : ∀ row ∈ s₀.jobs.rows, row.isRunning = false)
    (reach : CoordinatorReaches rt s₀ c) (hok : c.markDoneFailed = false) {row other : JobRow}
    (hrow : row ∈ c.pool.shared.jobs.rows) (hother : other ∈ c.pool.shared.jobs.rows)
    (hr : row.isRunning = true) (ho : other.isRunning = true) (happ : row.appID = other.appID) :
    row = other := by
  have hheld := (rowsHeld_reaches start reach).held hok
  have hid := holds_functional reach (hheld _ _ ⟨row, hrow, rfl, rfl, hr⟩)
    (happ ▸ hheld _ _ ⟨other, hother, rfl, rfl, ho⟩)
  exact c.pool.shared.jobs.eq_of_id_eq hrow hother hid

end Held

end AutoDeploy
