import AutoDeploy.DeployReports
import AutoDeploy.GracefulRestart
import AutoDeploy.InterleavingMoment

namespace AutoDeploy

open Interleaving

/-- The row shows this report: marking it done with the report would change nothing. -/
def JobRow.Records (row : JobRow) (report : Report) : Prop :=
  row.markDone report.success report.errMsg report.summary = row

/-- Where a row of the table after a step comes from. -/
inductive RowFrom (call : Call) (step : ServerStep) (row' : JobRow) : Prop
  | kept : row' ∈ step.before.jobs.rows → RowFrom call step row'
  | inserted : InsertedBy row'.id step → row'.status = .pending → RowFrom call step row'
  | dequeued {job : JobRow} : .dequeued job ∈ step.emitted →
      row' = { job with status := .inProgress } → RowFrom call step row'
  | rewritten {row : JobRow} : row ∈ step.before.jobs.rows → call.Rewrites row row' →
      row'.id = row.id → RowFrom call step row'
  | canceled {row : JobRow} : row ∈ step.before.jobs.rows → row' = row.canceled →
      RowFrom call step row'

theorem rowFrom {rt : Runtime} {call : Call} {own : List ServerStep} {step : ServerStep}
    (h : JobAction rt call own step) {row' : JobRow} (hrow' : row' ∈ step.after.jobs.rows) :
    RowFrom call step row' := by
  cases h with
  | quiet hjobs _ _ => exact .kept (hjobs ▸ hrow')
  | inserted _ _ _ _ hinsert hemit _ =>
    rw [Jobs.insert_rows hinsert, List.mem_append, List.mem_singleton] at hrow'
    rcases hrow' with hold | rfl
    · exact .kept hold
    · exact .inserted ⟨_, by simp [hemit], rfl⟩ rfl
  | @dequeued job _ _ _ hrows hemit _ =>
    rw [hrows] at hrow'
    obtain ⟨row, hm, rfl⟩ := List.mem_map.mp hrow'
    split
    next => exact @RowFrom.dequeued _ _ _ job (by simp [hemit]) rfl
    next => exact .kept hm
  | @rewritten set hrows hlaw hset _ _ =>
    rw [hrows] at hrow'
    obtain ⟨row, hm, rfl⟩ := List.mem_map.mp hrow'
    rcases hset row hm with hsame | hrewrites
    · rw [hsame]
      exact .kept hm
    · exact .rewritten hm hrewrites (hlaw.id row hm)
  | canceled _ hrows _ _ _ =>
    rw [hrows] at hrow'
    obtain ⟨row, hm, rfl⟩ := List.mem_map.mp hrow'
    split
    next => exact .canceled hm rfl
    next => exact .kept hm
  | deleted _ _ hrows _ _ =>
    rw [hrows] at hrow'
    exact .kept (List.mem_filter.mp hrow').1

/-- What the row of a job says that was dequeued: the deploy goes on, or the row shows a report of
it, or a checkpoint has ended it. -/
def Outcome (history : ServerHistory) (row : JobRow) : Prop :=
  row.isRunning = true ∨ (∃ report ∈ reports row.id history, row.Records report) ∨
    ((row.status = .canceled ∨ row.status = .failed) ∧ MarkedTerminal row.id history)

/-- No row claims an outcome that its deploy did not report. -/
structure RowsTrue (s₀ : Server) (c : Coordinator) : Prop where
  dequeued : ∀ row ∈ c.pool.shared.jobs.rows, DequeuedIn row.id c.pool.history →
    Outcome c.pool.history row
  succeeded : ∀ row ∈ c.pool.shared.jobs.rows, row.status = .succeeded →
    ¬ DequeuedIn row.id c.pool.history → row ∈ s₀.jobs.rows

section Rows

variable {rt : Runtime} {s₀ : Server} {c c' : Coordinator} {history added : ServerHistory}
  {row : JobRow}

theorem JobRow.Records.terminal {report : Report} (h : row.Records report) :
    row.status = if report.success then .succeeded else .failed := by
  rw [← h]
  rfl

theorem records_log {report : Report} (h : row.Records report) (log : String) :
    JobRow.Records { row with deployLog := log } report := by
  have hlog : JobRow.markDone report.success report.errMsg report.summary
      { row with deployLog := log } =
      { row.markDone report.success report.errMsg report.summary with deployLog := log } := rfl
  rw [JobRow.Records, hlog, h]

theorem reports_append (id : String) (history added : ServerHistory) :
    reports id (history ++ added) = reports id history ++ reports id added :=
  List.filterMap_append

theorem MarkedTerminal.append {id : String} (h : MarkedTerminal id history) :
    MarkedTerminal id (history ++ added) := by
  obtain ⟨t, phase, st, hm, hmarked⟩ := h
  exact ⟨t, phase, st, List.mem_append_left _ hm, hmarked⟩

theorem Outcome.append (h : Outcome history row) : Outcome (history ++ added) row := by
  rcases h with hrunning | ⟨report, hreport, hrecords⟩ | ⟨hstatus, hmarked⟩
  · exact Or.inl hrunning
  · rw [Outcome, reports_append]
    exact Or.inr (Or.inl ⟨report, List.mem_append_left _ hreport, hrecords⟩)
  · exact Or.inr (Or.inr ⟨hstatus, hmarked.append⟩)

/-- A log changes nothing about the outcome. -/
theorem Outcome.log (h : Outcome history row) (log : String) :
    Outcome history { row with deployLog := log } := by
  rcases h with hrunning | ⟨report, hreport, hrecords⟩ | hmarked
  · exact Or.inl hrunning
  · exact Or.inr (Or.inl ⟨report, hreport, records_log hrecords log⟩)
  · exact Or.inr (Or.inr hmarked)

theorem Outcome.not_pending (h : Outcome history row) : row.status ≠ .pending := by
  intro hpending
  rcases h with hrunning | ⟨report, -, hrecords⟩ | ⟨hcanceled | hfailed, -⟩
  · simp [JobRow.isRunning, hpending, JobStatus.isRunning] at hrunning
  · have hterminal := hrecords.terminal
    rw [hpending] at hterminal
    split at hterminal <;> cases hterminal
  · rw [hpending] at hcanceled
    cases hcanceled
  · rw [hpending] at hfailed
    cases hfailed

/-- A cancel request only touches a deploy that goes on. -/
theorem Outcome.canceled (h : Outcome history row) : Outcome history row.canceled := by
  by_cases hrunning : row.isRunning = true
  · exact Or.inl (canceled_running hrunning)
  · have hsame : row.canceled = row := by
      unfold JobRow.canceled
      split
      next hs => exact absurd hs h.not_pending
      next hs => simp [JobRow.isRunning, hs, JobStatus.isRunning] at hrunning
      next => rfl
    rw [hsame]
    exact h

theorem canceled_succeeded (h : row.canceled.status = .succeeded) : row.canceled = row := by
  unfold JobRow.canceled at h ⊢
  split at h
  next => cases h
  next => cases h
  next => rfl

theorem canceled_id (row : JobRow) : row.canceled.id = row.id := by
  unfold JobRow.canceled
  split <;> rfl

/-- A job that somebody has spoken about was dequeued. -/
theorem Told.spoken (told : Told c) {id : String}
    (h : reports id c.pool.history ≠ [] ∨ savedLogs id c.pool.history ≠ []) :
    DequeuedIn id c.pool.history := by
  by_contra hnot
  obtain ⟨hreports, hlogs⟩ := told.others id fun hm => hnot (told.dequeued id hm)
  exact h.elim (fun hne => hne hreports) fun hne => hne hlogs

theorem Action.dequeuedIn {t : ℕ} {call : Call} {st : ServerStep} (act : Action rt c c' t call st)
    {id : String} (h : DequeuedIn id c'.pool.history) :
    DequeuedIn id c.pool.history ∨ ∃ job, .dequeued job ∈ st.emitted ∧ job.id = id := by
  obtain ⟨u, other, past, job, hm, hjob, hid⟩ := h
  rw [act.history, List.mem_append, List.mem_singleton] at hm
  rcases hm with hold | hnew
  · exact Or.inl ⟨u, other, past, job, hold, hjob, hid⟩
  · cases hnew
    exact Or.inr ⟨job, hjob, hid⟩

theorem Action.called {t : ℕ} {call : Call} {st : ServerStep} (act : Action rt c c' t call st)
    (reach : CoordinatorReaches rt s₀ c) : .called t call ∈ c'.pool.history := by
  obtain ⟨rest, ht⟩ := act.thread
  rw [act.history]
  exact List.mem_append_left _ (thread_called (coordinator_pool reach) ht)

/-- What rewrites a row stores a report or the log of its deploy, or a checkpoint ends it. -/
theorem rewritten_told {t : ℕ} {call : Call} {st : ServerStep} {row' : JobRow}
    (act : Action rt c c' t call st) (reach : CoordinatorReaches rt s₀ c)
    (hm : row ∈ st.before.jobs.rows) (hrow' : row' ∈ st.after.jobs.rows)
    (hrewrites : call.Rewrites row row') :
    (∃ report ∈ reports row'.id c'.pool.history, row'.Records report) ∨
      (∃ log, row' = { row with deployLog := log } ∧
        savedLogs row'.id c'.pool.history ≠ []) ∨
      ((row'.status = .canceled ∨ row'.status = .failed) ∧
        MarkedTerminal row'.id c'.pool.history) := by
  have hcalled := act.called reach
  cases call with
  | markDone id success errMsg summary =>
    obtain ⟨rfl, -, rfl⟩ := hrewrites
    exact Or.inl ⟨_, reported_of_called hcalled, rfl⟩
  | saveJobLog id log =>
    obtain ⟨rfl, rfl⟩ := hrewrites
    exact Or.inr (Or.inl ⟨log, rfl, List.ne_nil_of_mem (logged_of_called hcalled)⟩)
  | recoverStale =>
    obtain ⟨rest, ht⟩ := act.thread
    exact absurd ht (recoverStale_over reach)
  | checkpoint id phase =>
    obtain ⟨rfl, hs, status, message, hstatus, rfl⟩ := hrewrites
    have hacted : .acted t (.checkpoint row.id phase) st ∈ c'.pool.history := by
      simp [act.history]
    refine Or.inr (Or.inr ⟨hstatus, t, phase, st, hacted, ⟨row, hm, rfl, ?_⟩, _, hrow', rfl, ?_⟩)
    · simp [JobRow.isRunning, hs, JobStatus.isRunning]
    · rcases hstatus with rfl | rfl <;> rfl
  | _ => exact hrewrites.elim

theorem RowsTrue.act (inv : RowsTrue s₀ c) (told : Told c') (reach : CoordinatorReaches rt s₀ c)
    (step : CoordinatorStep rt c c') (hfresh : IdsFresh s₀ c'.pool.history) {t : ℕ} {call : Call}
    {st : ServerStep} (act : Action rt c c' t call st) : RowsTrue s₀ c' where
  dequeued row' hrow' hdequeued := by
    rw [← act.after] at hrow'
    rcases act.dequeuedIn hdequeued with hold | ⟨job, hjob, hid⟩
    · have hbefore : ∀ row ∈ st.before.jobs.rows, row.id = row'.id →
          Outcome c'.pool.history row := by
        intro row hm hid
        rw [act.before] at hm
        rw [act.history]
        exact (inv.dequeued row hm (hid ▸ hold)).append
      cases rowFrom act.action hrow' with
      | kept hm => exact hbefore row' hm rfl
      | inserted hinserted _ =>
        exact absurd hinserted (dequeued_fresh (reach.next step) act.history hfresh hold).2
      | dequeued _ he => exact Or.inl (he ▸ rfl)
      | @rewritten row hm hrewrites _ =>
        rcases rewritten_told act reach hm hrow' hrewrites with hreport | ⟨log, rfl, -⟩ | hmarked
        · exact Or.inr (Or.inl hreport)
        · exact (hbefore row hm rfl).log log
        · exact Or.inr (Or.inr hmarked)
      | @canceled row hm he =>
        subst he
        exact (hbefore row hm (canceled_id row).symm).canceled
    · obtain ⟨row, hrow, -, hsame, hrunning⟩ := dequeued_runs act.action hjob
      have hrow'' : row' = row := st.after.jobs.eq_of_id_eq hrow' hrow (hid.symm.trans hsame.symm)
      exact Or.inl (hrow'' ▸ hrunning)
  succeeded row' hrow' hs hnot := by
    rw [← act.after] at hrow'
    have hbefore : ∀ row ∈ st.before.jobs.rows, row = row' → row' ∈ s₀.jobs.rows := by
      rintro row hm rfl
      rw [act.before] at hm
      exact inv.succeeded row hm hs fun hold => hnot (by rw [act.history]; exact hold.append _)
    cases rowFrom act.action hrow' with
    | kept hm => exact hbefore row' hm rfl
    | inserted _ hpending =>
      rw [hs] at hpending
      cases hpending
    | dequeued _ he =>
      rw [he] at hs
      cases hs
    | rewritten hm hrewrites _ =>
      rcases rewritten_told act reach hm hrow' hrewrites with
        ⟨report, hreport, -⟩ | ⟨log, -, hlog⟩ | ⟨hcanceled | hfailed, -⟩
      · exact absurd (told.spoken (Or.inl (List.ne_nil_of_mem hreport))) hnot
      · exact absurd (told.spoken (Or.inr hlog)) hnot
      · rw [hs] at hcanceled
        cases hcanceled
      · rw [hs] at hfailed
        cases hfailed
    | @canceled row hm he =>
      rw [he] at hs
      exact hbefore row hm (he.trans (canceled_succeeded hs)).symm

theorem coordinator_grows (step : CoordinatorStep rt c c') :
    ∃ added, c'.pool.history = c.pool.history ++ added := by
  cases step with
  | request _ | respond _ _ | act _ _ _ | list _ | listed _ _ | dequeue _ | dequeued _ _
  | checkpoint _ _ _ _ | runnerReturned _ _ _ _ _ | captureLog _ _ _ _ _ | returned _ _ _ =>
    exact ⟨_, rfl⟩
  | _ => exact ⟨[], (List.append_nil _).symm⟩

theorem RowsTrue.move (inv : RowsTrue s₀ c) (step : CoordinatorStep rt c c')
    (moved : Moved c c') : RowsTrue s₀ c' := by
  obtain ⟨added, hadded⟩ := coordinator_grows step
  have hdequeued : ∀ id, DequeuedIn id c'.pool.history ↔ DequeuedIn id c.pool.history := by
    intro id
    simp only [DequeuedIn, moved.bookkeeping.acted]
  refine ⟨?_, ?_⟩
  · intro row hrow h
    rw [moved.bookkeeping.shared] at hrow
    rw [hadded]
    exact (inv.dequeued row hrow ((hdequeued row.id).mp h)).append
  · intro row hrow hs hnot
    rw [moved.bookkeeping.shared] at hrow
    exact inv.succeeded row hrow hs fun h => hnot ((hdequeued row.id).mpr h)

end Rows

end AutoDeploy
