import AutoDeploy.CoordinatorRows
import AutoDeploy.QueueFifo

namespace AutoDeploy

open Interleaving

/-- A checkpoint has made the running row of this job terminal. -/
def MarkedTerminal (id : String) (history : ServerHistory) : Prop :=
  ∃ t phase st, .acted t (.checkpoint id phase) st ∈ history ∧
    (∃ row ∈ st.before.jobs.rows, row.id = id ∧ row.isRunning = true) ∧
    ∃ row ∈ st.after.jobs.rows, row.id = id ∧ isTerminalJobStatus row.status = true

section Step

variable {rt : Runtime} {call : Call} {own : List ServerStep} {step : ServerStep}

theorem dequeued_once (h : JobAction rt call own step) {job job' : JobRow}
    (hjob : .dequeued job ∈ step.emitted) (hjob' : .dequeued job' ∈ step.emitted) : job = job' := by
  have hnext := dequeued_next h hjob
  have hnext' := dequeued_next h hjob'
  have happ : job.appID = job'.appID := by
    have hcall := hnext.1.symm.trans hnext'.1
    simpa using hcall
  rw [happ] at hnext
  exact Option.some.inj (hnext.2.symm.trans hnext'.2)

/-- A dequeued job runs for its app. -/
theorem dequeued_runs (h : JobAction rt call own step) {job : JobRow}
    (hjob : .dequeued job ∈ step.emitted) : RunsFor step.after.jobs job.appID job.id := by
  have hfacts := dequeued_next h hjob
  cases h with
  | quiet _ hpublished _ =>
    obtain ⟨e, he⟩ := hpublished _ hjob
    cases he
  | inserted _ _ _ _ _ hemit _ => simp [hemit] at hjob
  | @dequeued other _ _ hnext hrows hemit _ =>
    rw [hemit, List.mem_singleton] at hjob
    cases hjob
    have hm := (Jobs.nextPending_mem hnext).1
    refine ⟨{ job with status := .inProgress }, ?_, rfl, rfl, rfl⟩
    rw [hrows]
    exact List.mem_map.mpr ⟨job, hm, by simp⟩
  | rewritten _ _ _ hemit _ => simp [hemit] at hjob
  | canceled _ _ _ hemit _ => simp [hemit] at hjob
  | deleted _ _ _ hemit _ => simp [hemit] at hjob

end Step

section Runs

variable {rt : Runtime} {s₀ : Server} {c c' : Coordinator}

theorem Action.steps_history {t : ℕ} {call : Call} {st : ServerStep}
    (act : Action rt c c' t call st) : steps c'.pool.history = steps c.pool.history ++ [st] := by
  rw [act.history, steps_acted]

/-- Fresh ids at the end of a run were fresh all along. -/
theorem idsFresh_back (reach : CoordinatorReaches rt s₀ c) (step : CoordinatorStep rt c c')
    (h : IdsFresh s₀ c'.pool.history) : IdsFresh s₀ c.pool.history := by
  rcases coordinator_cases reach step with ⟨t, call, st, act⟩ | moved
  · unfold IdsFresh at *
    rw [act.steps_history, insertsIn_append, List.map_append] at h
    exact h.sublist ((List.Sublist.refl _).append (List.sublist_append_left _ _))
  · unfold IdsFresh at *
    rw [moved.bookkeeping.steps] at h
    exact h

/-- A running call that neither a request nor the scheduler makes is one of a job's goroutine. -/
theorem run_called (reach : CoordinatorReaches rt s₀ c) {t : ℕ} {call : Call} {rest : Op Reply}
    (ht : c.pool.threads[t]? = some ⟨call, some rest⟩) (hexternal : call.external = false)
    (hscheduler : ∀ stage : SchedulerStage, stage.waits ≠ some (t, call)) :
    ∃ (i : ℕ) (run : Run), c.runs[i]? = some run ∧ run.Calls call := by
  have hattended := attended_reaches reach
  rcases hattended.owned t _ rest ht with hrequest | hstage | ⟨i, run, hi, hw⟩
  · simp [hexternal] at hrequest
  · exact absurd hstage (hscheduler c.stage)
  · exact ⟨i, run, hi, hattended.calls i run hi _ hw⟩

/-- Only the goroutine of a job marks it done. -/
theorem markDone_stage (reach : CoordinatorReaches rt s₀ c) {t : ℕ} {id errMsg : String}
    {success : Bool} {summary : Option DownloadSummary} {rest : Op Reply}
    (ht : c.pool.threads[t]? = some ⟨.markDone id success errMsg summary, some rest⟩) :
    ∃ (i : ℕ) (run : Run), c.runs[i]? = some run ∧ run.stage = .marking ∧ run.jobID = id := by
  obtain ⟨i, run, hi, hcalls⟩ := run_called reach ht rfl fun stage => by
    cases stage <;> simp [SchedulerStage.waits]
  unfold Run.Calls at hcalls
  cases hs : run.stage with
  | executing => simp [hs] at hcalls
  | marking =>
    simp only [hs, Call.markDone.injEq] at hcalls
    obtain ⟨_, _, _, hid, -⟩ := hcalls
    exact ⟨i, run, hi, hs, hid.symm⟩
  | logging => simp [hs] at hcalls
  | ending => simp [hs] at hcalls
  | ended => simp [hs] at hcalls

/-- No goroutine and no request recovers stale jobs once the coordinator has started. -/
theorem recoverStale_over (reach : CoordinatorReaches rt s₀ c) {t : ℕ} {rest : Op Reply} :
    c.pool.threads[t]? ≠ some ⟨.recoverStale, some rest⟩ := by
  intro ht
  obtain ⟨i, run, -, hcalls⟩ := run_called reach ht rfl fun stage => by
    cases stage <;> simp [SchedulerStage.waits]
  unfold Run.Calls at hcalls
  cases hs : run.stage <;> simp [hs] at hcalls

/-- What an action that brings a new job to the scheduler adds, or leaves as it was. -/
theorem Action.holds_origin {t : ℕ} {call : Call} {st : ServerStep}
    (act : Action rt c c' t call st) (reach : CoordinatorReaches rt s₀ c) {appID id : String}
    (h : c'.Holds appID id) : c.Holds appID id ∨
      ∃ job, .dequeued job ∈ st.emitted ∧ job.appID = appID ∧ job.id = id := by
  unfold Coordinator.Holds at h
  rw [act.stage, act.runs] at h
  rcases h with hstage | hruns
  · exact (act.stage_origin reach hstage).imp Or.inl fun hnew => hnew
  · exact Or.inl (Or.inr hruns)

theorem Action.works_origin {t : ℕ} {call : Call} {st : ServerStep}
    (act : Action rt c c' t call st) (reach : CoordinatorReaches rt s₀ c) {appID id : String}
    (h : c'.Works appID id) : c.Works appID id ∨
      ∃ job, .dequeued job ∈ st.emitted ∧ job.appID = appID ∧ job.id = id := by
  unfold Coordinator.Works at h
  rw [act.stage, act.runs] at h
  rcases h with hstage | hruns
  · exact (act.stage_origin reach hstage).imp Or.inl fun hnew => hnew
  · exact Or.inl (Or.inr hruns)

/-- A job that the coordinator holds was dequeued in this run. -/
theorem holds_taken (reach : CoordinatorReaches rt s₀ c) : ∀ appID id, c.Holds appID id →
    ∃ t call st, .acted t call st ∈ c.pool.history ∧ TakenBy id st := by
  induction reach with
  | start =>
    rintro appID id (hstage | ⟨i, run, hi, -⟩)
    · exact hstage.elim
    · simp [Coordinator.started] at hi
  | next hreach step ih =>
    intro appID id h
    rcases coordinator_cases hreach step with ⟨t, call, st, act⟩ | moved
    · rw [act.history]
      rcases act.holds_origin hreach h with hold | ⟨job, hjob, -, hid⟩
      · obtain ⟨u, other, past, hm, htaken⟩ := ih appID id hold
        exact ⟨u, other, past, List.mem_append_left _ hm, htaken⟩
      · exact ⟨t, call, st, by simp, _, hjob, hid⟩
    · obtain ⟨u, other, past, hm, htaken⟩ := ih appID id (moved.holds appID id h)
      exact ⟨u, other, past, (moved.bookkeeping.acted _ _ _).mpr hm, htaken⟩

/-- A job that the coordinator already holds is not dequeued again. -/
theorem held_notDequeued (reach : CoordinatorReaches rt s₀ c) (step : CoordinatorStep rt c c')
    (hfresh : IdsFresh s₀ c'.pool.history) {t : ℕ} {call : Call} {st : ServerStep}
    (act : Action rt c c' t call st) {appID : String} {job : JobRow}
    (hjob : .dequeued job ∈ st.emitted) : ¬ c.Holds appID job.id := by
  intro hold
  obtain ⟨u, other, past, hm, htaken⟩ := holds_taken reach appID job.id hold
  obtain ⟨pre, mid, hsplit⟩ := List.append_of_mem hm
  have hpool := coordinator_pool (reach.next step)
  have hhistory : c'.pool.history =
      pre ++ .acted u other past :: mid ++ .acted t call st :: [] := by
    rw [act.history, hsplit]
  obtain ⟨later, hlater, hinserted⟩ := taken_once hpool hhistory htaken ⟨_, hjob, rfl⟩
  rw [List.append_assoc, List.cons_append] at hhistory
  refine taken_insert_reuses hpool hhistory htaken ?_ hinserted hfresh
  rw [steps_append]
  exact List.mem_append_left _ hlater

/-- A job is held for one app. -/
theorem holds_app (reach : CoordinatorReaches rt s₀ c) : IdsFresh s₀ c.pool.history →
    ∀ appID appID' id, c.Holds appID id → c.Holds appID' id → appID = appID' := by
  induction reach with
  | start =>
    rintro - appID appID' id (hstage | ⟨i, run, hi, -⟩) -
    · exact hstage.elim
    · simp [Coordinator.started] at hi
  | next hreach step ih =>
    intro hfresh appID appID' id h h'
    have hbefore := ih (idsFresh_back hreach step hfresh)
    rcases coordinator_cases hreach step with ⟨t, call, st, act⟩ | moved
    · rcases act.holds_origin hreach h with hold | ⟨job, hjob, rfl, rfl⟩
      · rcases act.holds_origin hreach h' with hold' | ⟨job', hjob', rfl, rfl⟩
        · exact hbefore appID appID' id hold hold'
        · exact absurd hold (held_notDequeued hreach step hfresh act hjob')
      · rcases act.holds_origin hreach h' with hold' | ⟨job', hjob', rfl, hid⟩
        · exact absurd hold' (held_notDequeued hreach step hfresh act hjob)
        · rw [dequeued_once act.action hjob hjob']
    · exact hbefore appID appID' id (moved.holds appID id h) (moved.holds appID' id h')

/-- The job of a runner that has not returned is not being marked done. -/
theorem works_notMarking (reach : CoordinatorReaches rt s₀ c) (hfresh : IdsFresh s₀ c.pool.history)
    {appID id : String} (hworks : c.Works appID id) {i : ℕ} {run : Run}
    (hi : c.runs[i]? = some run) (hs : run.stage = .marking) : run.jobID ≠ id := by
  rintro rfl
  have hexclusive := exclusive_reaches reach
  have halive : run.alive := by simp [Run.alive, hs]
  have happ : run.app.id = appID := holds_app reach hfresh _ _ run.jobID
    (Or.inr ⟨i, run, hi, Or.inr hs, rfl, rfl⟩) hworks.holds
  rcases hworks with hstage | ⟨j, other, hj, hexecuting, hother, -⟩
  · obtain ⟨app, hfree, hid⟩ := stage_holds_app hstage
    exact hexclusive.apart app hfree i run hi halive (happ.trans hid.symm)
  · have hsame := hexclusive.unique i j run other hi hj halive
      (by simp [Run.alive, hexecuting]) (happ.trans hother.symm)
    subst hsame
    rw [hi] at hj
    cases hj
    simp [hs] at hexecuting

/-- The job of a runner that has not returned runs for its app, unless a checkpoint has made it
terminal. -/
theorem works_runs (reach : CoordinatorReaches rt s₀ c) : IdsFresh s₀ c.pool.history →
    ∀ appID id, c.Works appID id →
      RunsFor c.pool.shared.jobs appID id ∨ MarkedTerminal id c.pool.history := by
  induction reach with
  | start =>
    rintro - appID id (hstage | ⟨i, run, hi, -⟩)
    · exact hstage.elim
    · simp [Coordinator.started] at hi
  | @next c c' hreach step ih =>
    intro hfresh appID id h
    have hfresh₁ := idsFresh_back hreach step hfresh
    rcases coordinator_cases hreach step with ⟨t, call, st, act⟩ | moved
    · rcases act.works_origin hreach h with hold | ⟨job, hjob, rfl, rfl⟩
      · rcases ih hfresh₁ appID id hold with hruns | ⟨u, phase, past, hm, hmarked⟩
        · rw [← act.before] at hruns
          rcases running_survives act.action hruns with hafter |
            ⟨row, hrow, row', hrow', hid, hrunning, hid', hterminal, hrewrites⟩
          · exact Or.inl (act.after ▸ hafter)
          · obtain ⟨rest, ht⟩ := act.thread
            cases call with
            | markDone other success errMsg summary =>
              obtain ⟨i, run, hi, hs, hjobID⟩ := markDone_stage hreach ht
              have hsame : run.jobID = id := hjobID.trans (hrewrites.1.symm.trans hid)
              exact absurd hsame (works_notMarking hreach hfresh₁ hold hi hs)
            | saveJobLog other log =>
              rw [hrewrites.2] at hterminal
              have hover := JobStatus.terminal_not_running hterminal
              exact absurd hrunning (by simp [JobRow.isRunning, hover])
            | recoverStale => exact absurd ht (recoverStale_over hreach)
            | checkpoint other phase =>
              have hsame : other = id := hrewrites.1.symm.trans hid
              subst hsame
              rw [act.history]
              exact Or.inr ⟨t, phase, st, by simp, ⟨row, hrow, hid, hrunning⟩, row', hrow', hid',
                hterminal⟩
            | _ => exact hrewrites.elim
        · rw [act.history]
          exact Or.inr ⟨u, phase, past, List.mem_append_left _ hm, hmarked⟩
      · exact Or.inl (act.after ▸ dequeued_runs act.action hjob)
    · rcases ih hfresh₁ appID id (moved.works appID id h) with
        hruns | ⟨u, phase, past, hm, hmarked⟩
      · exact Or.inl (moved.bookkeeping.shared ▸ hruns)
      · exact Or.inr ⟨u, phase, past, (moved.bookkeeping.acted _ _ _).mpr hm, hmarked⟩

end Runs

theorem recovered_idle {stale jobs : Jobs} (h : stale.recoverStale = .ok jobs) :
    ∀ row ∈ jobs.rows, row.isRunning = false := by
  intro row' hrow'
  rw [Jobs.update_rows h] at hrow'
  obtain ⟨row, -, rfl⟩ := List.mem_map.mp hrow'
  split
  next => rfl
  next hidle => simpa using hidle

/-- `Delete` of this app writes nothing and returns an error, which is the delete guard's when
the database answers. -/
def DeleteRefused (rt : Runtime) (s : Server) (id : String) : Prop :=
  ∃ ready effect next, rt.program (.deleteApp id) = .act ready effect next ∧
    ∀ k, effect s k = (s, []) ∧ ∃ e, next s k = .ret (.appWritten (.error e)) ∧
      (k.fault = none → e = .activeDeployExists)

theorem running_deleteRefused (rt : Runtime) {s : Server} {appID id : String}
    (h : RunsFor s.jobs appID id) : DeleteRefused rt s appID := by
  obtain ⟨row, hrow, happ, -, hrunning⟩ := h
  have hrefused : deleteApp s.jobs s.apps appID = .error .activeDeployExists :=
    deleteApp_refused hrow happ hrunning
  refine ⟨_, _, _, rfl, ?_⟩
  rintro ⟨fault, bytes⟩
  cases fault with
  | some text => exact ⟨rfl, _, rfl, by simp⟩
  | none =>
    refine ⟨?_, .activeDeployExists, ?_, fun _ => rfl⟩
    · simp [hrefused, bind, Except.bind]
    · simp [hrefused, bind, Except.bind]
      rfl

/-- The exclusion of deploys by app in one state of the server. -/
structure AppExclusion (rt : Runtime) (s₀ : Server) (c : Coordinator) : Prop where
  oneRunner : ∀ (i j : ℕ) (run run' : Run), c.runs[i]? = some run → c.runs[j]? = some run' →
    run.stage = .executing → run'.stage = .executing → run.app.id = run'.app.id → i = j
  oneRunning : ∀ stale : Jobs, stale.recoverStale = .ok s₀.jobs → c.markDoneFailed = false →
    ∀ row ∈ c.pool.shared.jobs.rows, ∀ other ∈ c.pool.shared.jobs.rows,
      row.isRunning = true → other.isRunning = true → row.appID = other.appID → row = other
  deleteRefused : IdsFresh s₀ c.pool.history → ∀ (i : ℕ) (run : Run), c.runs[i]? = some run →
    run.stage = .executing → ¬ MarkedTerminal run.jobID c.pool.history →
    DeleteRefused rt c.pool.shared run.app.id

/-- Over every interleaving of the scheduler, its deploys and the requests, an app has one runner
at a time, one running row, and cannot be deleted under its runner. -/
theorem apps_exclusive {rt : Runtime} {s₀ : Server} {c : Coordinator}
    (reach : CoordinatorReaches rt s₀ c) : AppExclusion rt s₀ c where
  oneRunner i j run run' hi hj hs hs' happ := by
    have hexclusive := exclusive_reaches reach
    exact hexclusive.unique i j run run' hi hj (by simp [Run.alive, hs]) (by simp [Run.alive, hs'])
      happ
  oneRunning stale hrecovered hok row hrow other hother hr ho happ :=
    running_unique (recovered_idle hrecovered) reach hok hrow hother hr ho happ
  deleteRefused hfresh i run hi hs hopen := by
    have hworks : c.Works run.app.id run.jobID := Or.inr ⟨i, run, hi, hs, rfl, rfl⟩
    rcases works_runs reach hfresh _ _ hworks with hruns | hmarked
    · exact running_deleteRefused rt hruns
    · exact absurd hmarked hopen

def api : App := ⟨"a", "api", "h", "/srv/api", "api", "acme/api", "api", true⟩

/-- One app with one pending job. -/
def onePending : Server :=
  .started
    ⟨[⟨"j1", 1, "a", "v1", .pending, .webhook, none, none, 0, 0, 0, ""⟩], by decide, by decide⟩
    ⟨[api], by decide, by decide, by decide, by decide⟩

/-- The scheduler lists the apps, dequeues the job and starts its deploy. -/
theorem onePending_deployed : ∃ c, CoordinatorReaches ⟨1, id, id⟩ onePending c ∧
    c.runs = [⟨api, "j1", "v1", .executing, none⟩] ∧
    c.pool.shared.jobs.rows.map (fun row => (row.id, row.status)) = [("j1", .inProgress)] ∧
    insertsIn (steps c.pool.history) = [] ∧
    c.pool.history.all (fun | .acted _ (.checkpoint _ _) _ => false | _ => true) = true := by
  have reach : CoordinatorReaches ⟨1, id, id⟩ onePending (.started onePending) := .start
  replace reach := reach.next (.list rfl)
  replace reach := reach.next (.act ⟨none, ""⟩ (t := 0) rfl rfl)
  replace reach := reach.next (.listed rfl rfl)
  replace reach := reach.next (.free rfl rfl (by decide))
  replace reach := reach.next (.dequeue rfl)
  replace reach := reach.next (.act ⟨none, ""⟩ (t := 1) rfl rfl)
  replace reach := reach.next (.act ⟨none, ""⟩ (t := 1) rfl rfl)
  replace reach := reach.next (.dequeued rfl rfl)
  replace reach := reach.next (.claim rfl)
  replace reach := reach.next (.spawn rfl)
  exact ⟨_, reach, rfl, rfl, rfl, rfl⟩

theorem apps_exclusive_onePending : ∃ c, CoordinatorReaches ⟨1, id, id⟩ onePending c ∧
    c.runs = [⟨api, "j1", "v1", .executing, none⟩] ∧
    c.pool.shared.jobs.rows.map (fun row => (row.id, row.status)) = [("j1", .inProgress)] ∧
    DeleteRefused ⟨1, id, id⟩ c.pool.shared "a" := by
  obtain ⟨c, reach, hruns, hrows, hinserts, hall⟩ := onePending_deployed
  have hfresh : IdsFresh onePending c.pool.history := by
    rw [IdsFresh, hinserts]
    exact (by decide : ["j1"].Nodup)
  have hopen : ¬ MarkedTerminal "j1" c.pool.history := by
    rintro ⟨t, phase, st, hm, -⟩
    simpa using List.all_eq_true.mp hall _ hm
  have hrun : c.runs[0]? = some ⟨api, "j1", "v1", .executing, none⟩ := by
    rw [hruns]
    rfl
  have hrefused := (apps_exclusive reach).deleteRefused hfresh 0 _ hrun rfl hopen
  exact ⟨c, reach, hruns, hrows, hrefused⟩

end AutoDeploy
