import AutoDeploy.CallsReturn
import AutoDeploy.CoordinatorServed
import AutoDeploy.QueueOrder

namespace AutoDeploy

open Interleaving

/-- A step with which no request comes in. -/
structure GoesOn (rt : Runtime) (c c' : Coordinator) : Prop where
  step : CoordinatorStep rt c c'
  noRequest : ∀ thread ∈ c'.pool.threads.drop c.pool.threads.length, thread.call.external = false

abbrev GoesOnTo (rt : Runtime) : Coordinator → Coordinator → Prop :=
  Relation.ReflTransGen (GoesOn rt)

/-- The jobs of an app that wait, as they stand in the table. -/
def Server.waiting (s : Server) (appID : String) : List String :=
  (s.jobs.rows.filter (Jobs.isPendingOf appID)).map JobRow.id

/-- The apps are the same, and the same jobs wait. -/
structure SameQueue (s s' : Server) : Prop where
  apps : s'.apps = s.apps
  waiting : ∀ appID, s'.waiting appID = s.waiting appID

theorem SameQueue.refl (s : Server) : SameQueue s s := ⟨rfl, fun _ => rfl⟩

theorem SameQueue.trans {s mid s' : Server} (h : SameQueue s mid) (h' : SameQueue mid s') :
    SameQueue s s' :=
  ⟨h'.apps.trans h.apps, fun appID => (h'.waiting appID).trans (h.waiting appID)⟩

/-- Every call that has started is going to return, and none is a request. -/
def AtRest (threads : ServerThreads) : Prop :=
  ∀ (t : ℕ) (call : Call) (rest : Op Reply), threads[t]? = some ⟨call, some rest⟩ →
    (∃ value, rest = .ret value) ∧ call.external = false

section Statements

variable {s : Server} {appID : String}

/-- A row that stays what it is about, and pending exactly when it was. -/
theorem waiting_map {jobs : Jobs} {set : JobRow → JobRow} (hrows : jobs.rows = s.jobs.rows.map set)
    (hid : ∀ row, (set row).id = row.id)
    (hpending : ∀ row ∈ s.jobs.rows,
      Jobs.isPendingOf appID (set row) = Jobs.isPendingOf appID row) :
    { s with jobs := jobs }.waiting appID = s.waiting appID := by
  unfold Server.waiting
  rw [hrows, List.filter_map, List.map_map]
  have hfilter : s.jobs.rows.filter (Jobs.isPendingOf appID ∘ set) =
      s.jobs.rows.filter (Jobs.isPendingOf appID) := List.filter_congr hpending
  rw [hfilter]
  exact List.map_congr_left fun row _ => hid row

theorem markDone_waiting (id : String) (success : Bool) (errMsg : String)
    (summary : Option DownloadSummary) :
    ∃ jobs, s.jobs.markDone id success errMsg summary = .ok jobs ∧
      ∀ appID, { s with jobs := jobs }.waiting appID = s.waiting appID := by
  obtain ⟨jobs, hjobs⟩ : ∃ jobs, s.jobs.markDone id success errMsg summary = .ok jobs :=
    s.jobs.update_ok (Jobs.markDone_tame success errMsg summary)
  refine ⟨jobs, hjobs, fun appID => waiting_map (Jobs.update_rows hjobs) ?_ ?_⟩
  · intro row
    split <;> rfl
  · intro row _
    split
    next h =>
      have hbefore : Jobs.isPendingOf appID row = false := by
        have hrunning : row.status.isRunning = true := (Bool.and_eq_true_iff.mp h).2
        unfold Jobs.isPendingOf
        cases hs : row.status <;> simp_all [JobStatus.isRunning]
      have hafter : Jobs.isPendingOf appID (row.markDone success errMsg summary) = false := by
        unfold Jobs.isPendingOf JobRow.markDone
        cases success <;> simp
      rw [hbefore, hafter]
    next => rfl

theorem dequeueNext_ok (jobs : Jobs) (appID : String) :
    ∃ picked after, jobs.dequeueNext appID = .ok (picked, after) := by
  unfold Jobs.dequeueNext
  cases hnext : jobs.nextPending appID with
  | none => exact ⟨none, jobs, rfl⟩
  | some job =>
    obtain ⟨hm, -, hpending⟩ := Jobs.nextPending_mem hnext
    have htame : Jobs.Tame fun row => if row.isActive then { row with status := .inProgress }
        else row := by
      constructor
      all_goals
        intro row
        cases h : row.isActive <;> simp [h, JobRow.activeKey]
    obtain ⟨after, hafter⟩ :
        ∃ after, jobs.update (fun row => row.id == job.id) (fun row =>
          if row.isActive then { row with status := .inProgress } else row) = .ok after :=
      jobs.update_ok htame
    refine ⟨some job, after, ?_⟩
    have hsame : jobs.update (fun row => row.id == job.id) (fun row =>
        { row with status := .inProgress }) = .ok after := by
      rw [← hafter]
      unfold Jobs.update
      congr 1
      apply List.map_congr_left
      intro row hrow
      by_cases hid : row.id = job.id
      · obtain rfl := jobs.eq_of_id_eq hrow hm hid
        simp [JobRow.isActive, hpending, JobStatus.isActive]
      · simp [hid]
    simp only [hsame]
    rfl

theorem dequeueNext_nobody {jobs : Jobs} (h : s.jobs.dequeueNext appID = .ok (none, jobs)) :
    jobs = s.jobs ∧ s.waiting appID = [] := by
  refine ⟨Jobs.dequeueNext_none h, ?_⟩
  unfold Jobs.dequeueNext at h
  cases hnext : s.jobs.nextPending appID with
  | none =>
    unfold Server.waiting
    rw [List.argmin_eq_none.mp hnext, List.map_nil]
  | some job =>
    simp only [hnext] at h
    cases hu : s.jobs.update (fun row => row.id == job.id)
        (fun row => { row with status := .inProgress }) with
    | error e => rw [hu] at h; cases h
    | ok after => rw [hu] at h; cases h

/-- The first job of the app that waits is taken, and no other. -/
theorem dequeueNext_waiting (hordered : s.jobs.Ordered) {job : JobRow} {jobs : Jobs}
    (h : s.jobs.dequeueNext appID = .ok (some job, jobs)) :
    s.waiting appID = job.id :: { s with jobs := jobs }.waiting appID ∧
      ∀ other, other ≠ appID → { s with jobs := jobs }.waiting other = s.waiting other := by
  obtain ⟨hnext, hrows⟩ := Jobs.dequeueNext_some h
  obtain ⟨hm, rfl, hpending⟩ := Jobs.nextPending_mem hnext
  obtain ⟨-, earlier, later, hsplit, hearlier⟩ := nextPending_first hordered hnext
  have hnodup : s.jobs.rows.Nodup := s.jobs.primaryKey.of_map JobRow.id
  constructor
  · have hlater : ∀ row ∈ later, row ≠ job := by
      rintro row hrow rfl
      rw [hsplit, List.nodup_append, List.nodup_cons] at hnodup
      exact hnodup.2.1.1 hrow
    have hbefore : earlier.filter (Jobs.isPendingOf job.appID) = [] := by
      rw [List.filter_eq_nil_iff]
      intro row hrow hp
      simp only [Jobs.isPendingOf, Bool.and_eq_true, beq_iff_eq] at hp
      exact hearlier row hrow hp.1 hp.2
    have hself : Jobs.isPendingOf job.appID job = true := by simp [Jobs.isPendingOf, hpending]
    have hkept : ∀ rows : List JobRow, (∀ row ∈ rows, row ≠ job) →
        rows.map (fun row => if row = job then { job with status := .inProgress } else row) =
          rows := by
      intro rows hne
      rw [List.map_congr_left fun row hrow => if_neg (hne row hrow), List.map_id']
    have hfirst : ∀ row ∈ earlier, row ≠ job := by
      rintro row hrow rfl
      exact hearlier row hrow rfl hpending
    have hafter : jobs.rows = earlier ++ { job with status := .inProgress } :: later := by
      rw [hrows, hsplit, List.map_append, List.map_cons, if_pos rfl, hkept earlier hfirst,
        hkept later hlater]
    unfold Server.waiting
    dsimp only
    rw [hafter, hsplit, List.filter_append, List.filter_append, hbefore,
      List.filter_cons_of_pos hself, List.filter_cons_of_neg (by simp [Jobs.isPendingOf])]
    rfl
  · intro other hne
    apply waiting_map hrows
    · intro row
      split
      next he => rw [he]
      next => rfl
    · intro row _
      split
      next he =>
        subst he
        have hother : (row.appID == other) = false := by simpa using Ne.symm hne
        simp [Jobs.isPendingOf, hother]
      next => rfl

end Statements

section Pool

variable {rt : Runtime} {s₀ : Server} {c c' : Coordinator}

theorem CoordinatorReaches.goesOn (reach : CoordinatorReaches rt s₀ c)
    (h : GoesOnTo rt c c') : CoordinatorReaches rt s₀ c' := by
  induction h with
  | refl => exact reach
  | tail _ hlast ih => exact ih.next hlast.step

/-- A step that starts no call. -/
theorem goesOn_same (step : CoordinatorStep rt c c')
    (hlength : c'.pool.threads.length = c.pool.threads.length) : GoesOn rt c c' where
  step := step
  noRequest thread hm := by
    rw [← hlength, List.drop_length] at hm
    cases hm

/-- A step that starts a call of the coordinator. -/
theorem goesOn_begin {call : Call} (step : CoordinatorStep rt c c')
    (hinternal : call.external = false)
    (hthreads : c'.pool.threads = c.pool.threads ++ [⟨call, some (rt.program call)⟩]) :
    GoesOn rt c c' where
  step := step
  noRequest thread hm := by
    rw [hthreads, List.drop_left] at hm
    rw [List.mem_singleton.mp hm]
    exact hinternal

/-- The calls go on while the coordinator waits. -/
theorem goesOn_acts {pool : ServerConfig}
    (h : Relation.ReflTransGen Acts c.pool pool) : GoesOnTo rt c { c with pool := pool } := by
  induction h with
  | refl => exact .refl
  | tail _ hlast ih =>
    refine ih.tail ?_
    obtain ⟨k, ht, hready⟩ := hlast
    exact goesOn_same (.act k ht hready) (by simp [Config.perform])

theorem coordinator_mannered (hopen : ∀ m : ServerMutex, m.locked s₀ = false)
    (reach : CoordinatorReaches rt s₀ c) : ∃ holds, Mannered ServerMutex.locked holds c.pool :=
  reaches_mannered (orderly_program rt) hopen (coordinator_pool reach)

theorem resting_open (hopen : ∀ m : ServerMutex, m.locked s₀ = false)
    (reach : CoordinatorReaches rt s₀ c) (hresting : AtRest c.pool.threads) (m : ServerMutex) :
    m.locked c.pool.shared = false := by
  obtain ⟨holds, h⟩ := coordinator_mannered hopen reach
  refine h.open ?_ m
  rintro t ⟨call, ready, effect, next, ht⟩
  obtain ⟨⟨value, hvalue⟩, -⟩ := hresting t call _ ht
  cases hvalue

/-- Without new requests, all that have come in are answered. -/
theorem rests (hopen : ∀ m : ServerMutex, m.locked s₀ = false)
    (reach : CoordinatorReaches rt s₀ c) :
    ∃ pool, GoesOnTo rt c { c with pool := pool } ∧ AtRest pool.threads := by
  obtain ⟨pool, stage⟩ : ∃ pool, pool = c.pool := ⟨_, rfl⟩
  induction pool using advances_wf.induction generalizing c with
  | _ pool ih =>
    subst stage
    by_cases hacting : ∃ t, c.pool.Acting t
    · obtain ⟨t, hacting⟩ := hacting
      obtain ⟨holds, h⟩ := coordinator_mannered hopen reach
      obtain ⟨u, call, ready, effect, next, hu, hready⟩ := h.acts hacting
      have hacts := Acts.intro ⟨none, ""⟩ hu (hready ⟨none, ""⟩)
      have hstep : GoesOnTo rt c _ := goesOn_acts (.single hacts)
      obtain ⟨pool, hgoes, hresting⟩ :=
        ih _ (.act hacts) (reach.goesOn hstep) rfl
      exact ⟨pool, hstep.trans hgoes, hresting⟩
    · by_cases hexternal : ∃ (t : ℕ) (call : Call) (value : Reply), call.external = true ∧
          c.pool.threads[t]? = some ⟨call, some (.ret value)⟩
      · obtain ⟨t, call, value, hcall, ht⟩ := hexternal
        have hstep : GoesOn rt c (c.finish t call value) :=
          goesOn_same (.respond hcall ht) (by simp [Coordinator.finish, Config.finish])
        obtain ⟨pool, hgoes, hresting⟩ :=
          ih _ (.ret ht) (reach.next hstep.step) rfl
        exact ⟨pool, .head hstep hgoes, hresting⟩
      · refine ⟨c.pool, .refl, fun t call rest ht => ?_⟩
        cases rest with
        | act ready effect next => exact absurd ⟨t, call, ready, effect, next, ht⟩ hacting
        | ret value =>
          refine ⟨⟨value, rfl⟩, ?_⟩
          cases he : call.external with
          | false => rfl
          | true => exact absurd ⟨t, call, value, he, ht⟩ hexternal

/-- What the calls are answered where no database error comes in between. -/
def untroubled : ℕ → Choice := fun _ => ⟨none, ""⟩

/-- The newest call runs to its return while the coordinator waits. -/
theorem call_alone {call : Call} {threads : ServerThreads}
    (hfree : ∀ m : ServerMutex, m.locked c.pool.shared = false)
    (hthreads : c.pool.threads = threads ++ [⟨call, some (rt.program call)⟩]) :
    ∃ pool value, GoesOnTo rt c { c with pool := pool } ∧
      pool.shared = ((rt.program call).alone untroubled c.pool.shared).state ∧
      value = ((rt.program call).alone untroubled c.pool.shared).value ∧
      pool.threads = threads ++ [⟨call, some (.ret value)⟩] := by
  have ht : c.pool.threads[threads.length]? = some ⟨call, some (rt.program call)⟩ := by
    rw [hthreads, List.getElem?_concat_length]
  obtain ⟨pool, hacts, hshared, hset⟩ :=
    acts_alone untroubled (orderly_program rt call) (fun m => by rw [hfree m]; simp) ht
  refine ⟨pool, _, goesOn_acts hacts, hshared, rfl, ?_⟩
  rw [hset, hthreads]
  simp

theorem resting_done {threads : ServerThreads} {call : Call} (h : AtRest threads) :
    AtRest (threads ++ [⟨call, none⟩]) := by
  intro t other rest ht
  by_cases hlt : t < threads.length
  · rw [List.getElem?_append_left hlt] at ht
    exact h t other rest ht
  · rw [List.getElem?_append_right (by omega), List.getElem?_singleton] at ht
    split at ht <;> cases ht

theorem resting_finish {threads : ServerThreads} {t : ℕ} {call : Call} (h : AtRest threads) :
    AtRest (threads.set t ⟨call, none⟩) := by
  intro u other rest hu
  by_cases he : t = u
  · subst he
    by_cases hlt : t < threads.length
    · rw [List.getElem?_set_self hlt] at hu
      cases hu
    · rw [List.getElem?_eq_none (by simpa using hlt)] at hu
      cases hu
  · rw [List.getElem?_set_ne he] at hu
    exact h u other rest hu

/-- `MarkDone` changes no app, and no job that waits. -/
theorem markDone_alone (answers : ℕ → Choice) (id : String) (success : Bool) (errMsg : String)
    (summary : Option DownloadSummary) (s : Server) :
    SameQueue s ((rt.program (.markDone id success errMsg summary)).alone answers s).state := by
  have hexec : (execJobs fun jobs => jobs.markDone id success errMsg summary).Wp
      (fun _ s' _ => SameQueue s s') [] s := by
    apply Prog.wp_atomic
    intro k
    cases k.fault with
    | some text => exact .refl s
    | none =>
      obtain ⟨jobs, hjobs, hwaiting⟩ := markDone_waiting (s := s) id success errMsg summary
      simp only [hjobs]
      exact ⟨rfl, hwaiting⟩
  have hprogram : (rt.program (.markDone id success errMsg summary)).Wp
      (fun _ s' _ => SameQueue s s') [] s := by
    apply Prog.wp_map
    apply Prog.wp_bind hexec
    intro own s' value h
    apply Prog.wp_bind (P := fun _ s' _ => SameQueue s s')
    · exact fun k => h.trans ⟨rfl, fun _ => rfl⟩
    · exact fun _ _ _ h => h
  exact Prog.alone_wp answers hprogram

end Pool

section Runs

variable {rt : Runtime} {s₀ : Server} {c c' : Coordinator} {i : ℕ} {run : Run}

/-- What the steps that finish the deploys leave as it is. -/
structure Finishing (rt : Runtime) (c c' : Coordinator) : Prop where
  goesOn : GoesOnTo rt c c'
  resting : AtRest c'.pool.threads
  stage : c'.stage = c.stage
  queue : SameQueue c.pool.shared c'.pool.shared

theorem Finishing.trans {mid : Coordinator} (h : Finishing rt c mid) (h' : Finishing rt mid c') :
    Finishing rt c c' :=
  ⟨h.goesOn.trans h'.goesOn, h'.resting, h'.stage.trans h.stage, h.queue.trans h'.queue⟩

/-- The call that a deploy waits for returns. -/
theorem run_returned (hi : c.runs[i]? = some run) {t : ℕ}
    {call : Call} {value : Reply} (hw : run.waits = some (t, call))
    (ht : c.pool.threads[t]? = some ⟨call, some (.ret value)⟩) :
    ∃ c', GoesOn rt c c' ∧ c'.stage = c.stage ∧
      c'.runs = c.runs.set i { run with stage := run.stage.afterCall, waits := none } ∧
      c'.pool.shared = c.pool.shared ∧ c'.pool.threads = c.pool.threads.set t ⟨call, none⟩ := by
  refine ⟨_, goesOn_same (.returned hi hw ht) ?_, rfl, rfl, rfl, rfl⟩
  simp [Coordinator.setRun, Coordinator.finish, Config.finish]

theorem run_returns (reach : CoordinatorReaches rt s₀ c)
    (hresting : AtRest c.pool.threads) (hi : c.runs[i]? = some run) {w : ℕ × Call}
    (hw : run.waits = some w) :
    ∃ c', Finishing rt c c' ∧
      c'.runs = c.runs.set i { run with stage := run.stage.afterCall, waits := none } := by
  obtain ⟨t, call⟩ := w
  obtain ⟨rest, ht⟩ := (served_reaches reach).waited (t, call) (Or.inr ⟨i, run, hi, hw⟩)
  obtain ⟨⟨value, rfl⟩, -⟩ := hresting t call rest ht
  obtain ⟨c', hgoes, hstage, hruns, hshared, hthreads⟩ := run_returned hi hw ht
  exact ⟨c', ⟨.single hgoes, hthreads ▸ resting_finish hresting, hstage,
    hshared ▸ .refl _⟩, hruns⟩

/-- A runner returns, and its result is written. -/
theorem run_marks (hfree : ∀ m : ServerMutex, m.locked c.pool.shared = false)
    (hresting : AtRest c.pool.threads)
    (hi : c.runs[i]? = some run) (hs : run.stage = .executing) (hw : run.waits = none)
    (err : Option String) (summary : DownloadSummary) :
    ∃ c', Finishing rt c c' ∧
      c'.runs = c.runs.set i { run with stage := .logging, waits := none } := by
  have hlt := (List.getElem?_eq_some_iff.mp hi).1
  obtain ⟨marking, hmarking⟩ : ∃ marking, marking = (c.begin rt (run.markDone err summary)).setRun i
    { run with
      stage := .marking
      waits := some (c.pool.threads.length, run.markDone err summary) } := ⟨_, rfl⟩
  have hbegins : GoesOn rt c marking :=
    hmarking ▸ goesOn_begin (.runnerReturned err summary hi hs hw) rfl rfl
  have hnew : marking.pool.threads = c.pool.threads ++
      [⟨run.markDone err summary, some (rt.program (run.markDone err summary))⟩] := hmarking ▸ rfl
  obtain ⟨pool, value, hgoes, hshared, -, hthreads⟩ :=
    call_alone (hmarking ▸ hfree) hnew
  have ht : pool.threads[c.pool.threads.length]? =
      some ⟨run.markDone err summary, some (.ret value)⟩ := by
    rw [hthreads, List.getElem?_concat_length]
  have hrun : marking.runs[i]? = some { run with
      stage := .marking
      waits := some (c.pool.threads.length, run.markDone err summary) } := by
    rw [hmarking]
    exact List.getElem?_set_self hlt
  obtain ⟨c', hreturned, hstage, hruns, hshared', hthreads'⟩ :=
    run_returned (c := { marking with pool := pool }) hrun rfl ht
  refine ⟨c', ⟨.head hbegins (hgoes.tail hreturned), ?_, ?_, ?_⟩, ?_⟩
  · rw [hthreads', hthreads, List.set_append_right _ _ le_rfl]
    simpa using resting_done hresting
  · rw [hstage, hmarking]
    rfl
  · rw [hshared', hshared, hmarking]
    exact markDone_alone untroubled _ _ _ _ _
  · rw [hruns, hmarking]
    simp only [Coordinator.setRun, Coordinator.begin, List.set_set]
    rfl

/-- A deploy in front of its deferred functions leaves the map. -/
theorem run_clears (hresting : AtRest c.pool.threads)
    (hi : c.runs[i]? = some run) (hs : run.stage = .ending) :
    ∃ c', Finishing rt c c' ∧ c'.runs = c.runs.set i { run with stage := .ended } :=
  ⟨_, ⟨.single (goesOn_same (.clear hi hs) rfl), hresting, rfl, .refl _⟩, rfl⟩

/-- The deploy can go on to its end, and nothing else changes. -/
def RunEnds (rt : Runtime) (c : Coordinator) (i : ℕ) (run : Run) : Prop :=
  ∃ c', Finishing rt c c' ∧ c'.runs = c.runs.set i { run with stage := .ended, waits := none }

theorem RunEnds.after {mid : Coordinator} {stage : RunStage} {waits : Option (ℕ × Call)}
    (h : Finishing rt c mid)
    (hruns : mid.runs = c.runs.set i { run with stage := stage, waits := waits })
    (hends : RunEnds rt mid i { run with stage := stage, waits := waits }) :
    RunEnds rt c i run := by
  obtain ⟨c', hfinishing, hended⟩ := hends
  refine ⟨c', h.trans hfinishing, ?_⟩
  rw [hended, hruns, List.set_set]

theorem runEnds_ending (hresting : AtRest c.pool.threads)
    (hi : c.runs[i]? = some run) (hs : run.stage = .ending) (hw : run.waits = none) :
    RunEnds rt c i run := by
  obtain ⟨c', hfinishing, hruns⟩ : ∃ c', Finishing rt c c' ∧
      c'.runs = c.runs.set i { run with stage := .ended } := run_clears hresting hi hs
  exact ⟨c', hfinishing, by rw [hruns, hw]⟩

theorem runEnds_logging (hresting : AtRest c.pool.threads)
    (hi : c.runs[i]? = some run) (hs : run.stage = .logging) (hw : run.waits = none) :
    RunEnds rt c i run := by
  have hlt := (List.getElem?_eq_some_iff.mp hi).1
  have hlogs : Finishing rt c (c.setRun i { run with stage := .ending }) :=
    ⟨.single (goesOn_same (.noLog hi hs hw) rfl), hresting, rfl, .refl _⟩
  obtain ⟨app, jobID, tag, stage, waits⟩ := run
  obtain rfl : waits = none := hw
  exact .after hlogs rfl
    (runEnds_ending hresting (List.getElem?_set_self hlt) rfl rfl)

theorem runEnds_executing (hopen : ∀ m : ServerMutex, m.locked s₀ = false)
    (reach : CoordinatorReaches rt s₀ c)
    (hresting : AtRest c.pool.threads) (hi : c.runs[i]? = some run) (hs : run.stage = .executing)
    (hw : run.waits = none) : RunEnds rt c i run := by
  have hlt := (List.getElem?_eq_some_iff.mp hi).1
  obtain ⟨mid, hfinishing, hruns⟩ := run_marks (resting_open hopen reach hresting) hresting
    hi hs hw none ⟨0, 0, 0⟩
  refine .after hfinishing hruns ?_
  apply runEnds_logging hfinishing.resting _ rfl rfl
  rw [hruns]
  exact List.getElem?_set_self hlt

theorem runEnds (hopen : ∀ m : ServerMutex, m.locked s₀ = false)
    (reach : CoordinatorReaches rt s₀ c)
    (hresting : AtRest c.pool.threads) (hi : c.runs[i]? = some run) (halive : run.alive) :
    RunEnds rt c i run := by
  have hlt := (List.getElem?_eq_some_iff.mp hi).1
  have hattended := attended_reaches reach
  cases hw : run.waits with
  | none =>
    cases hs : run.stage with
    | executing => exact runEnds_executing hopen reach hresting hi hs hw
    | marking => exact absurd hw ((served_reaches reach).marking i run hi hs)
    | logging => exact runEnds_logging hresting hi hs hw
    | ending => exact runEnds_ending hresting hi hs hw
    | ended => exact absurd hs halive
  | some w =>
    -- The goroutine waits for a call, which returns first.
    obtain ⟨mid, hfinishing, hruns⟩ := run_returns reach hresting hi hw
    have hmid := reach.goesOn hfinishing.goesOn
    have hi' : mid.runs[i]? = some { run with stage := run.stage.afterCall, waits := none } := by
      rw [hruns]
      exact List.getElem?_set_self hlt
    refine .after hfinishing hruns ?_
    have hcalls := hattended.calls i run hi w hw
    cases hs : run.stage with
    | executing =>
      rw [hs] at hi'
      exact runEnds_executing hopen hmid hfinishing.resting hi' rfl rfl
    | marking =>
      rw [hs] at hi'
      exact runEnds_logging hfinishing.resting hi' rfl rfl
    | logging =>
      rw [hs] at hi'
      exact runEnds_ending hfinishing.resting hi' rfl rfl
    | ending | ended => simp [Run.Calls, hs] at hcalls

/-- All deploys can go on to their ends. -/
theorem runs_end (hopen : ∀ m : ServerMutex, m.locked s₀ = false)
    (reach : CoordinatorReaches rt s₀ c)
    (hresting : AtRest c.pool.threads) :
    ∃ c', Finishing rt c c' ∧ ∀ run ∈ c'.runs, run.stage = .ended := by
  obtain ⟨n, hn⟩ : ∃ n, n = c.runs.countP fun run => !(run.stage == .ended) := ⟨_, rfl⟩
  induction n generalizing c with
  | zero =>
    refine ⟨c, ⟨.refl, hresting, rfl, .refl _⟩, fun run hm => ?_⟩
    simpa using List.countP_eq_zero.mp hn.symm run hm
  | succ n ih =>
    have hpos : 0 < c.runs.countP fun run => !(run.stage == .ended) := by omega
    obtain ⟨run, hm, halive⟩ := List.countP_pos_iff.mp hpos
    obtain ⟨i, hi⟩ := List.mem_iff_getElem?.mp hm
    obtain ⟨hlt, hget⟩ := List.getElem?_eq_some_iff.mp hi
    obtain ⟨mid, hfinishing, hruns⟩ :=
      runEnds hopen reach hresting hi (by simpa [Run.alive] using halive)
    have hcount : n = mid.runs.countP fun run => !(run.stage == .ended) := by
      rw [hruns, List.countP_set hlt, hget, halive]
      simp
      omega
    obtain ⟨c', hrest, hended⟩ := ih (reach.goesOn hfinishing.goesOn)
      hfinishing.resting hcount
    exact ⟨c', hfinishing.trans hrest, hended⟩

end Runs

end AutoDeploy
