import AutoDeploy.CoordinatorListing
import AutoDeploy.CoordinatorProgress
import AutoDeploy.GracefulRestart

namespace AutoDeploy

open Interleaving

/-- No request is on its way, and no deploy. -/
structure Settled (c : Coordinator) : Prop where
  resting : AtRest c.pool.threads
  runs : ∀ run ∈ c.runs, run.stage = .ended

/-- The deploys `new` of these apps were done on the way, and each took the job of its app that
had waited for the longest time. -/
structure Deploys (rt : Runtime) (listing : List App) (c : Coordinator)
    (new : List Run) (c' : Coordinator) : Prop where
  goesOn : GoesOnTo rt c c'
  settled : Settled c'
  apps : c'.pool.shared.apps = c.pool.shared.apps
  runs : c'.runs = c.runs ++ new
  waiting : ∀ appID, c.pool.shared.waiting appID =
    (new.filter fun run => run.app.id == appID).map Run.jobID ++ c'.pool.shared.waiting appID
  enabled : ∀ run ∈ new, run.app ∈ listing ∧ run.app.enabled = true

section Replies

variable {rt : Runtime} {s₀ s : Server} {c : Coordinator}

/-- `List` and `DequeueNext` are answered with what the scheduler takes. -/
theorem scheduler_reply (reach : CoordinatorReaches rt s₀ c) {t : ℕ} {call : Call} {value : Reply}
    (ht : c.pool.threads[t]? = some ⟨call, some (.ret value)⟩) :
    (call = .listApps → ∃ result, value = .listed result) ∧
      ∀ id, call = .dequeueNext id → ∃ result, value = .dequeued result := by
  have hsafe : ∀ call : Call, (rt.program call).Safe (fun _ => True) (fun _ _ => True)
      (fun _ value => (call = .listApps → ∃ result, value = .listed result) ∧
        ∀ id, call = .dequeueNext id → ∃ result, value = .dequeued result) [] := by
    intro call
    cases call with
    | listApps =>
      apply Prog.safe_map
      exact Prog.Safe.imp Prog.safe_trivial (fun _ _ _ => trivial)
        fun _ value _ => ⟨fun _ => ⟨value, rfl⟩, by simp⟩
    | dequeueNext appID =>
      apply Prog.safe_map
      exact Prog.Safe.imp Prog.safe_trivial (fun _ _ _ => trivial)
        fun _ value _ => ⟨by simp, fun _ _ => ⟨value, rfl⟩⟩
    | _ =>
      exact Prog.Safe.imp Prog.safe_trivial (fun _ _ _ => trivial) fun _ _ _ => ⟨by simp, by simp⟩
  have hsound := reaches_sound hsafe (fun _ _ _ _ _ => trivial) trivial (coordinator_pool reach)
  exact hsound.threads t call _ ht

theorem listApps_alone :
    ((rt.program .listApps).alone untroubled s).state = s ∧
      ((rt.program .listApps).alone untroubled s).value = .listed (.ok s.apps.rows) :=
  ⟨rfl, rfl⟩

theorem dequeueNext_alone {appID : String} {picked : Option JobRow} {jobs : Jobs}
    (h : s.jobs.dequeueNext appID = .ok (picked, jobs)) :
    ((rt.program (.dequeueNext appID)).alone untroubled s).state.apps = s.apps ∧
      ((rt.program (.dequeueNext appID)).alone untroubled s).state.jobs = jobs ∧
      ((rt.program (.dequeueNext appID)).alone untroubled s).value =
        .dequeued (.ok (picked.map fun job => (job.id, job.tag))) := by
  have hprogram : rt.program (.dequeueNext appID) =
      dequeueNext appID >>= fun result => pure (Reply.dequeued result) := rfl
  rw [hprogram, Prog.alone_bind]
  unfold dequeueNext
  rw [Prog.alone_bind]
  cases picked with
  | none => simp [exec, untroubled, h]
  | some job => simp [exec, untroubled, h, invalidateActiveJobsCache, Prog.alone_bind, Prog.await,
      Prog.alone]

end Replies

section Passes

variable {rt : Runtime} {s₀ : Server} {listing listing' rest : List App} {c mid c' : Coordinator}
  {new new' : List Run} {app : App} {appID jobID tag : String}

theorem coordinator_ordered (hordered : s₀.jobs.Ordered) (reach : CoordinatorReaches rt s₀ c) :
    c.pool.shared.jobs.Ordered :=
  visited_ordered hordered (coordinator_pool reach) _ (shared_mem_visited (coordinator_pool reach))

theorem Settled.active (h : Settled c) (reach : CoordinatorReaches rt s₀ c)
    (hspawns : ∀ id, ¬ c.stage.Spawns id) : c.activeApps = [] := by
  refine List.eq_nil_iff_forall_not_mem.mpr fun id hm => ?_
  rcases (served_reaches reach).active id hm with ⟨i, run, hi, halive, -⟩ | hspawning
  · exact halive (h.runs run (List.mem_of_getElem? hi))
  · exact hspawns id hspawning

theorem Deploys.refl (h : Settled c) : Deploys rt listing c [] c :=
  ⟨.refl, h, rfl, by simp, by simp, by simp⟩

theorem Deploys.trans (h : Deploys rt listing c new mid) (h' : Deploys rt listing mid new' c') :
    Deploys rt listing c (new ++ new') c' where
  goesOn := h.goesOn.trans h'.goesOn
  settled := h'.settled
  apps := h'.apps.trans h.apps
  runs := by rw [h'.runs, h.runs, List.append_assoc]
  waiting appID := by
    rw [h.waiting appID, h'.waiting appID, List.filter_append, List.map_append, List.append_assoc]
  enabled run hm := by
    rcases List.mem_append.mp hm with hm | hm
    · exact h.enabled run hm
    · exact h'.enabled run hm

theorem Deploys.mono (h : Deploys rt listing c new c') (hsub : listing ⊆ listing') :
    Deploys rt listing' c new c' :=
  { h with enabled := fun run hm => ⟨hsub (h.enabled run hm).1, (h.enabled run hm).2⟩ }

/-- What the queue does not notice may come first. -/
theorem Deploys.after (hgoes : GoesOnTo rt c mid) (hruns : mid.runs = c.runs)
    (hshared : mid.pool.shared = c.pool.shared) (h : Deploys rt listing mid new c') :
    Deploys rt listing c new c' where
  goesOn := hgoes.trans h.goesOn
  settled := h.settled
  apps := h.apps.trans (congrArg Server.apps hshared)
  runs := h.runs.trans (congrArg (· ++ new) hruns)
  waiting := hshared ▸ h.waiting
  enabled := h.enabled

theorem Deploys.shrinks (h : Deploys rt listing c new c') (appID : String) :
    (c'.pool.shared.waiting appID).length ≤ (c.pool.shared.waiting appID).length := by
  rw [h.waiting appID, List.length_append]
  omega

/-- A claimed job is deployed to its end. -/
theorem claimed_ends (hopen : ∀ m : ServerMutex, m.locked s₀ = false)
    (reach : CoordinatorReaches rt s₀ c) (h : Settled c)
    (hs : c.stage = .spawning app jobID tag rest) :
    ∃ c', GoesOnTo rt c c' ∧ Settled c' ∧ c'.stage = .scanning rest ∧
      c'.runs = c.runs ++ [⟨app, jobID, tag, .ended, none⟩] ∧
      SameQueue c.pool.shared c'.pool.shared := by
  obtain ⟨spawned, hspawned⟩ : ∃ spawned : Coordinator, spawned = { c with
      runs := c.runs ++ [⟨app, jobID, tag, .executing, none⟩], stage := .scanning rest } := ⟨_, rfl⟩
  have hspawns : GoesOn rt c spawned := hspawned ▸ goesOn_same (.spawn hs) rfl
  have hrun : spawned.runs[c.runs.length]? = some ⟨app, jobID, tag, .executing, none⟩ := by
    rw [hspawned]
    exact List.getElem?_concat_length
  obtain ⟨c', hfinishing, hruns⟩ :=
    runEnds hopen (reach.next hspawns.step) (hspawned ▸ h.resting) hrun (by simp [Run.alive])
  have hended : c'.runs = c.runs ++ [⟨app, jobID, tag, .ended, none⟩] := by
    rw [hruns, hspawned]
    simp
  refine ⟨c', .head hspawns hfinishing.goesOn, ⟨hfinishing.resting, ?_⟩, ?_, hended, ?_⟩
  · intro run hm
    rw [hended] at hm
    rcases List.mem_append.mp hm with hm | hm
    · exact h.runs run hm
    · rw [List.mem_singleton.mp hm]
  · rw [hfinishing.stage, hspawned]
  · have hqueue := hfinishing.queue
    rw [hspawned] at hqueue
    exact hqueue

/-- The scheduler makes a call, and goes on with what it is answered. -/
theorem scheduler_calls (hopen : ∀ m : ServerMutex, m.locked s₀ = false)
    (reach : CoordinatorReaches rt s₀ c) (h : Settled c) {call : Call} {stage : SchedulerStage}
    (hinternal : call.external = false)
    (step : CoordinatorStep rt c { c.begin rt call with stage := stage }) :
    ∃ pool value, GoesOnTo rt c { c with pool := pool, stage := stage } ∧
      pool.shared = ((rt.program call).alone untroubled c.pool.shared).state ∧
      value = ((rt.program call).alone untroubled c.pool.shared).value ∧
      pool.threads[c.pool.threads.length]? = some ⟨call, some (.ret value)⟩ ∧
      AtRest (pool.threads.set c.pool.threads.length ⟨call, none⟩) := by
  have hbegins : GoesOn rt c { c.begin rt call with stage := stage } :=
    goesOn_begin step hinternal rfl
  have hfree : ∀ m : ServerMutex, m.locked c.pool.shared = false :=
    resting_open hopen reach h.resting
  obtain ⟨pool, value, hgoes, hshared, hvalue, hthreads⟩ :=
    call_alone (c := { c.begin rt call with stage := stage }) hfree rfl
  refine ⟨pool, value, .head hbegins hgoes, hshared, hvalue, ?_, ?_⟩
  · rw [hthreads, List.getElem?_concat_length]
  · rw [hthreads, List.set_append_right _ _ le_rfl]
    simpa using resting_done h.resting

/-- At an app that is free, the first of its jobs that waits is deployed. -/
theorem free_deploys (hopen : ∀ m : ServerMutex, m.locked s₀ = false)
    (hordered : s₀.jobs.Ordered) (reach : CoordinatorReaches rt s₀ c) (h : Settled c)
    (hs : c.stage = .free app rest) (henabled : app.enabled = true) :
    ∃ new c', Deploys rt [app] c new c' ∧ c'.stage = .scanning rest ∧
      (c'.pool.shared.waiting app.id).length ≤ (c.pool.shared.waiting app.id).length - 1 := by
  obtain ⟨pool, value, hcalls, hshared, hvalue, ht, hresting⟩ :=
    scheduler_calls hopen reach h rfl (.dequeue hs)
  obtain ⟨picked, jobs, hdequeue⟩ := dequeueNext_ok c.pool.shared.jobs app.id
  obtain ⟨happs, hjobs, hreply⟩ := @dequeueNext_alone rt _ _ _ _ hdequeue
  rw [hreply] at hvalue
  subst hvalue
  rw [← hshared] at happs hjobs
  have hwaiting : ∀ appID, pool.shared.waiting appID =
      { c.pool.shared with jobs := jobs }.waiting appID := by
    intro appID
    unfold Server.waiting
    rw [hjobs]
  have hdequeued : GoesOn rt { c with
      pool := pool
      stage := .dequeuing app rest c.pool.threads.length } _ :=
    goesOn_same (.dequeued rfl ht) (by simp [Coordinator.finish, Config.finish])
  have hgoes := hcalls.tail hdequeued
  cases picked with
  | none =>
    obtain ⟨rfl, hnobody⟩ := dequeueNext_nobody hdequeue
    refine ⟨[], _, ⟨hgoes, ⟨hresting, h.runs⟩, happs, by simp [Coordinator.finish], ?_, by simp⟩,
      rfl, ?_⟩
    · exact fun appID => (hwaiting appID).symm
    · have hnone : pool.shared.waiting app.id = [] := (hwaiting app.id).trans hnobody
      change (pool.shared.waiting app.id).length ≤ _
      rw [hnone]
      exact Nat.zero_le _
  | some job =>
    obtain ⟨hfirst, hothers⟩ := dequeueNext_waiting (coordinator_ordered hordered reach) hdequeue
    obtain ⟨c', hends, hsettled, hstage, hruns, hqueue⟩ :=
      claimed_ends hopen (reach.goesOn (hgoes.tail (goesOn_same (.claim rfl) rfl)))
        ⟨hresting, h.runs⟩ rfl
    have hafter : ∀ appID, c'.pool.shared.waiting appID =
        { c.pool.shared with jobs := jobs }.waiting appID :=
      fun appID => (hqueue.waiting appID).trans (hwaiting appID)
    refine ⟨_, c', ⟨(hgoes.tail (goesOn_same (.claim rfl) rfl)).trans hends, hsettled,
      hqueue.apps.trans happs, hruns, fun appID => ?_, ?_⟩, hstage, ?_⟩
    · rw [hafter]
      by_cases he : app.id = appID
      · subst he
        simpa using hfirst
      · simpa [he] using (hothers appID (Ne.symm he)).symm
    · simpa using henabled
    · rw [hafter, hfirst, List.length_cons, Nat.add_sub_cancel]

/-- One turn of the loop over the apps. -/
theorem visit_deploys (hopen : ∀ m : ServerMutex, m.locked s₀ = false)
    (hordered : s₀.jobs.Ordered) (reach : CoordinatorReaches rt s₀ c) (h : Settled c)
    (hs : c.stage = .scanning (app :: rest)) :
    ∃ new c', Deploys rt [app] c new c' ∧ c'.stage = .scanning rest ∧ (app.enabled = true →
      (c'.pool.shared.waiting app.id).length ≤ (c.pool.shared.waiting app.id).length - 1) := by
  cases henabled : app.enabled with
  | false =>
    have hskips : GoesOn rt c { c with stage := .scanning rest } :=
      goesOn_same (.skip hs (Or.inl henabled)) rfl
    have hskipped : Settled { c with stage := .scanning rest } := ⟨h.resting, h.runs⟩
    exact ⟨[], _, .after (.single hskips) rfl rfl (.refl hskipped), rfl, by simp⟩
  | true =>
    have hactive := h.active reach (by simp [hs, SchedulerStage.Spawns])
    have hfrees : GoesOn rt c { c with stage := .free app rest } :=
      goesOn_same (.free hs henabled (by simp [hactive])) rfl
    obtain ⟨new, c', hdeploys, hstage, hshorter⟩ :=
      free_deploys hopen hordered (reach.next hfrees.step) ⟨h.resting, h.runs⟩ rfl henabled
    exact ⟨new, c', hdeploys.after (.single hfrees) rfl rfl, hstage, fun _ => hshorter⟩

/-- The loop over the apps takes a job from each enabled one that has some. -/
theorem scan_deploys (hopen : ∀ m : ServerMutex, m.locked s₀ = false)
    (hordered : s₀.jobs.Ordered) (reach : CoordinatorReaches rt s₀ c) (h : Settled c)
    (hs : c.stage = .scanning rest) :
    ∃ new c', Deploys rt rest c new c' ∧ c'.stage = .idle ∧ ∀ app ∈ rest, app.enabled = true →
      (c'.pool.shared.waiting app.id).length ≤ (c.pool.shared.waiting app.id).length - 1 := by
  induction rest generalizing c with
  | nil =>
    have hscanned : GoesOn rt c { c with stage := .idle } := goesOn_same (.scanned hs) rfl
    have hidle : Settled { c with stage := .idle } := ⟨h.resting, h.runs⟩
    exact ⟨[], _, .after (.single hscanned) rfl rfl (.refl hidle), rfl, by simp⟩
  | cons app rest ih =>
    obtain ⟨first, mid, hvisit, hmid, hshorter⟩ := visit_deploys hopen hordered reach h hs
    obtain ⟨later, c', hscan, hstage, hrest⟩ := ih (reach.goesOn hvisit.goesOn) hvisit.settled hmid
    refine ⟨first ++ later, c', (hvisit.mono (by simp)).trans (hscan.mono (by simp)), hstage, ?_⟩
    intro other hm henabled
    rcases List.mem_cons.mp hm with rfl | hm
    · exact (hscan.shrinks other.id).trans (hshorter henabled)
    · have hless := hvisit.shrinks other.id
      have htail := hrest other hm henabled
      omega

/-- One pass of `schedule`, which lists the apps first. -/
theorem pass_deploys (hopen : ∀ m : ServerMutex, m.locked s₀ = false)
    (hordered : s₀.jobs.Ordered) (reach : CoordinatorReaches rt s₀ c) (h : Settled c)
    (hs : c.stage = .idle) :
    ∃ new c', Deploys rt c.pool.shared.apps.rows c new c' ∧ c'.stage = .idle ∧
      ∀ app ∈ c.pool.shared.apps.rows, app.enabled = true →
        (c'.pool.shared.waiting app.id).length ≤ (c.pool.shared.waiting app.id).length - 1 := by
  obtain ⟨pool, value, hcalls, hshared, hvalue, ht, hresting⟩ :=
    scheduler_calls hopen reach h rfl (.list hs)
  rw [listApps_alone.2] at hvalue
  rw [listApps_alone.1] at hshared
  subst hvalue
  have hlisted : GoesOn rt { c with pool := pool, stage := .listing c.pool.threads.length } _ :=
    goesOn_same (.listed rfl ht) (by simp [Coordinator.finish, Config.finish])
  obtain ⟨new, c', hscan, hstage, hshorter⟩ :=
    scan_deploys hopen hordered (reach.goesOn (hcalls.tail hlisted)) ⟨hresting, h.runs⟩ rfl
  refine ⟨new, c', hscan.after (hcalls.tail hlisted) rfl hshared, hstage, ?_⟩
  intro app hm henabled
  have hless := hshorter app hm henabled
  change _ ≤ (pool.shared.waiting app.id).length - 1 at hless
  rw [hshared] at hless
  exact hless

/-- So many passes as there are rows empty the queues of all enabled apps. -/
theorem passes_deploy (hopen : ∀ m : ServerMutex, m.locked s₀ = false)
    (hordered : s₀.jobs.Ordered) (reach : CoordinatorReaches rt s₀ c) (h : Settled c)
    (hs : c.stage = .idle) (n : ℕ) :
    ∃ new c', Deploys rt c.pool.shared.apps.rows c new c' ∧ c'.stage = .idle ∧
      ∀ app ∈ c.pool.shared.apps.rows, app.enabled = true →
        (c'.pool.shared.waiting app.id).length ≤ (c.pool.shared.waiting app.id).length - n := by
  induction n with
  | zero => exact ⟨[], c, .refl h, hs, by simp⟩
  | succ n ih =>
    obtain ⟨early, mid, hearly, hidle, hless⟩ := ih
    obtain ⟨late, c', hlate, hstage, hshorter⟩ :=
      pass_deploys hopen hordered (reach.goesOn hearly.goesOn) hearly.settled hidle
    rw [hearly.apps] at hlate hshorter
    refine ⟨early ++ late, c', hearly.trans hlate, hstage, fun app hm henabled => ?_⟩
    have hbefore := hless app hm henabled
    have hafter := hshorter app hm henabled
    omega

/-- What has come in is answered, and what has been started ends. -/
theorem coordinator_settles (hopen : ∀ m : ServerMutex, m.locked s₀ = false)
    (reach : CoordinatorReaches rt s₀ c) :
    ∃ c', GoesOnTo rt c c' ∧ Settled c' ∧ c'.stage.waits = none ∧
      (c'.stage = .stopped ↔ c.stage = .stopped) := by
  obtain ⟨pool, hrests, hresting⟩ := rests hopen reach
  obtain ⟨mid, hfinishing, hruns⟩ := runs_end hopen (reach.goesOn hrests) hresting
  have hgoes := hrests.trans hfinishing.goesOn
  have hreach := reach.goesOn hgoes
  have hmid : mid.stage = c.stage := hfinishing.stage
  have hreturned : ∀ {t : ℕ} {call : Call}, mid.stage.waits = some (t, call) →
      ∃ value, mid.pool.threads[t]? = some ⟨call, some (.ret value)⟩ := by
    intro t call hw
    obtain ⟨rest, ht⟩ := (served_reaches hreach).waited (t, call) (Or.inl hw)
    obtain ⟨⟨value, rfl⟩, -⟩ := hfinishing.resting t call rest ht
    exact ⟨value, ht⟩
  cases hs : c.stage with
  | listing t =>
    rw [hs] at hmid
    obtain ⟨value, ht⟩ := hreturned (t := t) (by rw [hmid]; rfl)
    obtain ⟨result, rfl⟩ := (scheduler_reply hreach ht).1 rfl
    refine ⟨_, hgoes.tail (goesOn_same (.listed hmid ht) ?_),
      ⟨resting_finish hfinishing.resting, hruns⟩, ?_, ?_⟩
    · simp [Coordinator.finish, Config.finish]
    · cases result <;> rfl
    · cases result <;> simp [SchedulerStage.afterList]
  | dequeuing app rest t =>
    rw [hs] at hmid
    obtain ⟨value, ht⟩ := hreturned (t := t) (by rw [hmid]; rfl)
    obtain ⟨result, rfl⟩ := (scheduler_reply hreach ht).2 app.id rfl
    refine ⟨_, hgoes.tail (goesOn_same (.dequeued hmid ht) ?_),
      ⟨resting_finish hfinishing.resting, hruns⟩, ?_, ?_⟩
    · simp [Coordinator.finish, Config.finish]
    · rcases result with e | _ | picked <;> rfl
    · rcases result with e | _ | picked <;> simp [SchedulerStage.afterDequeue]
  | idle | scanning | free | claimed | spawning | stopped =>
    rw [hs] at hmid
    exact ⟨mid, hgoes, ⟨hfinishing.resting, hruns⟩, by rw [hmid]; rfl, by rw [hmid]⟩

/-- The scheduler comes to the end of the pass it is in. -/
theorem coordinator_idles (hopen : ∀ m : ServerMutex, m.locked s₀ = false)
    (hordered : s₀.jobs.Ordered) (reach : CoordinatorReaches rt s₀ c)
    (hgoing : c.stage ≠ .stopped) :
    ∃ c', GoesOnTo rt c c' ∧ Settled c' ∧ c'.stage = .idle := by
  obtain ⟨mid, hsettles, h, hnone, hstopped⟩ := coordinator_settles hopen reach
  have hmid := reach.goesOn hsettles
  have hscans : ∀ {later : Coordinator} {rest : List App}, GoesOnTo rt mid later → Settled later →
      later.stage = .scanning rest → ∃ c', GoesOnTo rt c c' ∧ Settled c' ∧ c'.stage = .idle := by
    intro later rest hlater hsettled hs
    obtain ⟨new, c', hscan, hidle, -⟩ :=
      scan_deploys hopen hordered (hmid.goesOn hlater) hsettled hs
    exact ⟨c', (hsettles.trans hlater).trans hscan.goesOn, hscan.settled, hidle⟩
  cases hs : mid.stage with
  | idle => exact ⟨mid, hsettles, h, hs⟩
  | scanning rest => exact hscans .refl h hs
  | free app rest =>
    have hknows := (knows_reaches hmid).stage
    rw [hs] at hknows
    obtain ⟨new, later, hdeploys, hstage, -⟩ := free_deploys hopen hordered hmid h hs hknows.1
    exact hscans hdeploys.goesOn hdeploys.settled hstage
  | claimed app jobID tag rest =>
    have hclaims : GoesOn rt mid { mid with
        activeApps := app.id :: mid.activeApps
        stage := .spawning app jobID tag rest } := goesOn_same (.claim hs) rfl
    obtain ⟨later, hends, hsettled, hstage, -⟩ :=
      claimed_ends hopen (hmid.next hclaims.step) ⟨h.resting, h.runs⟩ rfl
    exact hscans (.head hclaims hends) hsettled hstage
  | spawning app jobID tag rest =>
    obtain ⟨later, hends, hsettled, hstage, -⟩ := claimed_ends hopen hmid h hs
    exact hscans hends hsettled hstage
  | stopped => exact absurd (hstopped.mp hs) hgoing
  | listing | dequeuing => rw [hs] at hnone; cases hnone

end Passes

/-- No request and no deploy is on its way, no app is marked as active, and no job of an enabled
app waits. -/
structure Drained (c : Coordinator) : Prop where
  settled : Settled c
  stage : c.stage = .idle
  active : c.activeApps = []
  waiting : ∀ app ∈ c.pool.shared.apps.rows, app.enabled = true →
    c.pool.shared.waiting app.id = []

/-- Wherever the server stands, whatever calls are on their way and whichever mutexes they hold,
it can go on, without any request and before its context ends, until all that was started has
ended, and from there to an empty queue: the deploys of each app take its jobs in the order in
which they have waited. -/
theorem coordinator_drains {rt : Runtime} {s₀ : Server} {c : Coordinator}
    (hactive : s₀.activeCacheMu = false) (hsecrets : s₀.secretHashCacheMu = false)
    (hordered : s₀.jobs.Ordered) (reach : CoordinatorReaches rt s₀ c)
    (hgoing : c.stage ≠ .stopped) :
    ∃ settled new drained, GoesOnTo rt c settled ∧ Settled settled ∧
      Deploys rt settled.pool.shared.apps.rows settled new drained ∧ Drained drained := by
  have hopen := mutexes_open hactive hsecrets
  obtain ⟨settled, hgoes, hsettled, hidle⟩ := coordinator_idles hopen hordered reach hgoing
  have hreach := reach.goesOn hgoes
  obtain ⟨new, drained, hdeploys, hstage, hless⟩ :=
    passes_deploy hopen hordered hreach hsettled hidle settled.pool.shared.jobs.rows.length
  refine ⟨settled, new, drained, hgoes, hsettled, hdeploys, hdeploys.settled, hstage, ?_, ?_⟩
  · exact hdeploys.settled.active (hreach.goesOn hdeploys.goesOn)
      (by simp [hstage, SchedulerStage.Spawns])
  · intro app hm henabled
    rw [hdeploys.apps] at hm
    have hshort := hless app hm henabled
    have hall : (settled.pool.shared.waiting app.id).length ≤
        settled.pool.shared.jobs.rows.length := by
      unfold Server.waiting
      rw [List.length_map]
      exact List.length_filter_le _ _
    exact List.eq_nil_of_length_eq_zero (by omega)

/-- The scheduler lists the apps of `onePending`, and an enqueue holds the mutex of the cache. -/
theorem onePending_locked : ∃ c, CoordinatorReaches ⟨2, id, id⟩ onePending c ∧
    c.stage = .listing 0 ∧ c.pool.shared.activeCacheMu = true := by
  have reach : CoordinatorReaches ⟨2, id, id⟩ onePending (.started onePending) := .start
  replace reach := reach.next (.list rfl)
  replace reach := reach.next (@CoordinatorStep.request _ _ (.enqueue "a" "v2") rfl)
  replace reach := reach.next (.act ⟨none, ""⟩ (t := 1) rfl rfl)
  replace reach := reach.next (.act ⟨none, ""⟩ (t := 1) rfl rfl)
  exact ⟨_, reach, rfl, rfl⟩

theorem coordinator_drains_onePending : ∃ c, c.stage = .listing 0 ∧
    c.pool.shared.activeCacheMu = true ∧ ∃ settled new drained,
      GoesOnTo ⟨2, id, id⟩ c settled ∧ Settled settled ∧
        Deploys ⟨2, id, id⟩ settled.pool.shared.apps.rows settled new drained ∧
        Drained drained := by
  obtain ⟨c, reach, hstage, hlocked⟩ := onePending_locked
  have hordered : onePending.jobs.Ordered := List.pairwise_singleton _ _
  exact ⟨c, hstage, hlocked, coordinator_drains rfl rfl hordered reach (by simp [hstage])⟩

/-- A step with which no request comes in. -/
structure StartedGoesOn (rt : Runtime) (g g' : Started) : Prop where
  step : StartedStep rt g g'
  noRequest : ∀ thread ∈ g'.coordinator.pool.threads.drop g.coordinator.pool.threads.length,
    thread.call.external = false

abbrev StartedGoesOnTo (rt : Runtime) : Started → Started → Prop :=
  Relation.ReflTransGen (StartedGoesOn rt)

/-- The goroutine of the tracker can wait while the rest goes on. -/
theorem GoesOnTo.started {rt : Runtime} {c c' : Coordinator} (h : GoesOnTo rt c c')
    (cleanup : Option CleanupStage) : StartedGoesOnTo rt ⟨c, cleanup⟩ ⟨c', cleanup⟩ := by
  induction h with
  | refl => exact .refl
  | tail _ hstep ih => exact ih.tail ⟨.coordinator hstep.step, hstep.noRequest⟩

/-- The goroutine of the tracker returns, and nothing else moves. -/
theorem cleanup_returns (rt : Runtime) (g : Started) :
    ∃ g', StartedGoesOnTo rt g g' ∧ g'.coordinator = g.coordinator ∧
      ∀ stage, g'.cleanup = some stage → stage = .returned := by
  obtain ⟨c, cleanup⟩ := g
  have hselects : ∃ g', StartedGoesOnTo rt ⟨c, some .selecting⟩ g' ∧ g'.coordinator = c ∧
      ∀ stage, g'.cleanup = some stage → stage = .returned :=
    ⟨⟨c, some .returned⟩, .single ⟨.done rfl, by simp⟩, rfl, by simp⟩
  rcases cleanup with _ | _ | _ | _
  · exact ⟨_, .refl, rfl, by simp⟩
  · exact hselects
  · obtain ⟨g', hgoes, hc, hreturned⟩ := hselects
    exact ⟨g', .head ⟨.cleaned rfl, by simp⟩ hgoes, hc, hreturned⟩
  · exact ⟨_, .refl, rfl, by simp⟩

/-- Wherever the server stands, its context can end, and `Wait` returns. -/
theorem shutdown_completes {rt : Runtime} {s₀ : Server} {g : Started}
    (hactive : s₀.activeCacheMu = false) (hsecrets : s₀.secretHashCacheMu = false)
    (hordered : s₀.jobs.Ordered) (reach : CoordinatorReaches rt s₀ g.coordinator) :
    ∃ g', StartedGoesOnTo rt g g' ∧ Settled g'.coordinator ∧ g'.Waited := by
  obtain ⟨c, cleanup⟩ := g
  have hopen := mutexes_open hactive hsecrets
  have hwaited : ∃ c', GoesOnTo rt c c' ∧ Settled c' ∧ c'.Waited := by
    by_cases hgoing : c.stage = .stopped
    · obtain ⟨c', hgoes, hsettled, -, hstopped⟩ := coordinator_settles hopen reach
      exact ⟨c', hgoes, hsettled, hstopped.mpr hgoing, hsettled.runs⟩
    · obtain ⟨idle, hgoes, hsettled, hidle⟩ := coordinator_idles hopen hordered reach hgoing
      have hstops : GoesOn rt idle { idle with stage := .stopped } := goesOn_same (.stop hidle) rfl
      exact ⟨_, hgoes.tail hstops, ⟨hsettled.resting, hsettled.runs⟩, rfl, hsettled.runs⟩
  obtain ⟨c', hgoes, hsettled, hcoordinator⟩ := hwaited
  obtain ⟨g', hcleans, hc, hcleanup⟩ := cleanup_returns rt ⟨c', cleanup⟩
  simp only at hc
  exact ⟨g', (hgoes.started cleanup).trans hcleans, hc ▸ hsettled, hc ▸ hcoordinator, hcleanup⟩

/-- Also while the entries of the tracker are cleaned up. -/
theorem shutdown_completes_onePending : ∃ g : Started, g.coordinator.stage = .listing 0 ∧
    g.coordinator.pool.shared.activeCacheMu = true ∧ g.cleanup = some .cleaning ∧
      ∃ g', StartedGoesOnTo ⟨2, id, id⟩ g g' ∧ Settled g'.coordinator ∧ g'.Waited := by
  obtain ⟨c, reach, hstage, hlocked⟩ := onePending_locked
  have hordered : onePending.jobs.Ordered := List.pairwise_singleton _ _
  exact ⟨⟨c, some .cleaning⟩, hstage, hlocked, rfl, shutdown_completes rfl rfl hordered reach⟩

end AutoDeploy
