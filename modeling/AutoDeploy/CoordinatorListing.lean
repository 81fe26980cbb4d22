import AutoDeploy.CoordinatorHolds
import AutoDeploy.InterleavingMoment

namespace AutoDeploy

open Interleaving

/-- The last `List` query of the history has read this record. -/
def Listed (history : ServerHistory) (app : App) : Prop :=
  ∃ front t query back, history = front ++ .acted t .listApps query :: back ∧
    (∀ u step, .acted u .listApps step ∉ back) ∧ app ∈ query.before.apps.rows

/-- This job was dequeued when the last `List` query had read this record of its app. -/
def Dispatched (history : ServerHistory) (app : App) (jobID tag : String) : Prop :=
  ∃ pre t step post job, history = pre ++ .acted t (.dequeueNext app.id) step :: post ∧
    .dequeued job ∈ step.emitted ∧ job.id = jobID ∧ job.tag = tag ∧ Listed pre app

/-- What the scheduler knows at each place of its loop. -/
def SchedulerStage.Informed (history : ServerHistory) : SchedulerStage → Prop
  | .idle | .stopped => True
  | .listing t => ∀ front call query back, history = front ++ .acted t call query :: back →
      ∀ u step, .acted u .listApps step ∉ back
  | .scanning rest => ∀ app ∈ rest, Listed history app
  | .free app rest => app.enabled = true ∧ ∀ other ∈ app :: rest, Listed history other
  | .dequeuing app rest t => (app.enabled = true ∧ ∀ other ∈ app :: rest, Listed history other) ∧
      ∀ pre step post, history = pre ++ .acted t (.dequeueNext app.id) step :: post →
        Listed pre app
  | .claimed app jobID tag rest | .spawning app jobID tag rest =>
      Dispatched history app jobID tag ∧ ∀ other ∈ rest, Listed history other

/-- Every dequeue was for an app that the last `List` query had read as enabled. -/
def DequeuesListed (history : ServerHistory) : Prop :=
  ∀ pre t id step post, history = pre ++ .acted t (.dequeueNext id) step :: post →
    ∃ app, Listed pre app ∧ app.id = id ∧ app.enabled = true

structure Knows (stage : SchedulerStage) (runs : List Run) (history : ServerHistory) : Prop where
  stage : stage.Informed history
  runs : ∀ (i : ℕ) (run : Run), runs[i]? = some run → Dispatched history run.app run.jobID run.tag
  dequeues : DequeuesListed history

section Grows

variable {history : ServerHistory} {record : Record Server StoreEvent Reply Call}
  {stage : SchedulerStage} {runs : List Run} {app : App} {jobID tag : String}

theorem listed_concat (h : Listed history app)
    (hrecord : ∀ t step, record ≠ .acted t .listApps step) :
    Listed (history ++ [record]) app := by
  obtain ⟨front, t, query, back, rfl, hlast, happ⟩ := h
  refine ⟨front, t, query, back ++ [record], by simp, ?_, happ⟩
  intro u step hm
  rcases List.mem_append.mp hm with hold | hnew
  · exact hlast u step hold
  · exact hrecord u step (List.mem_singleton.mp hnew).symm

theorem dispatched_concat (h : Dispatched history app jobID tag) :
    Dispatched (history ++ [record]) app jobID tag := by
  obtain ⟨pre, t, step, post, job, rfl, hjob, hid, htag, hlisted⟩ := h
  exact ⟨pre, t, step, post ++ [record], job, by simp, hjob, hid, htag, hlisted⟩

/-- Calls and returns change nothing of what the scheduler knows. -/
theorem informed_concat (h : stage.Informed history)
    (hrecord : ∀ t call step, record ≠ .acted t call step) :
    stage.Informed (history ++ [record]) := by
  have hlisted : ∀ {app}, Listed history app → Listed (history ++ [record]) app :=
    fun hl => listed_concat hl fun t step => hrecord t .listApps step
  cases stage with
  | idle => trivial
  | stopped => trivial
  | listing t =>
    intro front call query back he u step hm
    rcases history_concat he with ⟨-, -, hr⟩ | ⟨between, rfl, hh⟩
    · exact hrecord t call query hr
    · rcases List.mem_append.mp hm with hold | hnew
      · exact h front call query between hh u step hold
      · exact hrecord u .listApps step (List.mem_singleton.mp hnew).symm
  | scanning rest => exact fun app hm => hlisted (h app hm)
  | free app rest => exact ⟨h.1, fun other hm => hlisted (h.2 other hm)⟩
  | dequeuing app rest t =>
    refine ⟨⟨h.1.1, fun other hm => hlisted (h.1.2 other hm)⟩, ?_⟩
    intro pre step post he
    rcases history_concat he with ⟨-, -, hr⟩ | ⟨between, -, hh⟩
    · exact absurd hr (hrecord t _ step)
    · exact h.2 pre step between hh
  | claimed app jobID tag rest =>
    exact ⟨dispatched_concat h.1, fun other hm => hlisted (h.2 other hm)⟩
  | spawning app jobID tag rest =>
    exact ⟨dispatched_concat h.1, fun other hm => hlisted (h.2 other hm)⟩

theorem dequeuesListed_concat (h : DequeuesListed history)
    (hrecord : ∀ t call step, record ≠ .acted t call step) :
    DequeuesListed (history ++ [record]) := by
  intro pre t id step post he
  rcases history_concat he with ⟨-, -, hr⟩ | ⟨between, -, hh⟩
  · exact absurd hr (hrecord t _ step)
  · exact h pre t id step between hh

theorem Knows.concat (h : Knows stage runs history)
    (hrecord : ∀ t call step, record ≠ .acted t call step) :
    Knows stage runs (history ++ [record]) :=
  ⟨informed_concat h.stage hrecord, fun i run hi => dispatched_concat (h.runs i run hi),
    dequeuesListed_concat h.dequeues hrecord⟩

theorem Knows.setRun (h : Knows stage runs history) {i : ℕ} {old new : Run}
    (hi : runs[i]? = some old) (happ : new.app = old.app) (hid : new.jobID = old.jobID)
    (htag : new.tag = old.tag) : Knows stage (runs.set i new) history := by
  refine ⟨h.stage, ?_, h.dequeues⟩
  refine set_forall (P := fun run => Dispatched history run.app run.jobID run.tag) hi h.runs ?_
  rw [happ, hid, htag]
  exact h.runs i old hi

theorem Knows.moveStage {stage' : SchedulerStage} (h : Knows stage runs history)
    (hstage : stage'.Informed history) : Knows stage' runs history :=
  ⟨hstage, h.runs, h.dequeues⟩

end Grows

/-- `List` takes one action, and answers what it read. -/
theorem list_safe (rt : Runtime) (call : Call) :
    (rt.program call).Safe (fun _ => True) (fun own _ => call = .listApps → own = [])
      (fun own value => call = .listApps → ∀ apps, value = .listed (.ok apps) →
        ∃ query, own = [query] ∧ apps = query.before.apps.rows) [] := by
  by_cases hcall : call = .listApps
  · subst hcall
    apply Prog.safe_map
    unfold listApps
    apply Prog.safe_bind (P := fun own value => ∃ query : ServerStep, own = [query] ∧
      ∀ apps, value = .ok apps → apps = query.before.apps.rows)
    · apply Prog.safe_atomic
      intro s k _
      refine ⟨fun _ => rfl, ?_⟩
      cases k.fault with
      | some text => exact ⟨_, rfl, by simp⟩
      | none => exact ⟨_, rfl, by rintro apps ⟨⟩; rfl⟩
    · rintro own (e | found) ⟨query, hown, hfound⟩
      · rintro - apps ⟨⟩
      · rintro - apps ⟨⟩
        exact ⟨query, hown, hfound _ rfl⟩
  · exact Prog.Safe.imp Prog.safe_trivial (fun _ _ _ h => absurd h hcall)
      fun _ _ _ h => absurd h hcall

section Steps

variable {rt : Runtime} {s₀ : Server} {c c' : Coordinator}

theorem coordinator_lists (reach : CoordinatorReaches rt s₀ c) :
    Sound (fun _ => True) (fun call own _ => call = .listApps → own = [])
      (fun call own value => call = .listApps → ∀ apps, value = .listed (.ok apps) →
        ∃ query : ServerStep, own = [query] ∧ apps = query.before.apps.rows) c.pool :=
  reaches_sound (list_safe rt) (fun _ _ _ _ _ => trivial) trivial (coordinator_pool reach)

/-- Only the scheduler lists and dequeues, and it waits for the call. -/
theorem scheduler_waits (reach : CoordinatorReaches rt s₀ c) {t : ℕ} {call : Call}
    {rest : Op Reply} (ht : c.pool.threads[t]? = some ⟨call, some rest⟩)
    (hcall : call = .listApps ∨ ∃ id, call = .dequeueNext id) : c.stage.waits = some (t, call) := by
  have hattended := attended_reaches reach
  rcases hattended.owned t call rest ht with hexternal | hstage | ⟨i, run, hi, hw⟩
  · rcases hcall with rfl | ⟨id, rfl⟩
    · cases hexternal
    · cases hexternal
  · exact hstage
  · have hcalls := hattended.calls i run hi _ hw
    unfold Run.Calls at hcalls
    rcases hcall with rfl | ⟨id, rfl⟩
    · cases hs : run.stage <;> simp [hs] at hcalls
    · cases hs : run.stage <;> simp [hs] at hcalls

theorem knows_act (reach : CoordinatorReaches rt s₀ c)
    (h : Knows c.stage c.runs c.pool.history) {t : ℕ} {call : Call} {rest : Op Reply}
    {step : ServerStep} (ht : c.pool.threads[t]? = some ⟨call, some rest⟩)
    (hfirst : call = .listApps → ownSteps t c.pool.history = []) :
    Knows c.stage c.runs (c.pool.history ++ [.acted t call step]) := by
  have hwaits := scheduler_waits reach ht
  have hlisted : ∀ {app}, call ≠ .listApps → Listed c.pool.history app →
      Listed (c.pool.history ++ [.acted t call step]) app := by
    intro app hne hl
    refine listed_concat hl ?_
    rintro u other he
    cases he
    exact hne rfl
  have hother : c.stage.waits ≠ some (t, .listApps) → call ≠ .listApps := by
    rintro hne rfl
    exact hne (hwaits (Or.inl rfl))
  refine ⟨?_, fun i run hi => dispatched_concat (h.runs i run hi), ?_⟩
  · have hstage := h.stage
    cases hs : c.stage with
    | idle => trivial
    | stopped => trivial
    | listing u =>
      rw [hs] at hstage hwaits
      intro front other query back he v last hm
      rcases history_concat he with ⟨rfl, -, -⟩ | ⟨between, rfl, hh⟩
      · cases hm
      · rcases List.mem_append.mp hm with hold | hnew
        · exact hstage front other query between hh v last hold
        · cases List.mem_singleton.mp hnew
          have hthread := hwaits (Or.inl rfl)
          simp only [SchedulerStage.waits, Option.some.injEq, Prod.mk.injEq, and_true] at hthread
          subst hthread
          have hnone := hfirst rfl
          have hquery : query ∈ ownSteps u c.pool.history :=
            mem_ownSteps.mpr ⟨other, by rw [hh]; simp⟩
          rw [hnone] at hquery
          cases hquery
    | scanning rest =>
      rw [hs] at hstage hother
      have hne := hother (by simp [SchedulerStage.waits])
      exact fun app hm => hlisted hne (hstage app hm)
    | free app rest =>
      rw [hs] at hstage hother
      have hne := hother (by simp [SchedulerStage.waits])
      exact ⟨hstage.1, fun other hm => hlisted hne (hstage.2 other hm)⟩
    | dequeuing app rest u =>
      rw [hs] at hstage hother
      have hne := hother (by simp [SchedulerStage.waits])
      refine ⟨⟨hstage.1.1, fun other hm => hlisted hne (hstage.1.2 other hm)⟩, ?_⟩
      intro pre past post he
      rcases history_concat he with ⟨-, rfl, -⟩ | ⟨between, -, hh⟩
      · exact hstage.1.2 app List.mem_cons_self
      · exact hstage.2 pre past between hh
    | claimed app jobID tag rest =>
      rw [hs] at hstage hother
      have hne := hother (by simp [SchedulerStage.waits])
      exact ⟨dispatched_concat hstage.1, fun other hm => hlisted hne (hstage.2 other hm)⟩
    | spawning app jobID tag rest =>
      rw [hs] at hstage hother
      have hne := hother (by simp [SchedulerStage.waits])
      exact ⟨dispatched_concat hstage.1, fun other hm => hlisted hne (hstage.2 other hm)⟩
  · intro pre u id past post he
    rcases history_concat he with ⟨-, rfl, hr⟩ | ⟨between, -, hh⟩
    · cases hr
      have hthread := hwaits (Or.inr ⟨id, rfl⟩)
      have hstage := h.stage
      cases hs : c.stage with
      | dequeuing app rest u =>
        rw [hs] at hthread hstage
        simp only [SchedulerStage.waits, Option.some.injEq, Prod.mk.injEq,
          Call.dequeueNext.injEq] at hthread
        exact ⟨app, hstage.1.2 app List.mem_cons_self, hthread.2, hstage.1.1⟩
      | listing u => rw [hs] at hthread; simp [SchedulerStage.waits] at hthread
      | idle | stopped | scanning | free | claimed | spawning =>
        rw [hs] at hthread
        simp [SchedulerStage.waits] at hthread
    · exact h.dequeues pre u id past between hh

/-- What the scheduler goes on with after a `List`. -/
theorem informed_listed (reach : CoordinatorReaches rt s₀ c) {t : ℕ}
    {result : Except AppError (List App)} (hs : c.stage = .listing t)
    (h : c.stage.Informed c.pool.history)
    (ht : c.pool.threads[t]? = some ⟨.listApps, some (.ret (.listed result))⟩) :
    (SchedulerStage.afterList result).Informed c.pool.history := by
  cases result with
  | error e => trivial
  | ok apps =>
    rw [hs] at h
    obtain ⟨query, hown, rfl⟩ := (coordinator_lists reach).threads t .listApps _ ht rfl apps rfl
    have hcons : ownSteps t c.pool.history = [] ++ query :: [] := hown
    obtain ⟨front, call, back, hsplit, -⟩ := ownSteps_split hcons
    have hacted : .acted t call query ∈ c.pool.history := by
      rw [hsplit]
      exact List.mem_append_right _ List.mem_cons_self
    obtain ⟨rest, hthread⟩ := record_thread (coordinator_pool reach) _ hacted
    have hcall : Call.listApps = call :=
      congrArg Thread.call (Option.some.inj (ht.symm.trans hthread))
    subst hcall
    intro app hm
    exact ⟨front, t, query, back, hsplit, h front _ query back hsplit, hm⟩

/-- What the scheduler goes on with after a `DequeueNext`. -/
theorem informed_dequeued (reach : CoordinatorReaches rt s₀ c) {app : App} {rest : List App}
    {t : ℕ} {result : Except SqlError (Option (String × String))}
    (hs : c.stage = .dequeuing app rest t) (h : c.stage.Informed c.pool.history)
    (ht : c.pool.threads[t]? = some ⟨.dequeueNext app.id, some (.ret (.dequeued result))⟩) :
    (SchedulerStage.afterDequeue app rest result).Informed c.pool.history := by
  rw [hs] at h
  have hrest : ∀ other ∈ rest, Listed c.pool.history other :=
    fun other hm => h.1.2 other (List.mem_cons_of_mem _ hm)
  have hreturns := coordinator_returns reach ht
  match result, hreturns with
  | .error e, _ => exact hrest
  | .ok none, _ => exact hrest
  | .ok (some (jobID, tag)), hreturns =>
    obtain ⟨job, hjob, hid, -, htag⟩ := hreturns
    have hmem : job ∈ dequeuesIn (ownSteps t c.pool.history) := by
      rw [hjob]
      exact List.mem_singleton_self job
    obtain ⟨step, hstep, hemitted⟩ := List.mem_flatMap.mp (mem_dequeuesIn.mp hmem)
    obtain ⟨call, hacted⟩ := mem_ownSteps.mp hstep
    obtain ⟨old, hthread⟩ := record_thread (coordinator_pool reach) _ hacted
    have hcall : Call.dequeueNext app.id = call :=
      congrArg Thread.call (Option.some.inj (ht.symm.trans hthread))
    subst hcall
    obtain ⟨pre, post, hsplit⟩ := List.append_of_mem hacted
    exact ⟨⟨pre, t, step, post, job, hsplit, hemitted, hid, htag, h.2 pre step post hsplit⟩, hrest⟩

theorem knows_step (reach : CoordinatorReaches rt s₀ c) (step : CoordinatorStep rt c c')
    (h : Knows c.stage c.runs c.pool.history) : Knows c'.stage c'.runs c'.pool.history := by
  have hstage := h.stage
  cases step with
  | request _ => exact h.concat (by simp)
  | respond _ _ => exact h.concat (by simp)
  | @act t call ready effect next k ht hready =>
    exact knows_act reach h ht fun hcall =>
      ((coordinator_lists reach).threads t call _ ht _ k trivial hready).1 hcall
  | stop _ => exact h.moveStage trivial
  | list hs =>
    refine (h.concat (by simp)).moveStage ?_
    intro front call query back he u step hm
    have hfresh := (coordinator_sound reach).fresh c.pool.threads.length (le_refl _)
    have hquery : query ∈ ownSteps c.pool.threads.length
        (c.pool.history ++ [.called c.pool.threads.length .listApps]) :=
      mem_ownSteps.mpr ⟨call, by rw [he]; simp⟩
    rw [ownSteps_called, hfresh] at hquery
    cases hquery
  | listed hs ht =>
    have hnext := informed_listed reach hs hstage ht
    exact (h.concat (by simp)).moveStage (informed_concat hnext (by simp))
  | scanned _ => exact h.moveStage trivial
  | skip hs _ =>
    rw [hs] at hstage
    exact h.moveStage fun other hm => hstage other (List.mem_cons_of_mem _ hm)
  | free hs henabled _ =>
    rw [hs] at hstage
    exact h.moveStage ⟨henabled, hstage⟩
  | @dequeue app rest hs =>
    rw [hs] at hstage
    have hdequeue : ∀ t call (step : ServerStep),
        Record.called c.pool.threads.length (Call.dequeueNext app.id) ≠
          (.acted t call step : Record Server StoreEvent Reply Call) := by simp
    refine (h.concat hdequeue).moveStage ⟨informed_concat hstage hdequeue, ?_⟩
    intro pre step post he
    have hfresh := (coordinator_sound reach).fresh c.pool.threads.length (le_refl _)
    have hquery : step ∈ ownSteps c.pool.threads.length
        (c.pool.history ++ [.called c.pool.threads.length (.dequeueNext app.id)]) :=
      mem_ownSteps.mpr ⟨.dequeueNext app.id, by rw [he]; simp⟩
    rw [ownSteps_called, hfresh] at hquery
    cases hquery
  | dequeued hs ht =>
    have hnext := informed_dequeued reach hs hstage ht
    exact (h.concat (by simp)).moveStage (informed_concat hnext (by simp))
  | claim hs =>
    rw [hs] at hstage
    exact h.moveStage hstage
  | spawn hs =>
    rw [hs] at hstage
    refine ⟨hstage.2, ?_, h.dequeues⟩
    intro i run hi
    rcases append_getElem? hi with hold | ⟨-, rfl⟩
    · exact h.runs i run hold
    · exact hstage.1
  | checkpoint phase hi _ _ => exact (h.concat (by simp)).setRun hi rfl rfl rfl
  | runnerReturned err summary hi _ _ => exact (h.concat (by simp)).setRun hi rfl rfl rfl
  | captureLog log hi _ _ _ => exact (h.concat (by simp)).setRun hi rfl rfl rfl
  | noLog hi _ _ => exact h.setRun hi rfl rfl rfl
  | returned hi _ _ => exact (h.concat (by simp)).setRun hi rfl rfl rfl
  | clear hi _ => exact h.setRun hi rfl rfl rfl

theorem knows_reaches (reach : CoordinatorReaches rt s₀ c) :
    Knows c.stage c.runs c.pool.history := by
  induction reach with
  | start =>
    refine ⟨trivial, ?_, ?_⟩
    · intro i run hi
      simp [Coordinator.started] at hi
    · intro pre t id step post he
      simp [Coordinator.started] at he
  | next hreach step ih => exact knows_step hreach step ih

end Steps

end AutoDeploy
