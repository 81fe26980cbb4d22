import AutoDeploy.StoreActionCache

namespace AutoDeploy

open Interleaving

/-- The own steps went on, and only the cache of the jobs is to invalidate besides. -/
structure JobsWritten (own own' : List ServerStep) : Prop where
  steps : own <+: own'
  secrets : ¬ secretHashes.Dirty own → ¬ secretHashes.Dirty own'

/-- The own steps went on, and only the cache of the apps is to invalidate besides. -/
structure AppsWritten (own own' : List ServerStep) : Prop where
  steps : own <+: own'
  active : ¬ activeJobs.Dirty own → ¬ activeJobs.Dirty own'

/-- After an invalidation the cache of the jobs is in order, whatever was before. -/
structure ActiveDropped (mid own' : List ServerStep) : Prop where
  steps : mid <+: own'
  clean : ¬ activeJobs.Dirty own'
  secrets : ¬ secretHashes.Dirty mid → ¬ secretHashes.Dirty own'

theorem ActiveDropped.settles {own mid own' : List ServerStep} (h : ActiveDropped mid own')
    (hw : JobsWritten own mid) : Settles own own' :=
  ⟨hw.steps.trans h.steps, fun _ => h.clean, fun hc => h.secrets (hw.secrets hc)⟩

theorem Settles.jobsWritten {own own' : List ServerStep} (h : Settles own own') :
    JobsWritten own own' :=
  ⟨h.steps, h.secrets⟩

theorem Settles.appsWritten {own own' : List ServerStep} (h : Settles own own') :
    AppsWritten own own' :=
  ⟨h.steps, h.active⟩

theorem jobsWritten_step {own : List ServerStep} {step : ServerStep}
    (happs : step.after.apps = step.before.apps) : JobsWritten own (own ++ [step]) :=
  ⟨List.prefix_append own [step], SnapshotCache.clean_step (v := secretHashes) happs⟩

theorem appsWritten_step {own : List ServerStep} {step : ServerStep}
    (hjobs : step.after.jobs = step.before.jobs) : AppsWritten own (own ++ [step]) :=
  ⟨List.prefix_append own [step], SnapshotCache.clean_step (v := activeJobs) hjobs⟩

theorem JobRow.Retains.restrict {set : JobRow → JobRow} (h : JobRow.Retains set)
    (matching : JobRow → Bool) :
    JobRow.Retains fun row => if matching row then set row else row := by
  constructor
  all_goals
    intro row
    by_cases hm : matching row = true
    · simp only [hm, ↓reduceIte]
      first
        | exact h.id row
        | exact h.app row
        | exact h.tag row
        | exact h.retry row
    · simp [hm]

theorem retains_canceled : JobRow.Retains JobRow.canceled := by
  constructor
  all_goals
    intro row
    unfold JobRow.canceled
    split <;> rfl

section Queue

variable {rt : Runtime} {call : Call} {own mid : List ServerStep} {α η : Type}

theorem store_exec {other : String → η}
    {statement : Server → Except η (α × Server × List StoreEvent)}
    {Q : List ServerStep → Except η α → Prop}
    (failed : ∀ own' e, Settles own own' → Q own' (.error e))
    (done : ∀ s value after events, statement s = .ok (value, after, events) →
      StoreAction rt call own ⟨s, events, after⟩ ∧ Q (own ++ [⟨s, events, after⟩]) (.ok value)) :
    StoreSafe rt call own (exec other statement) Q := by
  apply Prog.safe_atomic
  intro s k _
  cases k.fault with
  | some text => exact ⟨.reads rfl, failed _ _ (settles_step rfl rfl)⟩
  | none =>
    cases hs : statement s with
    | error e => exact ⟨.reads rfl, failed _ _ (settles_step rfl rfl)⟩
    | ok out => exact done s out.1 out.2.1 out.2.2 hs

theorem store_invalidateActive :
    StoreSafe rt call mid invalidateActiveJobsCache fun own' _ => ActiveDropped mid own' := by
  apply Prog.safe_await
  intro s k _ hfree
  have hfree : s.activeCacheMu = false := by simpa using hfree
  exact ⟨.dropsActive hfree rfl, List.prefix_append mid _,
    SnapshotCache.clean_clears (v := activeJobs) rfl ⟨rfl, hfree⟩,
    SnapshotCache.clean_step (v := secretHashes) rfl⟩

/-- What a write to the jobs leaves to do. -/
def WritesJobs (own own' : List ServerStep) (value : Except η α) : Prop :=
  JobsWritten own own' ∧ ∀ e, value = .error e → Settles own own'

theorem Settles.failed {own' : List ServerStep} (h : Settles own own') (e : η) :
    WritesJobs (α := α) own own' (.error e) :=
  ⟨h.jobsWritten, fun _ _ => h⟩

theorem writesJobs_ok {step : ServerStep} (happs : step.after.apps = step.before.apps)
    (value : α) : WritesJobs (η := η) own (own ++ [step]) (.ok value) :=
  ⟨jobsWritten_step happs, by rintro e ⟨⟩⟩

theorem store_insertJob {jobID appID tag : String} {trigger : Trigger}
    {retryOfJobID : Option String} :
    StoreSafe rt call own (insertJob jobID appID tag trigger retryOfJobID)
      (WritesJobs own) := by
  apply store_exec
  · exact fun _ e h => h.failed e
  · intro s value after events hs
    dsimp only at hs
    cases hi : s.jobs.insert (s.jobs.newJob jobID appID tag trigger retryOfJobID) with
    | error e => rw [hi] at hs; cases hs
    | ok jobs =>
      rw [hi] at hs
      cases hs
      exact ⟨.inserted rfl hi rfl, writesJobs_ok rfl ()⟩

theorem store_execJobs {statement : Jobs → Except SqlError Jobs} (matching : JobRow → Bool)
    (set : JobRow → JobRow) (update : ∀ jobs, statement jobs = jobs.update matching set)
    (retains : JobRow.Retains set) :
    StoreSafe rt call own (execJobs statement) (WritesJobs own) := by
  apply store_exec
  · exact fun _ e h => h.failed e
  · intro s value after events hs
    rw [update] at hs
    cases hu : s.jobs.update matching set with
    | error e => rw [hu] at hs; cases hs
    | ok jobs =>
      rw [hu] at hs
      cases hs
      exact ⟨.rewritten (retains.restrict matching) (Jobs.update_rows hu) rfl, writesJobs_ok rfl ()⟩

/-- A write to the jobs with its invalidation. -/
theorem store_writeThen {write : Op (Except η α)}
    (h : StoreSafe rt call own write (WritesJobs own)) :
    StoreSafe rt call own (do
      let result ← write
      invalidateActiveJobsCache
      return result) fun own' _ => Settles own own' := by
  apply Prog.safe_bind h
  intro own₁ value h₁
  apply Prog.safe_bind store_invalidateActive
  exact fun own₂ _ hd₂ => hd₂.settles h₁.1

/-- An INSERT, what drops the cache after it, and what is answered. -/
theorem store_insertThen {jobID appID tag : String} {trigger : Trigger}
    {retryOfJobID : Option String} {rest : Except SqlError Unit → Op β}
    {Q : List ServerStep → β → Prop}
    (h : ∀ own' inserted, Settles own own' → StoreSafe rt call own' (rest inserted) Q) :
    StoreSafe rt call own (do
      let inserted ← insertJob jobID appID tag trigger retryOfJobID
      invalidateActiveJobsCache
      rest inserted) Q := by
  apply Prog.safe_bind store_insertJob
  intro own₁ inserted h₁
  apply Prog.safe_bind store_invalidateActive
  intro own₂ _ hd₂
  exact h own₂ inserted (hd₂.settles h₁.1)

theorem store_enqueueAs {trigger : Trigger} {appID tag : String} {maxPending : Int} :
    StoreSafe rt call own (enqueueAs trigger maxPending appID tag) fun own' _ =>
      Settles own own' := by
  unfold enqueueAs
  cases validateTag tag with
  | error e => exact settles_refl own
  | ok _ =>
    apply Prog.safe_bind store_isDuplicate
    rintro own₁ (e | _ | _) ⟨hs₁, -⟩
    · exact hs₁
    · apply Prog.safe_bind store_select
      rintro own₂ (e | count) ⟨hs₂, -⟩
      · exact hs₁.trans hs₂
      · dsimp only
        split
        next => exact hs₁.trans hs₂
        next =>
          apply Prog.safe_bind store_generateJobID
          rintro own₃ (e | jobID) ⟨hs₃, -⟩
          · exact (hs₁.trans hs₂).trans hs₃
          · have hs := (hs₁.trans hs₂).trans hs₃
            apply store_insertThen
            intro own₄ inserted hs₄
            cases inserted with
            | error e => dsimp only; split <;> exact hs.trans hs₄
            | ok _ => exact hs.trans hs₄
    · exact hs₁

theorem store_createRetryJob {originalJobID appID tag : String} :
    StoreSafe rt call own (createRetryJob originalJobID appID tag) fun own' _ =>
      Settles own own' := by
  unfold createRetryJob
  cases validateTag tag with
  | error e => exact settles_refl own
  | ok _ =>
    apply Prog.safe_bind store_select
    rintro own₁ (e | _ | _) ⟨hs₁, -⟩
    · exact hs₁
    · exact hs₁
    · apply Prog.safe_bind store_isDuplicate
      rintro own₂ (e | _ | _) ⟨hs₂, -⟩
      · exact hs₁.trans hs₂
      · apply Prog.safe_bind store_generateJobID
        rintro own₃ (e | jobID) ⟨hs₃, -⟩
        · exact (hs₁.trans hs₂).trans hs₃
        · have hs := (hs₁.trans hs₂).trans hs₃
          apply store_insertThen
          intro own₄ inserted hs₄
          cases inserted with
          | error e => dsimp only; split <;> exact hs.trans hs₄
          | ok _ => exact hs.trans hs₄
      · exact hs₁.trans hs₂

/-- What the transaction of `DequeueNext` leaves to do: nothing, where it took nothing. -/
theorem store_dequeueNext {appID : String} :
    StoreSafe rt call own (dequeueNext appID) fun own' _ => Settles own own' := by
  unfold dequeueNext
  apply Prog.safe_bind (P := fun own' picked => JobsWritten own own' ∧
    ((∀ job, picked ≠ .ok (some job)) → Settles own own'))
  · apply store_exec
    · exact fun _ e h => ⟨h.jobsWritten, fun _ => h⟩
    · intro s value after events hs
      dsimp only at hs
      cases hd : s.jobs.dequeueNext appID with
      | error e => rw [hd] at hs; cases hs
      | ok out =>
        rw [hd] at hs
        cases hs
        obtain ⟨picked, jobs⟩ := out
        cases picked with
        | none =>
          obtain rfl := Jobs.dequeueNext_none hd
          exact ⟨.reads rfl, jobsWritten_step rfl, fun _ => settles_step rfl rfl⟩
        | some job =>
          have hset : JobRow.Retains fun row : JobRow => { row with status := .inProgress } :=
            ⟨fun _ => rfl, fun _ => rfl, fun _ => rfl, fun _ => rfl⟩
          obtain ⟨hp, hrows⟩ := Jobs.dequeueNext_some hd
          have hmap := s.jobs.map_by_id (Jobs.nextPending_mem hp).1 fun row : JobRow =>
            { row with status := .inProgress }
          exact ⟨.rewritten (hset.restrict fun row => row.id == job.id) (hrows.trans hmap.symm) rfl,
            jobsWritten_step rfl, fun h => absurd rfl (h job)⟩
  · rintro own₁ (e | _ | job) ⟨hw₁, hs₁⟩
    · exact hs₁ (by simp)
    · exact hs₁ (by simp)
    · apply Prog.safe_bind store_invalidateActive
      exact fun own₂ _ hd₂ => hd₂.settles hw₁

theorem store_markDone {id errMsg : String} {success : Bool} {summary : Option DownloadSummary} :
    StoreSafe rt call own (markDone id success errMsg summary) fun own' _ => Settles own own' :=
  store_writeThen (store_execJobs (fun row => row.id == id && row.isRunning)
    (JobRow.markDone success errMsg summary) (fun _ => rfl)
    ⟨fun _ => rfl, fun _ => rfl, fun _ => rfl, fun _ => rfl⟩)

theorem store_recoverStale :
    StoreSafe rt call own recoverStale fun own' _ => Settles own own' :=
  store_writeThen (store_execJobs JobRow.isRunning
    (JobRow.setStatus .failed "recovered: process crashed") (fun _ => rfl)
    ⟨fun _ => rfl, fun _ => rfl, fun _ => rfl, fun _ => rfl⟩)

theorem store_saveJobLog {id log : String} :
    StoreSafe rt call own (saveJobLog id log) fun own' _ => Settles own own' := by
  unfold saveJobLog
  apply Prog.safe_bind (store_execJobs (fun row => row.id == id)
    (fun row => { row with deployLog := log }) (fun _ => rfl)
    ⟨fun _ => rfl, fun _ => rfl, fun _ => rfl, fun _ => rfl⟩)
  rintro own₁ (e | _) h₁
  · exact h₁.2 e rfl
  · apply Prog.safe_bind store_invalidateActive
    exact fun own₂ _ hd₂ => hd₂.settles h₁.1

end Queue

end AutoDeploy
