import AutoDeploy.JobLifecycle

namespace AutoDeploy

open Interleaving

theorem JobRow.appID_of_key {row row' : JobRow} (h : row'.activeKey = row.activeKey) :
    row'.appID = row.appID := by
  simp only [JobRow.activeKey, Prod.mk.injEq] at h
  exact h.1

theorem canceled_running {row : JobRow} (h : row.isRunning = true) :
    row.canceled.isRunning = true := by
  unfold JobRow.canceled
  split
  next hs => simp [JobRow.isRunning, hs, JobStatus.isRunning] at h
  next => rfl
  next => exact h

theorem canceled_running_origin {row : JobRow} (h : row.canceled.isRunning = true) :
    row.isRunning = true := by
  unfold JobRow.canceled at h
  split at h
  next => simp [JobRow.isRunning, JobRow.setStatus, JobStatus.isRunning] at h
  next hs => simp [JobRow.isRunning, hs, JobStatus.isRunning]
  next => exact h

section Step

variable {rt : Runtime} {call : Call} {own : List ServerStep} {step : ServerStep}

/-- A row of this id runs for this app. -/
def RunsFor (jobs : Jobs) (appID id : String) : Prop :=
  ∃ row ∈ jobs.rows, row.appID = appID ∧ row.id = id ∧ row.isRunning = true

/-- A job runs after a step because it ran before or because the step dequeued it. -/
theorem running_origin (h : JobAction rt call own step) {appID id : String}
    (hruns : RunsFor step.after.jobs appID id) :
    RunsFor step.before.jobs appID id ∨
      ∃ job, .dequeued job ∈ step.emitted ∧ job.appID = appID ∧ job.id = id := by
  obtain ⟨row', hrow', happ, hid, hrunning⟩ := hruns
  cases h with
  | quiet hjobs _ _ => exact Or.inl ⟨row', hjobs ▸ hrow', happ, hid, hrunning⟩
  | inserted _ _ _ _ hinsert _ _ =>
    rw [Jobs.insert_rows hinsert, List.mem_append, List.mem_singleton] at hrow'
    rcases hrow' with hold | rfl
    · exact Or.inl ⟨row', hold, happ, hid, hrunning⟩
    · simp [Jobs.newJob, JobRow.isRunning, JobStatus.isRunning] at hrunning
  | @dequeued job _ _ hnext hrows hemit _ =>
    rw [hrows] at hrow'
    obtain ⟨row, hm, rfl⟩ := List.mem_map.mp hrow'
    by_cases he : row = job
    · subst he
      simp only [↓reduceIte] at happ hid
      exact Or.inr ⟨row, by simp [hemit], happ, hid⟩
    · simp only [he, ↓reduceIte] at happ hid hrunning
      exact Or.inl ⟨row, hm, happ, hid, hrunning⟩
  | @rewritten set hrows hlaw hset _ _ =>
    rw [hrows] at hrow'
    obtain ⟨row, hm, rfl⟩ := List.mem_map.mp hrow'
    refine Or.inl ⟨row, hm, ?_, (hlaw.id row hm).symm.trans hid, ?_⟩
    · exact (JobRow.appID_of_key (hlaw.key row hm)).symm.trans happ
    · rcases hset row hm with hsame | hrewrites
      · rw [hsame] at hrunning
        exact hrunning
      · rcases hrewrites.status with hsame | hmoves
        · simpa [JobRow.isRunning, hsame] using hrunning
        · cases call with
          | markDone id success errMsg summary => exact hrewrites.2.1
          | recoverStale => exact hrewrites.1
          | checkpoint id phase =>
            simp [JobRow.isRunning, hrewrites.2.1, JobStatus.isRunning]
          | saveJobLog id log =>
            simpa [JobRow.isRunning, hrewrites.2] using hrunning
          | _ => exact hrewrites.elim
  | @canceled chosen results _ hrows _ _ _ =>
    rw [hrows] at hrow'
    obtain ⟨row, hm, rfl⟩ := List.mem_map.mp hrow'
    refine Or.inl ⟨row, hm, ?_, ?_, ?_⟩
    · exact (JobRow.appID_of_key (cancel_lawful.key row hm)).symm.trans happ
    · exact (cancel_lawful.id row hm).symm.trans hid
    · by_cases hc : chosen row = true
      · simp only [hc, ↓reduceIte] at hrunning
        exact canceled_running_origin hrunning
      · simp only [hc, Bool.false_eq_true, ↓reduceIte] at hrunning
        exact hrunning
  | deleted _ _ hrows _ _ =>
    rw [hrows] at hrow'
    exact Or.inl ⟨row', (List.mem_filter.mp hrow').1, happ, hid, hrunning⟩

/-- A job that runs before a step runs after it, unless the step is one that finishes it. -/
theorem running_survives (h : JobAction rt call own step) {appID id : String}
    (hruns : RunsFor step.before.jobs appID id) :
    RunsFor step.after.jobs appID id ∨
      ∃ row ∈ step.before.jobs.rows, ∃ row' ∈ step.after.jobs.rows, row.id = id ∧
        row.isRunning = true ∧ row'.id = id ∧ isTerminalJobStatus row'.status = true ∧
        call.Rewrites row row' := by
  obtain ⟨row, hrow, happ, hid, hrunning⟩ := hruns
  cases h with
  | quiet hjobs _ _ => exact Or.inl ⟨row, hjobs ▸ hrow, happ, hid, hrunning⟩
  | inserted _ _ _ _ hinsert _ _ =>
    exact Or.inl ⟨row, by simp [Jobs.insert_rows hinsert, hrow], happ, hid, hrunning⟩
  | @dequeued job _ _ hnext hrows _ _ =>
    have hne : row ≠ job := by
      rintro rfl
      have hs := (Jobs.nextPending_mem hnext).2.2
      simp [JobRow.isRunning, hs, JobStatus.isRunning] at hrunning
    refine Or.inl ⟨row, ?_, happ, hid, hrunning⟩
    rw [hrows]
    exact List.mem_map.mpr ⟨row, hrow, by simp [hne]⟩
  | @rewritten set hrows hlaw hset _ _ =>
    have hmem : set row ∈ step.after.jobs.rows := hrows ▸ List.mem_map_of_mem hrow
    have hid' := (hlaw.id row hrow).trans hid
    have happ' := (JobRow.appID_of_key (hlaw.key row hrow)).trans happ
    rcases hset row hrow with hsame | hrewrites
    · exact Or.inl ⟨set row, hmem, happ', hid', hsame.symm ▸ hrunning⟩
    · by_cases hterminal : isTerminalJobStatus (set row).status = true
      · exact Or.inr ⟨row, hrow, set row, hmem, hid, hrunning, hid', hterminal, hrewrites⟩
      · refine Or.inl ⟨set row, hmem, happ', hid', ?_⟩
        rcases hrewrites.status with hsame | hmoves
        · simpa [JobRow.isRunning, hsame] using hrunning
        · exact hmoves.running_of_not_terminal (by simpa using hterminal) hrunning
  | @canceled chosen results _ hrows _ _ _ =>
    refine Or.inl ⟨if chosen row then row.canceled else row, hrows ▸ List.mem_map_of_mem hrow,
      ?_, ?_, ?_⟩
    · exact (JobRow.appID_of_key (cancel_lawful.key row hrow)).trans happ
    · exact (cancel_lawful.id row hrow).trans hid
    · by_cases hc : chosen row = true
      · simp only [hc, ↓reduceIte]
        exact canceled_running hrunning
      · simp only [hc, Bool.false_eq_true, ↓reduceIte]
        exact hrunning
  | @deleted id' _ hidle hrows _ _ =>
    have hne : row.appID ≠ id' := by
      intro he
      rw [hidle row hrow he] at hrunning
      simp at hrunning
    refine Or.inl ⟨row, ?_, happ, hid, hrunning⟩
    rw [hrows]
    exact List.mem_filter.mpr ⟨hrow, by simp [hne]⟩

end Step

/-- No call dequeues twice, and what it dequeues is a job of the app it asked for. -/
theorem dequeues_atMostOnce {rt : Runtime} {s₀ : Server} {cfg : ServerConfig}
    (reach : rt.Reaches s₀ cfg) (t : ℕ) : (dequeuesIn (ownSteps t cfg.history)).length ≤ 1 := by
  refine server_invariant (J := fun _ history => (dequeuesIn (ownSteps t history)).length ≤ 1)
    ?_ ?_ ?_ ?_ reach
  · simp [ownSteps, dequeuesIn, emissions]
  · intro s history u call ih
    simpa using ih
  · intro history u call step ih h
    by_cases he : u = t
    · subst he
      rw [ownSteps_acted_self, dequeuesIn_append]
      cases h with
      | quiet _ hpublished _ =>
        have hstep : Continues (ownSteps u history) (ownSteps u history ++ [step]) :=
          continues_step hpublished
        have hsame := hstep.dequeuesIn
        rw [dequeuesIn_append] at hsame
        rw [hsame]
        exact ih
      | dequeued _ hfirst _ _ hemit _ =>
        rw [hfirst]
        simp [dequeuesIn, hemit, StoreEvent.dequeuedRow]
      | inserted _ _ _ _ _ hemit _ =>
        simpa [dequeuesIn, hemit, StoreEvent.dequeuedRow, List.filterMap_cons] using ih
      | rewritten _ _ _ hemit _ => simpa [dequeuesIn, hemit] using ih
      | canceled _ _ _ hemit _ =>
        simpa [dequeuesIn, hemit, StoreEvent.dequeuedRow, Function.comp_def] using ih
      | deleted _ _ _ hemit _ => simpa [dequeuesIn, hemit] using ih
    · rw [ownSteps_acted_ne he]
      exact ih
  · intro s history u call value ih _
    simpa using ih

end AutoDeploy
