import AutoDeploy.JobActionCalls

namespace AutoDeploy

open Interleaving

/-- What one action of a call may do to the rows of `deploy_jobs`. -/
structure LifecycleStep (call : Call) (before after : Jobs) : Prop where
  moved : ∀ row ∈ before.rows, ∀ row' ∈ after.rows, row'.id = row.id →
    row'.status = row.status ∨ row.status.Moves row'.status
  fresh : ∀ row' ∈ after.rows, (∀ row ∈ before.rows, row.id ≠ row'.id) → row'.status = .pending
  kept : (∀ id, call ≠ .deleteApp id) → ∀ row ∈ before.rows, ∃ row' ∈ after.rows, row'.id = row.id
  stale : call = .recoverStale → ∀ row ∈ before.rows, row.isRunning = false → row ∈ after.rows

theorem lifecycle_map {call : Call} {before after : Jobs} (set : JobRow → JobRow)
    (hrows : after.rows = before.rows.map set) (hlaw : Jobs.LawfulOn before.rows set)
    (hstale : call = .recoverStale → ∀ row ∈ before.rows, row.isRunning = false → set row = row) :
    LifecycleStep call before after := by
  have hmem : ∀ row' ∈ after.rows, ∃ row ∈ before.rows, set row = row' := by
    intro row' hm
    rw [hrows] at hm
    exact List.mem_map.mp hm
  refine ⟨?_, ?_, ?_, ?_⟩
  · intro row hrow row' hrow' hid
    obtain ⟨source, hsource, rfl⟩ := hmem row' hrow'
    rw [hlaw.id source hsource] at hid
    obtain rfl := before.eq_of_id_eq hsource hrow hid
    exact hlaw.status source hsource
  · intro row' hrow' hnew
    obtain ⟨source, hsource, rfl⟩ := hmem row' hrow'
    exact absurd (hlaw.id source hsource).symm (hnew source hsource)
  · intro _ row hrow
    exact ⟨set row, hrows ▸ List.mem_map_of_mem hrow, hlaw.id row hrow⟩
  · intro hcall row hrow hidle
    rw [hrows, ← hstale hcall row hrow hidle]
    exact List.mem_map_of_mem hrow

theorem dequeue_lawful {jobs : Jobs} {appID : String} {job : JobRow}
    (h : jobs.nextPending appID = some job) : Jobs.LawfulOn jobs.rows
      fun row => if row = job then { job with status := .inProgress } else row := by
  have hpending := (Jobs.nextPending_mem h).2.2
  refine ⟨?_, ?_, ?_, ?_⟩
  all_goals
    intro row _
    by_cases he : row = job
    · subst he
      simp [hpending, JobStatus.Moves.dequeue, JobRow.activeKey]
    · simp [he]

theorem cancel_lawful {rows : List JobRow} {chosen : JobRow → Bool} :
    Jobs.LawfulOn rows fun row => if chosen row then row.canceled else row := by
  refine ⟨?_, ?_, ?_, ?_⟩
  all_goals
    intro row _
    by_cases he : chosen row = true
    · simp [he, Jobs.canceled_id, Jobs.canceled_seq, Jobs.canceled_activeKey, Jobs.canceled_status]
    · simp [he]

theorem jobAction_lifecycle {rt : Runtime} {call : Call} {own : List ServerStep}
    {step : ServerStep} (h : JobAction rt call own step) :
    LifecycleStep call step.before.jobs step.after.jobs := by
  cases h with
  | quiet hjobs _ _ =>
    refine lifecycle_map id (by simp [hjobs]) ⟨?_, ?_, ?_, ?_⟩ (by simp) <;> simp
  | @inserted jobID appID tag trigger retryOfJobID hinserts _ _ _ hinsert _ _ =>
    have hrows := Jobs.insert_rows hinsert
    have hfresh : ∀ row ∈ step.before.jobs.rows, row.id ≠ jobID := by
      intro row hrow he
      have hpk := step.after.jobs.primaryKey
      rw [hrows, List.map_append, List.nodup_append] at hpk
      exact hpk.2.2 row.id (List.mem_map_of_mem hrow) jobID (by simp [Jobs.newJob]) he
    have hmem : ∀ row' ∈ step.after.jobs.rows, row' ∈ step.before.jobs.rows ∨
        row' = step.before.jobs.newJob jobID appID tag trigger retryOfJobID := by
      intro row' hm
      rw [hrows] at hm
      simpa using hm
    refine ⟨?_, ?_, ?_, ?_⟩
    · intro row hrow row' hrow' hid
      rcases hmem row' hrow' with hold | rfl
      · rw [step.before.jobs.eq_of_id_eq hold hrow hid]
        exact Or.inl rfl
      · exact absurd hid.symm (hfresh row hrow)
    · intro row' hrow' hnew
      rcases hmem row' hrow' with hold | rfl
      · exact absurd rfl (hnew row' hold)
      · rfl
    · intro _ row hrow
      exact ⟨row, by simp [hrows, hrow], rfl⟩
    · intro _ row hrow _
      simp [hrows, hrow]
  | dequeued hcall _ hnext hrows _ _ =>
    exact lifecycle_map _ hrows (dequeue_lawful hnext) (by simp [hcall])
  | rewritten hrows hlaw hset _ _ =>
    refine lifecycle_map _ hrows hlaw ?_
    rintro rfl row hrow hidle
    rcases hset row hrow with hsame | hrewrites
    · exact hsame
    · rw [hrewrites.1] at hidle
      simp at hidle
  | canceled hcall hrows _ _ _ =>
    refine lifecycle_map _ hrows cancel_lawful ?_
    rintro rfl
    simp at hcall
  | deleted hcall _ hrows _ _ =>
    subst hcall
    have hmem : ∀ row' ∈ step.after.jobs.rows, row' ∈ step.before.jobs.rows := by
      intro row' hm
      rw [hrows] at hm
      exact (List.mem_filter.mp hm).1
    refine ⟨?_, ?_, ?_, by simp⟩
    · intro row hrow row' hrow' hid
      rw [step.before.jobs.eq_of_id_eq (hmem row' hrow') hrow hid]
      exact Or.inl rfl
    · intro row' hrow' hnew
      exact absurd rfl (hnew row' (hmem row' hrow'))
    · intro hne
      exact absurd rfl (hne _)

theorem acted_lifecycle {rt : Runtime} {s₀ : Server} {cfg : ServerConfig}
    (reach : rt.Reaches s₀ cfg) {t : ℕ} {call : Call} {step : ServerStep}
    (hm : .acted t call step ∈ cfg.history) :
    LifecycleStep call step.before.jobs step.after.jobs := by
  obtain ⟨own, h⟩ := acted_action reach hm
  exact jobAction_lifecycle h

/-- The rows of one id that neighbouring states hold have one status once it is terminal. -/
theorem terminal_chain {id : String} {status : JobStatus}
    (hterminal : isTerminalJobStatus status = true) {first : Server} {rest : List Server}
    (chain : (first :: rest).IsChain fun s s' => ∀ row ∈ s.jobs.rows, ∀ row' ∈ s'.jobs.rows,
      row'.id = row.id → row'.status = row.status ∨ row.status.Moves row'.status)
    {row : JobRow} (hrow : row ∈ first.jobs.rows) (hid : row.id = id) (hs : row.status = status)
    (hexists : ∀ s ∈ rest, ∃ row ∈ s.jobs.rows, row.id = id) :
    ∀ s ∈ rest, ∀ row ∈ s.jobs.rows, row.id = id → row.status = status := by
  induction rest generalizing first row with
  | nil => simp
  | cons second rest ih =>
    rw [List.isChain_cons_cons] at chain
    obtain ⟨next, hnext, hnid⟩ := hexists second (by simp)
    have hkeep : ∀ row' ∈ second.jobs.rows, row'.id = id → row'.status = status := by
      intro row' hrow' hid'
      rcases chain.1 row hrow row' hrow' (hid'.trans hid.symm) with hsame | hmoves
      · exact hsame.trans hs
      · exact absurd hmoves (JobStatus.terminal_no_moves (hs ▸ hterminal))
    intro s hm
    rcases List.mem_cons.mp hm with rfl | hm
    · exact hkeep
    · exact ih chain.2 hnext hnid (hkeep next hnext hnid)
        (fun s hs => hexists s (List.mem_cons_of_mem _ hs)) s hm

/-- The lifecycle of jobs: every action moves statuses as the law allows, only the deletion of
an app takes rows away, and while a row exists its terminal status stays. -/
theorem jobs_lifecycle {rt : Runtime} {s₀ : Server} {cfg : ServerConfig}
    (reach : rt.Reaches s₀ cfg) :
    (∀ t call step, .acted t call step ∈ cfg.history →
      LifecycleStep call step.before.jobs step.after.jobs) ∧
    ∀ first rest, (first :: rest) <:+: visited s₀ cfg.history →
      ∀ row ∈ first.jobs.rows, isTerminalJobStatus row.status = true →
        (∀ s ∈ rest, ∃ row' ∈ s.jobs.rows, row'.id = row.id) →
        ∀ s ∈ rest, ∀ row' ∈ s.jobs.rows, row'.id = row.id → row'.status = row.status := by
  refine ⟨fun t call step hm => acted_lifecycle reach hm, ?_⟩
  intro first rest hsegment row hrow hterminal hexists
  have hchain := visited_chain reach (S := fun s s' => ∀ row ∈ s.jobs.rows,
      ∀ row' ∈ s'.jobs.rows, row'.id = row.id →
        row'.status = row.status ∨ row.status.Moves row'.status) (by
    intro step hm
    obtain ⟨t, call, hm⟩ := mem_steps.mp hm
    exact (acted_lifecycle reach hm).moved)
  exact terminal_chain hterminal ( List.IsChain.infix hchain hsegment) hrow rfl rfl hexists

/-- A job is canceled at a checkpoint, and its worker reports a failure afterwards. -/
def lateReport : List (Turn Choice Call) :=
  solo (.enqueue "a" "v1") 0 11 ⟨none, "j1"⟩ ++ solo (.dequeueNext "a") 1 3 ⟨none, ""⟩ ++
    solo (.requestJobCancel "j1") 2 5 ⟨none, ""⟩ ++
    solo (.checkpoint "j1" .cleanupComplete) 3 5 ⟨none, ""⟩ ++
    solo (.markDone "j1" false "late" none) 4 3 ⟨none, ""⟩

theorem jobs_lifecycle_lateReport :
    (play (Runtime.program ⟨1, id, id⟩) (.started .empty .empty) lateReport).shared.jobs.rows.map
      JobRow.status = [.canceled] ∧
    ∀ t call step, .acted t call step ∈
        (play (Runtime.program ⟨1, id, id⟩) (.started .empty .empty) lateReport).history →
      LifecycleStep call step.before.jobs step.after.jobs :=
  ⟨by decide, (jobs_lifecycle (reaches_play _ _ lateReport)).1⟩

end AutoDeploy
