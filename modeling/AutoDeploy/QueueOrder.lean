import AutoDeploy.JobLifecycle

namespace AutoDeploy

open Interleaving

/-- What stays the same of a row for as long as it exists. -/
def JobRow.identity (row : JobRow) : String × Int × String × String :=
  (row.id, row.seq, row.appID, row.tag)

/-- The `seq` values increase along the table, whose rows stand in the order of their INSERTs. -/
def Jobs.Ordered (jobs : Jobs) : Prop := (jobs.rows.map JobRow.seq).Pairwise (· < ·)

/-- A pending row of the app stands first among those that are pending. -/
def Jobs.FirstPending (jobs : Jobs) (job : JobRow) : Prop :=
  job.status = .pending ∧ ∃ earlier later, jobs.rows = earlier ++ job :: later ∧
    ∀ row ∈ earlier, row.appID = job.appID → row.status ≠ .pending

theorem empty_ordered : Jobs.empty.Ordered := List.Pairwise.nil

theorem identity_map {rows : List JobRow} {set : JobRow → JobRow} (hlaw : Jobs.LawfulOn rows set) :
    (rows.map set).map JobRow.identity = rows.map JobRow.identity := by
  rw [List.map_map]
  apply List.map_congr_left
  intro row hrow
  have hkey := hlaw.key row hrow
  simp only [JobRow.activeKey, Prod.mk.injEq] at hkey
  simp [JobRow.identity, hlaw.id row hrow, hlaw.seq row hrow, hkey]

theorem seq_of_identity (rows : List JobRow) :
    rows.map JobRow.seq = (rows.map JobRow.identity).map fun identity => identity.2.1 := by
  simp [JobRow.identity]

/-- One action keeps the rows, takes some away, or appends the row it inserts. -/
theorem jobAction_identity {rt : Runtime} {call : Call} {own : List ServerStep} {step : ServerStep}
    (h : JobAction rt call own step) :
    List.Sublist (step.after.jobs.rows.map JobRow.identity)
      (step.before.jobs.rows.map JobRow.identity ++ (insertsIn [step]).map JobRow.identity) := by
  have hprefix := List.sublist_append_left (step.before.jobs.rows.map JobRow.identity)
    ((insertsIn [step]).map JobRow.identity)
  cases h with
  | quiet hjobs _ _ => rw [hjobs]; exact hprefix
  | inserted _ _ _ _ hinsert hemit _ =>
    rw [Jobs.insert_rows hinsert, List.map_append]
    simp [insertsIn, emissions, hemit, StoreEvent.insertedRow]
  | dequeued _ _ hnext hrows _ _ =>
    rw [hrows, identity_map (dequeue_lawful hnext)]
    exact hprefix
  | rewritten hrows hlaw _ _ _ =>
    rw [hrows, identity_map hlaw]
    exact hprefix
  | canceled _ hrows _ _ _ =>
    rw [hrows, identity_map cancel_lawful]
    exact hprefix
  | deleted _ _ hrows _ _ =>
    rw [hrows]
    exact (List.filter_sublist.map _).trans hprefix

theorem jobAction_ordered {rt : Runtime} {call : Call} {own : List ServerStep} {step : ServerStep}
    (h : JobAction rt call own step) (hordered : step.before.jobs.Ordered) :
    step.after.jobs.Ordered := by
  cases h with
  | quiet hjobs _ _ => exact hjobs ▸ hordered
  | inserted _ _ _ _ hinsert _ _ =>
    unfold Jobs.Ordered
    rw [Jobs.insert_rows hinsert, List.map_append, List.pairwise_append]
    refine ⟨hordered, by simp, ?_⟩
    intro x hx y hy
    obtain ⟨row, hrow, rfl⟩ := List.mem_map.mp hx
    have hlt := step.before.jobs.seq_lt_nextSeq hrow
    simpa [Jobs.newJob] using (by simpa [Jobs.newJob] using hy : y = step.before.jobs.nextSeq) ▸ hlt
  | dequeued _ _ hnext hrows _ _ =>
    unfold Jobs.Ordered
    rw [hrows, seq_of_identity, identity_map (dequeue_lawful hnext), ← seq_of_identity]
    exact hordered
  | rewritten hrows hlaw _ _ _ =>
    unfold Jobs.Ordered
    rw [hrows, seq_of_identity, identity_map hlaw, ← seq_of_identity]
    exact hordered
  | canceled _ hrows _ _ _ =>
    unfold Jobs.Ordered
    rw [hrows, seq_of_identity, identity_map cancel_lawful, ← seq_of_identity]
    exact hordered
  | deleted _ _ hrows _ _ =>
    unfold Jobs.Ordered
    rw [hrows]
    exact List.Pairwise.sublist (List.filter_sublist.map _) hordered

/-- In an ordered table the least `seq` is the earliest INSERT. -/
theorem nextPending_first {jobs : Jobs} (hordered : jobs.Ordered) {appID : String} {job : JobRow}
    (h : jobs.nextPending appID = some job) : jobs.FirstPending job := by
  obtain ⟨hm, happ, hs⟩ := Jobs.nextPending_mem h
  obtain ⟨earlier, later, hsplit⟩ := List.append_of_mem hm
  refine ⟨hs, earlier, later, hsplit, ?_⟩
  intro row hrow hrowapp hpending
  have hle := Jobs.nextPending_le h (hsplit ▸ List.mem_append_left _ hrow) (hrowapp.trans happ)
    hpending
  have hlt : row.seq < job.seq := by
    unfold Jobs.Ordered at hordered
    rw [hsplit, List.map_append, List.pairwise_append] at hordered
    exact hordered.2.2 row.seq (List.mem_map_of_mem hrow) job.seq (by simp)
  omega

section Runs

variable {rt : Runtime} {s₀ : Server} {cfg : ServerConfig}

theorem visited_ordered (start : s₀.jobs.Ordered) (reach : rt.Reaches s₀ cfg) :
    ∀ s ∈ visited s₀ cfg.history, s.jobs.Ordered := by
  refine visited_invariant reach (P := fun s => s.jobs.Ordered) start ?_
  intro step hm
  obtain ⟨call, own, h⟩ := steps_action reach hm
  exact jobAction_ordered h

/-- The surviving rows are some of the first ones and some of the inserted ones, in the order in
which the INSERTs committed. -/
theorem surviving_sublist (reach : rt.Reaches s₀ cfg) :
    List.Sublist (cfg.shared.jobs.rows.map JobRow.identity)
      (s₀.jobs.rows.map JobRow.identity ++
        (insertsIn (steps cfg.history)).map JobRow.identity) := by
  refine server_invariant (J := fun s history => List.Sublist (s.jobs.rows.map JobRow.identity)
      (s₀.jobs.rows.map JobRow.identity ++ (insertsIn (steps history)).map JobRow.identity))
    ?_ ?_ ?_ ?_ reach
  · simp
  · intro s history t call ih
    simpa using ih
  · intro history t call step ih h
    have hstep := (jobAction_identity h).trans (ih.append_right _)
    simpa [insertsIn_append] using hstep
  · intro s history t call value ih _
    simpa using ih

end Runs

end AutoDeploy
