import AutoDeploy.DeployAgreement
import AutoDeploy.RunningRows

namespace AutoDeploy

open Interleaving

/-- The row of the deploy is a row of the table. -/
def Shows (jobs : Jobs) (w : DeployWorld) : Prop := w.row ∈ jobs.rows

/-- The calls that write the row of this job and are not a cancel: those that its own deploy makes,
and the recovery when a process starts. -/
def Call.Reserved (id : String) : Call → Prop
  | .markDone other _ _ _ => other = id
  | .saveJobLog other _ => other = id
  | .checkpoint other _ => other = id
  | .recoverStale => True
  | _ => False

theorem Call.Rewrites.reserved {call : Call} {row row' : JobRow} (h : call.Rewrites row row') :
    call.Reserved row.id := by
  cases call with
  | markDone id success errMsg summary => exact h.1.symm
  | saveJobLog id log => exact h.1.symm
  | checkpoint id phase => exact h.1.symm
  | recoverStale => trivial
  | _ => exact h.elim

section Row

variable {rt : Runtime} {call : Call} {own : List ServerStep} {step : ServerStep}
  {w : DeployWorld} {jobs after : Jobs}

/-- What a deploy supposes about the other goroutines: their statements leave the row of a job that
runs as it is, or mark it as a cancel request does. -/
theorem shows_meanwhile (h : JobAction rt call own step) (hshows : Shows step.before.jobs w)
    (hrunning : w.row.isRunning = true) (hfree : ¬ call.Reserved w.row.id) :
    ∃ cancel, ∀ k : Answer, k.cancel = cancel → Shows step.after.jobs (w.meanwhile k) := by
  have hstays : w.row ∈ step.after.jobs.rows →
      ∃ cancel, ∀ k : Answer, k.cancel = cancel → Shows step.after.jobs (w.meanwhile k) := by
    intro hrow
    refine ⟨false, fun k hk => ?_⟩
    simpa [Shows, DeployWorld.meanwhile, hk] using hrow
  cases h with
  | quiet hjobs _ _ => exact hstays (hjobs ▸ hshows)
  | inserted _ _ _ _ hinsert _ _ =>
    apply hstays
    rw [Jobs.insert_rows hinsert]
    exact List.mem_append_left _ hshows
  | @dequeued job _ _ hnext hrows _ _ =>
    have hne : w.row ≠ job := by
      rintro rfl
      have hpending := (Jobs.nextPending_mem hnext).2.2
      simp [JobRow.isRunning, hpending, JobStatus.isRunning] at hrunning
    apply hstays
    rw [hrows]
    exact List.mem_map.mpr ⟨w.row, hshows, by simp [hne]⟩
  | @rewritten set hrows _ hset _ _ =>
    rcases hset w.row hshows with hsame | hrewrites
    · apply hstays
      rw [hrows, ← hsame]
      exact List.mem_map_of_mem hshows
    · exact absurd hrewrites.reserved hfree
  | @canceled chosen _ _ hrows _ _ _ =>
    refine ⟨chosen w.row, fun k hk => ?_⟩
    have hmem : (if chosen w.row then w.row.canceled else w.row) ∈ step.after.jobs.rows := by
      rw [hrows]
      exact List.mem_map_of_mem hshows
    simpa [Shows, DeployWorld.meanwhile, hk] using hmem
  | @deleted id _ hidle hrows _ _ =>
    have hne : w.row.appID ≠ id := by
      intro happ
      rw [hidle w.row hshows happ] at hrunning
      cases hrunning
    apply hstays
    rw [hrows]
    exact List.mem_filter.mpr ⟨hshows, by simp [hne]⟩

/-- The UPDATE of a checkpoint is accepted, and writes the row as the deploy's does. -/
theorem shows_markTerminal {id : String} {status : JobStatus} (message : String)
    (hterminal : isTerminalJobStatus status = true) (hshows : Shows jobs w) (hid : w.row.id = id) :
    ∃ after, jobs.markTerminal id status message = .ok after ∧
      Shows after (if w.row.status = .cancelRequested then
        { w with row := w.row.setStatus status message } else w) := by
  have hinactive := JobStatus.terminal_not_active hterminal
  obtain ⟨after, hupdate⟩ := jobs.update_ok (Jobs.setStatus_tame hinactive message)
  refine ⟨after, hupdate, ?_⟩
  unfold Shows
  rw [Jobs.update_rows hupdate]
  refine List.mem_map.mpr ⟨w.row, hshows, ?_⟩
  split <;> simp_all

/-- `MarkDone` is accepted, and writes the row as the deploy's does. -/
theorem shows_markDone {id : String} (success : Bool) (errMsg : String)
    (summary : Option DownloadSummary) (hshows : Shows jobs w) (hid : w.row.id = id) :
    ∃ after, jobs.markDone id success errMsg summary = .ok after ∧
      Shows after (if w.row.isRunning then
        { w with row := w.row.markDone success errMsg summary } else w) := by
  obtain ⟨after, hupdate⟩ := jobs.update_ok (Jobs.markDone_tame success errMsg summary)
  refine ⟨after, hupdate, ?_⟩
  unfold Shows
  rw [Jobs.update_rows hupdate]
  refine List.mem_map.mpr ⟨w.row, hshows, ?_⟩
  split <;> simp_all

end Row

section Checkpoint

variable {jobID : String} {phase : DeployPhase} {status : JobStatus} {w : DeployWorld}
  {own : List ServerStep} {s : Server}

theorem meanwhile_failsAt (n m : ℕ) : w.meanwhile (failsAt n [] m) = w := by
  by_cases h : m = n <;> simp [DeployWorld.meanwhile, failsAt, Answer.calm, h]

theorem failsAt_fault (n m : ℕ) :
    (failsAt n [] m).fault = if m = n then some "exit status 1" else none := by
  by_cases h : m = n <;> simp [failsAt, Answer.calm, h]

/-- The goroutine that watches for a cancel polls the status that `meanwhile` looks at. -/
theorem isCancelRequested_wp (hfind : s.jobs.find? jobID = some w.row) :
    (isCancelRequested jobID).Wp (fun _ s' value => s' = s ∧ ∀ requested,
      value = .ok requested → requested =
        (w.row.status == .cancelRequested || w.row.status == .canceled)) own s := by
  unfold isCancelRequested query
  apply Prog.wp_atomic
  intro k
  cases k.fault with
  | some text => exact ⟨rfl, by simp⟩
  | none => exact ⟨rfl, by simp [hfind]⟩

/-- What `markTerminal` of the server comes to, for a row that is in the table. -/
theorem markTerminal_wp {message : String} (hterminal : isTerminalJobStatus status = true)
    (hshows : Shows s.jobs w) (hid : w.row.id = jobID) :
    (markTerminal jobID status message).Wp (fun _ s' value =>
      ((∃ e, value = .error e) ∧ Shows s'.jobs w) ∨
        (value = .ok () ∧ Shows s'.jobs (if w.row.status = .cancelRequested then
          { w with row := w.row.setStatus status message } else w))) own s := by
  obtain ⟨after, hupdate, hafter⟩ := shows_markTerminal message hterminal hshows hid
  have hexec : (execJobs fun jobs => jobs.markTerminal jobID status message).Wp (fun _ s' value =>
      (s'.jobs = s.jobs ∧ ∃ e, value = .error e) ∨ (s'.jobs = after ∧ value = .ok ())) own s := by
    unfold execJobs exec
    apply Prog.wp_atomic
    intro k
    cases k.fault with
    | some text => exact Or.inl ⟨rfl, _, rfl⟩
    | none => exact Or.inr (by simp [hupdate, bind, Except.bind, pure, Except.pure])
  unfold markTerminal
  apply Prog.wp_bind hexec
  rintro own₁ s₁ result (⟨hsame, herror⟩ | ⟨hnew, rfl⟩) _
  · exact Or.inl ⟨herror, by simpa [hsame] using hshows⟩
  · exact Or.inr ⟨rfl, by simpa [hnew] using hafter⟩

/-- The checkpoint of the server does to the row in its table, and decides, what the one of a
deploy can do with the row that it has. -/
theorem checkpoint_simulated (hfind : s.jobs.find? jobID = some w.row) :
    (checkpoint jobID phase).Wp (fun _ s' value => ∃ answers,
      let o := (controlCheckpoint jobID phase).alone answers w
      Shows s'.jobs o.state ∧ ∀ decision, value = .ok decision ↔ o.value = .ok decision) [] s := by
  have hrow : Shows s.jobs w := List.mem_of_find?_eq_some hfind
  have hid : w.row.id = jobID := by simpa using List.find?_some hfind
  unfold checkpoint query
  apply Prog.wp_bind (P := fun _ s' value => s' = s ∧ ((∃ e, value = .error e) ∨
    value = .ok (some w.row.status)))
  · apply Prog.wp_atomic
    intro k
    cases k.fault with
    | some text => exact ⟨rfl, Or.inl ⟨_, rfl⟩⟩
    | none => exact ⟨rfl, Or.inr (by simp [hfind])⟩
  · rintro own₁ s₁ value ⟨rfl, ⟨e, rfl⟩ | rfl⟩
    · refine ⟨failsAt 0 [], ?_⟩
      simp [controlCheckpoint, readStatus, call, Prog.alone_bind, meanwhile_failsAt,
        failsAt_fault, hrow]
    · simp only
      split
      next hmarks =>
        refine ⟨failsAt 2 [], ?_⟩
        simp [controlCheckpoint, readStatus, call, Prog.alone_bind, meanwhile_failsAt,
          failsAt_fault, hrow, hmarks]
      next terminal hmarks =>
        have hterminal : isTerminalJobStatus terminal = true := by
          rcases (marks_terminal hmarks).2 with rfl | rfl <;> rfl
        apply Prog.wp_bind (markTerminal_wp hterminal hrow hid)
        rintro own₂ s₂ result (⟨⟨e, rfl⟩, hshows⟩ | ⟨rfl, hshows⟩)
        · refine ⟨failsAt 1 [], ?_⟩
          simpa [controlCheckpoint, readStatus, writeTerminal, fallible, call, Prog.alone_bind,
            meanwhile_failsAt, failsAt_fault, hmarks] using hshows
        · intro k
          refine ⟨failsAt 2 [], ?_⟩
          simpa [controlCheckpoint, readStatus, writeTerminal, fallible, call, Prog.alone_bind,
            meanwhile_failsAt, failsAt_fault, hmarks] using hshows

end Checkpoint

end AutoDeploy
