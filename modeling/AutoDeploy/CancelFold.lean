import AutoDeploy.JobStatements

namespace AutoDeploy

/-- The counters of `RequestAppCancel` after one more result. -/
def CancelAppResult.add (result : CancelAppResult) (job : CancelJobResult) : CancelAppResult :=
  let next := { result with total := result.total + 1, requested := result.requested ++ [job] }
  match job.outcome with
  | .pendingCanceled =>
    { next with pending := next.pending + 1, pendingCanceled := next.pendingCanceled + 1 }
  | .activeRequested =>
    { next with active := next.active + 1, activeSignaled := next.activeSignaled + 1 }
  | .terminalNoop =>
    { next with terminal := next.terminal + 1, alreadyTerminal := next.alreadyTerminal + 1 }
  | .unknownJob => { next with unknown := next.unknown + 1 }

/-- Every requested job is counted once. -/
structure CancelAppResult.Tallies (result : CancelAppResult) : Prop where
  total : result.total = result.pending + result.active + result.terminal + result.unknown
  requested : result.total = result.requested.length

theorem CancelAppResult.Tallies.add {result : CancelAppResult} (h : result.Tallies)
    (job : CancelJobResult) : (result.add job).Tallies := by
  have htotal := h.total
  have hlength := h.requested
  unfold CancelAppResult.add
  cases job.outcome with
  | pendingCanceled => exact ⟨by dsimp only; omega, by simp [hlength]⟩
  | activeRequested => exact ⟨by dsimp only; omega, by simp [hlength]⟩
  | terminalNoop => exact ⟨by dsimp only; omega, by simp [hlength]⟩
  | unknownJob => exact ⟨by dsimp only; omega, by simp [hlength]⟩

theorem CancelAppResult.add_requested (result : CancelAppResult) (job : CancelJobResult) :
    (result.add job).requested = result.requested ++ [job] := by
  unfold CancelAppResult.add
  cases job.outcome <;> rfl

theorem tallies_fold {results : List CancelJobResult} {result : CancelAppResult}
    (h : result.Tallies) : (results.foldl CancelAppResult.add result).Tallies ∧
      (results.foldl CancelAppResult.add result).requested = result.requested ++ results := by
  induction results generalizing result with
  | nil => exact ⟨h, by simp⟩
  | cons job rest ih =>
    obtain ⟨htallies, hrequested⟩ := ih (h.add job)
    exact ⟨htallies, by simp [hrequested, CancelAppResult.add_requested]⟩

namespace Jobs

section Accepts

variable {jobs : Jobs} {job : JobRow} {status : JobStatus} {message : String}

/-- The UPDATE of a cancel cannot run into a constraint: it makes no row active that was not. -/
theorem setCancelStatus_ok (hj : job ∈ jobs.rows) (hactive : job.isActive = true) :
    ∃ after, jobs.setCancelStatus job.id status message = .ok after := by
  have hsame : jobs.update (fun row => row.id == job.id) (JobRow.setStatus status message) =
      jobs.update (fun row => row.isActive && row.id == job.id)
        (JobRow.setStatus status message) := by
    unfold Jobs.update
    congr 1
    apply List.map_congr_left
    intro row hm
    by_cases hid : row.id = job.id
    · have he := jobs.eq_of_id_eq hm hj hid
      simp [he, hactive]
    · simp [hid]
  have htame : Tame fun row : JobRow =>
      if row.isActive && row.id == job.id then row.setStatus status message else row := by
    refine ⟨?_, ?_, ?_⟩
    · intro row
      split <;> rfl
    · intro row
      split <;> rfl
    · intro row h
      by_cases ha : row.isActive = true
      · exact ha
      · simp only [ha, Bool.false_and, Bool.false_eq_true, ↓reduceIte] at h
  have hupdate : ∃ after, jobs.update (fun _ => true) (fun row =>
      if row.isActive && row.id == job.id then row.setStatus status message else row) =
      .ok after := update_ok jobs htame
  obtain ⟨after, hafter⟩ := hupdate
  refine ⟨after, ?_⟩
  rw [setCancelStatus, hsame, ← hafter]
  simp [Jobs.update]

end Accepts

/-- A cancel of a job never fails on the table itself. -/
theorem requestJobCancel_ok (quote : String → String) (jobs : Jobs) (jobID : String) :
    ∃ result after, jobs.requestJobCancel quote jobID = .ok (result, after) := by
  cases hf : jobs.find? jobID with
  | none => exact ⟨_, _, requestJobCancel_none hf⟩
  | some job =>
    have hj := (find?_eq_some.mp hf).1
    simp only [requestJobCancel, hf]
    cases hs : job.status with
    | pending =>
      have hactive : job.isActive = true := by simp [JobRow.isActive, hs, JobStatus.isActive]
      have hok : ∃ after, jobs.setCancelStatus job.id .canceled "canceled before dequeue" =
          .ok after := setCancelStatus_ok hj hactive
      obtain ⟨after, hafter⟩ := hok
      exact ⟨_, after, by simp [hafter]; rfl⟩
    | inProgress =>
      have hactive : job.isActive = true := by simp [JobRow.isActive, hs, JobStatus.isActive]
      have hok : ∃ after, jobs.setCancelStatus job.id .cancelRequested "cancel requested" =
          .ok after := setCancelStatus_ok hj hactive
      obtain ⟨after, hafter⟩ := hok
      exact ⟨_, after, by simp [hafter]; rfl⟩
    | _ => exact ⟨_, jobs, rfl⟩

/-- One cancel after the other, with what each of them answers. -/
def cancelEach (quote : String → String) : List String → Jobs →
    Except SqlError (List CancelJobResult × Jobs)
  | [], jobs => .ok ([], jobs)
  | jobID :: rest, jobs => do
    let (result, after) ← jobs.requestJobCancel quote jobID
    let (results, last) ← cancelEach quote rest after
    return (result :: results, last)

theorem cancelEach_ok (quote : String → String) (ids : List String) (jobs : Jobs) :
    ∃ results after, cancelEach quote ids jobs = .ok (results, after) := by
  induction ids generalizing jobs with
  | nil => exact ⟨[], jobs, rfl⟩
  | cons jobID rest ih =>
    obtain ⟨result, mid, hmid⟩ := requestJobCancel_ok quote jobs jobID
    obtain ⟨results, after, hafter⟩ := ih mid
    refine ⟨result :: results, after, ?_⟩
    simp only [cancelEach, hmid, hafter, bind, Except.bind]
    rfl

/-- A row of the loop of `RequestAppCancel` is a cancel of its job, and one more count. -/
theorem requestAppCancelRow_eq {quote : String → String} {jobs : Jobs} {job : JobRow}
    (result : CancelAppResult) (hj : job ∈ jobs.rows) :
    requestAppCancelRow quote (result, jobs) job =
      (jobs.requestJobCancel quote job.id).map fun out => (result.add out.1, out.2) := by
  have hf : jobs.find? job.id = some job := find?_eq_some.mpr ⟨hj, rfl⟩
  simp only [requestAppCancelRow, requestJobCancel, hf]
  cases hs : job.status with
  | pending =>
    dsimp only
    cases jobs.setCancelStatus job.id .canceled "canceled before dequeue" with
    | error e => rfl
    | ok after => rfl
  | inProgress =>
    dsimp only
    cases jobs.setCancelStatus job.id .cancelRequested "cancel requested" with
    | error e => rfl
    | ok after => rfl
  | _ => rfl

/-- The rows of the loop are still in the table as the query has read them when their turn
comes. -/
theorem cancel_keeps {quote : String → String} {jobs after : Jobs} {job other : JobRow}
    {result : CancelJobResult} (hj : job ∈ jobs.rows) (ho : other ∈ jobs.rows) (hne : other ≠ job)
    (h : jobs.requestJobCancel quote job.id = .ok (result, after)) : other ∈ after.rows := by
  have hf : jobs.find? job.id = some job := find?_eq_some.mpr ⟨hj, rfl⟩
  rw [(requestJobCancel_some hf h).2]
  exact List.mem_map.mpr ⟨other, ho, by simp [hne]⟩

theorem requestAppCancel_rows {quote : String → String} {todo : List JobRow} {jobs : Jobs}
    (result : CancelAppResult) (hnodup : todo.Nodup) (hm : ∀ job ∈ todo, job ∈ jobs.rows) :
    todo.foldlM (requestAppCancelRow quote) (result, jobs) =
      (cancelEach quote (todo.map JobRow.id) jobs).map fun out =>
        (out.1.foldl CancelAppResult.add result, out.2) := by
  induction todo generalizing result jobs with
  | nil => rfl
  | cons job rest ih =>
    have hj := hm job List.mem_cons_self
    obtain ⟨hnot, hrest⟩ := List.nodup_cons.mp hnodup
    rw [List.foldlM_cons, requestAppCancelRow_eq result hj, List.map_cons, cancelEach]
    cases hc : jobs.requestJobCancel quote job.id with
    | error e => rfl
    | ok out =>
      obtain ⟨done, after⟩ := out
      have hkeeps : ∀ other ∈ rest, other ∈ after.rows := fun other ho =>
        cancel_keeps hj (hm other (List.mem_cons_of_mem _ ho)) (fun he => hnot (he ▸ ho)) hc
      have hloop := ih (result.add done) hrest hkeeps
      simp only [Except.map, bind, Except.bind]
      rw [hloop]
      cases cancelEach quote (rest.map JobRow.id) after with
      | error e => rfl
      | ok out => rfl

/-- `RequestAppCancel` is the fold of `RequestJobCancel` over the jobs of the app. -/
theorem requestAppCancel_eq (quote : String → String) (jobs : Jobs) (appID : String) :
    jobs.requestAppCancel quote appID =
      (cancelEach quote ((jobs.jobsOfApp appID).map JobRow.id) jobs).map fun out =>
        (out.1.foldl CancelAppResult.add ⟨appID, 0, 0, 0, 0, 0, 0, 0, 0, []⟩, out.2) :=
  requestAppCancel_rows _ (jobs.jobsOfApp_nodup appID) fun _ hj => (jobsOfApp_mem.mp hj).1

end Jobs

end AutoDeploy
