import AutoDeploy.JobTable
import AutoDeploy.CancelDecision

namespace AutoDeploy

/-- The row that the three INSERT statements write. -/
def Jobs.newJob (jobs : Jobs) (jobID appID tag : String) (trigger : Trigger)
    (retryOfJobID : Option String) : JobRow where
  id := jobID
  seq := jobs.nextSeq
  appID := appID
  tag := tag
  status := .pending
  trigger := trigger
  retryOfJobID := retryOfJobID
  errorMsg := none
  downloadBytes := 0
  downloadDurationMs := 0
  downloadSpeedBPS := 0
  deployLog := ""

def JobRow.markDone (success : Bool) (errMsg : String) (summary : Option DownloadSummary)
    (row : JobRow) : JobRow :=
  { row with
    status := if success then .succeeded else .failed
    errorMsg := if errMsg = "" then none else some errMsg
    downloadBytes := (summary.map DownloadSummary.bytes).getD 0
    downloadDurationMs := (summary.map DownloadSummary.durationMs).getD 0
    downloadSpeedBPS := (summary.map DownloadSummary.speedBPS).getD 0 }

def JobRow.setStatus (status : JobStatus) (message : String) (row : JobRow) : JobRow :=
  { row with status := status, errorMsg := some message }

namespace Jobs

/-- The transaction of `DequeueNext`: select the first pending job, then mark it. -/
def dequeueNext (jobs : Jobs) (appID : String) : Except SqlError (Option JobRow × Jobs) :=
  match jobs.nextPending appID with
  | none => .ok (none, jobs)
  | some job => do
    let after ← jobs.update (fun row => row.id == job.id) fun row =>
      { row with status := .inProgress }
    return (some job, after)

def markDone (jobs : Jobs) (id : String) (success : Bool) (errMsg : String)
    (summary : Option DownloadSummary) : Except SqlError Jobs :=
  jobs.update (fun row => row.id == id && row.isRunning) (JobRow.markDone success errMsg summary)

def saveJobLog (jobs : Jobs) (id log : String) : Except SqlError Jobs :=
  jobs.update (fun row => row.id == id) fun row => { row with deployLog := log }

def recoverStale (jobs : Jobs) : Except SqlError Jobs :=
  jobs.update JobRow.isRunning (JobRow.setStatus .failed "recovered: process crashed")

def setCancelStatus (jobs : Jobs) (jobID : String) (status : JobStatus) (message : String) :
    Except SqlError Jobs :=
  jobs.update (fun row => row.id == jobID) (JobRow.setStatus status message)

def markTerminal (jobs : Jobs) (jobID : String) (status : JobStatus) (message : String) :
    Except SqlError Jobs :=
  jobs.update (fun row => row.id == jobID && row.status == .cancelRequested)
    (JobRow.setStatus status message)

/-- `quote` is the `%q` verb on a string. -/
def requestJobCancel (quote : String → String) (jobs : Jobs) (jobID : String) :
    Except SqlError (CancelJobResult × Jobs) :=
  match jobs.find? jobID with
  | none =>
    .ok (⟨jobID, "", none, none, .unknownJob, "job not found"⟩, jobs)
  | some job => do
    let result : CancelJobResult := ⟨job.id, job.appID, job.status, job.status, .unknownJob, ""⟩
    match job.status with
    | .pending =>
      let after ← jobs.setCancelStatus job.id .canceled "canceled before dequeue"
      return ({ result with
        status := some .canceled
        outcome := .pendingCanceled
        message := "pending job canceled before dequeue" }, after)
    | .inProgress =>
      let after ← jobs.setCancelStatus job.id .cancelRequested "cancel requested"
      return ({ result with
        status := some .cancelRequested
        outcome := .activeRequested
        message := "active job will stop at the next safe checkpoint" }, after)
    | .cancelRequested =>
      return ({ result with
        outcome := .activeRequested
        message := "cancel already requested" }, jobs)
    | .succeeded | .failed | .canceled =>
      return ({ result with
        outcome := .terminalNoop
        message := "terminal job unchanged" }, jobs)
    | .unknown status =>
      return ({ result with
        outcome := .unknownJob
        message := "unknown job status " ++ quote status.text }, jobs)

/-- One row of the loop of `RequestAppCancel`. -/
def requestAppCancelRow (quote : String → String) (state : CancelAppResult × Jobs)
    (job : JobRow) : Except SqlError (CancelAppResult × Jobs) := do
  let (result, jobs) := state
  let result := { result with total := result.total + 1 }
  let jobResult : CancelJobResult := ⟨job.id, job.appID, job.status, job.status, .unknownJob, ""⟩
  match job.status with
  | .pending =>
    let after ← jobs.setCancelStatus job.id .canceled "canceled before dequeue"
    return ({ result with
      pending := result.pending + 1
      pendingCanceled := result.pendingCanceled + 1
      requested := result.requested ++ [{ jobResult with
        status := some .canceled
        outcome := .pendingCanceled
        message := "pending job canceled before dequeue" }] }, after)
  | .inProgress =>
    let after ← jobs.setCancelStatus job.id .cancelRequested "cancel requested"
    return ({ result with
      active := result.active + 1
      activeSignaled := result.activeSignaled + 1
      requested := result.requested ++ [{ jobResult with
        status := some .cancelRequested
        outcome := .activeRequested
        message := "active job will stop at the next safe checkpoint" }] }, after)
  | .cancelRequested =>
    return ({ result with
      active := result.active + 1
      activeSignaled := result.activeSignaled + 1
      requested := result.requested ++ [{ jobResult with
        outcome := .activeRequested
        message := "cancel already requested" }] }, jobs)
  | .succeeded | .failed | .canceled =>
    return ({ result with
      terminal := result.terminal + 1
      alreadyTerminal := result.alreadyTerminal + 1
      requested := result.requested ++ [{ jobResult with
        outcome := .terminalNoop
        message := "terminal job unchanged" }] }, jobs)
  | .unknown status =>
    return ({ result with
      unknown := result.unknown + 1
      requested := result.requested ++ [{ jobResult with
        outcome := .unknownJob
        message := "unknown job status " ++ quote status.text }] }, jobs)

/-- `SELECT ... WHERE app_id = ? ORDER BY seq ASC`. -/
def jobsOfApp (jobs : Jobs) (appID : String) : List JobRow :=
  (jobs.rows.filter fun row => row.appID == appID).mergeSort fun row other =>
    decide (row.seq ≤ other.seq)

def requestAppCancel (quote : String → String) (jobs : Jobs) (appID : String) :
    Except SqlError (CancelAppResult × Jobs) :=
  (jobs.jobsOfApp appID).foldlM (requestAppCancelRow quote)
    (⟨appID, 0, 0, 0, 0, 0, 0, 0, 0, []⟩, jobs)

end Jobs

/-- What a cancel request does to a row, by the status it finds. -/
def JobRow.canceled (row : JobRow) : JobRow :=
  match row.status with
  | .pending => row.setStatus .canceled "canceled before dequeue"
  | .inProgress => row.setStatus .cancelRequested "cancel requested"
  | _ => row

/-- What a cancel request answers about a row. -/
def JobRow.cancelResult (quote : String → String) (row : JobRow) : CancelJobResult :=
  match row.status with
  | .pending =>
    ⟨row.id, row.appID, row.status, some .canceled, .pendingCanceled,
      "pending job canceled before dequeue"⟩
  | .inProgress =>
    ⟨row.id, row.appID, row.status, some .cancelRequested, .activeRequested,
      "active job will stop at the next safe checkpoint"⟩
  | .cancelRequested =>
    ⟨row.id, row.appID, row.status, row.status, .activeRequested, "cancel already requested"⟩
  | .succeeded | .failed | .canceled =>
    ⟨row.id, row.appID, row.status, row.status, .terminalNoop, "terminal job unchanged"⟩
  | .unknown status =>
    ⟨row.id, row.appID, row.status, row.status, .unknownJob,
      "unknown job status " ++ quote status.text⟩

namespace Jobs

/-- A change of the rows in place that moves statuses only as the law allows. -/
structure LawfulOn (rows : List JobRow) (set : JobRow → JobRow) : Prop where
  id : ∀ row ∈ rows, (set row).id = row.id
  seq : ∀ row ∈ rows, (set row).seq = row.seq
  key : ∀ row ∈ rows, (set row).activeKey = row.activeKey
  status : ∀ row ∈ rows, (set row).status = row.status ∨ row.status.Moves (set row).status

theorem lawful_update {jobs after : Jobs} {matching : JobRow → Bool} {set : JobRow → JobRow}
    (h : jobs.update matching set = .ok after)
    (id : ∀ row, (set row).id = row.id) (seq : ∀ row, (set row).seq = row.seq)
    (key : ∀ row, (set row).activeKey = row.activeKey)
    (status : ∀ row ∈ jobs.rows, matching row = true →
      (set row).status = row.status ∨ row.status.Moves (set row).status) :
    ∃ change, after.rows = jobs.rows.map change ∧ LawfulOn jobs.rows change ∧
      change = fun row => if matching row then set row else row := by
  refine ⟨_, update_rows h, ⟨?_, ?_, ?_, ?_⟩, rfl⟩
  all_goals
    intro row hm
    by_cases hr : matching row = true
    · simp only [hr, ↓reduceIte]
      first
        | exact id row
        | exact seq row
        | exact key row
        | exact status row hm hr
    · simp [hr]

theorem setStatus_tame {status : JobStatus} (h : status.isActive = false) (message : String) :
    Tame (JobRow.setStatus status message) :=
  ⟨fun _ => rfl, fun _ => rfl, fun row hr => by simp [JobRow.isActive, JobRow.setStatus, h] at hr⟩

theorem markDone_tame (success : Bool) (errMsg : String) (summary : Option DownloadSummary) :
    Tame (JobRow.markDone success errMsg summary) :=
  ⟨fun _ => rfl, fun _ => rfl, fun row hr => by
    cases success <;> simp [JobRow.isActive, JobRow.markDone, JobStatus.isActive] at hr⟩

theorem canceled_id (row : JobRow) : row.canceled.id = row.id := by
  unfold JobRow.canceled; split <;> rfl

theorem canceled_seq (row : JobRow) : row.canceled.seq = row.seq := by
  unfold JobRow.canceled; split <;> rfl

theorem canceled_activeKey (row : JobRow) : row.canceled.activeKey = row.activeKey := by
  unfold JobRow.canceled; split <;> rfl

theorem canceled_status (row : JobRow) :
    row.canceled.status = row.status ∨ row.status.Moves row.canceled.status := by
  unfold JobRow.canceled
  split
  next h => rw [h]; exact Or.inr .cancelPending
  next h => rw [h]; exact Or.inr .requestCancel
  next => exact Or.inl rfl

theorem cancelResult_pending {quote : String → String} {row : JobRow}
    (h : (row.cancelResult quote).outcome = .pendingCanceled) : row.status = .pending := by
  unfold JobRow.cancelResult at h
  split at h <;> simp_all

theorem cancelResult_jobID (quote : String → String) (row : JobRow) :
    (row.cancelResult quote).jobID = row.id := by
  unfold JobRow.cancelResult; split <;> rfl

/-- The row with a given id, when it is known, is the only one that an update by id changes. -/
theorem map_by_id (jobs : Jobs) {job : JobRow} (hj : job ∈ jobs.rows) (set : JobRow → JobRow) :
    (jobs.rows.map fun row => if row.id == job.id then set row else row) =
      jobs.rows.map fun row => if row = job then set job else row := by
  apply List.map_congr_left
  intro row hm
  by_cases h : row.id = job.id
  · have he := jobs.eq_of_id_eq hm hj h
    simp [he]
  · have hne : row ≠ job := fun he => h (he ▸ rfl)
    simp [h, hne]

theorem dequeueNext_some {jobs after : Jobs} {appID : String} {job : JobRow}
    (h : jobs.dequeueNext appID = .ok (some job, after)) :
    jobs.nextPending appID = some job ∧
      after.rows = jobs.rows.map fun row =>
        if row = job then { job with status := .inProgress } else row := by
  unfold dequeueNext at h
  split at h
  next => simp at h
  next picked hp =>
    cases hu : jobs.update (fun row => row.id == picked.id) fun row =>
        { row with status := .inProgress } with
    | error e => rw [hu] at h; cases h
    | ok done =>
      rw [hu] at h
      cases h
      exact ⟨hp, (update_rows hu).trans (jobs.map_by_id (nextPending_mem hp).1 _)⟩

theorem dequeueNext_none {jobs after : Jobs} {appID : String}
    (h : jobs.dequeueNext appID = .ok (none, after)) : after = jobs := by
  unfold dequeueNext at h
  split at h
  next => cases h; rfl
  next picked hp =>
    cases hu : jobs.update (fun row => row.id == picked.id) fun row =>
        { row with status := .inProgress } with
    | error e => rw [hu] at h; cases h
    | ok done => rw [hu] at h; cases h

theorem setCancelStatus_rows {jobs after : Jobs} {job : JobRow} (hj : job ∈ jobs.rows)
    {status : JobStatus} {message : String}
    (h : jobs.setCancelStatus job.id status message = .ok after) :
    after.rows = jobs.rows.map fun row =>
      if row = job then job.setStatus status message else row :=
  (update_rows h).trans (jobs.map_by_id hj _)

theorem requestJobCancel_none {quote : String → String} {jobs : Jobs} {jobID : String}
    (h : jobs.find? jobID = none) :
    jobs.requestJobCancel quote jobID =
      .ok (⟨jobID, "", none, none, .unknownJob, "job not found"⟩, jobs) := by
  simp [requestJobCancel, h]

theorem map_self_of_eq {jobs : Jobs} {job job' : JobRow} (h : job' = job) :
    (jobs.rows.map fun row => if row = job then job' else row) = jobs.rows := by
  subst h
  conv_rhs => rw [← List.map_id jobs.rows]
  apply List.map_congr_left
  intro row _
  by_cases hr : row = job' <;> simp [hr]

/-- A cancel that rewrites the row of the job, and what is answered from the new rows. -/
theorem setCancelStatus_then {α : Type} {jobs : Jobs} {job : JobRow} {status : JobStatus}
    {message : String} {answer : Jobs → α} {out : α} (hj : job ∈ jobs.rows)
    (h : (do return answer (← jobs.setCancelStatus job.id status message)) = Except.ok out) :
    ∃ after, answer after = out ∧ after.rows = jobs.rows.map fun row =>
      if row = job then job.setStatus status message else row := by
  cases hu : jobs.setCancelStatus job.id status message with
  | error e => rw [hu] at h; cases h
  | ok after =>
    rw [hu] at h
    exact ⟨after, Except.ok.inj h, setCancelStatus_rows hj hu⟩

/-- A cancel of one job changes its row as `canceled` says and answers `cancelResult`. -/
theorem requestJobCancel_some {quote : String → String} {jobs after : Jobs} {jobID : String}
    {job : JobRow} {result : CancelJobResult} (hf : jobs.find? jobID = some job)
    (h : jobs.requestJobCancel quote jobID = .ok (result, after)) :
    result = job.cancelResult quote ∧
      after.rows = jobs.rows.map fun row => if row = job then job.canceled else row := by
  have hj := (find?_eq_some.mp hf).1
  simp only [requestJobCancel, hf] at h
  unfold JobRow.cancelResult JobRow.canceled
  split at h
  case h_1 hs =>
    obtain ⟨done, hdone, hrows⟩ := setCancelStatus_then hj h
    cases hdone
    exact ⟨by simp [hs], by simpa [hs] using hrows⟩
  case h_2 hs =>
    obtain ⟨done, hdone, hrows⟩ := setCancelStatus_then hj h
    cases hdone
    exact ⟨by simp [hs], by simpa [hs] using hrows⟩
  all_goals
    rename_i hs
    cases h
    exact ⟨by simp [hs], by simp [hs, map_self_of_eq]⟩

theorem requestAppCancelRow_ok {quote : String → String} {state next : CancelAppResult × Jobs}
    {job : JobRow} (hj : job ∈ state.2.rows)
    (h : requestAppCancelRow quote state job = .ok next) :
    next.1.requested = state.1.requested ++ [job.cancelResult quote] ∧
      next.2.rows = state.2.rows.map fun row => if row = job then job.canceled else row := by
  simp only [requestAppCancelRow] at h
  unfold JobRow.cancelResult JobRow.canceled
  split at h
  case h_1 hs =>
    obtain ⟨done, hdone, hrows⟩ := setCancelStatus_then hj h
    cases hdone
    exact ⟨by simp [hs], by simpa [hs] using hrows⟩
  case h_2 hs =>
    obtain ⟨done, hdone, hrows⟩ := setCancelStatus_then hj h
    cases hdone
    exact ⟨by simp [hs], by simpa [hs] using hrows⟩
  all_goals
    rename_i hs
    cases h
    exact ⟨by simp [hs], by simp [hs, map_self_of_eq]⟩

/-- The loop over rows that are still in the table as the query read them. -/
theorem requestAppCancel_fold {quote : String → String} {todo : List JobRow}
    {state next : CancelAppResult × Jobs} (hn : todo.Nodup)
    (hm : ∀ job ∈ todo, job ∈ state.2.rows)
    (h : todo.foldlM (requestAppCancelRow quote) state = .ok next) :
    next.1.requested = state.1.requested ++ todo.map (JobRow.cancelResult quote) ∧
      next.2.rows = state.2.rows.map fun row => if row ∈ todo then row.canceled else row := by
  induction todo generalizing state with
  | nil => cases h; simp
  | cons job rest ih =>
    rw [List.foldlM_cons] at h
    cases hu : requestAppCancelRow quote state job with
    | error e => rw [hu] at h; cases h
    | ok mid =>
      rw [hu] at h
      have hj := hm job (by simp)
      obtain ⟨hreq, hrows⟩ := requestAppCancelRow_ok hj hu
      obtain ⟨hnot, hrest⟩ := List.nodup_cons.mp hn
      have hkeep : ∀ other ∈ rest, other ∈ mid.2.rows := by
        intro other ho
        have hne : other ≠ job := fun he => hnot (he ▸ ho)
        rw [hrows]
        exact List.mem_map.mpr ⟨other, hm other (by simp [ho]), by simp [hne]⟩
      obtain ⟨hreq', hrows'⟩ := ih hrest hkeep h
      refine ⟨by simp [hreq', hreq], ?_⟩
      rw [hrows', hrows, List.map_map]
      apply List.map_congr_left
      intro row hr
      by_cases he : row = job
      · subst he
        have hc : row.canceled ∉ rest := by
          intro hc
          have := state.2.eq_of_id_eq (hm _ (by simp [hc])) hj (canceled_id row)
          exact hnot (this ▸ hc)
        simp [hc]
      · simp [he]

theorem jobsOfApp_mem {jobs : Jobs} {appID : String} {job : JobRow} :
    job ∈ jobs.jobsOfApp appID ↔ job ∈ jobs.rows ∧ job.appID = appID := by
  simp [jobsOfApp]

theorem jobsOfApp_nodup (jobs : Jobs) (appID : String) : (jobs.jobsOfApp appID).Nodup := by
  unfold jobsOfApp
  rw [(List.mergeSort_perm _ _).nodup_iff]
  exact (List.Nodup.of_map _ jobs.primaryKey).filter _

/-- A cancel of an app changes exactly the rows of the app, each as `canceled` says. -/
theorem requestAppCancel_ok {quote : String → String} {jobs after : Jobs} {appID : String}
    {result : CancelAppResult} (h : jobs.requestAppCancel quote appID = .ok (result, after)) :
    result.requested = (jobs.jobsOfApp appID).map (JobRow.cancelResult quote) ∧
      after.rows = jobs.rows.map fun row => if row.appID = appID then row.canceled else row := by
  obtain ⟨hreq, hrows⟩ := requestAppCancel_fold (jobs.jobsOfApp_nodup appID)
    (fun job hj => (jobsOfApp_mem.mp hj).1) h
  refine ⟨by simpa using hreq, ?_⟩
  rw [hrows]
  apply List.map_congr_left
  intro row hr
  simp [jobsOfApp_mem, hr]

end Jobs

end AutoDeploy
