import AutoDeploy.CoordinatorExclusion

namespace AutoDeploy

open Interleaving

/-- What `runDeploy` reports when its runner has returned. -/
structure Report where
  success : Bool
  errMsg : String
  summary : Option DownloadSummary

abbrev ServerRecord := Record Server StoreEvent Reply Call

def reportOf (id : String) : ServerRecord → Option Report
  | .called _ (.markDone job success errMsg summary) =>
    if job = id then some ⟨success, errMsg, summary⟩ else none
  | _ => none

def savedLogOf (id : String) : ServerRecord → Option String
  | .called _ (.saveJobLog job log) => if job = id then some log else none
  | _ => none

/-- The reports about a job, in their order. -/
def reports (id : String) (history : ServerHistory) : List Report :=
  history.filterMap (reportOf id)

/-- The logs that were given to `SaveJobLog` for a job. -/
def savedLogs (id : String) (history : ServerHistory) : List String :=
  history.filterMap (savedLogOf id)

/-- What has been said about the job of a goroutine that stands here. -/
def Run.Told (run : Run) (reported : List Report) (logs : List String) : Prop :=
  match run.stage with
  | .executing => reported = [] ∧ logs = []
  | .marking => (∃ report, reported = [report]) ∧ logs = []
  | .logging => (∃ report, reported = [report]) ∧ logs.length ≤ 1 ∧ (run.waits = none → logs = [])
  | .ending | .ended => (∃ report, reported = [report]) ∧ logs.length ≤ 1

/-- The jobs that goroutines were started for. -/
def Coordinator.jobIDs (c : Coordinator) : List String := c.runs.map Run.jobID

/-- The scheduler's call has dequeued this job. -/
def DequeuedIn (id : String) (history : ServerHistory) : Prop :=
  ∃ t call st job, .acted t call st ∈ history ∧ .dequeued job ∈ st.emitted ∧ job.id = id

/-- No job has two goroutines, and the calls about a job are those of its goroutine. -/
structure Told (c : Coordinator) : Prop where
  distinct : c.jobIDs.Nodup
  held : ∀ appID id, c.stage.Holds c.pool.history appID id →
    id ∉ c.jobIDs ∧ DequeuedIn id c.pool.history
  dequeued : ∀ id ∈ c.jobIDs, DequeuedIn id c.pool.history
  runs : ∀ run ∈ c.runs,
    run.Told (reports run.jobID c.pool.history) (savedLogs run.jobID c.pool.history)
  others : ∀ id, id ∉ c.jobIDs →
    reports id c.pool.history = [] ∧ savedLogs id c.pool.history = []

section Histories

variable {id : String} {history : ServerHistory} {record : ServerRecord} {t : ℕ} {call : Call}

theorem reports_concat : reports id (history ++ [record]) =
    reports id history ++ (reportOf id record).toList := by
  cases h : reportOf id record <;> simp [reports, h]

theorem savedLogs_concat : savedLogs id (history ++ [record]) =
    savedLogs id history ++ (savedLogOf id record).toList := by
  cases h : savedLogOf id record <;> simp [savedLogs, h]

/-- Nothing was added about this job. -/
def Silent (id : String) (history history' : ServerHistory) : Prop :=
  reports id history' = reports id history ∧ savedLogs id history' = savedLogs id history

theorem silent_concat (hreport : reportOf id record = none) (hlog : savedLogOf id record = none) :
    Silent id history (history ++ [record]) := by
  simp [Silent, reports_concat, savedLogs_concat, hreport, hlog]

/-- The call of an action was made before it. -/
theorem reported_of_called {job errMsg : String} {success : Bool}
    {summary : Option DownloadSummary}
    (hm : .called t (.markDone job success errMsg summary) ∈ history) :
    ⟨success, errMsg, summary⟩ ∈ reports job history :=
  List.mem_filterMap.mpr ⟨_, hm, by simp [reportOf]⟩

theorem logged_of_called {job log : String} (hm : .called t (.saveJobLog job log) ∈ history) :
    log ∈ savedLogs job history :=
  List.mem_filterMap.mpr ⟨_, hm, by simp [savedLogOf]⟩

end Histories

section Steps

variable {rt : Runtime} {s₀ : Server} {c c' : Coordinator}

theorem jobIDs_setRun {i : ℕ} {run new : Run} (hi : c.runs[i]? = some run)
    (hid : new.jobID = run.jobID) : (c.setRun i new).jobIDs = c.jobIDs := by
  obtain ⟨hlt, hget⟩ := List.getElem?_eq_some_iff.mp hi
  have hlt' : i < (c.runs.map Run.jobID).length := by simpa using hlt
  have hold : (c.runs.map Run.jobID)[i] = run.jobID := by simp [hget]
  simp only [Coordinator.jobIDs, Coordinator.setRun, List.map_set, hid, ← hold]
  exact List.set_getElem_self hlt'

theorem DequeuedIn.append {id : String} {history : ServerHistory} (added : ServerHistory)
    (h : DequeuedIn id history) : DequeuedIn id (history ++ added) := by
  obtain ⟨t, call, st, job, hacted, hjob⟩ := h
  exact ⟨t, call, st, job, List.mem_append_left _ hacted, hjob⟩

/-- A step that changes no goroutine and says nothing. -/
theorem Told.quiet (told : Told c) {added : ServerHistory} (hruns : c'.runs = c.runs)
    (hhistory : c'.pool.history = c.pool.history ++ added)
    (hsilent : ∀ id, Silent id c.pool.history (c.pool.history ++ added))
    (hstage : ∀ appID id, c'.stage.Holds c'.pool.history appID id →
      c.stage.Holds c.pool.history appID id) : Told c' := by
  have hids : c'.jobIDs = c.jobIDs := by rw [Coordinator.jobIDs, hruns, Coordinator.jobIDs]
  refine ⟨hids ▸ told.distinct, ?_, ?_, ?_, ?_⟩
  · intro appID id h
    rw [hids, hhistory]
    exact (told.held appID id (hstage appID id h)).imp_right (·.append added)
  · intro id hm
    rw [hhistory]
    exact (told.dequeued id (hids ▸ hm)).append added
  · intro run hm
    rw [hhistory, (hsilent run.jobID).1, (hsilent run.jobID).2]
    exact told.runs run (hruns ▸ hm)
  · intro id hm
    rw [hhistory, (hsilent id).1, (hsilent id).2]
    exact told.others id (hids ▸ hm)

/-- A step of one goroutine, which says something about its own job at most. -/
theorem Told.move (told : Told c) {added : ServerHistory} {i : ℕ} {run new : Run}
    (hi : c.runs[i]? = some run) (hruns : c'.runs = c.runs.set i new)
    (hid : new.jobID = run.jobID) (hhistory : c'.pool.history = c.pool.history ++ added)
    (hsilent : ∀ id, id ≠ run.jobID → Silent id c.pool.history (c.pool.history ++ added))
    (hstage : ∀ appID id, c'.stage.Holds c'.pool.history appID id →
      c.stage.Holds c.pool.history appID id)
    (hnew : run.Told (reports run.jobID c.pool.history) (savedLogs run.jobID c.pool.history) →
      new.Told (reports run.jobID (c.pool.history ++ added))
        (savedLogs run.jobID (c.pool.history ++ added))) : Told c' := by
  have hids : c'.jobIDs = c.jobIDs := by
    rw [← jobIDs_setRun hi hid, Coordinator.jobIDs, hruns]
    rfl
  have hmem : run ∈ c.runs := List.mem_of_getElem? hi
  refine ⟨hids ▸ told.distinct, ?_, ?_, ?_, ?_⟩
  · intro appID id h
    rw [hids, hhistory]
    exact (told.held appID id (hstage appID id h)).imp_right (·.append added)
  · intro id hm
    rw [hhistory]
    exact (told.dequeued id (hids ▸ hm)).append added
  · intro other hm
    obtain ⟨j, hj⟩ := List.getElem?_of_mem hm
    rw [hruns] at hj
    rcases set_getElem? hi hj with ⟨-, rfl⟩ | ⟨hne, hj⟩
    · rw [hid, hhistory]
      exact hnew (told.runs run hmem)
    · have hother : other.jobID ≠ run.jobID := by
        intro he
        have hj' : c.jobIDs[j]? = some run.jobID := by simp [Coordinator.jobIDs, hj, he]
        have hi' : c.jobIDs[i]? = some run.jobID := by simp [Coordinator.jobIDs, hi]
        have hlt : j < c.jobIDs.length := (List.getElem?_eq_some_iff.mp hj').1
        exact hne ((List.getElem?_inj hlt told.distinct).mp (hj'.trans hi'.symm))
      rw [hhistory, (hsilent _ hother).1, (hsilent _ hother).2]
      exact told.runs other (List.mem_of_getElem? hj)
  · intro id hm
    have hne : id ≠ run.jobID := by
      rintro rfl
      exact hm (hids ▸ List.mem_map_of_mem hmem)
    rw [hhistory, (hsilent id hne).1, (hsilent id hne).2]
    exact told.others id (hids ▸ hm)

/-- A job that was dequeued is neither dequeued nor inserted again. -/
theorem dequeued_fresh (reach : CoordinatorReaches rt s₀ c') {t : ℕ} {call : Call}
    {st : ServerStep} {id : String}
    (hhistory : c'.pool.history = c.pool.history ++ [.acted t call st])
    (hfresh : IdsFresh s₀ c'.pool.history) (h : DequeuedIn id c.pool.history) :
    (∀ job, .dequeued job ∈ st.emitted → job.id ≠ id) ∧ ¬ InsertedBy id st := by
  obtain ⟨u, other, past, old, hm, hold, hid⟩ := h
  have htaken : TakenBy id past := ⟨_, hold, hid⟩
  obtain ⟨pre, mid, hsplit⟩ := List.append_of_mem hm
  have hpool := coordinator_pool reach
  have hlast : c'.pool.history = pre ++ .acted u other past :: (mid ++ [.acted t call st]) := by
    rw [hhistory, hsplit, List.append_assoc, List.cons_append]
  constructor
  · rintro job hjob rfl
    have htwice : c'.pool.history =
        pre ++ .acted u other past :: mid ++ .acted t call st :: [] := by
      rw [hhistory, hsplit]
    obtain ⟨later, hlater, hinserted⟩ := taken_once hpool htwice htaken ⟨_, hjob, rfl⟩
    refine taken_insert_reuses hpool hlast htaken ?_ hinserted hfresh
    rw [steps_append]
    exact List.mem_append_left _ hlater
  · intro hinserted
    refine taken_insert_reuses hpool hlast htaken ?_ hinserted hfresh
    rw [steps_append]
    exact List.mem_append_right _ (by simp [steps, Record.step?])

theorem Told.act (told : Told c) (reach : CoordinatorReaches rt s₀ c)
    (step : CoordinatorStep rt c c') (hfresh : IdsFresh s₀ c'.pool.history) {t : ℕ} {call : Call}
    {st : ServerStep} (act : Action rt c c' t call st) : Told c' := by
  have hids : c'.jobIDs = c.jobIDs := by rw [Coordinator.jobIDs, act.runs, Coordinator.jobIDs]
  have hsilent : ∀ id, Silent id c.pool.history c'.pool.history := by
    intro id
    rw [act.history]
    exact silent_concat rfl rfl
  refine ⟨hids ▸ told.distinct, ?_, ?_, ?_, ?_⟩
  · intro appID id h
    rw [hids]
    rw [act.stage] at h
    rcases act.stage_origin reach h with hold | ⟨job, hjob, -, rfl⟩
    · exact (told.held appID id hold).imp_right fun h => act.history ▸ h.append _
    · refine ⟨?_, ⟨t, call, st, job, by simp [act.history], hjob, rfl⟩⟩
      intro hm
      exact (dequeued_fresh (reach.next step) act.history hfresh (told.dequeued job.id hm)).1 job
        hjob rfl
  · intro id hm
    rw [act.history]
    exact (told.dequeued id (hids ▸ hm)).append _
  · intro run hm
    rw [(hsilent run.jobID).1, (hsilent run.jobID).2]
    exact told.runs run (act.runs ▸ hm)
  · intro id hm
    rw [(hsilent id).1, (hsilent id).2]
    exact told.others id (hids ▸ hm)

/-- The scheduler hands the job that it has taken to a new goroutine. -/
theorem Told.spawn (told : Told c) {app : App} {jobID tag : String} {rest : List App}
    (hs : c.stage = .spawning app jobID tag rest) :
    Told { c with runs := c.runs ++ [⟨app, jobID, tag, .executing, none⟩],
                  stage := .scanning rest } := by
  have hholds : c.stage.Holds c.pool.history app.id jobID := by simp [hs, SchedulerStage.Holds]
  obtain ⟨hnew, hdequeued⟩ := told.held app.id jobID hholds
  have hids : Coordinator.jobIDs { c with
      runs := c.runs ++ [⟨app, jobID, tag, .executing, none⟩]
      stage := .scanning rest } = c.jobIDs ++ [jobID] := by
    simp [Coordinator.jobIDs]
  refine ⟨?_, by simp [SchedulerStage.Holds], ?_, ?_, ?_⟩
  · rw [hids]
    exact List.nodup_append.mpr ⟨told.distinct, List.nodup_singleton jobID, by
      rintro id hm other hother rfl
      exact hnew (List.mem_singleton.mp hother ▸ hm)⟩
  · intro id hm
    rw [hids, List.mem_append, List.mem_singleton] at hm
    rcases hm with hm | rfl
    · exact told.dequeued id hm
    · exact hdequeued
  · intro run hm
    rcases List.mem_append.mp hm with hm | hm
    · exact told.runs run hm
    · obtain rfl := List.mem_singleton.mp hm
      exact told.others jobID hnew
  · intro id hm
    rw [hids, List.mem_append, not_or] at hm
    exact told.others id hm.1

end Steps

end AutoDeploy
