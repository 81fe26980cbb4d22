import AutoDeploy.HistoryPaging
import AutoDeploy.ProgressTracker
import AutoDeploy.QueueOrder

namespace AutoDeploy

open Interleaving

/-- The texts are empty where the app has no job. -/
structure AppWithLastDeploy where
  app : App
  lastDeployTag : String
  lastDeployStatus : String
  lastJobID : String
  lastJobStatus : String
  lastDownloadBytes : Int
  lastDownloadSpeedBPS : ℚ
  liveProgress : Option ProgressSnapshot
deriving DecidableEq

/-- `ROW_NUMBER() OVER (PARTITION BY app_id ORDER BY seq DESC)`, among rows with different `seq`. -/
def rowNumber (rows : List JobRow) (row : JobRow) : ℕ :=
  1 + rows.countP fun other => other.appID == row.appID && decide (row.seq < other.seq)

/-- A row of the join: the app with one of its jobs, or without any. -/
def scanLastDeploy (app : App) : Option JobRow → AppWithLastDeploy
  | none => ⟨app, "", "", "", "", 0, 0, none⟩
  | some job => ⟨app, job.tag, job.status.text, job.id, job.status.text, job.downloadBytes,
      job.downloadSpeedBPS, none⟩

/-- The query of `ListWithLastDeploy`. The apps stand in the order of their creation. -/
def Server.lastDeploys (s : Server) : List AppWithLastDeploy :=
  s.apps.rows.flatMap fun app =>
    match s.jobs.rows.filter fun row => row.appID == app.id && rowNumber s.jobs.rows row == 1 with
    | [] => [scanLastDeploy app none]
    | jobs => jobs.map fun job => scanLastDeploy app (some job)

def listWithLastDeploy : Op (Except AppError (List AppWithLastDeploy)) := do
  match ← query Server.lastDeploys with
  | .error e => return .error (.sql "app_store: list with last deploy: " e)
  | .ok apps => return .ok apps

def isActiveDeployStatus (status : String) : Bool :=
  status == "pending" || status == "in_progress" || status == "cancel_requested"

def activeSnapshotForApp (tracker : ProgressTracker) (app : AppWithLastDeploy) :
    Option ProgressSnapshot :=
  if !isActiveDeployStatus app.lastDeployStatus || app.lastJobID == "" then none
  else (tracker.snapshot app.app.id).filter fun snapshot => snapshot.jobID == app.lastJobID

/-- The body of the loop of `ListAppsHertz`. -/
def addLiveProgress (tracker : ProgressTracker) (app : AppWithLastDeploy) : AppWithLastDeploy :=
  match activeSnapshotForApp tracker app with
  | some snapshot => { app with liveProgress := some snapshot }
  | none => app

/-- `tracked app` is the tracker when the turn of `app` comes. -/
def withLiveProgress (tracked : App → ProgressTracker) (apps : List AppWithLastDeploy) :
    List AppWithLastDeploy :=
  apps.map fun app => addLiveProgress (tracked app.app) app

def listAppsHertz (tracked : App → ProgressTracker) :
    Op (Except AppError (List AppWithLastDeploy)) := do
  match ← listWithLastDeploy with
  | .error e => return .error e
  | .ok apps => return .ok (withLiveProgress tracked apps)

section Newest

variable {jobs : Jobs} {appID : String}

theorem seq_injective (hordered : jobs.Ordered) {row other : JobRow} (hrow : row ∈ jobs.rows)
    (hother : other ∈ jobs.rows) (h : row.seq = other.seq) : row = other := by
  have hnodup : (jobs.rows.map JobRow.seq).Nodup :=
    hordered.imp fun hlt => ne_of_lt hlt
  exact List.inj_on_of_nodup_map hnodup hrow hother h

theorem rowNumber_one {row : JobRow} : rowNumber jobs.rows row = 1 ↔
    ∀ other ∈ jobs.rows, other.appID = row.appID → other.seq ≤ row.seq := by
  unfold rowNumber
  constructor
  · intro h other hother happ
    have hnone : (jobs.rows.countP fun other => other.appID == row.appID &&
        decide (row.seq < other.seq)) = 0 := by omega
    have hnot := List.countP_eq_zero.mp hnone other hother
    simp only [happ, beq_self_eq_true, Bool.true_and, decide_eq_true_eq] at hnot
    omega
  · intro h
    have hnone : (jobs.rows.countP fun other => other.appID == row.appID &&
        decide (row.seq < other.seq)) = 0 := by
      rw [List.countP_eq_zero]
      intro other hother hcounted
      simp only [Bool.and_eq_true, beq_iff_eq, decide_eq_true_eq] at hcounted
      have hle := h other hother hcounted.1
      omega
    omega

/-- The history of an app starts with the row of the greatest `seq`. -/
theorem historyOf_head {row : JobRow} (h : (jobs.historyOf appID).head? = some row) :
    row ∈ jobs.rows ∧ row.appID = appID ∧
      ∀ other ∈ jobs.rows, other.appID = appID → other.seq ≤ row.seq := by
  have hmem : ∀ other, other ∈ jobs.historyOf appID ↔ other ∈ jobs.rows ∧ other.appID = appID := by
    simp [Jobs.historyOf, newestFirst]
  have hsorted : (jobs.historyOf appID).Pairwise fun row other =>
      decide (other.seq ≤ row.seq) = true := by
    apply List.pairwise_mergeSort
    · intro a b c hab hbc
      simp only [decide_eq_true_eq] at hab hbc ⊢
      omega
    · intro a b
      simp only [Bool.or_eq_true, decide_eq_true_eq]
      omega
  obtain ⟨rest, hrest⟩ : ∃ rest, jobs.historyOf appID = row :: rest := by
    cases hhistory : jobs.historyOf appID with
    | nil => simp [hhistory] at h
    | cons first rest =>
      rw [hhistory, List.head?_cons] at h
      exact ⟨rest, by rw [Option.some.inj h]⟩
  obtain ⟨hrow, happ⟩ := (hmem row).mp (by simp [hrest])
  refine ⟨hrow, happ, fun other hother hsame => ?_⟩
  have hin := (hmem other).mpr ⟨hother, hsame⟩
  rw [hrest] at hin hsorted
  obtain rfl | hlater := List.mem_cons.mp hin
  · exact le_refl _
  · simpa using (List.pairwise_cons.mp hsorted).1 other hlater

/-- The rows that the join finds for an app are the first of its history. -/
theorem newest_filter (hordered : jobs.Ordered) :
    (jobs.rows.filter fun row => row.appID == appID && rowNumber jobs.rows row == 1) =
      (jobs.historyOf appID).head?.toList := by
  cases hhead : (jobs.historyOf appID).head? with
  | none =>
    have hnone : jobs.rows.filter (fun row => row.appID == appID) = [] := by
      have hhistory := List.head?_eq_none_iff.mp hhead
      have hperm := List.mergeSort_perm (jobs.rows.filter fun row => row.appID == appID)
        fun row other => decide (other.seq ≤ row.seq)
      exact List.Perm.nil_eq (hhistory ▸ hperm) |>.symm
    rw [Option.toList_none, List.filter_eq_nil_iff]
    intro row hrow hboth
    rw [Bool.and_eq_true] at hboth
    exact List.filter_eq_nil_iff.mp hnone row hrow hboth.1
  | some first =>
    obtain ⟨hfirst, rfl, hmax⟩ := historyOf_head hhead
    have hnodup : jobs.rows.Nodup := jobs.primaryKey.of_map JobRow.id
    have hperm : (jobs.rows.filter fun row =>
        row.appID == first.appID && rowNumber jobs.rows row == 1).Perm [first] := by
      rw [List.perm_ext_iff_of_nodup (hnodup.filter _) (List.nodup_singleton first)]
      intro row
      simp only [List.mem_filter, Bool.and_eq_true, beq_iff_eq, List.mem_singleton, rowNumber_one]
      constructor
      · rintro ⟨hrow, happ, hrowMax⟩
        have hle := hmax row hrow happ
        have hge := hrowMax first hfirst happ.symm
        exact seq_injective hordered hrow hfirst (le_antisymm hle hge)
      · rintro rfl
        exact ⟨hfirst, rfl, hmax⟩
    simpa using hperm.eq_singleton

/-- The join has one row for each app. -/
theorem lastDeploys_eq {s : Server} (hordered : s.jobs.Ordered) :
    s.lastDeploys =
      s.apps.rows.map fun app => scanLastDeploy app (s.jobs.historyOf app.id).head? := by
  unfold Server.lastDeploys
  rw [List.map_eq_flatMap]
  congr 1
  funext app
  rw [newest_filter hordered]
  cases (s.jobs.historyOf app.id).head? <;> rfl

end Newest

section Live

variable {tracker : ProgressTracker} {app : App}

theorem isActiveDeployStatus_text (status : JobStatus) :
    isActiveDeployStatus status.text = status.isActive := by
  cases status with
  | unknown status =>
    have h := status.unknown
    simp only [jobStatusTexts, List.mem_cons, List.not_mem_nil, or_false, not_or] at h
    simp [JobStatus.text, isActiveDeployStatus, JobStatus.isActive, h]
  | _ => rfl

theorem activeSnapshot_iff {last : Option JobRow} {snapshot : ProgressSnapshot} :
    activeSnapshotForApp tracker (scanLastDeploy app last) = some snapshot ↔
      ∃ row, last = some row ∧ row.isActive = true ∧ row.id ≠ "" ∧
        tracker.snapshot app.id = some snapshot ∧ snapshot.jobID = row.id := by
  cases last with
  | none => simp [activeSnapshotForApp, scanLastDeploy, isActiveDeployStatus]
  | some row =>
    have hstatus : isActiveDeployStatus (scanLastDeploy app (some row)).lastDeployStatus =
        row.isActive := isActiveDeployStatus_text row.status
    have hid : (scanLastDeploy app (some row)).lastJobID = row.id := rfl
    unfold activeSnapshotForApp
    rw [hstatus, hid]
    constructor
    · intro h
      split at h
      next => cases h
      next hguard =>
        rw [Bool.or_eq_true, not_or, beq_iff_eq] at hguard
        obtain ⟨hsnapshot, hjob⟩ := Option.filter_eq_some_iff.mp h
        exact ⟨row, rfl, by simpa using hguard.1, hguard.2, hsnapshot, by simpa using hjob⟩
    · rintro ⟨_, ⟨⟩, hactive, hset, hsnapshot, hjob⟩
      rw [if_neg (by simp [hactive, hset])]
      exact Option.filter_eq_some_iff.mpr ⟨hsnapshot, by simpa using hjob⟩

theorem addLiveProgress_columns {shown : AppWithLastDeploy} :
    { addLiveProgress tracker shown with liveProgress := none } =
      { shown with liveProgress := none } := by
  unfold addLiveProgress
  split <;> rfl

theorem addLiveProgress_live {shown : AppWithLastDeploy} (h : shown.liveProgress = none) :
    (addLiveProgress tracker shown).liveProgress = activeSnapshotForApp tracker shown := by
  unfold addLiveProgress
  split
  next hactive => exact hactive.symm
  next hactive => rw [h, hactive]

end Live

/-- What the overview says about an app when the tables hold `jobs`. -/
structure ShowsApp (tracker : ProgressTracker) (jobs : Jobs) (app : App)
    (shown : AppWithLastDeploy) : Prop where
  /-- The columns are those of the row at the top of the history of the app. -/
  columns : { shown with liveProgress := none } = scanLastDeploy app (jobs.historyOf app.id).head?
  /-- That row is the last one inserted for the app, of those that are left. -/
  last : ∀ row, (jobs.historyOf app.id).head? = some row → row.appID = app.id ∧
    ∃ earlier later, jobs.rows = earlier ++ row :: later ∧ ∀ other ∈ later, other.appID ≠ app.id
  /-- The progress is shown exactly when it is that of the row and the row is active. -/
  live : ∀ snapshot, shown.liveProgress = some snapshot ↔
    ∃ row, (jobs.historyOf app.id).head? = some row ∧ row.isActive = true ∧ row.id ≠ "" ∧
      tracker.snapshot app.id = some snapshot ∧ snapshot.jobID = row.id

theorem historyOf_head_last {jobs : Jobs} (hordered : jobs.Ordered) {appID : String} {row : JobRow}
    (h : (jobs.historyOf appID).head? = some row) : row.appID = appID ∧
      ∃ earlier later, jobs.rows = earlier ++ row :: later ∧
        ∀ other ∈ later, other.appID ≠ appID := by
  obtain ⟨hrow, happ, hmax⟩ := historyOf_head h
  obtain ⟨earlier, later, hsplit⟩ := List.append_of_mem hrow
  refine ⟨happ, earlier, later, hsplit, fun other hother hsame => ?_⟩
  have hle := hmax other (by simp [hsplit, hother]) hsame
  unfold Jobs.Ordered at hordered
  rw [hsplit, List.map_append, List.map_cons, List.pairwise_append, List.pairwise_cons] at hordered
  have hlt := hordered.2.1.1 other.seq (List.mem_map_of_mem hother)
  omega

theorem withLiveProgress_shows {s : Server} (hordered : s.jobs.Ordered)
    (tracked : App → ProgressTracker) :
    List.Forall₂ (fun app shown => ShowsApp (tracked app) s.jobs app shown) s.apps.rows
      (withLiveProgress tracked s.lastDeploys) := by
  rw [lastDeploys_eq hordered]
  unfold withLiveProgress
  rw [List.map_map, List.forall₂_map_right_iff, List.forall₂_same]
  intro app _
  have happ : ∀ last, (scanLastDeploy app last).app = app := by rintro (_ | row) <;> rfl
  have hnone : ∀ last, (scanLastDeploy app last).liveProgress = none := by
    rintro (_ | row) <;> rfl
  have hplain : ∀ last, { scanLastDeploy app last with liveProgress := none } =
      scanLastDeploy app last := by rintro (_ | row) <;> rfl
  rw [Function.comp_apply, happ]
  refine ⟨?_, fun row h => historyOf_head_last hordered h, fun snapshot => ?_⟩
  · rw [addLiveProgress_columns, hplain]
  · rw [addLiveProgress_live (hnone _), activeSnapshot_iff]

/-- An answer of the handler is the overview of the tables at one of its own steps. -/
theorem listAppsHertz_shows (tracked : App → ProgressTracker) :
    (listAppsHertz tracked).Safe (fun s => s.jobs.Ordered) (fun _ step => step.after = step.before)
      (fun own value => ∀ apps, value = .ok apps → ∃ step ∈ own,
        List.Forall₂ (fun app shown => ShowsApp (tracked app) step.before.jobs app shown)
          step.before.apps.rows apps) [] := by
  have hlist : listWithLastDeploy.Safe (fun s => s.jobs.Ordered)
      (fun _ step => step.after = step.before) (fun own value => ∀ apps, value = .ok apps →
        ∃ step ∈ own, step.before.jobs.Ordered ∧ apps = step.before.lastDeploys) [] := by
    have hread : (query Server.lastDeploys).Safe (fun s => s.jobs.Ordered)
        (fun _ step => step.after = step.before) (fun own value => ∀ apps, value = .ok apps →
          ∃ step ∈ own, step.before.jobs.Ordered ∧ apps = step.before.lastDeploys) [] := by
      apply Prog.safe_atomic
      intro s k hordered
      cases k.fault with
      | some text => exact ⟨rfl, by simp⟩
      | none =>
        refine ⟨rfl, ?_⟩
        rintro apps ⟨⟩
        exact ⟨_, List.mem_singleton_self _, hordered, rfl⟩
    apply Prog.safe_bind hread
    intro own value h
    match value, h with
    | .error e, _ => exact fun apps he => by cases he
    | .ok listed, h =>
      rintro apps ⟨⟩
      exact h listed rfl
  apply Prog.safe_bind hlist
  intro own value h
  match value, h with
  | .error e, _ => exact fun apps he => by cases he
  | .ok listed, h =>
    rintro apps ⟨⟩
    obtain ⟨step, hm, hordered, rfl⟩ := h listed rfl
    exact ⟨step, hm, withLiveProgress_shows hordered tracked⟩

/-- What the list of apps shows, over a run. -/
structure Overviews (s₀ : Server) (cfg : ServerConfig) : Prop where
  shows : ∀ s ∈ visited s₀ cfg.history, ∀ tracked,
    List.Forall₂ (fun app shown => ShowsApp (tracked app) s.jobs app shown) s.apps.rows
      (withLiveProgress tracked s.lastDeploys)
  ordered : ∀ s ∈ visited s₀ cfg.history, s.jobs.Ordered
  answers : ∀ tracked, (listAppsHertz tracked).Safe (fun s => s.jobs.Ordered)
    (fun _ step => step.after = step.before)
    (fun own value => ∀ apps, value = .ok apps → ∃ step ∈ own,
      List.Forall₂ (fun app shown => ShowsApp (tracked app) step.before.jobs app shown)
        step.before.apps.rows apps) []

/-- The list has one entry for each app, in the order of the apps, and every answer of the handler
is the list of one moment. -/
theorem overview_agrees {rt : Runtime} {s₀ : Server} {cfg : ServerConfig}
    (start : s₀.jobs.Ordered) (reach : rt.Reaches s₀ cfg) : Overviews s₀ cfg where
  shows s hs tracked := withLiveProgress_shows (visited_ordered start reach s hs) tracked
  ordered := visited_ordered start reach
  answers := listAppsHertz_shows

def oneBlog : Server :=
  .started .empty
    ⟨[⟨"a", "Blog", "token", "/opt/blog", "blog", "acme/blog", "blog", true⟩], by decide,
      by decide, by decide, by decide⟩

/-- A job of the app runs, and a later one is canceled while it waits. -/
def cancelsWaiting : ServerConfig :=
  play (Runtime.program ⟨2, id, id⟩) oneBlog
    (solo (.enqueue "a" "v1") 0 11 ⟨none, "j1"⟩ ++
      solo (.enqueueManual "a" "v2") 1 11 ⟨none, "j2"⟩ ++
      solo (.dequeueNext "a") 2 3 ⟨none, ""⟩ ++ solo (.requestJobCancel "j2") 3 5 ⟨none, ""⟩)

/-- The list shows the canceled job, and no progress of the one that runs. -/
theorem overview_agrees_cancelsWaiting :
    cancelsWaiting.shared.jobs.rows.map (fun row => (row.id, row.status)) =
      [("j1", .inProgress), ("j2", .canceled)] ∧
    (withLiveProgress (fun _ => ProgressTracker.start 0 "a" "j1" "v1" ⟨fun _ => none⟩)
      cancelsWaiting.shared.lastDeploys).map
        (fun shown => (shown.app.id, shown.lastJobID, shown.lastDeployStatus,
          shown.liveProgress.isSome)) = [("a", "j2", "canceled", false)] ∧
    Overviews oneBlog cancelsWaiting :=
  ⟨by decide +kernel, by decide +kernel, overview_agrees empty_ordered (reaches_play _ _ _)⟩

end AutoDeploy
