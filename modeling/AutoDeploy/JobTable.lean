import AutoDeploy.JobStatus
import Mathlib.Data.List.MinMax
import Mathlib.Data.List.Nodup
import Mathlib.Data.Rat.Defs

namespace AutoDeploy

inductive Trigger
  | webhook
  | manualDeploy
  | manualRetry
deriving DecidableEq

structure DownloadSummary where
  bytes : Int
  durationMs : Int
  speedBPS : ℚ
deriving DecidableEq

/-- A row of `deploy_jobs`, without the two timestamps that no modelled query reads. -/
structure JobRow where
  id : String
  seq : Int
  appID : String
  tag : String
  status : JobStatus
  trigger : Trigger
  retryOfJobID : Option String
  errorMsg : Option String
  downloadBytes : Int
  downloadDurationMs : Int
  downloadSpeedBPS : ℚ
  deployLog : String
deriving DecidableEq

def JobRow.isActive (row : JobRow) : Bool := row.status.isActive

def JobRow.isRunning (row : JobRow) : Bool := row.status.isRunning

def JobRow.activeKey (row : JobRow) : String × String := (row.appID, row.tag)

/-- `unique` is SQLITE_CONSTRAINT_UNIQUE; a primary key conflict has a code of its own. -/
inductive SqlError
  | unique
  | primaryKey
  | other (text : String)
deriving DecidableEq

def isUniqueViolation : SqlError → Bool
  | .unique => true
  | _ => false

/-- The table `deploy_jobs` with the two constraints that SQLite enforces: the primary key and
the partial index `idx_deploy_jobs_active_unique`. -/
structure Jobs where
  rows : List JobRow
  primaryKey : (rows.map JobRow.id).Nodup
  activeUnique : ((rows.filter JobRow.isActive).map JobRow.activeKey).Nodup
deriving DecidableEq

namespace Jobs

def empty : Jobs := ⟨[], List.nodup_nil, List.nodup_nil⟩

/-- The outcome of a statement that would leave these rows. -/
def check (rows : List JobRow) : Except SqlError Jobs :=
  if pk : (rows.map JobRow.id).Nodup then
    if au : ((rows.filter JobRow.isActive).map JobRow.activeKey).Nodup then .ok ⟨rows, pk, au⟩
    else .error .unique
  else .error .primaryKey

def insert (jobs : Jobs) (row : JobRow) : Except SqlError Jobs :=
  check (jobs.rows ++ [row])

def update (jobs : Jobs) (matching : JobRow → Bool) (set : JobRow → JobRow) :
    Except SqlError Jobs :=
  check (jobs.rows.map fun row => if matching row then set row else row)

def delete (jobs : Jobs) (matching : JobRow → Bool) : Jobs where
  rows := jobs.rows.filter fun row => !matching row
  primaryKey := jobs.primaryKey.sublist (List.filter_sublist.map _)
  activeUnique := jobs.activeUnique.sublist ((List.filter_sublist.filter _).map _)

/-- `COALESCE(MAX(seq), 0) + 1`. -/
def nextSeq (jobs : Jobs) : Int := (jobs.rows.map JobRow.seq).max?.getD 0 + 1

/-- `SELECT ... WHERE id = ?`. -/
def find? (jobs : Jobs) (id : String) : Option JobRow := jobs.rows.find? fun row => row.id == id

def isPendingOf (appID : String) (row : JobRow) : Bool :=
  row.appID == appID && row.status == .pending

/-- `SELECT COUNT(*) ... WHERE app_id = ? AND status = 'pending'`. -/
def pendingCount (jobs : Jobs) (appID : String) : ℕ := jobs.rows.countP (isPendingOf appID)

/-- `SELECT ... WHERE app_id = ? AND status = 'pending' ORDER BY seq ASC LIMIT 1`. -/
def nextPending (jobs : Jobs) (appID : String) : Option JobRow :=
  @List.argmin _ _ Int.instLinearOrder.toPreorder Int.instLinearOrder.toDecidableLT JobRow.seq
    (jobs.rows.filter (isPendingOf appID))

/-- `SELECT app_id, tag ... WHERE status IN ('pending', 'in_progress', 'cancel_requested')`. -/
def activeKeys (jobs : Jobs) : List (String × String) :=
  (jobs.rows.filter JobRow.isActive).map JobRow.activeKey

/-- `SELECT COUNT(*) ... WHERE app_id = ? AND status IN ('in_progress', 'cancel_requested')`. -/
def activeCount (jobs : Jobs) (appID : String) : ℕ :=
  jobs.rows.countP fun row => row.appID == appID && row.isRunning

theorem seq_lt_max {rows : List JobRow} {row : JobRow} (h : row ∈ rows) :
    row.seq < (rows.map JobRow.seq).max?.getD 0 + 1 := by
  have hm : row.seq ∈ rows.map JobRow.seq := List.mem_map_of_mem h
  cases hx : (rows.map JobRow.seq).max? with
  | none => rw [List.max?_eq_none_iff.mp hx] at hm; simp at hm
  | some top =>
    have hle := (List.max?_eq_some_iff.mp hx).2 row.seq hm
    simp only [Option.getD_some]
    omega

theorem check_rows {rows : List JobRow} {jobs : Jobs} (h : check rows = .ok jobs) :
    jobs.rows = rows := by
  unfold check at h
  split at h
  next =>
    split at h
    next => cases h; rfl
    next => simp at h
  next => simp at h

theorem insert_rows {jobs after : Jobs} {row : JobRow} (h : jobs.insert row = .ok after) :
    after.rows = jobs.rows ++ [row] :=
  check_rows h

theorem update_rows {jobs after : Jobs} {matching : JobRow → Bool} {set : JobRow → JobRow}
    (h : jobs.update matching set = .ok after) :
    after.rows = jobs.rows.map fun row => if matching row then set row else row :=
  check_rows h

/-- An assignment that keeps the identity of a row and never makes it active. -/
structure Tame (set : JobRow → JobRow) : Prop where
  id : ∀ row, (set row).id = row.id
  key : ∀ row, (set row).activeKey = row.activeKey
  active : ∀ row, (set row).isActive = true → row.isActive = true

theorem map_activeKeys_sublist (set : JobRow → JobRow)
    (key : ∀ row, (set row).activeKey = row.activeKey)
    (active : ∀ row, (set row).isActive = true → row.isActive = true) (rows : List JobRow) :
    List.Sublist (((rows.map set).filter JobRow.isActive).map JobRow.activeKey)
      ((rows.filter JobRow.isActive).map JobRow.activeKey) := by
  induction rows with
  | nil => exact List.Sublist.slnil
  | cons row rows ih =>
    by_cases hs : (set row).isActive = true
    · simpa [hs, active row hs, key row] using ih
    · by_cases hr : row.isActive = true
      · simpa [hs, hr] using ih.cons row.activeKey
      · simpa [hs, hr] using ih

/-- Neither constraint can refuse a tame update. -/
theorem update_ok (jobs : Jobs) {matching : JobRow → Bool} {set : JobRow → JobRow}
    (tame : Tame set) : ∃ after, jobs.update matching set = .ok after := by
  have hid : (jobs.rows.map fun row => if matching row then set row else row).map JobRow.id =
      jobs.rows.map JobRow.id := by
    rw [List.map_map]
    apply List.map_congr_left
    intro row _
    by_cases h : matching row = true <;> simp [h, tame.id]
  have hkeys := map_activeKeys_sublist (fun row => if matching row then set row else row)
    (by intro row; by_cases h : matching row = true <;> simp [h, tame.key])
    (by intro row; by_cases h : matching row = true <;> simp [h]; exact tame.active row) jobs.rows
  unfold update check
  rw [dif_pos (hid ▸ jobs.primaryKey), dif_pos (jobs.activeUnique.sublist hkeys)]
  exact ⟨_, rfl⟩

theorem eq_of_id_eq (jobs : Jobs) {row other : JobRow} (hr : row ∈ jobs.rows)
    (ho : other ∈ jobs.rows) (h : row.id = other.id) : row = other :=
  List.inj_on_of_nodup_map jobs.primaryKey hr ho h

theorem find?_eq_some {jobs : Jobs} {id : String} {row : JobRow} :
    jobs.find? id = some row ↔ row ∈ jobs.rows ∧ row.id = id := by
  constructor
  · intro h
    exact ⟨List.mem_of_find?_eq_some h, by simpa using List.find?_some h⟩
  · rintro ⟨hm, rfl⟩
    cases hf : jobs.find? row.id with
    | none => exact absurd (List.find?_eq_none.mp hf row hm) (by simp)
    | some other =>
      have ho : other.id = row.id := by simpa using List.find?_some hf
      rw [jobs.eq_of_id_eq (List.mem_of_find?_eq_some hf) hm ho]

theorem nextPending_mem {jobs : Jobs} {appID : String} {row : JobRow}
    (h : jobs.nextPending appID = some row) :
    row ∈ jobs.rows ∧ row.appID = appID ∧ row.status = .pending := by
  have hm := List.argmin_mem h
  simpa [isPendingOf] using hm

theorem nextPending_le {jobs : Jobs} {appID : String} {row other : JobRow}
    (h : jobs.nextPending appID = some row) (hm : other ∈ jobs.rows)
    (ha : other.appID = appID) (hp : other.status = .pending) : row.seq ≤ other.seq := by
  have hf : other ∈ jobs.rows.filter (isPendingOf appID) := by simp [isPendingOf, hm, ha, hp]
  exact List.le_of_mem_argmin hf h

theorem seq_lt_nextSeq (jobs : Jobs) {row : JobRow} (h : row ∈ jobs.rows) :
    row.seq < jobs.nextSeq :=
  seq_lt_max h

theorem mem_activeKeys {jobs : Jobs} {appID tag : String} :
    (appID, tag) ∈ jobs.activeKeys ↔
      ∃ row ∈ jobs.rows, row.isActive = true ∧ row.appID = appID ∧ row.tag = tag := by
  simp only [activeKeys, List.mem_map, List.mem_filter, JobRow.activeKey, Prod.mk.injEq]
  constructor
  · rintro ⟨row, ⟨hm, ha⟩, hk⟩
    exact ⟨row, hm, ha, hk⟩
  · rintro ⟨row, hm, ha, hk⟩
    exact ⟨row, ⟨hm, ha⟩, hk⟩

/-- The partial index: active rows of one app and tag are one row. -/
theorem active_eq (jobs : Jobs) {row other : JobRow} (hr : row ∈ jobs.rows)
    (ho : other ∈ jobs.rows) (ha : row.isActive = true) (hb : other.isActive = true)
    (happ : row.appID = other.appID) (htag : row.tag = other.tag) : row = other := by
  apply List.inj_on_of_nodup_map jobs.activeUnique
  · exact List.mem_filter.mpr ⟨hr, ha⟩
  · exact List.mem_filter.mpr ⟨ho, hb⟩
  · simp [JobRow.activeKey, happ, htag]

/-- An INSERT whose key and whose active key are free is accepted, whatever the other rows. -/
theorem insert_ok (jobs : Jobs) {row : JobRow} (hid : ∀ other ∈ jobs.rows, other.id ≠ row.id)
    (hkey : ∀ other ∈ jobs.rows, other.isActive = true → other.activeKey ≠ row.activeKey) :
    ∃ after, jobs.insert row = .ok after := by
  have pk : ((jobs.rows ++ [row]).map JobRow.id).Nodup := by
    rw [List.map_append, List.nodup_append]
    refine ⟨jobs.primaryKey, by simp, ?_⟩
    intro x hx y hy
    obtain ⟨other, ho, rfl⟩ := List.mem_map.mp hx
    rw [List.map_singleton, List.mem_singleton] at hy
    exact hy ▸ hid other ho
  have au : (((jobs.rows ++ [row]).filter JobRow.isActive).map JobRow.activeKey).Nodup := by
    rw [List.filter_append, List.map_append, List.nodup_append]
    refine ⟨jobs.activeUnique, ?_, ?_⟩
    · by_cases h : row.isActive = true <;> simp [h]
    · intro x hx y hy
      obtain ⟨other, ho, rfl⟩ := List.mem_map.mp hx
      obtain ⟨last, hl, rfl⟩ := List.mem_map.mp hy
      obtain ⟨hl, -⟩ := List.mem_filter.mp hl
      rw [List.mem_singleton] at hl
      obtain ⟨ho, ha⟩ := List.mem_filter.mp ho
      exact hl ▸ hkey other ho ha
  unfold insert check
  rw [dif_pos pk, dif_pos au]
  exact ⟨_, rfl⟩

end Jobs

end AutoDeploy
