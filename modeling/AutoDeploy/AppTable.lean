import AutoDeploy.JobStatements

namespace AutoDeploy

/-- A row of `apps`, in the order of `created_at` in the table. -/
structure App where
  id : String
  name : String
  webhookSecretHash : String
  binaryPath : String
  serviceName : String
  githubRepo : String
  artifactName : String
  enabled : Bool
deriving DecidableEq

inductive AppError
  | duplicateApp
  | activeDeployExists
  | notFound (id : String)
  | sql (context : String) (cause : SqlError)
deriving DecidableEq

/-- `quote` is the `%q` verb on a string, `driver` the text of a database error. -/
def AppError.text (quote : String → String) (driver : SqlError → String) : AppError → String
  | duplicateApp => "duplicate app: uniqueness constraint violated"
  | activeDeployExists => "active deploy in progress"
  | notFound id => "app_store: app " ++ quote id ++ " not found"
  | sql context cause => context ++ driver cause

/-- The table `apps` with its primary key and its three UNIQUE columns. -/
structure Apps where
  rows : List App
  primaryKey : (rows.map App.id).Nodup
  uniqueHash : (rows.map App.webhookSecretHash).Nodup
  uniqueBinaryPath : (rows.map App.binaryPath).Nodup
  uniqueServiceName : (rows.map App.serviceName).Nodup
deriving DecidableEq

namespace Apps

def empty : Apps := ⟨[], List.nodup_nil, List.nodup_nil, List.nodup_nil, List.nodup_nil⟩

def check (rows : List App) : Except SqlError Apps :=
  if pk : (rows.map App.id).Nodup then
    if u : (rows.map App.webhookSecretHash).Nodup ∧ (rows.map App.binaryPath).Nodup ∧
        (rows.map App.serviceName).Nodup then .ok ⟨rows, pk, u.1, u.2.1, u.2.2⟩
    else .error .unique
  else .error .primaryKey

def insert (apps : Apps) (app : App) : Except SqlError Apps := check (apps.rows ++ [app])

/-- `UPDATE apps SET ... WHERE id = ?`, with the number of rows affected. -/
def update (apps : Apps) (id : String) (set : App → App) : Except SqlError (ℕ × Apps) := do
  let after ← check (apps.rows.map fun app => if app.id == id then set app else app)
  return (apps.rows.countP fun app => app.id == id, after)

def delete (apps : Apps) (id : String) : ℕ × Apps :=
  (apps.rows.countP fun app => app.id == id,
    { rows := apps.rows.filter fun app => !(app.id == id)
      primaryKey := apps.primaryKey.sublist (List.filter_sublist.map _)
      uniqueHash := apps.uniqueHash.sublist (List.filter_sublist.map _)
      uniqueBinaryPath := apps.uniqueBinaryPath.sublist (List.filter_sublist.map _)
      uniqueServiceName := apps.uniqueServiceName.sublist (List.filter_sublist.map _) })

def get? (apps : Apps) (id : String) : Option App := apps.rows.find? fun app => app.id == id

/-- `SELECT ... FROM apps WHERE enabled = 1`. -/
def enabledApps (apps : Apps) : List App := apps.rows.filter App.enabled

theorem eq_of_rows {apps after : Apps} (h : after.rows = apps.rows) : after = apps := by
  cases apps
  cases after
  cases h
  rfl

theorem check_rows {rows : List App} {apps : Apps} (h : check rows = .ok apps) :
    apps.rows = rows := by
  unfold check at h
  split at h
  next =>
    split at h
    next => cases h; rfl
    next => simp at h
  next => simp at h

theorem insert_rows {apps after : Apps} {app : App} (h : apps.insert app = .ok after) :
    after.rows = apps.rows ++ [app] :=
  check_rows h

theorem update_rows {apps after : Apps} {id : String} {set : App → App} {n : ℕ}
    (h : apps.update id set = .ok (n, after)) :
    n = (apps.rows.countP fun app => app.id == id) ∧
      after.rows = apps.rows.map fun app => if app.id == id then set app else app := by
  unfold update at h
  generalize hc : check _ = checked at h
  cases checked with
  | error e => cases h
  | ok done =>
    cases h
    exact ⟨rfl, check_rows hc⟩

/-- An UPDATE that affects no row changes nothing. -/
theorem update_none {apps after : Apps} {id : String} {set : App → App}
    (h : apps.update id set = .ok (0, after)) : after = apps := by
  obtain ⟨hn, hrows⟩ := update_rows h
  apply eq_of_rows
  rw [hrows]
  conv_rhs => rw [← List.map_id apps.rows]
  apply List.map_congr_left
  intro app hm
  rw [if_neg (List.countP_eq_zero.mp hn.symm app hm)]
  rfl

end Apps

/-- The transaction of `AppStore.Delete`; an error rolls both tables back. -/
def deleteApp (jobs : Jobs) (apps : Apps) (id : String) : Except AppError (Jobs × Apps) :=
  if 0 < jobs.activeCount id then .error .activeDeployExists
  else
    let jobs := jobs.delete fun row => row.appID == id
    let (n, apps) := apps.delete id
    if n = 0 then .error (.notFound id) else .ok (jobs, apps)

theorem deleteApp_ok {jobs jobs' : Jobs} {apps apps' : Apps} {id : String}
    (h : deleteApp jobs apps id = .ok (jobs', apps')) :
    (∀ row ∈ jobs.rows, row.appID = id → row.isRunning = false) ∧
      jobs'.rows = jobs.rows.filter fun row => !(row.appID == id) := by
  unfold deleteApp at h
  split at h
  next => simp at h
  next hactive =>
    simp only at h
    split at h
    next => simp at h
    next =>
      cases h
      refine ⟨?_, rfl⟩
      intro row hm ha
      have hz : jobs.activeCount id = 0 := by omega
      have := List.countP_eq_zero.mp hz row hm
      simpa [ha] using this

theorem deleteApp_rows {jobs jobs' : Jobs} {apps apps' : Apps} {id : String}
    (h : deleteApp jobs apps id = .ok (jobs', apps')) :
    apps'.rows = apps.rows.filter fun app => !(app.id == id) := by
  unfold deleteApp at h
  split at h
  next => cases h
  next =>
    dsimp only at h
    split at h
    next => cases h
    next => cases h; rfl

/-- The delete guard: a running job of the app makes the transaction refuse. -/
theorem deleteApp_refused {jobs : Jobs} {apps : Apps} {id : String} {row : JobRow}
    (hm : row ∈ jobs.rows) (ha : row.appID = id) (hr : row.isRunning = true) :
    deleteApp jobs apps id = .error .activeDeployExists := by
  have hpos : 0 < jobs.activeCount id := List.countP_pos_iff.mpr ⟨row, hm, by simp [ha, hr]⟩
  simp [deleteApp, hpos]

end AutoDeploy
