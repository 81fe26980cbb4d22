import AutoDeploy.StoreActionCalls

namespace AutoDeploy

open Interleaving

def Apps.Has (apps : Apps) (id : String) : Prop := ∃ app ∈ apps.rows, app.id = id

def Settings.Has {α : Type} (settings : Settings α) (id : String) : Prop :=
  ∃ row ∈ settings.rows, row.1 = id

/-- The job that this row retries, if it is in the table. -/
def Jobs.HasOriginal (jobs : Jobs) (row : JobRow) (id : String) : Prop :=
  ∃ original ∈ jobs.rows, original.id = id ∧ original.appID = row.appID ∧ original.tag = row.tag

/-- No row of another table is left without its app, and no retry without its original. -/
structure Intact (s : Server) : Prop where
  jobs : ∀ row ∈ s.jobs.rows, row.appID = "legacy" ∨ s.apps.Has row.appID
  retries : ∀ row ∈ s.jobs.rows, ∀ id, row.retryOfJobID = some id → id ≠ "" →
    s.jobs.HasOriginal row id
  env : ∀ row ∈ s.appEnv.rows, s.apps.Has row.1
  args : ∀ row ∈ s.appArgs.rows, s.apps.Has row.1

/-- What has to be so when an action commits: the app that it writes for is there, and the app
that it deletes has no settings. -/
structure Sheltered (call : Call) (step : ServerStep) : Prop where
  inserted : ∀ row, step.before.jobs.insert row = .ok step.after.jobs →
    row.appID = "legacy" ∨ step.before.apps.Has row.appID
  retried : ∀ row, step.before.jobs.insert row = .ok step.after.jobs →
    ∀ id, row.retryOfJobID = some id → id ≠ "" →
    id = row.id ∨ step.before.jobs.HasOriginal row id
  savedEnv : ∀ id req, call = .saveAppEnv id req → step.after.appEnv ≠ step.before.appEnv →
    step.before.apps.Has id
  savedArgs : ∀ id req, call = .saveAppArgs id req → step.after.appArgs ≠ step.before.appArgs →
    step.before.apps.Has id
  deleted : ∀ id, call = .deleteApp id → step.after.apps ≠ step.before.apps →
    ¬ step.before.appEnv.Has id ∧ ¬ step.before.appArgs.Has id

section Tables

variable {rt : Runtime} {call : Call} {id : String}

theorem has_insert {apps after : Apps} {app : App} (h : apps.insert app = .ok after)
    (hhas : apps.Has id) : after.Has id := by
  obtain ⟨old, hm, hid⟩ := hhas
  refine ⟨old, ?_, hid⟩
  rw [Apps.insert_rows h]
  exact List.mem_append_left _ hm

theorem has_update {apps after : Apps} {target : String} {set : App → App} {n : ℕ}
    (hcall : call.appUpdate rt = some (target, set))
    (h : apps.update target set = .ok (n, after)) (hhas : apps.Has id) : after.Has id := by
  obtain ⟨old, hm, hid⟩ := hhas
  refine ⟨if old.id == target then set old else old, ?_, ?_⟩
  · rw [(Apps.update_rows h).2]
    exact List.mem_map_of_mem hm
  · split
    next => rw [appUpdate_id hcall, hid]
    next => exact hid

theorem has_delete {jobs jobs' : Jobs} {apps apps' : Apps} {target : String}
    (h : deleteApp jobs apps target = .ok (jobs', apps')) :
    apps'.Has id ↔ apps.Has id ∧ id ≠ target := by
  have hrows := deleteApp_rows h
  constructor
  · rintro ⟨app, hm, rfl⟩
    rw [hrows] at hm
    obtain ⟨hm, hne⟩ := List.mem_filter.mp hm
    exact ⟨⟨app, hm, rfl⟩, by simpa using hne⟩
  · rintro ⟨⟨app, hm, rfl⟩, hne⟩
    refine ⟨app, ?_, rfl⟩
    rw [hrows]
    exact List.mem_filter.mpr ⟨hm, by simpa using hne⟩

theorem deleteApp_changes {jobs jobs' : Jobs} {apps apps' : Apps}
    (h : deleteApp jobs apps id = .ok (jobs', apps')) : apps' ≠ apps := by
  have hgone : ¬ apps'.Has id := fun hhas => ((has_delete h).mp hhas).2 rfl
  rintro rfl
  unfold deleteApp at h
  split at h
  next => cases h
  next =>
    dsimp only at h
    split at h
    next => cases h
    next hn =>
      obtain ⟨app, hm, hid⟩ := List.countP_pos_iff.mp (Nat.pos_of_ne_zero hn)
      exact hgone ⟨app, hm, by simpa using hid⟩

theorem settings_set_has {α : Type} {settings : Settings α} {target : String} {value : α} :
    (settings.set target value).Has id ↔ id = target ∨ settings.Has id := by
  have hkeys : ∀ rows : List (String × α),
      (∃ row ∈ rows, row.1 = id) ↔ id ∈ rows.map Prod.fst := by
    intro rows
    simp
  unfold Settings.Has
  rw [hkeys, hkeys]
  change id ∈ (Settings.upsertRows settings.rows target value).map Prod.fst ↔ _
  rw [Settings.upsertRows_keys, Settings.upsertKeys]
  split
  next hold =>
    constructor
    · exact Or.inr
    · rintro (rfl | hm)
      · exact hold
      · exact hm
  next => simp [or_comm]

end Tables

section Steps

variable {rt : Runtime} {call : Call} {own : List ServerStep} {step : ServerStep}

theorem has_original_map {jobs jobs' : Jobs} {set : JobRow → JobRow} (hset : JobRow.Retains set)
    (hrows : jobs'.rows = jobs.rows.map set) {row : JobRow} {id : String}
    (h : jobs.HasOriginal row id) : jobs'.HasOriginal (set row) id := by
  obtain ⟨original, hm, hid, happ, htag⟩ := h
  refine ⟨set original, ?_, ?_, ?_, ?_⟩
  · rw [hrows]
    exact List.mem_map_of_mem hm
  · rw [hset.id, hid]
  · rw [hset.app, hset.app, happ]
  · rw [hset.tag, hset.tag, htag]

/-- Where apps only come, and the other tables stay, nothing loses its app. -/
theorem intact_apps {s : Server} {apps : Apps} (h : Intact s)
    (hhas : ∀ id, s.apps.Has id → apps.Has id) : Intact { s with apps := apps } where
  jobs row hm := (h.jobs row hm).imp_right (hhas row.appID)
  retries := h.retries
  env row hm := hhas row.1 (h.env row hm)
  args row hm := hhas row.1 (h.args row hm)

theorem intact_inserted {s : Server} {row : JobRow} {jobs : Jobs} (h : Intact s)
    (hinsert : s.jobs.insert row = .ok jobs)
    (happ : row.appID = "legacy" ∨ s.apps.Has row.appID)
    (hretry : ∀ id, row.retryOfJobID = some id → id ≠ "" →
      id = row.id ∨ s.jobs.HasOriginal row id) : Intact { s with jobs := jobs } where
  jobs other hm := by
    change other ∈ jobs.rows at hm
    rw [Jobs.insert_rows hinsert] at hm
    rcases List.mem_append.mp hm with hold | hnew
    · exact h.jobs other hold
    · rw [List.mem_singleton.mp hnew]
      exact happ
  retries other hm id hid hne := by
    change other ∈ jobs.rows at hm
    have hstays : ∀ {entry : JobRow}, s.jobs.HasOriginal entry id → jobs.HasOriginal entry id := by
      rintro entry ⟨original, hold, hsame⟩
      refine ⟨original, ?_, hsame⟩
      rw [Jobs.insert_rows hinsert]
      exact List.mem_append_left _ hold
    have hrow : row ∈ jobs.rows := by
      rw [Jobs.insert_rows hinsert]
      exact List.mem_append_right _ (List.mem_singleton_self row)
    rw [Jobs.insert_rows hinsert] at hm
    rcases List.mem_append.mp hm with hold | hnew
    · exact hstays (h.retries other hold id hid hne)
    · have he := List.mem_singleton.mp hnew
      subst he
      rcases hretry id hid hne with hself | horiginal
      · exact ⟨other, hrow, hself.symm, rfl, rfl⟩
      · exact hstays horiginal
  env := h.env
  args := h.args

theorem intact_rewritten {s : Server} {set : JobRow → JobRow} {jobs : Jobs} (h : Intact s)
    (hset : JobRow.Retains set) (hrows : jobs.rows = s.jobs.rows.map set) :
    Intact { s with jobs := jobs } where
  jobs row hm := by
    change row ∈ jobs.rows at hm
    rw [hrows] at hm
    obtain ⟨old, hold, rfl⟩ := List.mem_map.mp hm
    rw [hset.app]
    exact h.jobs old hold
  retries row hm id hid hne := by
    change row ∈ jobs.rows at hm
    rw [hrows] at hm
    obtain ⟨old, hold, rfl⟩ := List.mem_map.mp hm
    rw [hset.retry] at hid
    exact has_original_map hset hrows (h.retries old hold id hid hne)
  env := h.env
  args := h.args

theorem intact_deleted {s : Server} {id : String} {jobs : Jobs} {apps : Apps} (h : Intact s)
    (hdelete : deleteApp s.jobs s.apps id = .ok (jobs, apps)) (henv : ¬ s.appEnv.Has id)
    (hargs : ¬ s.appArgs.Has id) : Intact { s with jobs := jobs, apps := apps } where
  jobs row hm := by
    change row ∈ jobs.rows at hm
    rw [(deleteApp_ok hdelete).2] at hm
    obtain ⟨hold, hne⟩ := List.mem_filter.mp hm
    refine (h.jobs row hold).imp_right fun hhas => (has_delete hdelete).mpr ⟨hhas, ?_⟩
    simpa using hne
  retries row hm target hid hne := by
    change row ∈ jobs.rows at hm
    rw [(deleteApp_ok hdelete).2] at hm
    obtain ⟨hold, hother⟩ := List.mem_filter.mp hm
    obtain ⟨original, horiginal, hoid, happ, htag⟩ := h.retries row hold target hid hne
    refine ⟨original, ?_, hoid, happ, htag⟩
    change original ∈ jobs.rows
    rw [(deleteApp_ok hdelete).2]
    exact List.mem_filter.mpr ⟨horiginal, by rw [happ]; exact hother⟩
  env row hm := by
    refine (has_delete hdelete).mpr ⟨h.env row hm, ?_⟩
    intro he
    exact henv ⟨row, hm, he⟩
  args row hm := by
    refine (has_delete hdelete).mpr ⟨h.args row hm, ?_⟩
    intro he
    exact hargs ⟨row, hm, he⟩

theorem env_has {α : Type} {settings : Settings α} {apps : Apps} {id : String}
    (h : ∀ row ∈ settings.rows, apps.Has row.1) (hhas : settings.Has id) : apps.Has id := by
  obtain ⟨row, hm, rfl⟩ := hhas
  exact h row hm

/-- After an upsert every row has its app, if the app of the upsert is there. -/
theorem set_owned {α : Type} {settings : Settings α} {apps : Apps} {id : String} {value : α}
    (h : ∀ row ∈ settings.rows, apps.Has row.1) (hid : apps.Has id) :
    ∀ row ∈ (settings.set id value).rows, apps.Has row.1 := by
  intro row hm
  rcases settings_set_has.mp ⟨row, hm, rfl⟩ with he | hold
  · rw [he]
    exact hid
  · exact env_has h hold

/-- A step that finds its app keeps all rows together with theirs. -/
theorem intact_step (h : StoreAction rt call own step) (hsheltered : Sheltered call step)
    (hintact : Intact step.before) : Intact step.after := by
  cases h with
  | reads hs => rw [hs]; exact hintact
  | locksActive _ hs | unlocksActive _ hs | storesActive _ _ hs | dropsActive _ hs
  | locksSecrets _ hs | unlocksSecrets _ hs | storesSecrets _ _ hs | dropsSecrets _ hs =>
    rw [hs]
    exact ⟨hintact.jobs, hintact.retries, hintact.env, hintact.args⟩
  | @inserted row jobs _ hinsert hs =>
    have hafter : step.after.jobs = jobs := congrArg Server.jobs hs
    have hcommits : step.before.jobs.insert row = .ok step.after.jobs := by rw [hafter, hinsert]
    rw [hs]
    exact intact_inserted hintact hinsert (hsheltered.inserted row hcommits)
      (hsheltered.retried row hcommits)
  | rewritten hset hrows hs =>
    rw [hs]
    exact intact_rewritten hintact hset hrows
  | @deleted id jobs apps hcall hdelete hs =>
    have hafter : step.after.apps = apps := congrArg Server.apps hs
    obtain ⟨henv, hargs⟩ := hsheltered.deleted id hcall (by
      rw [hafter]
      exact deleteApp_changes hdelete)
    rw [hs]
    exact intact_deleted hintact hdelete henv hargs
  | created _ hinsert hs =>
    rw [hs]
    exact intact_apps hintact fun _ => has_insert hinsert
  | updated hcall hupdate hs =>
    rw [hs]
    exact intact_apps hintact fun _ => has_update hcall hupdate
  | @savedEnv id req vars hcall hs =>
    have hafter : step.after.appEnv = step.before.appEnv.set id vars := congrArg Server.appEnv hs
    by_cases hsame : step.after.appEnv = step.before.appEnv
    · have hunchanged : step.after = step.before := by rw [hs, ← hafter, hsame]
      rw [hunchanged]
      exact hintact
    · have happ := hsheltered.savedEnv id req hcall hsame
      rw [hs]
      exact ⟨hintact.jobs, hintact.retries, set_owned hintact.env happ, hintact.args⟩
  | @savedArgs id req args hcall hs =>
    have hafter : step.after.appArgs = step.before.appArgs.set id args := congrArg Server.appArgs hs
    by_cases hsame : step.after.appArgs = step.before.appArgs
    · have hunchanged : step.after = step.before := by rw [hs, ← hafter, hsame]
      rw [hunchanged]
      exact hintact
    · have happ := hsheltered.savedArgs id req hcall hsame
      rw [hs]
      exact ⟨hintact.jobs, hintact.retries, hintact.env, set_owned hintact.args happ⟩

/-- Only an INSERT makes the table of jobs longer. -/
theorem insert_only (h : StoreAction rt call own step) {row : JobRow}
    (hinsert : step.before.jobs.insert row = .ok step.after.jobs) :
    step.after.apps = step.before.apps := by
  have hlonger : step.after.jobs.rows.length = step.before.jobs.rows.length + 1 := by
    rw [Jobs.insert_rows hinsert, List.length_append, List.length_singleton]
  cases h with
  | deleted _ hdelete hs =>
    have hle : step.after.jobs.rows.length ≤ step.before.jobs.rows.length := by
      rw [hs]
      rw [(deleteApp_ok hdelete).2]
      exact List.length_filter_le _ _
    omega
  | created _ _ hs | updated _ _ hs =>
    have heq : step.after.jobs = step.before.jobs := by rw [hs]
    rw [heq] at hlonger
    omega
  | reads hs | locksActive _ hs | unlocksActive _ hs | storesActive _ _ hs | dropsActive _ hs
  | locksSecrets _ hs | unlocksSecrets _ hs | storesSecrets _ _ hs | dropsSecrets _ hs
  | inserted _ _ hs | rewritten _ _ hs | savedEnv _ hs | savedArgs _ hs => rw [hs]

theorem env_only (h : StoreAction rt call own step) {id : String}
    {req : AdminRequest (List EnvVar)} (hcall : call = .saveAppEnv id req)
    (hchanged : step.after.appEnv ≠ step.before.appEnv) :
    ∃ vars, step.after = { step.before with appEnv := step.before.appEnv.set id vars } := by
  cases h with
  | savedEnv hsaved hs =>
    rw [hcall] at hsaved
    cases hsaved
    exact ⟨_, hs⟩
  | reads hs | locksActive _ hs | unlocksActive _ hs | storesActive _ _ hs | dropsActive _ hs
  | locksSecrets _ hs | unlocksSecrets _ hs | storesSecrets _ _ hs | dropsSecrets _ hs
  | inserted _ _ hs | rewritten _ _ hs | deleted _ _ hs | created _ _ hs | updated _ _ hs
  | savedArgs _ hs => exact absurd (by rw [hs]) hchanged

theorem args_only (h : StoreAction rt call own step) {id : String}
    {req : AdminRequest (List String)} (hcall : call = .saveAppArgs id req)
    (hchanged : step.after.appArgs ≠ step.before.appArgs) :
    ∃ args, step.after = { step.before with appArgs := step.before.appArgs.set id args } := by
  cases h with
  | savedArgs hsaved hs =>
    rw [hcall] at hsaved
    cases hsaved
    exact ⟨_, hs⟩
  | reads hs | locksActive _ hs | unlocksActive _ hs | storesActive _ _ hs | dropsActive _ hs
  | locksSecrets _ hs | unlocksSecrets _ hs | storesSecrets _ _ hs | dropsSecrets _ hs
  | inserted _ _ hs | rewritten _ _ hs | deleted _ _ hs | created _ _ hs | updated _ _ hs
  | savedEnv _ hs => exact absurd (by rw [hs]) hchanged

theorem delete_only (h : StoreAction rt call own step) {id : String} (hcall : call = .deleteApp id)
    (hchanged : step.after.apps ≠ step.before.apps) :
    ∃ jobs apps, deleteApp step.before.jobs step.before.apps id = .ok (jobs, apps) ∧
      step.after = { step.before with jobs := jobs, apps := apps } := by
  cases h with
  | deleted hdeleted hdelete hs =>
    rw [hcall] at hdeleted
    cases hdeleted
    exact ⟨_, _, hdelete, hs⟩
  | created hcreated _ _ => rw [hcall] at hcreated; cases hcreated
  | updated hupdated _ _ => rw [hcall] at hupdated; cases hupdated
  | reads hs | locksActive _ hs | unlocksActive _ hs | storesActive _ _ hs | dropsActive _ hs
  | locksSecrets _ hs | unlocksSecrets _ hs | storesSecrets _ _ hs | dropsSecrets _ hs
  | inserted _ _ hs | rewritten _ _ hs | savedEnv _ hs | savedArgs _ hs =>
    exact absurd (by rw [hs]) hchanged

/-- A step that leaves all rows together with theirs found its app. -/
theorem sheltered_of_intact (h : StoreAction rt call own step) (hafter : Intact step.after) :
    Sheltered call step where
  inserted row hinsert := by
    have hrow : row ∈ step.after.jobs.rows := by
      rw [Jobs.insert_rows hinsert]
      exact List.mem_append_right _ (List.mem_singleton_self row)
    have happ := hafter.jobs row hrow
    rw [insert_only h hinsert] at happ
    exact happ
  retried row hinsert id hid hne := by
    have hrow : row ∈ step.after.jobs.rows := by
      rw [Jobs.insert_rows hinsert]
      exact List.mem_append_right _ (List.mem_singleton_self row)
    obtain ⟨original, hm, hoid, hsame⟩ := hafter.retries row hrow id hid hne
    rw [Jobs.insert_rows hinsert] at hm
    rcases List.mem_append.mp hm with hold | hnew
    · exact Or.inr ⟨original, hold, hoid, hsame⟩
    · rw [List.mem_singleton.mp hnew] at hoid
      exact Or.inl hoid.symm
  savedEnv id req hcall hchanged := by
    obtain ⟨vars, hs⟩ := env_only h hcall hchanged
    have hhas : step.after.appEnv.Has id := by
      rw [hs]
      exact settings_set_has.mpr (Or.inl rfl)
    have happ := env_has hafter.env hhas
    rw [hs] at happ
    exact happ
  savedArgs id req hcall hchanged := by
    obtain ⟨args, hs⟩ := args_only h hcall hchanged
    have hhas : step.after.appArgs.Has id := by
      rw [hs]
      exact settings_set_has.mpr (Or.inl rfl)
    have happ := env_has hafter.args hhas
    rw [hs] at happ
    exact happ
  deleted id hcall hchanged := by
    obtain ⟨jobs, apps, hdelete, hs⟩ := delete_only h hcall hchanged
    have hgone : ¬ step.after.apps.Has id := by
      rw [hs]
      exact fun hhas => ((has_delete hdelete).mp hhas).2 rfl
    have henv : step.after.appEnv = step.before.appEnv := by rw [hs]
    have hargs : step.after.appArgs = step.before.appArgs := by rw [hs]
    rw [← henv, ← hargs]
    exact ⟨fun hhas => hgone (env_has hafter.env hhas),
      fun hhas => hgone (env_has hafter.args hhas)⟩

end Steps

/-- The tables stay intact through a run exactly if every write of the run finds the app that it
is for, and no deleted app had settings. -/
theorem integrity_iff {rt : Runtime} {s₀ : Server} {cfg : ServerConfig} (start : Intact s₀)
    (reach : rt.Reaches s₀ cfg) :
    (∀ s ∈ visited s₀ cfg.history, Intact s) ↔
      ∀ t call step, .acted t call step ∈ cfg.history → Sheltered call step := by
  constructor
  · intro hintact t call step hm
    obtain ⟨own, haction⟩ := acted_store reach hm
    have hstep : step ∈ steps cfg.history := mem_steps.mpr ⟨t, call, hm⟩
    exact sheltered_of_intact haction
      (hintact _ (List.mem_cons_of_mem _ (List.mem_map_of_mem hstep)))
  · intro hsheltered
    refine visited_invariant reach start ?_
    intro step hm
    obtain ⟨t, call, hacted⟩ := mem_steps.mp hm
    obtain ⟨own, haction⟩ := acted_store reach hacted
    exact intact_step haction (hsheltered t call step hacted)

/-- An app gets environment variables, and is deleted. -/
def deletedWithEnv : List (Turn Choice Call) :=
  solo (.createAppRequest ⟨"application/json",
      some ⟨⟨"api", "/opt/api", "api.service", "acme/api", "api.tar.gz"⟩, "x", "", none⟩⟩) 0 5
      ⟨none, "a1"⟩ ++
    solo (.saveAppEnv "a1" ⟨"application/json", some [⟨"TOKEN", "t"⟩]⟩) 1 3 ⟨none, ""⟩ ++
    solo (.deleteApp "a1") 2 4 ⟨none, ""⟩

theorem intact_started : Intact (.started .empty .empty) := by
  constructor
  all_goals
    intro row hm
    cases hm

theorem deletedWithEnv_end : ¬ Intact
    (play (Runtime.program ⟨2, id, id⟩) (.started .empty .empty) deletedWithEnv).shared := by
  intro hend
  obtain ⟨app, hm, -⟩ := hend.env ("a1", [⟨"TOKEN", "t"⟩]) (List.mem_of_getElem? (i := 0) rfl)
  have hnone : (play (Runtime.program ⟨2, id, id⟩) (.started .empty .empty)
      deletedWithEnv).shared.apps.rows = [] := by decide +kernel
  rw [hnone] at hm
  cases hm

theorem deletedWithEnv_orphans : ¬ ∀ (rt : Runtime) (s₀ : Server) (cfg : ServerConfig),
    Intact s₀ → rt.Reaches s₀ cfg → Intact cfg.shared := fun h =>
  deletedWithEnv_end (h ⟨2, id, id⟩ _ _ intact_started (reaches_play _ _ deletedWithEnv))

theorem integrity_iff_deletedWithEnv : ¬ ∀ t call step, .acted t call step ∈
    (play (Runtime.program ⟨2, id, id⟩) (.started .empty .empty) deletedWithEnv).history →
    Sheltered call step := by
  intro hsheltered
  have hreach := reaches_play (Runtime.program ⟨2, id, id⟩) (.started .empty .empty) deletedWithEnv
  have hintact := (integrity_iff intact_started hreach).mpr hsheltered
  exact deletedWithEnv_end (hintact _ (shared_mem_visited hreach))

end AutoDeploy
