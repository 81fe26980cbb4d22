import AutoDeploy.Calls
import AutoDeploy.InterleavingCache

namespace AutoDeploy

open Interleaving

/-- The cache of `IsDuplicate`. -/
def activeJobs : SnapshotCache Server Jobs (List (String × String)) :=
  ⟨Server.jobs, Jobs.activeKeys, Server.activeCache, Server.activeCacheMu⟩

/-- The cache of `GetBySecretHash`. -/
def secretHashes : SnapshotCache Server Apps (List App) :=
  ⟨Server.apps, Apps.enabledApps, Server.secretHashCache, Server.secretHashCacheMu⟩

/-- The id and the assignments of the UPDATE of `apps` that a call runs. -/
def Call.appUpdate (rt : Runtime) : Call → Option (String × (App → App))
  | .updateApp id fields secret enabled => some (id, fun app =>
      { app with
        name := fields.name
        webhookSecretHash := if secret = "" then app.webhookSecretHash else rt.hashSecret secret
        binaryPath := fields.binaryPath
        serviceName := fields.serviceName
        githubRepo := fields.githubRepo
        artifactName := fields.artifactName
        enabled := enabled })
  | .rotateSecret id newSecret =>
    some (id, fun app => { app with webhookSecretHash := rt.hashSecret newSecret })
  | .setEnabled id enabled => some (id, fun app => { app with enabled := enabled })
  | _ => none

theorem appUpdate_id {rt : Runtime} {call : Call} {target : String} {set : App → App}
    (hcall : call.appUpdate rt = some (target, set)) (app : App) : (set app).id = app.id := by
  cases call with
  | updateApp id fields secret enabled => cases hcall; rfl
  | rotateSecret id newSecret => cases hcall; rfl
  | setEnabled id enabled => cases hcall; rfl
  | _ => cases hcall

/-- The fields and the secret of the app that a call creates. -/
def Call.appCreated : Call → Option (AppFields × String)
  | .createApp fields secret => some (fields, secret)
  | .createAppRequest req => req.body.map fun body => (body.fields, body.webhookSecretOf)
  | _ => none

def AppFields.newApp (fields : AppFields) (id hash : String) : App :=
  ⟨id, fields.name, hash, fields.binaryPath, fields.serviceName, fields.githubRepo,
    fields.artifactName, true⟩

/-- A change of a row that keeps what the row is about. -/
structure JobRow.Retains (set : JobRow → JobRow) : Prop where
  id : ∀ row, (set row).id = row.id
  app : ∀ row, (set row).appID = row.appID
  tag : ∀ row, (set row).tag = row.tag
  retry : ∀ row, (set row).retryOfJobID = row.retryOfJobID

/-- Everything that one action of a call may do to the tables and to the caches. -/
inductive StoreAction (rt : Runtime) (call : Call) (own : List ServerStep) (step : ServerStep) :
    Prop
  | reads : step.after = step.before → StoreAction rt call own step
  | locksActive : step.before.activeCacheMu = false →
      step.after = { step.before with activeCacheMu := true } → StoreAction rt call own step
  | unlocksActive : activeJobs.Holds own →
      step.after = { step.before with activeCacheMu := false } → StoreAction rt call own step
  | storesActive {m : List (String × String)} : activeJobs.Holds own →
      activeJobs.Selected own m → step.after = { step.before with activeCache := some m } →
      StoreAction rt call own step
  | dropsActive : step.before.activeCacheMu = false →
      step.after = { step.before with activeCache := none } → StoreAction rt call own step
  | locksSecrets : step.before.secretHashCacheMu = false →
      step.after = { step.before with secretHashCacheMu := true } → StoreAction rt call own step
  | unlocksSecrets : secretHashes.Holds own →
      step.after = { step.before with secretHashCacheMu := false } → StoreAction rt call own step
  | storesSecrets {m : List App} : secretHashes.Holds own → secretHashes.Selected own m →
      step.after = { step.before with secretHashCache := some m } → StoreAction rt call own step
  | dropsSecrets : step.before.secretHashCacheMu = false →
      step.after = { step.before with secretHashCache := none } → StoreAction rt call own step
  | inserted {row : JobRow} {jobs : Jobs} : step.emitted = [.inserted row] →
      step.before.jobs.insert row = .ok jobs → step.after = { step.before with jobs := jobs } →
      StoreAction rt call own step
  | rewritten {set : JobRow → JobRow} {jobs : Jobs} : JobRow.Retains set →
      jobs.rows = step.before.jobs.rows.map set → step.after = { step.before with jobs := jobs } →
      StoreAction rt call own step
  | deleted {id : String} {jobs : Jobs} {apps : Apps} : call = .deleteApp id →
      deleteApp step.before.jobs step.before.apps id = .ok (jobs, apps) →
      step.after = { step.before with jobs := jobs, apps := apps } → StoreAction rt call own step
  | created {fields : AppFields} {secret id : String} {apps : Apps} :
      call.appCreated = some (fields, secret) →
      step.before.apps.insert (fields.newApp id (rt.hashSecret secret)) = .ok apps →
      step.after = { step.before with apps := apps } → StoreAction rt call own step
  | updated {id : String} {set : App → App} {n : ℕ} {apps : Apps} :
      call.appUpdate rt = some (id, set) → step.before.apps.update id set = .ok (n, apps) →
      step.after = { step.before with apps := apps } → StoreAction rt call own step
  | savedEnv {id : String} {req : AdminRequest (List EnvVar)} {vars : List EnvVar} :
      call = .saveAppEnv id req →
      step.after = { step.before with appEnv := step.before.appEnv.set id vars } →
      StoreAction rt call own step
  | savedArgs {id : String} {req : AdminRequest (List String)} {args : List String} :
      call = .saveAppArgs id req →
      step.after = { step.before with appArgs := step.before.appArgs.set id args } →
      StoreAction rt call own step

section Moves

variable {rt : Runtime} {call : Call} {own : List ServerStep} {step : ServerStep}

theorem StoreAction.movesActive (h : StoreAction rt call own step) :
    activeJobs.Moves own step := by
  cases h with
  | locksActive hfree h => exact .locks ⟨hfree, by rw [h]; rfl⟩ (by rw [h]; rfl)
  | unlocksActive hholds h => exact .unlocks hholds (by rw [h]; rfl) (by rw [h]; rfl)
  | storesActive hholds hread h => exact .publishes hholds hread (by rw [h]; rfl) (by rw [h]; rfl)
  | dropsActive hfree h => exact .drops hfree ⟨by rw [h]; rfl, by rw [h]; exact hfree⟩
  | reads h => exact .keeps (by rw [h]) (by rw [h])
  | locksSecrets _ h | unlocksSecrets _ h | storesSecrets _ _ h | dropsSecrets _ h
  | inserted _ _ h | rewritten _ _ h | deleted _ _ h | created _ _ h | updated _ _ h
  | savedEnv _ h | savedArgs _ h => exact .keeps (by rw [h]; rfl) (by rw [h]; rfl)

theorem StoreAction.movesSecrets (h : StoreAction rt call own step) :
    secretHashes.Moves own step := by
  cases h with
  | locksSecrets hfree h => exact .locks ⟨hfree, by rw [h]; rfl⟩ (by rw [h]; rfl)
  | unlocksSecrets hholds h => exact .unlocks hholds (by rw [h]; rfl) (by rw [h]; rfl)
  | storesSecrets hholds hread h => exact .publishes hholds hread (by rw [h]; rfl) (by rw [h]; rfl)
  | dropsSecrets hfree h => exact .drops hfree ⟨by rw [h]; rfl, by rw [h]; exact hfree⟩
  | reads h => exact .keeps (by rw [h]) (by rw [h])
  | locksActive _ h | unlocksActive _ h | storesActive _ _ h | dropsActive _ h
  | inserted _ _ h | rewritten _ _ h | deleted _ _ h | created _ _ h | updated _ _ h
  | savedEnv _ h | savedArgs _ h => exact .keeps (by rw [h]; rfl) (by rw [h]; rfl)

end Moves

/-- The own steps went on, and left no cache to invalidate that was in order before. -/
structure Settles (own own' : List ServerStep) : Prop where
  steps : own <+: own'
  active : ¬ activeJobs.Dirty own → ¬ activeJobs.Dirty own'
  secrets : ¬ secretHashes.Dirty own → ¬ secretHashes.Dirty own'

theorem settles_refl (own : List ServerStep) : Settles own own :=
  ⟨List.prefix_refl own, id, id⟩

theorem Settles.trans {own mid own' : List ServerStep} (h : Settles own mid)
    (h' : Settles mid own') : Settles own own' :=
  ⟨h.steps.trans h'.steps, fun hc => h'.active (h.active hc), fun hc => h'.secrets (h.secrets hc)⟩

theorem settles_step {own : List ServerStep} {step : ServerStep}
    (hjobs : step.after.jobs = step.before.jobs) (happs : step.after.apps = step.before.apps) :
    Settles own (own ++ [step]) :=
  ⟨List.prefix_append own [step], SnapshotCache.clean_step (v := activeJobs) hjobs,
    SnapshotCache.clean_step (v := secretHashes) happs⟩

section Primitives

variable {rt : Runtime} {call : Call} {own : List ServerStep} {α η : Type}

abbrev StoreSafe (rt : Runtime) (call : Call) (own : List ServerStep) (p : Op α)
    (Q : List ServerStep → α → Prop) : Prop :=
  p.Safe (fun _ => True) (StoreAction rt call) Q own

theorem StoreSafe.settled {p : Op α} {mid : List ServerStep} {P : List ServerStep → α → Prop}
    (h : StoreSafe rt call mid p fun own' value => Settles mid own' ∧ P own' value)
    (hs : Settles own mid) :
    StoreSafe rt call mid p fun own' value => Settles own own' ∧ P own' value :=
  Prog.Safe.mono h fun _ _ h' => ⟨hs.trans h'.1, h'.2⟩

theorem store_query {select : Server → α} :
    StoreSafe rt call own (query select) fun own' value => ∃ s, own' = own ++ [⟨s, [], s⟩] ∧
      ∀ a, value = .ok a → a = select s := by
  apply Prog.safe_atomic
  intro s k _
  cases k.fault with
  | some text => exact ⟨.reads rfl, s, rfl, by simp⟩
  | none => exact ⟨.reads rfl, s, rfl, by rintro a ha; cases ha; rfl⟩

theorem store_select {select : Server → α} :
    StoreSafe rt call own (query select) fun own' value => Settles own own' ∧
      ∀ a, value = .ok a → ∃ st ∈ own', a = select st.before := by
  apply store_query.mono
  rintro own' value ⟨s, rfl, hvalue⟩
  exact ⟨settles_step rfl rfl, fun a ha =>
    ⟨⟨s, [], s⟩, List.mem_append_right _ (List.mem_singleton_self _), hvalue a ha⟩⟩

theorem store_generateJobID :
    StoreSafe rt call own generateJobID fun own' _ => Settles own own' ∧ True := by
  apply Prog.safe_atomic
  intro s k _
  cases k.fault with
  | some text => exact ⟨.reads rfl, settles_step rfl rfl, trivial⟩
  | none => exact ⟨.reads rfl, settles_step rfl rfl, trivial⟩

theorem store_broadcastAll (events : List CancelEvent) :
    StoreSafe rt call own (broadcastAll events) fun own' _ => Settles own own' ∧ True := by
  induction events generalizing own with
  | nil => exact ⟨settles_refl own, trivial⟩
  | cons event rest ih =>
    apply Prog.safe_bind (P := fun own' _ => Settles own own')
    · exact Prog.safe_atomic fun s k _ => ⟨.reads rfl, settles_step rfl rfl⟩
    · intro own₁ _ hs₁
      exact StoreSafe.settled ih hs₁

theorem store_publishAll (results : List CancelJobResult) :
    StoreSafe rt call own (publishAll results) fun own' _ => Settles own own' ∧ True := by
  induction results generalizing own with
  | nil => exact ⟨settles_refl own, trivial⟩
  | cons result rest ih =>
    apply Prog.safe_bind (store_broadcastAll result.events)
    rintro own₁ _ ⟨hs₁, -⟩
    exact StoreSafe.settled ih hs₁

end Primitives

end AutoDeploy
