import AutoDeploy.StoreActionQueue

namespace AutoDeploy

open Interleaving

/-- The step in which a call updates or deletes an app. -/
inductive CommitsApps (rt : Runtime) (call : Call) (step : ServerStep) : Prop
  | updated {id : String} {set : App → App} {n : ℕ} : call.appUpdate rt = some (id, set) →
      n ≠ 0 → step.before.apps.update id set = .ok (n, step.after.apps) → CommitsApps rt call step
  | deleted {id : String} : call = .deleteApp id →
      deleteApp step.before.jobs step.before.apps id = .ok (step.after.jobs, step.after.apps) →
      CommitsApps rt call step

/-- The call has updated or deleted an app, and dropped the cache after it. -/
def WroteApps (rt : Runtime) (call : Call) (own : List ServerStep) : Prop :=
  ∃ front step back, own = front ++ step :: back ∧ CommitsApps rt call step ∧
    ∃ clear ∈ back, secretHashes.Clears clear

section Cancel

variable {rt : Runtime} {call : Call} {own : List ServerStep}

theorem store_requestJobCancel {quote : String → String} {jobID : String} :
    StoreSafe rt call own (requestJobCancel quote jobID) fun own' _ => Settles own own' := by
  unfold requestJobCancel
  apply Prog.safe_bind (P := fun own' value => JobsWritten own own' ∧
    ((∀ result, value ≠ .ok (result, true)) → Settles own own'))
  · apply store_exec
    · exact fun _ e h => ⟨h.jobsWritten, fun _ => h⟩
    · intro s value after events hs
      dsimp only at hs
      cases hr : s.jobs.requestJobCancel quote jobID with
      | error e => rw [hr] at hs; cases hs
      | ok out =>
        rw [hr] at hs
        cases hs
        cases hf : s.jobs.find? jobID with
        | none =>
          rw [Jobs.requestJobCancel_none hf] at hr
          cases hr
          exact ⟨.reads rfl, jobsWritten_step rfl, fun _ => settles_step rfl rfl⟩
        | some job =>
          obtain ⟨-, hrows⟩ := Jobs.requestJobCancel_some hf hr
          have hmap : out.2.rows = s.jobs.rows.map fun row =>
              if decide (row = job) = true then row.canceled else row := by
            rw [hrows]
            apply List.map_congr_left
            intro row _
            by_cases he : row = job <;> simp [he]
          exact ⟨.rewritten (retains_canceled.restrict _) hmap rfl, jobsWritten_step rfl,
            fun h => absurd rfl (h out.1)⟩
  · rintro own₁ (e | ⟨result, _ | _⟩) ⟨hw₁, hs₁⟩
    · exact hs₁ (by simp)
    · exact hs₁ (by simp)
    · apply Prog.safe_bind store_invalidateActive
      intro own₂ _ hd₂
      apply Prog.safe_bind (store_broadcastAll result.events)
      rintro own₃ _ ⟨hs₃, -⟩
      exact (hd₂.settles hw₁).trans hs₃

theorem store_requestAppCancel {quote : String → String} {appID : String} :
    StoreSafe rt call own (requestAppCancel quote appID) fun own' _ => Settles own own' := by
  unfold requestAppCancel
  apply Prog.safe_bind (P := WritesJobs own)
  · apply store_exec
    · exact fun _ e h => h.failed e
    · intro s value after events hs
      dsimp only at hs
      cases hr : s.jobs.requestAppCancel quote appID with
      | error e => rw [hr] at hs; cases hs
      | ok out =>
        rw [hr] at hs
        cases hs
        obtain ⟨-, hrows⟩ := Jobs.requestAppCancel_ok hr
        have hmap : out.2.rows = s.jobs.rows.map fun row =>
            if decide (row.appID = appID) = true then row.canceled else row := by
          simpa using hrows
        exact ⟨.rewritten (retains_canceled.restrict _) hmap rfl, writesJobs_ok rfl out.1⟩
  · rintro own₁ (e | result) h₁
    · exact h₁.2 e rfl
    · apply Prog.safe_bind store_invalidateActive
      intro own₂ _ hd₂
      apply Prog.safe_bind (store_publishAll result.requested)
      rintro own₃ _ ⟨hs₃, -⟩
      exact (hd₂.settles h₁.1).trans hs₃

theorem store_checkpoint {jobID : String} {phase : DeployPhase} :
    StoreSafe rt call own (checkpoint jobID phase) fun own' _ => Settles own own' := by
  unfold checkpoint
  apply Prog.safe_bind store_select
  rintro own₁ (e | _ | status) ⟨hs₁, -⟩
  · exact hs₁
  · exact hs₁
  · dsimp only
    cases (cancelDecisionForStatus jobID status phase).marks status with
    | none => exact hs₁
    | some terminal =>
      apply Prog.safe_bind (store_writeThen (store_execJobs
        (fun row => row.id == jobID && row.status == .cancelRequested)
        (JobRow.setStatus terminal _) (fun _ => rfl)
        ⟨fun _ => rfl, fun _ => rfl, fun _ => rfl, fun _ => rfl⟩))
      rintro own₂ (e | _) hs₂
      · exact hs₁.trans hs₂
      · apply Prog.safe_bind (store_broadcastAll [_])
        rintro own₃ _ ⟨hs₃, -⟩
        exact (hs₁.trans hs₂).trans hs₃

end Cancel

section Apps

variable {rt : Runtime} {call : Call} {own mid : List ServerStep}

/-- The invalidation of the cache of the apps: it is in order, whatever was before. -/
structure SecretsDropped (mid own' : List ServerStep) : Prop where
  steps : ∃ clear, own' = mid ++ [clear] ∧ secretHashes.Clears clear
  active : ¬ activeJobs.Dirty mid → ¬ activeJobs.Dirty own'
  clean : ¬ secretHashes.Dirty own'

theorem SecretsDropped.later {own' : List ServerStep} (h : SecretsDropped mid own') :
    mid <+: own' := by
  obtain ⟨clear, rfl, -⟩ := h.steps
  exact List.prefix_append mid [clear]

theorem SecretsDropped.settles {own' : List ServerStep} (h : SecretsDropped mid own')
    (hw : AppsWritten own mid) : Settles own own' :=
  ⟨hw.steps.trans h.later, fun hc => h.active (hw.active hc), fun _ => h.clean⟩

theorem SecretsDropped.jobsWritten {own' : List ServerStep} (h : SecretsDropped mid own')
    (hsteps : own <+: mid) : JobsWritten own own' :=
  ⟨hsteps.trans h.later, fun _ => h.clean⟩

theorem SecretsDropped.wroteApps {own' : List ServerStep} {step : ServerStep}
    (h : SecretsDropped mid own') (hstep : step ∈ mid) (hcommits : CommitsApps rt call step) :
    WroteApps rt call own' := by
  obtain ⟨front, back, rfl⟩ := List.append_of_mem hstep
  obtain ⟨clear, rfl, hclears⟩ := h.steps
  exact ⟨front, step, back ++ [clear], by simp, hcommits, clear, by simp, hclears⟩

theorem WroteApps.mono {own' : List ServerStep} (h : WroteApps rt call own)
    (hown : own <+: own') : WroteApps rt call own' := by
  obtain ⟨front, step, back, rfl, hcommits, clear, hm, hclears⟩ := h
  obtain ⟨rest, rfl⟩ := hown
  exact ⟨front, step, back ++ rest, by simp, hcommits, clear, List.mem_append_left _ hm, hclears⟩

theorem store_invalidateSecrets :
    StoreSafe rt call mid invalidateSecretHashCache fun own' _ => SecretsDropped mid own' := by
  apply Prog.safe_await
  intro s k _ hfree
  have hfree : s.secretHashCacheMu = false := by simpa using hfree
  exact ⟨.dropsSecrets hfree rfl, ⟨_, rfl, rfl, hfree⟩,
    SnapshotCache.clean_step (v := activeJobs) rfl,
    SnapshotCache.clean_clears (v := secretHashes) rfl ⟨rfl, hfree⟩⟩

theorem store_listApps : StoreSafe rt call own listApps fun own' _ => Settles own own' := by
  unfold listApps
  apply Prog.safe_bind store_select
  rintro own₁ (e | apps) ⟨hs₁, -⟩
  · exact hs₁
  · exact hs₁

theorem store_getApp {id : String} :
    StoreSafe rt call own (getApp id) fun own' _ => Settles own own' := by
  unfold getApp
  apply Prog.safe_bind store_select
  rintro own₁ (e | _ | app) ⟨hs₁, -⟩
  · exact hs₁
  · exact hs₁
  · exact hs₁

theorem store_updateApp {context id : String} {set : App → App}
    (hcall : call.appUpdate rt = some (id, set)) :
    StoreSafe rt call own (updateApp context id set) fun own' value =>
      Settles own own' ∧ (value = .ok () → WroteApps rt call own') := by
  unfold updateApp
  apply Prog.safe_bind (P := fun own' value => AppsWritten own own' ∧
    ((∀ n, value = .ok n → n = 0) → Settles own own') ∧
    ∀ n, value = .ok n → n ≠ 0 → ∃ step ∈ own', CommitsApps rt call step)
  · apply store_exec
    · exact fun _ e h => ⟨h.appsWritten, fun _ => h, by simp⟩
    · intro s value after events hs
      dsimp only at hs
      cases hu : s.apps.update id set with
      | error e => rw [hu] at hs; cases hs
      | ok out =>
        rw [hu] at hs
        cases hs
        obtain ⟨n, apps⟩ := out
        refine ⟨.updated hcall hu rfl, appsWritten_step rfl, ?_, ?_⟩
        · intro hzero
          obtain rfl : n = 0 := hzero n rfl
          exact settles_step rfl (Apps.update_none hu)
        · rintro _ ⟨⟩ hn
          exact ⟨_, List.mem_append_right _ (List.mem_singleton_self _), .updated hcall hn hu⟩
  · rintro own₁ (e | n) ⟨hw₁, hs₁, hupdated⟩
    · exact ⟨hs₁ (by simp), by simp⟩
    · dsimp only
      split
      next hn => exact ⟨hs₁ (by rintro _ ⟨⟩; exact hn), by simp⟩
      next hn =>
        apply Prog.safe_bind store_invalidateSecrets
        intro own₂ _ hd₂
        obtain ⟨step, hstep, hcommits⟩ := hupdated n rfl hn
        exact ⟨hd₂.settles hw₁, fun _ => hd₂.wroteApps hstep hcommits⟩

theorem store_createApp {fields : AppFields} {secret : String}
    (hcall : call.appCreated = some (fields, secret)) :
    StoreSafe rt call own (createApp rt.hashSecret fields secret) fun own' _ =>
      Settles own own' := by
  unfold createApp
  apply Prog.safe_bind store_generateJobID
  rintro own₁ (e | id) ⟨hs₁, -⟩
  · exact hs₁
  · apply Prog.safe_bind (P := fun own' value => AppsWritten own₁ own' ∧
      ∀ e, value = .error e → Settles own₁ own')
    · apply store_exec
      · exact fun _ e h => ⟨h.appsWritten, fun _ _ => h⟩
      · intro s value after events hs
        cases hi : s.apps.insert (fields.newApp id (rt.hashSecret secret)) with
        | error e =>
          simp only [AppFields.newApp] at hi
          simp only [hi] at hs
          cases hs
        | ok apps =>
          have hi' := hi
          simp only [AppFields.newApp] at hi'
          simp only [hi'] at hs
          cases hs
          exact ⟨.created hcall hi rfl, appsWritten_step rfl, by rintro e ⟨⟩⟩
    · rintro own₂ (e | _) ⟨hw₂, hs₂⟩
      · exact hs₁.trans (hs₂ e rfl)
      · apply Prog.safe_bind store_invalidateSecrets
        intro own₃ _ hd₃
        apply store_getApp.mono
        intro own₄ _ hs₄
        exact (hs₁.trans (hd₃.settles hw₂)).trans hs₄

theorem store_deleteApp {id : String} (hcall : call = .deleteApp id) :
    StoreSafe rt call own (deleteAppOp id) fun own' value =>
      Settles own own' ∧ (value = .ok () → WroteApps rt call own') := by
  unfold deleteAppOp
  apply Prog.safe_bind (P := fun own' value => own <+: own' ∧
    (∀ e, value = .error e → Settles own own') ∧
    (value = .ok () → ∃ step ∈ own', CommitsApps rt call step))
  · apply store_exec
    · exact fun _ e h => ⟨h.steps, fun _ _ => h, by simp⟩
    · intro s value after events hs
      dsimp only at hs
      cases hd : deleteApp s.jobs s.apps id with
      | error e => rw [hd] at hs; cases hs
      | ok out =>
        rw [hd] at hs
        cases hs
        exact ⟨.deleted hcall hd rfl, List.prefix_append own _, by rintro e ⟨⟩,
          fun _ => ⟨_, List.mem_append_right _ (List.mem_singleton_self _), .deleted hcall hd⟩⟩
  · rintro own₁ (e | _) ⟨hsteps, hs₁, hdeleted⟩
    · exact ⟨hs₁ e rfl, by simp⟩
    · apply Prog.safe_bind store_invalidateSecrets
      intro own₂ _ hd₂
      apply Prog.safe_bind store_invalidateActive
      intro own₃ _ hd₃
      obtain ⟨step, hstep, hcommits⟩ := hdeleted rfl
      exact ⟨hd₃.settles (hd₂.jobsWritten hsteps),
        fun _ => (hd₂.wroteApps hstep hcommits).mono hd₃.steps⟩

end Apps

end AutoDeploy
