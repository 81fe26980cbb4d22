import AutoDeploy.StoreActionApps

namespace AutoDeploy

open Interleaving

/-- How an admission resolved its token. -/
def ResolvedApp (hash : String) (own : List ServerStep) (result : AdmissionResult) : Prop :=
  (result.outcome = .error ∧ result.app = none) ∨
    ∃ m, secretHashes.Read own m ∧ (result.outcome = .unauthorized ↔ result.app = none) ∧
      result.app = m.find? fun app => app.webhookSecretHash == hash

/-- What the reply of a call says about the tables. -/
def StoreReturns (rt : Runtime) : Call → List ServerStep → Reply → Prop
  | .isDuplicate appID tag, own, .duplicate value => AnswersDuplicate appID tag own value
  | .getBySecretHash hash, own, .found value => AnswersHash hash own value
  | .admissionAdmit bearerToken _, own, .admitted result =>
    ResolvedApp (rt.hashSecret bearerToken) own result
  | call, own, .appWritten (.ok ()) => WroteApps rt call own
  | _, _, _ => True

section Handlers

variable {rt : Runtime} {call : Call} {own : List ServerStep}

theorem store_admissionAdmit {hashSecret : String → String} {maxPending : Int}
    {bearerToken tag : String} :
    StoreSafe rt call own (admissionAdmit hashSecret maxPending bearerToken tag) fun own' result =>
      Settles own own' ∧ ResolvedApp (hashSecret bearerToken) own' result := by
  unfold admissionAdmit resolveApp
  apply Prog.safe_bind store_getBySecretHash
  intro own₁ found ⟨hs₁, hanswer⟩
  match found, hanswer with
  | .error _, _ => exact ⟨hs₁, Or.inl ⟨rfl, rfl⟩⟩
  | .ok none, hanswer =>
    obtain ⟨m, hread, hfind⟩ := hanswer none rfl
    exact ⟨hs₁, Or.inr ⟨m, hread, by simp, hfind⟩⟩
  | .ok (some app), hanswer =>
    obtain ⟨m, hread, hfind⟩ := hanswer (some app) rfl
    have hresolved : ∀ {own' : List ServerStep} {result : AdmissionResult}, own₁ <+: own' →
        result.app = some app → result.outcome ≠ .unauthorized →
        ResolvedApp (hashSecret bearerToken) own' result := fun hsub happ hout =>
      Or.inr ⟨m, hread.mono hsub.subset, by simp [happ, hout], happ.trans hfind⟩
    dsimp only
    split
    next => exact ⟨hs₁, hresolved (List.prefix_refl _) rfl (by simp)⟩
    next =>
      apply Prog.safe_bind store_isDuplicate
      rintro own₂ (e | _ | _) ⟨hs₂, -⟩
      · exact ⟨hs₁.trans hs₂, hresolved hs₂.steps rfl (by simp)⟩
      · apply Prog.safe_bind store_enqueueAs
        intro own₃ value hs₃
        have hsub := (hs₂.trans hs₃).steps
        have hs := (hs₁.trans hs₂).trans hs₃
        split <;> exact ⟨hs, hresolved hsub rfl (by simp)⟩
      · exact ⟨hs₁.trans hs₂, hresolved hs₂.steps rfl (by simp)⟩

theorem store_createAppRequest {req : AdminRequest AdminAPIAppRequest}
    (hcall : call = .createAppRequest req) :
    StoreSafe rt call own (createAppRequest rt.hashSecret req) fun own' _ => Settles own own' := by
  subst hcall
  unfold createAppRequest
  split
  next => exact settles_refl own
  next =>
    split
    next => exact settles_refl own
    next body hbody =>
      dsimp only
      split
      next => exact settles_refl own
      next =>
        apply Prog.safe_bind (store_createApp (by simp [Call.appCreated, hbody]))
        intro own₁ value hs₁
        split
        next => exact hs₁
        next => exact hs₁
        next => exact hs₁

theorem store_manualDeployApp {maxPending : Int} {id : String} {req : AdminRequest String} :
    StoreSafe rt call own (manualDeployApp maxPending id req) fun own' _ => Settles own own' := by
  unfold manualDeployApp
  split
  next => exact settles_refl own
  next =>
    apply Prog.safe_bind store_getApp
    rintro own₁ (e | app) hs₁
    · exact hs₁
    · dsimp only
      split
      next => exact hs₁
      next =>
        split
        next => exact hs₁
        next =>
          split
          next => exact hs₁
          next =>
            apply Prog.safe_bind store_enqueueAs
            intro own₂ value hs₂
            split <;> exact hs₁.trans hs₂

theorem store_retryHistoryJob {jobID : String} {req : AdminRequest Unit} :
    StoreSafe rt call own (retryHistoryJob jobID req) fun own' _ => Settles own own' := by
  unfold retryHistoryJob
  split
  next => exact settles_refl own
  next =>
    apply Prog.safe_bind store_select
    rintro own₁ found ⟨hs₁, -⟩
    match found with
    | .error _ => exact hs₁
    | .ok none => exact hs₁
    | .ok (some job) =>
      apply Prog.safe_bind store_getApp
      rintro own₂ (e | app) hs₂
      · exact hs₁.trans hs₂
      · dsimp only
        split
        next => exact hs₁.trans hs₂
        next =>
          apply Prog.safe_bind store_createRetryJob
          intro own₃ value hs₃
          split <;> exact (hs₁.trans hs₂).trans hs₃

theorem store_saveAppEnv {quote : String → String} {id : String}
    {req : AdminRequest (List EnvVar)} (hcall : call = .saveAppEnv id req) :
    StoreSafe rt call own (saveAppEnv quote id req) fun own' _ => Settles own own' := by
  have hset : ∀ {own : List ServerStep} {vars : List EnvVar},
      StoreSafe rt call own (setAppEnv quote id vars) fun own' _ => Settles own own' := by
    intro own vars
    unfold setAppEnv
    split
    next => exact settles_refl own
    next =>
      apply Prog.safe_bind (P := fun own' _ => Settles own own')
      · apply store_exec
        · exact fun _ _ h => h
        · rintro s value after events ⟨⟩
          exact ⟨.savedEnv hcall rfl, settles_step rfl rfl⟩
      · rintro own₁ (e | _) hs₁
        · exact hs₁
        · exact hs₁
  unfold saveAppEnv
  split
  next => exact settles_refl own
  next =>
    apply Prog.safe_bind store_getApp
    rintro own₁ (e | app) hs₁
    · exact hs₁
    · dsimp only
      split
      next => exact hs₁
      next =>
        split
        next => exact hs₁
        next =>
          apply Prog.safe_bind hset
          intro own₂ value hs₂
          split <;> exact hs₁.trans hs₂

theorem store_saveAppArgs {quote : String → String} {id : String}
    {req : AdminRequest (List String)} (hcall : call = .saveAppArgs id req) :
    StoreSafe rt call own (saveAppArgs quote id req) fun own' _ => Settles own own' := by
  have hset : ∀ {own : List ServerStep} {args : List String},
      StoreSafe rt call own (setAppArgs quote id args) fun own' _ => Settles own own' := by
    intro own args
    unfold setAppArgs
    split
    next => exact settles_refl own
    next =>
      split
      next => exact settles_refl own
      next =>
        apply Prog.safe_bind (P := fun own' _ => Settles own own')
        · apply store_exec
          · exact fun _ _ h => h
          · rintro s value after events ⟨⟩
            exact ⟨.savedArgs hcall rfl, settles_step rfl rfl⟩
        · rintro own₁ (e | _) hs₁
          · exact hs₁
          · exact hs₁
  unfold saveAppArgs
  split
  next => exact settles_refl own
  next =>
    apply Prog.safe_bind store_getApp
    rintro own₁ (e | app) hs₁
    · exact hs₁
    · dsimp only
      split
      next => exact hs₁
      next =>
        split
        next => exact hs₁
        next =>
          apply Prog.safe_bind hset
          intro own₂ value hs₂
          split <;> exact hs₁.trans hs₂

end Handlers

/-- Every call only takes the actions of `StoreAction`, and it returns with both caches in
order. -/
theorem program_store (rt : Runtime) (call : Call) :
    StoreSafe rt call [] (rt.program call) fun own value =>
      Settles [] own ∧ StoreReturns rt call own value := by
  cases call with
  | enqueue appID tag =>
    exact Prog.safe_map (store_enqueueAs.mono fun _ _ h => ⟨h, trivial⟩)
  | enqueueManual appID tag =>
    exact Prog.safe_map (store_enqueueAs.mono fun _ _ h => ⟨h, trivial⟩)
  | createRetryJob originalJobID appID tag =>
    exact Prog.safe_map (store_createRetryJob.mono fun _ _ h => ⟨h, trivial⟩)
  | dequeueNext appID => exact Prog.safe_map (store_dequeueNext.mono fun _ _ h => ⟨h, trivial⟩)
  | markDone id success errMsg summary =>
    exact Prog.safe_map (store_markDone.mono fun _ _ h => ⟨h, trivial⟩)
  | saveJobLog id log => exact Prog.safe_map (store_saveJobLog.mono fun _ _ h => ⟨h, trivial⟩)
  | recoverStale => exact Prog.safe_map (store_recoverStale.mono fun _ _ h => ⟨h, trivial⟩)
  | requestJobCancel jobID =>
    exact Prog.safe_map (store_requestJobCancel.mono fun _ _ h => ⟨h, trivial⟩)
  | requestAppCancel appID =>
    exact Prog.safe_map (store_requestAppCancel.mono fun _ _ h => ⟨h, trivial⟩)
  | checkpoint jobID phase =>
    exact Prog.safe_map (store_checkpoint.mono fun _ _ h => ⟨h, trivial⟩)
  | deleteApp id =>
    apply Prog.safe_map
    apply (store_deleteApp rfl).mono
    rintro own (e | _) ⟨hs, hdeleted⟩
    · exact ⟨hs, trivial⟩
    · exact ⟨hs, hdeleted rfl⟩
  | admissionAdmit bearerToken tag => exact Prog.safe_map store_admissionAdmit
  | createApp fields secret =>
    exact Prog.safe_map ((store_createApp rfl).mono fun _ _ h => ⟨h, trivial⟩)
  | updateApp id fields secret enabled =>
    apply Prog.safe_map
    apply (store_updateApp rfl).mono
    rintro own (e | _) ⟨hs, hupdated⟩
    · exact ⟨hs, trivial⟩
    · exact ⟨hs, hupdated rfl⟩
  | rotateSecret id newSecret =>
    apply Prog.safe_map
    apply (store_updateApp rfl).mono
    rintro own (e | _) ⟨hs, hupdated⟩
    · exact ⟨hs, trivial⟩
    · exact ⟨hs, hupdated rfl⟩
  | setEnabled id enabled =>
    apply Prog.safe_map
    apply (store_updateApp rfl).mono
    rintro own (e | _) ⟨hs, hupdated⟩
    · exact ⟨hs, trivial⟩
    · exact ⟨hs, hupdated rfl⟩
  | listApps => exact Prog.safe_map (store_listApps.mono fun _ _ h => ⟨h, trivial⟩)
  | isDuplicate appID tag => exact Prog.safe_map store_isDuplicate
  | getBySecretHash hash => exact Prog.safe_map store_getBySecretHash
  | createAppRequest req =>
    exact Prog.safe_map ((store_createAppRequest rfl).mono fun _ _ h => ⟨h, trivial⟩)
  | manualDeployApp id req =>
    exact Prog.safe_map (store_manualDeployApp.mono fun _ _ h => ⟨h, trivial⟩)
  | retryHistoryJob jobID req =>
    exact Prog.safe_map (store_retryHistoryJob.mono fun _ _ h => ⟨h, trivial⟩)
  | saveAppEnv id req =>
    exact Prog.safe_map ((store_saveAppEnv rfl).mono fun _ _ h => ⟨h, trivial⟩)
  | saveAppArgs id req =>
    exact Prog.safe_map ((store_saveAppArgs rfl).mono fun _ _ h => ⟨h, trivial⟩)

theorem follows_active (rt : Runtime) : activeJobs.Follows rt.program where
  safe call := (program_store rt call).imp (fun _ _ h => h.movesActive) fun _ _ h =>
    h.1.active id

theorem follows_secrets (rt : Runtime) : secretHashes.Follows rt.program where
  safe call := (program_store rt call).imp (fun _ _ h => h.movesSecrets) fun _ _ h =>
    h.1.secrets id

/-- In a stretch of a history, the commit of a call and what came after it. -/
def CommittedIn (rt : Runtime) (call : Call) (history : ServerHistory) (w : ℕ) (step : ServerStep)
    (back : ServerHistory) : Prop :=
  CommitsApps rt call step ∧ ∃ front, history = front ++ .acted w call step :: back

section Runs

variable {rt : Runtime} {s₀ : Server} {cfg : ServerConfig}

/-- What every action of a run did to the tables, and what every return of a run says. -/
theorem store_explained (reach : rt.Reaches s₀ cfg) :
    Explained (StoreAction rt)
      (fun call own value => Settles [] own ∧ StoreReturns rt call own value) cfg.history :=
  reaches_explained (program_store rt) (fun _ _ _ _ _ => trivial) trivial reach

theorem acted_store (reach : rt.Reaches s₀ cfg) {t : ℕ} {call : Call} {step : ServerStep}
    (hm : .acted t call step ∈ cfg.history) : ∃ own, StoreAction rt call own step := by
  obtain ⟨pre, post, hsplit⟩ := List.append_of_mem hm
  exact ⟨_, store_explained reach pre _ post hsplit⟩

theorem returned_store (reach : rt.Reaches s₀ cfg) {t : ℕ} {call : Call} {value : Reply}
    (hm : .returned t call value ∈ cfg.history) :
    StoreReturns rt call (ownSteps t cfg.history) value := by
  obtain ⟨pre, post, hsplit⟩ := List.append_of_mem hm
  rw [ownSteps_final reach hsplit]
  exact (store_explained reach pre _ post hsplit).2

/-- The commit of a write that has returned, with the invalidation that it did before. -/
theorem returned_commits (reach : rt.Reaches s₀ cfg) {w : ℕ} {call : Call}
    (hreturned : .returned w call (.appWritten (.ok ())) ∈ cfg.history) :
    ∃ front step back, cfg.history = front ++ .acted w call step :: back ∧
      CommitsApps rt call step ∧ ∃ clear ∈ ownSteps w back, secretHashes.Clears clear := by
  have hwrote : WroteApps rt call (ownSteps w cfg.history) := by
    have h := returned_store reach hreturned
    cases call <;> exact h
  obtain ⟨own, step, own', hown, hcommits, hclears⟩ := hwrote
  obtain ⟨front, other, back, hsplit, rfl⟩ := ownSteps_split hown
  have hacted : .acted w other step ∈ cfg.history := by
    rw [hsplit]
    exact List.mem_append_right _ List.mem_cons_self
  have hcall : other = call := record_call reach hacted hreturned rfl
  exact ⟨front, step, back, hcall ▸ hsplit, hcommits, hclears⟩

end Runs

end AutoDeploy
