import AutoDeploy.JobActionQueue

namespace AutoDeploy

open Interleaving

section AppCalls

variable {rt : Runtime} {call : Call} {own : List ServerStep} {α η : Type}

theorem safe_readSecretHashCache :
    SafeFor rt call own readSecretHashCache fun own' _ => Continues own own' ∧ True :=
  Prog.safe_atomic fun _ _ _ =>
    ⟨.quiet rfl (by simp) (Or.inl rfl), continues_step (by simp), trivial⟩

theorem safe_lockSecretHashCache :
    SafeFor rt call own lockSecretHashCache fun own' _ => Continues own own' ∧ True :=
  Prog.safe_await fun _ _ _ _ =>
    ⟨.quiet rfl (by simp) (Or.inl rfl), continues_step (by simp), trivial⟩

theorem safe_unlockSecretHashCache :
    SafeFor rt call own unlockSecretHashCache fun own' _ => Continues own own' ∧ True :=
  Prog.safe_atomic fun _ _ _ =>
    ⟨.quiet rfl (by simp) (Or.inl rfl), continues_step (by simp), trivial⟩

theorem safe_storeSecretHashCache {snapshot : List App} :
    SafeFor rt call own (storeSecretHashCache snapshot) fun own' _ => Continues own own' ∧ True :=
  Prog.safe_atomic fun _ _ _ =>
    ⟨.quiet rfl (by simp) (Or.inl rfl), continues_step (by simp), trivial⟩

theorem safe_invalidateSecretHashCache :
    SafeFor rt call own invalidateSecretHashCache fun own' _ => Continues own own' ∧ True :=
  Prog.safe_await fun _ _ _ _ =>
    ⟨.quiet rfl (by simp) (Or.inl rfl), continues_step (by simp), trivial⟩

/-- A write to the apps alone. -/
theorem safe_execApps {other : String → η}
    {statement : Server → Except η (α × Server × List StoreEvent)}
    (apart : ∀ s value after events, statement s = .ok (value, after, events) →
      after.jobs = s.jobs ∧ after.activeCache = s.activeCache ∧ events = []) :
    SafeFor rt call own (exec other statement) fun own' _ => Continues own own' ∧ True := by
  apply safe_exec
  · intro s text
    exact ⟨continues_step (by simp), trivial⟩
  · intro s e _
    exact ⟨continues_step (by simp), trivial⟩
  · intro s value after events hs
    obtain ⟨hjobs, hcache, rfl⟩ := apart s value after events hs
    exact ⟨.quiet hjobs (by simp) (Or.inl hcache), continues_step (by simp), trivial⟩

theorem safe_getBySecretHash {hash : String} :
    SafeFor rt call own (getBySecretHash hash) fun own' _ => Continues own own' ∧ True := by
  unfold getBySecretHash
  apply safe_then (P := fun _ _ => True)
  · unfold loadSecretHashCache
    apply safe_then safe_readSecretHashCache
    intro own₁ cached hc₁ _
    cases cached with
    | some m => exact ⟨hc₁, trivial⟩
    | none =>
      apply safe_then safe_lockSecretHashCache
      intro own₂ _ hc₂ _
      apply safe_then safe_readSecretHashCache
      intro own₃ cached hc₃ _
      have hc := (hc₁.trans hc₂).trans hc₃
      cases cached with
      | some m =>
        apply safe_then safe_unlockSecretHashCache
        intro own₄ _ hc₄ _
        exact ⟨hc.trans hc₄, trivial⟩
      | none =>
        apply safe_then safe_query
        intro own₄ found hc₄ _
        cases found with
        | error e =>
          apply safe_then safe_unlockSecretHashCache
          intro own₅ _ hc₅ _
          exact ⟨(hc.trans hc₄).trans hc₅, trivial⟩
        | ok m =>
          apply safe_then safe_storeSecretHashCache
          intro own₅ _ hc₅ _
          apply safe_then safe_unlockSecretHashCache
          intro own₆ _ hc₆ _
          exact ⟨((hc.trans hc₄).trans hc₅).trans hc₆, trivial⟩
  · intro own₁ value hc₁ _
    cases value with
    | error e => exact ⟨hc₁, trivial⟩
    | ok m => exact ⟨hc₁, trivial⟩

theorem safe_listApps : SafeFor rt call own listApps fun own' _ => Continues own own' ∧ True := by
  unfold listApps
  apply safe_then safe_query
  intro own₁ found hc₁ _
  cases found with
  | error e => exact ⟨hc₁, trivial⟩
  | ok apps => exact ⟨hc₁, trivial⟩

theorem safe_getApp {id : String} :
    SafeFor rt call own (getApp id) fun own' _ => Continues own own' ∧ True := by
  unfold getApp
  apply safe_then safe_query
  rintro own₁ (e | _ | app) hc₁ _
  · exact ⟨hc₁, trivial⟩
  · exact ⟨hc₁, trivial⟩
  · exact ⟨hc₁, trivial⟩

theorem safe_updateApp {context id : String} {set : App → App} :
    SafeFor rt call own (updateApp context id set) fun own' _ => Continues own own' ∧ True := by
  unfold updateApp
  apply safe_then (safe_execApps _)
  · intro own₁ value hc₁ _
    cases value with
    | error e => exact ⟨hc₁, trivial⟩
    | ok n =>
      simp only
      split
      next => exact ⟨hc₁, trivial⟩
      next =>
        apply safe_then safe_invalidateSecretHashCache
        intro own₂ _ hc₂ _
        exact ⟨hc₁.trans hc₂, trivial⟩
  · intro s value after events hs
    cases hu : s.apps.update id set with
    | error e => rw [hu] at hs; cases hs
    | ok out => rw [hu] at hs; cases hs; exact ⟨rfl, rfl, rfl⟩

theorem safe_createApp {hashSecret : String → String} {fields : AppFields} {secret : String} :
    SafeFor rt call own (createApp hashSecret fields secret) fun own' _ =>
      Continues own own' ∧ True := by
  unfold createApp
  apply safe_then safe_generateJobID
  intro own₁ id hc₁ _
  cases id with
  | error e => exact ⟨hc₁, trivial⟩
  | ok id =>
    apply safe_then (safe_execApps _)
    · intro own₂ value hc₂ _
      cases value with
      | error e => exact ⟨hc₁.trans hc₂, trivial⟩
      | ok _ =>
        apply safe_then safe_invalidateSecretHashCache
        intro own₃ _ hc₃ _
        apply safe_getApp.mono
        intro own₄ found h₄
        exact ⟨((hc₁.trans hc₂).trans hc₃).trans h₄.1, trivial⟩
    · intro s value after events hs
      generalize s.apps.insert _ = inserted at hs
      cases inserted with
      | error e => cases hs
      | ok apps => cases hs; exact ⟨rfl, rfl, rfl⟩

theorem safe_deleteApp {id : String} (hcall : call = .deleteApp id) :
    SafeFor rt call own (deleteAppOp id) fun own' _ => Continues own own' ∧ True := by
  subst hcall
  unfold deleteAppOp
  apply safe_then (P := fun _ _ => True)
  · apply safe_exec
    · intro s text
      exact ⟨continues_step (by simp), trivial⟩
    · intro s e _
      exact ⟨continues_step (by simp), trivial⟩
    · intro s value after events hs
      cases hd : deleteApp s.jobs s.apps id with
      | error e => rw [hd] at hs; cases hs
      | ok out =>
        rw [hd] at hs
        cases hs
        obtain ⟨hidle, hrows⟩ := deleteApp_ok hd
        exact ⟨.deleted rfl hidle hrows rfl rfl, continues_step (by simp), trivial⟩
  · intro own₁ value hc₁ _
    cases value with
    | error e => exact ⟨hc₁, trivial⟩
    | ok _ =>
      apply safe_then safe_invalidateSecretHashCache
      intro own₂ _ hc₂ _
      apply safe_then safe_invalidateActiveJobsCache
      intro own₃ _ hc₃ _
      exact ⟨(hc₁.trans hc₂).trans hc₃, trivial⟩

end AppCalls

end AutoDeploy
