import AutoDeploy.JobActionApps

namespace AutoDeploy

open Interleaving

section AdminCalls

variable {rt : Runtime} {call : Call} {own : List ServerStep}

theorem safe_createAppRequest {hashSecret : String → String}
    {req : AdminRequest AdminAPIAppRequest} :
    SafeFor rt call own (createAppRequest hashSecret req) fun own' _ =>
      Continues own own' ∧ True := by
  unfold createAppRequest
  split
  next => exact ⟨continues_refl own, trivial⟩
  next =>
    split
    next => exact ⟨continues_refl own, trivial⟩
    next =>
      dsimp only
      split
      next => exact ⟨continues_refl own, trivial⟩
      next =>
        apply safe_then safe_createApp
        intro own₁ value hc₁ _
        split
        next => exact ⟨hc₁, trivial⟩
        next => exact ⟨hc₁, trivial⟩
        next => exact ⟨hc₁, trivial⟩

theorem safe_manualDeployApp {id : String} {req : AdminRequest String}
    (hcall : call = .manualDeployApp id req) (fresh : insertsIn own = []) :
    SafeFor rt call own (manualDeployApp rt.maxPending id req) fun own' response =>
      match response with
      | .queued tag => ∃ row, QueuedRow id tag .manualDeploy own' row
      | _ => insertsIn own' = [] := by
  subst hcall
  unfold manualDeployApp
  split
  next => exact fresh
  next =>
    apply safe_then safe_getApp
    intro own₁ found hc₁ _
    have fresh₁ := hc₁.insertsIn.trans fresh
    cases found with
    | error e => exact fresh₁
    | ok app =>
      dsimp only
      split
      next => exact fresh₁
      next =>
        split
        next => exact fresh₁
        next tag hbody =>
          split
          next => exact fresh₁
          next =>
            apply Prog.safe_bind (safe_enqueueAs (.manualDeployApp hbody) fresh₁)
            intro own₂ value h₂
            match value, h₂ with
            | .ok _, h₂ => exact h₂
            | .error .duplicate, h₂ => exact h₂.inserts
            | .error .queueFull, h₂ => exact h₂.inserts
            | .error (.invalidTag _), h₂ => exact h₂.inserts
            | .error (.originalNotFound _), h₂ => exact h₂.inserts
            | .error (.random _), h₂ => exact h₂.inserts
            | .error (.sql _ _), h₂ => exact h₂.inserts

theorem safe_retryHistoryJob {jobID : String} {req : AdminRequest Unit}
    (hcall : call = .retryHistoryJob jobID req) (fresh : insertsIn own = []) :
    SafeFor rt call own (retryHistoryJob jobID req) fun own' response =>
      match response with
      | .retried retryJobID =>
        ∃ appID tag row, QueuedRow appID tag .manualRetry own' row ∧ row.id = retryJobID
      | _ => insertsIn own' = [] := by
  subst hcall
  unfold retryHistoryJob
  split
  next => exact fresh
  next =>
    apply safe_then safe_query
    intro own₁ found hc₁ _
    have fresh₁ := hc₁.insertsIn.trans fresh
    match found with
    | .error _ => exact fresh₁
    | .ok none => exact fresh₁
    | .ok (some job) =>
      apply safe_then safe_getApp
      intro own₂ found hc₂ _
      have fresh₂ := hc₂.insertsIn.trans fresh₁
      cases found with
      | error e => exact fresh₂
      | ok app =>
        dsimp only
        split
        next => exact fresh₂
        next =>
          apply Prog.safe_bind (safe_createRetryJob .retryHistoryJob fresh₂)
          intro own₃ value h₃
          match value, h₃ with
          | .ok _, ⟨row, hrow, hid⟩ => exact ⟨_, _, row, hrow, hid⟩
          | .error .duplicate, h₃ => exact h₃.inserts
          | .error .queueFull, h₃ => exact h₃.inserts
          | .error (.invalidTag _), h₃ => exact h₃.inserts
          | .error (.originalNotFound _), h₃ => exact h₃.inserts
          | .error (.random _), h₃ => exact h₃.inserts
          | .error (.sql _ _), h₃ => exact h₃.inserts

theorem safe_setAppEnv {quote : String → String} {appID : String} {vars : List EnvVar} :
    SafeFor rt call own (setAppEnv quote appID vars) fun own' _ => Continues own own' ∧ True := by
  unfold setAppEnv
  split
  next => exact ⟨continues_refl own, trivial⟩
  next =>
    apply safe_then (safe_execApps _)
    · rintro own₁ (e | _) hc₁ _
      · exact ⟨hc₁, trivial⟩
      · exact ⟨hc₁, trivial⟩
    · intro s value after events hs
      cases hs
      exact ⟨rfl, rfl, rfl⟩

theorem safe_setAppArgs {quote : String → String} {appID : String} {args : List String} :
    SafeFor rt call own (setAppArgs quote appID args) fun own' _ => Continues own own' ∧ True := by
  unfold setAppArgs
  split
  next => exact ⟨continues_refl own, trivial⟩
  next =>
    split
    next => exact ⟨continues_refl own, trivial⟩
    next =>
      apply safe_then (safe_execApps _)
      · rintro own₁ (e | _) hc₁ _
        · exact ⟨hc₁, trivial⟩
        · exact ⟨hc₁, trivial⟩
      · intro s value after events hs
        cases hs
        exact ⟨rfl, rfl, rfl⟩

theorem safe_saveAppEnv {quote : String → String} {id : String}
    {req : AdminRequest (List EnvVar)} :
    SafeFor rt call own (saveAppEnv quote id req) fun own' _ => Continues own own' ∧ True := by
  unfold saveAppEnv
  split
  next => exact ⟨continues_refl own, trivial⟩
  next =>
    apply safe_then safe_getApp
    rintro own₁ (e | app) hc₁ _
    · exact ⟨hc₁, trivial⟩
    · dsimp only
      split
      next => exact ⟨hc₁, trivial⟩
      next =>
        split
        next => exact ⟨hc₁, trivial⟩
        next =>
          apply safe_then safe_setAppEnv
          rintro own₂ (e | _) hc₂ _
          · exact ⟨hc₁.trans hc₂, trivial⟩
          · exact ⟨hc₁.trans hc₂, trivial⟩

theorem safe_saveAppArgs {quote : String → String} {id : String}
    {req : AdminRequest (List String)} :
    SafeFor rt call own (saveAppArgs quote id req) fun own' _ => Continues own own' ∧ True := by
  unfold saveAppArgs
  split
  next => exact ⟨continues_refl own, trivial⟩
  next =>
    apply safe_then safe_getApp
    rintro own₁ (e | app) hc₁ _
    · exact ⟨hc₁, trivial⟩
    · dsimp only
      split
      next => exact ⟨hc₁, trivial⟩
      next =>
        split
        next => exact ⟨hc₁, trivial⟩
        next =>
          apply safe_then safe_setAppArgs
          rintro own₂ (e | _) hc₂ _
          · exact ⟨hc₁.trans hc₂, trivial⟩
          · exact ⟨hc₁.trans hc₂, trivial⟩

end AdminCalls

end AutoDeploy
