import AutoDeploy.InterleavingTrace
import AutoDeploy.JobActionAdmin
import AutoDeploy.JobActionCancel

namespace AutoDeploy

open Interleaving

/-- What a return says about the steps that its call took. -/
def Returns (rt : Runtime) : Call → List ServerStep → Reply → Prop
  | .enqueue appID tag, own, .queued (.ok ()) => ∃ row, QueuedRow appID tag .webhook own row
  | .enqueue appID tag, own, .queued (.error e) => QueueRefused rt.maxPending appID tag own e
  | .enqueueManual appID tag, own, .queued (.ok ()) =>
    ∃ row, QueuedRow appID tag .manualDeploy own row
  | .enqueueManual appID tag, own, .queued (.error e) =>
    QueueRefused rt.maxPending appID tag own e
  | .createRetryJob _ appID tag, own, .retried (.ok jobID) =>
    ∃ row, QueuedRow appID tag .manualRetry own row ∧ row.id = jobID
  | .createRetryJob _ appID tag, own, .retried (.error e) =>
    QueueRefused rt.maxPending appID tag own e
  | .admissionAdmit _ tag, own, .admitted result =>
    if result.outcome = .queued then
      ∃ app, result.app = some app ∧ ∃ row, QueuedRow app.id tag .webhook own row
    else insertsIn own = [] ∧ (result.outcome = .duplicate →
      ∃ app, result.app = some app ∧ DuplicateSeen app.id tag own)
  | .dequeueNext appID, own, .dequeued (.ok picked) => DequeuedRow appID own picked
  | .dequeueNext _, own, .dequeued (.error _) => dequeuesIn own = []
  | .markDone id _ _ _, own, .written (.ok ()) => ∃ st ∈ own, FinishedIn id st
  | .requestJobCancel _, own, .jobCanceled (.ok result) => .cancelReported result ∈ emissions own
  | .requestAppCancel _, own, .appCanceled (.ok result) =>
    ∀ entry ∈ result.requested, .cancelReported entry ∈ emissions own
  | .manualDeployApp id _, own, .answered (.queued tag) =>
    ∃ row, QueuedRow id tag .manualDeploy own row
  | .retryHistoryJob _ _, own, .answered (.retried jobID) =>
    ∃ appID tag row, QueuedRow appID tag .manualRetry own row ∧ row.id = jobID
  | _, own, _ => insertsIn own = []

theorem safe_admissionAdmit {rt : Runtime} {call : Call} {own : List ServerStep}
    {bearerToken tag : String} (hcall : call = .admissionAdmit bearerToken tag)
    (fresh : insertsIn own = []) :
    SafeFor rt call own (admissionAdmit rt.hashSecret rt.maxPending bearerToken tag)
      fun own' result =>
      if result.outcome = .queued then
        ∃ app, result.app = some app ∧ ∃ row, QueuedRow app.id tag .webhook own' row
      else insertsIn own' = [] ∧ (result.outcome = .duplicate →
        ∃ app, result.app = some app ∧ DuplicateSeen app.id tag own') := by
  subst hcall
  unfold admissionAdmit
  apply safe_then safe_getBySecretHash
  intro own₁ found hc₁ _
  have fresh₁ := hc₁.insertsIn.trans fresh
  match found with
  | .error _ => exact ⟨fresh₁, by simp⟩
  | .ok none => exact ⟨fresh₁, by simp⟩
  | .ok (some app) =>
    simp only
    split
    next => exact ⟨fresh₁, by simp⟩
    next =>
      apply safe_then safe_isDuplicate
      intro own₂ duplicate hc₂ h₂
      have fresh₂ := hc₂.insertsIn.trans fresh₁
      match duplicate, h₂ with
      | .error _, _ => exact ⟨fresh₂, by simp⟩
      | .ok true, h₂ => exact ⟨fresh₂, fun _ => ⟨app, rfl, h₂ rfl⟩⟩
      | .ok false, _ =>
        apply Prog.safe_bind (safe_enqueueAs .admissionAdmit fresh₂)
        intro own₃ value h₃
        match value, h₃ with
        | .ok _, h₃ => exact ⟨app, rfl, h₃⟩
        | .error .duplicate, h₃ => exact ⟨h₃.inserts, fun _ => ⟨app, rfl, h₃.duplicate rfl⟩⟩
        | .error .queueFull, h₃ => exact ⟨h₃.inserts, by simp⟩
        | .error (.invalidTag _), h₃ => exact ⟨h₃.inserts, by simp⟩
        | .error (.originalNotFound _), h₃ => exact ⟨h₃.inserts, by simp⟩
        | .error (.random _), h₃ => exact ⟨h₃.inserts, by simp⟩
        | .error (.sql _ _), h₃ => exact ⟨h₃.inserts, by simp⟩

/-- Every call only takes the actions of `JobAction`, under any interleaving, and returns what
`Returns` says. -/
theorem program_safe (rt : Runtime) (call : Call) :
    (rt.program call).Safe (fun _ => True) (JobAction rt call) (Returns rt call) [] := by
  have quiet : ∀ {own : List ServerStep}, Continues [] own ∧ True → insertsIn own = [] :=
    fun h => h.1.insertsIn
  cases call with
  | enqueue appID tag =>
    apply Prog.safe_map
    apply (safe_enqueueAs .enqueue rfl).mono
    intro own value h
    cases value with
    | error e => exact h
    | ok _ => exact h
  | enqueueManual appID tag =>
    apply Prog.safe_map
    apply (safe_enqueueAs .enqueueManual rfl).mono
    intro own value h
    cases value with
    | error e => exact h
    | ok _ => exact h
  | createRetryJob originalJobID appID tag =>
    apply Prog.safe_map
    apply (safe_createRetryJob .createRetryJob rfl).mono
    intro own value h
    cases value with
    | error e => exact h
    | ok jobID => exact h
  | dequeueNext appID =>
    apply Prog.safe_map
    apply (safe_dequeueNext rfl rfl).mono
    intro own value h
    cases value with
    | error e => exact h
    | ok picked => exact h
  | markDone id success errMsg summary =>
    apply Prog.safe_map
    apply (safe_markDone rfl).mono
    intro own value h
    cases value with
    | error e => exact h.1.insertsIn
    | ok _ => exact h.2 rfl
  | saveJobLog id log => exact Prog.safe_map ((safe_saveJobLog rfl).mono fun _ _ h => quiet h)
  | recoverStale => exact Prog.safe_map ((safe_recoverStale rfl).mono fun _ _ h => quiet h)
  | requestJobCancel jobID =>
    apply Prog.safe_map
    apply (safe_requestJobCancel rfl).mono
    intro own value h
    cases value with
    | error e => exact h
    | ok result => exact h
  | requestAppCancel appID =>
    apply Prog.safe_map
    apply (safe_requestAppCancel rfl).mono
    intro own value h
    cases value with
    | error e => exact h
    | ok result => exact h
  | checkpoint jobID phase =>
    exact Prog.safe_map ((safe_checkpoint rfl).mono fun _ _ h => quiet h)
  | deleteApp id => exact Prog.safe_map ((safe_deleteApp rfl).mono fun _ _ h => quiet h)
  | admissionAdmit bearerToken tag =>
    apply Prog.safe_map
    exact safe_admissionAdmit rfl rfl
  | createApp fields secret => exact Prog.safe_map (safe_createApp.mono fun _ _ h => quiet h)
  | updateApp id fields secret enabled =>
    exact Prog.safe_map (safe_updateApp.mono fun _ _ h => quiet h)
  | rotateSecret id newSecret => exact Prog.safe_map (safe_updateApp.mono fun _ _ h => quiet h)
  | setEnabled id enabled => exact Prog.safe_map (safe_updateApp.mono fun _ _ h => quiet h)
  | listApps => exact Prog.safe_map (safe_listApps.mono fun _ _ h => quiet h)
  | isDuplicate appID tag => exact Prog.safe_map (safe_isDuplicate.mono fun _ _ h => h.1.insertsIn)
  | getBySecretHash hash => exact Prog.safe_map (safe_getBySecretHash.mono fun _ _ h => quiet h)
  | createAppRequest req => exact Prog.safe_map (safe_createAppRequest.mono fun _ _ h => quiet h)
  | manualDeployApp id req =>
    apply Prog.safe_map
    apply (safe_manualDeployApp rfl rfl).mono
    intro own response h
    cases response <;> exact h
  | retryHistoryJob jobID req =>
    apply Prog.safe_map
    apply (safe_retryHistoryJob rfl rfl).mono
    intro own response h
    cases response <;> exact h
  | saveAppEnv id req => exact Prog.safe_map (safe_saveAppEnv.mono fun _ _ h => quiet h)
  | saveAppArgs id req => exact Prog.safe_map (safe_saveAppArgs.mono fun _ _ h => quiet h)

section Runs

variable {rt : Runtime} {s₀ : Server} {cfg : ServerConfig}

/-- Induction over the runs of the server. -/
theorem server_invariant {J : Server → List (Record Server StoreEvent Reply Call) → Prop}
    (start : J s₀ [])
    (called : ∀ s history t call, J s history → J s (history ++ [.called t call]))
    (acted : ∀ history t call step, J step.before history →
      JobAction rt call (ownSteps t history) step → J step.after (history ++ [.acted t call step]))
    (returned : ∀ s history t call value, J s history →
      Returns rt call (ownSteps t history) value → J s (history ++ [.returned t call value]))
    (reach : rt.Reaches s₀ cfg) : J cfg.shared cfg.history :=
  reaches_invariant (program_safe rt) (fun _ _ _ _ _ => trivial) trivial start called
    (fun history t call step _ => acted history t call step)
    (fun s history t call value _ => returned s history t call value) reach

/-- What every action of a run did to the jobs, and what every return of a run means. -/
theorem server_explained (reach : rt.Reaches s₀ cfg) :
    Explained (JobAction rt) (Returns rt) cfg.history :=
  reaches_explained (program_safe rt) (fun _ _ _ _ _ => trivial) trivial reach

/-- What one action of a run did, known from its place in the history. -/
theorem acted_action (reach : rt.Reaches s₀ cfg) {t : ℕ} {call : Call} {step : ServerStep}
    (hm : .acted t call step ∈ cfg.history) : ∃ own, JobAction rt call own step := by
  obtain ⟨pre, post, hsplit⟩ := List.append_of_mem hm
  exact ⟨_, server_explained reach pre _ post hsplit⟩

theorem steps_action (reach : rt.Reaches s₀ cfg) {step : ServerStep}
    (hm : step ∈ steps cfg.history) : ∃ call own, JobAction rt call own step := by
  obtain ⟨t, call, hm⟩ := mem_steps.mp hm
  exact ⟨call, acted_action reach hm⟩

end Runs

end AutoDeploy
