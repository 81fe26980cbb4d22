import AutoDeploy.JobActionQueue

namespace AutoDeploy

open Interleaving

section Cancel

variable {rt : Runtime} {call : Call} {own : List ServerStep} {α : Type}

/-- A cancel request in one transaction: what it reported is in the log of events. -/
theorem safe_cancel {statement : Server → Except SqlError (α × Server × List StoreEvent)}
    (reports : α → List CancelJobResult)
    (cancels : (∃ jobID, call = .requestJobCancel jobID) ∨ ∃ appID, call = .requestAppCancel appID)
    (lawful : ∀ s value after events, statement s = .ok (value, after, events) →
      ∃ chosen : JobRow → Bool,
        after.jobs.rows = s.jobs.rows.map (fun row => if chosen row then row.canceled else row) ∧
        (∀ result ∈ reports value, result.outcome = .pendingCanceled → ∃ row ∈ s.jobs.rows,
          row.id = result.jobID ∧ row.status = .pending ∧ chosen row = true) ∧
        events = (reports value).map .cancelReported ∧ after.activeCache = s.activeCache) :
    SafeFor rt call own (exec .other statement) fun own' value =>
      match value with
      | .ok value => ∀ result ∈ reports value, .cancelReported result ∈ emissions own'
      | .error _ => insertsIn own' = insertsIn own := by
  apply safe_exec
  · intro s text
    simp [insertsIn, emissions]
  · intro s e _
    simp [insertsIn, emissions]
  · intro s value after events hs
    obtain ⟨chosen, hrows, hpending, rfl, hcache⟩ := lawful s value after events hs
    refine ⟨.canceled cancels hrows hpending rfl hcache, ?_⟩
    intro result hm
    rw [emissions_append, emissions_singleton]
    exact List.mem_append_right _ (List.mem_map_of_mem hm)

theorem safe_requestJobCancel {jobID : String} (hcall : call = .requestJobCancel jobID) :
    SafeFor rt call own (requestJobCancel rt.quote jobID) fun own' value =>
      match value with
      | .ok result => .cancelReported result ∈ emissions own'
      | .error _ => insertsIn own' = insertsIn own := by
  unfold requestJobCancel
  apply Prog.safe_bind (safe_cancel (fun value => [value.1]) (Or.inl ⟨jobID, hcall⟩) _)
  · intro own₁ value h₁
    match value, h₁ with
    | .error _, h₁ => exact h₁
    | .ok (result, false), h₁ => exact h₁ result (by simp)
    | .ok (result, true), h₁ =>
      apply safe_then safe_invalidateActiveJobsCache
      intro own₂ _ hc₂ _
      apply safe_then (safe_broadcastAll result.events)
      intro own₃ _ hc₃ _
      exact hc₃.emissions_mem (hc₂.emissions_mem (h₁ result (by simp)))
  · intro s value after events hs
    dsimp only at hs
    cases hr : s.jobs.requestJobCancel rt.quote jobID with
    | error e => rw [hr] at hs; cases hs
    | ok out =>
      rw [hr] at hs
      cases hs
      cases hf : s.jobs.find? jobID with
      | none =>
        rw [Jobs.requestJobCancel_none hf] at hr
        cases hr
        exact ⟨fun _ => false, by simp, by simp, rfl, rfl⟩
      | some job =>
        obtain ⟨hresult, hrows⟩ := Jobs.requestJobCancel_some hf hr
        have hchosen : out.2.rows = s.jobs.rows.map fun row =>
            if decide (row = job) then row.canceled else row := by
          rw [hrows]
          apply List.map_congr_left
          intro row _
          by_cases he : row = job <;> simp [he]
        refine ⟨fun row => decide (row = job), hchosen, ?_, rfl, rfl⟩
        intro result hm hp
        rw [List.mem_singleton] at hm
        rw [hm, hresult] at hp ⊢
        exact ⟨job, (Jobs.find?_eq_some.mp hf).1, (Jobs.cancelResult_jobID _ job).symm,
          Jobs.cancelResult_pending hp, by simp⟩

theorem safe_requestAppCancel {appID : String} (hcall : call = .requestAppCancel appID) :
    SafeFor rt call own (requestAppCancel rt.quote appID) fun own' value =>
      match value with
      | .ok result => ∀ entry ∈ result.requested, .cancelReported entry ∈ emissions own'
      | .error _ => insertsIn own' = insertsIn own := by
  unfold requestAppCancel
  apply Prog.safe_bind (safe_cancel CancelAppResult.requested
    (Or.inr ⟨appID, hcall⟩) _)
  · intro own₁ value h₁
    match value, h₁ with
    | .error _, h₁ => exact h₁
    | .ok result, h₁ =>
      apply safe_then safe_invalidateActiveJobsCache
      intro own₂ _ hc₂ _
      apply safe_then (safe_publishAll result.requested)
      intro own₃ _ hc₃ _ entry hm
      exact hc₃.emissions_mem (hc₂.emissions_mem (h₁ entry hm))
  · intro s value after events hs
    dsimp only at hs
    cases hr : s.jobs.requestAppCancel rt.quote appID with
    | error e => rw [hr] at hs; cases hs
    | ok out =>
      rw [hr] at hs
      cases hs
      obtain ⟨hreq, hrows⟩ := Jobs.requestAppCancel_ok hr
      refine ⟨fun row => decide (row.appID = appID), by simpa using hrows, ?_, rfl, rfl⟩
      intro result hm hp
      rw [hreq] at hm
      obtain ⟨row, hrow, rfl⟩ := List.mem_map.mp hm
      obtain ⟨hmem, happ⟩ := Jobs.jobsOfApp_mem.mp hrow
      exact ⟨row, hmem, (Jobs.cancelResult_jobID _ row).symm, Jobs.cancelResult_pending hp,
        by simp [happ]⟩

theorem safe_checkpoint {jobID : String} {phase : DeployPhase}
    (hcall : call = .checkpoint jobID phase) :
    SafeFor rt call own (checkpoint jobID phase) fun own' _ => Continues own own' ∧ True := by
  subst hcall
  unfold checkpoint
  apply safe_then safe_query
  intro own₁ found hc₁ _
  match found with
  | .error _ => exact ⟨hc₁, trivial⟩
  | .ok none => exact ⟨hc₁, trivial⟩
  | .ok (some status) =>
    simp only
    cases hm : (cancelDecisionForStatus jobID status phase).marks status with
    | none => exact ⟨hc₁, trivial⟩
    | some terminal =>
      have hend := (marks_terminal hm).2
      apply safe_then (P := fun _ _ => True)
      · apply safe_then (safe_execJobs
          (fun row => row.id == jobID && row.status == .cancelRequested)
          (JobRow.setStatus terminal _) (fun _ => rfl) (fun _ => rfl) (fun _ => rfl)
          (fun _ => rfl) _)
        · intro own₂ _ hc₂ _
          apply safe_then safe_invalidateActiveJobsCache
          intro own₃ _ hc₃ _
          exact ⟨hc₂.trans hc₃, trivial⟩
        · intro row hrow
          obtain ⟨hid, hs⟩ := Bool.and_eq_true_iff.mp hrow
          exact ⟨by simpa using hid, by simpa using hs, _, _, hend, rfl⟩
      · intro own₂ result hc₂ _
        cases result with
        | error e => exact ⟨hc₁.trans hc₂, trivial⟩
        | ok _ =>
          apply safe_then safe_broadcastCancelEvent
          intro own₃ _ hc₃ _
          exact ⟨(hc₁.trans hc₂).trans hc₃, trivial⟩

end Cancel

end AutoDeploy
