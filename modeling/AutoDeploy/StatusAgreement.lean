import AutoDeploy.HubConvergence

namespace AutoDeploy

/-- The snapshot has no status, and the page takes the phase for it: only at the end of a job is
this the status of a compact frame. -/
theorem text_eq_status_iff (phase : ProgressStage) :
    phase.text = progressStatusForStage phase ↔ phase.isTerminal = true := by
  cases phase with
  | queued => decide
  | downloading => decide
  | validating => decide
  | backingUp => decide
  | installing => decide
  | restarting => decide
  | healthcheck => decide
  | rollback => decide
  | succeeded => decide
  | failed => decide

theorem shown_status (heard : Bool) (snapshot : ProgressSnapshot) :
    (shown heard snapshot).status =
      if heard then progressStatusForStage snapshot.phase else snapshot.phase.text := by
  cases heard with
  | false => rfl
  | true => rfl

theorem shown_status_iff {heard heard' : Bool} {snapshot : ProgressSnapshot} :
    (shown heard snapshot).status = (shown heard' snapshot).status ↔
      heard = heard' ∨ snapshot.phase.isTerminal = true := by
  rw [shown_status, shown_status, ← text_eq_status_iff]
  cases heard with
  | false =>
    cases heard' with
    | false => simp
    | true => simp
  | true =>
    cases heard' with
    | false =>
      constructor
      · exact fun h => Or.inr h.symm
      · intro h
        obtain h | h := h
        · cases h
        · exact h.symm
    | true => simp

/-- Two pages agree on a job whose last update is published if both have heard an update of it,
or neither has, or the job is at its end. -/
theorem pages_agree_iff {owner : String → String} {actions : List HubAction} {c c' : ℕ}
    {appID : String} {snapshot : ProgressSnapshot} (hissued : ∀ a ∈ actions, a.Issued owner)
    (hc : ((AdminEventHub.run actions .empty).clients c).Drained)
    (hc' : ((AdminEventHub.run actions .empty).clients c').Drained)
    (hsettled : (AdminEventHub.run actions .empty).Settled appID snapshot) :
    ((AdminEventHub.run actions .empty).clients c).page.status snapshot.jobID =
        ((AdminEventHub.run actions .empty).clients c').page.status snapshot.jobID ↔
      AdminEventHub.heard c snapshot.jobID actions .empty =
        AdminEventHub.heard c' snapshot.jobID actions .empty ∨
      snapshot.phase.isTerminal = true := by
  have hi := run_invariant hissued
  rw [AdminEventState.status, AdminEventState.status, drained_entry hi hc hsettled,
    drained_entry hi hc' hsettled, Option.map_some, Option.map_some, Option.some.injEq,
    shown_status_iff]

theorem lateJoin_agree_iff :
    ((AdminEventHub.run lateJoin .empty).clients 0).page.status "1f" =
        ((AdminEventHub.run lateJoin .empty).clients 1).page.status "1f" ↔
      AdminEventHub.heard 0 "1f" lateJoin .empty = AdminEventHub.heard 1 "1f" lateJoin .empty ∨
      ProgressStage.isTerminal .downloading = true :=
  pages_agree_iff lateJoin_issued lateJoin_drained.1 lateJoin_drained.2
    ⟨lateJoin_snapshot, lateJoin_published "a0"⟩

/-- The page that heard the update has another status than the one that came after it. -/
theorem lateJoin_disagree :
    ((AdminEventHub.run lateJoin .empty).clients 0).Drained ∧
    ((AdminEventHub.run lateJoin .empty).clients 1).Drained ∧
    (AdminEventHub.run lateJoin .empty).Settled "a0" startedSnapshot ∧
    ((AdminEventHub.run lateJoin .empty).clients 0).page.status "1f" = some "in_progress" ∧
    ((AdminEventHub.run lateJoin .empty).clients 1).page.status "1f" = some "downloading" :=
  ⟨lateJoin_drained.1, lateJoin_drained.2, ⟨lateJoin_snapshot, lateJoin_published "a0"⟩, rfl, rfl⟩

end AutoDeploy
