import AutoDeploy.DeployDownload

namespace AutoDeploy

open Interleaving

/-- The phases with which a deploy asks whether it should stop. -/
def DeployPhase.asks : DeployPhase → Bool
  | .downloading | .downloaded | .validating | .backingUp | .backupComplete | .installing
  | .restarting | .healthcheck => true
  | _ => false

/-- The phases with which a deploy reports how a cancel ended, and the status that they give. -/
def DeployPhase.concludes : DeployPhase → Option JobStatus
  | .cleanupComplete | .rollbackComplete => some .canceled
  | .cleanupFailed | .rollbackFailed | .systemInconsistent => some .failed
  | _ => none

section Checkpoint

variable {control : Bool} {own : List DeployStep} {w : DeployWorld} {jobID : String}
  {phase : DeployPhase}

theorem marks_inProgress :
    (cancelDecisionForStatus jobID .inProgress phase).marks .inProgress = none :=
  rfl

theorem marks_asking (hphase : phase.asks = true) :
    (cancelDecisionForStatus jobID .cancelRequested phase).marks .cancelRequested = none := by
  cases phase <;> first | rfl | simp [DeployPhase.asks] at hphase

theorem marks_concluding {status : JobStatus} (hphase : phase.concludes = some status) :
    (cancelDecisionForStatus jobID .cancelRequested phase).marks .cancelRequested =
      some status := by
  cases phase <;> first | exact hphase | simp [DeployPhase.concludes] at hphase

/-- A checkpoint that asks leaves the job as it is. -/
theorem controlCheckpoint_ask (hrunning : w.row.isRunning = true) (hphase : phase.asks = true) :
    (controlCheckpoint jobID phase).Wp (fun own' w' result => ∃ answered,
      Kept control own w (fun _ => [.statusRead phase answered]) own' w' result ∧
        ((∃ e, answered = .error e ∧ result = .error e ∧ e.Foreign) ∨
          ∃ decision, result = .ok decision ∧
            ((answered = .ok .inProgress ∧ decision.cancelRequested = false) ∨
              (answered = .ok .cancelRequested ∧ decision.cancelRequested = true ∧
                w'.row.status = .cancelRequested)))) own w := by
  unfold controlCheckpoint
  apply Prog.wp_bind readStatus_wp
  rintro own₁ w₁ answered ⟨hkept, ⟨text, rfl⟩ | rfl⟩
  · exact ⟨_, hkept, Or.inl ⟨_, rfl, rfl, foreign_new text⟩⟩
  · rcases isRunning_cases (hkept.1.running hrunning) with hs | hs
    · simp only [hs] at hkept ⊢
      rw [marks_inProgress]
      have hgo : (cancelDecisionForStatus jobID .inProgress phase).cancelRequested = false := by
        rw [← Bool.not_eq_true, cancelRequested_iff]
        decide
      exact ⟨_, hkept, Or.inr ⟨_, rfl, Or.inl ⟨rfl, hgo⟩⟩⟩
    · simp only [hs] at hkept ⊢
      rw [marks_asking hphase]
      have hstop := (cancelRequested_iff jobID .cancelRequested phase).mpr rfl
      exact ⟨_, hkept, Or.inr ⟨_, rfl, Or.inr ⟨rfl, hstop, hs⟩⟩⟩

theorem writeTerminal_wp {status : JobStatus} {message : String}
    (hrequested : w.row.status = .cancelRequested) :
    (writeTerminal phase status message).Wp (fun own' w' err =>
      Extends own own' w w' [.markedTerminal phase status err] ∧ w'.disk = w.disk ∧
        ((err = none ∧ w'.row.status = status) ∨
          ∃ e, err = some e ∧ e.Foreign ∧ w'.row.status = .cancelRequested)) own w := by
  have hstays : ∀ k, (w.meanwhile k).row.status = .cancelRequested := by
    intro k
    rcases meanwhile_row k w with hrow | hrow
    · rw [hrow, hrequested]
    · simp [hrow, JobRow.canceled, hrequested]
  apply wp_fallible
  · intro k text
    exact ⟨extends_call rfl rfl, rfl, Or.inr ⟨_, rfl, foreign_new text, hstays k⟩⟩
  · intro k e h
    cases h
  · intro k after h
    simp only [hstays k, ↓reduceIte, Except.ok.injEq] at h
    subst h
    exact ⟨extends_call rfl rfl, rfl, Or.inl ⟨rfl, rfl⟩⟩

/-- A checkpoint that reports marks the job, or returns the error of the database. -/
theorem controlCheckpoint_conclude {status : JobStatus}
    (hrequested : w.row.status = .cancelRequested) (hphase : phase.concludes = some status) :
    (controlCheckpoint jobID phase).Wp (fun own' w' result => ∃ events,
      Extends own own' w w' events ∧ w'.disk = w.disk ∧
        Aside events ∧
        ((∃ e, result = .error e ∧ e.Foreign ∧ w'.row.status = .cancelRequested ∧
            events.any DeployEvent.faults = true) ∨
          ∃ decision, result = .ok decision ∧ w'.row.status = status ∧
            events.any DeployEvent.faults = false)) own w := by
  have haside : ∀ answered, (DeployEvent.statusRead phase answered).aside = true := by
    intro answered
    cases phase <;> first
      | (cases answered <;> rfl)
      | simp [DeployPhase.concludes] at hphase
  unfold controlCheckpoint
  apply Prog.wp_bind (@readStatus_wp true _ _ _)
  rintro own₁ w₁ answered ⟨⟨hl₁, hdisk₁⟩, ⟨text, rfl⟩ | rfl⟩
  · refine ⟨_, hl₁.toExtends, hdisk₁, by simp [haside], Or.inl ⟨_, rfl, foreign_new text, ?_, rfl⟩⟩
    exact hl₁.requested hrequested
  · have hs := hl₁.requested hrequested
    simp only [hs] at hl₁ ⊢
    rw [marks_concluding hphase]
    apply Prog.wp_bind (writeTerminal_wp hs)
    rintro own₂ w₂ err ⟨hl₂, hdisk₂, ⟨rfl, hstatus⟩ | ⟨e, rfl, hforeign, hstatus⟩⟩
    · refine ⟨_, hl₁.toExtends.trans hl₂, hdisk₂.trans hdisk₁, ?_, Or.inr ⟨_, rfl, hstatus, rfl⟩⟩
      simp [haside]
      rfl
    · refine ⟨_, hl₁.toExtends.trans hl₂, hdisk₂.trans hdisk₁, ?_,
        Or.inl ⟨_, rfl, hforeign, hstatus, ?_⟩⟩
      · simp [haside]
        rfl
      · simp [DeployEvent.faults]

/-- How a cancel ends: with the status that the checkpoint gives, or with an error of the
database and the job still waiting for its end. -/
theorem concludeCancel_wp {status : JobStatus} {err : GoError}
    (hrequested : w.row.status = .cancelRequested) (hphase : phase.concludes = some status) :
    (concludeCancel jobID phase err).Wp (fun own' w' e => ∃ events,
      Extends own own' w w' events ∧ w'.disk = w.disk ∧
        Aside events ∧
        ((e.Foreign ∧ w'.row.status = .cancelRequested ∧
            events.any DeployEvent.faults = true) ∨
          (e = err ∧ w'.row.status = status ∧
            events.any DeployEvent.faults = false))) own w := by
  unfold concludeCancel
  apply Prog.wp_bind (controlCheckpoint_conclude hrequested hphase)
  rintro own' w' result ⟨events, hext, hdisk, haside,
    ⟨e, rfl, hforeign, hstatus, hfault⟩ | ⟨decision, rfl, hstatus, hfaults⟩⟩
  · exact ⟨events, hext, hdisk, haside, Or.inl ⟨hforeign, hstatus, hfault⟩⟩
  · exact ⟨events, hext, hdisk, haside, Or.inr ⟨rfl, hstatus, hfaults⟩⟩

end Checkpoint

end AutoDeploy
