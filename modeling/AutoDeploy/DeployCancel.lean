import AutoDeploy.DeployAgreement

namespace AutoDeploy

open Interleaving

/-- The run stops because it sees the cancel of its job. -/
def Stopped (events : List DeployEvent) : Prop :=
  events.any DeployEvent.stops = true ∨ events.any DeployEvent.stopsResolver = true

/-- Every cleanup, rollback and database step of the run was possible and succeeded. -/
structure Unhindered (disk : Disk) (events : List DeployEvent) : Prop where
  faults : events.any DeployEvent.faults = false
  possible : events.any DeployEvent.installs = true → disk.binary.isSome = true

/-- A run that a cancel stops ends as a canceled one exactly when the cancel did not reach it
while it resolved the asset. -/
theorem runJob_canceled_iff (i : Deploying) (disk : Disk)
    (hstopped : Stopped (emissions (i.runJob disk).steps))
    (hunhindered : Unhindered disk (emissions (i.runJob disk).steps)) :
    ((i.runJob disk).value.1.err = some errDeployCanceled ∧
      (i.runJob disk).state.row.status = .canceled) ↔
    (emissions (i.runJob disk).steps).any DeployEvent.stopsResolver = false := by
  have hend := i.runJob_end disk
  constructor
  · rintro ⟨-, hcanceled⟩
    exact (hend.clean hcanceled).2.2
  · intro hresolver
    have hstops : (emissions (i.runJob disk).steps).any DeployEvent.stops = true := by
      simpa [Stopped, hresolver] using hstopped
    have herr : (i.runJob disk).value.1.err = some errDeployCanceled := by
      by_contra hfinished
      rcases hend.stops hfinished hstops with hfaults | ⟨hnone, hinstalls⟩
      · rw [hunhindered.faults] at hfaults
        cases hfaults
      · have hexisted := hunhindered.possible hinstalls
        simp [hnone] at hexisted
    exact ⟨herr, hend.canceled.mpr herr⟩

/-- A machine where a cancel is accepted and seen while the resolver waits for an answer. -/
def cancelsResolver (n : ℕ) : Answer :=
  if n = 3 then
    { Answer.calm binaryB with
      cancel := true
      poll := true
      resolved := .error ⟨contextCanceled, false⟩ }
  else .calm binaryB

theorem cancelsResolver_fails :
    ¬ (Stopped (emissions ((deployingApp cancelsResolver).runJob ⟨none, none, none⟩).steps) →
      Unhindered ⟨none, none, none⟩
        (emissions ((deployingApp cancelsResolver).runJob ⟨none, none, none⟩).steps) →
      ((deployingApp cancelsResolver).runJob ⟨none, none, none⟩).value.1.err =
        some errDeployCanceled ∧
      ((deployingApp cancelsResolver).runJob ⟨none, none, none⟩).state.row.status = .canceled) := by
  intro h
  have hcanceled := h (Or.inr (by decide +kernel)) ⟨by decide +kernel, by decide +kernel⟩
  exact absurd hcanceled.1 (by decide +kernel)

/-- A machine where a cancel is accepted before the backup. -/
def cancelsBackup (n : ℕ) : Answer :=
  if n = 19 then { Answer.calm binaryB with cancel := true } else .calm binaryB

theorem runJob_canceled_iff_cancelsBackup :
    ((deployingApp cancelsBackup).runJob ⟨some binaryA, none, none⟩).value.1.err =
      some errDeployCanceled ∧
    ((deployingApp cancelsBackup).runJob ⟨some binaryA, none, none⟩).state.row.status =
      .canceled :=
  (runJob_canceled_iff (deployingApp cancelsBackup) ⟨some binaryA, none, none⟩
    (Or.inl (by decide +kernel)) ⟨by decide +kernel, by decide +kernel⟩).mpr (by decide +kernel)

end AutoDeploy
