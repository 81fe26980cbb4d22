import AutoDeploy.DeployRun

namespace AutoDeploy

open Interleaving

/-- How a run ends with the worker's `MarkDone` after it. -/
structure JobEnd (d₀ : Disk) (own : List DeployStep) (w : DeployWorld) (err : Option GoError) :
    Prop where
  disk : DiskEnd d₀ w.disk (emissions own) err
  canceled : w.row.status = .canceled ↔ err = some errDeployCanceled
  clean : w.row.status = .canceled → w.disk.binary = d₀.binary ∧ w.disk.tmp = none ∧
    (emissions own).any DeployEvent.stopsResolver = false
  succeeded : w.row.status = .succeeded → err = none
  stops : err ≠ some errDeployCanceled → (emissions own).any DeployEvent.stops = true →
    (emissions own).any DeployEvent.faults = true ∨
      (d₀.binary = none ∧ (emissions own).any DeployEvent.installs = true)

section Agreement

variable {d₀ : Disk} {own own' : List DeployStep} {w w' : DeployWorld} {err : Option GoError}

/-- What `MarkDone` does to the row: the guard leaves a row alone that no longer runs. -/
def markedRow (success : Bool) (errMsg : String) (summary : Option DownloadSummary)
    (row : JobRow) : JobRow :=
  if row.isRunning then row.markDone success errMsg summary else row

theorem queueMarkDone_wp {success : Bool} {errMsg : String} {summary : Option DownloadSummary} :
    (queueMarkDone success errMsg summary).Wp (fun own' w' markErr => ∃ row,
      Extends own own' w w' [.markedDone success markErr] ∧ w'.disk = w.disk ∧
        (row = w.row ∨ row = w.row.canceled) ∧
        (w'.row = row ∨ w'.row = markedRow success errMsg summary row)) own w := by
  apply wp_fallible
  · intro k text
    exact ⟨_, extends_call rfl rfl, rfl, meanwhile_row k w, Or.inl rfl⟩
  · intro k e h
    cases h
  · intro k after h
    cases h
    refine ⟨(w.meanwhile k).row, extends_call ?_ ?_, ?_, meanwhile_row k w, Or.inr ?_⟩
    · split <;> rfl
    · split <;> rfl
    · split <;> rfl
    · unfold markedRow
      split <;> rfl

theorem markedRow_status {success : Bool} {errMsg : String} {summary : Option DownloadSummary}
    {row : JobRow} (hrunning : row.isRunning = true) :
    (markedRow success errMsg summary row).status = if success then .succeeded else .failed := by
  simp [markedRow, hrunning, JobRow.markDone]

theorem markedRow_settled {success : Bool} {errMsg : String} {summary : Option DownloadSummary}
    {row : JobRow} (hsettled : row.isRunning = false) :
    markedRow success errMsg summary row = row := by
  simp [markedRow, hsettled]

/-- The job of a run that was not canceled, after the worker marked it. -/
theorem marked_running {errMsg : String} {summary : Option DownloadSummary} {row : JobRow}
    (hrunning : row.isRunning = true)
    (hrow : w.row = row ∨ w.row = markedRow err.isNone errMsg summary row) :
    w.row.status ≠ .canceled ∧ (w.row.status = .succeeded → err = none) := by
  rcases hrow with hrow | hrow
  · rcases isRunning_cases hrunning with hs | hs <;> simp [hrow, hs]
  · rw [hrow, markedRow_status hrunning]
    cases err <;> simp

theorem marked_settled {errMsg : String} {summary : Option DownloadSummary} {row : JobRow}
    (hsettled : row.isRunning = false)
    (hrow : w.row = row ∨ w.row = markedRow err.isNone errMsg summary row) : w.row = row := by
  rcases hrow with hrow | hrow
  · exact hrow
  · rw [hrow, markedRow_settled hsettled]

theorem DeployEnd.marked {errMsg : String} {summary : Option DownloadSummary} {row : JobRow}
    {markErr : Option GoError} (h : DeployEnd d₀ own w err)
    (hext : Extends own own' w w' [.markedDone err.isNone markErr]) (hdisk : w'.disk = w.disk)
    (hwait : row = w.row ∨ row = w.row.canceled)
    (hrow : w'.row = row ∨ w'.row = markedRow err.isNone errMsg summary row) :
    JobEnd d₀ own' w' err := by
  have hstill : Still [.markedDone err.isNone markErr] := rfl
  have hu := hstill.unmarked
  have hend : DiskEnd d₀ w'.disk (emissions own') err := by
    rw [hext.events]
    exact h.disk.append hext.binary hext.backup hu rfl
  have hstays : w.row.isRunning = false → w.row.canceled = w.row → w'.row = w.row := by
    intro hsettled hfixed
    have hsame : row = w.row := by
      rcases hwait with hwait | hwait
      · exact hwait
      · exact hwait.trans hfixed
    rw [← hsame] at hsettled ⊢
    exact marked_settled hsettled hrow
  cases h.status with
  | canceled stopped canceled binary tmp resolver _ _ _ =>
    have hkeeps : w'.row = w.row := by
      apply hstays
      · simp [JobRow.isRunning, JobStatus.isRunning, canceled]
      · simp [JobRow.canceled, canceled]
    refine ⟨hend, ?_, ?_, ?_, fun hfinished => absurd stopped hfinished⟩
    · simp [hkeeps, canceled, stopped]
    · refine fun _ => ⟨hext.binary.trans binary, hdisk ▸ tmp, ?_⟩
      simp [hext.events, resolver, hu.stopsResolver]
    · simp [hkeeps, canceled]
  | other finished status stops =>
    have hmarked : w'.row.status ≠ .canceled ∧ (w'.row.status = .succeeded → err = none) := by
      rcases status with hrunning | ⟨hfailed, -⟩
      · apply marked_running _ hrow
        rcases hwait with hwait | hwait
        · exact hwait ▸ hrunning
        · exact hwait ▸ (canceled_isRunning hrunning).1
      · have hkeeps : w'.row = w.row := by
          apply hstays
          · simp [JobRow.isRunning, JobStatus.isRunning, hfailed]
          · simp [JobRow.canceled, hfailed]
        simp [hkeeps, hfailed]
    refine ⟨hend, by simp [hmarked.1, finished], fun hc => absurd hc hmarked.1, hmarked.2, ?_⟩
    intro _
    simpa [hext.events, hstill.stops, hstill.faults, hu.installs] using stops

end Agreement

theorem Deploying.runJob_end (i : Deploying) (disk : Disk) :
    JobEnd disk (i.runJob disk).steps (i.runJob disk).state (i.runJob disk).value.1.err := by
  have hwp : (runDeploy i.deployment).Wp (fun own' w' value => JobEnd disk own' w' value.1.err)
      [] (.begins i.row disk i.tracker) := by
    unfold runDeploy
    apply Prog.wp_bind (deployArtifact_wp i.running)
    rintro own₁ w₁ exit hend
    apply Prog.wp_bind queueMarkDone_wp
    rintro own₂ w₂ markErr ⟨row, hext, hdisk, hwait, hrow⟩
    exact hend.marked hext hdisk hwait hrow
  simpa [runJob] using Prog.alone_wp i.answers hwp

/-- The status that the job ends with says which binary is at the path: the old one after a
cancel, and the whole artifact, which answered as active, after a success. -/
theorem runJob_agrees (i : Deploying) (disk : Disk) :
    let o := i.runJob disk
    (o.state.row.status = .canceled →
      o.state.disk.binary = disk.binary ∧ o.state.disk.tmp = none) ∧
    (o.state.row.status = .succeeded → ∃ art, Verified (emissions o.steps) art ∧
      o.state.disk.binary = some art ∧
      (∀ previous, disk.binary = some previous → o.state.disk.backup = some previous) ∧
      ∃ out, lastActivity (emissions o.steps) = some (out, none) ∧
        GoStrings.trimSpace out = "active") ∧
    (o.value.1.err = some errDeployCanceled → o.state.row.status = .canceled) := by
  have hend := i.runJob_end disk
  refine ⟨fun hc => ⟨(hend.clean hc).1, (hend.clean hc).2.1⟩, ?_, hend.canceled.mpr⟩
  intro hsucceeded
  have hnone := hend.succeeded hsucceeded
  cases hend.disk with
  | back failed => exact absurd hnone failed
  | stranded failed => exact absurd hnone failed
  | left art failed => exact absurd hnone failed
  | succeeded art done passed binary verified backup backsUp active =>
    refine ⟨art, verified, binary, ?_, active⟩
    intro previous hprevious
    simpa [backsUp, hprevious] using backup

end AutoDeploy
