import AutoDeploy.DeployRun

namespace AutoDeploy

open Interleaving

/-- The run came to no failure that the code answers without putting the previous binary back,
or what it left at the path has the content of that binary. -/
def Answered (previous : Content) (events : List DeployEvent) : Prop :=
  events.any DeployEvent.strands = false ∧
    (events.any DeployEvent.abandons = true → artifact events = some previous)

theorem DiskEnd.restored_iff {d₀ disk : Disk} {events : List DeployEvent} {err : Option GoError}
    {previous : Content} (h : DiskEnd d₀ disk events err) (hprevious : d₀.binary = some previous)
    (hfailed : err ≠ none) (hrestore : events.any DeployEvent.restoreFails = false) :
    disk.binary = some previous ↔ Answered previous events := by
  have hexisted : d₀.binary.isSome = true := by simp [hprevious]
  unfold Answered
  cases h with
  | back failed unpassed binary backup existed answered =>
    obtain ⟨hstrands, habandons, -⟩ := answered hexisted
    simp [binary, hprevious, hstrands, habandons]
  | stranded failed unpassed binary backup existed backsUp installs abandons strands =>
    simp [binary, strands hrestore]
  | left art failed unpassed binary found backup backsUp installs abandons =>
    obtain ⟨hstrands, habandons⟩ := abandons hexisted
    simp only [hrestore, Bool.false_eq_true, or_false] at habandons
    simp [binary, found, hstrands, habandons]
  | succeeded art done => exact absurd done hfailed

/-- A deploy that fails leaves the previous binary at its path exactly when nothing failed that
the code does not answer with a restore. -/
theorem run_restores_iff (i : Deploying) (disk : Disk) (previous : Content)
    (hprevious : disk.binary = some previous) (hfailed : (i.run disk).value.err ≠ none)
    (hrestore : (emissions (i.run disk).steps).any DeployEvent.restoreFails = false) :
    (i.run disk).state.disk.binary = some previous ↔
      Answered previous (emissions (i.run disk).steps) :=
  (i.run_end disk).disk.restored_iff hprevious hfailed hrestore

/-- The restart of the installed artifact fails. -/
abbrev restartFails : Deploying := deployingApp (failsAt 28 binaryB)

theorem restartFails_unrestored :
    ¬ ((restartFails.run ⟨some binaryA, none, none⟩).value.err ≠ none →
      (emissions (restartFails.run ⟨some binaryA, none, none⟩).steps).any
        DeployEvent.restoreFails = false →
      (restartFails.run ⟨some binaryA, none, none⟩).state.disk.binary = some binaryA) := by
  decide +kernel

theorem run_restores_iff_restartFails :
    ¬ Answered binaryA (emissions (restartFails.run ⟨some binaryA, none, none⟩).steps) := by
  have hfailed : (restartFails.run ⟨some binaryA, none, none⟩).value.err ≠ none := by
    decide +kernel
  have hiff := run_restores_iff restartFails ⟨some binaryA, none, none⟩ binaryA rfl hfailed
    (by decide +kernel)
  rw [← hiff]
  decide +kernel

/-- After every step there is a binary at the path: the one from before the run, or the complete
artifact. -/
def Replaced (previous : Content) (steps : List DeployStep) : Prop :=
  ∀ st ∈ steps, st.after.disk.binary = some previous ∨
    ∃ art, st.after.disk.binary = some art ∧ Verified (emissions steps) art

/-- The replacement is atomic exactly when there is none: the rename that takes the backup leaves
no binary at the path, and every install comes after it. -/
theorem run_replaced_iff (i : Deploying) (disk : Disk) (previous : Content)
    (hprevious : disk.binary = some previous) :
    Replaced previous (i.run disk).steps ↔
      (emissions (i.run disk).steps).any DeployEvent.backsUp = false := by
  have hend := i.run_end disk
  constructor
  · intro hreplaced
    rw [← Bool.not_eq_true]
    intro hbacksUp
    obtain ⟨st, hst, hgap⟩ := hend.gap hbacksUp
    rcases hreplaced st hst with hold | ⟨art, hnew, -⟩
    · rw [hgap] at hold
      cases hold
    · rw [hgap] at hnew
      cases hnew
  · intro hbacksUp st hst
    left
    rw [hend.kept hbacksUp (by simp [hprevious]) st hst, hprevious]

/-- A deploy on which every call works. -/
abbrev calmDeploy : Deploying := deployingApp fun _ => .calm binaryB

theorem calmDeploy_gap :
    ¬ Replaced binaryA (calmDeploy.run ⟨some binaryA, none, none⟩).steps := by
  intro hreplaced
  have hgap : ∃ st ∈ (calmDeploy.run ⟨some binaryA, none, none⟩).steps,
      st.after.disk.binary = none := by decide +kernel
  obtain ⟨st, hst, hgap⟩ := hgap
  rcases hreplaced st hst with hold | ⟨art, hnew, -⟩
  · rw [hgap] at hold
    cases hold
  · rw [hgap] at hnew
    cases hnew

theorem run_replaced_iff_downloadFails :
    Replaced binaryA ((deployingApp (failsAt 6 binaryB)).run ⟨some binaryA, none, none⟩).steps :=
  (run_replaced_iff (deployingApp (failsAt 6 binaryB)) ⟨some binaryA, none, none⟩ binaryA rfl).mpr
    (by decide +kernel)

end AutoDeploy
