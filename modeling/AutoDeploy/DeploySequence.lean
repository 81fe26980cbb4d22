import AutoDeploy.DeployRun

namespace AutoDeploy

open Interleaving

/-- The binary is at the path or in the backup. -/
def Held (healthy : Option Content) (disk : Disk) : Prop :=
  ∀ content, healthy = some content → disk.binary = some content ∨ disk.backup = some content

/-- The last binary that passed its health check, after a run with these events. -/
def healthyAfter (healthy : Option Content) (events : List DeployEvent) : Option Content :=
  if events.any DeployEvent.passes then artifact events else healthy

/-- After each of the runs, the last healthy binary is held. -/
def Survives : Option Content → Disk → List Deploying → Prop
  | _, _, [] => True
  | healthy, disk, i :: rest =>
    Held (healthyAfter healthy (emissions (i.run disk).steps)) (i.run disk).state.disk ∧
      Survives (healthyAfter healthy (emissions (i.run disk).steps)) (i.run disk).state.disk rest

instance (healthy : Option Content) (disk : Disk) : Decidable (Held healthy disk) :=
  match healthy with
  | none => isTrue (by simp [Held])
  | some content =>
    decidable_of_iff (disk.binary = some content ∨ disk.backup = some content) (by simp [Held])

instance decidableSurvives : (healthy : Option Content) → (disk : Disk) →
    (runs : List Deploying) → Decidable (Survives healthy disk runs)
  | _, _, [] => isTrue trivial
  | healthy, disk, i :: rest =>
    have := decidableSurvives (healthyAfter healthy (emissions (i.run disk).steps))
      (i.run disk).state.disk rest
    inferInstanceAs (Decidable (_ ∧ _))

/-- The run takes a backup only of the last healthy binary. The exceptions are a run that passes
its health check, and one that leaves an artifact at the path which is that binary again. -/
def BacksUpHealthy (healthy : Option Content) (disk : Disk) (events : List DeployEvent) : Prop :=
  ∀ content, healthy = some content → events.any DeployEvent.backsUp = true →
    disk.binary = some content ∨ events.any DeployEvent.passes = true ∨
      (artifact events = some content ∧ events.any DeployEvent.installs = true ∧
        (events.any DeployEvent.abandons = true ∨ events.any DeployEvent.restoreFails = true))

def BackupsHealthy : Option Content → Disk → List Deploying → Prop
  | _, _, [] => True
  | healthy, disk, i :: rest =>
    BacksUpHealthy healthy disk (emissions (i.run disk).steps) ∧
      BackupsHealthy (healthyAfter healthy (emissions (i.run disk).steps))
        (i.run disk).state.disk rest

section Sequence

variable {d₀ disk : Disk} {events : List DeployEvent} {err : Option GoError}
  {healthy : Option Content}

theorem healthyAfter_unpassed (h : events.any DeployEvent.passes = false) :
    healthyAfter healthy events = healthy := by
  simp [healthyAfter, h]

/-- One run keeps the last healthy binary exactly when its backup does not overwrite it. -/
theorem DiskEnd.held_iff (h : DiskEnd d₀ disk events err) (hheld : Held healthy d₀) :
    Held (healthyAfter healthy events) disk ↔ BacksUpHealthy healthy d₀ events := by
  cases h with
  | back failed unpassed binary backup existed answered =>
    rw [healthyAfter_unpassed unpassed]
    cases hb : events.any DeployEvent.backsUp with
    | true =>
      obtain ⟨-, habandons, hrestore⟩ := answered (existed hb)
      simp [Held, BacksUpHealthy, binary, backup, hb, unpassed, habandons, hrestore]
    | false =>
      have hsame : Held healthy disk ↔ Held healthy d₀ := by
        simp [Held, binary, backup, hb]
      simp [hsame, hheld, BacksUpHealthy, hb]
  | stranded failed unpassed binary backup existed backsUp installs abandons strands =>
    rw [healthyAfter_unpassed unpassed]
    simp [Held, BacksUpHealthy, binary, backup, backsUp, unpassed, installs]
  | left art failed unpassed binary found backup backsUp installs abandons =>
    rw [healthyAfter_unpassed unpassed]
    cases hexisted : d₀.binary.isSome with
    | true =>
      rcases (abandons hexisted).2 with hwhy | hwhy <;>
        simp [Held, BacksUpHealthy, binary, backup, backsUp, hexisted, unpassed, installs, found,
          hwhy, or_comm]
    | false =>
      have hnone : d₀.binary = none := Option.not_isSome_iff_eq_none.mp (by simp [hexisted])
      have hbackup : disk.backup = d₀.backup := by simpa [backsUp, hexisted] using backup
      have hkept : Held healthy disk := by
        intro content hcontent
        rcases hheld content hcontent with hbinary | hbak
        · simp [hnone] at hbinary
        · exact Or.inr (hbackup.trans hbak)
      simp [hkept, BacksUpHealthy, backsUp, hexisted]
  | succeeded art done passed binary verified backup backsUp active =>
    have hnew : healthyAfter healthy events = some art := by
      simp [healthyAfter, passed, verified.found]
    simp [hnew, Held, binary, BacksUpHealthy, passed]

theorem survives_iff_of_held (runs : List Deploying) (hheld : Held healthy disk) :
    Survives healthy disk runs ↔ BackupsHealthy healthy disk runs := by
  induction runs generalizing healthy disk with
  | nil => exact Iff.rfl
  | cons i rest ih =>
    have hstep := (i.run_end disk).disk.held_iff hheld
    constructor
    · rintro ⟨hkept, hrest⟩
      exact ⟨hstep.mp hkept, (ih hkept).mp hrest⟩
    · rintro ⟨hbacksUp, hrest⟩
      have hkept := hstep.mpr hbacksUp
      exact ⟨hkept, (ih hkept).mpr hrest⟩

end Sequence

/-- Over any sequence of deploys the last healthy binary is held after each of them, exactly when
no deploy takes a backup over it. -/
theorem survives_iff (disk : Disk) (runs : List Deploying) :
    Survives disk.binary disk runs ↔ BackupsHealthy disk.binary disk runs :=
  survives_iff_of_held runs fun _ h => Or.inl h

def binaryC : Content := elfMagic ++ [3]

/-- Two deploys whose restarts fail. -/
abbrev restartFailsTwice : List Deploying :=
  [deployingApp (failsAt 28 binaryB), deployingApp (failsAt 28 binaryC)]

/-- The second backup overwrites the only copy of the healthy binary. -/
theorem restartFailsTwice_loses :
    ¬ Survives (some binaryA) ⟨some binaryA, none, none⟩ restartFailsTwice := by
  decide +kernel

end AutoDeploy
