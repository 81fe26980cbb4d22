import AutoDeploy.DeployEnd

namespace AutoDeploy

open Interleaving

/-- The phases of the checkpoints in front of the backup. -/
def DeployPhase.beforeBackup : DeployPhase → Bool
  | .downloading | .downloaded | .validating | .backingUp => true
  | _ => false

/-- The binary and the backup are those from before the run. -/
structure Untouched (d₀ : Disk) (own : List DeployStep) (w : DeployWorld) : Prop where
  binary : w.disk.binary = d₀.binary
  backup : w.disk.backup = d₀.backup
  aside : Aside (emissions own)
  kept : ∀ st ∈ own, st.after.disk.binary = d₀.binary

/-- The steps changed nothing that the run looks at. -/
def Proceeds (control : Bool) (own : List DeployStep) (w : DeployWorld) (own' : List DeployStep)
    (w' : DeployWorld) : Prop :=
  ∃ events, Leaves control own own' w w' events ∧ Still events ∧ w'.disk = w.disk

/-- A checkpoint lets the run go on, or ends it. -/
def Checked (control : Bool) (d₀ : Disk) (own : List DeployStep) (w : DeployWorld)
    (own' : List DeployStep) (w' : DeployWorld) : Option GoError → Prop
  | none => Proceeds control own w own' w'
  | some e => DeployEnd d₀ own' w' (some e)

section Cleanup

variable {control : Bool} {d₀ : Disk} {own own' : List DeployStep} {w w' : DeployWorld}
  {events : List DeployEvent}

theorem proceeds_refl : Proceeds control own w own w :=
  ⟨[], leaves_refl control own w, rfl, rfl⟩

theorem Untouched.extends (h : Untouched d₀ own w) (hext : Extends own own' w w' events)
    (haside : Aside events) : Untouched d₀ own' w' where
  binary := hext.binary.trans h.binary
  backup := hext.backup.trans h.backup
  aside := by
    rw [hext.events]
    exact aside_append h.aside haside
  kept st hst := by
    rcases hext.steps st hst with hold | ⟨hnew, -⟩
    · exact h.kept st hold
    · exact hnew.trans h.binary

theorem Untouched.ended {e : GoError} (h : Untouched d₀ own w)
    (hstatus : StatusEnd d₀ (emissions own) w (some e)) : DeployEnd d₀ own w (some e) := by
  have hu := h.aside.unmarked
  refine ⟨.back (by simp) hu.passes h.binary ?_ ?_ ?_, hstatus, ?_, fun _ _ => h.kept⟩
  · simpa [hu.backsUp] using h.backup
  · simp [hu.backsUp]
  · exact fun _ => ⟨hu.strands, hu.abandons, hu.restoreFails⟩
  · simp [hu.backsUp]

/-- A run that fails in front of the backup without a cancel. -/
theorem Untouched.failed {e : GoError} (h : Untouched d₀ own w)
    (hrunning : w.row.isRunning = true) (hstill : Still (emissions own)) (hforeign : e.Foreign) :
    DeployEnd d₀ own w (some e) := by
  apply h.ended
  apply statusEnd_failed hforeign (Or.inl hrunning)
  simp [hstill.stops]

/-- A run that reports its cancel with the files still in place. -/
theorem Untouched.concluded {e : GoError} (h : Untouched d₀ own w)
    (hseen : (emissions own).any DeployEvent.stops = true)
    (hunhindered : (emissions own).any DeployEvent.faults = false)
    (hext : Extends own own' w w' events) (haside : Aside events) (htmp : w'.disk.tmp = none)
    (hend : (e.Foreign ∧ w'.row.status = .cancelRequested ∧
        events.any DeployEvent.faults = true) ∨
      (e = errDeployCanceled ∧ w'.row.status = .canceled ∧
        events.any DeployEvent.faults = false)) :
    DeployEnd d₀ own' w' (some e) := by
  have h' := h.extends hext haside
  apply h'.ended
  rw [hext.events]
  refine statusEnd_conclude h.aside.unmarked.stopsResolver hseen hunhindered ?_ haside h'.binary
    htmp hend
  simp [h.aside.unmarked.installs]

theorem aside_statusRead {phase : DeployPhase} {result : Except GoError JobStatus}
    (hphase : phase.beforeBackup = true) : (DeployEvent.statusRead phase result).aside = true := by
  cases phase <;> first | (cases result <;> rfl) | cases hphase

theorem aside_removed {phase : DeployPhase} {err : Option GoError}
    (hphase : phase.beforeBackup = true) :
    (DeployEvent.removed (.checkpoint phase) err).aside = true := by
  cases phase <;> first | (cases err <;> rfl) | cases hphase

theorem faults_statusRead {phase : DeployPhase} {status : JobStatus} :
    (DeployEvent.statusRead phase (.ok status)).faults = false :=
  rfl

theorem faults_removed {phase : DeployPhase} {raw : Option GoError}
    (hraw : ∀ e, raw = some e → e.is .notExist = true) :
    (DeployEvent.removed (.checkpoint phase) raw).faults = false := by
  cases raw with
  | none => rfl
  | some e => simp [DeployEvent.faults, hraw e rfl]

theorem asks_beforeBackup {phase : DeployPhase} (hphase : phase.beforeBackup = true) :
    phase.asks = true := by
  cases phase <;> first | rfl | cases hphase

/-- The report that a cleanup failed. -/
theorem concludeFailed_wp {jobID : String} {phase : DeployPhase} {err : GoError}
    (hrequested : w.row.status = .cancelRequested) (hphase : phase.concludes = some .failed)
    (hforeign : err.Foreign) :
    (concludeCancel jobID phase err).Wp (fun own' w' e => ∃ events,
      Extends own own' w w' events ∧ w'.disk = w.disk ∧ Aside events ∧ e.Foreign ∧
        (w'.row.isRunning = true ∨ w'.row.status = .failed)) own w := by
  apply (concludeCancel_wp hrequested hphase).mono
  rintro own' w' e ⟨events, hext, hdisk, haside, ⟨he, hrow, -⟩ | ⟨rfl, hrow, -⟩⟩
  · refine ⟨events, hext, hdisk, haside, he, Or.inl ?_⟩
    simp [JobRow.isRunning, JobStatus.isRunning, hrow]
  · exact ⟨events, hext, hdisk, haside, hforeign, Or.inr hrow⟩

/-- The cleanup of a canceled job in front of the backup failed. -/
theorem cleanupFailed_wp {jobID : String} {err : GoError} (h : Untouched d₀ own w)
    (hrequested : w.row.status = .cancelRequested)
    (hfaults : (emissions own).any DeployEvent.faults = true) (hforeign : err.Foreign) :
    (concludeCancel jobID .cleanupFailed err).Wp (fun own' w' e => DeployEnd d₀ own' w' (some e))
      own w := by
  apply (concludeFailed_wp hrequested rfl hforeign).mono
  rintro own' w' e ⟨events, hext, -, haside, he, hrow⟩
  apply (h.extends hext haside).ended
  apply statusEnd_failed he hrow
  simp [hext.events, hfaults]

theorem finishCanceledCleanup_wp {jobID : String} (h : Untouched d₀ own w)
    (hrequested : w.row.status = .cancelRequested)
    (hseen : (emissions own).any DeployEvent.stops = true)
    (hunhindered : (emissions own).any DeployEvent.faults = false) :
    (finishCanceledCleanup jobID).Wp (fun own' w' result =>
      DeployEnd d₀ own' w' (some (result.getD errDeployCanceled))) own w := by
  have hrunning : w.row.isRunning = true := by
    simp [JobRow.isRunning, JobStatus.isRunning, hrequested]
  unfold finishCanceledCleanup
  apply Prog.wp_bind (@controlCheckpoint_ask true _ _ _ _ hrunning rfl)
  rintro own₁ w₁ result ⟨answered, ⟨hl₁, -⟩, hresult⟩
  have h₁ := h.extends hl₁.toExtends (aside_singleton (aside_statusRead rfl))
  rcases hresult with ⟨e, rfl, rfl, hforeign⟩ | ⟨decision, rfl, hanswered⟩
  · apply h₁.ended
    apply statusEnd_failed hforeign (Or.inl (hl₁.running hrunning))
    simp [hl₁.events, DeployEvent.faults]
  · have hread : (DeployEvent.statusRead .downloading answered).faults = false := by
      rcases hanswered with ⟨rfl, -⟩ | ⟨rfl, -⟩ <;> rfl
    apply Prog.wp_bind (@removeIfExists_wp true _ _ _)
    rintro own₂ w₂ err ⟨raw, hl₂, hremoved⟩
    have h₂ := h₁.extends hl₂.toExtends (aside_singleton (aside_removed rfl))
    have hrequested₂ := hl₂.requested (hl₁.requested hrequested)
    rcases hremoved with ⟨rfl, htmp, hraw⟩ | ⟨e, rfl, rfl, hexists, hforeign⟩
    · have hseen₂ : (emissions own₂).any DeployEvent.stops = true := by
        simp [hl₂.events, hl₁.events, hseen]
      have hunhindered₂ : (emissions own₂).any DeployEvent.faults = false := by
        simp [hl₂.events, hl₁.events, hunhindered, hread, faults_removed hraw]
      apply Prog.wp_bind (controlCheckpoint_conclude hrequested₂ rfl)
      rintro own₃ w₃ result ⟨events, hext, hdisk, haside, hend⟩
      have hended := fun e => h₂.concluded (e := e) hseen₂ hunhindered₂ hext haside (hdisk ▸ htmp)
      rcases hend with ⟨e, rfl, hend⟩ | ⟨decision, rfl, hend⟩
      · exact hended e (Or.inl hend)
      · exact hended errDeployCanceled (Or.inr ⟨rfl, hend⟩)
    · apply Prog.wp_map
      apply cleanupFailed_wp h₂ hrequested₂ ?_ (hforeign.errorf _)
      simp [hl₂.events, DeployEvent.faults, hexists]

theorem checkpointCleanupTemp_wp {d : Deployment} {phase : DeployPhase} (h : Untouched d₀ own w)
    (hrunning : w.row.isRunning = true)
    (hunhindered : (emissions own).any DeployEvent.faults = false)
    (hphase : phase.beforeBackup = true) :
    (checkpointCleanupTemp d phase).Wp (Checked d.control d₀ own w) own w := by
  unfold checkpointCleanupTemp
  split
  next =>
    have hasks := asks_beforeBackup hphase
    apply Prog.wp_bind (@controlCheckpoint_ask d.control _ _ _ _ hrunning hasks)
    rintro own₁ w₁ result ⟨answered, ⟨hl₁, hdisk₁⟩, hresult⟩
    have h₁ := h.extends hl₁.toExtends (aside_singleton (aside_statusRead hphase))
    rcases hresult with ⟨e, rfl, rfl, hforeign⟩ |
      ⟨decision, rfl, ⟨rfl, hgo⟩ | ⟨rfl, hstop, hrequested⟩⟩
    · apply h₁.ended
      apply statusEnd_failed hforeign (Or.inl (hl₁.running hrunning))
      simp [hl₁.events, DeployEvent.faults]
    · simp only [hgo, Bool.false_eq_true, ↓reduceIte]
      exact ⟨_, hl₁, by cases phase <;> rfl, hdisk₁⟩
    · simp only [hstop, ↓reduceIte]
      apply Prog.wp_bind (@removeIfExists_wp true _ _ _)
      rintro own₂ w₂ err ⟨raw, hl₂, hremoved⟩
      have h₂ := h₁.extends hl₂.toExtends (aside_singleton (aside_removed hphase))
      have hrequested₂ := hl₂.requested hrequested
      rcases hremoved with ⟨rfl, htmp, hraw⟩ | ⟨e, rfl, rfl, hexists, hforeign⟩
      · apply Prog.wp_bind (concludeCancel_wp hrequested₂ rfl)
        rintro own₃ w₃ e ⟨events, hext, hdisk, haside, hend⟩
        refine h₂.concluded ?_ ?_ hext haside (hdisk ▸ htmp) hend
        · simp [hl₂.events, hl₁.events, DeployEvent.stops]
        · simp [hl₂.events, hl₁.events, hunhindered, faults_statusRead, faults_removed hraw]
      · apply Prog.wp_map
        apply cleanupFailed_wp h₂ hrequested₂ ?_ (hforeign.errorf _)
        simp [hl₂.events, DeployEvent.faults, hexists]
  next => exact proceeds_refl

end Cleanup

end AutoDeploy
