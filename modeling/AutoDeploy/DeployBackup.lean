import AutoDeploy.DeployInstall

namespace AutoDeploy

open Interleaving

/-- The artifact is in the temporary file, and nothing was moved. -/
structure Downloaded (d₀ : Disk) (art : Content) (own : List DeployStep) (w : DeployWorld) : Prop
    extends Untouched d₀ own w where
  running : w.row.isRunning = true
  still : Still (emissions own)
  tmp : w.disk.tmp = some art
  found : artifact (emissions own) = some art
  complete : Complete maxArtifactBytes (emissions own) art

section Backup

variable {d : Deployment} {summary : DownloadSummary} {control : Bool} {d₀ : Disk} {art : Content}
  {own own₁ own' : List DeployStep} {w w₁ w' : DeployWorld} {events : List DeployEvent}

theorem Proceeds.trans (h : Proceeds control own w own₁ w₁)
    (h' : Proceeds control own₁ w₁ own' w') : Proceeds control own w own' w' := by
  obtain ⟨events, hl, hstill, hdisk⟩ := h
  obtain ⟨events', hl', hstill', hdisk'⟩ := h'
  exact ⟨_, hl.trans hl', still_append hstill hstill', hdisk'.trans hdisk⟩

theorem Untouched.proceeds (h : Untouched d₀ own w) (hc : Proceeds control own w own' w') :
    Untouched d₀ own' w' := by
  obtain ⟨events, hl, hstill, -⟩ := hc
  exact h.extends hl.toExtends hstill.aside

theorem Proceeds.running (hc : Proceeds control own w own' w')
    (hrunning : w.row.isRunning = true) : w'.row.isRunning = true := by
  obtain ⟨events, hl, -, -⟩ := hc
  exact hl.running hrunning

theorem Proceeds.still (hc : Proceeds control own w own' w') (hstill : Still (emissions own)) :
    Still (emissions own') := by
  obtain ⟨events, hl, hstill', -⟩ := hc
  rw [hl.events]
  exact still_append hstill hstill'

theorem Downloaded.proceeds (h : Downloaded d₀ art own w)
    (hc : Proceeds control own w own' w') : Downloaded d₀ art own' w' := by
  have hu := h.toUntouched.proceeds hc
  have hrunning := hc.running h.running
  have hstill := hc.still h.still
  obtain ⟨events, hl, -, hdisk⟩ := hc
  refine ⟨hu, hrunning, hstill, hdisk ▸ h.tmp, ?_, ?_⟩
  · rw [hl.events]
    exact artifact_found h.found
  · rw [hl.events]
    exact h.complete.append

theorem Downloaded.failed {e : GoError} (h : Downloaded d₀ art own w) (hforeign : e.Foreign) :
    DeployEnd d₀ own w (some e) :=
  h.toUntouched.failed h.running h.still hforeign

/-- A first deploy finds no binary to back up. -/
theorem Downloaded.first (h : Downloaded d₀ art own w) (hmagic : art.take 4 = elfMagic)
    (hnone : w.disk.binary = none) : Ongoing d₀ false art false own w := by
  have hu := h.still.unmarked
  have hexisted : d₀.binary = none := h.binary.symm.trans hnone
  exact ⟨⟨by simp [hexisted], hnone, h.backup, ⟨h.found, h.complete, hmagic⟩, hu.backsUp,
    hu.installs, hu.strands, hu.abandons, hu.restoreFails, hu.stopsResolver, hu.passes, by simp⟩,
    h.running, h.tmp, h.still.stops, h.still.faults⟩

/-- The rename that takes the backup. -/
theorem Downloaded.backedUp {content : Content} (h : Downloaded d₀ art own w)
    (hmagic : art.take 4 = elfMagic) (hm : Moves control own own' w w' .binary .backup content) :
    Ongoing d₀ true art false own' w' := by
  have hu := h.still.unmarked
  have hsource : w.disk.binary = some content := hm.source
  have hbinary : d₀.binary = some content := h.binary.symm.trans hsource
  have hgone : w'.disk.binary = none := by
    rw [hm.disk]
    rfl
  refine ⟨⟨by simp [hbinary], hgone, ?_, ?_, ?_, ?_, ?_, ?_, ?_, ?_, ?_, ?_⟩,
    hm.running h.running, ?_, ?_, ?_⟩
  · rw [hm.disk, hbinary]
    rfl
  · rw [hm.events]
    exact Verified.append ⟨h.found, h.complete, hmagic⟩
  · simp [hm.events, DeployEvent.backsUp]
  · simp [hm.events, hu.installs, DeployEvent.installs]
  · simp [hm.events, hu.strands, DeployEvent.strands]
  · simp [hm.events, hu.abandons, DeployEvent.abandons]
  · simp [hm.events, hu.restoreFails, DeployEvent.restoreFails]
  · simp [hm.events, hu.stopsResolver, DeployEvent.stopsResolver]
  · simp [hm.events, hu.passes, DeployEvent.passes]
  · intro _
    obtain ⟨st, hst, hlast⟩ := hm.last
    exact ⟨st, hst, by rw [hlast, hgone]⟩
  · rw [hm.disk]
    exact h.tmp
  · simp [hm.events, h.still.stops, DeployEvent.stops]
  · simp [hm.events, h.still.faults, DeployEvent.faults]

/-- An artifact that passes the validation starts like an ELF file. -/
theorem validateDownloadedArtifact_wp (htmp : w.disk.tmp = some art) :
    validateDownloadedArtifact.Wp (fun own' w' err => Proceeds control own w own' w' ∧
      ForeignErr err ∧ (err = none → art.take 4 = elfMagic)) own w := by
  unfold validateDownloadedArtifact
  apply Prog.wp_bind (@osStat_wp control _ _ _)
  rintro own₁ w₁ size ⟨⟨hl₁, hdisk₁⟩, hsize⟩
  have hsize' : size = some art.length := by simp [hsize, Disk.get, htmp]
  subst hsize'
  have hc₁ : Proceeds control own w own₁ w₁ := ⟨_, hl₁, rfl, hdisk₁⟩
  have hrejected : ∀ text, ForeignErr (some (.new text)) := fun text =>
    foreignErr_some (foreign_new text)
  simp only
  split
  next => exact ⟨hc₁, hrejected _, by simp⟩
  next =>
    split
    next => exact ⟨hc₁, hrejected _, by simp⟩
    next =>
      apply Prog.wp_bind (@openTmp_wp control _ _)
      rintro own₂ w₂ err ⟨⟨hl₂, hdisk₂⟩, hforeign₂⟩
      have hc₂ := hc₁.trans ⟨_, hl₂, rfl, hdisk₂⟩
      cases err with
      | some e => exact ⟨hc₂, foreignErr_some ((hforeign₂ e rfl).errorf _), by simp⟩
      | none =>
        apply Prog.wp_bind (@readMagic_wp control _ _)
        rintro own₃ w₃ result ⟨err, ⟨hl₃, hdisk₃⟩, ⟨e, rfl, hforeign₃⟩ | rfl⟩
        · have hc₃ := hc₂.trans ⟨_, hl₃, rfl, hdisk₃⟩
          exact ⟨hc₃, foreignErr_some (hforeign₃.errorf _), by simp⟩
        · have hc₃ := hc₂.trans ⟨_, hl₃, rfl, hdisk₃⟩
          have hread : w₂.disk.tmp = some art := by rw [hdisk₂, hdisk₁, htmp]
          simp only [hread, Option.getD_some]
          split
          next hmagic => exact ⟨hc₃, foreignErr_none, fun _ => hmagic⟩
          next => exact ⟨hc₃, hrejected _, by simp⟩

theorem deployBackup_wp (h : Downloaded d₀ art own w) (hmagic : art.take 4 = elfMagic) :
    (deployBackup d summary).Wp (fun own' w' exit => DeployEnd d₀ own' w' exit.err) own w := by
  unfold deployBackup
  apply Prog.wp_bind (@trackerSetPhase_wp d.control _ _ _ _)
  rintro own₁ w₁ _ hkept₁
  have h₁ := h.proceeds hkept₁.proceeds
  apply Prog.wp_bind (checkpointCleanupTemp_wp h₁.toUntouched h₁.running h₁.still.faults rfl)
  rintro own₂ w₂ (_ | e) hchecked
  · have h₂ := h₁.proceeds hchecked
    apply Prog.wp_bind (@osStat_wp d.control _ _ _)
    rintro own₃ w₃ size ⟨⟨hl₃, hdisk₃⟩, hsize⟩
    have h₃ := h₂.proceeds ⟨_, hl₃, rfl, hdisk₃⟩
    cases size with
    | none =>
      have hnone : w₃.disk.binary = none := by
        rw [hdisk₃]
        exact Option.map_eq_none_iff.mp hsize.symm
      exact deployBackedUp_wp (h₃.first hmagic hnone)
    | some size =>
      apply Prog.wp_bind (@renameFile_wp d.control _ _ _ _)
      rintro own₄ w₄ err (⟨e, rfl, ⟨hl₄, hdisk₄⟩, hforeign⟩ | ⟨rfl, content, hm⟩)
      · have h₄ := h₃.proceeds ⟨_, hl₄, rfl, hdisk₄⟩
        exact failed_wp (h₄.failed (hforeign.errorf _))
      · exact deployBackedUp_wp (h₃.backedUp hmagic hm)
  · exact stopped_wp hchecked

theorem deployValidate_wp (h : Downloaded d₀ art own w) :
    (deployValidate d summary).Wp (fun own' w' exit => DeployEnd d₀ own' w' exit.err) own w := by
  unfold deployValidate
  apply Prog.wp_bind (checkpointCleanupTemp_wp h.toUntouched h.running h.still.faults rfl)
  rintro own₁ w₁ (_ | e) hchecked₁
  · have h₁ := h.proceeds hchecked₁
    apply Prog.wp_bind (@trackerSetPhase_wp d.control _ _ _ _)
    rintro own₂ w₂ _ hkept₂
    have h₂ := h₁.proceeds hkept₂.proceeds
    apply Prog.wp_bind (checkpointCleanupTemp_wp h₂.toUntouched h₂.running h₂.still.faults rfl)
    rintro own₃ w₃ (_ | e) hchecked₃
    · have h₃ := h₂.proceeds hchecked₃
      apply Prog.wp_bind (@validateDownloadedArtifact_wp d.control _ _ _ h₃.tmp)
      rintro own₄ w₄ err ⟨hc₄, hforeign₄, hmagic⟩
      have h₄ := h₃.proceeds hc₄
      cases err with
      | some e => exact failed_wp (h₄.failed (hforeign₄ e rfl))
      | none =>
        apply Prog.wp_bind (@chmodFile_wp d.control _ _)
        rintro own₅ w₅ err ⟨⟨hl₅, hdisk₅⟩, hforeign₅⟩
        have h₅ := h₄.proceeds ⟨_, hl₅, rfl, hdisk₅⟩
        cases err with
        | some e => exact failed_wp (h₅.failed ((hforeign₅ e rfl).errorf _))
        | none => exact deployBackup_wp h₅ (hmagic rfl)
    · exact stopped_wp hchecked₃
  · exact stopped_wp hchecked₁

end Backup

end AutoDeploy
