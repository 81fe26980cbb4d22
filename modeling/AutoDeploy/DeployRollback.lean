import AutoDeploy.DeployCleanup

namespace AutoDeploy

open Interleaving

/-- The phases of the checkpoints that roll an installed artifact back. -/
def DeployPhase.afterInstall : DeployPhase → Bool
  | .installing | .restarting | .healthcheck => true
  | _ => false

/-- The run is past its backup, which it took if there was a binary, and has perhaps installed
the artifact. Nothing has failed and nothing was rolled back. -/
structure Swapped (d₀ : Disk) (backedUp : Bool) (art : Content) (installed : Bool)
    (own : List DeployStep) (w : DeployWorld) : Prop where
  existed : backedUp = d₀.binary.isSome
  binary : w.disk.binary = if installed then some art else none
  backup : w.disk.backup = if backedUp then d₀.binary else d₀.backup
  verified : Verified (emissions own) art
  backsUp : (emissions own).any DeployEvent.backsUp = backedUp
  installs : (emissions own).any DeployEvent.installs = installed
  strands : (emissions own).any DeployEvent.strands = false
  abandons : (emissions own).any DeployEvent.abandons = false
  restoreFails : (emissions own).any DeployEvent.restoreFails = false
  stopsResolver : (emissions own).any DeployEvent.stopsResolver = false
  passes : (emissions own).any DeployEvent.passes = false
  gap : backedUp = true → ∃ st ∈ own, st.after.disk.binary = none

/-- The run goes on, and has not seen a cancel. -/
structure Ongoing (d₀ : Disk) (backedUp : Bool) (art : Content) (installed : Bool)
    (own : List DeployStep) (w : DeployWorld) : Prop
    extends Swapped d₀ backedUp art installed own w where
  running : w.row.isRunning = true
  tmp : w.disk.tmp = if installed then none else some art
  stops : (emissions own).any DeployEvent.stops = false
  faults : (emissions own).any DeployEvent.faults = false

/-- Events after which a run leaves the files of a swap as they are. -/
structure Cause (backedUp installed : Bool) (events : List DeployEvent) : Prop where
  backsUp : events.any DeployEvent.backsUp = false
  installs : events.any DeployEvent.installs = false
  passes : events.any DeployEvent.passes = false
  stranded : backedUp = true → installed = false →
    events.any DeployEvent.abandons = false ∧
      (events.any DeployEvent.strands = true ∨ events.any DeployEvent.restoreFails = true)
  left : backedUp = true → installed = true →
    events.any DeployEvent.strands = false ∧
      (events.any DeployEvent.abandons = true ∨ events.any DeployEvent.restoreFails = true)

section Rollback

variable {control : Bool} {d₀ : Disk} {backedUp : Bool} {art : Content} {installed : Bool}
  {own own₁ own' : List DeployStep} {w w₁ w' : DeployWorld} {events events' : List DeployEvent}

theorem Cause.append (h : Cause backedUp installed events) (haside : Aside events') :
    Cause backedUp installed (events ++ events') := by
  have hu := haside.unmarked
  constructor
  · simp [h.backsUp, hu.backsUp]
  · simp [h.installs, hu.installs]
  · simp [h.passes, hu.passes]
  · simpa [hu.abandons, hu.strands, hu.restoreFails] using h.stranded
  · simpa [hu.abandons, hu.strands, hu.restoreFails] using h.left

/-- Without a previous binary there is nothing to put back. -/
theorem cause_first (haside : Aside events) : Cause false installed events := by
  have hu := haside.unmarked
  exact ⟨hu.backsUp, hu.installs, hu.passes, by simp, by simp⟩

theorem cause_restoreFails {e : GoError} :
    Cause backedUp installed [.renamed .backup .binary (some e)] :=
  ⟨rfl, rfl, rfl, fun _ _ => ⟨rfl, Or.inr rfl⟩, fun _ _ => ⟨rfl, Or.inr rfl⟩⟩

theorem Swapped.extends (h : Swapped d₀ backedUp art installed own w)
    (hext : Extends own own' w w' events) (hu : Unmarked events) :
    Swapped d₀ backedUp art installed own' w' where
  existed := h.existed
  binary := hext.binary.trans h.binary
  backup := hext.backup.trans h.backup
  verified := by
    rw [hext.events]
    exact h.verified.append
  backsUp := by simp [hext.events, hu.backsUp, h.backsUp]
  installs := by simp [hext.events, hu.installs, h.installs]
  strands := by simp [hext.events, hu.strands, h.strands]
  abandons := by simp [hext.events, hu.abandons, h.abandons]
  restoreFails := by simp [hext.events, hu.restoreFails, h.restoreFails]
  stopsResolver := by simp [hext.events, hu.stopsResolver, h.stopsResolver]
  passes := by simp [hext.events, hu.passes, h.passes]
  gap hbackedUp := by
    obtain ⟨st, hst, hgap⟩ := h.gap hbackedUp
    exact ⟨st, hext.grows st hst, hgap⟩

theorem Ongoing.proceeds (h : Ongoing d₀ backedUp art installed own w)
    (hc : Proceeds control own w own' w') : Ongoing d₀ backedUp art installed own' w' := by
  obtain ⟨events, hl, hstill, hdisk⟩ := hc
  refine ⟨h.toSwapped.extends hl.toExtends hstill.unmarked, hl.running h.running, ?_, ?_, ?_⟩
  · rw [hdisk]
    exact h.tmp
  · simp [hl.events, h.stops, hstill.stops]
  · simp [hl.events, h.faults, hstill.faults]

/-- A run that ends without another rename. -/
theorem Swapped.stays {e : GoError} (h : Swapped d₀ backedUp art installed own w)
    (hext : Extends own own' w w' events) (hcause : Cause backedUp installed events)
    (hstatus : StatusEnd d₀ (emissions own') w' (some e)) : DeployEnd d₀ own' w' (some e) := by
  have hbacksUp : (emissions own').any DeployEvent.backsUp = backedUp := by
    simp [hext.events, hcause.backsUp, h.backsUp]
  have hinstalls : (emissions own').any DeployEvent.installs = installed := by
    simp [hext.events, hcause.installs, h.installs]
  have hpasses : (emissions own').any DeployEvent.passes = false := by
    simp [hext.events, hcause.passes, h.passes]
  have hbinary := hext.binary.trans h.binary
  have hbackup := hext.backup.trans h.backup
  refine ⟨?_, hstatus, ?_, ?_⟩
  · cases installed with
    | true =>
      refine .left art (by simp) hpasses hbinary ?_ (hbacksUp ▸ hbackup) (hbacksUp.trans h.existed)
        hinstalls ?_
      · rw [hext.events]
        exact artifact_found h.verified.found
      · intro hexisted
        have hleft := hcause.left (h.existed.trans hexisted) rfl
        simpa [hext.events, h.strands, h.abandons, h.restoreFails] using hleft
    | false =>
      cases backedUp with
      | true =>
        have hstranded := hcause.stranded rfl rfl
        refine .stranded (by simp) hpasses hbinary hbackup h.existed.symm hbacksUp hinstalls ?_ ?_
        · simp [hext.events, h.abandons, hstranded.1]
        · intro hrestore
          simp only [hext.events, List.any_append, h.restoreFails, Bool.false_or] at hrestore
          rcases hstranded.2 with hs | hr
          · simp [hext.events, hs]
          · simp [hr] at hrestore
      | false =>
        have hnone : d₀.binary = none := Option.not_isSome_iff_eq_none.mp (by simp [← h.existed])
        refine .back (by simp) hpasses (hbinary.trans hnone.symm) ?_ ?_ ?_
        · simpa [hbacksUp] using hbackup
        · simp [hbacksUp]
        · simp [hnone]
  · intro hb
    obtain ⟨st, hst, hgap⟩ := h.gap (hbacksUp.symm.trans hb)
    exact ⟨st, hext.grows st hst, hgap⟩
  · intro hb hexisted
    rw [hbacksUp, h.existed, hexisted] at hb
    cases hb

/-- A run that ends with the backup restored. -/
theorem Swapped.restored {content : Content} {e : GoError}
    (h : Swapped d₀ true art installed own w)
    (hm : Moves control own own₁ w w₁ .backup .binary content)
    (hext : Extends own₁ own' w₁ w' events) (haside : Aside events)
    (hstatus : StatusEnd d₀ (emissions own') w' (some e)) : DeployEnd d₀ own' w' (some e) := by
  have hu := haside.unmarked
  have hev : emissions own' = emissions own ++ ([.renamed .backup .binary none] ++ events) := by
    rw [hext.events, hm.events, List.append_assoc]
  have hbacksUp : (emissions own').any DeployEvent.backsUp = true := by simp [hev, h.backsUp]
  refine ⟨.back (by simp) ?_ ?_ ?_ (fun _ => h.existed.symm) ?_, hstatus, ?_, ?_⟩
  · simp [hev, h.passes, hu.passes, DeployEvent.passes]
  · have hsource : w.disk.backup = some content := hm.source
    rw [hext.binary, hm.disk]
    exact (hsource.symm.trans h.backup)
  · rw [hext.backup, hm.disk, hbacksUp]
    rfl
  · intro _
    simp [hev, h.strands, h.abandons, h.restoreFails, hu.strands, hu.abandons, hu.restoreFails,
      DeployEvent.strands, DeployEvent.abandons, DeployEvent.restoreFails]
  · intro _
    obtain ⟨st, hst, hgap⟩ := h.gap rfl
    exact ⟨st, hext.grows st (hm.grows st hst), hgap⟩
  · intro hb
    rw [hbacksUp] at hb
    cases hb

/-- The database fails at a checkpoint that asks. -/
theorem Ongoing.unread {phase : DeployPhase} {e : GoError}
    (h : Ongoing d₀ backedUp art installed own w)
    (hl : Leaves control own own' w w' [.statusRead phase (.error e)])
    (hcause : Cause backedUp installed [.statusRead phase (.error e)]) (hforeign : e.Foreign) :
    DeployEnd d₀ own' w' (some e) := by
  apply h.toSwapped.stays hl.toExtends hcause
  apply statusEnd_failed hforeign (Or.inl (hl.running h.running))
  simp [hl.events, h.stops, DeployEvent.stops]

/-- A cancel that could not put the files back, whose reason is in the events. -/
theorem Swapped.reported {jobID : String} {phase : DeployPhase} {err : GoError}
    (h : Swapped d₀ backedUp art installed own w) (hext : Extends own own₁ w w₁ events)
    (hcause : Cause backedUp installed events) (hrequested : w₁.row.status = .cancelRequested)
    (hphase : phase.concludes = some .failed) (hforeign : err.Foreign)
    (hwhy : events.any DeployEvent.faults = true ∨ (backedUp = false ∧ installed = true)) :
    (concludeCancel jobID phase err).Wp (fun own' w' e => DeployEnd d₀ own' w' (some e))
      own₁ w₁ := by
  apply (concludeFailed_wp hrequested hphase hforeign).mono
  rintro own' w' e ⟨events', hext', -, haside, he, hrow⟩
  apply h.stays (hext.trans hext') (hcause.append haside)
  apply statusEnd_failed he hrow
  intro _
  rcases hwhy with hfaults | ⟨hfirst, hinstalled⟩
  · exact Or.inl (by simp [hext'.events, hext.events, hfaults])
  · refine Or.inr ⟨?_, ?_⟩
    · exact Option.not_isSome_iff_eq_none.mp (by simp [← h.existed, hfirst])
    · simp [hext'.events, hext.events, h.installs, hinstalled]

/-- A cancel that found no backup to restore, and no artifact at the path of the binary. -/
theorem Swapped.unrestored {jobID : String} (h : Swapped d₀ false art false own w)
    (hseen : (emissions own).any DeployEvent.stops = true)
    (hunhindered : (emissions own).any DeployEvent.faults = false)
    (hrequested : w.row.status = .cancelRequested) (htmp : w.disk.tmp = none) :
    (concludeCancel jobID .rollbackComplete errDeployCanceled).Wp
      (fun own' w' e => DeployEnd d₀ own' w' (some e)) own w := by
  apply (concludeCancel_wp hrequested rfl).mono
  rintro own' w' e ⟨events, hext, hdisk, haside, hend⟩
  have hnone : d₀.binary = none := Option.not_isSome_iff_eq_none.mp (by simp [← h.existed])
  apply h.stays hext (cause_first haside)
  rw [hext.events]
  refine statusEnd_conclude h.stopsResolver hseen hunhindered ?_ haside ?_ (hdisk ▸ htmp) hend
  · simp [h.installs]
  · rw [hext.binary, hnone]
    exact h.binary

/-- A cancel after the backup was restored. -/
theorem Swapped.concluded {jobID : String} {content : Content}
    (h : Swapped d₀ true art installed own w)
    (hseen : (emissions own).any DeployEvent.stops = true)
    (hunhindered : (emissions own).any DeployEvent.faults = false)
    (hm : Moves control own own₁ w w₁ .backup .binary content)
    (hext : Extends own₁ own' w₁ w' events) (haside : Aside events)
    (hcalm : events.any DeployEvent.faults = false)
    (hrequested : w'.row.status = .cancelRequested) (htmp : w'.disk.tmp = none) :
    (concludeCancel jobID .rollbackComplete errDeployCanceled).Wp
      (fun own' w' e => DeployEnd d₀ own' w' (some e)) own' w' := by
  apply (concludeCancel_wp hrequested rfl).mono
  rintro own₂ w₂ e ⟨events', hext', hdisk, haside', hend⟩
  have hboth := aside_append haside haside'
  have hsource : w.disk.backup = some content := hm.source
  apply h.restored hm (hext.trans hext') hboth
  rw [hext'.events, hext.events, hm.events]
  refine statusEnd_conclude ?_ ?_ ?_ (fun _ => h.existed.symm) haside' ?_ (hdisk ▸ htmp) hend
  · simp [h.stopsResolver, haside.unmarked.stopsResolver, DeployEvent.stopsResolver]
  · simp [hseen]
  · simp [hunhindered, hcalm, DeployEvent.faults]
  · rw [hext'.binary, hext.binary, hm.disk]
    exact hsource.symm.trans h.backup

theorem unmarked_removed {phase : DeployPhase} {raw : Option GoError}
    (hraw : ∀ e, raw = some e → e.is .notExist = true) :
    Unmarked [.removed (.checkpoint phase) raw] := by
  apply unmarked_singleton
  cases raw with
  | none => cases phase <;> rfl
  | some e =>
    have he := hraw e rfl
    cases phase <;> simp [DeployEvent.aside, DeployEvent.backsUp, DeployEvent.installs,
      DeployEvent.strands, DeployEvent.abandons, DeployEvent.restoreFails,
      DeployEvent.stopsResolver, DeployEvent.passes, he]

theorem checkpointRestoreBackup_wp {d : Deployment} (h : Ongoing d₀ backedUp art false own w) :
    (checkpointRestoreBackup d backedUp).Wp (Checked d.control d₀ own w) own w := by
  unfold checkpointRestoreBackup
  split
  next =>
    apply Prog.wp_bind (@controlCheckpoint_ask d.control _ _ _ _ h.running rfl)
    rintro own₁ w₁ result ⟨answered, ⟨hl₁, hdisk₁⟩, hresult⟩
    rcases hresult with ⟨e, rfl, rfl, hforeign⟩ |
      ⟨decision, rfl, ⟨rfl, hgo⟩ | ⟨rfl, hstop, hrequested⟩⟩
    · have hcause : Cause backedUp false [.statusRead .backupComplete (.error e)] :=
        ⟨rfl, rfl, rfl, fun _ _ => ⟨rfl, Or.inl rfl⟩, by simp⟩
      exact h.unread hl₁ hcause hforeign
    · simp only [hgo, Bool.false_eq_true, ↓reduceIte]
      exact ⟨_, hl₁, rfl, hdisk₁⟩
    · simp only [hstop, ↓reduceIte]
      have h₁ := h.toSwapped.extends hl₁.toExtends (unmarked_singleton rfl)
      apply Prog.wp_bind (@removeIfExists_wp d.control _ _ _)
      rintro own₂ w₂ err ⟨raw, hl₂, hremoved⟩
      have hrequested₂ := hl₂.requested hrequested
      rcases hremoved with ⟨rfl, htmp, hraw⟩ | ⟨e, rfl, rfl, hexists, hforeign⟩
      · have h₂ := h₁.extends hl₂.toExtends (unmarked_removed hraw)
        have hseen : (emissions own₂).any DeployEvent.stops = true := by
          simp [hl₂.events, hl₁.events, DeployEvent.stops]
        have hunhindered : (emissions own₂).any DeployEvent.faults = false := by
          simp [hl₂.events, hl₁.events, h.faults, faults_statusRead, faults_removed hraw]
        cases backedUp with
        | true =>
          apply Prog.wp_bind (@renameFile_wp d.control _ _ _ _)
          rintro own₃ w₃ err (⟨e, rfl, ⟨hl₃, -⟩, hforeign⟩ | ⟨rfl, content, hm⟩)
          · apply Prog.wp_map
            exact h₂.reported hl₃.toExtends cause_restoreFails
              (hl₃.requested hrequested₂) rfl (hforeign.errorf _) (Or.inl rfl)
          · apply Prog.wp_map
            apply h₂.concluded hseen hunhindered hm (leaves_refl true _ _).toExtends rfl rfl
              (hm.requested hrequested₂) ?_
            rw [hm.disk]
            exact htmp
        | false =>
          apply Prog.wp_map
          exact h₂.unrestored hseen hunhindered hrequested₂ htmp
      · have hcause : Cause backedUp false [.removed (.checkpoint .backupComplete) (some e)] :=
          ⟨rfl, rfl, rfl, fun _ _ => ⟨rfl, Or.inl (by simp [DeployEvent.strands, hexists])⟩,
            by simp⟩
        apply Prog.wp_map
        exact h₁.reported hl₂.toExtends hcause hrequested₂ rfl (hforeign.errorf _)
          (Or.inl (by simp [DeployEvent.faults, hexists]))
  next => exact proceeds_refl

theorem checkpointRollbackInstalled_wp {d : Deployment} {phase : DeployPhase}
    (h : Ongoing d₀ backedUp art true own w) (hphase : phase.afterInstall = true) :
    (checkpointRollbackInstalled d phase backedUp).Wp (Checked d.control d₀ own w) own w := by
  have hasks : phase.asks = true := by
    cases phase <;> first | rfl | cases hphase
  unfold checkpointRollbackInstalled
  split
  next =>
    apply Prog.wp_bind (@controlCheckpoint_ask d.control _ _ _ _ h.running hasks)
    rintro own₁ w₁ result ⟨answered, ⟨hl₁, hdisk₁⟩, hresult⟩
    rcases hresult with ⟨e, rfl, rfl, hforeign⟩ |
      ⟨decision, rfl, ⟨rfl, hgo⟩ | ⟨rfl, hstop, hrequested⟩⟩
    · have hcause : Cause backedUp true [.statusRead phase (.error e)] := by
        cases phase <;> first
          | exact ⟨rfl, rfl, rfl, by simp, fun _ _ => ⟨rfl, Or.inl rfl⟩⟩
          | cases hphase
      exact h.unread hl₁ hcause hforeign
    · simp only [hgo, Bool.false_eq_true, ↓reduceIte]
      exact ⟨_, hl₁, by cases phase <;> rfl, hdisk₁⟩
    · simp only [hstop, ↓reduceIte]
      have h₁ := h.toSwapped.extends hl₁.toExtends (unmarked_singleton (by cases phase <;> rfl))
      have htmp : w₁.disk.tmp = none := hdisk₁ ▸ h.tmp
      cases backedUp with
      | true =>
        apply Prog.wp_bind (@renameFile_wp d.control _ _ _ _)
        rintro own₂ w₂ err (⟨e, rfl, ⟨hl₂, -⟩, hforeign⟩ | ⟨rfl, content, hm⟩)
        · apply Prog.wp_map
          exact h₁.reported hl₂.toExtends cause_restoreFails
            (hl₂.requested hrequested) rfl (hforeign.errorf _) (Or.inl rfl)
        · apply Prog.wp_bind (@systemctlRestart_wp d.control _ _ _)
          rintro own₃ w₃ ⟨err, out⟩ ⟨⟨hl₃, hdisk₃⟩, hforeign⟩
          have hrequested₃ := hl₃.requested (hm.requested hrequested)
          have htmp₃ : w₃.disk.tmp = none := by
            rw [hdisk₃, hm.disk]
            exact htmp
          cases err with
          | some e =>
            apply Prog.wp_bind (concludeFailed_wp hrequested₃ rfl ?_)
            · rintro own₄ w₄ e' ⟨events', hext, -, haside, he, hrow⟩
              apply h₁.restored hm (hl₃.toExtends.trans hext)
                (aside_append (aside_singleton rfl) haside)
              apply statusEnd_failed he hrow
              simp [hext.events, hl₃.events, DeployEvent.faults]
            · exact hforeign e rfl
          | none =>
            apply Prog.wp_map
            refine h₁.concluded ?_ ?_ hm hl₃.toExtends rfl rfl hrequested₃ htmp₃
            · simp [hl₁.events, DeployEvent.stops]
            · simp [hl₁.events, h.faults, faults_statusRead]
      | false =>
        apply Prog.wp_map
        exact h₁.reported (leaves_refl true _ _).toExtends (cause_first rfl)
          hrequested rfl (foreign_new _) (Or.inr ⟨rfl, rfl⟩)
  next => exact proceeds_refl

end Rollback

end AutoDeploy
