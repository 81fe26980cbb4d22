import AutoDeploy.DeployRollback

namespace AutoDeploy

open Interleaving

section Install

variable {d : Deployment} {summary : DownloadSummary} {control : Bool} {d₀ : Disk}
  {backedUp : Bool} {art : Content} {installed : Bool} {own own₁ own' : List DeployStep}
  {w w₁ w' : DeployWorld} {events : List DeployEvent}

theorem Kept.proceeds (h : Kept control own w (fun _ : Unit => []) own' w' ()) :
    Proceeds control own w own' w' :=
  ⟨_, h.1, rfl, h.2⟩

/-- A run that fails with the files of the swap in place. -/
theorem Ongoing.fails {e : GoError} (h : Ongoing d₀ backedUp art installed own w)
    (hl : Leaves control own own' w w' events) (hcause : Cause backedUp installed events)
    (hstops : events.any DeployEvent.stops = false) (hforeign : e.Foreign) :
    DeployEnd d₀ own' w' (some e) := by
  apply h.toSwapped.stays hl.toExtends hcause
  apply statusEnd_failed hforeign (Or.inl (hl.running h.running))
  simp [hl.events, h.stops, hstops]

/-- A run that fails and has restored the backup. -/
theorem Swapped.fails_restored {content : Content} {e : GoError}
    (h : Swapped d₀ true art installed own w) (hrunning : w.row.isRunning = true)
    (hcalm : (emissions own).any DeployEvent.stops = false)
    (hm : Moves control own own₁ w w₁ .backup .binary content)
    (hl : Leaves control own₁ own' w₁ w' events) (haside : Aside events)
    (hstops : events.any DeployEvent.stops = false) (hforeign : e.Foreign) :
    DeployEnd d₀ own' w' (some e) := by
  apply h.restored hm hl.toExtends haside
  apply statusEnd_failed hforeign (Or.inl (hl.running (hm.running hrunning)))
  simp [hl.events, hm.events, hcalm, hstops, DeployEvent.stops]

/-- A healthy artifact ends the run. -/
theorem Ongoing.passed {out : String} (h : Ongoing d₀ backedUp art true own w)
    (hl : Leaves control own own' w w' [.checkedActive out none])
    (hactive : GoStrings.trimSpace out = "active") : DeployEnd d₀ own' w' none := by
  have hbacksUp : (emissions own').any DeployEvent.backsUp = backedUp := by
    simp [hl.events, h.backsUp, DeployEvent.backsUp]
  refine ⟨.succeeded art rfl ?_ ?_ ?_ ?_ ?_ ⟨out, ?_, hactive⟩, ?_, ?_, ?_⟩
  · simp [hl.events, DeployEvent.passes, hactive]
  · exact hl.binary.trans h.binary
  · rw [hl.events]
    exact h.verified.append
  · rw [hl.backup, h.backup, hbacksUp]
  · exact hbacksUp.trans h.existed
  · rw [hl.events, lastActivity, List.reverse_append]
    rfl
  · refine .other (by simp) (Or.inl (hl.running h.running)) ?_
    simp [hl.events, h.stops, DeployEvent.stops]
  · intro hb
    obtain ⟨st, hst, hgap⟩ := h.gap (hbacksUp.symm.trans hb)
    exact ⟨st, hl.grows st hst, hgap⟩
  · intro hb hexisted
    rw [hbacksUp, h.existed, hexisted] at hb
    cases hb

/-- The rename that installs the artifact. -/
theorem Ongoing.install {content : Content} (h : Ongoing d₀ backedUp art false own w)
    (hm : Moves control own own' w w' .tmp .binary content) :
    Ongoing d₀ backedUp art true own' w' := by
  have hsource : w.disk.tmp = some content := hm.source
  have hart : content = art := Option.some.inj (hsource.symm.trans h.tmp)
  refine ⟨⟨h.existed, ?_, ?_, ?_, ?_, ?_, ?_, ?_, ?_, ?_, ?_, ?_⟩, hm.running h.running, ?_, ?_,
    ?_⟩
  · rw [hm.disk, hart]
    rfl
  · rw [hm.disk]
    exact h.backup
  · rw [hm.events]
    exact h.verified.append
  · simp [hm.events, h.backsUp, DeployEvent.backsUp]
  · simp [hm.events, DeployEvent.installs]
  · simp [hm.events, h.strands, DeployEvent.strands]
  · simp [hm.events, h.abandons, DeployEvent.abandons]
  · simp [hm.events, h.restoreFails, DeployEvent.restoreFails]
  · simp [hm.events, h.stopsResolver, DeployEvent.stopsResolver]
  · simp [hm.events, h.passes, DeployEvent.passes]
  · intro hbackedUp
    obtain ⟨st, hst, hgap⟩ := h.gap hbackedUp
    exact ⟨st, hm.grows st hst, hgap⟩
  · rw [hm.disk]
    rfl
  · simp [hm.events, h.stops, DeployEvent.stops]
  · simp [hm.events, h.faults, DeployEvent.faults]

theorem deployRollback_wp (h : Ongoing d₀ backedUp art true own w) :
    (deployRollback d summary backedUp).Wp (fun own' w' exit => DeployEnd d₀ own' w' exit.err)
      own w := by
  unfold deployRollback
  apply Prog.wp_bind (@trackerSetPhase_wp d.control _ _ _ _)
  rintro own₁ w₁ _ hkept₁
  have h₁ := h.proceeds hkept₁.proceeds
  cases backedUp with
  | true =>
    apply Prog.wp_bind (@renameFile_wp d.control _ _ _ _)
    rintro own₂ w₂ err (⟨e, rfl, ⟨hl₂, -⟩, hforeign⟩ | ⟨rfl, content, hm⟩)
    · exact failed_wp (h₁.fails hl₂ cause_restoreFails rfl (hforeign.errorf _))
    · apply Prog.wp_bind (@systemctlRestart_wp d.control _ _ _)
      rintro own₃ w₃ ⟨err, out⟩ ⟨⟨hl₃, -⟩, hforeign⟩
      have hend : ∀ e : GoError, e.Foreign → DeployEnd d₀ own₃ w₃ (some e) := fun e he =>
        h₁.toSwapped.fails_restored h₁.running h₁.stops hm hl₃ rfl rfl he
      cases err with
      | some e => exact failed_wp (hend _ (hforeign e rfl))
      | none => exact failed_wp (hend _ (foreign_new _))
  | false =>
    exact failed_wp (h₁.fails (leaves_refl true _ _) (cause_first rfl) rfl (foreign_new _))

theorem still_checkedActive {out : String} {err : Option GoError}
    (h : (DeployEvent.checkedActive out err).passes = false) : Still [.checkedActive out err] := by
  simp [DeployEvent.still, DeployEvent.aside, h, DeployEvent.strands, DeployEvent.abandons,
    DeployEvent.restoreFails, DeployEvent.stopsResolver, DeployEvent.stops, DeployEvent.faults,
    DeployEvent.backsUp, DeployEvent.installs]

theorem deployHealthcheck_wp {n : ℕ} (h : Ongoing d₀ backedUp art true own w) :
    (deployHealthcheck d summary backedUp n).Wp (fun own' w' exit => DeployEnd d₀ own' w' exit.err)
      own w := by
  induction n generalizing own w with
  | zero => exact deployRollback_wp h
  | succ n ih =>
    unfold deployHealthcheck
    apply Prog.wp_bind (checkpointRollbackInstalled_wp h rfl)
    rintro own₁ w₁ (_ | e) hchecked
    · have h₁ := h.proceeds hchecked
      apply Prog.wp_bind (@systemctlIsActive_wp d.control _ _)
      rintro own₂ w₂ ⟨err, out⟩ ⟨hl₂, hdisk₂⟩
      simp only
      split
      next hactive =>
        obtain ⟨rfl, hactive⟩ := hactive
        apply Prog.wp_bind (@trackerFinish_wp d.control _ _ _)
        rintro own₃ w₃ _ ⟨hl₃, hdisk₃⟩
        exact (h₁.passed hl₂ hactive).leaves hl₃ rfl rfl fun htmp => hdisk₃ ▸ htmp
      next hinactive =>
        refine ih (h₁.proceeds ⟨_, hl₂, ?_, hdisk₂⟩)
        apply still_checkedActive
        cases err with
        | some e => rfl
        | none => simpa [DeployEvent.passes] using hinactive
    · exact stopped_wp hchecked

theorem deployRestart_wp (h : Ongoing d₀ backedUp art true own w) :
    (deployRestart d summary backedUp).Wp (fun own' w' exit => DeployEnd d₀ own' w' exit.err)
      own w := by
  unfold deployRestart
  apply Prog.wp_bind (@trackerSetPhase_wp d.control _ _ _ _)
  rintro own₁ w₁ _ hkept₁
  have h₁ := h.proceeds hkept₁.proceeds
  apply Prog.wp_bind (@systemctlRestart_wp d.control _ _ _)
  rintro own₂ w₂ ⟨err, out⟩ ⟨⟨hl₂, hdisk₂⟩, hforeign⟩
  cases err with
  | some e =>
    have hcause : Cause backedUp true [.restarted .installed (some e)] :=
      ⟨rfl, rfl, rfl, by simp, fun _ _ => ⟨rfl, Or.inl rfl⟩⟩
    exact failed_wp (h₁.fails hl₂ hcause rfl (hforeign e rfl))
  | none =>
    have h₂ := h₁.proceeds ⟨_, hl₂, rfl, hdisk₂⟩
    apply Prog.wp_bind (checkpointRollbackInstalled_wp h₂ rfl)
    rintro own₃ w₃ (_ | e) hchecked
    · have h₃ := h₂.proceeds hchecked
      apply Prog.wp_bind (@trackerSetPhase_wp d.control _ _ _ _)
      rintro own₄ w₄ _ hkept₄
      exact deployHealthcheck_wp (h₃.proceeds hkept₄.proceeds)
    · exact stopped_wp hchecked

theorem deployInstall_wp (h : Ongoing d₀ backedUp art false own w) :
    (deployInstall d summary backedUp).Wp (fun own' w' exit => DeployEnd d₀ own' w' exit.err)
      own w := by
  unfold deployInstall
  apply Prog.wp_bind (@trackerSetPhase_wp d.control _ _ _ _)
  rintro own₁ w₁ _ hkept₁
  have h₁ := h.proceeds hkept₁.proceeds
  apply Prog.wp_bind (@renameFile_wp d.control _ _ _ _)
  rintro own₂ w₂ err (⟨e, rfl, ⟨hl₂, hdisk₂⟩, hforeign⟩ | ⟨rfl, content, hm⟩)
  · have h₂ := h₁.proceeds ⟨_, hl₂, rfl, hdisk₂⟩
    apply Prog.wp_bind (@trackerFail_wp d.control _ _ _)
    rintro own₃ w₃ _ hkept₃
    have h₃ := h₂.proceeds hkept₃.proceeds
    cases backedUp with
    | true =>
      apply Prog.wp_bind (@renameFile_wp d.control _ _ _ _)
      rintro own₄ w₄ err (⟨e', rfl, ⟨hl₄, -⟩, -⟩ | ⟨rfl, content, hm⟩)
      · exact h₃.fails hl₄ cause_restoreFails rfl hforeign
      · exact h₃.toSwapped.fails_restored h₃.running h₃.stops hm (leaves_refl d.control _ _) rfl
          rfl hforeign
    | false => exact h₃.fails (leaves_refl true _ _) (cause_first rfl) rfl hforeign
  · have h₂ := h₁.install hm
    apply Prog.wp_bind (checkpointRollbackInstalled_wp h₂ rfl)
    rintro own₃ w₃ (_ | e) hchecked
    · exact deployRestart_wp (h₂.proceeds hchecked)
    · exact stopped_wp hchecked

theorem deployBackedUp_wp (h : Ongoing d₀ backedUp art false own w) :
    (deployBackedUp d summary backedUp).Wp (fun own' w' exit => DeployEnd d₀ own' w' exit.err)
      own w := by
  unfold deployBackedUp
  apply Prog.wp_bind (checkpointRestoreBackup_wp h)
  rintro own' w' (_ | e) hchecked
  · exact deployInstall_wp (h.proceeds hchecked)
  · exact stopped_wp hchecked

end Install

end AutoDeploy
