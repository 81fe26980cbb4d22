import AutoDeploy.DeployBackup

namespace AutoDeploy

open Interleaving

/-- The world at the start of a run. -/
def DeployWorld.begins (row : JobRow) (disk : Disk) (tracker : ProgressTracker) : DeployWorld :=
  ⟨row, disk, false, false, tracker⟩

section Run

variable {d : Deployment} {control : Bool} {d₀ : Disk} {own own' : List DeployStep}
  {w w' : DeployWorld} {events : List DeployEvent}

theorem deployDownloadContext_wp : (deployDownloadContext d).Wp (fun own' w' _ =>
    Kept d.control own w (fun _ => []) own' w' () ∧ w'.Watched d.control) own w := by
  unfold deployDownloadContext internal
  apply wp_call
  intro k
  have hwatched : ∀ w : DeployWorld, ({ w with ctxCanceled := false, watching := d.control } :
      DeployWorld).Watched d.control := fun w => ⟨fun h => h, by simp⟩
  exact ⟨⟨leaves_call rfl rfl rfl fun _ => hwatched _, rfl⟩, hwatched _⟩

theorem stopDownloadCancelWatcher_wp :
    stopDownloadCancelWatcher.Wp (Kept control own w fun _ => []) own w :=
  wp_internal (fun _ _ => rfl) (fun _ _ => rfl) fun _ _ h => ⟨by simp, h.canceled⟩

theorem resolveArtifactDownload_wp : (resolveArtifactDownload d).Wp (fun own' w' result =>
    ∃ events, Leaves d.control own own' w w' events ∧ w'.disk = w.disk ∧
      ((∃ target, result = .ok target ∧ Still events ∧ artifact events = none) ∨
        ∃ e, result = .error e ∧ events = [.resolved (some e)] ∧
          e.is .deployCanceled = false)) own w := by
  unfold resolveArtifactDownload
  split
  next =>
    apply wp_call
    intro k
    cases k.resolved with
    | error e =>
      exact ⟨_, leaves_call rfl rfl rfl fun h => h, rfl,
        Or.inr ⟨_, rfl, rfl, clientErr_not_deployCanceled⟩⟩
    | ok target =>
      exact ⟨_, leaves_call rfl rfl rfl fun h => h, rfl, Or.inl ⟨_, rfl, rfl, rfl⟩⟩
  next => exact ⟨_, leaves_refl _ _ _, rfl, Or.inl ⟨_, rfl, rfl, rfl⟩⟩

/-- A deploy whose resolver fails is a failed one, whatever the reason. -/
theorem Untouched.unresolved {e e' : GoError} (h : Untouched d₀ own w)
    (hrunning : w.row.isRunning = true) (hstill : Still (emissions own))
    (hl : Leaves control own own' w w' [.resolved (some e)]) (he' : e'.is .deployCanceled = false) :
    DeployEnd d₀ own' w' (some e') := by
  have hu := hstill.unmarked
  have hbacksUp : (emissions own').any DeployEvent.backsUp = false := by
    simp [hl.events, hu.backsUp, DeployEvent.backsUp]
  refine ⟨.back (by simp) ?_ (hl.binary.trans h.binary) ?_ ?_ ?_, .other ?_ ?_ ?_, ?_, ?_⟩
  · simp [hl.events, hu.passes, DeployEvent.passes]
  · simpa [hbacksUp] using hl.backup.trans h.backup
  · simp [hbacksUp]
  · simp [hl.events, hu.strands, hu.abandons, hu.restoreFails, DeployEvent.strands,
      DeployEvent.abandons, DeployEvent.restoreFails]
  · intro heq
    rw [Option.some.inj heq] at he'
    cases he'
  · exact Or.inl (hl.running hrunning)
  · simp [hl.events, hstill.stops, DeployEvent.stops]
  · simp [hbacksUp]
  · intro _ _ st hst
    rcases hl.steps st hst with hold | ⟨hnew, -⟩
    · exact h.kept st hold
    · exact hnew.trans h.binary

/-- A download that a cancel stopped. -/
theorem DownloadFailed.canceledCleanup {err : GoError} (h : Untouched d₀ own w)
    (hstill : Still (emissions own)) (hl : Leaves control own own' w w' events)
    (hfailed : DownloadFailed control w' events err)
    (hcanceled : err.is .contextCanceled = true) :
    (finishCanceledCleanup d.jobID).Wp (fun own' w' result =>
      DeployEnd d₀ own' w' (some (result.getD errDeployCanceled))) own' w' :=
  finishCanceledCleanup_wp (h.extends hl.toExtends (aside_of_ofDownload hfailed.ofDownload))
    (hfailed.canceled hcanceled).2 (by simp [hl.events, hfailed.seen hcanceled])
    (by simp [hl.events, hstill.faults, faults_of_ofDownload hfailed.ofDownload])

theorem deployDownload_wp (h : Untouched d₀ own w) (hrunning : w.row.isRunning = true)
    (hstill : Still (emissions own)) (hunfetched : artifact (emissions own) = none) :
    (deployDownload d).Wp (fun own' w' exit => DeployEnd d₀ own' w' exit.err) own w := by
  unfold deployDownload
  apply Prog.wp_bind deployDownloadContext_wp
  rintro own₁ w₁ _ ⟨hkept₁, hwatched₁⟩
  have hc₁ := hkept₁.proceeds
  apply Prog.wp_bind resolveArtifactDownload_wp
  rintro own₂ w₂ result ⟨events₂, hl₂, hdisk₂, ⟨target, rfl, hstill₂, hunfetched₂⟩ |
    ⟨e, rfl, rfl, he⟩⟩
  · have hc₂ := hc₁.trans ⟨_, hl₂, hstill₂, hdisk₂⟩
    have h₂ := h.proceeds hc₂
    have hready₂ : Ready d.control w₂ := hl₂.ready ⟨hc₁.running hrunning, hwatched₁⟩
    have hunfetched' : artifact (emissions own₂) = none := by
      rw [hl₂.events, hkept₁.1.events, List.append_nil, artifact_append hunfetched]
      exact hunfetched₂
    apply Prog.wp_bind (downloadBinaryContext_wp (leaves_refl d.control own₂ w₂) hready₂ rfl rfl
      (show 0 ≤ maxArtifactBytes by decide) (show maxArtifactBytes < 0x7fffffffffffffff by decide))
    rintro own₃ w₃ downloaded ⟨events₃, hl₃, hfetched⟩
    apply Prog.wp_bind (@stopDownloadCancelWatcher_wp d.control _ _)
    rintro own₄ w₄ _ ⟨hl₄, hdisk₄⟩
    have hl := hl₃.trans hl₄
    rw [List.append_nil] at hl
    cases downloaded with
    | error err =>
      have hfailed : DownloadFailed d.control w₄ events₃ err :=
        ⟨hfetched.ofDownload, hfetched.notCanceled, fun hcanceled =>
          ⟨(hfetched.canceled hcanceled).1, hl₄.requested (hfetched.canceled hcanceled).2⟩,
          hfetched.seen, hfetched.still⟩
      simp only
      split
      next hcanceled =>
        apply Prog.wp_bind (hfailed.canceledCleanup h₂ (hc₂.still hstill) hl hcanceled.1)
        rintro own₅ w₅ (_ | e) hend
        · exact hend
        · exact failed_wp hend
      next hordinary =>
        have hforeign : err.is .contextCanceled = false := by
          by_contra hcanceled
          rw [Bool.not_eq_false] at hcanceled
          exact hordinary ⟨hcanceled, (hfailed.canceled hcanceled).1⟩
        have hstill₄ := hfailed.still hforeign
        apply failed_wp
        apply (h₂.extends hl.toExtends hstill₄.aside).failed (hl.running hready₂.running)
        · rw [hl.events]
          exact still_append (hc₂.still hstill) hstill₄
        · exact ⟨hforeign, hfailed.notCanceled⟩
    | ok summary =>
      obtain ⟨hstill₃, art, htmp, hfound, hcomplete⟩ := hfetched
      suffices hdownloaded : Downloaded d₀ art own₄ w₄ from deployValidate_wp hdownloaded
      refine ⟨h₂.extends hl.toExtends hstill₃.aside, hl.running hready₂.running, ?_,
        hdisk₄ ▸ htmp, ?_, ?_⟩
      · rw [hl.events]
        exact still_append (hc₂.still hstill) hstill₃
      · rw [hl.events, artifact_append hunfetched']
        exact hfound
      · obtain ⟨url, headers, resp, hrequested, hrest⟩ := hcomplete
        rw [hl.events]
        exact ⟨url, headers, resp, List.mem_append_right _ hrequested, hrest⟩
  · apply Prog.wp_bind (@stopDownloadCancelWatcher_wp d.control _ _)
    rintro own₃ w₃ _ ⟨hl₃, hdisk₃⟩
    have hend : DeployEnd d₀ own₂ w₂ (some (.errorf "resolve artifact download: " e)) :=
      (h.proceeds hc₁).unresolved (hc₁.running hrunning) (hc₁.still hstill) hl₂ he
    exact failed_wp (hend.leaves hl₃ rfl rfl fun htmp => hdisk₃ ▸ htmp)

theorem deployBody_wp {row : JobRow} {disk : Disk} {tracker : ProgressTracker}
    (hrunning : row.isRunning = true) :
    (deployBody d).Wp (fun own' w' exit => DeployEnd disk own' w' exit.err) []
      (.begins row disk tracker) := by
  unfold deployBody
  apply Prog.wp_bind (@trackerStart_wp d.control _ _ _ _ _)
  rintro own₁ w₁ _ ⟨hl₁, -⟩
  have h₀ : Untouched disk [] (.begins row disk tracker) := ⟨rfl, rfl, rfl, by simp⟩
  have h₁ := h₀.extends hl₁.toExtends rfl
  have hrunning₁ : w₁.row.isRunning = true := hl₁.running hrunning
  have hevents₁ : emissions own₁ = [] := by
    rw [hl₁.events]
    rfl
  simp only
  split
  next =>
    apply Prog.wp_bind (@mkdirAll_wp d.control _ _ _)
    rintro own₂ w₂ err ⟨⟨hl₂, -⟩, hforeign⟩
    have h₂ := h₁.extends hl₂.toExtends (aside_singleton rfl)
    have hevents₂ : emissions own₂ = [.madeDir (GoStrings.filepathDir d.app.binaryPath) err] := by
      rw [hl₂.events, hevents₁]
      rfl
    cases err with
    | some e =>
      apply failed_wp
      exact h₂.failed (hl₂.running hrunning₁) (hevents₂ ▸ rfl) ((hforeign e rfl).errorf _)
    | none =>
      exact deployDownload_wp h₂ (hl₂.running hrunning₁) (hevents₂ ▸ rfl) (hevents₂ ▸ rfl)
  next => exact deployDownload_wp h₁ hrunning₁ (hevents₁ ▸ rfl) (hevents₁ ▸ rfl)

theorem deployArtifact_wp {row : JobRow} {disk : Disk} {tracker : ProgressTracker}
    (hrunning : row.isRunning = true) :
    (deployArtifact d).Wp (fun own' w' exit => DeployEnd disk own' w' exit.err) []
      (.begins row disk tracker) := by
  unfold deployArtifact
  apply Prog.wp_bind (deployBody_wp hrunning)
  rintro own₁ w₁ exit hend
  split
  next =>
    apply Prog.wp_bind (@osRemove_wp d.control _ _ _)
    rintro own₂ w₂ err ⟨hl₂, -, htmp, -, -⟩
    exact hend.leaves hl₂ (by cases err <;> rfl) rfl htmp
  next => exact hend

end Run

/-- A deploy of a job that runs, with everything from outside that it depends on. -/
structure Deploying where
  deployment : Deployment
  row : JobRow
  tracker : ProgressTracker
  answers : ℕ → Answer
  running : row.isRunning = true

namespace Deploying

/-- The run of `DeployArtifact`, on these files. -/
def run (i : Deploying) (disk : Disk) : Outcome DeployWorld DeployEvent DeployExit :=
  (deployArtifact i.deployment).alone i.answers (.begins i.row disk i.tracker)

/-- The run of `DeployArtifact`, and the worker's `MarkDone`. -/
def runJob (i : Deploying) (disk : Disk) :
    Outcome DeployWorld DeployEvent (DeployExit × Option GoError) :=
  (runDeploy i.deployment).alone i.answers (.begins i.row disk i.tracker)

/-- How every run ends, whatever happens around it. -/
theorem run_end (i : Deploying) (disk : Disk) :
    DeployEnd disk (i.run disk).steps (i.run disk).state (i.run disk).value.err := by
  have hwp : (deployArtifact i.deployment).Wp (fun own' w' exit => DeployEnd disk own' w' exit.err)
      [] (.begins i.row disk i.tracker) := deployArtifact_wp i.running
  simpa [run] using Prog.alone_wp i.answers hwp

end Deploying

/-- An answer of a machine where every call works and the release has this artifact. -/
def Answer.calm (art : Content) : Answer where
  cancel := false
  poll := false
  now := 0
  fault := none
  resolved := .ok ("https://api.github.com/assets/1", [])
  response := .ok ⟨200, art.length, art, none, false⟩
  stored := 0
  reports := []
  durationMs := 0
  speedBPS := 0
  output := "active\n"

/-- A machine where only this call fails. -/
def failsAt (n : ℕ) (art : Content) (m : ℕ) : Answer :=
  if m = n then { Answer.calm art with fault := some "exit status 1" } else .calm art

def binaryA : Content := elfMagic ++ [1]

def binaryB : Content := elfMagic ++ [2]

/-- A deploy of one app on a machine that answers like this. -/
def deployingApp (answers : ℕ → Answer) : Deploying where
  deployment := ⟨⟨"app", "app", "hash", "/opt/app/bin", "app.service", "owner/repo", "bin", true⟩,
    "job", "v2", true, true⟩
  row := ⟨"job", 1, "app", "v2", .inProgress, .webhook, none, none, 0, 0, 0, ""⟩
  tracker := .empty
  answers := answers
  running := rfl

end AutoDeploy
