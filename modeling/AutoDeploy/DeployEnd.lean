import AutoDeploy.DeployCheckpoints

namespace AutoDeploy

open Interleaving

/-- The artifact is the whole body of a response, and starts like an ELF file. -/
structure Verified (events : List DeployEvent) (art : Content) : Prop where
  found : artifact events = some art
  complete : Complete maxArtifactBytes events art
  magic : art.take 4 = elfMagic

/-- Where a run that started from `d₀` leaves the files. -/
inductive DiskEnd (d₀ disk : Disk) (events : List DeployEvent) (err : Option GoError) : Prop
  | back (failed : err ≠ none) (unpassed : events.any DeployEvent.passes = false)
      (binary : disk.binary = d₀.binary)
      (backup : disk.backup = if events.any DeployEvent.backsUp then none else d₀.backup)
      (existed : events.any DeployEvent.backsUp = true → d₀.binary.isSome = true)
      (answered : d₀.binary.isSome = true → events.any DeployEvent.strands = false ∧
        events.any DeployEvent.abandons = false ∧ events.any DeployEvent.restoreFails = false)
  | stranded (failed : err ≠ none) (unpassed : events.any DeployEvent.passes = false)
      (binary : disk.binary = none) (backup : disk.backup = d₀.binary)
      (existed : d₀.binary.isSome = true)
      (backsUp : events.any DeployEvent.backsUp = true)
      (installs : events.any DeployEvent.installs = false)
      (abandons : events.any DeployEvent.abandons = false)
      (strands : events.any DeployEvent.restoreFails = false →
        events.any DeployEvent.strands = true)
  | left (art : Content) (failed : err ≠ none)
      (unpassed : events.any DeployEvent.passes = false)
      (binary : disk.binary = some art) (found : artifact events = some art)
      (backup : disk.backup = if events.any DeployEvent.backsUp then d₀.binary else d₀.backup)
      (backsUp : events.any DeployEvent.backsUp = d₀.binary.isSome)
      (installs : events.any DeployEvent.installs = true)
      (abandons : d₀.binary.isSome = true → events.any DeployEvent.strands = false ∧
        (events.any DeployEvent.abandons = true ∨ events.any DeployEvent.restoreFails = true))
  | succeeded (art : Content) (done : err = none)
      (passed : events.any DeployEvent.passes = true)
      (binary : disk.binary = some art) (verified : Verified events art)
      (backup : disk.backup = if events.any DeployEvent.backsUp then d₀.binary else d₀.backup)
      (backsUp : events.any DeployEvent.backsUp = d₀.binary.isSome)
      (active : ∃ out, lastActivity events = some (out, none) ∧
        GoStrings.trimSpace out = "active")

/-- How a run leaves its job, before the worker marks it. -/
inductive StatusEnd (d₀ : Disk) (events : List DeployEvent) (w : DeployWorld)
    (err : Option GoError) : Prop
  | canceled (stopped : err = some errDeployCanceled) (row : w.row.status = .canceled)
      (binary : w.disk.binary = d₀.binary) (tmp : w.disk.tmp = none)
      (resolver : events.any DeployEvent.stopsResolver = false)
      (seen : events.any DeployEvent.stops = true)
      (unhindered : events.any DeployEvent.faults = false)
      (possible : events.any DeployEvent.installs = true → d₀.binary.isSome = true)
  | other (finished : err ≠ some errDeployCanceled)
      (row : w.row.isRunning = true ∨ (w.row.status = .failed ∧ err ≠ none))
      (stops : events.any DeployEvent.stops = true → events.any DeployEvent.faults = true ∨
        (d₀.binary = none ∧ events.any DeployEvent.installs = true))

/-- Everything that is said about the end of a run. -/
structure DeployEnd (d₀ : Disk) (own : List DeployStep) (w : DeployWorld)
    (err : Option GoError) : Prop where
  disk : DiskEnd d₀ w.disk (emissions own) err
  status : StatusEnd d₀ (emissions own) w err
  gap : (emissions own).any DeployEvent.backsUp = true →
    ∃ st ∈ own, st.after.disk.binary = none
  kept : (emissions own).any DeployEvent.backsUp = false → d₀.binary.isSome = true →
    ∀ st ∈ own, st.after.disk.binary = d₀.binary

section End

variable {control : Bool} {d₀ : Disk} {own own' : List DeployStep} {w w' : DeployWorld}
  {events events' : List DeployEvent} {err : Option GoError}

theorem GoError.Foreign.ne_deployCanceled {e : GoError} (h : e.Foreign) :
    some e ≠ some errDeployCanceled := by
  intro he
  obtain rfl := Option.some.inj he
  exact Bool.noConfusion h.2

theorem GoError.Foreign.errorf {e : GoError} (h : e.Foreign) (context : String) :
    (GoError.errorf context e).Foreign :=
  h

theorem Verified.append {art : Content} (h : Verified events art) :
    Verified (events ++ events') art :=
  ⟨artifact_found h.found, h.complete.append, h.magic⟩

theorem DiskEnd.append (h : DiskEnd d₀ w.disk events err)
    (hbinary : w'.disk.binary = w.disk.binary) (hbackup : w'.disk.backup = w.disk.backup)
    (hu : Unmarked events')
    (hactivity : lastActivity events' = none) : DiskEnd d₀ w'.disk (events ++ events') err := by
  cases h with
  | back failed unpassed binary backup existed answered =>
    refine .back failed ?_ (hbinary.trans binary) ?_ ?_ ?_
    · simp [hu.passes, unpassed]
    · simpa [hu.backsUp] using hbackup.trans backup
    · simpa [hu.backsUp] using existed
    · simpa [hu.strands, hu.abandons, hu.restoreFails] using answered
  | stranded failed unpassed binary backup existed backsUp installs abandons strands =>
    refine .stranded failed ?_ (hbinary.trans binary) (hbackup.trans backup) existed ?_ ?_ ?_ ?_
    · simp [hu.passes, unpassed]
    · simp [backsUp]
    · simp [hu.installs, installs]
    · simp [hu.abandons, abandons]
    · simpa [hu.strands, hu.restoreFails] using strands
  | left art failed unpassed binary found backup backsUp installs abandons =>
    refine .left art failed ?_ (hbinary.trans binary) (artifact_found found) ?_ ?_ ?_ ?_
    · simp [hu.passes, unpassed]
    · simpa [hu.backsUp] using hbackup.trans backup
    · simpa [hu.backsUp] using backsUp
    · simp [installs]
    · simpa [hu.strands, hu.abandons, hu.restoreFails] using abandons
  | succeeded art done passed binary verified backup backsUp active =>
    refine .succeeded art done ?_ (hbinary.trans binary) ?_ ?_ ?_ ?_
    · simp [passed]
    · exact verified.append
    · simpa [hu.backsUp] using hbackup.trans backup
    · simpa [hu.backsUp] using backsUp
    · rwa [lastActivity_append hactivity]

/-- What happens after the end of a run leaves it as it is. -/
theorem DeployEnd.leaves (h : DeployEnd d₀ own w err)
    (hl : Leaves control own own' w w' events') (hstill : Still events')
    (hactivity : lastActivity events' = none) (htmp : w.disk.tmp = none → w'.disk.tmp = none) :
    DeployEnd d₀ own' w' err := by
  have hu := hstill.unmarked
  constructor
  · rw [hl.events]
    exact h.disk.append hl.binary hl.backup hu hactivity
  · rw [hl.events]
    cases h.status with
    | canceled stopped row binary tmp resolver seen unhindered possible =>
      refine .canceled stopped ?_ (hl.binary.trans binary) (htmp tmp) ?_ ?_ ?_ ?_
      · rw [hl.settled (by simp [JobRow.canceled, row])]
        exact row
      · simp [hu.stopsResolver, resolver]
      · simp [seen]
      · simp [hstill.faults, unhindered]
      · simpa [hu.installs] using possible
    | other finished row stops =>
      refine .other finished ?_ ?_
      · rcases row with hrunning | ⟨hfailed, herr⟩
        · exact Or.inl (hl.running hrunning)
        · rw [hl.settled (by simp [JobRow.canceled, hfailed])]
          exact Or.inr ⟨hfailed, herr⟩
      · simpa [hstill.stops, hstill.faults, hu.installs] using stops
  · intro hbacksUp
    simp only [hl.events, List.any_append, hu.backsUp, Bool.or_false] at hbacksUp
    obtain ⟨st, hst, hgap⟩ := h.gap hbacksUp
    exact ⟨st, hl.grows st hst, hgap⟩
  · intro hbacksUp hexisted st hst
    simp only [hl.events, List.any_append, hu.backsUp, Bool.or_false] at hbacksUp
    have hbinary : w.disk.binary = d₀.binary := by
      cases h.disk with
      | back _ _ binary => exact binary
      | stranded _ _ _ _ _ backsUp => simp [backsUp] at hbacksUp
      | left art _ _ _ _ _ backsUp => simp [backsUp, hexisted] at hbacksUp
      | succeeded art _ _ _ _ _ backsUp => simp [backsUp, hexisted] at hbacksUp
    rcases hl.steps st hst with hold | ⟨hnew, -⟩
    · exact h.kept hbacksUp hexisted st hold
    · exact hnew.trans hbinary

theorem failed_wp {d : Deployment} {summary : DownloadSummary} {cleanup : Bool} {e : GoError}
    (h : DeployEnd d₀ own w (some e)) :
    (failed d summary cleanup e).Wp (fun own' w' exit => DeployEnd d₀ own' w' exit.err) own w := by
  unfold failed
  apply Prog.wp_bind (@trackerFail_wp d.control _ _ _)
  rintro own' w' _ ⟨hl, hdisk⟩
  exact h.leaves hl rfl rfl fun htmp => hdisk ▸ htmp

theorem stopped_wp {d : Deployment} {summary : DownloadSummary} {cleanup : Bool} {e : GoError}
    (h : DeployEnd d₀ own w (some e)) :
    (stopped d summary cleanup e).Wp (fun own' w' exit => DeployEnd d₀ own' w' exit.err) own w := by
  unfold stopped
  split
  next => exact h
  next => exact failed_wp h

/-- The job at the end of a cancel whose files are back in place. -/
theorem statusEnd_conclude {e : GoError} (hresolver : events.any DeployEvent.stopsResolver = false)
    (hseen : events.any DeployEvent.stops = true)
    (hunhindered : events.any DeployEvent.faults = false)
    (hpossible : events.any DeployEvent.installs = true → d₀.binary.isSome = true)
    (haside : Aside events') (hbinary : w.disk.binary = d₀.binary) (htmp : w.disk.tmp = none)
    (h : (e.Foreign ∧ w.row.status = .cancelRequested ∧
        events'.any DeployEvent.faults = true) ∨
      (e = errDeployCanceled ∧ w.row.status = .canceled ∧
        events'.any DeployEvent.faults = false)) :
    StatusEnd d₀ (events ++ events') w (some e) := by
  rcases h with ⟨hforeign, hrow, hfaults⟩ | ⟨rfl, hrow, hfaults⟩
  · refine .other hforeign.ne_deployCanceled (Or.inl ?_) fun _ => Or.inl ?_
    · simp [JobRow.isRunning, JobStatus.isRunning, hrow]
    · simp [hfaults]
  · refine .canceled rfl hrow hbinary htmp ?_ ?_ ?_ ?_
    · simp [hresolver, haside.unmarked.stopsResolver]
    · simp [hseen]
    · simp [hunhindered, hfaults]
    · simpa [haside.unmarked.installs] using hpossible

/-- The job at the end of a cancel that could not put the files back. -/
theorem statusEnd_failed {e : GoError} (hforeign : e.Foreign)
    (hrow : w.row.isRunning = true ∨ w.row.status = .failed)
    (hstops : events.any DeployEvent.stops = true → events.any DeployEvent.faults = true ∨
      (d₀.binary = none ∧ events.any DeployEvent.installs = true)) :
    StatusEnd d₀ events w (some e) := by
  refine .other hforeign.ne_deployCanceled ?_ hstops
  rcases hrow with hrunning | hfailed
  · exact Or.inl hrunning
  · exact Or.inr ⟨hfailed, by simp⟩

end End

end AutoDeploy
