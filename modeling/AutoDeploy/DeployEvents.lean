import AutoDeploy.DeployArtifact

namespace AutoDeploy

open Interleaving

namespace DeployEvent

/-- The backup took the binary away from its path. -/
def backsUp : DeployEvent → Bool
  | renamed .binary .backup none => true
  | _ => false

/-- The artifact took the place of the binary. -/
def installs : DeployEvent → Bool
  | renamed .tmp .binary none => true
  | _ => false

/-- The rename that restores the backup failed. -/
def restoreFails : DeployEvent → Bool
  | renamed .backup .binary (some _) => true
  | _ => false

/-- A failure between the backup and the install that the code answers without a restore. -/
def strands : DeployEvent → Bool
  | statusRead .backupComplete (.error _) => true
  | removed (.checkpoint .backupComplete) (some err) => !err.is .notExist
  | _ => false

/-- A failure after the install that the code answers without a rollback. -/
def abandons : DeployEvent → Bool
  | restarted .installed (some _) => true
  | statusRead .installing (.error _) | statusRead .restarting (.error _)
  | statusRead .healthcheck (.error _) => true
  | _ => false

/-- The deploy sees an accepted cancel, at a checkpoint or in the context of its download. -/
def stops : DeployEvent → Bool
  | contextErr (some _) => true
  | statusRead _ (.ok .cancelRequested) => true
  | _ => false

/-- The resolver stops because the context of the download is canceled. -/
def stopsResolver : DeployEvent → Bool
  | resolved (some err) => err.is .contextCanceled
  | _ => false

/-- A cleanup, rollback or database step fails. -/
def faults : DeployEvent → Bool
  | statusRead _ (.error _) => true
  | markedTerminal _ _ (some _) => true
  | removed (.checkpoint _) (some err) => !err.is .notExist
  | renamed .backup .binary (some _) => true
  | restarted .rolledBack (some _) => true
  | _ => false

/-- The health check passes. -/
def passes : DeployEvent → Bool
  | checkedActive out none => GoStrings.trimSpace out == "active"
  | _ => false

/-- The bytes of a complete copy. -/
def copied? : DeployEvent → Option Content
  | copied bytes none => some bytes
  | _ => none

/-- The answer of `systemctl is-active`. -/
def activity? : DeployEvent → Option (String × Option GoError)
  | checkedActive out err => some (out, err)
  | _ => none

/-- An event that says nothing about where the files are or why the resolver stopped. -/
def aside (e : DeployEvent) : Bool :=
  !(e.backsUp || e.installs || e.strands || e.abandons || e.restoreFails || e.stopsResolver ||
    e.passes)

/-- An event aside that shows neither a cancel nor a failure that the cancel would have met. -/
def still (e : DeployEvent) : Bool := e.aside && !e.stops && !e.faults

end DeployEvent

/-- The artifact that the run downloaded. -/
def artifact (events : List DeployEvent) : Option Content := events.findSome? DeployEvent.copied?

/-- The last answer of `systemctl is-active`. -/
def lastActivity (events : List DeployEvent) : Option (String × Option GoError) :=
  events.reverse.findSome? DeployEvent.activity?

abbrev Aside (events : List DeployEvent) : Prop := events.all DeployEvent.aside = true

abbrev Still (events : List DeployEvent) : Prop := events.all DeployEvent.still = true

section Marks

variable {events events' : List DeployEvent} {p q : DeployEvent → Bool}

theorem any_false (h : events.all q = true) (hpq : ∀ e, q e = true → p e = false) :
    events.any p = false := by
  rw [List.any_eq_false]
  intro e he
  simpa using hpq e (List.all_eq_true.mp h e he)

/-- No event of the list says where the files are. -/
structure Unmarked (events : List DeployEvent) : Prop where
  backsUp : events.any DeployEvent.backsUp = false
  installs : events.any DeployEvent.installs = false
  strands : events.any DeployEvent.strands = false
  abandons : events.any DeployEvent.abandons = false
  restoreFails : events.any DeployEvent.restoreFails = false
  stopsResolver : events.any DeployEvent.stopsResolver = false
  passes : events.any DeployEvent.passes = false

theorem Aside.unmarked (h : Aside events) : Unmarked events := by
  constructor <;> exact any_false h fun e => by simp +contextual [DeployEvent.aside]

theorem Still.aside (h : Still events) : Aside events := by
  apply List.all_eq_true.mpr
  intro e he
  have hstill := List.all_eq_true.mp h e he
  simp only [DeployEvent.still, Bool.and_eq_true] at hstill
  exact hstill.1.1

theorem Still.unmarked (h : Still events) : Unmarked events := h.aside.unmarked

theorem Still.stops (h : Still events) : events.any DeployEvent.stops = false :=
  any_false h fun e => by simp +contextual [DeployEvent.still]

theorem Still.faults (h : Still events) : events.any DeployEvent.faults = false :=
  any_false h fun e => by simp +contextual [DeployEvent.still]

theorem aside_append (h : Aside events) (h' : Aside events') : Aside (events ++ events') := by
  simp only [Aside, List.all_append, Bool.and_eq_true] at *
  exact ⟨h, h'⟩

theorem aside_singleton {e : DeployEvent} (h : e.aside = true) : Aside [e] := by
  simpa [Aside] using h

theorem unmarked_singleton {e : DeployEvent} (h : e.aside = true) : Unmarked [e] :=
  (aside_singleton h).unmarked

theorem still_append (h : Still events) (h' : Still events') : Still (events ++ events') := by
  simp only [Still, List.all_append, Bool.and_eq_true] at *
  exact ⟨h, h'⟩

theorem still_snoc (h : Still events) (e : DeployEvent) (he : e.still = true) :
    Still (events ++ [e]) := by
  apply still_append h
  simpa [Still] using he

theorem artifact_append (h : artifact events = none) :
    artifact (events ++ events') = artifact events' := by
  unfold artifact at *
  rw [List.findSome?_append, h]
  rfl

theorem artifact_found {art : Content} (h : artifact events = some art) :
    artifact (events ++ events') = some art := by
  unfold artifact at *
  rw [List.findSome?_append, h]
  rfl

theorem lastActivity_append (h : lastActivity events' = none) :
    lastActivity (events ++ events') = lastActivity events := by
  unfold lastActivity at *
  rw [List.reverse_append, List.findSome?_append, h]
  rfl

end Marks

end AutoDeploy
