import Mathlib.Algebra.Group.Int.Defs
import Mathlib.Algebra.Group.Nat.Defs
import Mathlib.Data.Option.Basic
import Mathlib.Data.Rat.Defs
import Mathlib.Logic.Function.Basic

namespace AutoDeploy

inductive ProgressStage
  | queued
  | downloading
  | validating
  | backingUp
  | installing
  | restarting
  | healthcheck
  | rollback
  | succeeded
  | failed
deriving DecidableEq

def ProgressStage.isTerminal : ProgressStage → Bool
  | .succeeded | .failed => true
  | _ => false

structure ProgressSnapshot where
  appID : String
  jobID : String
  tag : String
  phase : ProgressStage
  downloadedBytes : Int
  totalBytes : Int
  speedBPS : ℚ
  percent : ℚ
  updatedAt : Int
deriving DecidableEq

/-- `finishedAt` is `none` where the Go field is the zero time. -/
structure ProgressEntry where
  snapshot : ProgressSnapshot
  finishedAt : Option Int
deriving DecidableEq

/-- The map of the tracker, with one entry for each app at most. -/
structure ProgressTracker where
  entries : String → Option ProgressEntry

namespace ProgressTracker

def empty : ProgressTracker := ⟨fun _ => none⟩

def start (now : Int) (appID jobID tag : String) (pt : ProgressTracker) : ProgressTracker where
  entries := Function.update pt.entries appID
    (some ⟨⟨appID, jobID, tag, .downloading, 0, -1, 0, -1, now⟩, none⟩)

/-- Missing entries are ignored. -/
def mutate (appID : String) (fn : ProgressEntry → ProgressEntry) (pt : ProgressTracker) :
    ProgressTracker where
  entries := Function.update pt.entries appID ((pt.entries appID).map fn)

/-- The number that a `float64` stands for, where it is neither infinite nor a NaN. -/
def float64Value (x : Float.Model) : ℚ :=
  match x.unpack with
  | .finite .positive mantissa e _ => mkRat (mantissa * 2 ^ e.toNat) (2 ^ (-e).toNat)
  | .finite .negative mantissa e _ => -mkRat (mantissa * 2 ^ e.toNat) (2 ^ (-e).toNat)
  | _ => 0

/-- The quotient is rounded, and so is its product with 100. -/
def percentOf (downloaded total : Int) : ℚ :=
  float64Value (.ofInt downloaded / .ofInt total * .ofInt 100)

def update (now : Int) (appID : String) (downloaded total : Int) (speedBPS : ℚ) :
    ProgressTracker → ProgressTracker :=
  mutate appID fun e =>
    { e with snapshot := { e.snapshot with
        downloadedBytes := downloaded
        totalBytes := if 0 < total then total else -1
        speedBPS := speedBPS
        percent := if 0 < total then percentOf downloaded total else -1
        updatedAt := now } }

def setPhase (now : Int) (appID : String) (phase : ProgressStage) :
    ProgressTracker → ProgressTracker :=
  mutate appID fun e => { e with snapshot := { e.snapshot with phase := phase, updatedAt := now } }

def finish (now : Int) (appID : String) : ProgressTracker → ProgressTracker :=
  mutate appID fun e =>
    ⟨{ e.snapshot with phase := .succeeded, updatedAt := now }, some now⟩

def fail (now : Int) (appID : String) : ProgressTracker → ProgressTracker :=
  mutate appID fun e => ⟨{ e.snapshot with phase := .failed, updatedAt := now }, some now⟩

def snapshot (pt : ProgressTracker) (appID : String) : Option ProgressSnapshot :=
  (pt.entries appID).map ProgressEntry.snapshot

/-- In nanoseconds. -/
def graceWindow : Int := 30 * 1000000000

def cleanup (now : Int) (pt : ProgressTracker) : ProgressTracker where
  entries appID := (pt.entries appID).filter fun e =>
    match e.finishedAt with
    | some finishedAt => now - finishedAt < graceWindow
    | none => true

/-- The deployment of the job is over, and `Cleanup` takes its entry away in the end. -/
structure Closed (pt : ProgressTracker) (appID jobID : String) : Prop where
  finished : ∃ e, pt.entries appID = some e ∧ e.snapshot.jobID = jobID ∧
    e.snapshot.phase.isTerminal = true ∧ e.finishedAt.isSome = true
  removed : ∃ finishedAt, ∀ now, finishedAt + graceWindow ≤ now →
    (pt.cleanup now).entries appID = none
  reported : ∀ now snapshot, (pt.cleanup now).snapshot appID = some snapshot →
    snapshot.phase.isTerminal = true

/-- The deployment of the job goes on, as far as the tracker knows. -/
def Opened (pt : ProgressTracker) (appID jobID : String) : Prop :=
  ∃ e, pt.entries appID = some e ∧ e.snapshot.jobID = jobID ∧
    e.snapshot.phase.isTerminal = false ∧ e.finishedAt = none

section Entry

variable {pt : ProgressTracker} {now : Int} {appID jobID tag : String}

theorem closed_entry {e : ProgressEntry} {finishedAt : Int} (hentry : pt.entries appID = some e)
    (hjob : e.snapshot.jobID = jobID) (hphase : e.snapshot.phase.isTerminal = true)
    (hfinished : e.finishedAt = some finishedAt) : pt.Closed appID jobID := by
  refine ⟨⟨e, hentry, hjob, hphase, by simp [hfinished]⟩, ⟨finishedAt, ?_⟩, ?_⟩
  · intro now hnow
    simp only [cleanup, hentry, Option.filter_some, hfinished]
    rw [if_neg (by simp; omega)]
  · intro now snapshot hsnapshot
    obtain ⟨e', hcleanup, rfl⟩ := Option.map_eq_some_iff.mp hsnapshot
    have he' := (Option.filter_eq_some_iff.mp hcleanup).1
    rw [hentry, Option.some.injEq] at he'
    exact he' ▸ hphase

/-- An open entry stays, whenever `Cleanup` runs. -/
theorem Opened.cleanup (h : pt.Opened appID jobID) : (pt.cleanup now).Opened appID jobID := by
  obtain ⟨e, hentry, hjob, hphase, hfinished⟩ := h
  exact ⟨e, by simp [ProgressTracker.cleanup, hentry, hfinished], hjob, hphase, hfinished⟩

theorem Opened.not_closed (h : pt.Opened appID jobID) : ¬ pt.Closed appID jobID := by
  obtain ⟨e, hentry, -, hphase, -⟩ := h
  rintro ⟨⟨e', hentry', -, hphase', -⟩, -, -⟩
  rw [hentry, Option.some.injEq] at hentry'
  rw [hentry', hphase'] at hphase
  cases hphase

theorem start_opened : (pt.start now appID jobID tag).Opened appID jobID :=
  ⟨_, Function.update_self .., rfl, rfl, rfl⟩

theorem mutate_entry {fn : ProgressEntry → ProgressEntry} {e : ProgressEntry}
    (h : pt.entries appID = some e) : (pt.mutate appID fn).entries appID = some (fn e) := by
  simp [mutate, h]

theorem Opened.update {downloaded total : Int} {speedBPS : ℚ} (h : pt.Opened appID jobID) :
    (pt.update now appID downloaded total speedBPS).Opened appID jobID := by
  obtain ⟨e, hentry, hjob, hphase, hfinished⟩ := h
  exact ⟨_, mutate_entry hentry, hjob, hphase, hfinished⟩

theorem Opened.setPhase {phase : ProgressStage} (h : pt.Opened appID jobID)
    (hphase : phase.isTerminal = false) : (pt.setPhase now appID phase).Opened appID jobID := by
  obtain ⟨e, hentry, hjob, -, hfinished⟩ := h
  exact ⟨_, mutate_entry hentry, hjob, hphase, hfinished⟩

theorem Opened.finish (h : pt.Opened appID jobID) : (pt.finish now appID).Closed appID jobID := by
  obtain ⟨e, hentry, hjob, -, -⟩ := h
  exact closed_entry (mutate_entry hentry) hjob rfl rfl

theorem Opened.fail (h : pt.Opened appID jobID) : (pt.fail now appID).Closed appID jobID := by
  obtain ⟨e, hentry, hjob, -, -⟩ := h
  exact closed_entry (mutate_entry hentry) hjob rfl rfl

end Entry

end ProgressTracker

end AutoDeploy
