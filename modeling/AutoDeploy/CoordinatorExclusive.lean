import AutoDeploy.Coordinator

namespace AutoDeploy

open Interleaving

/-- The goroutine has not yet left the map of active apps. -/
def Run.alive (run : Run) : Prop := run.stage ≠ .ended

/-- The app that the scheduler has found free and is going to start a deploy for. -/
def SchedulerStage.app? : SchedulerStage → Option App
  | free app _ | dequeuing app _ _ | claimed app _ _ _ | spawning app _ _ _ => some app
  | _ => none

/-- What the map of active apps and the position of the scheduler say about the deploys. -/
structure Exclusive (stage : SchedulerStage) (runs : List Run) (activeApps : List String) :
    Prop where
  unique : ∀ (i j : ℕ) (run run' : Run), runs[i]? = some run → runs[j]? = some run' →
    run.alive → run'.alive → run.app.id = run'.app.id → i = j
  active : ∀ (i : ℕ) (run : Run), runs[i]? = some run → run.alive → run.app.id ∈ activeApps
  apart : ∀ (app : App), stage.app? = some app → ∀ (i : ℕ) (run : Run), runs[i]? = some run →
    run.alive → run.app.id ≠ app.id
  spawning : ∀ (app : App) (jobID tag : String) (rest : List App),
    stage = .spawning app jobID tag rest → app.id ∈ activeApps

theorem set_getElem? {runs : List Run} {i j : ℕ} {old new run : Run} (hi : runs[i]? = some old)
    (h : (runs.set i new)[j]? = some run) :
    (j = i ∧ run = new) ∨ (j ≠ i ∧ runs[j]? = some run) := by
  by_cases he : i = j
  · subst he
    rw [List.getElem?_set_self (List.getElem?_eq_some_iff.mp hi).1] at h
    exact Or.inl ⟨rfl, (Option.some.inj h).symm⟩
  · rw [List.getElem?_set_ne he] at h
    exact Or.inr ⟨Ne.symm he, h⟩

theorem append_getElem? {runs : List Run} {j : ℕ} {new run : Run}
    (h : (runs ++ [new])[j]? = some run) :
    runs[j]? = some run ∨ (j = runs.length ∧ run = new) := by
  by_cases hlt : j < runs.length
  · rw [List.getElem?_append_left hlt] at h
    exact Or.inl h
  · rw [List.getElem?_append_right (by omega), List.getElem?_singleton] at h
    split at h
    next => exact Or.inr ⟨by omega, (Option.some.inj h).symm⟩
    next => simp at h

/-- Any property of the runs that a change of one run keeps. -/
theorem set_forall {runs : List Run} {i : ℕ} {old new : Run} {P : Run → Prop}
    (hi : runs[i]? = some old) (h : ∀ (j : ℕ) (run : Run), runs[j]? = some run → P run)
    (hnew : P new) : ∀ (j : ℕ) (run : Run), (runs.set i new)[j]? = some run → P run := by
  intro j run hj
  rcases set_getElem? hi hj with ⟨-, rfl⟩ | ⟨-, hj⟩
  · exact hnew
  · exact h j run hj

/-- Some goroutine of the list has the property. -/
def SomeRun (runs : List Run) (P : Run → Prop) : Prop :=
  ∃ (i : ℕ) (run : Run), runs[i]? = some run ∧ P run

theorem someRun_forth {runs : List Run} {i : ℕ} {old new : Run} {P : Run → Prop}
    (hi : runs[i]? = some old) (keep : P old → P new) (h : SomeRun runs P) :
    SomeRun (runs.set i new) P := by
  obtain ⟨j, run, hj, hP⟩ := h
  by_cases he : i = j
  · subst he
    rw [hi] at hj
    cases hj
    exact ⟨i, new, List.getElem?_set_self (List.getElem?_eq_some_iff.mp hi).1, keep hP⟩
  · exact ⟨j, run, by rw [List.getElem?_set_ne he]; exact hj, hP⟩

theorem someRun_back {runs : List Run} {i : ℕ} {old new : Run} {P : Run → Prop}
    (hi : runs[i]? = some old) (keep : P new → P old) (h : SomeRun (runs.set i new) P) :
    SomeRun runs P := by
  obtain ⟨j, run, hj, hP⟩ := h
  rcases set_getElem? hi hj with ⟨-, rfl⟩ | ⟨-, hj⟩
  · exact ⟨i, old, hi, keep hP⟩
  · exact ⟨j, run, hj, hP⟩

theorem someRun_append {runs : List Run} {new : Run} {P : Run → Prop} :
    SomeRun (runs ++ [new]) P ↔ SomeRun runs P ∨ P new := by
  constructor
  · rintro ⟨j, run, hj, hP⟩
    rcases append_getElem? hj with hj | ⟨-, rfl⟩
    · exact Or.inl ⟨j, run, hj, hP⟩
    · exact Or.inr hP
  · rintro (⟨j, run, hj, hP⟩ | hP)
    · refine ⟨j, run, ?_, hP⟩
      rw [List.getElem?_append_left (List.getElem?_eq_some_iff.mp hj).1]
      exact hj
    · exact ⟨runs.length, new, by simp, hP⟩

section Exclusive

variable {stage stage' : SchedulerStage} {runs : List Run} {activeApps : List String}

theorem Exclusive.moveStage (inv : Exclusive stage runs activeApps)
    (happ : stage'.app? = stage.app? ∨ stage'.app? = none)
    (hspawning : ∀ app jobID tag rest, stage' ≠ .spawning app jobID tag rest) :
    Exclusive stage' runs activeApps where
  unique := inv.unique
  active := inv.active
  apart app h := by
    rcases happ with hsame | hnone
    · exact inv.apart app (hsame ▸ h)
    · simp [hnone] at h
  spawning app jobID tag rest h := absurd h (hspawning app jobID tag rest)

theorem Exclusive.setRun (inv : Exclusive stage runs activeApps) {i : ℕ} {old new : Run}
    (hi : runs[i]? = some old) (happ : new.app = old.app) (halive : new.alive → old.alive) :
    Exclusive stage (runs.set i new) activeApps where
  unique j k run run' hj hk ha hb hid := by
    rcases set_getElem? hi hj with ⟨hji, hrun⟩ | ⟨-, hj'⟩
    · subst hji hrun
      rcases set_getElem? hi hk with ⟨hki, -⟩ | ⟨-, hk'⟩
      · exact hki.symm
      · exact inv.unique j k old run' hi hk' (halive ha) hb (happ ▸ hid)
    · rcases set_getElem? hi hk with ⟨hki, hrun⟩ | ⟨-, hk'⟩
      · subst hki hrun
        exact inv.unique j k run old hj' hi ha (halive hb) (happ ▸ hid)
      · exact inv.unique j k run run' hj' hk' ha hb hid
  active := set_forall hi inv.active fun h => happ ▸ inv.active i old hi (halive h)
  apart app h :=
    set_forall hi (inv.apart app h) fun ha => happ ▸ inv.apart app h i old hi (halive ha)
  spawning := inv.spawning

/-- A finished goroutine takes its app out of the map, and no other goroutine has that app. -/
theorem Exclusive.clear (inv : Exclusive stage runs activeApps) {i : ℕ} {run : Run}
    (hi : runs[i]? = some run) (halive : run.alive) :
    Exclusive stage (runs.set i { run with stage := .ended })
      (activeApps.filter fun id => !(id == run.app.id)) := by
  have hset : Exclusive stage (runs.set i { run with stage := .ended }) activeApps :=
    inv.setRun hi rfl fun h => absurd rfl h
  refine ⟨hset.unique, ?_, hset.apart, ?_⟩
  · intro j other hj ha
    have hmem := hset.active j other hj ha
    rcases set_getElem? hi hj with ⟨-, rfl⟩ | ⟨hne, hj⟩
    · exact absurd rfl ha
    · refine List.mem_filter.mpr ⟨hmem, ?_⟩
      have hid : other.app.id ≠ run.app.id :=
        fun he => hne (inv.unique j i other run hj hi ha halive he)
      simpa using hid
  · intro app jobID tag rest h
    have hid := inv.apart app (by simp [h, SchedulerStage.app?]) i run hi halive
    exact List.mem_filter.mpr ⟨inv.spawning app jobID tag rest h, by simpa using Ne.symm hid⟩

end Exclusive

theorem alive_afterCall {run : Run} {waits : Option (ℕ × Call)}
    (h : Run.alive { run with stage := run.stage.afterCall, waits := waits }) : run.alive := by
  intro hs
  rw [Run.alive, hs] at h
  exact h rfl

/-- The exclusion of deploys by app is kept by every step of every participant. -/
theorem exclusive_step {rt : Runtime} {c c' : Coordinator}
    (inv : Exclusive c.stage c.runs c.activeApps) (step : CoordinatorStep rt c c') :
    Exclusive c'.stage c'.runs c'.activeApps := by
  cases step with
  | request _ => exact inv
  | respond _ _ => exact inv
  | act k _ _ => exact inv
  | stop _ => exact inv.moveStage (Or.inr rfl) (by simp)
  | list _ => exact inv.moveStage (Or.inr rfl) (by simp)
  | @listed t result _ _ =>
    cases result with
    | error e => exact inv.moveStage (Or.inr rfl) (by simp [SchedulerStage.afterList])
    | ok apps => exact inv.moveStage (Or.inr rfl) (by simp [SchedulerStage.afterList])
  | scanned _ => exact inv.moveStage (Or.inr rfl) (by simp)
  | skip _ _ => exact inv.moveStage (Or.inr rfl) (by simp)
  | @free app rest hs henabled hbusy =>
    refine ⟨inv.unique, inv.active, ?_, by simp⟩
    intro other hother i run hi ha he
    cases hother
    exact hbusy (he ▸ inv.active i run hi ha)
  | dequeue hs => exact inv.moveStage (Or.inl (by simp [hs, SchedulerStage.app?])) (by simp)
  | @dequeued app rest t result hs _ =>
    match result with
    | .error e => exact inv.moveStage (Or.inr rfl) (by simp [SchedulerStage.afterDequeue])
    | .ok none => exact inv.moveStage (Or.inr rfl) (by simp [SchedulerStage.afterDequeue])
    | .ok (some (jobID, tag)) =>
      exact inv.moveStage (Or.inl (by simp [hs, SchedulerStage.app?, SchedulerStage.afterDequeue]))
        (by simp [SchedulerStage.afterDequeue])
  | @claim app jobID tag rest hs =>
    refine ⟨inv.unique, ?_, ?_, ?_⟩
    · intro i run hi ha
      exact List.mem_cons_of_mem _ (inv.active i run hi ha)
    · intro other hother
      exact inv.apart other (by simpa [hs, SchedulerStage.app?] using hother)
    · intro other _ _ _ hother
      cases hother
      exact List.mem_cons_self
  | @spawn app jobID tag rest hs =>
    have hactive := inv.spawning app jobID tag rest hs
    have hapart := inv.apart app (by simp [hs, SchedulerStage.app?])
    refine ⟨?_, ?_, by simp [SchedulerStage.app?], by simp⟩
    · intro i j run run' hi hj ha hb hid
      rcases append_getElem? hi with hi | ⟨rfl, rfl⟩
      · rcases append_getElem? hj with hj | ⟨rfl, rfl⟩
        · exact inv.unique i j run run' hi hj ha hb hid
        · exact absurd hid (hapart i run hi ha)
      · rcases append_getElem? hj with hj | ⟨rfl, rfl⟩
        · exact absurd hid.symm (hapart j run' hj hb)
        · rfl
    · intro i run hi ha
      rcases append_getElem? hi with hi | ⟨rfl, rfl⟩
      · exact inv.active i run hi ha
      · exact hactive
  | checkpoint phase hi hs _ => exact inv.setRun hi rfl id
  | runnerReturned err summary hi hs _ => exact inv.setRun hi rfl fun _ => by simp [Run.alive, hs]
  | captureLog log hi hs _ _ => exact inv.setRun hi rfl id
  | noLog hi hs _ => exact inv.setRun hi rfl fun _ => by simp [Run.alive, hs]
  | returned hi _ _ => exact inv.setRun hi rfl alive_afterCall
  | clear hi hs => exact inv.clear hi (by simp [Run.alive, hs])

theorem exclusive_reaches {rt : Runtime} {s₀ : Server} {c : Coordinator}
    (reach : CoordinatorReaches rt s₀ c) : Exclusive c.stage c.runs c.activeApps := by
  induction reach with
  | start => exact ⟨by simp [Coordinator.started], by simp [Coordinator.started],
      by simp [Coordinator.started], by simp [Coordinator.started]⟩
  | next _ step ih => exact exclusive_step ih step

end AutoDeploy
