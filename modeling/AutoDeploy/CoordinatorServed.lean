import AutoDeploy.CoordinatorThreads

namespace AutoDeploy

open Interleaving

/-- The scheduler is going to start a deploy of the app, and has put it into the map. -/
def SchedulerStage.Spawns (stage : SchedulerStage) (id : String) : Prop :=
  ∃ app jobID tag rest, stage = .spawning app jobID tag rest ∧ app.id = id

/-- Nobody waits for a call that is not there, no two goroutines wait for one call, and an app in
the map of active apps is one that a goroutine will take out of it. -/
structure Served (stage : SchedulerStage) (runs : List Run) (activeApps : List String)
    (threads : ServerThreads) : Prop where
  waited : ∀ w, Waits stage runs w → ∃ rest, threads[w.1]? = some ⟨w.2, some rest⟩
  unique : ∀ (i j : ℕ) (run run' : Run) (w w' : ℕ × Call), runs[i]? = some run →
    runs[j]? = some run' → run.waits = some w → run'.waits = some w' → w.1 = w'.1 → i = j
  apart : ∀ (i : ℕ) (run : Run) (w w' : ℕ × Call), stage.waits = some w → runs[i]? = some run →
    run.waits = some w' → w.1 ≠ w'.1
  marking : ∀ (i : ℕ) (run : Run), runs[i]? = some run → run.stage = .marking → run.waits ≠ none
  active : ∀ id ∈ activeApps, SomeRun runs (fun run => run.alive ∧ run.app.id = id) ∨
    stage.Spawns id

section Served

variable {stage stage' : SchedulerStage} {runs : List Run} {activeApps : List String}
  {threads : ServerThreads}

theorem Served.lt (inv : Served stage runs activeApps threads) {w : ℕ × Call}
    (h : Waits stage runs w) : w.1 < threads.length := by
  obtain ⟨rest, hthread⟩ := inv.waited w h
  exact (List.getElem?_eq_some_iff.mp hthread).1

/-- A new thread, for which nobody waits yet. -/
theorem Served.begin (inv : Served stage runs activeApps threads) {thread : Thread Server Choice
    StoreEvent Reply Call} : Served stage runs activeApps (threads ++ [thread]) where
  waited w h := by
    obtain ⟨rest, hthread⟩ := inv.waited w h
    exact ⟨rest, by rw [List.getElem?_append_left (inv.lt h)]; exact hthread⟩
  unique := inv.unique
  apart := inv.apart
  marking := inv.marking
  active := inv.active

/-- An action of a thread, which leaves something to do. -/
theorem Served.perform (inv : Served stage runs activeApps threads) {t : ℕ} {call : Call}
    {p next : Op Reply} (ht : threads[t]? = some ⟨call, some p⟩) :
    Served stage runs activeApps (threads.set t ⟨call, some next⟩) where
  waited w h := by
    obtain ⟨rest, hthread⟩ := inv.waited w h
    by_cases he : t = w.1
    · subst he
      rw [hthread] at ht
      cases ht
      exact ⟨next, List.getElem?_set_self (inv.lt h)⟩
    · exact ⟨rest, by rw [List.getElem?_set_ne he]; exact hthread⟩
  unique := inv.unique
  apart := inv.apart
  marking := inv.marking
  active := inv.active

/-- A thread returns for which nobody waits. -/
theorem Served.finish (inv : Served stage runs activeApps threads) {t : ℕ}
    {thread : Thread Server Choice StoreEvent Reply Call}
    (hnobody : ∀ w, Waits stage runs w → t ≠ w.1) :
    Served stage runs activeApps (threads.set t thread) where
  waited w h := by
    obtain ⟨rest, hthread⟩ := inv.waited w h
    exact ⟨rest, by rw [List.getElem?_set_ne (hnobody w h)]; exact hthread⟩
  unique := inv.unique
  apart := inv.apart
  marking := inv.marking
  active := inv.active

/-- The scheduler goes on, and waits for nothing. -/
theorem Served.moveStage (inv : Served stage runs activeApps threads)
    (hnone : stage'.waits = none) (hspawns : ∀ id, stage.Spawns id → stage'.Spawns id) :
    Served stage' runs activeApps threads where
  waited w h := by
    rcases h with hw | hw
    · rw [hnone] at hw
      cases hw
    · exact inv.waited w (Or.inr hw)
  unique := inv.unique
  apart i run w w' h := by
    rw [hnone] at h
    cases h
  marking := inv.marking
  active id h := (inv.active id h).imp (fun hrun => hrun) (hspawns id)

/-- The scheduler, which waited for nothing, waits for the newest thread. -/
theorem Served.awaits (inv : Served stage runs activeApps threads) {call : Call} {p : Op Reply}
    (hwaits : stage'.waits = some (threads.length, call))
    (hspawns : ∀ id, ¬ stage.Spawns id) :
    Served stage' runs activeApps (threads ++ [⟨call, some p⟩]) where
  waited w h := by
    rcases h with hw | hw
    · rw [hwaits] at hw
      cases hw
      exact ⟨p, by simp⟩
    · obtain ⟨rest, hthread⟩ := inv.waited w (Or.inr hw)
      exact ⟨rest, by rw [List.getElem?_append_left (inv.lt (Or.inr hw))]; exact hthread⟩
  unique := inv.unique
  apart i run w w' h hi hw := by
    rw [hwaits] at h
    cases h
    have hlt := inv.lt (Or.inr ⟨i, run, hi, hw⟩)
    exact ne_of_gt hlt
  marking := inv.marking
  active id h := Or.inl ((inv.active id h).resolve_right (hspawns id))

/-- A goroutine goes on for its app. -/
theorem Served.activeRun (inv : Served stage runs activeApps threads) {i : ℕ} {run new : Run}
    (hi : runs[i]? = some run) (happ : new.app = run.app) (halive : run.alive → new.alive) :
    ∀ id ∈ activeApps, SomeRun (runs.set i new) (fun run => run.alive ∧ run.app.id = id) ∨
      stage.Spawns id := by
  intro id h
  refine (inv.active id h).imp (fun hrun => someRun_forth hi ?_ hrun) (fun hspawns => hspawns)
  rintro ⟨hold, rfl⟩
  exact ⟨halive hold, by rw [happ]⟩

/-- A goroutine that waited for nothing waits for the newest thread. -/
theorem Served.runCalls (inv : Served stage runs activeApps threads) {i : ℕ} {run new : Run}
    {call : Call} {p : Op Reply} (hi : runs[i]? = some run)
    (hwaits : new.waits = some (threads.length, call)) (happ : new.app = run.app)
    (halive : run.alive → new.alive) :
    Served stage (runs.set i new) activeApps (threads ++ [⟨call, some p⟩]) := by
  have hnew : ∀ (j : ℕ) (run' : Run) (w : ℕ × Call), runs[j]? = some run' → run'.waits = some w →
      w.1 ≠ threads.length := by
    intro j run' w hj hw
    exact ne_of_lt (inv.lt (Or.inr ⟨j, run', hj, hw⟩))
  constructor
  · intro w h
    rcases h with hw | ⟨j, run', hj, hw⟩
    · obtain ⟨rest, hthread⟩ := inv.waited w (Or.inl hw)
      exact ⟨rest, by rw [List.getElem?_append_left (inv.lt (Or.inl hw))]; exact hthread⟩
    · rcases set_getElem? hi hj with ⟨-, rfl⟩ | ⟨-, hj⟩
      · rw [hwaits] at hw
        cases hw
        exact ⟨p, by simp⟩
      · have hold : Waits stage runs w := Or.inr ⟨j, run', hj, hw⟩
        obtain ⟨rest, hthread⟩ := inv.waited w hold
        exact ⟨rest, by rw [List.getElem?_append_left (inv.lt hold)]; exact hthread⟩
  · intro j k run₁ run₂ w w' hj hk hw hw' hsame
    rcases set_getElem? hi hj with ⟨rfl, rfl⟩ | ⟨-, hj⟩
    · rcases set_getElem? hi hk with ⟨rfl, rfl⟩ | ⟨-, hk⟩
      · rfl
      · rw [hwaits] at hw
        cases hw
        exact absurd hsame.symm (hnew k run₂ w' hk hw')
    · rename runs[j]? = some run₁ => hold
      rcases set_getElem? hi hk with ⟨rfl, rfl⟩ | ⟨-, hk⟩
      · rw [hwaits] at hw'
        cases hw'
        exact absurd hsame (hnew j run₁ w hold hw)
      · exact inv.unique j k run₁ run₂ w w' hold hk hw hw' hsame
  · intro j run' w w' hstage hj hw
    rcases set_getElem? hi hj with ⟨-, rfl⟩ | ⟨-, hj⟩
    · rw [hwaits] at hw
      cases hw
      exact ne_of_lt (inv.lt (Or.inl hstage))
    · exact inv.apart j run' w w' hstage hj hw
  · refine set_forall (P := fun run => run.stage = .marking → run.waits ≠ none) hi inv.marking ?_
    intro _
    rw [hwaits]
    simp
  · exact inv.activeRun hi happ halive

/-- A goroutine waits for nothing any more. -/
theorem Served.runGoes (inv : Served stage runs activeApps threads) {i : ℕ} {run new : Run}
    {activeApps' : List String} (hi : runs[i]? = some run) (hwaits : new.waits = none)
    (hstage : new.stage ≠ .marking) (hactive : ∀ id ∈ activeApps',
      SomeRun (runs.set i new) (fun run => run.alive ∧ run.app.id = id) ∨ stage.Spawns id) :
    Served stage (runs.set i new) activeApps' threads := by
  constructor
  · intro w h
    rcases h with hw | ⟨j, run', hj, hw⟩
    · exact inv.waited w (Or.inl hw)
    · rcases set_getElem? hi hj with ⟨-, rfl⟩ | ⟨-, hj⟩
      · rw [hwaits] at hw
        cases hw
      · exact inv.waited w (Or.inr ⟨j, run', hj, hw⟩)
  · intro j k run₁ run₂ w w' hj hk hw hw' hsame
    rcases set_getElem? hi hj with ⟨-, rfl⟩ | ⟨-, hj⟩
    · rw [hwaits] at hw
      cases hw
    · rcases set_getElem? hi hk with ⟨-, rfl⟩ | ⟨-, hk⟩
      · rw [hwaits] at hw'
        cases hw'
      · exact inv.unique j k run₁ run₂ w w' hj hk hw hw' hsame
  · intro j run' w w' hwait hj hw
    rcases set_getElem? hi hj with ⟨-, rfl⟩ | ⟨-, hj⟩
    · rw [hwaits] at hw
      cases hw
    · exact inv.apart j run' w w' hwait hj hw
  · exact set_forall (P := fun run => run.stage = .marking → run.waits ≠ none) hi inv.marking
      fun hmarking => absurd hmarking hstage
  · exact hactive

end Served

section Steps

variable {rt : Runtime} {s₀ : Server} {c c' : Coordinator}

theorem waits_internal {stage : SchedulerStage} {runs : List Run} {w : ℕ × Call}
    (calls : ∀ (i : ℕ) (run : Run), runs[i]? = some run → ∀ w, run.waits = some w → run.Calls w.2)
    (h : Waits stage runs w) : w.2.external = false := by
  rcases h with hstage | ⟨i, run, hi, hw⟩
  · cases stage with
    | listing t | dequeuing app rest t =>
      cases hstage
      rfl
    | idle | scanning | free | claimed | spawning | stopped => cases hstage
  · have hcalls := calls i run hi w hw
    unfold Run.Calls at hcalls
    split at hcalls
    next => obtain ⟨phase, h⟩ := hcalls; rw [h]; rfl
    next => obtain ⟨success, errMsg, summary, h⟩ := hcalls; rw [h]; rfl
    next => obtain ⟨log, h⟩ := hcalls; rw [h]; rfl
    next => exact hcalls.elim
    next => exact hcalls.elim

theorem served_step (reach : CoordinatorReaches rt s₀ c)
    (inv : Served c.stage c.runs c.activeApps c.pool.threads) (step : CoordinatorStep rt c c') :
    Served c'.stage c'.runs c'.activeApps c'.pool.threads := by
  have hattended := attended_reaches reach
  cases step with
  | request _ => exact inv.begin
  | @respond t call value hexternal ht =>
    refine inv.finish fun w hw he => ?_
    obtain ⟨rest, hthread⟩ := inv.waited w hw
    rw [← he, ht] at hthread
    have hcall : call = w.2 := congrArg Thread.call (Option.some.inj hthread)
    have hinternal := waits_internal hattended.calls hw
    rw [← hcall, hexternal] at hinternal
    cases hinternal
  | act k ht _ => exact inv.perform ht
  | stop hs => exact inv.moveStage rfl (by simp [hs, SchedulerStage.Spawns])
  | list hs => exact inv.awaits rfl (by simp [hs, SchedulerStage.Spawns])
  | @listed t result hs _ =>
    refine (inv.moveStage ?_ (by simp [hs, SchedulerStage.Spawns])).finish ?_
    · cases result <;> rfl
    · rintro w (hw | ⟨i, run, hi, hw⟩)
      · cases result <;> cases hw
      · exact inv.apart i run (t, .listApps) w (by rw [hs]; rfl) hi hw
  | scanned hs => exact inv.moveStage rfl (by simp [hs, SchedulerStage.Spawns])
  | skip hs _ => exact inv.moveStage rfl (by simp [hs, SchedulerStage.Spawns])
  | free hs _ _ => exact inv.moveStage rfl (by simp [hs, SchedulerStage.Spawns])
  | dequeue hs => exact inv.awaits rfl (by simp [hs, SchedulerStage.Spawns])
  | @dequeued app rest t result hs _ =>
    have hnone : (SchedulerStage.afterDequeue app rest result).waits = none := by
      rcases result with e | _ | picked <;> rfl
    refine (inv.moveStage hnone (by simp [hs, SchedulerStage.Spawns])).finish ?_
    rintro w (hw | ⟨i, run, hi, hw⟩)
    · rw [hnone] at hw
      cases hw
    · exact inv.apart i run (t, .dequeueNext app.id) w (by rw [hs]; rfl) hi hw
  | @claim app jobID tag rest hs =>
    have hmoved : Served (.spawning app jobID tag rest) c.runs c.activeApps c.pool.threads :=
      inv.moveStage rfl (by simp [hs, SchedulerStage.Spawns])
    refine ⟨hmoved.waited, hmoved.unique, hmoved.apart, hmoved.marking, ?_⟩
    intro id hm
    rcases List.mem_cons.mp hm with rfl | hm
    · exact Or.inr ⟨app, jobID, tag, rest, rfl, rfl⟩
    · exact hmoved.active id hm
  | @spawn app jobID tag rest hs =>
    constructor
    · rintro w (hw | hw)
      · cases hw
      · rcases someRun_append.mp hw with hold | hnew
        · exact inv.waited w (Or.inr hold)
        · cases hnew
    · intro i j run run' w w' hi hj hw hw' hsame
      rcases append_getElem? hi with hi | ⟨-, rfl⟩
      · rcases append_getElem? hj with hj | ⟨-, rfl⟩
        · exact inv.unique i j run run' w w' hi hj hw hw' hsame
        · cases hw'
      · cases hw
    · intro i run w w' hw
      cases hw
    · intro i run hi hmarking
      rcases append_getElem? hi with hi | ⟨-, rfl⟩
      · exact inv.marking i run hi hmarking
      · cases hmarking
    · intro id hm
      refine Or.inl (someRun_append.mpr ?_)
      rcases inv.active id hm with hrun | ⟨app', jobID', tag', rest', hspawning, rfl⟩
      · exact Or.inl hrun
      · rw [hs] at hspawning
        cases hspawning
        exact Or.inr ⟨by simp [Run.alive], rfl⟩
  | checkpoint phase hi hs hnone => exact inv.runCalls hi rfl rfl id
  | runnerReturned err summary hi hs hnone =>
    exact inv.runCalls hi rfl rfl fun _ => by simp [Run.alive]
  | captureLog log hi hs hnone _ => exact inv.runCalls hi rfl rfl id
  | noLog hi hs hnone =>
    exact inv.runGoes hi hnone (by simp) (inv.activeRun hi rfl fun _ => by simp [Run.alive])
  | @returned i run t call value hi hw _ =>
    have hmarking : run.stage.afterCall ≠ .marking := by
      cases run.stage <;> simp [RunStage.afterCall]
    have hgoes : Served c.stage (c.runs.set i { run with
        stage := run.stage.afterCall
        waits := none }) c.activeApps c.pool.threads := by
      refine inv.runGoes hi rfl hmarking (inv.activeRun hi rfl fun halive => ?_)
      unfold Run.alive at halive ⊢
      cases hs : run.stage <;> simp_all [RunStage.afterCall]
    refine hgoes.finish ?_
    rintro w (hstage | ⟨j, run', hj, hw'⟩)
    · exact (inv.apart i run w (t, call) hstage hi hw).symm
    · rcases set_getElem? hi hj with ⟨-, rfl⟩ | ⟨hne, hj⟩
      · cases hw'
      · exact fun he => hne (inv.unique j i run' run w (t, call) hj hi hw' hw he.symm)
  | @clear i run hi hs =>
    have hnone : run.waits = none := by
      cases hw : run.waits with
      | none => rfl
      | some w =>
        have hcalls := hattended.calls i run hi w hw
        simp [Run.Calls, hs] at hcalls
    refine inv.runGoes hi hnone (by simp) fun id hm => ?_
    obtain ⟨hm, hne⟩ := List.mem_filter.mp hm
    refine (inv.active id hm).imp ?_ (fun hspawns => hspawns)
    rintro ⟨j, other, hj, halive, rfl⟩
    refine ⟨j, other, ?_, halive, rfl⟩
    rw [List.getElem?_set_ne]
    · exact hj
    · rintro rfl
      rw [hi] at hj
      cases hj
      simp at hne

theorem served_reaches (reach : CoordinatorReaches rt s₀ c) :
    Served c.stage c.runs c.activeApps c.pool.threads := by
  induction reach with
  | start =>
    refine ⟨?_, by simp [Coordinator.started], by simp [Coordinator.started],
      by simp [Coordinator.started], by simp [Coordinator.started]⟩
    rintro w (h | ⟨i, run, hi, -⟩)
    · cases h
    · simp [Coordinator.started] at hi
  | next hreach step ih => exact served_step hreach ih step

end Steps

end AutoDeploy
