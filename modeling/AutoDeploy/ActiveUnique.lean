import AutoDeploy.JobActionCalls

namespace AutoDeploy

open Interleaving

/-- The replies that say a job was queued, with what they say about its row. -/
inductive Accepted : Call → Reply → String → String → Trigger → Prop
  | enqueue {appID tag : String} :
    Accepted (.enqueue appID tag) (.queued (.ok ())) appID tag .webhook
  | enqueueManual {appID tag : String} :
    Accepted (.enqueueManual appID tag) (.queued (.ok ())) appID tag .manualDeploy
  | createRetryJob {originalJobID appID tag jobID : String} :
    Accepted (.createRetryJob originalJobID appID tag) (.retried (.ok jobID)) appID tag .manualRetry
  | admission {bearerToken tag : String} {app : App} {result : AdmissionResult} :
    result.outcome = .queued → result.app = some app →
    Accepted (.admissionAdmit bearerToken tag) (.admitted result) app.id tag .webhook

/-- The replies that refuse a job, with the reason they give. -/
inductive Refused : Call → Reply → String → String → QueueError → Prop
  | enqueue {appID tag : String} {reason : QueueError} :
    Refused (.enqueue appID tag) (.queued (.error reason)) appID tag reason
  | enqueueManual {appID tag : String} {reason : QueueError} :
    Refused (.enqueueManual appID tag) (.queued (.error reason)) appID tag reason
  | createRetryJob {originalJobID appID tag : String} {reason : QueueError} :
    Refused (.createRetryJob originalJobID appID tag) (.retried (.error reason)) appID tag reason

theorem accepted_queued {rt : Runtime} {call : Call} {value : Reply} {own : List ServerStep}
    {appID tag : String} {trigger : Trigger} (h : Accepted call value appID tag trigger)
    (hreturns : Returns rt call own value) : ∃ row, QueuedRow appID tag trigger own row := by
  cases h with
  | enqueue => exact hreturns
  | enqueueManual => exact hreturns
  | createRetryJob =>
    obtain ⟨row, hrow, -⟩ := hreturns
    exact ⟨row, hrow⟩
  | admission hqueued happ =>
    simp only [Returns, hqueued, ↓reduceIte] at hreturns
    obtain ⟨app, ha, hrow⟩ := hreturns
    cases happ.symm.trans ha
    exact hrow

theorem refused_empty {rt : Runtime} {call : Call} {value : Reply} {own : List ServerStep}
    {appID tag : String} {reason : QueueError} (h : Refused call value appID tag reason)
    (hreturns : Returns rt call own value) : QueueRefused rt.maxPending appID tag own reason := by
  cases h with
  | enqueue => exact hreturns
  | enqueueManual => exact hreturns
  | createRetryJob => exact hreturns

section Runs

variable {rt : Runtime} {s₀ : Server} {cfg : ServerConfig}

/-- A published snapshot was read from the table at some step of the run. -/
theorem cache_traced (start : s₀.activeCache = none) (reach : rt.Reaches s₀ cfg) :
    ∀ m, cfg.shared.activeCache = some m →
      ∃ st ∈ steps cfg.history, m = st.before.jobs.activeKeys := by
  refine server_invariant (J := fun s history => ∀ m, s.activeCache = some m →
    ∃ st ∈ steps history, m = st.before.jobs.activeKeys) ?_ ?_ ?_ ?_ reach
  · intro m hm
    simp [start] at hm
  · intro s history t call ih
    simpa using ih
  · intro history t call step ih h
    have hkept : step.after.activeCache = step.before.activeCache →
        ∀ m, step.after.activeCache = some m →
          ∃ st ∈ steps (history ++ [.acted t call step]), m = st.before.jobs.activeKeys := by
      intro hsame m hm
      obtain ⟨st, hst, he⟩ := ih m (hsame ▸ hm)
      exact ⟨st, by simp [hst], he⟩
    cases h with
    | quiet _ _ hcache =>
      rcases hcache with hsame | hnone | ⟨st, hst, hsome⟩
      · exact hkept hsame
      · intro m hm
        simp [hnone] at hm
      · intro m hm
        obtain rfl := Option.some.inj (hsome.symm.trans hm)
        exact ⟨st, by simp [(ownSteps_sublist t history).subset hst], rfl⟩
    | inserted _ _ _ _ _ _ hsame => exact hkept hsame
    | dequeued _ _ _ _ _ hsame => exact hkept hsame
    | rewritten _ _ _ _ hsame => exact hkept hsame
    | canceled _ _ _ _ hsame => exact hkept hsame
    | deleted _ _ _ _ hsame => exact hkept hsame
  · intro s history t call value ih _
    simpa using ih

/-- A row of this app and this tag was active at some moment of the run. -/
def WasActive (s₀ : Server) (cfg : ServerConfig) (appID tag : String) : Prop :=
  ∃ s ∈ visited s₀ cfg.history, ∃ row ∈ s.jobs.rows,
    row.isActive = true ∧ row.appID = appID ∧ row.tag = tag

theorem duplicate_wasActive (start : s₀.activeCache = none) (reach : rt.Reaches s₀ cfg) {t : ℕ}
    {appID tag : String} (h : DuplicateSeen appID tag (ownSteps t cfg.history)) :
    WasActive s₀ cfg appID tag := by
  obtain ⟨m, ⟨st, hst, hfrom⟩, hkey⟩ := h
  have hread : ∃ st ∈ steps cfg.history, m = st.before.jobs.activeKeys := by
    rcases hfrom with hcached | hread
    · obtain ⟨call, hm⟩ := mem_ownSteps.mp hst
      obtain ⟨pre, post, hsplit⟩ := List.append_of_mem hm
      obtain ⟨there, hreach, hhistory, hshared⟩ := reaches_before reach hsplit
      obtain ⟨first, hfirst, he⟩ := cache_traced start hreach m (hshared ▸ hcached)
      refine ⟨first, ?_, he⟩
      rw [hsplit, steps_append, ← hhistory]
      exact List.mem_append_left _ hfirst
    · exact ⟨st, (ownSteps_sublist t cfg.history).subset hst, hread⟩
  obtain ⟨first, hfirst, rfl⟩ := hread
  obtain ⟨row, hrow, hfacts⟩ := Jobs.mem_activeKeys.mp hkey
  exact ⟨first.before, before_mem_visited reach hfirst, row, hrow, hfacts⟩

/-- No call inserts twice. -/
theorem inserts_atMostOnce (reach : rt.Reaches s₀ cfg) (t : ℕ) :
    (insertsIn (ownSteps t cfg.history)).length ≤ 1 := by
  refine server_invariant (J := fun _ history => (insertsIn (ownSteps t history)).length ≤ 1)
    ?_ ?_ ?_ ?_ reach
  · simp [ownSteps, insertsIn, emissions]
  · intro s history u call ih
    simpa using ih
  · intro history u call step ih h
    by_cases he : u = t
    · subst he
      rw [ownSteps_acted_self, insertsIn_append]
      cases h with
      | quiet _ hpublished _ =>
        have hstep : Continues (ownSteps u history) (ownSteps u history ++ [step]) :=
          continues_step hpublished
        have hsame := hstep.insertsIn
        rw [insertsIn_append] at hsame
        rw [hsame]
        exact ih
      | inserted _ _ hfirst _ _ hemit _ =>
        rw [hfirst]
        simp [insertsIn, hemit, StoreEvent.insertedRow]
      | dequeued _ _ _ _ hemit _ =>
        simpa [insertsIn, hemit, StoreEvent.insertedRow, List.filterMap_cons] using ih
      | rewritten _ _ _ hemit _ => simpa [insertsIn, hemit] using ih
      | canceled _ _ _ hemit _ =>
        simpa [insertsIn, hemit, StoreEvent.insertedRow, Function.comp_def] using ih
      | deleted _ _ _ hemit _ => simpa [insertsIn, hemit] using ih
    · rw [ownSteps_acted_ne he]
      exact ih
  · intro s history u call value ih _
    simpa using ih

theorem returned_explained (reach : rt.Reaches s₀ cfg) {t : ℕ} {call : Call} {value : Reply}
    (hm : .returned t call value ∈ cfg.history) :
    Returns rt call (ownSteps t cfg.history) value := by
  obtain ⟨pre, post, hsplit⟩ := List.append_of_mem hm
  rw [ownSteps_final reach hsplit]
  exact server_explained reach pre _ post hsplit

end Runs

/-- One active job per app and tag, and replies that agree with the INSERTs. -/
structure ActiveUniqueRun (rt : Runtime) (s₀ : Server) (cfg : ServerConfig) : Prop where
  unique : ∀ s ∈ visited s₀ cfg.history, ∀ row ∈ s.jobs.rows, ∀ other ∈ s.jobs.rows,
    row.isActive = true → other.isActive = true → row.appID = other.appID → row.tag = other.tag →
    row = other
  atMostOne : ∀ t, (insertsIn (ownSteps t cfg.history)).length ≤ 1
  accepted : ∀ t call value appID tag trigger, .returned t call value ∈ cfg.history →
    Accepted call value appID tag trigger →
    ∃ row, QueuedRow appID tag trigger (ownSteps t cfg.history) row
  refused : ∀ t call value appID tag reason, .returned t call value ∈ cfg.history →
    Refused call value appID tag reason → insertsIn (ownSteps t cfg.history) = []
  notAdmitted : ∀ t bearerToken tag result,
    .returned t (.admissionAdmit bearerToken tag) (.admitted result) ∈ cfg.history →
    result.outcome ≠ .queued → insertsIn (ownSteps t cfg.history) = []
  duplicate : ∀ t call value appID tag, .returned t call value ∈ cfg.history →
    Refused call value appID tag .duplicate → WasActive s₀ cfg appID tag
  queueFull : ∀ t call value appID tag, .returned t call value ∈ cfg.history →
    Refused call value appID tag .queueFull →
    ∃ s ∈ visited s₀ cfg.history, rt.maxPending ≤ (s.jobs.pendingCount appID : Int)
  invalidTag : ∀ t call value appID tag reason, .returned t call value ∈ cfg.history →
    Refused call value appID tag (.invalidTag reason) → validateTag tag = .error reason

/-- Over every interleaving of a started server there is one active row per app and tag, a call
inserts one row if it says so and none if it refuses, and it refuses for rows of its own app. -/
theorem jobs_active_unique {rt : Runtime} {jobs : Jobs} {apps : Apps} {cfg : ServerConfig}
    (reach : rt.Reaches (.started jobs apps) cfg) :
    ActiveUniqueRun rt (.started jobs apps) cfg where
  unique s _ row hrow other hother ha hb := s.jobs.active_eq hrow hother ha hb
  atMostOne := inserts_atMostOnce reach
  accepted _ _ _ _ _ _ hm h := accepted_queued h (returned_explained reach hm)
  refused _ _ _ _ _ _ hm h := (refused_empty h (returned_explained reach hm)).inserts
  notAdmitted t bearerToken tag result hm hne := by
    have hreturns := returned_explained reach hm
    simp only [Returns, hne, ↓reduceIte] at hreturns
    exact hreturns.1
  duplicate _ _ _ _ _ hm h :=
    duplicate_wasActive rfl reach ((refused_empty h (returned_explained reach hm)).duplicate rfl)
  queueFull t call value appID tag hm h := by
    obtain ⟨st, hst, hfull⟩ := (refused_empty h (returned_explained reach hm)).queueFull rfl
    have hstep := (ownSteps_sublist t cfg.history).subset hst
    exact ⟨st.before, before_mem_visited reach hstep, hfull⟩
  invalidTag _ _ _ _ _ reason hm h :=
    (refused_empty h (returned_explained reach hm)).invalid reason rfl

/-- Two webhooks for one tag pass the check together, and a third app uses the same tag. -/
def racingWebhooks : List (Turn Choice Call) :=
  solo (.enqueue "a" "v1") 0 8 ⟨none, "j1"⟩ ++ solo (.enqueue "a" "v1") 1 11 ⟨none, "j2"⟩ ++
    List.replicate 3 (.run 0 ⟨none, "j1"⟩) ++ solo (.enqueue "b" "v1") 2 11 ⟨none, "j3"⟩

theorem jobs_active_unique_racing :
    (play (Runtime.program ⟨2, id, id⟩) (.started .empty .empty)
      racingWebhooks).shared.jobs.rows.map (fun row => (row.id, row.appID, row.tag)) =
        [("j2", "a", "v1"), ("j3", "b", "v1")] ∧
    ActiveUniqueRun ⟨2, id, id⟩ (.started .empty .empty)
      (play (Runtime.program ⟨2, id, id⟩) (.started .empty .empty) racingWebhooks) :=
  ⟨by decide, jobs_active_unique (reaches_play _ _ racingWebhooks)⟩

end AutoDeploy
