import AutoDeploy.CoordinatorExclusion
import AutoDeploy.CoordinatorListing
import AutoDeploy.StoreActionCalls

namespace AutoDeploy

open Interleaving

/-- The calls after which the scheduler is not to go on with what it has listed of this app. -/
def Call.Resettles (call : Call) (id : String) : Prop :=
  call = .setEnabled id false ∨ ∃ fields secret enabled, call = .updateApp id fields secret enabled

/-- No disabling and no update of an app both commits and returns between the `List` that the
scheduler works from and a `DequeueNext` that takes a job of the app. -/
def Undisturbed (rt : Runtime) (history : ServerHistory) : Prop :=
  ∀ front u query between t id step post job,
    history = front ++ .acted u .listApps query :: between ++
      .acted t (.dequeueNext id) step :: post →
    (∀ v other, .acted v .listApps other ∉ between) → .dequeued job ∈ step.emitted →
    ∀ w call commit value, call.Resettles id → CommitsApps rt call commit →
    .acted w call commit ∈ between → .returned w call value ∉ between

/-- Disabling and updating an app take effect on the deploys of a run. -/
structure SettingsEffective (rt : Runtime) (c : Coordinator) : Prop where
  /-- A job that is dequeued after its app was disabled follows a later write that enables it. -/
  disabled : ∀ pre t id step post job,
    c.pool.history = pre ++ .acted t (.dequeueNext id) step :: post →
    .dequeued job ∈ step.emitted →
    ∀ w, .returned w (.setEnabled id false) (.appWritten (.ok ())) ∈ pre →
    ∃ commit back, CommittedIn rt (.setEnabled id false) pre w commit back ∧
      ∃ later ∈ steps back, ∃ app ∈ later.after.apps.rows, app.id = id ∧ app.enabled = true
  /-- The record of a started deploy is one that the table held after each update that had
  returned when the job was dequeued. -/
  settings : ∀ (i : ℕ) (run : Run), c.runs[i]? = some run →
    ∃ pre t step post job, c.pool.history = pre ++ .acted t (.dequeueNext run.app.id) step :: post ∧
      .dequeued job ∈ step.emitted ∧ job.id = run.jobID ∧ job.tag = run.tag ∧
      ∀ w fields secret enabled,
      .returned w (.updateApp run.app.id fields secret enabled) (.appWritten (.ok ())) ∈ pre →
      ∃ commit back,
        CommittedIn rt (.updateApp run.app.id fields secret enabled) pre w commit back ∧
        ∃ later ∈ commit :: steps back, run.app ∈ later.after.apps.rows

theorem resettles_ne {call : Call} {id : String} (h : call.Resettles id) : call ≠ .listApps := by
  rintro rfl
  rcases h with hdisable | ⟨_, _, _, hupdate⟩
  · cases hdisable
  · cases hupdate

section Runs

variable {rt : Runtime} {s₀ : Server} {c : Coordinator} {pre post : ServerHistory} {t w : ℕ}
  {app : App} {step : ServerStep} {job : JobRow} {call : Call}

/-- What the scheduler has listed of an app that it dequeues for is no older than a write of the
app that had returned. -/
theorem listed_after_commit (reach : CoordinatorReaches rt s₀ c)
    (hundisturbed : Undisturbed rt c.pool.history)
    (h : c.pool.history = pre ++ .acted t (.dequeueNext app.id) step :: post)
    (hjob : .dequeued job ∈ step.emitted) (hlisted : Listed pre app)
    (hresettles : call.Resettles app.id)
    (hreturned : .returned w call (.appWritten (.ok ())) ∈ pre) :
    ∃ commit back, CommittedIn rt call pre w commit back ∧
      ∃ later ∈ commit :: steps back, app ∈ later.after.apps.rows := by
  have hpool := coordinator_pool reach
  obtain ⟨there, hthere, hhistory⟩ := reaches_prefix hpool h
  rw [← hhistory] at hreturned
  obtain ⟨front, commit, back, hcommit, hcommits, -⟩ := returned_commits hthere hreturned
  rw [hhistory] at hcommit hreturned
  obtain ⟨before, u, query, between, hquery, hlast, happ⟩ := hlisted
  refine ⟨commit, back, ⟨hcommits, front, hcommit⟩, ?_⟩
  have hne : Record.acted (ρ := Reply) w call commit ≠ .acted u .listApps query := by
    intro he
    cases he
    exact resettles_ne hresettles rfl
  rcases List.append_eq_append_iff.mp (hcommit.symm.trans hquery) with
    ⟨middle, hbefore, hrest⟩ | ⟨middle, hfront, hrest⟩
  · cases middle with
    | nil => exact absurd (List.cons.inj hrest).1 hne
    | cons first middle =>
      obtain ⟨rfl, hback⟩ := List.cons.inj hrest
      have hhere : c.pool.history = (front ++ .acted w call commit :: middle) ++
          .acted u .listApps query :: (between ++ .acted t (.dequeueNext app.id) step :: post) := by
        rw [h, hquery, hbefore]
        simp
      obtain ⟨later, hlater, hnow⟩ : ∃ later ∈ commit :: steps middle, _ := now_after
      refine ⟨later, ?_, ?_⟩
      · have hsub : (commit :: steps middle).Sublist (commit :: steps back) := by
          rw [hback]
          exact List.Sublist.cons_cons _ (List.Sublist.filterMap _ (List.sublist_append_left _ _))
        exact hsub.subset hlater
      · rw [← hnow, ← acted_before hpool hhere]
        exact happ
  · cases middle with
    | nil => exact absurd (List.cons.inj hrest).1.symm hne
    | cons first middle =>
      obtain ⟨rfl, hbetween⟩ := List.cons.inj hrest
      have hacted : .acted w call commit ∈ between := by
        rw [hbetween]
        exact List.mem_append_right _ List.mem_cons_self
      have hhere : c.pool.history = before ++ .acted u .listApps query :: between ++
          .acted t (.dequeueNext app.id) step :: post := by
        rw [h, hquery]
      have hopen := hundisturbed before u query between t app.id step post job hhere hlast hjob w
        call commit (.appWritten (.ok ())) hresettles hcommits hacted
      rw [hquery, List.mem_append, List.mem_cons] at hreturned
      rcases hreturned with hold | he | hm
      · obtain ⟨early, late, rfl⟩ := List.append_of_mem hold
        have hsplit : c.pool.history = early ++ .returned w call (.appWritten (.ok ())) ::
            (late ++ .acted u .listApps query :: between ++
              .acted t (.dequeueNext app.id) step :: post) := by
          rw [hhere]
          simp
        have hover := returned_last hpool hsplit _ (List.mem_append_left _
          (List.mem_append_right _ (List.mem_cons_of_mem _ hacted)))
        exact absurd rfl hover
      · cases he
      · exact absurd hm hopen

/-- `SetEnabled(id, false)` leaves no enabled row of its app. -/
theorem disabled_rows {id : String} {commit : ServerStep}
    (h : CommitsApps rt (.setEnabled id false) commit) {row : App}
    (hm : row ∈ commit.after.apps.rows) (hid : row.id = id) : row.enabled = false := by
  cases h with
  | updated hcall _ hupdate =>
    cases hcall
    rw [(Apps.update_rows hupdate).2] at hm
    obtain ⟨old, -, rfl⟩ := List.mem_map.mp hm
    by_cases he : old.id = id
    · simp [he]
    · simp only [he, beq_iff_eq, ↓reduceIte] at hid
  | deleted hcall _ => cases hcall

end Runs

/-- In every run where no disabling and no update of an app completes between the `List` and the
`DequeueNext` of the scheduler, both take effect on the deploys. -/
theorem settings_effective {rt : Runtime} {s₀ : Server} {c : Coordinator}
    (reach : CoordinatorReaches rt s₀ c) (hundisturbed : Undisturbed rt c.pool.history) :
    SettingsEffective rt c where
  disabled pre t id step post job h hjob w hreturned := by
    obtain ⟨app, hlisted, rfl, henabled⟩ := (knows_reaches reach).dequeues pre t id step post h
    obtain ⟨commit, back, hcommitted, later, hlater, happ⟩ :=
      listed_after_commit reach hundisturbed h hjob hlisted (Or.inl rfl) hreturned
    refine ⟨commit, back, hcommitted, later, ?_, app, happ, rfl, henabled⟩
    rcases List.mem_cons.mp hlater with rfl | hm
    · have hdisabled := disabled_rows hcommitted.1 happ rfl
      exact absurd henabled (by simp [hdisabled])
    · exact hm
  settings i run hi := by
    obtain ⟨pre, t, step, post, job, h, hjob, hid, htag, hlisted⟩ :=
      (knows_reaches reach).runs i run hi
    refine ⟨pre, t, step, post, job, h, hjob, hid, htag, ?_⟩
    intro w fields secret enabled hreturned
    exact listed_after_commit reach hundisturbed h hjob hlisted
      (Or.inr ⟨fields, secret, enabled, rfl⟩) hreturned

/-- The scheduler has listed the app when it is disabled, and then dequeues its job. -/
theorem disabledMeanwhile_deployed : ∃ c query listed commit clear disabled step job,
    CoordinatorReaches ⟨1, id, id⟩ onePending c ∧
    c.pool.history = [.called 0 .listApps, .acted 0 .listApps query, .returned 0 .listApps listed,
      .called 1 (.setEnabled "a" false), .acted 1 (.setEnabled "a" false) commit,
      .acted 1 (.setEnabled "a" false) clear, .returned 1 (.setEnabled "a" false) disabled,
      .called 2 (.dequeueNext "a"), .acted 2 (.dequeueNext "a") step] ∧
    disabled = .appWritten (.ok ()) ∧ .dequeued job ∈ step.emitted ∧
    ∀ row ∈ clear.after.apps.rows, row.enabled = false := by
  have reach : CoordinatorReaches ⟨1, id, id⟩ onePending (.started onePending) := .start
  replace reach := reach.next (.list rfl)
  replace reach := reach.next (.act ⟨none, ""⟩ (t := 0) rfl rfl)
  replace reach := reach.next (.listed rfl rfl)
  replace reach := reach.next (.free rfl rfl (by decide))
  replace reach := reach.next (@CoordinatorStep.request _ _ (.setEnabled "a" false) rfl)
  replace reach := reach.next (.act ⟨none, ""⟩ (t := 1) rfl rfl)
  replace reach := reach.next (.act ⟨none, ""⟩ (t := 1) rfl rfl)
  replace reach := reach.next (.respond (t := 1) rfl rfl)
  replace reach := reach.next (.dequeue rfl)
  replace reach := reach.next (.act ⟨none, ""⟩ (t := 2) rfl rfl)
  exact ⟨_, _, _, _, _, _, _, _, reach, rfl, rfl, List.mem_cons_self, by decide⟩

theorem disabledMeanwhile_ineffective : ¬ ∀ (rt : Runtime) (s₀ : Server) (c : Coordinator),
    CoordinatorReaches rt s₀ c → SettingsEffective rt c := by
  intro h
  obtain ⟨c, query, listed, commit, clear, disabled, step, job, reach, hhistory, rfl, hjob,
    hrows⟩ := disabledMeanwhile_deployed
  obtain ⟨other, back, ⟨-, front, hsplit⟩, later, hlater, app, happ, -, henabled⟩ :=
    (h _ _ c reach).disabled (c.pool.history.take 8) 2 "a" step [] job
      (by rw [hhistory]; rfl) hjob 1 (by rw [hhistory]; simp)
  have hclear : later = clear := by
    have hat : (c.pool.history.take 8)[front.length]? =
        some (.acted 1 (.setEnabled "a" false) other) := by simp [hsplit]
    have hback : back = (c.pool.history.take 8).drop (front.length + 1) := by simp [hsplit]
    rw [hhistory] at hat hback
    generalize front.length = n at hat hback
    rcases n with _ | _ | _ | _ | _ | _ | _ | _ | n <;> cases hat
    · subst hback
      exact List.mem_singleton.mp hlater
    · subst hback
      cases hlater
  have hdisabled := hrows app (hclear ▸ happ)
  rw [henabled] at hdisabled
  cases hdisabled

def movedFields : AppFields := ⟨"api", "/srv/api2", "api", "acme/api", "api"⟩

/-- The app is updated before the scheduler lists it and dequeues its job. -/
theorem updatedBefore_deployed : ∃ c commit clear query listed step drop dequeued,
    CoordinatorReaches ⟨1, id, id⟩ onePending c ∧
    c.pool.history = [.called 0 (.updateApp "a" movedFields "" true),
      .acted 0 (.updateApp "a" movedFields "" true) commit,
      .acted 0 (.updateApp "a" movedFields "" true) clear,
      .returned 0 (.updateApp "a" movedFields "" true) (.appWritten (.ok ())),
      .called 1 .listApps, .acted 1 .listApps query, .returned 1 .listApps listed,
      .called 2 (.dequeueNext "a"), .acted 2 (.dequeueNext "a") step,
      .acted 2 (.dequeueNext "a") drop, .returned 2 (.dequeueNext "a") dequeued] ∧
    c.runs = [⟨{ api with binaryPath := "/srv/api2" }, "j1", "v1", .executing, none⟩] := by
  have reach : CoordinatorReaches ⟨1, id, id⟩ onePending (.started onePending) := .start
  replace reach :=
    reach.next (@CoordinatorStep.request _ _ (.updateApp "a" movedFields "" true) rfl)
  replace reach := reach.next (.act ⟨none, ""⟩ (t := 0) rfl rfl)
  replace reach := reach.next (.act ⟨none, ""⟩ (t := 0) rfl rfl)
  replace reach := reach.next (.respond (t := 0) rfl rfl)
  replace reach := reach.next (.list rfl)
  replace reach := reach.next (.act ⟨none, ""⟩ (t := 1) rfl rfl)
  replace reach := reach.next (.listed rfl rfl)
  replace reach := reach.next (.free rfl rfl (by decide))
  replace reach := reach.next (.dequeue rfl)
  replace reach := reach.next (.act ⟨none, ""⟩ (t := 2) rfl rfl)
  replace reach := reach.next (.act ⟨none, ""⟩ (t := 2) rfl rfl)
  replace reach := reach.next (.dequeued rfl rfl)
  replace reach := reach.next (.claim rfl)
  replace reach := reach.next (.spawn rfl)
  exact ⟨_, _, _, _, _, _, _, _, reach, rfl, rfl⟩

theorem settings_effective_updatedBefore : ∃ c, CoordinatorReaches ⟨1, id, id⟩ onePending c ∧
    c.runs = [⟨{ api with binaryPath := "/srv/api2" }, "j1", "v1", .executing, none⟩] ∧
    SettingsEffective ⟨1, id, id⟩ c := by
  obtain ⟨c, commit, clear, query, listed, step, drop, dequeued, reach, hhistory, hruns⟩ :=
    updatedBefore_deployed
  have hundisturbed : Undisturbed ⟨1, id, id⟩ c.pool.history := by
    intro front u other between t id taken post job h _ _ w call last value hresettles _ hacted
    have hat : c.pool.history[front.length]? = some (.acted u .listApps other) := by simp [h]
    have hrest : .acted w call last ∈ c.pool.history.drop (front.length + 1) := by
      simp [h, hacted]
    rw [hhistory] at hat hrest
    generalize front.length = n at hat hrest
    rcases n with _ | _ | _ | _ | _ | _ | _ | _ | _ | _ | _ | n <;> cases hat
    have hcall : call = .dequeueNext "a" := by
      simp at hrest
      tauto
    subst hcall
    rcases hresettles with hdisable | ⟨_, _, _, hupdate⟩
    · cases hdisable
    · cases hupdate
  exact ⟨c, reach, hruns, settings_effective reach hundisturbed⟩

end AutoDeploy
