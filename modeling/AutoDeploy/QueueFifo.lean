import AutoDeploy.QueueOrder

namespace AutoDeploy

open Interleaving

/-- The event gives away a pending job: a dequeue does, and so does a cancel that reports
`pending_canceled`. -/
def StoreEvent.Takes (id : String) : StoreEvent → Prop
  | .dequeued row => row.id = id
  | .cancelReported result => result.jobID = id ∧ result.outcome = .pendingCanceled
  | _ => False

def TakenBy (id : String) (step : ServerStep) : Prop := ∃ event ∈ step.emitted, event.Takes id

def InsertedBy (id : String) (step : ServerStep) : Prop :=
  ∃ row, .inserted row ∈ step.emitted ∧ row.id = id

/-- No row of this id is pending. -/
def NonePending (id : String) (jobs : Jobs) : Prop :=
  ∀ row ∈ jobs.rows, row.id = id → row.status ≠ .pending

section Step

variable {rt : Runtime} {call : Call} {own : List ServerStep} {step : ServerStep} {id : String}

theorem taken_pending (h : JobAction rt call own step) (htaken : TakenBy id step) :
    ∃ row ∈ step.before.jobs.rows, row.id = id ∧ row.status = .pending := by
  obtain ⟨event, hevent, htakes⟩ := htaken
  cases h with
  | quiet _ hpublished _ =>
    obtain ⟨e, rfl⟩ := hpublished event hevent
    exact htakes.elim
  | inserted _ _ _ _ _ hemit _ =>
    rw [hemit, List.mem_singleton] at hevent
    subst hevent
    exact htakes.elim
  | @dequeued job _ _ hnext _ hemit _ =>
    rw [hemit, List.mem_singleton] at hevent
    subst hevent
    obtain ⟨hm, -, hs⟩ := Jobs.nextPending_mem hnext
    exact ⟨job, hm, htakes, hs⟩
  | rewritten _ _ _ hemit _ => simp [hemit] at hevent
  | canceled _ _ hpending hemit _ =>
    rw [hemit] at hevent
    obtain ⟨result, hresult, rfl⟩ := List.mem_map.mp hevent
    obtain ⟨row, hm, hid, hs, -⟩ := hpending result hresult htakes.2
    exact ⟨row, hm, hid.trans htakes.1, hs⟩
  | deleted _ _ _ hemit _ => simp [hemit] at hevent

/-- A row that one action takes is not pending after it. -/
theorem taken_nonePending (h : JobAction rt call own step) (htaken : TakenBy id step) :
    NonePending id step.after.jobs := by
  obtain ⟨event, hevent, htakes⟩ := htaken
  intro row' hrow' hid
  cases h with
  | quiet _ hpublished _ =>
    obtain ⟨e, rfl⟩ := hpublished event hevent
    exact htakes.elim
  | inserted _ _ _ _ _ hemit _ =>
    rw [hemit, List.mem_singleton] at hevent
    subst hevent
    exact htakes.elim
  | @dequeued job _ _ hnext hrows hemit _ =>
    rw [hemit, List.mem_singleton] at hevent
    subst hevent
    rw [hrows] at hrow'
    obtain ⟨row, hm, rfl⟩ := List.mem_map.mp hrow'
    rw [(dequeue_lawful hnext).id row hm] at hid
    rw [step.before.jobs.eq_of_id_eq hm (Jobs.nextPending_mem hnext).1 (hid.trans htakes.symm)]
    simp
  | rewritten _ _ _ hemit _ => simp [hemit] at hevent
  | @canceled chosen results _ hrows hpending hemit _ =>
    rw [hemit] at hevent
    obtain ⟨result, hresult, rfl⟩ := List.mem_map.mp hevent
    obtain ⟨taken, htm, htid, hts, hchosen⟩ := hpending result hresult htakes.2
    rw [hrows] at hrow'
    obtain ⟨row, hm, rfl⟩ := List.mem_map.mp hrow'
    rw [cancel_lawful.id row hm] at hid
    obtain rfl := step.before.jobs.eq_of_id_eq hm htm (hid.trans (htid.trans htakes.1).symm)
    simp [hchosen, JobRow.canceled, hts, JobRow.setStatus]
  | deleted _ _ _ hemit _ => simp [hemit] at hevent

theorem lawful_nonePending {before after : Jobs} {set : JobRow → JobRow}
    (hrows : after.rows = before.rows.map set) (hlaw : Jobs.LawfulOn before.rows set)
    (hnone : NonePending id before) : NonePending id after := by
  intro row' hrow' hid
  rw [hrows] at hrow'
  obtain ⟨row, hm, rfl⟩ := List.mem_map.mp hrow'
  have hold := hnone row hm ((hlaw.id row hm).symm.trans hid)
  rcases hlaw.status row hm with hsame | hmoves
  · rw [hsame]
    exact hold
  · exact hmoves.not_pending

/-- Only an INSERT makes a job of this id pending. -/
theorem nonePending_step (h : JobAction rt call own step) (hnot : ¬ InsertedBy id step)
    (hnone : NonePending id step.before.jobs) : NonePending id step.after.jobs := by
  cases h with
  | quiet hjobs _ _ => exact hjobs ▸ hnone
  | inserted _ _ _ _ hinsert hemit _ =>
    intro row hrow hid
    rw [Jobs.insert_rows hinsert, List.mem_append, List.mem_singleton] at hrow
    rcases hrow with hold | rfl
    · exact hnone row hold hid
    · exact absurd ⟨_, by simp [hemit], hid⟩ hnot
  | dequeued _ _ hnext hrows _ _ => exact lawful_nonePending hrows (dequeue_lawful hnext) hnone
  | rewritten hrows hlaw _ _ _ => exact lawful_nonePending hrows hlaw hnone
  | canceled _ hrows _ _ _ => exact lawful_nonePending hrows cancel_lawful hnone
  | deleted _ _ hrows _ _ =>
    intro row hrow
    rw [hrows] at hrow
    exact hnone row (List.mem_filter.mp hrow).1

end Step

section Runs

variable {rt : Runtime} {s₀ : Server} {cfg : ServerConfig} {id : String}

abbrev History := List (Record Server StoreEvent Reply Call)

/-- Once a job was taken, its id stays without a pending row until an INSERT uses it again. -/
theorem taken_stays (reach : rt.Reaches s₀ cfg) : ∀ (pre mid : History) (t : ℕ) (call : Call)
    (step : ServerStep), cfg.history = pre ++ .acted t call step :: mid → TakenBy id step →
    (∀ later ∈ steps mid, ¬ InsertedBy id later) → NonePending id cfg.shared.jobs := by
  refine server_invariant (J := fun s history => ∀ (pre mid : History) (t : ℕ) (call : Call)
    (step : ServerStep), history = pre ++ .acted t call step :: mid → TakenBy id step →
    (∀ later ∈ steps mid, ¬ InsertedBy id later) → NonePending id s.jobs) ?_ ?_ ?_ ?_ reach
  · intro pre mid t call step he
    simp at he
  · intro s history t call ih pre mid u other step he htaken hnot
    rcases history_concat he with ⟨-, -, hr⟩ | ⟨front, rfl, hh⟩
    · cases hr
    · exact ih pre front u other step hh htaken (by simpa using hnot)
  · intro history t call last ih h pre mid u other step he htaken hnot
    rcases history_concat he with ⟨-, -, hr⟩ | ⟨front, rfl, hh⟩
    · cases hr
      exact taken_nonePending h htaken
    · simp only [steps_acted, List.mem_append, List.mem_singleton] at hnot
      have hbefore := ih pre front u other step hh htaken fun later hl => hnot later (Or.inl hl)
      exact nonePending_step h (hnot last (Or.inr rfl)) hbefore
  · intro s history t call value ih _ pre mid u other step he htaken hnot
    rcases history_concat he with ⟨-, -, hr⟩ | ⟨front, rfl, hh⟩
    · cases hr
    · exact ih pre front u other step hh htaken (by simpa using hnot)

/-- Between two actions that take a job of one id, an INSERT has used the id again. -/
theorem taken_once (reach : rt.Reaches s₀ cfg) {pre mid post : History} {t t' : ℕ}
    {call call' : Call} {step step' : ServerStep}
    (h : cfg.history = pre ++ .acted t call step :: mid ++ .acted t' call' step' :: post)
    (htaken : TakenBy id step) (htaken' : TakenBy id step') :
    ∃ later ∈ steps mid, InsertedBy id later := by
  by_contra hnone
  obtain ⟨there, hreach, hhistory, hshared⟩ := reaches_before reach h
  obtain ⟨own, haction⟩ := acted_action reach (h ▸ by simp : Record.acted t' call' step' ∈ _)
  obtain ⟨row, hm, hid, hs⟩ := taken_pending haction htaken'
  have hfree := taken_stays hreach pre mid t call step hhistory htaken
    (fun later hl hi => hnone ⟨later, hl, hi⟩)
  rw [hshared] at hfree
  exact hfree row hm hid hs

/-- No INSERT of the run used the id of an earlier row. -/
def IdsFresh (s₀ : Server) (history : History) : Prop :=
  (s₀.jobs.rows.map JobRow.id ++ (insertsIn (steps history)).map JobRow.id).Nodup

theorem pending_known (reach : rt.Reaches s₀ cfg) {row : JobRow} (hm : row ∈ cfg.shared.jobs.rows) :
    row.id ∈ s₀.jobs.rows.map JobRow.id ++ (insertsIn (steps cfg.history)).map JobRow.id := by
  have hids := (surviving_sublist reach).map Prod.fst
  simp only [List.map_append, List.map_map] at hids
  exact hids.subset (List.mem_map_of_mem hm)

theorem inserted_mem {steps : List ServerStep} {step : ServerStep} (hm : step ∈ steps)
    (h : InsertedBy id step) : id ∈ (insertsIn steps).map JobRow.id := by
  obtain ⟨row, hrow, rfl⟩ := h
  apply List.mem_map_of_mem
  exact List.mem_filterMap.mpr ⟨.inserted row, List.mem_flatMap.mpr ⟨step, hm, hrow⟩, rfl⟩

theorem taken_insert_reuses (reach : rt.Reaches s₀ cfg) {pre mid : History} {t : ℕ} {call : Call}
    {step later : ServerStep} (h : cfg.history = pre ++ .acted t call step :: mid)
    (htaken : TakenBy id step) (hm : later ∈ steps mid) (hinserted : InsertedBy id later) :
    ¬ IdsFresh s₀ cfg.history := by
  intro hfresh
  obtain ⟨there, hreach, hhistory, hshared⟩ := reaches_before reach h
  obtain ⟨own, haction⟩ := acted_action reach (h ▸ by simp : Record.acted t call step ∈ _)
  obtain ⟨row, hrow, rfl, -⟩ := taken_pending haction htaken
  have hknown := pending_known hreach (hshared ▸ hrow)
  rw [hhistory] at hknown
  have hagain := inserted_mem hm hinserted
  have hsplit : steps cfg.history = steps pre ++ (step :: steps mid) := by
    rw [h, steps_append]
    rfl
  unfold IdsFresh at hfresh
  rw [hsplit, insertsIn_append, List.map_append, ← List.append_assoc, List.nodup_append] at hfresh
  refine hfresh.2.2 row.id hknown row.id ?_ rfl
  rw [← List.singleton_append, insertsIn_append, List.map_append]
  exact List.mem_append_right _ hagain

theorem split_two {α : Type} {l : List α} {a b : α} (ha : a ∈ l) (hb : b ∈ l) (hne : a ≠ b) :
    (∃ x y z, l = x ++ a :: y ++ b :: z) ∨ ∃ x y z, l = x ++ b :: y ++ a :: z := by
  obtain ⟨x, y, rfl⟩ := List.append_of_mem ha
  rcases List.mem_append.mp hb with hx | hy
  · obtain ⟨u, v, rfl⟩ := List.append_of_mem hx
    exact Or.inr ⟨u, v, y, by simp⟩
  · rcases List.mem_cons.mp hy with rfl | hy
    · exact absurd rfl hne
    · obtain ⟨u, v, rfl⟩ := List.append_of_mem hy
      exact Or.inl ⟨x, u, v, by simp⟩

/-- The replies that give a job away: it was dequeued, or canceled before it could be. -/
inductive Given (id : String) : Call → Reply → Prop
  | dequeued {appID tag : String} :
    Given id (.dequeueNext appID) (.dequeued (.ok (some (id, tag))))
  | jobCanceled {jobID : String} {result : CancelJobResult} : result.jobID = id →
    result.outcome = .pendingCanceled →
    Given id (.requestJobCancel jobID) (.jobCanceled (.ok result))
  | appCanceled {appID : String} {result : CancelAppResult} {entry : CancelJobResult} :
    entry ∈ result.requested → entry.jobID = id → entry.outcome = .pendingCanceled →
    Given id (.requestAppCancel appID) (.appCanceled (.ok result))

theorem given_taken {call : Call} {value : Reply} {own : List ServerStep}
    (hgiven : Given id call value) (h : Returns rt call own value) :
    ∃ step ∈ own, TakenBy id step := by
  cases hgiven with
  | dequeued =>
    obtain ⟨row, hrow, hid, -⟩ := h
    have hmem : row ∈ dequeuesIn own := by simp [hrow]
    obtain ⟨step, hm, he⟩ := List.mem_flatMap.mp (mem_dequeuesIn.mp hmem)
    exact ⟨step, hm, _, he, hid⟩
  | jobCanceled hid hp =>
    obtain ⟨step, hm, he⟩ := List.mem_flatMap.mp h
    exact ⟨step, hm, _, he, hid, hp⟩
  | appCanceled hentry hid hp =>
    obtain ⟨step, hm, he⟩ := List.mem_flatMap.mp (h _ hentry)
    exact ⟨step, hm, _, he, hid, hp⟩

/-- Two replies of one run never give away the same job. -/
theorem given_once (reach : rt.Reaches s₀ cfg) (hfresh : IdsFresh s₀ cfg.history)
    {pre mid post : History} {t t' : ℕ} {call call' : Call} {value value' : Reply}
    (h : cfg.history = pre ++ .returned t call value :: mid ++ .returned t' call' value' :: post)
    (hgiven : Given id call value) (hgiven' : Given id call' value') : False := by
  have hne : t ≠ t' := by
    rintro rfl
    have hlast := returned_last reach (h.trans (List.append_assoc _ _ _))
    exact hlast (.returned t call' value') (by simp) rfl
  have hfirst := server_explained reach pre (.returned t call value)
    (mid ++ .returned t' call' value' :: post) (by simp [h])
  have hsecond := server_explained reach (pre ++ .returned t call value :: mid) _ post h
  obtain ⟨step, hstep, htaken⟩ := given_taken hgiven hfirst
  obtain ⟨step', hstep', htaken'⟩ := given_taken hgiven' hsecond
  obtain ⟨c, hm⟩ := mem_ownSteps.mp hstep
  obtain ⟨c', hm'⟩ := mem_ownSteps.mp hstep'
  have hin : Record.acted t c step ∈ cfg.history := by
    rw [h]
    simp [hm]
  have hin' : Record.acted t' c' step' ∈ cfg.history := by
    rw [h]
    exact List.mem_append_left _ hm'
  rcases split_two hin hin' (by simp [hne]) with ⟨x, y, z, hs⟩ | ⟨x, y, z, hs⟩
  · obtain ⟨later, hl, hi⟩ := taken_once reach hs htaken htaken'
    rw [List.append_assoc, List.cons_append] at hs
    refine taken_insert_reuses reach hs htaken ?_ hi hfresh
    rw [steps_append]
    exact List.mem_append_left _ hl
  · obtain ⟨later, hl, hi⟩ := taken_once reach hs htaken' htaken
    rw [List.append_assoc, List.cons_append] at hs
    refine taken_insert_reuses reach hs htaken' ?_ hi hfresh
    rw [steps_append]
    exact List.mem_append_left _ hl

end Runs

/-- The discipline of the queue over a whole run. -/
structure FifoRun (s₀ : Server) (cfg : ServerConfig) : Prop where
  ordered : ∀ s ∈ visited s₀ cfg.history, s.jobs.Ordered
  surviving : List.Sublist (cfg.shared.jobs.rows.map JobRow.identity)
    (s₀.jobs.rows.map JobRow.identity ++ (insertsIn (steps cfg.history)).map JobRow.identity)
  first : ∀ t call step job, .acted t call step ∈ cfg.history → .dequeued job ∈ step.emitted →
    call = .dequeueNext job.appID ∧ step.before.jobs.FirstPending job
  returned : ∀ pre t appID id tag post,
    cfg.history =
      pre ++ .returned t (.dequeueNext appID) (.dequeued (.ok (some (id, tag)))) :: post →
    ∃ step ∈ ownSteps t pre, ∃ job, .dequeued job ∈ step.emitted ∧ job.id = id ∧
      job.appID = appID ∧ job.tag = tag
  takenOnce : ∀ id pre t call step mid t' call' step' post,
    cfg.history = pre ++ .acted t call step :: mid ++ .acted t' call' step' :: post →
    TakenBy id step → TakenBy id step' → ∃ later ∈ steps mid, InsertedBy id later
  givenOnce : IdsFresh s₀ cfg.history → ∀ id pre t call value mid t' call' value' post,
    cfg.history = pre ++ .returned t call value :: mid ++ .returned t' call' value' :: post →
    Given id call value → ¬ Given id call' value'

theorem dequeued_first {rt : Runtime} {s₀ : Server} {cfg : ServerConfig} (start : s₀.jobs.Ordered)
    (reach : rt.Reaches s₀ cfg) {t : ℕ} {call : Call} {step : ServerStep} {job : JobRow}
    (hm : .acted t call step ∈ cfg.history) (hjob : .dequeued job ∈ step.emitted) :
    call = .dequeueNext job.appID ∧ step.before.jobs.FirstPending job := by
  obtain ⟨pre, post, hsplit⟩ := List.append_of_mem hm
  obtain ⟨there, hreach, -, hshared⟩ := reaches_before reach hsplit
  have hordered := visited_ordered start hreach _ (shared_mem_visited hreach)
  rw [hshared] at hordered
  obtain ⟨own, haction⟩ := acted_action reach hm
  obtain ⟨hcall, hnext⟩ := dequeued_next haction hjob
  exact ⟨hcall, nextPending_first hordered hnext⟩

/-- First in, first out, at most once: over every interleaving, from a table in order. -/
theorem queue_fifo {rt : Runtime} {s₀ : Server} {cfg : ServerConfig} (start : s₀.jobs.Ordered)
    (reach : rt.Reaches s₀ cfg) : FifoRun s₀ cfg where
  ordered := visited_ordered start reach
  surviving := surviving_sublist reach
  first _ _ _ _ hm hjob := dequeued_first start reach hm hjob
  returned pre t appID id tag post h := by
    obtain ⟨row, hrow, hfacts⟩ := server_explained reach pre _ post h
    have hmem : row ∈ dequeuesIn (ownSteps t pre) := by simp [hrow]
    obtain ⟨step, hm, he⟩ := List.mem_flatMap.mp (mem_dequeuesIn.mp hmem)
    exact ⟨step, hm, row, he, hfacts⟩
  takenOnce _ _ _ _ _ _ _ _ _ _ h htaken htaken' := taken_once reach h htaken htaken'
  givenOnce hfresh _ _ _ _ _ _ _ _ _ _ h hgiven hgiven' := given_once reach hfresh h hgiven hgiven'

/-- Two jobs of an app wait, the second is canceled, and the app is asked twice for the next. -/
def cancelSecond : List (Turn Choice Call) :=
  solo (.enqueue "a" "v1") 0 11 ⟨none, "j1"⟩ ++ solo (.enqueueManual "a" "v2") 1 11 ⟨none, "j2"⟩ ++
    solo (.requestJobCancel "j2") 2 5 ⟨none, ""⟩ ++ solo (.dequeueNext "a") 3 3 ⟨none, ""⟩ ++
    solo (.dequeueNext "a") 4 3 ⟨none, ""⟩

theorem queue_fifo_cancelSecond :
    (play (Runtime.program ⟨2, id, id⟩) (.started .empty .empty) cancelSecond).shared.jobs.rows.map
      (fun row => (row.id, row.seq, row.status)) =
        [("j1", 1, .inProgress), ("j2", 2, .canceled)] ∧
    FifoRun (.started .empty .empty)
      (play (Runtime.program ⟨2, id, id⟩) (.started .empty .empty) cancelSecond) :=
  ⟨by decide, queue_fifo empty_ordered (reaches_play _ _ cancelSecond)⟩

end AutoDeploy
