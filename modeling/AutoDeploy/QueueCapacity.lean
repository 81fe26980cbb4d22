import AutoDeploy.QueueFifo

namespace AutoDeploy

open Interleaving

/-- No app has more pending rows than `DEPLOY_QUEUE_MAX` allows. -/
def WithinCapacity (maxPending : Int) (jobs : Jobs) : Prop :=
  ∀ appID, (jobs.pendingCount appID : Int) ≤ maxPending

/-- The rows that a step inserts find a free place in the queue of their app. -/
def InsertsBelow (maxPending : Int) (step : ServerStep) : Prop :=
  ∀ row ∈ insertsIn [step], (step.before.jobs.pendingCount row.appID : Int) < maxPending

instance (maxPending : Int) (step : ServerStep) : Decidable (InsertsBelow maxPending step) :=
  inferInstanceAs (Decidable (∀ row ∈ insertsIn [step], _))

def InsertsFor (appID : String) (step : ServerStep) : Prop :=
  ∃ row, .inserted row ∈ step.emitted ∧ row.appID = appID

theorem lawful_pendingCount {before after : Jobs} {set : JobRow → JobRow}
    (hrows : after.rows = before.rows.map set) (hlaw : Jobs.LawfulOn before.rows set)
    (appID : String) : after.pendingCount appID ≤ before.pendingCount appID := by
  unfold Jobs.pendingCount
  rw [hrows, List.countP_map]
  apply List.countP_mono_left
  intro row hm hp
  simp only [Function.comp_apply, Jobs.isPendingOf, Bool.and_eq_true, beq_iff_eq] at hp ⊢
  have hkey := hlaw.key row hm
  simp only [JobRow.activeKey, Prod.mk.injEq] at hkey
  refine ⟨hkey.1.symm.trans hp.1, ?_⟩
  rcases hlaw.status row hm with hsame | hmoves
  · exact hsame.symm.trans hp.2
  · exact absurd hp.2 hmoves.not_pending

theorem insert_pendingCount {jobs after : Jobs} {row : JobRow} (h : jobs.insert row = .ok after)
    (hs : row.status = .pending) (appID : String) :
    after.pendingCount appID = jobs.pendingCount appID + if row.appID = appID then 1 else 0 := by
  unfold Jobs.pendingCount
  rw [Jobs.insert_rows h, List.countP_append, List.countP_singleton]
  simp [Jobs.isPendingOf, hs]

section Step

variable {rt : Runtime} {call : Call} {own : List ServerStep} {step : ServerStep}

/-- Only an INSERT for the app makes its queue longer. -/
theorem pendingCount_step (h : JobAction rt call own step) {appID : String}
    (hnot : ¬ InsertsFor appID step) :
    step.after.jobs.pendingCount appID ≤ step.before.jobs.pendingCount appID := by
  cases h with
  | quiet hjobs _ _ => rw [hjobs]
  | inserted _ _ _ _ hinsert hemit _ =>
    rw [insert_pendingCount hinsert rfl]
    split
    next happ => exact absurd ⟨_, by simp [hemit], happ⟩ hnot
    next => omega
  | dequeued _ _ hnext hrows _ _ => exact lawful_pendingCount hrows (dequeue_lawful hnext) appID
  | rewritten hrows hlaw _ _ _ => exact lawful_pendingCount hrows hlaw appID
  | canceled _ hrows _ _ _ => exact lawful_pendingCount hrows cancel_lawful appID
  | deleted _ _ hrows _ _ =>
    unfold Jobs.pendingCount
    rw [hrows]
    exact List.Sublist.countP_le List.filter_sublist

theorem pendingCount_inserted (h : JobAction rt call own step) {row : JobRow}
    (hm : .inserted row ∈ step.emitted) :
    step.after.jobs.pendingCount row.appID = step.before.jobs.pendingCount row.appID + 1 := by
  cases h with
  | quiet _ hpublished _ =>
    obtain ⟨e, he⟩ := hpublished _ hm
    cases he
  | inserted _ _ _ _ hinsert hemit _ =>
    rw [hemit, List.mem_singleton] at hm
    cases hm
    rw [insert_pendingCount hinsert rfl]
    simp
  | dequeued _ _ _ _ hemit _ => simp [hemit] at hm
  | rewritten _ _ _ hemit _ => simp [hemit] at hm
  | canceled _ _ _ hemit _ => simp [hemit] at hm
  | deleted _ _ _ hemit _ => simp [hemit] at hm

theorem withinCapacity_step (h : JobAction rt call own step)
    (hbelow : InsertsBelow rt.maxPending step)
    (hwithin : WithinCapacity rt.maxPending step.before.jobs) :
    WithinCapacity rt.maxPending step.after.jobs := by
  intro appID
  by_cases hi : InsertsFor appID step
  · obtain ⟨row, hm, rfl⟩ := hi
    have hlt := hbelow row (mem_insertsIn.mpr (by simpa using hm))
    have hone := pendingCount_inserted h hm
    omega
  · have hle := pendingCount_step h hi
    have hold := hwithin appID
    omega

/-- The check of `Enqueue`: the call counted fewer rows than the bound at an earlier step. -/
theorem inserted_counted (h : JobAction rt call own step) {row : JobRow}
    (hm : .inserted row ∈ step.emitted) : insertsIn own = [] ∧
      (row.trigger ≠ .manualRetry →
        ∃ st ∈ own, (st.before.jobs.pendingCount row.appID : Int) < rt.maxPending) := by
  cases h with
  | quiet _ hpublished _ =>
    obtain ⟨e, he⟩ := hpublished _ hm
    cases he
  | inserted _ _ hfirst hcounted _ hemit _ =>
    rw [hemit, List.mem_singleton] at hm
    cases hm
    exact ⟨hfirst, hcounted⟩
  | dequeued _ _ _ _ hemit _ => simp [hemit] at hm
  | rewritten _ _ _ hemit _ => simp [hemit] at hm
  | canceled _ _ _ hemit _ => simp [hemit] at hm
  | deleted _ _ _ hemit _ => simp [hemit] at hm

end Step

section Runs

variable {rt : Runtime} {s₀ : Server} {cfg : ServerConfig}

/-- Over a stretch of a run without an INSERT for the app, its queue does not grow. -/
theorem pendingCount_stretch (reach : rt.Reaches s₀ cfg) {appID : String} :
    ∀ (pre : List (Record Server StoreEvent Reply Call)) (t : ℕ) (call : Call) (step : ServerStep)
      (post : List (Record Server StoreEvent Reply Call)),
      cfg.history = pre ++ .acted t call step :: post →
      (∀ later ∈ step :: steps post, ¬ InsertsFor appID later) →
      cfg.shared.jobs.pendingCount appID ≤ step.before.jobs.pendingCount appID := by
  refine server_invariant (J := fun s history =>
    ∀ (pre : List (Record Server StoreEvent Reply Call)) (t : ℕ) (call : Call)
      (step : ServerStep) (post : List (Record Server StoreEvent Reply Call)),
    history = pre ++ .acted t call step :: post →
    (∀ later ∈ step :: steps post, ¬ InsertsFor appID later) →
    s.jobs.pendingCount appID ≤ step.before.jobs.pendingCount appID) ?_ ?_ ?_ ?_ reach
  · intro pre t call step post he
    simp at he
  · intro s history t call ih pre u other step post he hnot
    rcases history_concat he with ⟨-, -, hr⟩ | ⟨front, rfl, hh⟩
    · cases hr
    · exact ih pre u other step front hh (by simpa using hnot)
  · intro history t call last ih h pre u other step post he hnot
    rcases history_concat he with ⟨-, -, hr⟩ | ⟨front, rfl, hh⟩
    · cases hr
      exact pendingCount_step h (hnot last List.mem_cons_self)
    · have hle := ih pre u other step front hh fun later hl => hnot later (by
        rw [steps_acted]
        rcases List.mem_cons.mp hl with rfl | hl
        · exact List.mem_cons_self
        · exact List.mem_cons_of_mem _ (List.mem_append_left _ hl))
      exact (pendingCount_step h (hnot last (by simp))).trans hle
  · intro s history t call value ih _ pre u other step post he hnot
    rcases history_concat he with ⟨-, -, hr⟩ | ⟨front, rfl, hh⟩
    · cases hr
    · exact ih pre u other step front hh (by simpa using hnot)

/-- An `Enqueue` that inserts into a full queue was overtaken: since it counted, another INSERT
for the app committed. -/
theorem insert_overtaken (reach : rt.Reaches s₀ cfg)
    {pre post : List (Record Server StoreEvent Reply Call)} {t : ℕ} {call : Call}
    {step : ServerStep} (h : cfg.history = pre ++ .acted t call step :: post) {row : JobRow}
    (hm : .inserted row ∈ step.emitted) (htrigger : row.trigger ≠ .manualRetry)
    (hfull : rt.maxPending ≤ (step.before.jobs.pendingCount row.appID : Int)) :
    ∃ front started st back, pre = front ++ .acted t started st :: back ∧
      (st.before.jobs.pendingCount row.appID : Int) < rt.maxPending ∧
      ∃ other ∈ steps back, InsertsFor row.appID other := by
  have haction := server_explained reach pre (.acted t call step) post h
  obtain ⟨hfirst, hcounted⟩ := inserted_counted haction hm
  obtain ⟨st, hst, hlt⟩ := hcounted htrigger
  obtain ⟨started, hmem⟩ := mem_ownSteps.mp hst
  obtain ⟨front, back, rfl⟩ := List.append_of_mem hmem
  refine ⟨front, started, st, back, rfl, hlt, ?_⟩
  by_contra hnone
  obtain ⟨there, hreach, hhistory, hshared⟩ := reaches_before reach h
  have hquiet : ¬ InsertsFor row.appID st := by
    rintro ⟨other, hother, -⟩
    have hin := inserted_mem hst ⟨other, hother, rfl⟩
    rw [hfirst] at hin
    simp at hin
  have hle := pendingCount_stretch hreach front t started st back hhistory (by
    intro later hl
    rcases List.mem_cons.mp hl with rfl | hl
    · exact hquiet
    · exact fun hi => hnone ⟨later, hl, hi⟩)
  rw [hshared] at hle
  omega

end Runs

/-- The bound holds in every state of a run exactly if every INSERT of the run finds a free
place. A retry never looks for one, and the count of an `Enqueue` may be overtaken. -/
theorem capacity_iff {rt : Runtime} {s₀ : Server} {cfg : ServerConfig}
    (start : WithinCapacity rt.maxPending s₀.jobs) (reach : rt.Reaches s₀ cfg) :
    ((∀ s ∈ visited s₀ cfg.history, WithinCapacity rt.maxPending s.jobs) ↔
      ∀ step ∈ steps cfg.history, InsertsBelow rt.maxPending step) ∧
    ∀ pre t call step post row, cfg.history = pre ++ .acted t call step :: post →
      .inserted row ∈ step.emitted → row.trigger ≠ .manualRetry →
      rt.maxPending ≤ (step.before.jobs.pendingCount row.appID : Int) →
      ∃ front started st back, pre = front ++ .acted t started st :: back ∧
        (st.before.jobs.pendingCount row.appID : Int) < rt.maxPending ∧
        ∃ other ∈ steps back, InsertsFor row.appID other := by
  refine ⟨⟨?_, ?_⟩, ?_⟩
  · intro hwithin step hm row hrow
    obtain ⟨call, own, haction⟩ := steps_action reach hm
    have hafter := hwithin step.after (List.mem_cons_of_mem _ (List.mem_map_of_mem hm)) row.appID
    have hone := pendingCount_inserted haction (by simpa using mem_insertsIn.mp hrow)
    omega
  · intro hbelow
    refine visited_invariant reach (P := fun s => WithinCapacity rt.maxPending s.jobs) start ?_
    intro step hm
    obtain ⟨call, own, haction⟩ := steps_action reach hm
    exact withinCapacity_step haction (hbelow step hm)
  · intro pre t call step post row h hm htrigger hfull
    exact insert_overtaken reach h hm htrigger hfull

/-- A waiting deploy is canceled, another tag fills the queue, and the canceled one is retried. -/
def retryWhenFull : List (Turn Choice Call) :=
  solo (.enqueue "a" "v1") 0 11 ⟨none, "j1"⟩ ++ solo (.requestJobCancel "j1") 1 5 ⟨none, ""⟩ ++
    solo (.enqueue "a" "v2") 2 11 ⟨none, "j2"⟩ ++
    solo (.createRetryJob "j1" "a" "v1") 3 11 ⟨none, "j3"⟩

theorem retryWhenFull_exceeds : ¬ ∀ (rt : Runtime) (s₀ : Server) (cfg : ServerConfig),
    rt.Reaches s₀ cfg → WithinCapacity rt.maxPending s₀.jobs →
    WithinCapacity rt.maxPending cfg.shared.jobs := by
  intro h
  have hstart : WithinCapacity 1 Jobs.empty := by
    intro appID
    simp [Jobs.pendingCount, Jobs.empty]
  have hend := h ⟨1, id, id⟩ (.started .empty .empty) _ (reaches_play _ _ retryWhenFull) hstart "a"
  have htwo : (play (Runtime.program ⟨1, id, id⟩) (.started .empty .empty)
      retryWhenFull).shared.jobs.pendingCount "a" = 2 := by decide +kernel
  rw [htwo] at hend
  exact absurd hend (by decide)

theorem capacity_iff_lateReport :
    (play (Runtime.program ⟨1, id, id⟩) (.started .empty .empty)
      lateReport).shared.jobs.pendingCount "a" = 0 ∧
    ∀ s ∈ visited (.started .empty .empty)
      (play (Runtime.program ⟨1, id, id⟩) (.started .empty .empty) lateReport).history,
      WithinCapacity 1 s.jobs := by
  have hstart : WithinCapacity 1 Jobs.empty := by
    intro appID
    simp [Jobs.pendingCount, Jobs.empty]
  refine ⟨by decide +kernel, ?_⟩
  exact ((capacity_iff hstart (reaches_play _ _ lateReport)).1).mpr (by decide +kernel)

end AutoDeploy
