import AutoDeploy.Calls

namespace AutoDeploy

open Interleaving

/-- The calls that may insert a job, with the app, the tag and the trigger of its row. -/
inductive Call.Inserts : Call → String → String → Trigger → Prop
  | enqueue {appID tag : String} : Inserts (.enqueue appID tag) appID tag .webhook
  | enqueueManual {appID tag : String} : Inserts (.enqueueManual appID tag) appID tag .manualDeploy
  | createRetryJob {originalJobID appID tag : String} :
      Inserts (.createRetryJob originalJobID appID tag) appID tag .manualRetry
  | admissionAdmit {bearerToken appID tag : String} :
    Inserts (.admissionAdmit bearerToken tag) appID tag .webhook
  | manualDeployApp {appID tag : String} {req : AdminRequest String} : req.body = some tag →
    Inserts (.manualDeployApp appID req) appID tag .manualDeploy
  | retryHistoryJob {jobID appID tag : String} {req : AdminRequest Unit} :
    Inserts (.retryHistoryJob jobID req) appID tag .manualRetry

/-- The calls whose only write is one UPDATE: the rows it may change, and what it makes of them. -/
def Call.Rewrites (call : Call) (row row' : JobRow) : Prop :=
  match call with
  | .markDone id success errMsg summary =>
    row.id = id ∧ row.isRunning = true ∧ row' = row.markDone success errMsg summary
  | .saveJobLog id log => row.id = id ∧ row' = { row with deployLog := log }
  | .recoverStale =>
    row.isRunning = true ∧ row' = row.setStatus .failed "recovered: process crashed"
  | .checkpoint id _ => row.id = id ∧ row.status = .cancelRequested ∧
    ∃ status message, (status = .canceled ∨ status = .failed) ∧ row' = row.setStatus status message
  | _ => False

theorem Call.Rewrites.status {call : Call} {row row' : JobRow} (h : call.Rewrites row row') :
    row'.status = row.status ∨ row.status.Moves row'.status := by
  cases call with
  | markDone id success errMsg summary =>
    obtain ⟨-, hrunning, rfl⟩ := h
    refine Or.inr (.finish hrunning ?_)
    cases success <;> simp [JobRow.markDone]
  | saveJobLog id log =>
    obtain ⟨-, rfl⟩ := h
    exact Or.inl rfl
  | recoverStale =>
    obtain ⟨hrunning, rfl⟩ := h
    exact Or.inr (.finish hrunning (Or.inr rfl))
  | checkpoint id phase =>
    obtain ⟨-, hs, status, message, rfl | rfl, rfl⟩ := h
    · rw [hs]
      exact Or.inr .cancelRunning
    · rw [hs]
      exact Or.inr (.finish rfl (Or.inr rfl))
  | _ => exact h.elim

def StoreEvent.insertedRow : StoreEvent → Option JobRow
  | .inserted row => some row
  | _ => none

/-- The rows that these steps inserted. -/
def insertsIn (own : List ServerStep) : List JobRow :=
  (emissions own).filterMap StoreEvent.insertedRow

theorem mem_insertsIn {own : List ServerStep} {row : JobRow} :
    row ∈ insertsIn own ↔ .inserted row ∈ emissions own := by
  simp only [insertsIn, List.mem_filterMap]
  constructor
  · rintro ⟨event, hm, he⟩
    cases event with
    | inserted other => cases he; exact hm
    | dequeued other => cases he
    | cancelReported result => cases he
    | published e => cases he
  · intro hm
    exact ⟨_, hm, rfl⟩

def StoreEvent.dequeuedRow : StoreEvent → Option JobRow
  | .dequeued row => some row
  | _ => none

/-- The rows that these steps dequeued. -/
def dequeuesIn (own : List ServerStep) : List JobRow :=
  (emissions own).filterMap StoreEvent.dequeuedRow

theorem mem_dequeuesIn {own : List ServerStep} {row : JobRow} :
    row ∈ dequeuesIn own ↔ .dequeued row ∈ emissions own := by
  simp only [dequeuesIn, List.mem_filterMap]
  constructor
  · rintro ⟨event, hm, he⟩
    cases event with
    | dequeued other => cases he; exact hm
    | inserted other => cases he
    | cancelReported result => cases he
    | published e => cases he
  · intro hm
    exact ⟨_, hm, rfl⟩

def StoreEvent.IsPublished (event : StoreEvent) : Prop := ∃ e, event = .published e

/-- Where a published snapshot of the active keys may come from. -/
def CacheFrom (own : List ServerStep) (step : ServerStep) : Prop :=
  step.after.activeCache = step.before.activeCache ∨ step.after.activeCache = none ∨
    ∃ st ∈ own, step.after.activeCache = some st.before.jobs.activeKeys

/-- Everything that one action of a call may do to the jobs. -/
inductive JobAction (rt : Runtime) (call : Call) (own : List ServerStep) : ServerStep → Prop
  | quiet {step : ServerStep} : step.after.jobs = step.before.jobs →
      (∀ event ∈ step.emitted, event.IsPublished) → CacheFrom own step → JobAction rt call own step
  | inserted {step : ServerStep} {jobID appID tag : String} {trigger : Trigger}
      {retryOfJobID : Option String} : call.Inserts appID tag trigger → ValidTag tag →
      insertsIn own = [] →
      (trigger ≠ .manualRetry →
        ∃ st ∈ own, (st.before.jobs.pendingCount appID : Int) < rt.maxPending) →
      step.before.jobs.insert (step.before.jobs.newJob jobID appID tag trigger retryOfJobID) =
        .ok step.after.jobs →
      step.emitted = [.inserted (step.before.jobs.newJob jobID appID tag trigger retryOfJobID)] →
      step.after.activeCache = step.before.activeCache → JobAction rt call own step
  | dequeued {step : ServerStep} {job : JobRow} : call = .dequeueNext job.appID →
      dequeuesIn own = [] →
      step.before.jobs.nextPending job.appID = some job →
      step.after.jobs.rows = step.before.jobs.rows.map
        (fun row => if row = job then { job with status := .inProgress } else row) →
      step.emitted = [.dequeued job] →
      step.after.activeCache = step.before.activeCache → JobAction rt call own step
  | rewritten {step : ServerStep} {set : JobRow → JobRow} :
      step.after.jobs.rows = step.before.jobs.rows.map set →
      Jobs.LawfulOn step.before.jobs.rows set →
      (∀ row ∈ step.before.jobs.rows, set row = row ∨ call.Rewrites row (set row)) →
      step.emitted = [] →
      step.after.activeCache = step.before.activeCache → JobAction rt call own step
  | canceled {step : ServerStep} {chosen : JobRow → Bool} {results : List CancelJobResult} :
      (∃ jobID, call = .requestJobCancel jobID) ∨ (∃ appID, call = .requestAppCancel appID) →
      step.after.jobs.rows = step.before.jobs.rows.map
        (fun row => if chosen row then row.canceled else row) →
      (∀ result ∈ results, result.outcome = .pendingCanceled → ∃ row ∈ step.before.jobs.rows,
        row.id = result.jobID ∧ row.status = .pending ∧ chosen row = true) →
      step.emitted = results.map .cancelReported →
      step.after.activeCache = step.before.activeCache → JobAction rt call own step
  | deleted {step : ServerStep} {id : String} : call = .deleteApp id →
      (∀ row ∈ step.before.jobs.rows, row.appID = id → row.isRunning = false) →
      step.after.jobs.rows = step.before.jobs.rows.filter (fun row => !(row.appID == id)) →
      step.emitted = [] →
      step.after.activeCache = step.before.activeCache → JobAction rt call own step

/-- Only `DequeueNext` dequeues, and it takes the next pending job of its app. -/
theorem dequeued_next {rt : Runtime} {call : Call} {own : List ServerStep} {step : ServerStep}
    (h : JobAction rt call own step) {job : JobRow} (hjob : .dequeued job ∈ step.emitted) :
    call = .dequeueNext job.appID ∧ step.before.jobs.nextPending job.appID = some job := by
  cases h with
  | quiet _ hpublished _ =>
    obtain ⟨e, he⟩ := hpublished _ hjob
    cases he
  | inserted _ _ _ _ _ hemit _ => simp [hemit] at hjob
  | dequeued hcall _ hnext _ hemit _ =>
    rw [hemit, List.mem_singleton] at hjob
    cases hjob
    exact ⟨hcall, hnext⟩
  | rewritten _ _ _ hemit _ => simp [hemit] at hjob
  | canceled _ _ _ hemit _ => simp [hemit] at hjob
  | deleted _ _ _ hemit _ => simp [hemit] at hjob

/-- The own steps went on, and the new ones inserted, dequeued and reported nothing. -/
def Continues (own own' : List ServerStep) : Prop :=
  ∃ extra, own' = own ++ extra ∧ ∀ event ∈ emissions extra, event.IsPublished

theorem continues_refl (own : List ServerStep) : Continues own own :=
  ⟨[], by simp, by simp [emissions]⟩

theorem Continues.trans {own mid own' : List ServerStep} (h : Continues own mid)
    (h' : Continues mid own') : Continues own own' := by
  obtain ⟨xs, rfl, hx⟩ := h
  obtain ⟨ys, rfl, hy⟩ := h'
  refine ⟨xs ++ ys, by simp, ?_⟩
  intro event he
  rw [emissions_append, List.mem_append] at he
  exact he.elim (hx event) (hy event)

theorem Continues.mem {own own' : List ServerStep} (h : Continues own own') {st : ServerStep}
    (hm : st ∈ own) : st ∈ own' := by
  obtain ⟨extra, rfl, -⟩ := h
  simp [hm]

theorem Continues.insertsIn {own own' : List ServerStep} (h : Continues own own') :
    insertsIn own' = insertsIn own := by
  obtain ⟨extra, rfl, he⟩ := h
  have hnone : (emissions extra).filterMap StoreEvent.insertedRow = [] := by
    apply List.filterMap_eq_nil_iff.mpr
    intro event hm
    obtain ⟨e, rfl⟩ := he event hm
    rfl
  simp [AutoDeploy.insertsIn, hnone]

theorem Continues.dequeuesIn {own own' : List ServerStep} (h : Continues own own') :
    dequeuesIn own' = dequeuesIn own := by
  obtain ⟨extra, rfl, he⟩ := h
  have hnone : (emissions extra).filterMap StoreEvent.dequeuedRow = [] := by
    apply List.filterMap_eq_nil_iff.mpr
    intro event hm
    obtain ⟨e, rfl⟩ := he event hm
    rfl
  simp [AutoDeploy.dequeuesIn, hnone]

theorem Continues.emissions_mem {own own' : List ServerStep} (h : Continues own own')
    {event : StoreEvent} (hm : event ∈ emissions own) : event ∈ emissions own' := by
  obtain ⟨extra, rfl, -⟩ := h
  simp [hm]

theorem continues_step {own : List ServerStep} {step : ServerStep}
    (h : ∀ event ∈ step.emitted, event.IsPublished) : Continues own (own ++ [step]) :=
  ⟨[step], rfl, by simpa using h⟩

section Safe

variable {rt : Runtime} {call : Call} {own : List ServerStep} {α β : Type}

/-- Safety of a piece of a call's program. -/
abbrev SafeFor (rt : Runtime) (call : Call) (own : List ServerStep) (p : Op α)
    (Q : List ServerStep → α → Prop) : Prop :=
  p.Safe (fun _ => True) (JobAction rt call) Q own

theorem safe_then {first : Op β} {rest : β → Op α} {P : List ServerStep → β → Prop}
    {Q : List ServerStep → α → Prop}
    (hf : SafeFor rt call own first fun own' value => Continues own own' ∧ P own' value)
    (hr : ∀ own' value, Continues own own' → P own' value → SafeFor rt call own' (rest value) Q) :
    SafeFor rt call own (first >>= rest) Q :=
  Prog.safe_bind hf fun own' value h => hr own' value h.1 h.2

theorem safe_query {select : Server → α} :
    SafeFor rt call own (query select) fun own' value =>
      Continues own own' ∧ ∀ a, value = .ok a → ∃ st ∈ own', a = select st.before := by
  apply Prog.safe_atomic
  intro s k _
  cases k.fault with
  | some text => exact ⟨.quiet rfl (by simp) (Or.inl rfl), continues_step (by simp), by simp⟩
  | none =>
    refine ⟨.quiet rfl (by simp) (Or.inl rfl), continues_step (by simp), ?_⟩
    rintro a ha
    cases ha
    exact ⟨_, List.mem_append_right _ (List.mem_singleton.mpr rfl), rfl⟩

theorem safe_generateJobID :
    SafeFor rt call own generateJobID fun own' _ => Continues own own' ∧ True := by
  apply Prog.safe_atomic
  intro s k _
  cases k.fault with
  | some text => exact ⟨.quiet rfl (by simp) (Or.inl rfl), continues_step (by simp), trivial⟩
  | none => exact ⟨.quiet rfl (by simp) (Or.inl rfl), continues_step (by simp), trivial⟩

theorem safe_readActiveCache :
    SafeFor rt call own readActiveCache fun own' value =>
      Continues own own' ∧ ∃ st ∈ own', value = st.before.activeCache :=
  Prog.safe_atomic fun _ _ _ =>
    ⟨.quiet rfl (by simp) (Or.inl rfl), continues_step (by simp),
      _, List.mem_append_right _ (List.mem_singleton.mpr rfl), rfl⟩

theorem safe_lockActiveCache :
    SafeFor rt call own lockActiveCache fun own' _ => Continues own own' ∧ True :=
  Prog.safe_await fun _ _ _ _ =>
    ⟨.quiet rfl (by simp) (Or.inl rfl), continues_step (by simp), trivial⟩

theorem safe_unlockActiveCache :
    SafeFor rt call own unlockActiveCache fun own' _ => Continues own own' ∧ True :=
  Prog.safe_atomic fun _ _ _ =>
    ⟨.quiet rfl (by simp) (Or.inl rfl), continues_step (by simp), trivial⟩

theorem safe_storeActiveCache {snapshot : List (String × String)}
    (h : ∃ st ∈ own, snapshot = st.before.jobs.activeKeys) :
    SafeFor rt call own (storeActiveCache snapshot) fun own' _ => Continues own own' ∧ True := by
  apply Prog.safe_atomic
  intro s k _
  obtain ⟨st, hm, rfl⟩ := h
  exact ⟨.quiet rfl (by simp) (Or.inr (Or.inr ⟨st, hm, rfl⟩)), continues_step (by simp), trivial⟩

theorem safe_invalidateActiveJobsCache :
    SafeFor rt call own invalidateActiveJobsCache fun own' _ => Continues own own' ∧ True :=
  Prog.safe_await fun _ _ _ _ =>
    ⟨.quiet rfl (by simp) (Or.inr (Or.inl rfl)), continues_step (by simp), trivial⟩

theorem safe_broadcastCancelEvent {event : CancelEvent} :
    SafeFor rt call own (broadcastCancelEvent event) fun own' _ => Continues own own' ∧ True :=
  Prog.safe_atomic fun _ _ _ =>
    ⟨.quiet rfl (by simp [StoreEvent.IsPublished]) (Or.inl rfl),
      continues_step (by simp [StoreEvent.IsPublished]), trivial⟩

theorem safe_broadcastAll (events : List CancelEvent) :
    SafeFor rt call own (broadcastAll events) fun own' _ => Continues own own' ∧ True := by
  induction events generalizing own with
  | nil => exact ⟨continues_refl own, trivial⟩
  | cons event rest ih =>
    apply safe_then safe_broadcastCancelEvent
    intro own' _ hc _
    exact Prog.Safe.mono ih fun _ _ h => ⟨hc.trans h.1, trivial⟩

theorem safe_publishAll (results : List CancelJobResult) :
    SafeFor rt call own (publishAll results) fun own' _ => Continues own own' ∧ True := by
  induction results generalizing own with
  | nil => exact ⟨continues_refl own, trivial⟩
  | cons result rest ih =>
    apply safe_then (safe_broadcastAll result.events)
    intro own' _ hc _
    exact Prog.Safe.mono ih fun _ _ h => ⟨hc.trans h.1, trivial⟩

/-- A snapshot that was read from the cache or from the table. -/
def SnapshotFrom (own : List ServerStep) (m : List (String × String)) : Prop :=
  ∃ st ∈ own, st.before.activeCache = some m ∨ m = st.before.jobs.activeKeys

def QueueError.IsSql (e : QueueError) : Prop := ∃ context cause, e = .sql context cause

theorem safe_loadActiveCache :
    SafeFor rt call own loadActiveCache fun own' value =>
      Continues own own' ∧ match value with
        | .ok m => SnapshotFrom own' m
        | .error e => e.IsSql := by
  unfold loadActiveCache
  apply safe_then safe_readActiveCache
  intro own₁ cached hc₁ h₁
  cases cached with
  | some m =>
    obtain ⟨st, hm, hst⟩ := h₁
    exact ⟨hc₁, st, hm, Or.inl hst.symm⟩
  | none =>
    apply safe_then safe_lockActiveCache
    intro own₂ _ hc₂ _
    apply safe_then safe_readActiveCache
    intro own₃ cached hc₃ h₃
    cases cached with
    | some m =>
      apply safe_then safe_unlockActiveCache
      intro own₄ _ hc₄ _
      obtain ⟨st, hm, hst⟩ := h₃
      exact ⟨((hc₁.trans hc₂).trans hc₃).trans hc₄, st, hc₄.mem hm, Or.inl hst.symm⟩
    | none =>
      apply safe_then safe_query
      intro own₄ keys hc₄ h₄
      have hc := ((hc₁.trans hc₂).trans hc₃).trans hc₄
      cases keys with
      | error e =>
        apply safe_then safe_unlockActiveCache
        intro own₅ _ hc₅ _
        exact ⟨hc.trans hc₅, _, e, rfl⟩
      | ok m =>
        obtain ⟨st, hm, hst⟩ := h₄ m rfl
        apply safe_then (safe_storeActiveCache ⟨st, hm, hst⟩)
        intro own₅ _ hc₅ _
        apply safe_then safe_unlockActiveCache
        intro own₆ _ hc₆ _
        exact ⟨(hc.trans hc₅).trans hc₆, st, hc₆.mem (hc₅.mem hm), Or.inr hst⟩

/-- Why a call may call a tag a duplicate: it saw an active row of that app and that tag. -/
def DuplicateSeen (appID tag : String) (own : List ServerStep) : Prop :=
  ∃ m, SnapshotFrom own m ∧ (appID, tag) ∈ m

theorem DuplicateSeen.mono {appID tag : String} {own own' : List ServerStep}
    (h : DuplicateSeen appID tag own) (hc : Continues own own') : DuplicateSeen appID tag own' := by
  obtain ⟨m, ⟨st, hst, hm⟩, hk⟩ := h
  exact ⟨m, ⟨st, hc.mem hst, hm⟩, hk⟩

theorem safe_isDuplicate {appID tag : String} :
    SafeFor rt call own (isDuplicate appID tag) fun own' value =>
      Continues own own' ∧ match value with
        | .ok duplicate => duplicate = true → DuplicateSeen appID tag own'
        | .error e => e.IsSql := by
  unfold isDuplicate
  apply safe_then safe_loadActiveCache
  intro own' value hc h
  cases value with
  | error e => exact ⟨hc, h⟩
  | ok m => exact ⟨hc, fun he => ⟨m, h, by simpa using he⟩⟩

end Safe

end AutoDeploy
