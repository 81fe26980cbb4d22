import AutoDeploy.JobAction

namespace AutoDeploy

open Interleaving

/-- These steps inserted one row, and this is what it said. -/
structure QueuedRow (appID tag : String) (trigger : Trigger) (own : List ServerStep)
    (row : JobRow) : Prop where
  inserts : insertsIn own = [row]
  app : row.appID = appID
  tag : row.tag = tag
  trigger : row.trigger = trigger
  status : row.status = .pending

/-- These steps inserted nothing, and they saw the reason for the refusal. -/
structure QueueRefused (maxPending : Int) (appID tag : String) (own : List ServerStep)
    (reason : QueueError) : Prop where
  inserts : insertsIn own = []
  duplicate : reason = .duplicate → DuplicateSeen appID tag own
  queueFull : reason = .queueFull →
    ∃ st ∈ own, maxPending ≤ (st.before.jobs.pendingCount appID : Int)
  invalid : ∀ e, reason = .invalidTag e → validateTag tag = .error e

theorem QueuedRow.mono {appID tag : String} {trigger : Trigger} {own own' : List ServerStep}
    {row : JobRow} (h : QueuedRow appID tag trigger own row) (hc : Continues own own') :
    QueuedRow appID tag trigger own' row :=
  ⟨hc.insertsIn.trans h.inserts, h.app, h.tag, h.trigger, h.status⟩

section Queue

variable {rt : Runtime} {call : Call} {own : List ServerStep} {α β η : Type}

theorem safe_exec {other : String → η}
    {statement : Server → Except η (α × Server × List StoreEvent)}
    {Q : List ServerStep → Except η α → Prop}
    (fault : ∀ s text, Q (own ++ [⟨s, [], s⟩]) (.error (other text)))
    (refused : ∀ s e, statement s = .error e → Q (own ++ [⟨s, [], s⟩]) (.error e))
    (done : ∀ s value after events, statement s = .ok (value, after, events) →
      JobAction rt call own ⟨s, events, after⟩ ∧ Q (own ++ [⟨s, events, after⟩]) (.ok value)) :
    SafeFor rt call own (exec other statement) Q := by
  apply Prog.safe_atomic
  intro s k _
  cases k.fault with
  | some text => exact ⟨.quiet rfl (by simp) (Or.inl rfl), fault s text⟩
  | none =>
    cases hs : statement s with
    | error e => exact ⟨.quiet rfl (by simp) (Or.inl rfl), refused s e hs⟩
    | ok out => exact done s out.1 out.2.1 out.2.2 hs

theorem insertsIn_append (xs ys : List ServerStep) :
    insertsIn (xs ++ ys) = insertsIn xs ++ insertsIn ys := by
  simp [insertsIn]

theorem dequeuesIn_append (xs ys : List ServerStep) :
    dequeuesIn (xs ++ ys) = dequeuesIn xs ++ dequeuesIn ys := by
  simp [dequeuesIn]

/-- The UNIQUE error of an INSERT comes from an active row of that app and that tag. -/
theorem insert_unique {jobs : Jobs} {row : JobRow} (h : jobs.insert row = .error .unique) :
    (row.appID, row.tag) ∈ jobs.activeKeys := by
  by_contra hfree
  have hn : (((jobs.rows ++ [row]).filter JobRow.isActive).map JobRow.activeKey).Nodup := by
    rw [List.filter_append, List.map_append, List.nodup_append]
    refine ⟨jobs.activeUnique, by by_cases hr : row.isActive = true <;> simp [hr], ?_⟩
    intro x hx y hy he
    obtain ⟨last, hl, rfl⟩ := List.mem_map.mp hy
    rw [List.mem_singleton.mp (List.mem_filter.mp hl).1] at he
    subst he
    exact hfree hx
  unfold Jobs.insert Jobs.check at h
  split at h
  next => simp at h
  next => simp at h

theorem isUniqueViolation_iff {e : SqlError} : isUniqueViolation e = true ↔ e = .unique := by
  cases e <;> simp [isUniqueViolation]

theorem safe_insertJob {jobID appID tag : String} {trigger : Trigger}
    {retryOfJobID : Option String} (inserts : call.Inserts appID tag trigger)
    (valid : ValidTag tag) (fresh : insertsIn own = [])
    (counted : trigger ≠ .manualRetry →
      ∃ st ∈ own, (st.before.jobs.pendingCount appID : Int) < rt.maxPending) :
    SafeFor rt call own (insertJob jobID appID tag trigger retryOfJobID) fun own' value =>
      match value with
      | .ok () => ∃ row, QueuedRow appID tag trigger own' row ∧ row.id = jobID
      | .error e => insertsIn own' = [] ∧
        (isUniqueViolation e = true → DuplicateSeen appID tag own') := by
  have quietly : ∀ s : Server, insertsIn (own ++ [⟨s, [], s⟩]) = [] := by
    intro s
    rw [insertsIn_append, fresh]
    rfl
  apply safe_exec
  · intro s text
    exact ⟨quietly s, by simp [isUniqueViolation]⟩
  · intro s e hs
    refine ⟨quietly s, ?_⟩
    intro hu
    rw [isUniqueViolation_iff.mp hu] at hs
    refine ⟨s.jobs.activeKeys, ⟨⟨s, [], s⟩, by simp, Or.inr rfl⟩, ?_⟩
    dsimp only at hs
    cases hi : s.jobs.insert (s.jobs.newJob jobID appID tag trigger retryOfJobID) with
    | ok jobs => rw [hi] at hs; cases hs
    | error e' =>
      rw [hi] at hs
      cases hs
      exact insert_unique hi
  · intro s value after events hs
    dsimp only at hs
    cases hi : s.jobs.insert (s.jobs.newJob jobID appID tag trigger retryOfJobID) with
    | error e => rw [hi] at hs; cases hs
    | ok jobs =>
      rw [hi] at hs
      cases hs
      refine ⟨.inserted inserts valid fresh counted hi rfl rfl,
        s.jobs.newJob jobID appID tag trigger retryOfJobID, ⟨?_, rfl, rfl, rfl, rfl⟩, rfl⟩
      rw [insertsIn_append, fresh]
      rfl

/-- The three INSERT paths end alike: insert, drop the cache, name the error. -/
theorem safe_insertThen {jobID appID tag : String} {trigger : Trigger}
    {retryOfJobID : Option String} {rest : Except SqlError Unit → Op β}
    {Q : List ServerStep → β → Prop} (inserts : call.Inserts appID tag trigger)
    (valid : ValidTag tag) (fresh : insertsIn own = [])
    (counted : trigger ≠ .manualRetry →
      ∃ st ∈ own, (st.before.jobs.pendingCount appID : Int) < rt.maxPending)
    (done : ∀ own' row, QueuedRow appID tag trigger own' row → row.id = jobID →
      SafeFor rt call own' (rest (.ok ())) Q)
    (refused : ∀ own' e, insertsIn own' = [] →
      (isUniqueViolation e = true → DuplicateSeen appID tag own') →
      SafeFor rt call own' (rest (.error e)) Q) :
    SafeFor rt call own (do
      let inserted ← insertJob jobID appID tag trigger retryOfJobID
      invalidateActiveJobsCache
      rest inserted) Q := by
  apply Prog.safe_bind (safe_insertJob inserts valid fresh counted)
  intro own₁ value h₁
  apply safe_then safe_invalidateActiveJobsCache
  intro own₂ _ hc _
  cases value with
  | ok _ =>
    obtain ⟨row, hrow, hid⟩ := h₁
    exact done own₂ row (hrow.mono hc) hid
  | error e => exact refused own₂ e (hc.insertsIn.trans h₁.1) fun hu => (h₁.2 hu).mono hc

theorem safe_enqueueAs {trigger : Trigger} {appID tag : String}
    (inserts : call.Inserts appID tag trigger) (fresh : insertsIn own = []) :
    SafeFor rt call own (enqueueAs trigger rt.maxPending appID tag) fun own' value =>
      match value with
      | .ok () => ∃ row, QueuedRow appID tag trigger own' row
      | .error e => QueueRefused rt.maxPending appID tag own' e := by
  unfold enqueueAs
  cases hv : validateTag tag with
  | error e => exact ⟨fresh, by simp, by simp, by rintro e' he; cases he; exact hv⟩
  | ok _ =>
    apply safe_then safe_isDuplicate
    intro own₁ duplicate hc₁ h₁
    have fresh₁ := hc₁.insertsIn.trans fresh
    cases duplicate with
    | error e =>
      obtain ⟨context, cause, rfl⟩ := h₁
      exact ⟨fresh₁, by simp, by simp, by simp⟩
    | ok duplicate =>
      cases duplicate with
      | true => exact ⟨fresh₁, fun _ => h₁ rfl, by simp, by simp⟩
      | false =>
        apply safe_then safe_query
        intro own₂ count hc₂ h₂
        have fresh₂ := hc₂.insertsIn.trans fresh₁
        cases count with
        | error e => exact ⟨fresh₂, by simp, by simp, by simp⟩
        | ok count =>
          obtain ⟨st, hst, hcount⟩ := h₂ count rfl
          subst hcount
          simp only
          split
          next hfull => exact ⟨fresh₂, by simp, fun _ => ⟨st, hst, hfull⟩, by simp⟩
          next hfree =>
            apply safe_then safe_generateJobID
            intro own₃ jobID hc₃ _
            have fresh₃ := hc₃.insertsIn.trans fresh₂
            cases jobID with
            | error e => exact ⟨fresh₃, by simp, by simp, by simp⟩
            | ok jobID =>
              apply safe_insertThen inserts (validateTag_ok.mp hv) fresh₃
              · intro _
                exact ⟨st, hc₃.mem hst, by omega⟩
              · intro own₄ row hrow _
                exact ⟨row, hrow⟩
              · intro own₄ e hempty hu
                simp only
                split
                next hue => exact ⟨hempty, fun _ => hu hue, by simp, by simp⟩
                next => exact ⟨hempty, by simp, by simp, by simp⟩

theorem safe_createRetryJob {originalJobID appID tag : String}
    (inserts : call.Inserts appID tag .manualRetry) (fresh : insertsIn own = []) :
    SafeFor rt call own (createRetryJob originalJobID appID tag) fun own' value =>
      match value with
      | .ok jobID => ∃ row, QueuedRow appID tag .manualRetry own' row ∧ row.id = jobID
      | .error e => QueueRefused rt.maxPending appID tag own' e := by
  unfold createRetryJob
  cases hv : validateTag tag with
  | error e => exact ⟨fresh, by simp, by simp, by rintro e' he; cases he; exact hv⟩
  | ok _ =>
    apply safe_then safe_query
    intro own₁ found hc₁ _
    have fresh₁ := hc₁.insertsIn.trans fresh
    cases found with
    | error e => exact ⟨fresh₁, by simp, by simp, by simp⟩
    | ok found =>
      cases found with
      | false => exact ⟨fresh₁, by simp, by simp, by simp⟩
      | true =>
        apply safe_then safe_isDuplicate
        intro own₂ duplicate hc₂ h₂
        have fresh₂ := hc₂.insertsIn.trans fresh₁
        cases duplicate with
        | error e =>
          obtain ⟨context, cause, rfl⟩ := h₂
          exact ⟨fresh₂, by simp, by simp, by simp⟩
        | ok duplicate =>
          cases duplicate with
          | true => exact ⟨fresh₂, fun _ => h₂ rfl, by simp, by simp⟩
          | false =>
            apply safe_then safe_generateJobID
            intro own₃ jobID hc₃ _
            have fresh₃ := hc₃.insertsIn.trans fresh₂
            cases jobID with
            | error e => exact ⟨fresh₃, by simp, by simp, by simp⟩
            | ok jobID =>
              apply safe_insertThen inserts (validateTag_ok.mp hv) fresh₃ (by simp)
              · intro own₄ row hrow hid
                exact ⟨row, hrow, hid⟩
              · intro own₄ e hempty hu
                simp only
                split
                next hue => exact ⟨hempty, fun _ => hu hue, by simp, by simp⟩
                next => exact ⟨hempty, by simp, by simp, by simp⟩

/-- The row that a dequeue gave away, if it gave one. -/
def DequeuedRow (appID : String) (own : List ServerStep) : Option (String × String) → Prop
  | some (id, tag) =>
    ∃ row, dequeuesIn own = [row] ∧ row.id = id ∧ row.appID = appID ∧ row.tag = tag
  | none => dequeuesIn own = []

/-- What the transaction of `DequeueNext` took. -/
def DequeuedJob (appID : String) (own : List ServerStep) :
    Except SqlError (Option JobRow) → Prop
  | .error _ => dequeuesIn own = []
  | .ok none => dequeuesIn own = []
  | .ok (some job) => dequeuesIn own = [job] ∧ job.appID = appID

theorem safe_dequeueNext {appID : String} (hcall : call = .dequeueNext appID)
    (fresh : dequeuesIn own = []) :
    SafeFor rt call own (dequeueNext appID) fun own' value =>
      match value with
      | .ok picked => DequeuedRow appID own' picked
      | .error _ => dequeuesIn own' = [] := by
  have quietly : ∀ s : Server, dequeuesIn (own ++ [⟨s, [], s⟩]) = [] :=
    fun s => (continues_step (by simp)).dequeuesIn.trans fresh
  unfold dequeueNext
  apply Prog.safe_bind (P := DequeuedJob appID)
  · apply safe_exec
    · intro s text
      exact quietly s
    · intro s e _
      exact quietly s
    · intro s value after events hs
      dsimp only at hs
      cases hd : s.jobs.dequeueNext appID with
      | error e => rw [hd] at hs; cases hs
      | ok out =>
        rw [hd] at hs
        cases hs
        obtain ⟨picked, jobs⟩ := out
        cases picked with
        | none =>
          obtain rfl := Jobs.dequeueNext_none hd
          exact ⟨.quiet rfl (by simp) (Or.inl rfl), quietly s⟩
        | some job =>
          obtain ⟨hp, hrows⟩ := Jobs.dequeueNext_some hd
          have happ := (Jobs.nextPending_mem hp).2.1
          refine ⟨.dequeued (by rw [happ]; exact hcall) fresh (by rw [happ]; exact hp)
            hrows rfl rfl, ?_, happ⟩
          rw [dequeuesIn, emissions_append, List.filterMap_append, ← dequeuesIn, fresh]
          rfl
  · rintro own₁ (e | _ | job) h₁
    · exact h₁
    · exact h₁
    · apply safe_then safe_invalidateActiveJobsCache
      intro own₂ _ hc _
      exact ⟨job, hc.dequeuesIn.trans h₁.1, rfl, h₁.2, rfl⟩

/-- An UPDATE that keeps the identity of rows and sets their status as the call may. -/
theorem safe_execJobs {statement : Jobs → Except SqlError Jobs} (matching : JobRow → Bool)
    (set : JobRow → JobRow) (update : ∀ jobs, statement jobs = jobs.update matching set)
    (id : ∀ row, (set row).id = row.id) (seq : ∀ row, (set row).seq = row.seq)
    (key : ∀ row, (set row).activeKey = row.activeKey)
    (rewrites : ∀ row, matching row = true → call.Rewrites row (set row)) :
    SafeFor rt call own (execJobs statement) fun own' value =>
      Continues own own' ∧ (value = .ok () → ∃ st ∈ own', st.after.jobs.rows =
        st.before.jobs.rows.map fun row => if matching row then set row else row) := by
  apply safe_exec
  · intro s text
    exact ⟨continues_step (by simp), by simp⟩
  · intro s e _
    exact ⟨continues_step (by simp), by simp⟩
  · intro s value after events hs
    rw [update] at hs
    cases hu : s.jobs.update matching set with
    | error e => rw [hu] at hs; cases hs
    | ok jobs =>
      rw [hu] at hs
      cases hs
      obtain ⟨change, hrows, hlaw, hchange⟩ := Jobs.lawful_update hu id seq key
        fun row _ hm => (rewrites row hm).status
      refine ⟨.rewritten hrows hlaw ?_ rfl rfl, continues_step (by simp), fun _ =>
        ⟨⟨s, [], { s with jobs := jobs }⟩, by simp, hchange ▸ hrows⟩⟩
      intro row _
      rw [hchange]
      by_cases hm : matching row = true
      · simp only [hm, ↓reduceIte]
        exact Or.inr (rewrites row hm)
      · simp [hm]

/-- After this step no row of this id runs. -/
def FinishedIn (id : String) (step : ServerStep) : Prop :=
  ∀ row ∈ step.after.jobs.rows, row.id = id → row.isRunning = false

theorem safe_markDone {id errMsg : String} {success : Bool} {summary : Option DownloadSummary}
    (hcall : call = .markDone id success errMsg summary) :
    SafeFor rt call own (markDone id success errMsg summary) fun own' value =>
      Continues own own' ∧ (value = .ok () → ∃ st ∈ own', FinishedIn id st) := by
  subst hcall
  apply safe_then (safe_execJobs (fun row => row.id == id && row.isRunning)
    (JobRow.markDone success errMsg summary) (fun _ => rfl)
    (fun _ => rfl) (fun _ => rfl) (fun _ => rfl) _)
  · intro own₁ result hc₁ h₁
    apply safe_then safe_invalidateActiveJobsCache
    intro own₂ _ hc₂ _
    refine ⟨hc₁.trans hc₂, ?_⟩
    intro hok
    obtain ⟨st, hst, hrows⟩ := h₁ hok
    refine ⟨st, hc₂.mem hst, ?_⟩
    intro row' hrow' hid
    rw [hrows] at hrow'
    obtain ⟨row, hm, rfl⟩ := List.mem_map.mp hrow'
    by_cases hmatch : (row.id == id && row.isRunning) = true
    · rw [if_pos hmatch]
      cases success <;> rfl
    · simp only [hmatch, Bool.false_eq_true, ↓reduceIte] at hid ⊢
      simpa [hid] using hmatch
  · intro row hm
    obtain ⟨hid, hrunning⟩ := Bool.and_eq_true_iff.mp hm
    exact ⟨by simpa using hid, hrunning, rfl⟩

theorem safe_saveJobLog {id log : String} (hcall : call = .saveJobLog id log) :
    SafeFor rt call own (saveJobLog id log) fun own' _ => Continues own own' ∧ True := by
  subst hcall
  apply safe_then (safe_execJobs (fun row => row.id == id)
    (fun row => { row with deployLog := log }) (fun _ => rfl)
    (fun _ => rfl) (fun _ => rfl) (fun _ => rfl) _)
  · intro own₁ value hc₁ _
    cases value with
    | error e => exact ⟨hc₁, trivial⟩
    | ok _ =>
      apply safe_then safe_invalidateActiveJobsCache
      intro own₂ _ hc₂ _
      exact ⟨hc₁.trans hc₂, trivial⟩
  · intro row hm
    exact ⟨by simpa using hm, rfl⟩

theorem safe_recoverStale (hcall : call = .recoverStale) :
    SafeFor rt call own recoverStale fun own' _ => Continues own own' ∧ True := by
  subst hcall
  apply safe_then (safe_execJobs JobRow.isRunning
    (JobRow.setStatus .failed "recovered: process crashed") (fun _ => rfl)
    (fun _ => rfl) (fun _ => rfl) (fun _ => rfl) _)
  · intro own₁ _ hc₁ _
    apply safe_then safe_invalidateActiveJobsCache
    intro own₂ _ hc₂ _
    exact ⟨hc₁.trans hc₂, trivial⟩
  · intro row hm
    exact ⟨hm, rfl⟩

end Queue

end AutoDeploy
