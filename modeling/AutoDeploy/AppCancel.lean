import AutoDeploy.CancelFold
import AutoDeploy.CancelTransaction

namespace AutoDeploy

open Interleaving

/-- Behind these answers `n` more have come, without a fault. -/
def AnsweredWell (before : List Choice) (n : ℕ) (ks : List Choice) : Prop :=
  ∃ own, ks = before ++ own ∧ own.length = n ∧ ∀ k ∈ own, k.fault = none

/-- Behind these answers a fault has come. -/
def Faulted (before ks : List Choice) : Prop :=
  ∃ own, ks = before ++ own ∧ ∃ k ∈ own, k.fault ≠ none

section Answers

variable {before ks : List Choice} {n : ℕ} {k : Choice}

theorem answered_nil : AnsweredWell before 0 before := ⟨[], by simp, rfl, by simp⟩

theorem AnsweredWell.next (h : AnsweredWell before n ks) (hk : k.fault = none) :
    AnsweredWell before (n + 1) (ks ++ [k]) := by
  obtain ⟨own, rfl, hlength, hquiet⟩ := h
  refine ⟨own ++ [k], by simp, by simp [hlength], ?_⟩
  intro other hm
  rcases List.mem_append.mp hm with hold | hnew
  · exact hquiet other hold
  · rw [List.mem_singleton.mp hnew, hk]

theorem AnsweredWell.fault (h : AnsweredWell before n ks) (hk : k.fault ≠ none) :
    Faulted before (ks ++ [k]) := by
  obtain ⟨own, rfl, -, -⟩ := h
  exact ⟨own ++ [k], by simp, k, by simp, hk⟩

theorem Faulted.mono {before' ks' : List Choice} (h : Faulted before ks)
    (hbefore : before' <+: before) (hks : ks <+: ks') : Faulted before' ks' := by
  obtain ⟨own, rfl, other, hm, hfault⟩ := h
  obtain ⟨front, rfl⟩ := hbefore
  obtain ⟨back, rfl⟩ := hks
  refine ⟨front ++ own ++ back, by simp, other, ?_, hfault⟩
  exact List.mem_append_left _ (List.mem_append_right _ hm)

end Answers

theorem closed_eq {t : CancelTx} {s : Server} (hserver : t.server = s) (hwork : t.work = none) :
    t = ⟨s, none⟩ := by
  cases t
  cases hserver
  cases hwork
  rfl

/-- The transaction sees these jobs, and `n` statements have gone well. -/
structure Working (s : Server) (jobs : Jobs) (before : List Choice) (emitted : List StoreEvent)
    (n : ℕ) (ks : List Choice) (es : List StoreEvent) (t : CancelTx) : Prop where
  state : t = ⟨s, some jobs⟩
  events : es = emitted
  answers : AnsweredWell before n ks

/-- A statement has failed, with nothing committed and nothing published. -/
structure Aborted (s : Server) (before : List Choice) (emitted : List StoreEvent)
    (ks : List Choice) (es : List StoreEvent) (t : CancelTx) : Prop where
  server : t.server = s
  events : es = emitted
  answers : Faulted before ks

/-- These jobs are committed and these events published, after `n` statements that went well. -/
structure Published (s : Server) (before : List Choice) (emitted : List StoreEvent) (n : ℕ)
    (events : List CancelEvent) (ks : List Choice) (es : List StoreEvent) (t : CancelTx) :
    Prop where
  server : t.server = s
  events : es = emitted ++ events.map StoreEvent.published
  answers : ∃ front, front <+: ks ∧ AnsweredWell before n front

section Statements

variable {s : Server} {jobs after : Jobs} {n : ℕ} {before ks : List Choice}
  {emitted es : List StoreEvent} {t : CancelTx} {α : Type}

theorem gives_txStatement (statement : Jobs → Except SqlError (α × Jobs)) {value : α}
    (h : Working s jobs before emitted n ks es t) (hok : statement jobs = .ok (value, after)) :
    (txStatement statement).Gives (fun ks es => Prog.Ends
      (fun t' value' => value' = value ∧ Working s after before emitted (n + 1) ks es t')
      fun t' _ => Aborted s before emitted ks es t') ks es t := by
  obtain ⟨rfl, rfl, hanswers⟩ := h
  refine Prog.gives_atomic ?_
  rintro ⟨fault, id⟩
  cases fault with
  | some text => exact ⟨rfl, by simp, hanswers.fault (by simp)⟩
  | none =>
    simp only [hok, List.append_nil]
    exact ⟨rfl, rfl, rfl, hanswers.next rfl⟩

theorem gives_txCommit (h : Working s jobs before emitted n ks es t) :
    txCommit.Gives (fun ks es => Prog.Ends
      (fun t' _ => Published { s with jobs := jobs } before emitted (n + 1) [] ks es t')
      fun t' _ => Aborted s before emitted ks es t') ks es t := by
  obtain ⟨rfl, rfl, hanswers⟩ := h
  refine Prog.gives_atomic ?_
  rintro ⟨fault, id⟩
  cases fault with
  | some text => exact ⟨rfl, by simp, hanswers.fault (by simp)⟩
  | none => exact ⟨rfl, by simp, _, List.prefix_rfl, hanswers.next rfl⟩

theorem gives_lift {p : TxOp α} {P : List Choice → List StoreEvent → CancelTx → α → Prop}
    {E : List Choice → List StoreEvent → CancelTx → SqlError → Prop} (h : p.Gives P ks es t) :
    (ExceptT.lift p : ExceptT SqlError TxOp α).run.Gives
      (fun ks es => Prog.Ends (P ks es) (E ks es)) ks es t :=
  Prog.gives_bind h fun _ _ _ _ hP => hP

theorem gives_atServer {op : Op α} {P : List Choice → List StoreEvent → Server → α → Prop}
    (h : op.Gives P ks es t.server) :
    (atServer op).Gives
      (fun ks es t' value => ∃ s', t' = { t with server := s' } ∧ P ks es s' value) ks es t :=
  @Prog.gives_within _ _ _ _ _ P ks es t.server CancelTx.server
    (fun t s => { t with server := s }) t op (fun _ _ => rfl) (fun _ _ _ => rfl) h

theorem gives_invalidate {events : List CancelEvent}
    (h : Published s before emitted n events ks es t) :
    (atServer invalidateActiveJobsCache).Gives
      (fun ks es t' _ => Published { s with activeCache := none } before emitted n events ks es t')
      ks es t := by
  obtain ⟨rfl, rfl, front, hfront, hanswers⟩ := h
  have hop : invalidateActiveJobsCache.Gives (fun ks' es' s' _ =>
      s' = { t.server with activeCache := none } ∧
        es' = emitted ++ events.map StoreEvent.published ∧ ks <+: ks') ks
      (emitted ++ events.map StoreEvent.published) t.server :=
    fun k => ⟨rfl, by simp, List.prefix_append _ _⟩
  refine (gives_atServer hop).mono ?_
  rintro ks' es' t' _ ⟨s', rfl, rfl, rfl, hks⟩
  exact ⟨rfl, rfl, front, hfront.trans hks, hanswers⟩

theorem gives_broadcastAll {s : Server} (events : List CancelEvent) :
    (broadcastAll events).Gives (fun ks' es' s' _ =>
      s' = s ∧ es' = es ++ events.map StoreEvent.published ∧ ks <+: ks') ks es s := by
  induction events generalizing ks es with
  | nil => exact ⟨rfl, by simp, List.prefix_rfl⟩
  | cons event rest ih =>
    intro k
    have hrest := @ih (ks ++ [k]) (es ++ [.published event])
    refine hrest.mono ?_
    intro ks' es' s' _ h
    obtain ⟨hs, hes, hks⟩ := h
    exact ⟨hs, by simp [hes], (List.prefix_append _ _).trans hks⟩

theorem gives_publishAll {s : Server} (results : List CancelJobResult) :
    (publishAll results).Gives (fun ks' es' s' _ => s' = s ∧
      es' = es ++ (results.flatMap CancelJobResult.events).map StoreEvent.published ∧
      ks <+: ks') ks es s := by
  induction results generalizing ks es with
  | nil => exact ⟨rfl, by simp, List.prefix_rfl⟩
  | cons result rest ih =>
    refine Prog.gives_bind (gives_broadcastAll result.events) ?_
    rintro ks₁ es₁ s₁ _ ⟨rfl, rfl, hks₁⟩
    refine ih.mono ?_
    rintro ks' es' s' _ ⟨hs, hes, hks⟩
    exact ⟨hs, by simp [hes], hks₁.trans hks⟩

/-- What an operation publishes behind a commit. -/
theorem gives_publish {op : Op Unit} {events : List CancelEvent}
    (hop : op.Gives (fun ks' es' s' _ =>
      s' = t.server ∧ es' = es ++ events.map StoreEvent.published ∧ ks <+: ks') ks es t.server)
    (h : Published s before emitted n [] ks es t) :
    (atServer op).Gives
      (fun ks es t' _ => Published s before emitted n events ks es t') ks es t := by
  obtain ⟨hserver, rfl, front, hfront, hanswers⟩ := h
  refine (gives_atServer hop).mono ?_
  rintro ks' es' t' _ ⟨s', rfl, rfl, rfl, hks⟩
  exact ⟨hserver, by simp, front, hfront.trans hks, hanswers⟩

/-- A transaction begins on the jobs of the server. Whatever way it ends, it is closed. -/
theorem gives_inTx {body : ExceptT SqlError TxOp α}
    {P : List Choice → List StoreEvent → CancelTx → α → Prop}
    (hstable : ∀ ks es t k value, P ks es t value →
      P (ks ++ [k]) es { t with work := none } value)
    (hbody : ∀ ks, Working s s.jobs before emitted 1 ks emitted ⟨s, some s.jobs⟩ →
      body.run.Gives (fun ks es => Prog.Ends (P ks es) fun t _ => Aborted s before emitted ks es t)
        ks emitted ⟨s, some s.jobs⟩) :
    (inTx body).Gives (fun ks es => Prog.Ends (fun t value => t.work = none ∧ P ks es t value)
      fun t _ => t.work = none ∧ Aborted s before emitted ks es t) before emitted ⟨s, none⟩ := by
  have hbegin : txBegin.Gives (fun ks es => Prog.Ends
      (fun t _ => Working s s.jobs before emitted 1 ks es t)
      fun t _ => t.work = none ∧ Aborted s before emitted ks es t) before emitted ⟨s, none⟩ := by
    refine Prog.gives_atomic ?_
    rintro ⟨fault, id⟩
    cases fault with
    | some text => exact ⟨rfl, rfl, by simp, answered_nil.fault (by simp)⟩
    | none => exact ⟨rfl, by simp, answered_nil.next rfl⟩
  refine Prog.gives_bind hbegin ?_
  intro ks es t begun hbegun
  cases begun with
  | error e => exact hbegun
  | ok value =>
    obtain ⟨rfl, rfl, hanswers⟩ := hbegun
    refine Prog.gives_bind (hbody ks ⟨rfl, rfl, hanswers⟩) ?_
    intro ks es t result hend k
    rw [List.append_nil]
    cases result with
    | ok value => exact ⟨rfl, hstable ks es t k value hend⟩
    | error e =>
      exact ⟨rfl, hend.server, hend.events,
        hend.answers.mono List.prefix_rfl (List.prefix_append _ _)⟩

end Statements

section Cancels

variable {quote : String → String} {s : Server} {before ks : List Choice}
  {emitted es : List StoreEvent} {t : CancelTx}

theorem gives_requestAppCancelRows {jobs after : Jobs} {n : ℕ} {todo : List JobRow}
    {result last : CancelAppResult}
    (hrows : todo.foldlM (Jobs.requestAppCancelRow quote) (result, jobs) = .ok (last, after))
    (h : Working s jobs before emitted n ks es t) :
    (requestAppCancelRows quote todo result).run.Gives (fun ks es => Prog.Ends
      (fun t' value => value = last ∧
        Working s after before emitted (n + todo.length + 1) ks es t')
      fun t' _ => Aborted s before emitted ks es t') ks es t := by
  induction todo generalizing jobs n result ks es t with
  | nil =>
    cases hrows
    exact gives_txStatement (fun jobs => .ok (last, jobs)) h rfl
  | cons job rest ih =>
    rw [List.foldlM_cons] at hrows
    cases hrow : Jobs.requestAppCancelRow quote (result, jobs) job with
    | error e =>
      rw [hrow] at hrows
      cases hrows
    | ok next =>
      rw [hrow] at hrows
      refine Prog.gives_try (gives_txStatement _ h hrow) ?_
      rintro ks₁ es₁ t₁ _ ⟨rfl, h₁⟩
      have hloop := ih hrows h₁
      rw [List.length_cons, show n + (rest.length + 1) + 1 = n + 1 + rest.length + 1 by omega]
      exact hloop

/-- The rows of the app are canceled and the results published, unless a statement fails. -/
theorem gives_requestAppCancelTx {appID : String} {result : CancelAppResult} {after : Jobs}
    (h : s.jobs.requestAppCancel quote appID = .ok (result, after)) :
    (requestAppCancelTx quote appID).Gives (fun ks es => Prog.Ends
      (fun t value => t.work = none ∧ value = result ∧
        Published { s with jobs := after, activeCache := none } before emitted
          ((s.jobs.jobsOfApp appID).length + 4) (result.requested.flatMap CancelJobResult.events)
          ks es t)
      fun t _ => t.work = none ∧ Aborted s before emitted ks es t) before emitted ⟨s, none⟩ := by
  refine gives_inTx ?_ ?_
  · rintro ks es t k value ⟨hvalue, hserver, hevents, front, hfront, hanswers⟩
    exact ⟨hvalue, hserver, hevents, front, hfront.trans (List.prefix_append _ _), hanswers⟩
  · intro ks₁ h₁
    refine Prog.gives_try (gives_txStatement (fun jobs => .ok (jobs.jobsOfApp appID, jobs)) h₁ rfl)
      ?_
    rintro ks₂ es₂ t₂ _ ⟨rfl, h₂⟩
    refine Prog.gives_try (gives_requestAppCancelRows h h₂) ?_
    rintro ks₃ es₃ t₃ _ ⟨rfl, h₃⟩
    refine Prog.gives_try (gives_txCommit h₃) ?_
    intro ks₄ es₄ t₄ _ h₄
    refine Prog.gives_try (gives_lift (gives_invalidate h₄)) ?_
    intro ks₅ es₅ t₅ _ h₅
    refine Prog.gives_try (gives_lift (gives_publish (gives_publishAll _) h₅)) ?_
    intro ks₆ es₆ t₆ _ h₆
    refine ⟨rfl, ?_⟩
    rw [show (s.jobs.jobsOfApp appID).length + 4 =
      1 + 1 + (s.jobs.jobsOfApp appID).length + 1 + 1 by omega]
    exact h₆

theorem gives_requestJobCancelTx {jobID : String} {result : CancelJobResult} {after : Jobs}
    (h : s.jobs.requestJobCancel quote jobID = .ok (result, after)) :
    (requestJobCancelTx quote jobID).Gives (fun ks es => Prog.Ends
      (fun t value => t.work = none ∧ value = result ∧ t.server.jobs = after ∧
        es = emitted ++ result.events.map StoreEvent.published)
      fun t _ => t.work = none ∧ Aborted s before emitted ks es t) before emitted ⟨s, none⟩ := by
  refine gives_inTx ?_ ?_
  · rintro ks es t k value hvalue
    exact hvalue
  · intro ks₁ h₁
    have hstatement : ((s.jobs.requestJobCancel quote jobID).bind fun changed =>
        .ok ((changed.1, (s.jobs.find? jobID).isSome), changed.2)) =
        .ok ((result, (s.jobs.find? jobID).isSome), after) := by
      rw [h]
      rfl
    refine Prog.gives_try (gives_txStatement _ h₁ hstatement) ?_
    rintro ks₂ es₂ t₂ _ ⟨rfl, h₂⟩
    cases hf : s.jobs.find? jobID with
    | none =>
      rw [Jobs.requestJobCancel_none hf] at h
      cases h
      obtain ⟨rfl, rfl, -⟩ := h₂
      exact ⟨rfl, rfl, by simp [CancelJobResult.events]⟩
    | some job =>
      refine Prog.gives_try (gives_txCommit h₂) ?_
      intro ks₃ es₃ t₃ _ h₃
      refine Prog.gives_try (gives_lift (gives_invalidate h₃)) ?_
      intro ks₄ es₄ t₄ _ h₄
      refine Prog.gives_try (gives_lift (gives_publish (gives_broadcastAll _) h₄)) ?_
      intro ks₅ es₅ t₅ _ h₅
      exact ⟨rfl, by rw [h₅.server], h₅.events⟩

/-- The cancels of the jobs, one after the other, unless a statement fails. -/
theorem gives_requestJobCancels {ids : List String} {results : List CancelJobResult}
    {after : Jobs} (h : Jobs.cancelEach quote ids s.jobs = .ok (results, after)) :
    (requestJobCancels quote ids).Gives (fun ks es t values => Faulted before ks ∨
      (values = results.map .ok ∧ t.server.jobs = after ∧ t.work = none ∧
        es = emitted ++ (results.flatMap CancelJobResult.events).map StoreEvent.published))
      before emitted ⟨s, none⟩ := by
  induction ids generalizing s before emitted results with
  | nil =>
    cases h
    exact Or.inr ⟨rfl, rfl, rfl, by simp⟩
  | cons jobID rest ih =>
    obtain ⟨result, mid, hmid⟩ := Jobs.requestJobCancel_ok quote s.jobs jobID
    obtain ⟨others, last, hothers⟩ := Jobs.cancelEach_ok quote rest mid
    simp only [Jobs.cancelEach, hmid, hothers, bind, Except.bind] at h
    cases h
    refine Prog.gives_bind ((gives_requestJobCancelTx hmid).and (Prog.gives_prefix _)) ?_
    rintro ks es t value ⟨hend, hks⟩
    cases value with
    | error e =>
      refine Prog.gives_bind (Prog.gives_prefix _) ?_
      intro ks' es' t' values hks'
      exact Or.inl (hend.2.answers.mono List.prefix_rfl hks')
    | ok value =>
      obtain ⟨hwork, rfl, rfl, rfl⟩ := hend
      rw [closed_eq rfl hwork]
      refine Prog.gives_bind (ih hothers) ?_
      rintro ks' es' t' values (hfault | ⟨rfl, hafter, hwork', rfl⟩)
      · exact Or.inl (hfault.mono hks List.prefix_rfl)
      · exact Or.inr ⟨rfl, hafter, hwork', by simp⟩

end Cancels

/-- `RequestAppCancel`, alone, from a server without a transaction. -/
def appCancelRun (quote : String → String) (s : Server) (appID : String) (answers : ℕ → Choice) :
    Outcome CancelTx StoreEvent (Except SqlError CancelAppResult) :=
  (requestAppCancelTx quote appID).alone answers ⟨s, none⟩

/-- `RequestJobCancel` for the jobs of the app in the order of `seq`. -/
def jobCancelsRun (quote : String → String) (s : Server) (appID : String)
    (answers : ℕ → Choice) :
    Outcome CancelTx StoreEvent (List (Except SqlError CancelJobResult)) :=
  (requestJobCancels quote ((s.jobs.jobsOfApp appID).map JobRow.id)).alone answers ⟨s, none⟩

structure AppCancelFolds (quote : String → String) (s : Server) (appID : String) : Prop where
  /-- Where no statement fails, both ways answer, write and publish the same. -/
  same : ∀ answers each : ℕ → Choice, (∀ n, (answers n).fault = none) →
    (∀ n, (each n).fault = none) → ∃ result,
      (appCancelRun quote s appID answers).value = .ok result ∧
      (jobCancelsRun quote s appID each).value = result.requested.map .ok ∧
      (appCancelRun quote s appID answers).state.server.jobs =
        (jobCancelsRun quote s appID each).state.server.jobs ∧
      emissions (appCancelRun quote s appID answers).steps =
        emissions (jobCancelsRun quote s appID each).steps
  others : ∀ answers, ∀ row, row.appID ≠ appID →
    (row ∈ (appCancelRun quote s appID answers).state.server.jobs.rows ↔ row ∈ s.jobs.rows)
  totals : ∀ answers result, (appCancelRun quote s appID answers).value = .ok result →
    result.total = result.pending + result.active + result.terminal + result.unknown ∧
      result.total = result.requested.length
  /-- `Begin`, the SELECT, each of its rows, the end of the rows and `Commit` may fail. -/
  failed : ∀ answers,
    (∃ n < (s.jobs.jobsOfApp appID).length + 4, (answers n).fault ≠ none) →
      (∃ e, (appCancelRun quote s appID answers).value = .error e) ∧
      (appCancelRun quote s appID answers).state = ⟨s, none⟩ ∧
      emissions (appCancelRun quote s appID answers).steps = []

section Runs

variable {quote : String → String} {s : Server} {appID : String} {answers : ℕ → Choice}

theorem requestAppCancel_tallies {result : CancelAppResult} {after : Jobs}
    (h : s.jobs.requestAppCancel quote appID = .ok (result, after)) : result.Tallies := by
  rw [Jobs.requestAppCancel_eq] at h
  obtain ⟨results, last, hlast⟩ :=
    Jobs.cancelEach_ok quote ((s.jobs.jobsOfApp appID).map JobRow.id) s.jobs
  rw [hlast] at h
  cases h
  exact (tallies_fold ⟨rfl, rfl⟩).1

theorem requestAppCancel_others {result : CancelAppResult} {after : Jobs}
    (h : s.jobs.requestAppCancel quote appID = .ok (result, after)) {row : JobRow}
    (hrow : row.appID ≠ appID) : row ∈ after.rows ↔ row ∈ s.jobs.rows := by
  rw [(Jobs.requestAppCancel_ok h).2, List.mem_map]
  constructor
  · rintro ⟨old, hm, rfl⟩
    split at hrow
    next happ =>
      have hkey := congrArg Prod.fst (Jobs.canceled_activeKey old)
      exact absurd (hkey.trans happ) hrow
    next happ =>
      rw [if_neg happ]
      exact hm
  · intro hm
    exact ⟨row, hm, if_neg hrow⟩

theorem faulted_answers {n : ℕ} (h : Faulted [] ((List.range n).map answers)) :
    ∃ m, (answers m).fault ≠ none := by
  obtain ⟨own, he, k, hm, hfault⟩ := h
  rw [List.nil_append] at he
  rw [← he] at hm
  obtain ⟨m, -, rfl⟩ := List.mem_map.mp hm
  exact ⟨m, hfault⟩

theorem answered_answers {n m : ℕ} {front : List Choice}
    (hfront : front <+: (List.range n).map answers) (h : AnsweredWell [] m front) :
    ∀ i < m, (answers i).fault = none := by
  obtain ⟨own, he, rfl, hquiet⟩ := h
  rw [List.nil_append] at he
  subst he
  intro i hi
  have hat : front[i] = answers i := by
    have hsame := hfront.getElem hi
    simpa using hsame
  exact hat ▸ hquiet front[i] (List.getElem_mem hi)

/-- The two ends of the run: all done, or nothing. -/
theorem appCancelRun_ends (quote : String → String) (s : Server) (appID : String)
    (answers : ℕ → Choice) : ∃ result after,
    s.jobs.requestAppCancel quote appID = .ok (result, after) ∧
    (((appCancelRun quote s appID answers).value = .ok result ∧
        (appCancelRun quote s appID answers).state.server.jobs = after ∧
        emissions (appCancelRun quote s appID answers).steps =
          (result.requested.flatMap CancelJobResult.events).map StoreEvent.published ∧
        ∀ n < (s.jobs.jobsOfApp appID).length + 4, (answers n).fault = none) ∨
      ((∃ e, (appCancelRun quote s appID answers).value = .error e) ∧
        (appCancelRun quote s appID answers).state = ⟨s, none⟩ ∧
        emissions (appCancelRun quote s appID answers).steps = [] ∧
        ∃ n, (answers n).fault ≠ none)) := by
  obtain ⟨results, after, hafter⟩ :=
    Jobs.cancelEach_ok quote ((s.jobs.jobsOfApp appID).map JobRow.id) s.jobs
  have h := Jobs.requestAppCancel_eq quote s.jobs appID
  rw [hafter] at h
  refine ⟨_, after, h, ?_⟩
  have hgives : (requestAppCancelTx quote appID).Gives _ [] [] ⟨s, none⟩ :=
    gives_requestAppCancelTx h
  have hends := Prog.alone_gives answers hgives
  unfold appCancelRun
  cases hvalue : ((requestAppCancelTx quote appID).alone answers ⟨s, none⟩).value with
  | ok value =>
    rw [hvalue] at hends
    obtain ⟨-, rfl, hserver, hevents, front, hfront, hanswered⟩ := hends
    refine Or.inl ⟨rfl, by rw [hserver], ?_, answered_answers hfront hanswered⟩
    simpa using hevents
  | error e =>
    rw [hvalue] at hends
    obtain ⟨hwork, hserver, hevents, hfaulted⟩ := hends
    exact Or.inr ⟨⟨e, rfl⟩, closed_eq hserver hwork, by simpa using hevents,
      faulted_answers hfaulted⟩

/-- The cancels of the jobs, where no statement fails. -/
theorem jobCancelsRun_quiet {results : List CancelJobResult} {after : Jobs}
    (h : Jobs.cancelEach quote ((s.jobs.jobsOfApp appID).map JobRow.id) s.jobs =
      .ok (results, after)) (hquiet : ∀ n, (answers n).fault = none) :
    (jobCancelsRun quote s appID answers).value = results.map .ok ∧
      (jobCancelsRun quote s appID answers).state.server.jobs = after ∧
      emissions (jobCancelsRun quote s appID answers).steps =
        (results.flatMap CancelJobResult.events).map StoreEvent.published := by
  have hgives : (requestJobCancels quote ((s.jobs.jobsOfApp appID).map JobRow.id)).Gives _ [] []
      ⟨s, none⟩ := gives_requestJobCancels h
  rcases Prog.alone_gives answers hgives with hfault | ⟨hvalues, hjobs, -, hevents⟩
  · obtain ⟨n, hfault⟩ := faulted_answers hfault
    exact absurd (hquiet n) hfault
  · refine ⟨hvalues, hjobs, ?_⟩
    rw [List.nil_append, List.nil_append] at hevents
    exact hevents

end Runs

theorem appCancel_folds (quote : String → String) (s : Server) (appID : String) :
    AppCancelFolds quote s appID where
  same answers each hquiet heach := by
    obtain ⟨result, after, h, ⟨hvalue, hjobs, hevents, -⟩ | ⟨-, -, -, n, hfault⟩⟩ :=
      appCancelRun_ends quote s appID answers
    · obtain ⟨results, last, hlast⟩ :=
        Jobs.cancelEach_ok quote ((s.jobs.jobsOfApp appID).map JobRow.id) s.jobs
      obtain ⟨hvalues, hlastJobs, hlastEvents⟩ := jobCancelsRun_quiet hlast heach
      rw [Jobs.requestAppCancel_eq, hlast] at h
      cases h
      have hrequested : (results.foldl CancelAppResult.add
          ⟨appID, 0, 0, 0, 0, 0, 0, 0, 0, []⟩).requested = results := (tallies_fold ⟨rfl, rfl⟩).2
      rw [hrequested] at hevents
      refine ⟨_, hvalue, ?_, hjobs.trans hlastJobs.symm, hevents.trans hlastEvents.symm⟩
      rw [hrequested]
      exact hvalues
    · exact absurd (hquiet n) hfault
  others answers row hrow := by
    obtain ⟨result, after, h, ⟨-, hjobs, -⟩ | ⟨-, hstate, -⟩⟩ :=
      appCancelRun_ends quote s appID answers
    · rw [hjobs]
      exact requestAppCancel_others h hrow
    · rw [hstate]
  totals answers result hvalue := by
    obtain ⟨other, after, h, ⟨hok, -⟩ | ⟨⟨e, herror⟩, -⟩⟩ :=
      appCancelRun_ends quote s appID answers
    · rw [hok] at hvalue
      cases hvalue
      have htallies := requestAppCancel_tallies h
      exact ⟨htallies.total, htallies.requested⟩
    · rw [herror] at hvalue
      cases hvalue
  failed answers hfault := by
    obtain ⟨n, hn, hfault⟩ := hfault
    obtain ⟨result, after, h, ⟨-, -, -, hquiet⟩ | ⟨herror, hstate, hevents, -⟩⟩ :=
      appCancelRun_ends quote s appID answers
    · exact absurd (hquiet n hn) hfault
    · exact ⟨herror, hstate, hevents⟩

end AutoDeploy
