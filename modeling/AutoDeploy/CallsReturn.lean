import AutoDeploy.InterleavingOrderly
import AutoDeploy.StoreActionCache

namespace AutoDeploy

open Interleaving

inductive ServerMutex
  | activeCache
  | secretHashCache
deriving DecidableEq

@[simp] def ServerMutex.locked : ServerMutex → Server → Bool
  | activeCache, s => s.activeCacheMu
  | secretHashCache, s => s.secretHashCacheMu

/-- The action leaves both mutexes as they are. -/
def SameMutexes (before after : Server) : Prop :=
  after.activeCacheMu = before.activeCacheMu ∧ after.secretHashCacheMu = before.secretHashCacheMu

theorem SameMutexes.takes {before after : Server} {held : Option ServerMutex}
    (h : SameMutexes before after) : Takes ServerMutex.locked before after held held := by
  apply Takes.keeps
  rintro (_ | _)
  · exact h.1
  · exact h.2

/-- The program waits for a mutex only while it holds none, and gives back what it takes. -/
abbrev OrderlyOp {α : Type} (p : Op α) : Prop := p.Orderly ServerMutex.locked none none

section Primitives

variable {α β η : Type} {held : Option ServerMutex}

theorem orderly_pure (value : α) : OrderlyOp (pure value) := rfl

theorem orderly_query {select : Server → α} :
    (query select).Orderly ServerMutex.locked held held := by
  apply Prog.orderly_atomic
  intro s k
  cases k.fault <;> exact SameMutexes.takes ⟨rfl, rfl⟩

theorem orderly_exec {other : String → η}
    {statement : Server → Except η (α × Server × List StoreEvent)}
    (h : ∀ s value after events, statement s = .ok (value, after, events) → SameMutexes s after) :
    OrderlyOp (exec other statement) := by
  apply Prog.orderly_atomic
  intro s k
  cases k.fault with
  | some text => exact SameMutexes.takes ⟨rfl, rfl⟩
  | none =>
    cases hs : statement s with
    | error e => exact SameMutexes.takes ⟨rfl, rfl⟩
    | ok out => exact (h s out.1 out.2.1 out.2.2 hs).takes

/-- A statement that computes something, and then puts it into the state. -/
theorem orderly_exec_bind {other : String → η} {compute : Server → Except η β}
    {put : Server → β → α × Server × List StoreEvent}
    (h : ∀ s b, SameMutexes s (put s b).2.1) :
    OrderlyOp (exec other fun s => do
      let b ← compute s
      return put s b) := by
  apply orderly_exec
  intro s value after events hs
  cases hc : compute s with
  | error e => rw [hc] at hs; cases hs
  | ok b =>
    rw [hc] at hs
    obtain rfl : after = (put s b).2.1 := congrArg (fun out => out.2.1) (Except.ok.inj hs).symm
    exact h s b

theorem orderly_generateJobID : OrderlyOp generateJobID := by
  apply Prog.orderly_atomic
  intro s k
  cases k.fault <;> exact SameMutexes.takes ⟨rfl, rfl⟩

theorem orderly_invalidateActive : OrderlyOp invalidateActiveJobsCache :=
  Prog.orderly_await (fun s hopen => by simpa using hopen .activeCache)
    fun s k _ => SameMutexes.takes ⟨rfl, rfl⟩

theorem orderly_invalidateSecrets : OrderlyOp invalidateSecretHashCache :=
  Prog.orderly_await (fun s hopen => by simpa using hopen .secretHashCache)
    fun s k _ => SameMutexes.takes ⟨rfl, rfl⟩

theorem orderly_broadcastAll (events : List CancelEvent) : OrderlyOp (broadcastAll events) := by
  induction events with
  | nil => exact orderly_pure ()
  | cons event rest ih =>
    exact Prog.orderly_bind (Prog.orderly_atomic fun s k => SameMutexes.takes ⟨rfl, rfl⟩)
      fun _ => ih

theorem orderly_publishAll (results : List CancelJobResult) : OrderlyOp (publishAll results) := by
  induction results with
  | nil => exact orderly_pure ()
  | cons result rest ih => exact Prog.orderly_bind (orderly_broadcastAll _) fun _ => ih

/-- A cache is read with its mutex held once, and not over anything that waits. -/
theorem orderly_loadThrough {m : ServerMutex} {μ : Type} {read : Op (Option μ)}
    {lock unlock : Op Unit} {select : Op (Except SqlError μ)} {store : μ → Op Unit}
    {wrap : SqlError → η}
    (hread : ∀ held, read.Orderly ServerMutex.locked held held)
    (hlock : lock.Orderly ServerMutex.locked (some m) none)
    (hselect : select.Orderly ServerMutex.locked (some m) (some m))
    (hstore : ∀ value, (store value).Orderly ServerMutex.locked (some m) (some m))
    (hunlock : unlock.Orderly ServerMutex.locked none (some m)) :
    OrderlyOp (loadThrough read lock unlock select store wrap) := by
  unfold loadThrough
  apply Prog.orderly_bind (hread none)
  rintro (_ | value)
  · apply Prog.orderly_bind hlock
    rintro ⟨⟩
    apply Prog.orderly_bind (hread (some m))
    rintro (_ | value)
    · apply Prog.orderly_bind hselect
      rintro (e | value)
      · exact Prog.orderly_bind hunlock fun _ => orderly_pure _
      · apply Prog.orderly_bind (hstore value)
        rintro ⟨⟩
        exact Prog.orderly_bind hunlock fun _ => orderly_pure _
    · exact Prog.orderly_bind hunlock fun _ => orderly_pure _
  · exact orderly_pure _

theorem orderly_loadActiveCache : OrderlyOp loadActiveCache := by
  rw [loadActiveCache_eq]
  apply orderly_loadThrough (m := .activeCache)
  · exact fun held => Prog.orderly_atomic fun s k => SameMutexes.takes ⟨rfl, rfl⟩
  · apply Prog.orderly_await (fun s hopen => by simpa using hopen .activeCache)
    intro s k hfree
    refine .locks (by simpa using hfree) rfl ?_
    rintro (_ | _) hne
    · exact absurd rfl hne
    · rfl
  · exact orderly_query
  · exact fun m => Prog.orderly_atomic fun s k => SameMutexes.takes ⟨rfl, rfl⟩
  · apply Prog.orderly_atomic
    intro s k
    refine .unlocks rfl ?_
    rintro (_ | _) hne
    · exact absurd rfl hne
    · rfl

theorem orderly_loadSecretHashCache : OrderlyOp loadSecretHashCache := by
  rw [loadSecretHashCache_eq]
  apply orderly_loadThrough (m := .secretHashCache)
  · exact fun held => Prog.orderly_atomic fun s k => SameMutexes.takes ⟨rfl, rfl⟩
  · apply Prog.orderly_await (fun s hopen => by simpa using hopen .secretHashCache)
    intro s k hfree
    refine .locks (by simpa using hfree) rfl ?_
    rintro (_ | _) hne
    · rfl
    · exact absurd rfl hne
  · exact orderly_query
  · exact fun m => Prog.orderly_atomic fun s k => SameMutexes.takes ⟨rfl, rfl⟩
  · apply Prog.orderly_atomic
    intro s k
    refine .unlocks rfl ?_
    rintro (_ | _) hne
    · rfl
    · exact absurd rfl hne

end Primitives

section Queue

theorem orderly_isDuplicate {appID tag : String} : OrderlyOp (isDuplicate appID tag) := by
  apply Prog.orderly_bind orderly_loadActiveCache
  rintro (e | m) <;> exact orderly_pure _

theorem orderly_insertJob {jobID appID tag : String} {trigger : Trigger}
    {retryOfJobID : Option String} :
    OrderlyOp (insertJob jobID appID tag trigger retryOfJobID) :=
  orderly_exec_bind fun _ _ => ⟨rfl, rfl⟩

theorem orderly_execJobs {statement : Jobs → Except SqlError Jobs} :
    OrderlyOp (execJobs statement) :=
  orderly_exec_bind fun _ _ => ⟨rfl, rfl⟩

theorem orderly_enqueueAs {trigger : Trigger} {maxPending : Int} {appID tag : String} :
    OrderlyOp (enqueueAs trigger maxPending appID tag) := by
  unfold enqueueAs
  split
  next => exact orderly_pure _
  next =>
    apply Prog.orderly_bind orderly_isDuplicate
    rintro (e | _ | _)
    · exact orderly_pure _
    · apply Prog.orderly_bind orderly_query
      rintro (e | count)
      · exact orderly_pure _
      · dsimp only
        split
        next => exact orderly_pure _
        next =>
          apply Prog.orderly_bind orderly_generateJobID
          rintro (e | jobID)
          · exact orderly_pure _
          · apply Prog.orderly_bind orderly_insertJob
            intro inserted
            apply Prog.orderly_bind orderly_invalidateActive
            rintro ⟨⟩
            cases inserted with
            | error e => dsimp only; split <;> exact orderly_pure _
            | ok _ => exact orderly_pure _
    · exact orderly_pure _

theorem orderly_createRetryJob {originalJobID appID tag : String} :
    OrderlyOp (createRetryJob originalJobID appID tag) := by
  unfold createRetryJob
  split
  next => exact orderly_pure _
  next =>
    apply Prog.orderly_bind orderly_query
    rintro (e | _ | _)
    · exact orderly_pure _
    · exact orderly_pure _
    · apply Prog.orderly_bind orderly_isDuplicate
      rintro (e | _ | _)
      · exact orderly_pure _
      · apply Prog.orderly_bind orderly_generateJobID
        rintro (e | jobID)
        · exact orderly_pure _
        · apply Prog.orderly_bind orderly_insertJob
          intro inserted
          apply Prog.orderly_bind orderly_invalidateActive
          rintro ⟨⟩
          cases inserted with
          | error e => dsimp only; split <;> exact orderly_pure _
          | ok _ => exact orderly_pure _
      · exact orderly_pure _

theorem orderly_dequeueNext {appID : String} : OrderlyOp (dequeueNext appID) := by
  apply Prog.orderly_bind (orderly_exec_bind fun _ _ => ⟨rfl, rfl⟩)
  rintro (e | _ | job)
  · exact orderly_pure _
  · exact orderly_pure _
  · exact Prog.orderly_bind orderly_invalidateActive fun _ => orderly_pure _

theorem orderly_markDone {id errMsg : String} {success : Bool} {summary : Option DownloadSummary} :
    OrderlyOp (markDone id success errMsg summary) :=
  Prog.orderly_bind orderly_execJobs fun _ =>
    Prog.orderly_bind orderly_invalidateActive fun _ => orderly_pure _

theorem orderly_saveJobLog {id log : String} : OrderlyOp (saveJobLog id log) := by
  apply Prog.orderly_bind orderly_execJobs
  rintro (e | _)
  · exact orderly_pure _
  · exact Prog.orderly_bind orderly_invalidateActive fun _ => orderly_pure _

theorem orderly_recoverStale : OrderlyOp recoverStale :=
  Prog.orderly_bind orderly_execJobs fun _ =>
    Prog.orderly_bind orderly_invalidateActive fun _ => orderly_pure _

theorem orderly_requestJobCancel {quote : String → String} {jobID : String} :
    OrderlyOp (requestJobCancel quote jobID) := by
  apply Prog.orderly_bind (orderly_exec_bind fun _ _ => ⟨rfl, rfl⟩)
  rintro (e | ⟨result, _ | _⟩)
  · exact orderly_pure _
  · exact orderly_pure _
  · apply Prog.orderly_bind orderly_invalidateActive
    intro _
    exact Prog.orderly_bind (orderly_broadcastAll _) fun _ => orderly_pure _

theorem orderly_requestAppCancel {quote : String → String} {appID : String} :
    OrderlyOp (requestAppCancel quote appID) := by
  apply Prog.orderly_bind (orderly_exec_bind fun _ _ => ⟨rfl, rfl⟩)
  rintro (e | result)
  · exact orderly_pure _
  · apply Prog.orderly_bind orderly_invalidateActive
    intro _
    exact Prog.orderly_bind (orderly_publishAll _) fun _ => orderly_pure _

theorem orderly_checkpoint {jobID : String} {phase : DeployPhase} :
    OrderlyOp (checkpoint jobID phase) := by
  apply Prog.orderly_bind orderly_query
  rintro (e | _ | status)
  · exact orderly_pure _
  · exact orderly_pure _
  · dsimp only
    split
    next => exact orderly_pure _
    next =>
      have hmark : ∀ id status message, OrderlyOp (markTerminal id status message) :=
        fun _ _ _ => Prog.orderly_bind orderly_execJobs fun _ =>
          Prog.orderly_bind orderly_invalidateActive fun _ => orderly_pure _
      apply Prog.orderly_bind (hmark _ _ _)
      rintro (e | _)
      · exact orderly_pure _
      · apply Prog.orderly_bind (Prog.orderly_atomic fun _ _ => SameMutexes.takes ⟨rfl, rfl⟩)
        exact fun _ => orderly_pure _

end Queue

section Apps

theorem orderly_getBySecretHash {hash : String} : OrderlyOp (getBySecretHash hash) := by
  apply Prog.orderly_bind orderly_loadSecretHashCache
  rintro (e | m) <;> exact orderly_pure _

theorem orderly_listApps : OrderlyOp listApps := by
  apply Prog.orderly_bind orderly_query
  rintro (e | apps) <;> exact orderly_pure _

theorem orderly_getApp {id : String} : OrderlyOp (getApp id) := by
  apply Prog.orderly_bind orderly_query
  rintro (e | _ | app) <;> exact orderly_pure _

theorem orderly_createApp {hashSecret : String → String} {fields : AppFields} {secret : String} :
    OrderlyOp (createApp hashSecret fields secret) := by
  apply Prog.orderly_bind orderly_generateJobID
  rintro (e | id)
  · exact orderly_pure _
  · apply Prog.orderly_bind (orderly_exec_bind fun _ _ => ⟨rfl, rfl⟩)
    rintro (e | _)
    · exact orderly_pure _
    · exact Prog.orderly_bind orderly_invalidateSecrets fun _ => orderly_getApp

theorem orderly_updateApp {context id : String} {set : App → App} :
    OrderlyOp (updateApp context id set) := by
  apply Prog.orderly_bind (orderly_exec_bind fun _ _ => ⟨rfl, rfl⟩)
  rintro (e | n)
  · exact orderly_pure _
  · dsimp only
    split
    next => exact orderly_pure _
    next => exact Prog.orderly_bind orderly_invalidateSecrets fun _ => orderly_pure _

theorem orderly_deleteApp {id : String} : OrderlyOp (deleteAppOp id) := by
  apply Prog.orderly_bind (orderly_exec_bind fun _ _ => ⟨rfl, rfl⟩)
  rintro (e | _)
  · exact orderly_pure _
  · apply Prog.orderly_bind orderly_invalidateSecrets
    intro _
    exact Prog.orderly_bind orderly_invalidateActive fun _ => orderly_pure _

theorem orderly_admissionAdmit {hashSecret : String → String} {maxPending : Int}
    {bearerToken tag : String} :
    OrderlyOp (admissionAdmit hashSecret maxPending bearerToken tag) := by
  apply Prog.orderly_bind orderly_getBySecretHash
  rintro (e | _ | app)
  · exact orderly_pure _
  · exact orderly_pure _
  · dsimp only
    split
    next => exact orderly_pure _
    next =>
      apply Prog.orderly_bind orderly_isDuplicate
      rintro (e | _ | _)
      · exact orderly_pure _
      · apply Prog.orderly_bind orderly_enqueueAs
        intro queued
        split <;> exact orderly_pure _
      · exact orderly_pure _

end Apps

section Handlers

theorem orderly_createAppRequest {hashSecret : String → String}
    {req : AdminRequest AdminAPIAppRequest} : OrderlyOp (createAppRequest hashSecret req) := by
  unfold createAppRequest
  split
  next => exact orderly_pure _
  next =>
    split
    next => exact orderly_pure _
    next =>
      dsimp only
      split
      next => exact orderly_pure _
      next =>
        apply Prog.orderly_bind orderly_createApp
        intro created
        split <;> exact orderly_pure _

theorem orderly_manualDeployApp {maxPending : Int} {id : String} {req : AdminRequest String} :
    OrderlyOp (manualDeployApp maxPending id req) := by
  unfold manualDeployApp
  split
  next => exact orderly_pure _
  next =>
    apply Prog.orderly_bind orderly_getApp
    rintro (e | app)
    · exact orderly_pure _
    · dsimp only
      split
      next => exact orderly_pure _
      next =>
        split
        next => exact orderly_pure _
        next =>
          split
          next => exact orderly_pure _
          next =>
            apply Prog.orderly_bind orderly_enqueueAs
            intro queued
            split <;> exact orderly_pure _

theorem orderly_retryHistoryJob {jobID : String} {req : AdminRequest Unit} :
    OrderlyOp (retryHistoryJob jobID req) := by
  unfold retryHistoryJob
  split
  next => exact orderly_pure _
  next =>
    apply Prog.orderly_bind orderly_query
    rintro (e | _ | job)
    · exact orderly_pure _
    · exact orderly_pure _
    · apply Prog.orderly_bind orderly_getApp
      rintro (e | app)
      · exact orderly_pure _
      · dsimp only
        split
        next => exact orderly_pure _
        next =>
          apply Prog.orderly_bind orderly_createRetryJob
          intro retried
          split <;> exact orderly_pure _

theorem orderly_saveAppEnv {quote : String → String} {id : String}
    {req : AdminRequest (List EnvVar)} : OrderlyOp (saveAppEnv quote id req) := by
  have hset : ∀ vars, OrderlyOp (setAppEnv quote id vars) := by
    intro vars
    unfold setAppEnv
    split
    next => exact orderly_pure _
    next =>
      apply Prog.orderly_bind
      · apply orderly_exec
        rintro s value after events ⟨⟩
        exact ⟨rfl, rfl⟩
      · rintro (e | _) <;> exact orderly_pure _
  unfold saveAppEnv
  split
  next => exact orderly_pure _
  next =>
    apply Prog.orderly_bind orderly_getApp
    rintro (e | app)
    · exact orderly_pure _
    · dsimp only
      split
      next => exact orderly_pure _
      next =>
        split
        next => exact orderly_pure _
        next =>
          apply Prog.orderly_bind (hset _)
          rintro (e | _) <;> exact orderly_pure _

theorem orderly_saveAppArgs {quote : String → String} {id : String}
    {req : AdminRequest (List String)} : OrderlyOp (saveAppArgs quote id req) := by
  have hset : ∀ args, OrderlyOp (setAppArgs quote id args) := by
    intro args
    unfold setAppArgs
    split
    next => exact orderly_pure _
    next =>
      split
      next => exact orderly_pure _
      next =>
        apply Prog.orderly_bind
        · apply orderly_exec
          rintro s value after events ⟨⟩
          exact ⟨rfl, rfl⟩
        · rintro (e | _) <;> exact orderly_pure _
  unfold saveAppArgs
  split
  next => exact orderly_pure _
  next =>
    apply Prog.orderly_bind orderly_getApp
    rintro (e | app)
    · exact orderly_pure _
    · dsimp only
      split
      next => exact orderly_pure _
      next =>
        split
        next => exact orderly_pure _
        next =>
          apply Prog.orderly_bind (hset _)
          rintro (e | _) <;> exact orderly_pure _

end Handlers

theorem orderly_program (rt : Runtime) (call : Call) : OrderlyOp (rt.program call) := by
  cases call with
  | enqueue | enqueueManual => exact Prog.orderly_map orderly_enqueueAs
  | createRetryJob => exact Prog.orderly_map orderly_createRetryJob
  | dequeueNext => exact Prog.orderly_map orderly_dequeueNext
  | markDone => exact Prog.orderly_map orderly_markDone
  | saveJobLog => exact Prog.orderly_map orderly_saveJobLog
  | recoverStale => exact Prog.orderly_map orderly_recoverStale
  | requestJobCancel => exact Prog.orderly_map orderly_requestJobCancel
  | requestAppCancel => exact Prog.orderly_map orderly_requestAppCancel
  | checkpoint => exact Prog.orderly_map orderly_checkpoint
  | deleteApp => exact Prog.orderly_map orderly_deleteApp
  | admissionAdmit => exact Prog.orderly_map orderly_admissionAdmit
  | createApp => exact Prog.orderly_map orderly_createApp
  | updateApp | rotateSecret | setEnabled => exact Prog.orderly_map orderly_updateApp
  | listApps => exact Prog.orderly_map orderly_listApps
  | isDuplicate => exact Prog.orderly_map orderly_isDuplicate
  | getBySecretHash => exact Prog.orderly_map orderly_getBySecretHash
  | createAppRequest => exact Prog.orderly_map orderly_createAppRequest
  | manualDeployApp => exact Prog.orderly_map orderly_manualDeployApp
  | retryHistoryJob => exact Prog.orderly_map orderly_retryHistoryJob
  | saveAppEnv => exact Prog.orderly_map orderly_saveAppEnv
  | saveAppArgs => exact Prog.orderly_map orderly_saveAppArgs

theorem mutexes_open {s : Server} (hactive : s.activeCacheMu = false)
    (hsecrets : s.secretHashCacheMu = false) : ∀ m : ServerMutex, m.locked s = false
  | .activeCache => hactive
  | .secretHashCache => hsecrets

/-- What becomes of the calls that have started, whatever the order in which they go on and whatever
the database answers. -/
structure CallsReturn (cfg : ServerConfig) : Prop where
  finite : ¬ ∃ run : ℕ → ServerConfig, run 0 = cfg ∧ ∀ n, Advances (run n) (run (n + 1))
  last : ∀ cfg', Relation.ReflTransGen Advances cfg cfg' → (∀ cfg'', ¬ Advances cfg' cfg'') →
    cfg'.Quiet ∧ cfg'.shared.activeCacheMu = false ∧ cfg'.shared.secretHashCacheMu = false

/-- No call waits for ever: from every configuration that a run of the server reaches, the calls
that have started go on for finitely many steps, and stop only when all have returned and both
mutexes are free. -/
theorem calls_return {rt : Runtime} {s₀ : Server} {cfg : ServerConfig}
    (hactive : s₀.activeCacheMu = false) (hsecrets : s₀.secretHashCacheMu = false)
    (reach : rt.Reaches s₀ cfg) : CallsReturn cfg := by
  constructor
  · rintro ⟨run, -, hrun⟩
    have : IsWellFounded ServerConfig fun cfg' cfg => Advances cfg cfg' := ⟨advances_wf⟩
    obtain ⟨n, hn⟩ := WellFounded.not_rel_apply_succ (r := fun cfg' cfg => Advances cfg cfg') run
    exact hn (hrun n)
  · intro cfg' hgoes hstuck
    obtain ⟨holds, h⟩ := reaches_mannered (orderly_program rt) (mutexes_open hactive hsecrets)
      (reaches_advances reach hgoes)
    have : Nonempty Choice := ⟨⟨none, ""⟩⟩
    have hquiet := h.quiet hstuck
    have hnobody : ∀ t, ¬ cfg'.Acting t := by
      rintro t ⟨call, ready, effect, next, ht⟩
      have hnone := hquiet _ (List.mem_of_getElem? ht)
      cases hnone
    exact ⟨hquiet, h.open hnobody .activeCache, h.open hnobody .secretHashCache⟩

/-- A call has taken the mutex of the active jobs, and another one waits for it. -/
def waitsForMutex : ServerConfig :=
  play (Runtime.program ⟨2, id, id⟩) (.started .empty .empty)
    (solo (.isDuplicate "a" "v1") 0 2 ⟨none, ""⟩ ++ solo (.enqueue "a" "v1") 1 2 ⟨none, "j1"⟩)

theorem calls_return_waitsForMutex :
    waitsForMutex.shared.activeCacheMu = true ∧
      (steps waitsForMutex.history).length = 3 ∧ CallsReturn waitsForMutex :=
  ⟨by decide, by decide, calls_return rfl rfl (reaches_play _ _ _)⟩

end AutoDeploy
