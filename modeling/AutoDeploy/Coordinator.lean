import AutoDeploy.Calls

namespace AutoDeploy

open Interleaving

/-- The calls that webhooks, cancel requests and the admin pages make at any time. The others
are the coordinator's own, and the `RecoverStale` that ran before it started. -/
def Call.external : Call → Bool
  | .enqueue .. | .enqueueManual .. | .createRetryJob .. | .requestJobCancel ..
  | .requestAppCancel .. | .deleteApp .. | .admissionAdmit .. | .createApp .. | .updateApp ..
  | .rotateSecret .. | .setEnabled .. | .isDuplicate .. | .getBySecretHash ..
  | .createAppRequest .. | .manualDeployApp .. | .retryHistoryJob .. | .saveAppEnv ..
  | .saveAppArgs .. => true
  | .dequeueNext .. | .markDone .. | .saveJobLog .. | .recoverStale | .checkpoint .. | .listApps =>
    false

/-- Where the scheduler goroutine stands in the loop of `schedule`, with the apps still to visit
and the thread of the call it waits for. -/
inductive SchedulerStage
  | idle
  | listing (thread : ℕ)
  | scanning (rest : List App)
  | free (app : App) (rest : List App)
  | dequeuing (app : App) (rest : List App) (thread : ℕ)
  | claimed (app : App) (jobID tag : String) (rest : List App)
  | spawning (app : App) (jobID tag : String) (rest : List App)
  | stopped

/-- Where a `runDeploy` goroutine stands: in the runner, in `MarkDone`, in `captureJobLog`, in
front of its deferred functions, or past them. -/
inductive RunStage
  | executing
  | marking
  | logging
  | ending
  | ended
deriving DecidableEq

/-- A `runDeploy` goroutine, with the call it waits for. -/
structure Run where
  app : App
  jobID : String
  tag : String
  stage : RunStage
  waits : Option (ℕ × Call)

/-- The server with its coordinator. `activeApps` lists the keys of the map, and
`markDoneFailed` records that some `MarkDone` has returned an error. -/
structure Coordinator where
  pool : ServerConfig
  activeApps : List String
  stage : SchedulerStage
  runs : List Run
  markDoneFailed : Bool

def Coordinator.started (s₀ : Server) : Coordinator := ⟨⟨s₀, [], []⟩, [], .idle, [], false⟩

/-- What the scheduler does with the reply of `List`. -/
def SchedulerStage.afterList : Except AppError (List App) → SchedulerStage
  | .ok apps => .scanning apps
  | .error _ => .idle

/-- What the scheduler does with the reply of `DequeueNext`, whose empty id is `none` here. -/
def SchedulerStage.afterDequeue (app : App) (rest : List App) :
    Except SqlError (Option (String × String)) → SchedulerStage
  | .ok (some (jobID, tag)) => .claimed app jobID tag rest
  | .ok none | .error _ => .scanning rest

/-- Where a `runDeploy` goroutine goes on when its call has returned. -/
def RunStage.afterCall : RunStage → RunStage
  | executing => executing
  | marking => logging
  | logging | ending => ending
  | ended => ended

def Reply.isWritten : Reply → Bool
  | .written (.ok ()) => true
  | _ => false

/-- The call of `MarkDone` in `runDeploy`, from what the runner returned. -/
def Run.markDone (run : Run) (err : Option String) (summary : DownloadSummary) : Call :=
  .markDone run.jobID err.isNone (err.getD "") (if 0 < summary.bytes then some summary else none)

/-- A coordinator goroutine makes a call of the store and waits for it. -/
def Coordinator.begin (rt : Runtime) (c : Coordinator) (call : Call) : Coordinator :=
  { c with pool := c.pool.begin rt.program call }

/-- The call that a coordinator goroutine waits for returns. -/
def Coordinator.finish (c : Coordinator) (t : ℕ) (call : Call) (value : Reply) : Coordinator :=
  { c with pool := c.pool.finish t call value }

def Coordinator.setRun (c : Coordinator) (i : ℕ) (run : Run) : Coordinator :=
  { c with runs := c.runs.set i run }

/-- One step of the server: of a request from outside, of the scheduler or of a deploy. -/
inductive CoordinatorStep (rt : Runtime) : Coordinator → Coordinator → Prop
  | request {c : Coordinator} {call : Call} : call.external = true →
      CoordinatorStep rt c (c.begin rt call)
  | respond {c : Coordinator} {t : ℕ} {call : Call} {value : Reply} : call.external = true →
      c.pool.threads[t]? = some ⟨call, some (.ret value)⟩ →
      CoordinatorStep rt c (c.finish t call value)
  | act {c : Coordinator} {t : ℕ} {call : Call} {ready : Server → Choice → Bool}
      {effect : Server → Choice → Server × List StoreEvent} {next : Server → Choice → Op Reply}
      (k : Choice) :
      c.pool.threads[t]? = some ⟨call, some (.act ready effect next)⟩ →
      ready c.pool.shared k = true →
      CoordinatorStep rt c { c with
        pool := c.pool.perform t call (effect c.pool.shared k) (next c.pool.shared k) }
  | stop {c : Coordinator} : c.stage = .idle → CoordinatorStep rt c { c with stage := .stopped }
  | list {c : Coordinator} : c.stage = .idle →
      CoordinatorStep rt c
        { c.begin rt .listApps with stage := .listing c.pool.threads.length }
  | listed {c : Coordinator} {t : ℕ} {result : Except AppError (List App)} :
      c.stage = .listing t →
      c.pool.threads[t]? = some ⟨.listApps, some (.ret (.listed result))⟩ →
      CoordinatorStep rt c
        { c.finish t .listApps (.listed result) with stage := .afterList result }
  | scanned {c : Coordinator} : c.stage = .scanning [] →
      CoordinatorStep rt c { c with stage := .idle }
  | skip {c : Coordinator} {app : App} {rest : List App} : c.stage = .scanning (app :: rest) →
      app.enabled = false ∨ app.id ∈ c.activeApps →
      CoordinatorStep rt c { c with stage := .scanning rest }
  | free {c : Coordinator} {app : App} {rest : List App} : c.stage = .scanning (app :: rest) →
      app.enabled = true → app.id ∉ c.activeApps →
      CoordinatorStep rt c { c with stage := .free app rest }
  | dequeue {c : Coordinator} {app : App} {rest : List App} : c.stage = .free app rest →
      CoordinatorStep rt c
        { c.begin rt (.dequeueNext app.id) with
          stage := .dequeuing app rest c.pool.threads.length }
  | dequeued {c : Coordinator} {app : App} {rest : List App} {t : ℕ}
      {result : Except SqlError (Option (String × String))} : c.stage = .dequeuing app rest t →
      c.pool.threads[t]? = some ⟨.dequeueNext app.id, some (.ret (.dequeued result))⟩ →
      CoordinatorStep rt c
        { c.finish t (.dequeueNext app.id) (.dequeued result) with
          stage := .afterDequeue app rest result }
  | claim {c : Coordinator} {app : App} {jobID tag : String} {rest : List App} :
      c.stage = .claimed app jobID tag rest →
      CoordinatorStep rt c
        { c with activeApps := app.id :: c.activeApps, stage := .spawning app jobID tag rest }
  | spawn {c : Coordinator} {app : App} {jobID tag : String} {rest : List App} :
      c.stage = .spawning app jobID tag rest →
      CoordinatorStep rt c
        { c with runs := c.runs ++ [⟨app, jobID, tag, .executing, none⟩], stage := .scanning rest }
  | checkpoint {c : Coordinator} {i : ℕ} {run : Run} (phase : DeployPhase) :
      c.runs[i]? = some run → run.stage = .executing → run.waits = none →
      CoordinatorStep rt c ((c.begin rt (.checkpoint run.jobID phase)).setRun i
        { run with waits := some (c.pool.threads.length, .checkpoint run.jobID phase) })
  | runnerReturned {c : Coordinator} {i : ℕ} {run : Run} (err : Option String)
      (summary : DownloadSummary) : c.runs[i]? = some run → run.stage = .executing →
      run.waits = none →
      CoordinatorStep rt c ((c.begin rt (run.markDone err summary)).setRun i
        { run with
          stage := .marking
          waits := some (c.pool.threads.length, run.markDone err summary) })
  | captureLog {c : Coordinator} {i : ℕ} {run : Run} (log : String) : c.runs[i]? = some run →
      run.stage = .logging → run.waits = none → log ≠ "" →
      CoordinatorStep rt c ((c.begin rt (.saveJobLog run.jobID log)).setRun i
        { run with waits := some (c.pool.threads.length, .saveJobLog run.jobID log) })
  | noLog {c : Coordinator} {i : ℕ} {run : Run} : c.runs[i]? = some run →
      run.stage = .logging → run.waits = none →
      CoordinatorStep rt c (c.setRun i { run with stage := .ending })
  | returned {c : Coordinator} {i : ℕ} {run : Run} {t : ℕ} {call : Call} {value : Reply} :
      c.runs[i]? = some run → run.waits = some (t, call) →
      c.pool.threads[t]? = some ⟨call, some (.ret value)⟩ →
      CoordinatorStep rt c
        { (c.finish t call value).setRun i
            { run with stage := run.stage.afterCall, waits := none } with
          markDoneFailed :=
            c.markDoneFailed || (run.stage == .marking && !value.isWritten) }
  | clear {c : Coordinator} {i : ℕ} {run : Run} : c.runs[i]? = some run → run.stage = .ending →
      CoordinatorStep rt c
        { c.setRun i { run with stage := .ended } with
          activeApps := c.activeApps.filter fun id => !(id == run.app.id) }

/-- The states of the server and its coordinator, in any order of steps from a start. -/
inductive CoordinatorReaches (rt : Runtime) (s₀ : Server) : Coordinator → Prop
  | start : CoordinatorReaches rt s₀ (.started s₀)
  | next {c c' : Coordinator} : CoordinatorReaches rt s₀ c → CoordinatorStep rt c c' →
      CoordinatorReaches rt s₀ c'

/-- What happens to the store is a run of its calls, whatever the coordinator does. -/
theorem coordinator_pool {rt : Runtime} {s₀ : Server} {c : Coordinator}
    (reach : CoordinatorReaches rt s₀ c) : rt.Reaches s₀ c.pool := by
  induction reach with
  | start => exact .start
  | next _ step ih =>
    cases step with
    | request _ => exact ih.next (.call _ _)
    | respond _ ht => exact ih.next (.ret ht)
    | act k ht hready => exact ih.next (.act k ht hready)
    | list _ => exact ih.next (.call _ _)
    | listed _ ht => exact ih.next (.ret ht)
    | dequeue _ => exact ih.next (.call _ _)
    | dequeued _ ht => exact ih.next (.ret ht)
    | checkpoint phase _ _ _ => exact ih.next (.call _ _)
    | runnerReturned err summary _ _ _ => exact ih.next (.call _ _)
    | captureLog log _ _ _ _ => exact ih.next (.call _ _)
    | returned _ _ ht => exact ih.next (.ret ht)
    | _ => exact ih

end AutoDeploy
