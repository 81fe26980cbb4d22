import AutoDeploy.Server
import AutoDeploy.Tag

namespace AutoDeploy

open Interleaving

inductive QueueError
  | duplicate
  | queueFull
  | invalidTag (reason : TagError)
  | originalNotFound (jobID : String)
  | random (text : String)
  | sql (context : String) (cause : SqlError)
deriving DecidableEq

/-- `quote` and `quoteRune` are the `%q` verb, `driver` the text of a database error. -/
def QueueError.text (quote : String → String) (quoteRune : Char → String)
    (driver : SqlError → String) : QueueError → String
  | duplicate => "tag already pending or in progress"
  | queueFull => "deploy queue is full"
  | invalidTag reason => reason.text quoteRune
  | originalNotFound jobID => "create retry job: original job " ++ quote jobID ++ " not found"
  | random text => "generate job id: " ++ text
  | sql context cause => context ++ driver cause

def loadActiveCache : Op (Except QueueError (List (String × String))) := do
  match ← readActiveCache with
  | some m => return .ok m
  | none =>
    lockActiveCache
    match ← readActiveCache with
    | some m =>
      unlockActiveCache
      return .ok m
    | none =>
      match ← query fun s => s.jobs.activeKeys with
      | .error e =>
        unlockActiveCache
        return .error (.sql "deploy_queue: load active cache: " e)
      | .ok m =>
        storeActiveCache m
        unlockActiveCache
        return .ok m

def isDuplicate (appID tag : String) : Op (Except QueueError Bool) := do
  match ← loadActiveCache with
  | .error e => return .error e
  | .ok m => return .ok (m.contains (appID, tag))

def pendingCount (appID : String) : Op (Except SqlError ℕ) :=
  query fun s => s.jobs.pendingCount appID

def insertJob (jobID appID tag : String) (trigger : Trigger) (retryOfJobID : Option String) :
    Op (Except SqlError Unit) :=
  exec .other fun s => do
    let row := s.jobs.newJob jobID appID tag trigger retryOfJobID
    let jobs ← s.jobs.insert row
    return ((), { s with jobs := jobs }, [.inserted row])

/-- The body that `Enqueue` and `EnqueueManual` share. -/
def enqueueAs (trigger : Trigger) (maxPending : Int) (appID tag : String) :
    Op (Except QueueError Unit) := do
  match validateTag tag with
  | .error e => return .error (.invalidTag e)
  | .ok () =>
    match ← isDuplicate appID tag with
    | .error e => return .error e
    | .ok true => return .error .duplicate
    | .ok false =>
      match ← pendingCount appID with
      | .error e => return .error (.sql "" e)
      | .ok count =>
        if maxPending ≤ count then return .error .queueFull
        else match ← generateJobID with
          | .error e => return .error (.random e)
          | .ok jobID =>
            let inserted ← insertJob jobID appID tag trigger none
            invalidateActiveJobsCache
            match inserted with
            | .error e =>
              if isUniqueViolation e then return .error .duplicate
              else return .error (.sql "" e)
            | .ok () => return .ok ()

def enqueue (maxPending : Int) (appID tag : String) : Op (Except QueueError Unit) :=
  enqueueAs .webhook maxPending appID tag

def enqueueManual (maxPending : Int) (appID tag : String) : Op (Except QueueError Unit) :=
  enqueueAs .manualDeploy maxPending appID tag

/-- No comparison with `maxPending` stands in this path. -/
def createRetryJob (originalJobID appID tag : String) : Op (Except QueueError String) := do
  match validateTag tag with
  | .error e => return .error (.invalidTag e)
  | .ok () =>
    match ← query fun s => (s.jobs.find? originalJobID).isSome with
    | .error e => return .error (.sql "create retry job: query original: " e)
    | .ok false => return .error (.originalNotFound originalJobID)
    | .ok true =>
      match ← isDuplicate appID tag with
      | .error e => return .error e
      | .ok true => return .error .duplicate
      | .ok false =>
        match ← generateJobID with
        | .error e => return .error (.random e)
        | .ok jobID =>
          let inserted ← insertJob jobID appID tag .manualRetry (some originalJobID)
          invalidateActiveJobsCache
          match inserted with
          | .error e =>
            if isUniqueViolation e then return .error .duplicate
            else return .error (.sql "create retry job: insert: " e)
          | .ok () => return .ok jobID

def dequeueNext (appID : String) : Op (Except SqlError (Option (String × String))) := do
  let picked ← exec .other fun s => do
    let (picked, jobs) ← s.jobs.dequeueNext appID
    return (picked, { s with jobs := jobs }, (picked.map StoreEvent.dequeued).toList)
  match picked with
  | .error e => return .error e
  | .ok none => return .ok none
  | .ok (some job) =>
    invalidateActiveJobsCache
    return .ok (some (job.id, job.tag))

/-- A statement that rewrites rows of `deploy_jobs` and emits nothing. -/
def execJobs (statement : Jobs → Except SqlError Jobs) : Op (Except SqlError Unit) :=
  exec .other fun s => do
    let jobs ← statement s.jobs
    return ((), { s with jobs := jobs }, [])

def markDone (id : String) (success : Bool) (errMsg : String) (summary : Option DownloadSummary) :
    Op (Except SqlError Unit) := do
  let result ← execJobs fun jobs => jobs.markDone id success errMsg summary
  invalidateActiveJobsCache
  return result

def saveJobLog (id log : String) : Op (Except QueueError Unit) := do
  match ← execJobs fun jobs => jobs.saveJobLog id log with
  | .error e => return .error (.sql "deploy_queue: save job log: " e)
  | .ok () =>
    invalidateActiveJobsCache
    return .ok ()

def recoverStale : Op (Except SqlError Unit) := do
  let result ← execJobs Jobs.recoverStale
  invalidateActiveJobsCache
  return result

end AutoDeploy
