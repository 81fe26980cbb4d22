import AutoDeploy.AppSettings
import AutoDeploy.AppTable
import AutoDeploy.InterleavingProg

namespace AutoDeploy

open Interleaving

/-- What the goroutines of the server share: the database, which one connection serialises, and
the two snapshot caches with their mutexes. -/
structure Server where
  jobs : Jobs
  apps : Apps
  appEnv : Settings (List EnvVar)
  appArgs : Settings (List String)
  activeCache : Option (List (String × String))
  activeCacheMu : Bool
  secretHashCache : Option (List App)
  secretHashCacheMu : Bool

/-- A process that has just started on a database: both caches are empty. -/
def Server.started (jobs : Jobs) (apps : Apps) : Server :=
  ⟨jobs, apps, .empty, .empty, none, false, none, false⟩

/-- What an action takes from outside: an error of the database or of the random source, and
the bytes that the random source gives. -/
structure Choice where
  fault : Option String
  id : String

inductive CancelEvent
  | cancelRequested (appID jobID : String) (previousState status : Option JobStatus)
      (outcome : CancelOutcome) (message : String)
  | jobStatus (jobID : String) (status : JobStatus) (message : String)
deriving DecidableEq

inductive StoreEvent
  | inserted (row : JobRow)
  | dequeued (row : JobRow)
  | cancelReported (result : CancelJobResult)
  | published (event : CancelEvent)
deriving DecidableEq

abbrev Op := Prog Server Choice StoreEvent

/-- A statement that only reads. -/
def query {α : Type} (select : Server → α) : Op (Except SqlError α) :=
  Prog.atomic fun s k =>
    match k.fault with
    | some text => (.error (.other text), s, [])
    | none => (.ok (select s), s, [])

/-- A statement or a transaction that writes, or fails and leaves everything as it was. -/
def exec {α η : Type} (other : String → η)
    (statement : Server → Except η (α × Server × List StoreEvent)) : Op (Except η α) :=
  Prog.atomic fun s k =>
    match k.fault with
    | some text => (.error (other text), s, [])
    | none =>
      match statement s with
      | .error e => (.error e, s, [])
      | .ok (value, after, events) => (.ok value, after, events)

/-- `rand.Read` and `hex.EncodeToString`. -/
def generateJobID : Op (Except String String) :=
  Prog.atomic fun s k =>
    match k.fault with
    | some text => (.error text, s, [])
    | none => (.ok k.id, s, [])

def readActiveCache : Op (Option (List (String × String))) :=
  Prog.atomic fun s _ => (s.activeCache, s, [])

def lockActiveCache : Op Unit :=
  Prog.await (fun s => !s.activeCacheMu) fun s _ => ((), { s with activeCacheMu := true }, [])

def unlockActiveCache : Op Unit :=
  Prog.atomic fun s _ => ((), { s with activeCacheMu := false }, [])

def storeActiveCache (snapshot : List (String × String)) : Op Unit :=
  Prog.atomic fun s _ => ((), { s with activeCache := some snapshot }, [])

/-- `InvalidateActiveJobsCache`: the critical section holds one store, so it is one action. -/
def invalidateActiveJobsCache : Op Unit :=
  Prog.await (fun s => !s.activeCacheMu) fun s _ => ((), { s with activeCache := none }, [])

def readSecretHashCache : Op (Option (List App)) :=
  Prog.atomic fun s _ => (s.secretHashCache, s, [])

def lockSecretHashCache : Op Unit :=
  Prog.await (fun s => !s.secretHashCacheMu)
    fun s _ => ((), { s with secretHashCacheMu := true }, [])

def unlockSecretHashCache : Op Unit :=
  Prog.atomic fun s _ => ((), { s with secretHashCacheMu := false }, [])

def storeSecretHashCache (snapshot : List App) : Op Unit :=
  Prog.atomic fun s _ => ((), { s with secretHashCache := some snapshot }, [])

def invalidateSecretHashCache : Op Unit :=
  Prog.await (fun s => !s.secretHashCacheMu)
    fun s _ => ((), { s with secretHashCache := none }, [])

def broadcastCancelEvent (event : CancelEvent) : Op Unit :=
  Prog.atomic fun s _ => ((), s, [.published event])

end AutoDeploy
