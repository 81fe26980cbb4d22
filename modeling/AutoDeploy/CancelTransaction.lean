import AutoDeploy.Services
import AutoDeploy.InterleavingWithin

namespace AutoDeploy

open Interleaving

/-- The server, and what the connection sees of `deploy_jobs` while it has a transaction open. -/
structure CancelTx where
  server : Server
  work : Option Jobs

abbrev TxOp := Prog CancelTx Choice StoreEvent

/-- An operation outside of the transaction. -/
def atServer {α : Type} (op : Op α) : TxOp α :=
  op.within CancelTx.server fun t s => { t with server := s }

def txBegin : TxOp (Except SqlError Unit) :=
  Prog.atomic fun t k =>
    match k.fault with
    | some text => (.error (.other text), t, [])
    | none => (.ok (), { t with work := some t.server.jobs }, [])

/-- Statements of the transaction, one of which may fail. -/
def txStatement {α : Type} (statement : Jobs → Except SqlError (α × Jobs)) :
    TxOp (Except SqlError α) :=
  Prog.atomic fun t k =>
    match k.fault, t.work with
    | some text, _ => (.error (.other text), t, [])
    | none, none =>
      (.error (.other "sql: transaction has already been committed or rolled back"), t, [])
    | none, some jobs =>
      match statement jobs with
      | .error e => (.error e, t, [])
      | .ok (value, after) => (.ok value, { t with work := some after }, [])

def txCommit : TxOp (Except SqlError Unit) :=
  Prog.atomic fun t k =>
    match k.fault, t.work with
    | some text, _ => (.error (.other text), t, [])
    | none, none =>
      (.error (.other "sql: transaction has already been committed or rolled back"), t, [])
    | none, some jobs => (.ok (), ⟨{ t.server with jobs := jobs }, none⟩, [])

def txRollback : TxOp Unit := Prog.atomic fun t _ => ((), { t with work := none }, [])

/-- `tx, err := db.Begin()`, and `defer tx.Rollback()` around the rest of the function. -/
def inTx {α : Type} (body : ExceptT SqlError TxOp α) : TxOp (Except SqlError α) := do
  match ← txBegin with
  | .error e => return .error e
  | .ok () =>
    let result ← body.run
    txRollback
    return result

/-- `RequestJobCancel` with its statements apart. Its SELECT and the UPDATE of its switch are one
action, since both fail to the same end. -/
def requestJobCancelTx (quote : String → String) (jobID : String) :
    TxOp (Except SqlError CancelJobResult) :=
  inTx do
    let (result, found) ← ExceptT.mk <| txStatement fun jobs => do
      let (result, after) ← jobs.requestJobCancel quote jobID
      return ((result, (jobs.find? jobID).isSome), after)
    if found then
      ExceptT.mk txCommit
      ExceptT.lift (atServer invalidateActiveJobsCache)
      ExceptT.lift (atServer (publishCancelResult result))
    return result

/-- The loop of `RequestAppCancel`: one action for `rows.Next`, `rows.Scan` and the UPDATE of the
switch, and one for the last `rows.Next` with `rows.Err`. -/
def requestAppCancelRows (quote : String → String) :
    List JobRow → CancelAppResult → ExceptT SqlError TxOp CancelAppResult
  | [], result => ExceptT.mk <| txStatement fun jobs => .ok (result, jobs)
  | job :: rest, result => do
    let result ← ExceptT.mk <| txStatement fun jobs =>
      Jobs.requestAppCancelRow quote (result, jobs) job
    requestAppCancelRows quote rest result

/-- `RequestAppCancel` with its statements apart. -/
def requestAppCancelTx (quote : String → String) (appID : String) :
    TxOp (Except SqlError CancelAppResult) :=
  inTx do
    let rows ← ExceptT.mk <| txStatement fun jobs => .ok (jobs.jobsOfApp appID, jobs)
    let result ← requestAppCancelRows quote rows ⟨appID, 0, 0, 0, 0, 0, 0, 0, 0, []⟩
    ExceptT.mk txCommit
    ExceptT.lift (atServer invalidateActiveJobsCache)
    ExceptT.lift (atServer (publishAll result.requested))
    return result

/-- One cancel after the other. -/
def requestJobCancels (quote : String → String) :
    List String → TxOp (List (Except SqlError CancelJobResult))
  | [] => return []
  | jobID :: rest => do
    let result ← requestJobCancelTx quote jobID
    let results ← requestJobCancels quote rest
    return result :: results

end AutoDeploy
