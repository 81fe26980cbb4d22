import AutoDeploy.InterleavingAlone
import AutoDeploy.JobStatements
import AutoDeploy.ProgressTracker

namespace AutoDeploy

open Interleaving

/-- The errors that the deploy tells apart with `errors.Is`. -/
inductive Sentinel
  | contextCanceled
  | notExist
  | deployCanceled
deriving DecidableEq

/-- An error of Go: its text, and the sentinel that it wraps. -/
structure GoError where
  text : String
  wraps : Option Sentinel
deriving DecidableEq

namespace GoError

def new (text : String) : GoError := ⟨text, none⟩

def is (err : GoError) (target : Sentinel) : Bool := err.wraps == some target

/-- `fmt.Errorf` with `%w` at the end of the format. -/
def errorf (context : String) (err : GoError) : GoError := ⟨context ++ err.text, err.wraps⟩

end GoError

/-- `ctx.Err()` of a context whose cancel function was called. -/
def contextCanceled : GoError := ⟨"context canceled", some .contextCanceled⟩

def errDeployCanceled : GoError :=
  ⟨"deploy canceled at safe checkpoint", some .deployCanceled⟩

abbrev Content := List UInt8

/-- The three files of an app: `BinaryPath`, and `BinaryPath` with `.tmp` and with `.bak`. -/
structure Disk where
  binary : Option Content
  tmp : Option Content
  backup : Option Content
deriving DecidableEq

inductive DeployPath
  | binary
  | tmp
  | backup
deriving DecidableEq

namespace Disk

def get (disk : Disk) : DeployPath → Option Content
  | .binary => disk.binary
  | .tmp => disk.tmp
  | .backup => disk.backup

def set (disk : Disk) (content : Option Content) : DeployPath → Disk
  | .binary => { disk with binary := content }
  | .tmp => { disk with tmp := content }
  | .backup => { disk with backup := content }

end Disk

/-- What a deploy works on: the row of its job, the files of its app, the context of its
download with the goroutine that watches for a cancel, and the progress tracker. -/
structure DeployWorld where
  row : JobRow
  disk : Disk
  ctxCanceled : Bool
  watching : Bool
  tracker : ProgressTracker

/-- An error of the HTTP client or of the resolver. -/
structure ClientError where
  err : GoError
  transient : Bool
deriving DecidableEq

/-- A response whose body gives these bytes, and then the end of the file or an error, which may
come in one read with the last byte. -/
structure HttpResponse where
  statusCode : Int
  contentLength : Int
  body : Content
  readErr : Option GoError
  errWithLast : Bool
deriving DecidableEq

abbrev Headers := List (String × String)

/-- What one call takes from outside. `cancel` says that a cancel request for the job commits
before the call, and `poll` that the watcher then polls. `fault` is the error of the call, and
the rest is what it brings: the resolver's URL, the client's response, the bytes that reach the
file before a write fails, the reports of the reader, the timing, and the output of systemctl. -/
structure Answer where
  cancel : Bool
  poll : Bool
  now : Int
  fault : Option String
  resolved : Except ClientError (String × Headers)
  response : Except ClientError HttpResponse
  stored : ℕ
  reports : List (Int × ℚ)
  durationMs : Int
  speedBPS : ℚ
  output : String

/-- Where a temporary file is removed. -/
inductive RemoveSite
  | rejected
  | checkpoint (phase : DeployPhase)
  | deferred
deriving DecidableEq

/-- Which binary a restart starts. -/
inductive RestartSite
  | installed
  | rolledBack
deriving DecidableEq

/-- The calls that leave the process, with what they were answered. -/
inductive DeployEvent
  | madeDir (dir : String) (err : Option GoError)
  | resolved (err : Option GoError)
  | requested (url : String) (headers : Headers) (result : Except GoError HttpResponse)
  | contextErr (err : Option GoError)
  | created (err : Option GoError)
  | copied (bytes : Content) (err : Option GoError)
  | closed (err : Option GoError)
  | removed (site : RemoveSite) (err : Option GoError)
  | stat (path : DeployPath) (size : Option ℕ)
  | opened (err : Option GoError)
  | magicRead (err : Option GoError)
  | chmod (err : Option GoError)
  | statusRead (phase : DeployPhase) (result : Except GoError JobStatus)
  | markedTerminal (phase : DeployPhase) (status : JobStatus) (err : Option GoError)
  | renamed (src dst : DeployPath) (err : Option GoError)
  | restarted (site : RestartSite) (err : Option GoError)
  | checkedActive (output : String) (err : Option GoError)
  | markedDone (success : Bool) (err : Option GoError)

abbrev Deploy := Prog DeployWorld Answer DeployEvent

abbrev DeployStep := Step DeployWorld DeployEvent

/-- What the other goroutines do before a call: a cancel request may mark the row, and the
watcher may see that and cancel the context. -/
def DeployWorld.meanwhile (k : Answer) (w : DeployWorld) : DeployWorld :=
  let row := if k.cancel then w.row.canceled else w.row
  { w with
    row := row
    ctxCanceled := w.ctxCanceled ||
      (w.watching && k.poll && (row.status == .cancelRequested || row.status == .canceled)) }

/-- One call of the deploy, which other goroutines may run before. -/
def call {α : Type} (run : DeployWorld → Answer → α × DeployWorld × List DeployEvent) : Deploy α :=
  Prog.atomic fun w k => run (w.meanwhile k) k

/-- A call that may fail and leaves the world alone when it does. -/
def fallible (event : Option GoError → DeployEvent)
    (effect : DeployWorld → Answer → Except GoError DeployWorld) : Deploy (Option GoError) :=
  call fun w k =>
    match k.fault with
    | some text => (some (.new text), w, [event (some (.new text))])
    | none =>
      match effect w k with
      | .error e => (some e, w, [event (some e)])
      | .ok after => (none, after, [event none])

/-- A call that only writes to memory of the process. -/
def internal (effect : Answer → DeployWorld → DeployWorld) : Deploy Unit :=
  call fun w k => ((), effect k w, [])

def trackerStart (appID jobID tag : String) : Deploy Unit :=
  internal fun k w => { w with tracker := w.tracker.start k.now appID jobID tag }

def trackerSetPhase (appID : String) (phase : ProgressStage) : Deploy Unit :=
  internal fun k w => { w with tracker := w.tracker.setPhase k.now appID phase }

def trackerFinish (appID : String) : Deploy Unit :=
  internal fun k w => { w with tracker := w.tracker.finish k.now appID }

def trackerFail (appID : String) : Deploy Unit :=
  internal fun k w => { w with tracker := w.tracker.fail k.now appID }

def mkdirAll (dir : String) : Deploy (Option GoError) :=
  fallible (.madeDir dir) fun w _ => .ok w

def renameFile (src dst : DeployPath) : Deploy (Option GoError) :=
  fallible (.renamed src dst) fun w _ =>
    match w.disk.get src with
    | none => .error ⟨"no such file or directory", some .notExist⟩
    | some content => .ok { w with disk := (w.disk.set (some content) dst).set none src }

def chmodFile : Deploy (Option GoError) :=
  fallible .chmod fun w _ =>
    match w.disk.tmp with
    | none => .error ⟨"no such file or directory", some .notExist⟩
    | some _ => .ok w

/-- `os.Remove` of the temporary file. -/
def osRemove (site : RemoveSite) : Deploy (Option GoError) :=
  fallible (.removed site) fun w _ =>
    match w.disk.tmp with
    | none => .error ⟨"no such file or directory", some .notExist⟩
    | some _ => .ok { w with disk := w.disk.set none .tmp }

def removeIfExists (site : RemoveSite) : Deploy (Option GoError) := do
  match ← osRemove site with
  | none => return none
  | some err => return if err.is .notExist then none else some err

/-- `os.Stat`, which reports existence faithfully, with the size. -/
def osStat (path : DeployPath) : Deploy (Option ℕ) :=
  call fun w _ =>
    let size := (w.disk.get path).map List.length
    (size, w, [.stat path size])

/-- `systemctl restart`, with the output that a failure reports. -/
def systemctlRestart (site : RestartSite) : Deploy (Option GoError × String) :=
  call fun w k =>
    let err := k.fault.map GoError.new
    ((err, k.output), w, [.restarted site err])

def systemctlIsActive : Deploy (Option GoError × String) :=
  call fun w k =>
    let err := k.fault.map GoError.new
    ((err, k.output), w, [.checkedActive k.output err])

/-- `ctx.Err()`. -/
def contextErr : Deploy (Option GoError) :=
  call fun w _ =>
    let err := if w.ctxCanceled then some contextCanceled else none
    (err, w, [.contextErr err])

/-- An error from outside wraps no sentinel but `context.Canceled`, and that one only under a
canceled context. -/
def DeployWorld.clientErr (w : DeployWorld) (err : GoError) : GoError :=
  ⟨err.text, if err.is .contextCanceled && w.ctxCanceled then some .contextCanceled else none⟩

end AutoDeploy
