import AutoDeploy.ProgressProtocol
import AutoDeploy.Server

namespace AutoDeploy

/-- A JSON value of the kinds that the server writes. The digits of `int` are all there; `float`
is the text of a float64. -/
inductive Json
  | str (s : String)
  | int (n : Int)
  | float (x : ℚ)
  | arr (elems : List Json)
  | obj (fields : List (String × Json))

inductive AdminEventType
  | hello
  | snapshot
  | jobStatus
  | cancelRequested
  | notice
  | heartbeat
  | progress
deriving DecidableEq

def AdminEventType.text : AdminEventType → String
  | .hello => "hello"
  | .snapshot => "snapshot"
  | .jobStatus => "job_status"
  | .cancelRequested => "cancel_requested"
  | .notice => "notice"
  | .heartbeat => "heartbeat"
  | .progress => "progress"

def adminEventProtocolVersion : String := "v1"

def adminEventCompactProgress : String := "p"

/-- What the callers put behind the `any` of the payload. The keys of `fields` are in order. -/
inductive AdminEventPayload
  | fields (entries : List (String × String))
  | snapshots (all : List ProgressSnapshot)
  | frame (f : ProgressFrame String)

/-- The `AdminEvent` of the hub. The timestamp is a text in RFC 3339, or `none` for the zero
time. -/
structure AdminHubEvent where
  version : String := ""
  id : String := ""
  type : AdminEventType
  timestamp : Option String := none
  appID : String := ""
  jobID : String := ""
  payload : Option AdminEventPayload := none

/-- A field with `omitempty`. -/
def omitEmpty (key value : String) : List (String × Json) :=
  if value = "" then [] else [(key, .str value)]

def omitNil (key : String) (value : Option Int64) : List (String × Json) :=
  match value with
  | none => []
  | some n => [(key, .int n.toInt)]

/-- `UpdatedAt`, which is a text in the zone of the machine, is left out. -/
def ProgressSnapshot.marshal (snapshot : ProgressSnapshot) : Json :=
  .obj [("AppID", .str snapshot.appID), ("JobID", .str snapshot.jobID), ("Tag", .str snapshot.tag),
    ("Phase", .str snapshot.phase.text), ("DownloadedBytes", .int snapshot.downloadedBytes),
    ("TotalBytes", .int snapshot.totalBytes), ("SpeedBPS", .float snapshot.speedBPS),
    ("Percent", .float snapshot.percent)]

def ProgressFrame.marshal (f : ProgressFrame String) : Json :=
  .obj [("AppID", .str f.appID), ("JobID", .str f.jobID), ("Tag", .str f.tag),
    ("Stage", .str f.stage), ("Status", .str f.status), ("Percent", .int f.percent.toInt),
    ("DownloadedBytes", .int f.downloadedBytes.toInt), ("TotalBytes", .int f.totalBytes.toInt),
    ("SpeedBPS", .int f.speedBPS.toInt), ("Message", .str f.message)]

def AdminEventPayload.marshal : AdminEventPayload → Json
  | .fields entries => .obj (entries.map fun (key, value) => (key, .str value))
  | .snapshots all => .arr (all.map ProgressSnapshot.marshal)
  | .frame f => f.marshal

/-- `json.Marshal` of an event, whose timestamp is set. -/
def AdminHubEvent.marshal (event : AdminHubEvent) : Json :=
  .obj ([("version", .str event.version), ("id", .str event.id), ("type", .str event.type.text),
      ("timestamp", .str (event.timestamp.getD ""))] ++
    omitEmpty "appId" event.appID ++ omitEmpty "jobId" event.jobID ++
    event.payload.elim [] fun payload => [("payload", payload.marshal)])

def adminEventProgressFrame : Option AdminEventPayload → Option (ProgressFrame String)
  | some (.frame f) => some f
  | _ => none

def compactProgressOptionalTotal (f : ProgressFrame String) : Option Int64 :=
  if f.totalBytes ≤ 0 then none else some f.totalBytes

def compactProgressOptionalPercent (f : ProgressFrame String) : Option Int64 :=
  if f.totalBytes ≤ 0 ∨ f.percent < 0 then none else some f.percent

/-- `json.Marshal` of the compact form of an event with its frame. -/
def compactAdminProgressEvent (event : AdminHubEvent) (f : ProgressFrame String) : Json :=
  .obj ([("v", .str event.version), ("t", .str adminEventCompactProgress), ("i", .str event.id),
      ("ts", .str (event.timestamp.getD "")),
      ("a", .str (if f.appID = "" then event.appID else f.appID)),
      ("j", .str (if f.jobID = "" then event.jobID else f.jobID)), ("ph", .str f.stage),
      ("st", .str f.status)] ++
    omitNil "pct" (compactProgressOptionalPercent f) ++ [("db", .int f.downloadedBytes.toInt)] ++
    omitNil "tb" (compactProgressOptionalTotal f) ++
    [("bps", .int f.speedBPS.toInt), ("msg", .str f.message)])

/-- An event whose payload is no frame is an error, and is not sent. -/
def encodeProgressEvent (event : AdminHubEvent) : Option Json :=
  (adminEventProgressFrame event.payload).map (compactAdminProgressEvent event)

/-- With the id that `newEventID` gives and the text of `now`. -/
def encodeEvent (newEventID now : String) (event : AdminHubEvent) : Option Json :=
  let event := { event with
    version := if event.version = "" then adminEventProtocolVersion else event.version
    id := if event.id = "" then newEventID else event.id
    timestamp := some (event.timestamp.getD now) }
  if event.type = .progress then encodeProgressEvent event else some event.marshal

/-- The event of `PublishProgress`. -/
def progressEvent (snapshot : ProgressSnapshot) : AdminHubEvent where
  type := .progress
  appID := snapshot.appID
  jobID := snapshot.jobID
  payload := some (.frame (progressEventFrame snapshot))

def helloEvent : AdminHubEvent where
  type := .hello
  payload := some (.fields [("protocol", adminEventProtocolVersion)])

/-- The order of the snapshots is that of the app ids, then that of the job ids. -/
def snapshotEvent (all : List ProgressSnapshot) : AdminHubEvent where
  type := .snapshot
  payload := some (.snapshots all)

def heartbeatEvent : AdminHubEvent where
  type := .heartbeat

def CancelOutcome.text : CancelOutcome → String
  | .pendingCanceled => "pending_canceled"
  | .activeRequested => "active_cancel_requested"
  | .terminalNoop => "terminal_noop"
  | .unknownJob => "unknown_job"

def statusText (status : Option JobStatus) : String := status.elim "" JobStatus.text

/-- The event of `BroadcastCancelEvent`, with the payloads of `publishCancelResult` and of
`publishJobStatus`. -/
def CancelEvent.adminEvent : CancelEvent → AdminHubEvent
  | .cancelRequested appID jobID previousState status outcome message =>
    { type := .cancelRequested
      appID
      jobID
      payload := some (.fields [("message", message), ("outcome", outcome.text),
        ("previousState", statusText previousState), ("status", statusText status)]) }
  | .jobStatus jobID status message =>
    { type := .jobStatus
      jobID
      payload := some (.fields [("message", message), ("status", status.text)]) }

end AutoDeploy
