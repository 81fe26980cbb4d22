import AutoDeploy.AdminEvents
import AutoDeploy.JsValues

namespace AutoDeploy

/-- A property of what `JSON.parse` gives. -/
def Json.get? (key : String) : Json → Option Json
  | .obj fields => fields.lookup key
  | _ => none

/-- The value where its `typeof` is `"string"`. -/
def string? : Option Json → Option String
  | some (.str s) => some s
  | _ => none

/-- The value where its `typeof` is `"number"`. -/
def number? : Option Json → Option ℚ
  | some (.int n) => some (JsNumbers.ofInt n)
  | some (.float x) => some x
  | _ => none

/-- `Array.isArray`. -/
def array? : Option Json → Option (List Json)
  | some (.arr elems) => some elems
  | _ => none

/-- `String(value)`. What the server never sends there is `none`: the text of a fraction, of an
array and of an object. -/
def jsString : Option Json → Option String
  | none => some "undefined"
  | some (.str s) => some s
  | some (.int n) => some (toString (JsNumbers.ofInt n))
  | _ => none

def truthy : Option Json → Bool
  | none => false
  | some (.str s) => s ≠ ""
  | some (.int n) => n ≠ 0
  | some (.float x) => x ≠ 0
  | _ => true

structure NormalizedProgress where
  appId : String
  jobId : String
  phase : String
  status : String
  percent : Option ℚ
  doneBytes : Option ℚ
  totalBytes : Option ℚ
  bytesPerSecond : Option ℚ
  message : Option String
deriving DecidableEq

/-- The record of the jobs is keyed by the job id. -/
structure AdminEventState where
  connected : Bool
  events : List Json
  progress : String → Option NormalizedProgress

def initialState : AdminEventState := ⟨false, [], fun _ => none⟩

/-- A compact frame. -/
def compactProgress (data : Json) : Option NormalizedProgress := do
  let appId ← jsString (data.get? "a")
  let jobId ← jsString (data.get? "j")
  let phase ← jsString (data.get? "ph")
  let status ← jsString (data.get? "st")
  return {
    appId, jobId, phase, status
    percent := number? (data.get? "pct")
    doneBytes := number? (data.get? "db")
    totalBytes := number? (data.get? "tb")
    bytesPerSecond := number? (data.get? "bps")
    message := string? (data.get? "msg") }

/-- One job of a snapshot, which is skipped without its two ids. -/
def snapshotProgress (job : Json) : Option NormalizedProgress := do
  let appId := (job.get? "AppID").or (job.get? "appId")
  let jobId := (job.get? "JobID").or (job.get? "jobId")
  if truthy jobId && truthy appId then
    let tb := (number? (job.get? "TotalBytes")).or (number? (job.get? "totalBytes"))
    let pct := (number? (job.get? "Percent")).or (number? (job.get? "percent"))
    let phase ← jsString (((job.get? "Phase").or (job.get? "phase")).or (some (.str "unknown")))
    let status ← jsString (((job.get? "Status").or (job.get? "status")).or (some (.str phase)))
    let appId ← jsString appId
    let jobId ← jsString jobId
    return {
      appId, jobId, phase, status
      percent := pct.filter fun pct => 0 ≤ pct
      totalBytes := tb.filter fun tb => 0 < tb
      doneBytes :=
        (number? (job.get? "DownloadedBytes")).or (number? (job.get? "downloadedBytes"))
      bytesPerSecond := (number? (job.get? "SpeedBPS")).or (number? (job.get? "speedBPS"))
      message := (string? (job.get? "Message")).or (string? (job.get? "message")) }
  else none

abbrev ProgressRecord : Type := String → Option NormalizedProgress

def putProgress (entry : Option NormalizedProgress) (progress : ProgressRecord) : ProgressRecord :=
  match entry with
  | none => progress
  | some e => Function.update progress e.jobId (some e)

def mergeSnapshot (jobs : List Json) (progress : ProgressRecord) : ProgressRecord :=
  jobs.foldl (fun progress job => putProgress (snapshotProgress job) progress) progress

def setStatus (jobId status : String) (progress : ProgressRecord) : ProgressRecord :=
  Function.update progress jobId ((progress jobId).map fun job => { job with status })

/-- The job id of a payload, where the client takes it from: a string by the type of the event. -/
def payloadJobId (data : Json) : Option String :=
  (string? ((data.get? "payload").bind (Json.get? "jobId"))).filter (· ≠ "")

def payloadStatus (data : Json) : Option String :=
  string? ((data.get? "payload").bind (Json.get? "status"))

def knownTypes : List String :=
  ["hello", "snapshot", "job_status", "cancel_requested", "notice", "heartbeat"]

/-- The record after a readable event. -/
def readEvent (type : String) (data : Json) (progress : ProgressRecord) : ProgressRecord :=
  if type = "snapshot" then
    match array? (data.get? "payload") with
    | some jobs => mergeSnapshot jobs progress
    | none => progress
  else if type = "job_status" then
    match payloadJobId data, payloadStatus data with
    | some jobId, some status => setStatus jobId status progress
    | _, _ => progress
  else if type = "cancel_requested" then
    match payloadJobId data with
    | some jobId => setStatus jobId "cancel_requested" progress
    | none => progress
  else progress

def onmessage (data : Json) (s : AdminEventState) : AdminEventState :=
  if string? (data.get? "t") = some "p" then
    { s with progress := putProgress (compactProgress data) s.progress }
  else
    match string? (data.get? "type") with
    | none => s
    | some type =>
      if type ∈ knownTypes then
        { s with events := s.events ++ [data], progress := readEvent type data s.progress }
      else s

/-- The client takes in the frame of an event, if there is one. -/
def receiveEvent (newEventID now : String) (event : AdminHubEvent) (s : AdminEventState) :
    AdminEventState :=
  (encodeEvent newEventID now event).elim s fun data => onmessage data s

section Readable

variable {newEventID now : String} {event : AdminHubEvent} {s : AdminEventState}

theorem lookup_omitEmpty {key name value : String} {rest : List (String × Json)}
    (h : key ≠ name) : (omitEmpty name value ++ rest).lookup key = rest.lookup key := by
  have hkey : (key == name) = false := by simpa using h
  unfold omitEmpty
  split
  next => rfl
  next => rw [List.singleton_append, List.lookup_cons, hkey]

theorem marshal_get {key : String} (hversion : key ≠ "version") (hid : key ≠ "id")
    (htype : key ≠ "type") (htimestamp : key ≠ "timestamp") (happ : key ≠ "appId")
    (hjob : key ≠ "jobId") : event.marshal.get? key =
      (event.payload.elim [] fun payload => [("payload", payload.marshal)]).lookup key := by
  have hne : ∀ {name : String}, key ≠ name → (key == name) = false := fun h => by simpa using h
  rw [AdminHubEvent.marshal, Json.get?, List.append_assoc, List.append_assoc]
  simp only [List.cons_append, List.nil_append, List.lookup_cons, hne hversion, hne hid, hne htype,
    hne htimestamp]
  rw [lookup_omitEmpty happ, lookup_omitEmpty hjob]

/-- A readable event has no `t`, which is how the client tells it from a compact frame. -/
theorem marshal_t : event.marshal.get? "t" = none := by
  rw [marshal_get (by decide) (by decide) (by decide) (by decide) (by decide) (by decide)]
  cases event.payload with
  | none => rfl
  | some payload => rfl

theorem marshal_payload :
    event.marshal.get? "payload" = event.payload.map AdminEventPayload.marshal := by
  rw [marshal_get (by decide) (by decide) (by decide) (by decide) (by decide) (by decide)]
  cases event.payload with
  | none => rfl
  | some payload => rfl

theorem marshal_type : event.marshal.get? "type" = some (.str event.type.text) := rfl

theorem onmessage_marshal (h : event.type ≠ .progress) : onmessage event.marshal s =
    { s with
      events := s.events ++ [event.marshal]
      progress := readEvent event.type.text event.marshal s.progress } := by
  have hknown : event.type.text ∈ knownTypes := by
    cases htype : event.type with
    | progress => exact absurd htype h
    | _ => decide
  rw [onmessage, marshal_t, marshal_type]
  simp only [string?, if_pos hknown]
  rfl

/-- The event as it is sent: the server fills in the version, the id and the timestamp. -/
theorem encodeEvent_readable (h : event.type ≠ .progress) :
    ∃ sent : AdminHubEvent, sent.type = event.type ∧ sent.payload = event.payload ∧
      encodeEvent newEventID now event = some sent.marshal := by
  refine ⟨_, ?_, ?_, if_neg ?_⟩
  · rfl
  · rfl
  · exact h

end Readable

end AutoDeploy
