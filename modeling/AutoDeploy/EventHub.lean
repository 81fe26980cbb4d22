import AutoDeploy.AdminEventProvider
import Mathlib.Data.List.Sort

namespace AutoDeploy

def adminEventClientBuffer : ℕ := 64

/-- How far `EventsWebSocket` is with a connection. -/
inductive ConnectionStage
  | fresh
  | added
  | greeted
  | streaming
  | removed
  | closed
deriving DecidableEq

/-- A connection: whether the map of the hub holds it, its channel, the frames that are written
to the socket and not yet handled, and the page at the other end. `panicked` says that the
channel was closed when it was sent to or closed again. -/
structure AdminEventClient where
  stage : ConnectionStage
  registered : Bool
  send : List Json
  sendClosed : Bool
  closeOnce : Bool
  panicked : Bool
  wire : List Json
  page : AdminEventState

namespace AdminEventClient

/-- Before the page connects. -/
def absent : AdminEventClient := ⟨.fresh, false, [], false, false, false, [], initialState⟩

def close (client : AdminEventClient) : AdminEventClient :=
  if client.closeOnce then client
  else { client with
    closeOnce := true
    sendClosed := true
    panicked := client.panicked || client.sendClosed }

@[simp] theorem close_registered (client : AdminEventClient) :
    client.close.registered = client.registered := by
  unfold close
  split
  next => rfl
  next => rfl

@[simp] theorem close_stage (client : AdminEventClient) : client.close.stage = client.stage := by
  unfold close
  split
  next => rfl
  next => rfl

/-- The send of `Broadcast`, which drops a client whose buffer is full. -/
def offer (payload : Json) (client : AdminEventClient) : AdminEventClient :=
  if client.registered then
    if client.sendClosed then { client with panicked := true }
    else if client.send.length < adminEventClientBuffer then
      { client with send := client.send ++ [payload] }
    else close { client with registered := false }
  else client

/-- `addClient`, for a page that shows anything: it may have been connected before. -/
def add (page : AdminEventState) (client : AdminEventClient) : AdminEventClient :=
  if client.stage = .fresh then
    { absent with stage := .added, registered := true, page := page }
  else client

/-- `writeAdminEventPayload`, on the way from one stage to the next. -/
def write (before after : ConnectionStage) (payload : Option Json) (client : AdminEventClient) :
    AdminEventClient :=
  if client.stage = before then
    match payload with
    | some payload => { client with stage := after, wire := client.wire ++ [payload] }
    | none => client
  else client

/-- One round of the loop, with a payload from the channel. -/
def forward (client : AdminEventClient) : AdminEventClient :=
  if client.stage = .streaming then
    match client.send with
    | payload :: rest => { client with send := rest, wire := client.wire ++ [payload] }
    | [] => client
  else client

/-- The page handles the next frame. -/
def receive (client : AdminEventClient) : AdminEventClient :=
  match client.wire with
  | data :: rest => { client with wire := rest, page := onmessage data client.page }
  | [] => client

/-- The handler returns, and `removeClient` takes the client out of the map. -/
def remove (client : AdminEventClient) : AdminEventClient :=
  if client.stage = .added ∨ client.stage = .greeted ∨ client.stage = .streaming then
    { client with stage := .removed, registered := false }
  else client

/-- The end of `removeClient`, which does not hold the mutex any more. -/
def finish (client : AdminEventClient) : AdminEventClient :=
  if client.stage = .removed then { client.close with stage := .closed } else client

/-- The page has handled everything that was sent to it. -/
def Drained (client : AdminEventClient) : Prop :=
  client.registered = true ∧ client.stage = .streaming ∧ client.send = [] ∧ client.wire = []

end AdminEventClient

/-- A call of the tracker that is published. -/
inductive TrackerCall
  | start (appID jobID tag : String)
  | update (appID : String) (downloaded total : Int64) (speedBPS : ℚ)
  | setPhase (appID : String) (phase : ProgressStage)
  | finish (appID : String)
  | fail (appID : String)

namespace TrackerCall

def appID : TrackerCall → String
  | start appID _ _ => appID
  | update appID _ _ _ => appID
  | setPhase appID _ => appID
  | finish appID => appID
  | fail appID => appID

def apply (now : Int) : TrackerCall → ProgressTracker → ProgressTracker
  | start appID jobID tag => .start now appID jobID tag
  | update appID downloaded total speedBPS =>
    .update now appID downloaded.toInt total.toInt speedBPS
  | setPhase appID phase => .setPhase now appID phase
  | finish appID => .finish now appID
  | fail appID => .fail now appID

end TrackerCall

/-- The hub with its tracker. `apps` are the apps of the calls so far, `pending` what a call has
stored in the tracker and has not published yet. -/
structure AdminEventHub where
  tracker : ProgressTracker
  apps : List String
  pending : String → Option ProgressSnapshot
  clients : ℕ → AdminEventClient

/-- The id and the time of an event. -/
structure EventStamp where
  id : String
  now : String

inductive HubAction
  | track (now : Int) (call : TrackerCall)
  | publish (stamp : EventStamp) (appID : String)
  | cleanup (now : Int)
  | broadcastCancel (stamp : EventStamp) (event : CancelEvent)
  | addClient (c : ℕ) (page : AdminEventState)
  | hello (stamp : EventStamp) (c : ℕ)
  | snapshot (stamp : EventStamp) (c : ℕ)
  | forward (c : ℕ)
  | heartbeat (stamp : EventStamp) (c : ℕ)
  | receive (c : ℕ)
  | removeClient (c : ℕ)
  | closeClient (c : ℕ)

namespace AdminEventHub

def empty : AdminEventHub := ⟨.empty, [], fun _ => none, fun _ => .absent⟩

def encode (stamp : EventStamp) (event : AdminHubEvent) : Option Json :=
  encodeEvent stamp.id stamp.now event

/-- The mutex is held from the first client to the last. -/
def broadcast (stamp : EventStamp) (event : AdminHubEvent) (h : AdminEventHub) : AdminEventHub :=
  match encode stamp event with
  | none => h
  | some payload => { h with clients := fun c => (h.clients c).offer payload }

def onClient (c : ℕ) (fn : AdminEventClient → AdminEventClient) (h : AdminEventHub) :
    AdminEventHub := { h with clients := Function.update h.clients c (fn (h.clients c)) }

def snapshotAll (h : AdminEventHub) : List ProgressSnapshot :=
  (h.apps.insertionSort (· ≤ ·)).filterMap h.tracker.snapshot

/-- The calls for one app come one after the other: the next one waits for the publication. -/
def track (now : Int) (call : TrackerCall) (h : AdminEventHub) : AdminEventHub :=
  if h.pending call.appID = none then
    let tracker := call.apply now h.tracker
    { h with
      tracker
      apps := h.apps.insert call.appID
      pending := Function.update h.pending call.appID (tracker.snapshot call.appID) }
  else h

def publish (stamp : EventStamp) (appID : String) (h : AdminEventHub) : AdminEventHub :=
  match h.pending appID with
  | none => h
  | some snapshot =>
    broadcast stamp (progressEvent snapshot)
      { h with pending := Function.update h.pending appID none }

def step (a : HubAction) (h : AdminEventHub) : AdminEventHub :=
  match a with
  | .track now call => h.track now call
  | .publish stamp appID => h.publish stamp appID
  | .cleanup now => { h with tracker := h.tracker.cleanup now }
  | .broadcastCancel stamp event => h.broadcast stamp event.adminEvent
  | .addClient c page => h.onClient c (.add page)
  | .hello stamp c => h.onClient c (.write .added .greeted (encode stamp helloEvent))
  | .snapshot stamp c =>
    h.onClient c (.write .greeted .streaming (encode stamp (snapshotEvent h.snapshotAll)))
  | .forward c => h.onClient c .forward
  | .heartbeat stamp c =>
    h.onClient c (.write .streaming .streaming (encode stamp heartbeatEvent))
  | .receive c => h.onClient c .receive
  | .removeClient c => h.onClient c .remove
  | .closeClient c => h.onClient c .finish

def run (actions : List HubAction) (h : AdminEventHub) : AdminEventHub :=
  actions.foldl (fun h a => step a h) h

/-- The action publishes an update of the job while the hub holds the client. -/
def hears (c : ℕ) (jobID : String) (a : HubAction) (h : AdminEventHub) : Bool :=
  match a with
  | .publish _ appID =>
    (h.clients c).registered && (h.pending appID).any fun snapshot => snapshot.jobID == jobID
  | _ => false

/-- An update of the job was published while the hub held the client. -/
def heard (c : ℕ) (jobID : String) : List HubAction → AdminEventHub → Bool
  | [], _ => false
  | a :: rest, h => hears c jobID a h || heard c jobID rest (step a h)

end AdminEventHub

/-- A job is a row of one app, and ids are not empty. -/
def HubAction.Issued (owner : String → String) : HubAction → Prop
  | .track _ (.start appID jobID _) => owner jobID = appID ∧ appID ≠ "" ∧ jobID ≠ ""
  | _ => True

end AutoDeploy
