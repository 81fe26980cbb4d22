import AutoDeploy.AdminEventProvider
import AutoDeploy.Services

namespace AutoDeploy

def CancelEvent.jobID : CancelEvent → String
  | .cancelRequested _ jobID _ _ _ _ => jobID
  | .jobStatus jobID _ _ => jobID

/-- The status in the payload. -/
def CancelEvent.announced : CancelEvent → String
  | .cancelRequested _ _ _ status _ _ => statusText status
  | .jobStatus _ status _ => status.text

/-- The status of a job that the client shows. -/
def AdminEventState.status (s : AdminEventState) (jobID : String) : Option String :=
  (s.progress jobID).map NormalizedProgress.status

section Cancel

variable {newEventID now : String} {event : CancelEvent} {s : AdminEventState}

/-- The job id stands beside the payload, where the client does not look for it. -/
theorem payloadJobId_cancel {sent : AdminHubEvent} (h : sent.payload = event.adminEvent.payload) :
    payloadJobId sent.marshal = none := by
  rw [payloadJobId, marshal_payload, h]
  cases event with
  | cancelRequested appID jobID previousState status outcome message => rfl
  | jobStatus jobID status message => rfl

theorem readEvent_cancel {sent : AdminHubEvent} {progress : ProgressRecord}
    (htype : sent.type = event.adminEvent.type)
    (hpayload : sent.payload = event.adminEvent.payload) :
    readEvent sent.type.text sent.marshal progress = progress := by
  have hjob := payloadJobId_cancel hpayload
  rw [htype]
  cases event with
  | cancelRequested appID jobID previousState status outcome message =>
    have htext : (CancelEvent.cancelRequested appID jobID previousState status outcome
      message).adminEvent.type.text = "cancel_requested" := rfl
    rw [htext, readEvent, if_neg (by decide), if_neg (by decide), if_pos rfl, hjob]
  | jobStatus jobID status message =>
    have htext : (CancelEvent.jobStatus jobID status message).adminEvent.type.text =
      "job_status" := rfl
    rw [htext, readEvent, if_neg (by decide), if_pos rfl, hjob]

/-- No event of a cancellation changes what the client shows. -/
theorem receiveEvent_cancel :
    (receiveEvent newEventID now event.adminEvent s).progress = s.progress := by
  have hne : event.adminEvent.type ≠ .progress := by
    cases event with
    | cancelRequested => simp [CancelEvent.adminEvent]
    | jobStatus => simp [CancelEvent.adminEvent]
  obtain ⟨sent, htype, hpayload, hencode⟩ := @encodeEvent_readable newEventID now _ hne
  rw [receiveEvent, hencode, Option.elim_some, onmessage_marshal (htype ▸ hne)]
  exact readEvent_cancel htype hpayload

/-- After the event the client shows the status that it announces only where the client showed
it before, in every state that any frames have led to. -/
theorem cancelEvent_shown_iff {frames : List Json} {entry : NormalizedProgress}
    (h : (frames.foldl (fun s data => onmessage data s) s).progress event.jobID = some entry) :
    (receiveEvent newEventID now event.adminEvent
        (frames.foldl (fun s data => onmessage data s) s)).status event.jobID =
      some event.announced ↔ entry.status = event.announced := by
  rw [AdminEventState.status, receiveEvent_cancel, h, Option.map_some, Option.some.injEq]

/-- A client that shows a deploy of the job that has just begun. -/
def watchingClient : AdminEventState where
  connected := true
  events := []
  progress := Function.update (fun _ => none) "1f"
    (some ⟨"a0", "1f", "downloading", "in_progress", none, some 0, none, some 0, some ""⟩)

/-- What `RequestJobCancel` reports of a job in progress. -/
def activeCancel : CancelJobResult where
  jobID := "1f"
  appID := "a0"
  previousState := some .inProgress
  status := some .cancelRequested
  outcome := .activeRequested
  message := "active job will stop at the next safe checkpoint"

theorem cancelEvent_shown_watching :
    ((receiveEvent "evt-2" "" (CancelEvent.jobStatus "1f" .failed "cancel failed").adminEvent
        watchingClient).status "1f" = some "failed") ↔ "in_progress" = "failed" :=
  @cancelEvent_shown_iff "evt-2" "" (.jobStatus "1f" .failed "cancel failed") watchingClient [] _
    rfl

/-- A client that watches a deploy goes on showing it as running. -/
theorem activeCancel_not_shown :
    ∃ event ∈ activeCancel.events, event.jobID = "1f" ∧ event.announced = "cancel_requested" ∧
      (watchingClient.progress event.jobID).isSome ∧
      (receiveEvent "evt-1" "" event.adminEvent watchingClient).status event.jobID =
        some "in_progress" :=
  ⟨_, List.mem_cons_self, rfl, rfl, rfl, rfl⟩

end Cancel

end AutoDeploy
