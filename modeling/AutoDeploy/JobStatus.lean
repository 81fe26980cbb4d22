import Mathlib.Data.List.Basic

namespace AutoDeploy

/-- The six texts that the code writes to the `status` column of `deploy_jobs`. -/
def jobStatusTexts : List String :=
  ["pending", "in_progress", "cancel_requested", "succeeded", "failed", "canceled"]

/-- A status text that none of the constants names, as a legacy row may hold. -/
structure UnknownStatus where
  text : String
  unknown : text ∉ jobStatusTexts
deriving DecidableEq

inductive JobStatus
  | pending
  | inProgress
  | cancelRequested
  | succeeded
  | failed
  | canceled
  | unknown (status : UnknownStatus)
deriving DecidableEq

def JobStatus.text : JobStatus → String
  | pending => "pending"
  | inProgress => "in_progress"
  | cancelRequested => "cancel_requested"
  | succeeded => "succeeded"
  | failed => "failed"
  | canceled => "canceled"
  | unknown status => status.text

/-- How a text read back from the column is switched on. -/
def JobStatus.ofText (text : String) : JobStatus :=
  if hp : text = "pending" then pending
  else if hi : text = "in_progress" then inProgress
  else if hr : text = "cancel_requested" then cancelRequested
  else if hs : text = "succeeded" then succeeded
  else if hf : text = "failed" then failed
  else if hc : text = "canceled" then canceled
  else unknown ⟨text, by simp [jobStatusTexts, hp, hi, hr, hs, hf, hc]⟩

theorem JobStatus.text_ofText (text : String) : (ofText text).text = text := by
  unfold ofText
  repeat' split
  all_goals simp_all [JobStatus.text]

theorem JobStatus.ofText_text (status : JobStatus) : ofText status.text = status := by
  cases status with
  | unknown status =>
    have h := status.unknown
    simp only [jobStatusTexts, List.mem_cons, List.not_mem_nil, or_false, not_or] at h
    simp [JobStatus.text, ofText, h]
  | _ => rfl

/-- `status IN ('pending', 'in_progress', 'cancel_requested')`. -/
def JobStatus.isActive : JobStatus → Bool
  | pending | inProgress | cancelRequested => true
  | _ => false

/-- `status IN ('in_progress', 'cancel_requested')`. -/
def JobStatus.isRunning : JobStatus → Bool
  | inProgress | cancelRequested => true
  | _ => false

def isTerminalJobStatus : JobStatus → Bool
  | .succeeded | .failed | .canceled => true
  | _ => false

/-- The law of the status column: the changes that one statement may make to one row. -/
inductive JobStatus.Moves : JobStatus → JobStatus → Prop
  | dequeue : Moves pending inProgress
  | cancelPending : Moves pending canceled
  | requestCancel : Moves inProgress cancelRequested
  | finish {status result : JobStatus} : status.isRunning = true →
      result = succeeded ∨ result = failed → Moves status result
  | cancelRunning : Moves cancelRequested canceled

theorem JobStatus.terminal_not_active {status : JobStatus}
    (h : isTerminalJobStatus status = true) : status.isActive = false := by
  cases status <;> simp_all [isTerminalJobStatus, isActive]

theorem JobStatus.terminal_not_running {status : JobStatus}
    (h : isTerminalJobStatus status = true) : status.isRunning = false := by
  cases status <;> simp_all [isTerminalJobStatus, isRunning]

theorem JobStatus.terminal_no_moves {status result : JobStatus}
    (h : isTerminalJobStatus status = true) : ¬ status.Moves result := by
  intro move
  cases move with
  | finish running _ => cases status <;> simp_all [isTerminalJobStatus, isRunning]
  | _ => simp [isTerminalJobStatus] at h

theorem JobStatus.Moves.not_pending {status result : JobStatus} (move : status.Moves result) :
    result ≠ pending := by
  cases move with
  | finish _ hresult => rcases hresult with rfl | rfl <;> simp
  | _ => simp

theorem JobStatus.Moves.running_of_not_terminal {status result : JobStatus}
    (move : status.Moves result) (hopen : isTerminalJobStatus result = false)
    (hrunning : status.isRunning = true) : result.isRunning = true := by
  cases move with
  | finish _ hresult => rcases hresult with rfl | rfl <;> simp [isTerminalJobStatus] at hopen
  | dequeue => rfl
  | cancelPending => simp [isRunning] at hrunning
  | requestCancel => rfl
  | cancelRunning => simp [isTerminalJobStatus] at hopen

end AutoDeploy
