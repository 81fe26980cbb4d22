import Mathlib.Algebra.Group.Nat.Defs
import Mathlib.Data.List.Infix
import Mathlib.Logic.Relation

namespace AutoDeploy.TelegramManager

/-- How many messages wait in the channel `jobs`. -/
def jobQueueSize : ℕ := 16

/-- In seconds. -/
def initialReconnectBackoff : ℕ := 2

/-- In seconds. -/
def maxReconnectBackoff : ℕ := 60

/-- Where the goroutine of `run` stands: at the head of its loop, in `client.Run` before the bot
is authenticated, in the `select` of `loop`, in `Send`, behind `client.Run`, in the `select` with
the timer, or past its deferred `close(m.done)`. -/
inductive Stage
  | top
  | connecting
  | receiving
  | sending (text : String)
  | returned (err : Option String)
  | waiting
  | done
deriving DecidableEq

/-- A manager that was started. `canceled` is the end of the context of `run`, and `jobs` is what
the channel holds. Nothing closes that channel. -/
structure Manager where
  jobs : List String
  canceled : Bool
  backoff : ℕ
  stage : Stage
deriving DecidableEq

def started : Manager := ⟨[], false, initialReconnectBackoff, .top⟩

inductive Event
  | queued (text : String)
  | dropped (text : String)
  | connected
  | taken (text : String)
  | sent (text : String) (err : Option String)
  | waited (seconds : ℕ)
  | closed
deriving DecidableEq

/-- `Notify`, which returns in any case. -/
def notify (text : String) (m : Manager) : Manager × Event :=
  if m.jobs.length < jobQueueSize then ({ m with jobs := m.jobs ++ [text] }, .queued text)
  else (m, .dropped text)

/-- One step of the goroutine. The client may end its own context at any time, also while the
manager goes on, and a `select` takes any case that is ready. -/
inductive Runs : Manager → Option Event → Manager → Prop
  | leave {m : Manager} : m.stage = .top → m.canceled = true →
      Runs m (some .closed) { m with stage := .done }
  | connect {m : Manager} : m.stage = .top → m.canceled = false →
      Runs m none { m with stage := .connecting }
  | refused {m : Manager} (err : Option String) : m.stage = .connecting →
      Runs m none { m with stage := .returned err }
  | connected {m : Manager} : m.stage = .connecting →
      Runs m (some .connected) { m with stage := .receiving, backoff := initialReconnectBackoff }
  | receive {m : Manager} {text : String} {rest : List String} : m.stage = .receiving →
      m.jobs = text :: rest →
      Runs m (some (.taken text)) { m with stage := .sending text, jobs := rest }
  | clientDone {m : Manager} (err : String) : m.stage = .receiving →
      Runs m none { m with stage := .returned (some err) }
  | sent {m : Manager} {text : String} (err : Option String) : m.stage = .sending text →
      Runs m (some (.sent text err)) { m with stage := .receiving }
  | exit {m : Manager} {err : Option String} : m.stage = .returned err → m.canceled = true →
      Runs m (some .closed) { m with stage := .done }
  | retry {m : Manager} {err : Option String} : m.stage = .returned err → m.canceled = false →
      Runs m none { m with stage := .waiting }
  | interrupted {m : Manager} : m.stage = .waiting → m.canceled = true →
      Runs m (some .closed) { m with stage := .done }
  | elapsed {m : Manager} : m.stage = .waiting →
      Runs m (some (.waited m.backoff))
        { m with stage := .top, backoff := min (m.backoff * 2) maxReconnectBackoff }

/-- A step of the manager, of some goroutine that notifies, or of `Stop` and of the parent
context, which both cancel. -/
inductive Step (m : Manager) : Option Event → Manager → Prop
  | runs {event : Option Event} {m' : Manager} : Runs m event m' → Step m event m'
  | notify (text : String) : Step m (some (notify text m).2) (notify text m).1
  | cancel : Step m none { m with canceled := true }

/-- A manager and what has happened to it since `Start`. -/
inductive Reaches : List Event → Manager → Prop
  | start : Reaches [] started
  | next {trace : List Event} {m m' : Manager} {event : Option Event} : Reaches trace m →
      Step m event m' → Reaches (trace ++ event.toList) m'

/-- `Stop` returns when `done` is closed. -/
def Manager.Stopped (m : Manager) : Prop := m.stage = .done

def Event.queued? : Event → Option String
  | .queued text => some text
  | _ => none

def Event.taken? : Event → Option String
  | .taken text => some text
  | _ => none

def Event.sent? : Event → Option String
  | .sent text _ => some text
  | _ => none

def Event.notified? : Event → Option String
  | .queued text | .dropped text => some text
  | _ => none

/-- The messages that `Notify` was called with. -/
def notified (trace : List Event) : List String := trace.filterMap Event.notified?

/-- The messages that found room in the channel. -/
def queued (trace : List Event) : List String := trace.filterMap Event.queued?

/-- The messages that `loop` has received from the channel. -/
def taken (trace : List Event) : List String := trace.filterMap Event.taken?

/-- The messages that `Send` was called with. -/
def sent (trace : List Event) : List String := trace.filterMap Event.sent?

def Stage.message : Stage → List String
  | .sending text => [text]
  | _ => []

/-- The waits since the last connection. -/
def failures (trace : List Event) : ℕ :=
  trace.foldl (fun n event => match event with
    | .connected => 0
    | .waited _ => n + 1
    | _ => n) 0

def backoffAfter (failures : ℕ) : ℕ := min (initialReconnectBackoff * 2 ^ failures)
  maxReconnectBackoff

/-- What an event says about what came before it. The channel holds what was queued and not yet
taken: a message is dropped at the moments at which these are `jobQueueSize`, and at no other. -/
def Allowed (before : List Event) : Event → Prop
  | .queued _ => (queued before).length < (taken before).length + jobQueueSize
  | .dropped _ => (queued before).length = (taken before).length + jobQueueSize
  | .waited seconds => seconds = backoffAfter (failures before) ∧ .closed ∉ before
  | .connected | .taken _ | .sent _ _ | .closed => .closed ∉ before

section Backoff

theorem backoffAfter_succ (n : ℕ) :
    min (backoffAfter n * 2) maxReconnectBackoff = backoffAfter (n + 1) := by
  unfold backoffAfter initialReconnectBackoff maxReconnectBackoff
  rw [Nat.pow_succ]
  omega

theorem backoffAfter_bounds (n : ℕ) :
    initialReconnectBackoff ≤ backoffAfter n ∧ backoffAfter n ≤ maxReconnectBackoff := by
  have hpos : 0 < 2 ^ n := Nat.two_pow_pos n
  unfold backoffAfter initialReconnectBackoff maxReconnectBackoff
  omega

end Backoff

section Trace

variable {trace : List Event} {m m' : Manager} {event : Event}

theorem queued_concat : queued (trace ++ [event]) = queued trace ++ event.queued?.toList := by
  cases event <;> simp [queued, Event.queued?]

theorem taken_concat : taken (trace ++ [event]) = taken trace ++ event.taken?.toList := by
  cases event <;> simp [taken, Event.taken?]

theorem sent_concat : sent (trace ++ [event]) = sent trace ++ event.sent?.toList := by
  cases event <;> simp [sent, Event.sent?]

theorem failures_concat : failures (trace ++ [event]) = match event with
    | .connected => 0
    | .waited _ => failures trace + 1
    | _ => failures trace := by
  simp [failures, List.foldl_append]

/-- What holds of a manager and its past. -/
structure Keeps (trace : List Event) (m : Manager) : Prop where
  room : m.jobs.length ≤ jobQueueSize
  holds : queued trace = taken trace ++ m.jobs
  order : taken trace = sent trace ++ m.stage.message
  backoff : m.backoff = backoffAfter (failures trace)
  closed : .closed ∈ trace ↔ m.stage = .done
  canceled : m.stage = .done → m.canceled = true
  allowed : ∀ before event, before ++ [event] <+: trace → Allowed before event

theorem started_keeps : Keeps [] started where
  room := by decide
  holds := rfl
  order := rfl
  backoff := by decide
  closed := by simp [started]
  canceled h := by cases h
  allowed before event h := by simp at h

theorem allowed_concat (h : ∀ before event, before ++ [event] <+: trace → Allowed before event)
    (hevent : Allowed trace event) :
    ∀ before other, before ++ [other] <+: trace ++ [event] → Allowed before other := by
  intro before other hprefix
  rcases List.prefix_concat_iff.mp hprefix with he | hprefix
  · obtain ⟨rfl, hother⟩ := List.append_inj' he rfl
    cases hother
    exact hevent
  · exact h before other hprefix

/-- A step that no event tells of, and that takes no message. -/
theorem Keeps.quiet (h : Keeps trace m) (hjobs : m'.jobs = m.jobs)
    (hmessage : m'.stage.message = m.stage.message) (hbackoff : m'.backoff = m.backoff)
    (hopen : m.stage ≠ .done) (hstill : m'.stage ≠ .done) : Keeps trace m' where
  room := hjobs ▸ h.room
  holds := by rw [hjobs, h.holds]
  order := by rw [hmessage, h.order]
  backoff := hbackoff.trans h.backoff
  closed := by simp [h.closed, hopen, hstill]
  canceled hdone := absurd hdone hstill
  allowed := h.allowed

/-- The goroutine ends. -/
theorem Keeps.close (h : Keeps trace m) (hmessage : m.stage.message = [])
    (hopen : m.stage ≠ .done) (hcanceled : m.canceled = true) :
    Keeps (trace ++ [.closed]) { m with stage := .done } where
  room := h.room
  holds := by
    rw [queued_concat, taken_concat, h.holds]
    simp [Event.queued?, Event.taken?]
  order := by
    rw [taken_concat, sent_concat, h.order, hmessage]
    simp [Event.taken?, Event.sent?, Stage.message]
  backoff := by
    rw [failures_concat]
    exact h.backoff
  closed := by simp
  canceled _ := hcanceled
  allowed := allowed_concat h.allowed (fun hm => hopen (h.closed.mp hm))

/-- A step of the goroutine that an event tells of, and that does not end it. -/
theorem Keeps.told (h : Keeps trace m) (hjobs : m'.jobs = m.jobs)
    (hqueued : event.queued?.toList = []) (htaken : event.taken?.toList = [])
    (hmessage : m.stage.message = event.sent?.toList ++ m'.stage.message)
    (hbackoff : m'.backoff = backoffAfter (failures (trace ++ [event])))
    (hevent : event ≠ .closed) (hopen : m.stage ≠ .done) (hstill : m'.stage ≠ .done)
    (hallowed : Allowed trace event) : Keeps (trace ++ [event]) m' where
  room := hjobs ▸ h.room
  holds := by rw [queued_concat, taken_concat, hqueued, htaken, h.holds, hjobs]; simp
  order := by
    rw [taken_concat, sent_concat, htaken, h.order, hmessage]
    simp
  backoff := hbackoff
  closed := by
    have hnot : .closed ∉ trace := fun hm => hopen (h.closed.mp hm)
    simp [hnot, hstill, hevent.symm]
  canceled hdone := absurd hdone hstill
  allowed := allowed_concat h.allowed hallowed

theorem Keeps.runs {event : Option Event} (h : Keeps trace m) (step : Runs m event m') :
    Keeps (trace ++ event.toList) m' := by
  have open' : ∀ {stage : Stage}, m.stage = stage → stage ≠ .done → .closed ∉ trace := by
    intro stage hs hne hm
    exact hne (hs.symm.trans (h.closed.mp hm))
  cases step with
  | leave hs hcanceled => exact h.close (by rw [hs]; rfl) (by simp [hs]) hcanceled
  | exit hs hcanceled => exact h.close (by rw [hs]; rfl) (by simp [hs]) hcanceled
  | interrupted hs hcanceled => exact h.close (by rw [hs]; rfl) (by simp [hs]) hcanceled
  | connect hs _ =>
    rw [Option.toList_none, List.append_nil]
    exact h.quiet rfl (by rw [hs]; rfl) rfl (by simp [hs]) (by simp)
  | refused err hs =>
    rw [Option.toList_none, List.append_nil]
    exact h.quiet rfl (by rw [hs]; rfl) rfl (by simp [hs]) (by simp)
  | clientDone err hs =>
    rw [Option.toList_none, List.append_nil]
    exact h.quiet rfl (by rw [hs]; rfl) rfl (by simp [hs]) (by simp)
  | retry hs _ =>
    rw [Option.toList_none, List.append_nil]
    exact h.quiet rfl (by rw [hs]; rfl) rfl (by simp [hs]) (by simp)
  | @receive text rest hs hjobs =>
    have hopen := open' hs (by simp)
    refine ⟨?_, ?_, ?_, ?_, by simp [hopen], by simp, allowed_concat h.allowed hopen⟩
    · have hroom := h.room
      rw [hjobs, List.length_cons] at hroom
      exact Nat.le_of_succ_le hroom
    · rw [Option.toList_some, queued_concat, taken_concat, h.holds, hjobs]
      simp [Event.queued?, Event.taken?]
    · rw [Option.toList_some, taken_concat, sent_concat, h.order, hs]
      simp [Event.taken?, Event.sent?, Stage.message]
    · rw [Option.toList_some, failures_concat]
      exact h.backoff
  | connected hs =>
    refine h.told rfl rfl rfl (by rw [hs]; rfl) ?_ (by simp) (by simp [hs]) (by simp)
      (open' hs (by simp))
    rw [failures_concat]
    rfl
  | sent err hs =>
    refine h.told rfl rfl rfl (by rw [hs]; rfl) ?_ (by simp) (by simp [hs]) (by simp)
      (open' hs (by simp))
    rw [failures_concat]
    exact h.backoff
  | elapsed hs =>
    refine h.told rfl rfl rfl (by rw [hs]; rfl) ?_ (by simp) (by simp [hs]) (by simp)
      ⟨h.backoff, open' hs (by simp)⟩
    rw [failures_concat]
    exact (congrArg (fun b => min (b * 2) maxReconnectBackoff) h.backoff).trans
      (backoffAfter_succ _)

theorem Keeps.notify (h : Keeps trace m) (text : String) :
    Keeps (trace ++ [(notify text m).2]) (notify text m).1 := by
  have hlength : (queued trace).length = (taken trace).length + m.jobs.length := by
    rw [h.holds, List.length_append]
  unfold TelegramManager.notify
  split
  next hroom =>
    refine ⟨?_, ?_, ?_, ?_, by simp [h.closed], h.canceled, allowed_concat h.allowed ?_⟩
    · rw [List.length_append, List.length_singleton]
      exact hroom
    · rw [queued_concat, taken_concat, h.holds]
      simp [Event.queued?, Event.taken?]
    · rw [taken_concat, sent_concat, h.order]
      simp [Event.taken?, Event.sent?]
    · rw [failures_concat]
      exact h.backoff
    · show (queued trace).length < (taken trace).length + jobQueueSize
      omega
  next hfull =>
    refine ⟨h.room, ?_, ?_, ?_, by simp [h.closed], h.canceled, allowed_concat h.allowed ?_⟩
    · rw [queued_concat, taken_concat, h.holds]
      simp [Event.queued?, Event.taken?]
    · rw [taken_concat, sent_concat, h.order]
      simp [Event.taken?, Event.sent?]
    · rw [failures_concat]
      exact h.backoff
    · show (queued trace).length = (taken trace).length + jobQueueSize
      have hroom := h.room
      omega

theorem Keeps.step {event : Option Event} (h : Keeps trace m) (step : Step m event m') :
    Keeps (trace ++ event.toList) m' := by
  cases step with
  | runs step => exact h.runs step
  | notify text => exact h.notify text
  | cancel =>
    rw [Option.toList_none, List.append_nil]
    exact ⟨h.room, h.holds, h.order, h.backoff, h.closed, fun _ => rfl, h.allowed⟩

theorem reaches_keeps (reach : Reaches trace m) : Keeps trace m := by
  induction reach with
  | start => exact started_keeps
  | next _ step ih => exact ih.step step

theorem queued_sublist (trace : List Event) : (queued trace).Sublist (notified trace) := by
  induction trace with
  | nil => exact List.Sublist.slnil
  | cons event trace ih =>
    cases event with
    | queued text => exact ih.cons_cons text
    | dropped text => exact ih.cons text
    | _ => exact ih

end Trace

/-- What a manager has done with the messages of its notifiers, and when it tried. -/
structure Delivers (trace : List Event) (m : Manager) : Prop where
  room : m.jobs.length ≤ jobQueueSize
  found : (queued trace).Sublist (notified trace)
  holds : queued trace = taken trace ++ m.jobs
  order : queued trace = sent trace ++ (m.stage.message ++ m.jobs)
  allowed : ∀ before event, before ++ [event] <+: trace → Allowed before event
  pause : ∀ seconds, .waited seconds ∈ trace →
    initialReconnectBackoff ≤ seconds ∧ seconds ≤ maxReconnectBackoff
  alive : m.Stopped → m.canceled = true

/-- In every run, whatever the client and the notifiers do: what finds room is sent in its order
and once, a message is dropped only when `jobQueueSize` others are in the channel, the waits
follow the backoff, and a manager stops when it is told to and sends nothing after that. -/
theorem notifications_delivered {trace : List Event} {m : Manager} (reach : Reaches trace m) :
    Delivers trace m := by
  have h := reaches_keeps reach
  have horder : queued trace = sent trace ++ (m.stage.message ++ m.jobs) := by
    rw [h.holds, h.order, List.append_assoc]
  refine ⟨h.room, queued_sublist trace, h.holds, horder, h.allowed, ?_, h.canceled⟩
  intro seconds hm
  obtain ⟨before, after, rfl⟩ := List.append_of_mem hm
  have hallowed := h.allowed before (.waited seconds) ⟨after, by simp⟩
  rw [hallowed.1]
  exact backoffAfter_bounds _

/-- Steps of the goroutine alone. -/
inductive Goes : Manager → List Event → Manager → Prop
  | refl {m : Manager} : Goes m [] m
  | step {m m' m'' : Manager} {event : Option Event} {events : List Event} :
      Runs m event m' → Goes m' events m'' → Goes m (event.toList ++ events) m''

section Goes

variable {m m' m'' : Manager} {events events' : List Event}

theorem Goes.trans (h : Goes m events m') (h' : Goes m' events' m'') :
    Goes m (events ++ events') m'' := by
  induction h with
  | refl => exact h'
  | step run _ ih =>
    rw [List.append_assoc]
    exact .step run (ih h')

theorem sent_append : sent (events ++ events') = sent events ++ sent events' := by
  simp [sent]

/-- The goroutine is in the `select` of `loop`, with this to send. -/
structure Ready (m : Manager) (jobs : List String) : Prop where
  stage : m.stage = .receiving
  jobs : m.jobs = jobs
  canceled : m.canceled = false

/-- The goroutine can reach the `select` of `loop`, and sends on its way what it has taken. -/
def Reconnects (m : Manager) : Prop :=
  ∃ events m', Goes m events m' ∧ sent events = m.stage.message ∧ Ready m' m.jobs

theorem connecting_reconnects (hs : m.stage = .connecting) (hc : m.canceled = false) :
    Reconnects m :=
  ⟨_, _, .step (.connected hs) .refl, by rw [hs]; rfl, rfl, rfl, hc⟩

theorem top_reconnects (hs : m.stage = .top) (hc : m.canceled = false) : Reconnects m := by
  obtain ⟨events, m', hgoes, hsent, hready⟩ :=
    connecting_reconnects (m := { m with stage := .connecting }) rfl hc
  exact ⟨_, m', .step (.connect hs hc) hgoes, by rw [hs]; exact hsent, hready⟩

theorem waiting_reconnects (hs : m.stage = .waiting) (hc : m.canceled = false) :
    Reconnects m := by
  obtain ⟨events, m', hgoes, hsent, hready⟩ := top_reconnects
    (m := { m with stage := .top, backoff := min (m.backoff * 2) maxReconnectBackoff }) rfl hc
  exact ⟨_, m', .step (.elapsed hs) hgoes, by rw [hs]; exact hsent, hready⟩

theorem reconnects (hc : m.canceled = false) (hopen : m.stage ≠ .done) : Reconnects m := by
  cases hs : m.stage with
  | top => exact top_reconnects hs hc
  | connecting => exact connecting_reconnects hs hc
  | receiving => exact ⟨[], m, .refl, by rw [hs]; rfl, hs, rfl, hc⟩
  | sending text => exact ⟨_, _, .step (.sent none hs) .refl, by rw [hs]; rfl, rfl, rfl, hc⟩
  | returned err =>
    obtain ⟨events, m', hgoes, hsent, hready⟩ :=
      waiting_reconnects (m := { m with stage := .waiting }) rfl hc
    exact ⟨_, m', .step (.retry hs hc) hgoes, by rw [hs]; exact hsent, hready⟩
  | waiting => exact waiting_reconnects hs hc
  | done => exact absurd hs hopen

/-- From the `select` of `loop` everything in the channel can be sent. -/
theorem drains (jobs : List String) (h : Ready m jobs) :
    ∃ events m', Goes m events m' ∧ sent events = jobs ∧ Ready m' [] := by
  induction jobs generalizing m with
  | nil => exact ⟨[], m, .refl, rfl, h⟩
  | cons text rest ih =>
    have hready : Ready { m with stage := .receiving, jobs := rest } rest := ⟨rfl, rfl, h.canceled⟩
    obtain ⟨events, m', hgoes, hsent, hdone⟩ := ih hready
    refine ⟨_, m', .step (.receive h.stage h.jobs) (.step (.sent none rfl) hgoes), ?_, hdone⟩
    show text :: sent events = text :: rest
    rw [hsent]

/-- A goroutine whose context has ended can end, after the message that it has taken. -/
theorem stops (hc : m.canceled = true) : ∃ events m', Goes m events m' ∧
    sent events = m.stage.message ∧ m'.Stopped ∧ m'.jobs = m.jobs := by
  have receiving : ∀ {m : Manager}, m.stage = .receiving → m.canceled = true →
      ∃ events m', Goes m events m' ∧ sent events = [] ∧ m'.Stopped ∧ m'.jobs = m.jobs :=
    fun hs hc => ⟨_, _, .step (.clientDone "" hs) (.step (.exit rfl hc) .refl), rfl, rfl, rfl⟩
  cases hs : m.stage with
  | top => exact ⟨_, _, .step (.leave hs hc) .refl, rfl, rfl, rfl⟩
  | connecting =>
    exact ⟨_, _, .step (.refused none hs) (.step (.exit rfl hc) .refl), rfl, rfl, rfl⟩
  | receiving => exact receiving hs hc
  | sending text =>
    obtain ⟨events, m', hgoes, hsent, hstopped, hjobs⟩ :=
      receiving (m := { m with stage := .receiving }) rfl hc
    refine ⟨_, m', .step (.sent none hs) hgoes, ?_, hstopped, hjobs⟩
    show text :: sent events = [text]
    rw [hsent]
  | returned err => exact ⟨_, _, .step (.exit hs hc) .refl, rfl, rfl, rfl⟩
  | waiting => exact ⟨_, _, .step (.interrupted hs hc) .refl, rfl, rfl, rfl⟩
  | done => exact ⟨[], m, .refl, rfl, hs, rfl⟩

end Goes

/-- What a manager can still do by itself. -/
structure Recovers (m : Manager) : Prop where
  delivers : m.canceled = false → ∃ events m', Goes m events m' ∧
    sent events = m.stage.message ++ m.jobs ∧ Ready m' []
  stops : m.canceled = true → ∃ events m', Goes m events m' ∧
    sent events = m.stage.message ∧ m'.Stopped ∧ m'.jobs = m.jobs

/-- No failure leaves a manager dead: as long as its context lasts it can connect again and send
all that waits, and from the end of its context on `Stop` can return. -/
theorem manager_recovers {trace : List Event} {m : Manager} (reach : Reaches trace m) :
    Recovers m := by
  refine ⟨fun hc => ?_, fun hc => stops hc⟩
  have hopen : m.stage ≠ .done := by
    intro hs
    rw [(reaches_keeps reach).canceled hs] at hc
    cases hc
  obtain ⟨events, m', hgoes, hsent, hready⟩ := reconnects hc hopen
  obtain ⟨events', m'', hgoes', hsent', hdone⟩ := drains m.jobs hready
  exact ⟨events ++ events', m'', hgoes.trans hgoes', by rw [sent_append, hsent, hsent'], hdone⟩

/-- A message in the channel, and a connection that was refused. -/
def refusedOnce : Manager := ⟨["deployed"], false, initialReconnectBackoff, .returned none⟩

theorem refusedOnce_reached : Reaches [.queued "deployed"] refusedOnce := by
  have reach : Reaches [] started := .start
  replace reach := reach.next (.notify "deployed")
  replace reach := reach.next (.runs (.connect rfl rfl))
  exact reach.next (.runs (.refused none rfl))

theorem notifications_delivered_refusedOnce : Delivers [.queued "deployed"] refusedOnce :=
  notifications_delivered refusedOnce_reached

theorem manager_recovers_refusedOnce : Recovers refusedOnce :=
  manager_recovers refusedOnce_reached

end AutoDeploy.TelegramManager
