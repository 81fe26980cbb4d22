import AutoDeploy.AdminEventProvider
import Mathlib.Data.Option.Basic

namespace AutoDeploy.EventConnection

inductive ReadyState
  | connecting
  | opened
  | closing
  | closed
deriving DecidableEq

/-- A `WebSocket` of the browser. `handlers` says whether `onopen`, `onmessage`, `onclose` and
`onerror` are set. -/
structure WebSocket where
  readyState : ReadyState
  handlers : Bool
deriving DecidableEq

def WebSocket.close (ws : WebSocket) : WebSocket :=
  match ws.readyState with
  | .connecting | .opened => { ws with readyState := .closing }
  | .closing | .closed => ws

def WebSocket.Live (ws : WebSocket) : Prop :=
  ws.readyState = .connecting ∨ ws.readyState = .opened

/-- A call that `setTimeout` has planned. -/
structure Timeout where
  handle : ℕ
  delay : ℕ
deriving DecidableEq

/-- A mounted `AdminEventProvider` with every socket that it has made, and the timeouts that are
planned. -/
structure Provider where
  state : AdminEventState
  sockets : List WebSocket
  wsRef : Option ℕ
  timeouts : List Timeout
  nextHandle : ℕ
  reconnectTimeoutRef : Option ℕ
  backoffRef : ℕ
  unmounted : Bool

/-- What the browser reports to the page: of a socket, or that a timeout has passed. -/
inductive Event
  | opened (ws : ℕ)
  | message (ws : ℕ) (data : Option Json)
  | closing (ws : ℕ)
  | closed (ws : ℕ)
  | timeout (handle : ℕ)
  | unmount

namespace Provider

def closeSocket (ws : Option ℕ) (p : Provider) : Provider :=
  { p with sockets := ws.elim p.sockets fun i => p.sockets.modify i WebSocket.close }

/-- The handlers of the socket before are taken off, and it is closed. -/
def detach (p : Provider) : Provider :=
  match p.wsRef with
  | some i =>
    let detached := p.sockets.modify i fun w => { w with handlers := false }
    { closeSocket (some i) { p with sockets := detached } with wsRef := none }
  | none => p

def connect (p : Provider) : Provider :=
  if p.unmounted then p
  else
    let p := p.detach
    { p with sockets := p.sockets ++ [⟨.connecting, true⟩], wsRef := some p.sockets.length }

def clearTimeout (handle : Option ℕ) (p : Provider) : Provider :=
  { p with timeouts := p.timeouts.filter fun t => some t.handle != handle }

def setTimeout (delay : ℕ) (p : Provider) : Provider :=
  { p with
    timeouts := p.timeouts ++ [⟨p.nextHandle, delay⟩]
    nextHandle := p.nextHandle + 1
    reconnectTimeoutRef := some p.nextHandle }

def setConnected (connected : Bool) (p : Provider) : Provider :=
  { p with state := { p.state with connected } }

def onopen (ws : ℕ) (p : Provider) : Provider :=
  if p.unmounted then p.closeSocket (some ws)
  else { p with backoffRef := 1000 }.setConnected true

/-- A frame that is no JSON is ignored. -/
def onmessage (data : Option Json) (p : Provider) : Provider :=
  if p.unmounted then p
  else { p with state := data.elim p.state fun data => AutoDeploy.onmessage data p.state }

def onclose (p : Provider) : Provider :=
  if p.unmounted then p
  else
    let p := { p with wsRef := none }.setConnected false
    let p := (p.clearTimeout p.reconnectTimeoutRef).setTimeout p.backoffRef
    { p with backoffRef := min (p.backoffRef * 2) 30000 }

/-- The cleanup of the effect. -/
def unmount (p : Provider) : Provider :=
  let p := { p with unmounted := true }
  (p.clearTimeout p.reconnectTimeoutRef).closeSocket p.wsRef

def setReadyState (i : ℕ) (readyState : ReadyState) (p : Provider) : Provider :=
  { p with sockets := p.sockets.modify i fun w => { w with readyState } }

/-- The page takes in one event, unless the browser cannot report it now. -/
def step (p : Provider) : Event → Option Provider
  | .opened i => do
    let ws ← p.sockets[i]?
    guard (ws.readyState = .connecting)
    let p := p.setReadyState i .opened
    return if ws.handlers then p.onopen i else p
  | .message i data => do
    let ws ← p.sockets[i]?
    guard (ws.readyState = .opened)
    return if ws.handlers then p.onmessage data else p
  | .closing i => do
    let ws ← p.sockets[i]?
    guard (ws.readyState = .opened)
    return p.setReadyState i .closing
  | .closed i => do
    let ws ← p.sockets[i]?
    guard (ws.readyState ≠ .closed)
    let p := p.setReadyState i .closed
    return if ws.handlers then p.onclose else p
  | .timeout handle => do
    guard (p.timeouts.any fun t => t.handle == handle)
    return connect { p with timeouts := p.timeouts.filter fun t => t.handle != handle }
  | .unmount => do
    guard (p.unmounted = false)
    return p.unmount

def run : Provider → List Event → Option Provider := List.foldlM step

/-- The effect has run for the first time. -/
def mounted : Provider := connect ⟨initialState, [], none, [], 0, none, 1000, false⟩

end Provider

/-- The failed or lost connections since one was opened. -/
def Event.failures (count : ℕ) : Event → ℕ
  | .opened _ => 0
  | .closed _ => count + 1
  | _ => count

def failures (events : List Event) : ℕ := events.foldl Event.failures 0

/-- The delay after so many failures before. -/
def delay (count : ℕ) : ℕ := min (1000 * 2 ^ count) 30000

theorem delay_succ (count : ℕ) : min (delay count * 2) 30000 = delay (count + 1) := by
  unfold delay
  rw [pow_succ]
  omega

/-- The phases of a provider, after so many failures since a connection was opened. -/
inductive Phase (count : ℕ) (p : Provider) : Prop
  | linked (before : List WebSocket) (ws : WebSocket) : p.unmounted = false →
      p.sockets = before ++ [ws] → (∀ w ∈ before, w.readyState = .closed) →
      p.wsRef = some before.length → ws.readyState ≠ .closed →
      p.state.connected = decide (ws.readyState ≠ .connecting) → p.timeouts = [] →
      p.backoffRef = delay count → Phase count p
  | waiting (handle : ℕ) : p.unmounted = false → (∀ w ∈ p.sockets, w.readyState = .closed) →
      p.wsRef = none → p.state.connected = false → 0 < count →
      p.timeouts = [⟨handle, delay (count - 1)⟩] → p.reconnectTimeoutRef = some handle →
      p.backoffRef = delay count → Phase count p
  | gone : p.unmounted = true → (∀ w ∈ p.sockets, ¬w.Live) → p.timeouts = [] → Phase count p

/-- The sockets keep their handlers. -/
structure Invariant (count : ℕ) (p : Provider) : Prop where
  handlers : ∀ w ∈ p.sockets, w.handlers = true
  phase : Phase count p

section Step

variable {count : ℕ} {p p' : Provider} {i : ℕ} {ws : WebSocket}

theorem mounted_invariant : Invariant 0 .mounted := by
  refine ⟨by decide, .linked [] ⟨.connecting, true⟩ rfl rfl (by simp) rfl (by decide) rfl rfl rfl⟩

/-- A socket that is not closed yet is the last one. -/
theorem last_socket {before : List WebSocket} {last : WebSocket}
    (hbefore : ∀ w ∈ before, w.readyState = .closed)
    (hi : (before ++ [last])[i]? = some ws) (hopen : ws.readyState ≠ .closed) :
    i = before.length ∧ ws = last := by
  obtain hlt | rfl | hgt := lt_trichotomy i before.length
  · rw [List.getElem?_append_left hlt] at hi
    exact absurd (hbefore ws (List.mem_of_getElem? hi)) hopen
  · simpa [eq_comm] using hi
  · rw [List.getElem?_append_right hgt.le, List.getElem?_eq_none (by simp; omega)] at hi
    cases hi

theorem modify_handlers {f : WebSocket → WebSocket} (hf : ∀ w, (f w).handlers = w.handlers)
    {sockets : List WebSocket} (h : ∀ w ∈ sockets, w.handlers = true) :
    ∀ w ∈ sockets.modify i f, w.handlers = true := by
  intro w hw
  obtain ⟨j, hj⟩ := List.mem_iff_getElem?.mp hw
  rw [List.getElem?_modify] at hj
  obtain ⟨old, hold, rfl⟩ := Option.map_eq_some_iff.mp hj
  have hset := h old (List.mem_of_getElem? hold)
  split <;> simp [hf, hset]

theorem onmessage_connected (data : Json) (s : AdminEventState) :
    (AutoDeploy.onmessage data s).connected = s.connected := by
  unfold AutoDeploy.onmessage
  split
  · rfl
  · split
    · rfl
    · split <;> rfl

theorem modify_last {before : List WebSocket} {last : WebSocket} (f : WebSocket → WebSocket) :
    (before ++ [last]).modify before.length f = before ++ [f last] := by
  simp [List.modify_eq_take_cons_drop]

/-- A socket of a page that waits or has gone is not live. -/
theorem Phase.linked_of_live (h : Phase count p) (hi : p.sockets[i]? = some ws) (hlive : ws.Live) :
    ∃ before, p.unmounted = false ∧ p.sockets = before ++ [ws] ∧ i = before.length ∧
      (∀ w ∈ before, w.readyState = .closed) ∧ p.wsRef = some before.length ∧
      p.state.connected = decide (ws.readyState ≠ .connecting) ∧ p.timeouts = [] ∧
      p.backoffRef = delay count := by
  have hm := List.mem_of_getElem? hi
  have hopen : ws.readyState ≠ .closed := by
    rintro he
    simp [WebSocket.Live, he] at hlive
  cases h with
  | linked before last hmounted hsockets hbefore href _ hconnected htimeouts hbackoff =>
    rw [hsockets] at hi
    obtain ⟨rfl, rfl⟩ := last_socket hbefore hi hopen
    exact ⟨before, hmounted, hsockets, rfl, hbefore, href, hconnected, htimeouts, hbackoff⟩
  | waiting _ _ hclosed => exact absurd (hclosed ws hm) hopen
  | gone _ hlive' => exact absurd hlive (hlive' ws hm)

theorem opened_invariant (h : Invariant count p) (hi : p.sockets[i]? = some ws)
    (hstate : ws.readyState = .connecting) :
    Invariant 0 ((p.setReadyState i .opened).onopen i) := by
  obtain ⟨before, hmounted, hsockets, rfl, hbefore, href, -, htimeouts, -⟩ :=
    h.phase.linked_of_live hi (Or.inl hstate)
  have hhandlers := modify_handlers (f := fun w => { w with readyState := .opened })
    (fun _ => rfl) h.handlers (i := before.length)
  simp only [Provider.onopen, Provider.setReadyState, hmounted, Bool.false_eq_true, ↓reduceIte]
  refine ⟨hhandlers, .linked before { ws with readyState := .opened } rfl ?_ hbefore href
    (by simp) (by simp [Provider.setConnected]) htimeouts rfl⟩
  simp only [Provider.setConnected, hsockets, modify_last]

theorem message_invariant (h : Invariant count p) (hi : p.sockets[i]? = some ws)
    (hstate : ws.readyState = .opened) (data : Option Json) :
    Invariant count (p.onmessage data) := by
  obtain ⟨before, hmounted, hsockets, -, hbefore, href, hconnected, htimeouts, hbackoff⟩ :=
    h.phase.linked_of_live hi (Or.inr hstate)
  simp only [Provider.onmessage, hmounted, Bool.false_eq_true, ↓reduceIte]
  refine ⟨h.handlers, .linked before ws rfl hsockets hbefore href (by simp [hstate]) ?_
    htimeouts hbackoff⟩
  cases data with
  | none => exact hconnected
  | some data => exact (onmessage_connected data p.state).trans hconnected

theorem closing_invariant (h : Invariant count p) (hi : p.sockets[i]? = some ws)
    (hstate : ws.readyState = .opened) : Invariant count (p.setReadyState i .closing) := by
  obtain ⟨before, hmounted, hsockets, rfl, hbefore, href, hconnected, htimeouts, hbackoff⟩ :=
    h.phase.linked_of_live hi (Or.inr hstate)
  refine ⟨modify_handlers (f := fun w => { w with readyState := .closing }) (fun _ => rfl)
    h.handlers, .linked before { ws with readyState := .closing } hmounted ?_ hbefore href
      (by simp) ?_ htimeouts hbackoff⟩
  · simp only [Provider.setReadyState, hsockets, modify_last]
  · simpa [Provider.setReadyState, hstate] using hconnected

theorem closed_invariant (h : Invariant count p) (hi : p.sockets[i]? = some ws)
    (hstate : ws.readyState ≠ .closed) :
    Invariant (count + 1) ((p.setReadyState i .closed).onclose) := by
  have hhandlers := modify_handlers (f := fun w => { w with readyState := .closed })
    (fun _ => rfl) h.handlers (i := i)
  cases h.phase with
  | linked before last hmounted hsockets hbefore href _ _ htimeouts hbackoff =>
    rw [hsockets] at hi
    obtain ⟨rfl, rfl⟩ := last_socket hbefore hi hstate
    simp only [Provider.onclose, Provider.setReadyState, hmounted, Bool.false_eq_true, ↓reduceIte]
    refine ⟨hhandlers, .waiting p.nextHandle rfl ?_ rfl rfl (by omega) ?_ rfl ?_⟩
    · intro w hw
      simp only [Provider.setTimeout, Provider.clearTimeout, Provider.setConnected, hsockets,
        modify_last] at hw
      obtain hold | rfl := List.mem_append.mp hw |>.imp id List.mem_singleton.mp
      · exact hbefore w hold
      · rfl
    · simp [Provider.setTimeout, Provider.clearTimeout, Provider.setConnected, htimeouts, hbackoff]
    · simp only [Provider.setTimeout, Provider.clearTimeout, Provider.setConnected, hbackoff]
      exact delay_succ count
  | waiting _ _ hclosed => exact absurd (hclosed ws (List.mem_of_getElem? hi)) hstate
  | gone hunmounted hlive htimeouts =>
    simp only [Provider.onclose, Provider.setReadyState, hunmounted, ↓reduceIte]
    refine ⟨hhandlers, .gone rfl ?_ htimeouts⟩
    intro w hw
    obtain ⟨j, hj⟩ := List.mem_iff_getElem?.mp hw
    rw [List.getElem?_modify] at hj
    obtain ⟨old, hold, rfl⟩ := Option.map_eq_some_iff.mp hj
    have hgone := hlive old (List.mem_of_getElem? hold)
    split
    · simp [WebSocket.Live]
    · exact hgone

theorem timeout_invariant (h : Invariant count p) {handle : ℕ}
    (hdue : (p.timeouts.any fun t => t.handle == handle) = true) :
    Invariant count (Provider.connect
      { p with timeouts := p.timeouts.filter fun t => t.handle != handle }) := by
  cases h.phase with
  | linked _ _ _ _ _ _ _ _ htimeouts | gone _ _ htimeouts => simp [htimeouts] at hdue
  | waiting handle' hmounted hclosed hnone hconnected _ htimeouts _ hbackoff =>
    obtain rfl : handle' = handle := by simpa [htimeouts] using hdue
    simp only [Provider.connect, hmounted, Provider.detach, hnone, Bool.false_eq_true, ↓reduceIte]
    refine ⟨?_, .linked p.sockets ⟨.connecting, true⟩ rfl rfl hclosed rfl (by simp) ?_ ?_
      hbackoff⟩
    · intro w hw
      obtain hold | rfl := List.mem_append.mp hw |>.imp id List.mem_singleton.mp
      · exact h.handlers w hold
      · rfl
    · simpa using hconnected
    · simp [htimeouts]

theorem close_not_live (w : WebSocket) : ¬w.close.Live := by
  unfold WebSocket.close WebSocket.Live
  cases h : w.readyState <;> simp [h]

theorem close_handlers (w : WebSocket) : w.close.handlers = w.handlers := by
  unfold WebSocket.close
  split <;> rfl

theorem unmount_invariant (h : Invariant count p) (hmounted : p.unmounted = false) :
    Invariant count p.unmount := by
  cases h.phase with
  | gone hunmounted => rw [hmounted] at hunmounted; cases hunmounted
  | linked before ws _ hsockets hbefore href _ _ htimeouts _ =>
    have hclosed : p.unmount.sockets = before ++ [ws.close] := by
      simp only [Provider.unmount, Provider.closeSocket, Provider.clearTimeout, href, hsockets,
        Option.elim_some, modify_last]
    refine ⟨?_, .gone rfl ?_ (by simp [Provider.unmount, Provider.closeSocket,
      Provider.clearTimeout, htimeouts])⟩
    · intro w hw
      rw [hclosed] at hw
      obtain hold | rfl := List.mem_append.mp hw |>.imp id List.mem_singleton.mp
      · exact h.handlers w (by simp [hsockets, hold])
      · rw [close_handlers]
        exact h.handlers ws (by simp [hsockets])
    · intro w hw
      rw [hclosed] at hw
      obtain hold | rfl := List.mem_append.mp hw |>.imp id List.mem_singleton.mp
      · simp [WebSocket.Live, hbefore w hold]
      · exact close_not_live ws
  | waiting handle _ hclosed hnone _ _ htimeouts hhandle _ =>
    have hsockets : p.unmount.sockets = p.sockets := by
      simp [Provider.unmount, Provider.closeSocket, Provider.clearTimeout, hnone]
    refine ⟨hsockets ▸ h.handlers, .gone rfl ?_ (by simp [Provider.unmount,
      Provider.closeSocket, Provider.clearTimeout, htimeouts, hhandle])⟩
    intro w hw
    rw [hsockets] at hw
    simp [WebSocket.Live, hclosed w hw]

theorem step_invariant {e : Event} (h : Invariant count p) (hstep : p.step e = some p') :
    Invariant (e.failures count) p' := by
  cases e with
  | opened i =>
    simp only [Provider.step, Option.bind_eq_bind, Option.bind_eq_some_iff,
      Option.guard_eq_some'] at hstep
    obtain ⟨ws, hi, -, hstate, heq⟩ := hstep
    simp only [h.handlers ws (List.mem_of_getElem? hi), ↓reduceIte] at heq
    cases heq
    exact opened_invariant h hi hstate
  | message i data =>
    simp only [Provider.step, Option.bind_eq_bind, Option.bind_eq_some_iff,
      Option.guard_eq_some'] at hstep
    obtain ⟨ws, hi, -, hstate, heq⟩ := hstep
    simp only [h.handlers ws (List.mem_of_getElem? hi), ↓reduceIte] at heq
    cases heq
    exact message_invariant h hi hstate data
  | closing i =>
    simp only [Provider.step, Option.bind_eq_bind, Option.bind_eq_some_iff,
      Option.guard_eq_some'] at hstep
    obtain ⟨ws, hi, -, hstate, heq⟩ := hstep
    cases heq
    exact closing_invariant h hi hstate
  | closed i =>
    simp only [Provider.step, Option.bind_eq_bind, Option.bind_eq_some_iff,
      Option.guard_eq_some'] at hstep
    obtain ⟨ws, hi, -, hstate, heq⟩ := hstep
    simp only [h.handlers ws (List.mem_of_getElem? hi), ↓reduceIte] at heq
    cases heq
    exact closed_invariant h hi hstate
  | timeout handle =>
    simp only [Provider.step, Option.bind_eq_bind, Option.bind_eq_some_iff,
      Option.guard_eq_some'] at hstep
    obtain ⟨-, hdue, heq⟩ := hstep
    cases heq
    exact timeout_invariant h hdue
  | unmount =>
    simp only [Provider.step, Option.bind_eq_bind, Option.bind_eq_some_iff,
      Option.guard_eq_some'] at hstep
    obtain ⟨-, hmounted, heq⟩ := hstep
    cases heq
    exact unmount_invariant h hmounted

theorem run_invariant {events : List Event} (h : Invariant count p)
    (hrun : p.run events = some p') : Invariant (events.foldl Event.failures count) p' := by
  induction events generalizing count p with
  | nil =>
    cases hrun
    exact h
  | cons e events ih =>
    obtain ⟨mid, hstep, hrest⟩ := Option.bind_eq_some_iff.mp hrun
    exact ih (step_invariant h hstep) hrest

/-- Once the page has gone, no event changes its state or makes a socket. -/
theorem gone_step {e : Event} (hgone : p.unmounted = true) (hstep : p.step e = some p') :
    p'.unmounted = true ∧ p'.state = p.state ∧ p'.sockets.length = p.sockets.length := by
  cases e with
  | opened i =>
    simp only [Provider.step, Option.bind_eq_bind, Option.bind_eq_some_iff] at hstep
    obtain ⟨ws, -, -, -, heq⟩ := hstep
    cases heq
    split <;> simp [Provider.onopen, Provider.setReadyState, Provider.closeSocket, hgone]
  | message i data =>
    simp only [Provider.step, Option.bind_eq_bind, Option.bind_eq_some_iff] at hstep
    obtain ⟨ws, -, -, -, heq⟩ := hstep
    cases heq
    split <;> simp [Provider.onmessage, hgone]
  | closing i =>
    simp only [Provider.step, Option.bind_eq_bind, Option.bind_eq_some_iff] at hstep
    obtain ⟨ws, -, -, -, heq⟩ := hstep
    cases heq
    simp [Provider.setReadyState, hgone]
  | closed i =>
    simp only [Provider.step, Option.bind_eq_bind, Option.bind_eq_some_iff] at hstep
    obtain ⟨ws, -, -, -, heq⟩ := hstep
    cases heq
    split <;> simp [Provider.onclose, Provider.setReadyState, hgone]
  | timeout handle =>
    simp only [Provider.step, Option.bind_eq_bind, Option.bind_eq_some_iff] at hstep
    obtain ⟨-, -, heq⟩ := hstep
    cases heq
    simp [Provider.connect, hgone]
  | unmount =>
    simp only [Provider.step, Option.bind_eq_bind, Option.bind_eq_some_iff,
      Option.guard_eq_some'] at hstep
    obtain ⟨-, hmounted, -⟩ := hstep
    rw [hgone] at hmounted
    cases hmounted

theorem gone_run {events : List Event} (hgone : p.unmounted = true)
    (hrun : p.run events = some p') :
    p'.unmounted = true ∧ p'.state = p.state ∧ p'.sockets.length = p.sockets.length := by
  induction events generalizing p with
  | nil =>
    cases hrun
    exact ⟨hgone, rfl, rfl⟩
  | cons e events ih =>
    obtain ⟨mid, hstep, hrest⟩ := Option.bind_eq_some_iff.mp hrun
    obtain ⟨hmid, hstate, hlength⟩ := gone_step hgone hstep
    obtain ⟨hunmounted, hstate', hlength'⟩ := ih hmid hrest
    exact ⟨hunmounted, hstate'.trans hstate, hlength'.trans hlength⟩

end Step

/-- The socket of a mounted provider, in this state. -/
def Provider.Current (p : Provider) (readyState : ReadyState) : Prop :=
  ∃ i ws, p.wsRef = some i ∧ p.sockets[i]? = some ws ∧ ws.readyState = readyState

/-- What holds of a provider after these events. -/
structure Reconnects (events : List Event) (p : Provider) : Prop where
  /-- At most one socket is live, and none of a page that has gone. -/
  oneSocket : ∀ i ws, p.sockets[i]? = some ws → ws.Live → p.unmounted = false ∧ p.wsRef = some i
  /-- Either a socket is not closed yet, or the next attempt is planned, once. -/
  retries : p.unmounted = false →
    (∃ readyState, readyState ≠ .closed ∧ p.Current readyState ∧ p.timeouts = []) ∨
    ∃ handle, p.wsRef = none ∧ p.timeouts = [⟨handle, delay (failures events - 1)⟩] ∧
      ∃ p', p.step (.timeout handle) = some p' ∧ p'.Current .connecting
  connected : p.unmounted = false →
    (p.state.connected = true ↔ p.Current .opened ∨ p.Current .closing)
  gone : p.unmounted = true → p.timeouts = [] ∧ ∀ later p', p.run later = some p' →
    p'.state = p.state ∧ p'.sockets.length = p.sockets.length

section Runs

variable {events : List Event} {p : Provider}

theorem current_linked {before : List WebSocket} {ws : WebSocket} {readyState : ReadyState}
    (hsockets : p.sockets = before ++ [ws]) (href : p.wsRef = some before.length) :
    p.Current readyState ↔ ws.readyState = readyState := by
  simp [Provider.Current, hsockets, href]

theorem current_waiting {readyState : ReadyState} (h : p.wsRef = none) :
    ¬p.Current readyState := by
  rintro ⟨i, ws, hsome, -⟩
  rw [h] at hsome
  cases hsome

/-- The planned attempt makes a socket. -/
theorem timeout_connects {handle wait : ℕ} (hmounted : p.unmounted = false)
    (hnone : p.wsRef = none) (htimeouts : p.timeouts = [⟨handle, wait⟩]) :
    ∃ p', p.step (.timeout handle) = some p' ∧ p'.Current .connecting := by
  refine ⟨{ p with timeouts := [] : Provider }.connect, ?_, ?_⟩
  · simp [Provider.step, htimeouts]
  · simp [Provider.Current, Provider.connect, Provider.detach, hmounted, hnone]

/-- Through any events: there is one live connection at most, a lost one is followed by one
attempt after a delay that doubles up to 30 seconds, and a page that has gone makes none. -/
theorem events_reconnect (h : Provider.mounted.run events = some p) : Reconnects events p := by
  have hinv := run_invariant mounted_invariant h
  constructor
  · intro i ws hi hlive
    obtain ⟨before, hmounted, -, rfl, -, href, -⟩ := hinv.phase.linked_of_live hi hlive
    exact ⟨hmounted, href⟩
  · intro hmounted
    cases hinv.phase with
    | linked before ws _ hsockets _ href hopen _ htimeouts =>
      exact Or.inl ⟨_, hopen, (current_linked hsockets href).mpr rfl, htimeouts⟩
    | waiting handle _ _ hnone _ _ htimeouts =>
      exact Or.inr ⟨handle, hnone, htimeouts, timeout_connects hmounted hnone htimeouts⟩
    | gone hgone => rw [hmounted] at hgone; cases hgone
  · intro hmounted
    cases hinv.phase with
    | linked before ws _ hsockets _ href hopen hconnected =>
      rw [current_linked hsockets href, current_linked hsockets href, hconnected, decide_eq_true_eq]
      cases hstate : ws.readyState <;> simp_all
    | waiting handle _ _ hnone hconnected =>
      simp [hconnected, current_waiting hnone]
    | gone hgone => rw [hmounted] at hgone; cases hgone
  · intro hgone
    refine ⟨?_, fun later p' hrun => (gone_run hgone hrun).2⟩
    cases hinv.phase with
    | linked _ _ hmounted | waiting _ hmounted => rw [hgone] at hmounted; cases hmounted
    | gone _ _ htimeouts => exact htimeouts

/-- Two attempts fail, the third connection is lost, and then the page goes. -/
def flaky : List Event :=
  [.closed 0, .timeout 0, .closed 1, .timeout 1, .opened 2, .closing 2, .closed 2, .unmount]

theorem events_reconnect_flaky : ∃ p, Provider.mounted.run flaky = some p ∧
    p.sockets.length = 3 ∧ p.unmounted = true ∧ Reconnects flaky p :=
  ⟨_, rfl, rfl, rfl, events_reconnect rfl⟩

end Runs

end AutoDeploy.EventConnection
