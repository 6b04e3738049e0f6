import Mathlib.Logic.Function.Basic
import Mathlib.Tactic.Common

/-!
# The WebSocket transport

`WebSocketTransport` keeps one current socket. `doConnect` makes a socket and a timer for the
connection; the handlers of the socket and the timer act on the fields of the transport. A socket
that has closed schedules a new attempt, if reconnecting is on.

Attempts are numbered, and so are their sockets. The runtime opens and closes sockets and reports
it: an open socket counts as open until its close event (an error event of it comes just before),
and one that has not opened stops connecting with its error event. Timers fire whenever they like.
The handlers of the user are left out, and a promise is represented by whether it is settled.
-/

namespace N8n

namespace WebSocketTransport

abbrev AttemptId := ℕ

abbrev TimerId := ℕ

inductive ReadyState where
  | connecting
  | open
  /-- The connection has failed, or `close()` has been called. -/
  | closing
  | closed
  deriving DecidableEq, Repr

inductive PromiseState where
  | pending
  | resolved
  | rejected
  deriving DecidableEq, Repr

/-- One call of `doConnect`: its socket and its promise. -/
structure Attempt where
  readyState : ReadyState
  /-- `onopen`, `onclose`, `onerror` and `onmessage` are set. -/
  handlers : Bool
  promise : PromiseState
  deriving DecidableEq, Repr

structure WebSocketTransportConfig where
  reconnect : Bool := true
  /-- `none` is `Infinity`. -/
  maxReconnectAttempts : Option ℕ := none

/-- The fields of the transport. -/
structure Fields where
  ws : Option AttemptId := none
  connected : Bool := false
  reconnectAttempts : ℕ := 0
  reconnectTimeout : Option TimerId := none
  shouldReconnect : Bool := false
  isConnecting : Bool := false
  connectionPromise : Option AttemptId := none
  deriving DecidableEq, Repr

end WebSocketTransport

open WebSocketTransport in
structure WebSocketTransport extends Fields where
  attempts : AttemptId → Attempt := fun _ => ⟨.closed, false, .rejected⟩
  nextAttempt : AttemptId := 0
  /-- The attempts whose timer for the connection is set. -/
  connectionTimers : List AttemptId := []
  /-- The timers for a new attempt that are set. -/
  reconnectTimers : List TimerId := []
  nextTimer : TimerId := 0

namespace WebSocketTransport

variable (config : WebSocketTransportConfig)

def setAttempt (id : AttemptId) (attempt : Attempt) (st : WebSocketTransport) :
    WebSocketTransport :=
  { st with attempts := Function.update st.attempts id attempt }

/-- `resolve` and `reject` of an attempt: a settled promise stays as it is. -/
def settle (id : AttemptId) (promise : PromiseState) (st : WebSocketTransport) :
    WebSocketTransport :=
  if (st.attempts id).promise = .pending then
    st.setAttempt id { st.attempts id with promise }
  else st

/-- `close()` of a socket. -/
def closeSocket (id : AttemptId) (st : WebSocketTransport) : WebSocketTransport :=
  match (st.attempts id).readyState with
  | .connecting | .open => st.setAttempt id { st.attempts id with readyState := .closing }
  | .closing | .closed => st

/-- `clearTimeout(timeoutId)` in the handlers of an attempt. -/
def clearConnectionTimeout (id : AttemptId) (st : WebSocketTransport) : WebSocketTransport :=
  { st with connectionTimers := st.connectionTimers.filter (· ≠ id) }

def clearReconnectTimeout (st : WebSocketTransport) : WebSocketTransport :=
  match st.reconnectTimeout with
  | some timer =>
    { st with
      reconnectTimers := st.reconnectTimers.filter (· ≠ timer)
      reconnectTimeout := none }
  | none => st

/-- `doConnect()`. The constructor of the socket may throw (`created` is false). -/
def doConnect (created : Bool) (st : WebSocketTransport) : WebSocketTransport :=
  if created then
    { st.setAttempt st.nextAttempt ⟨.connecting, true, .pending⟩ with
      ws := some st.nextAttempt
      isConnecting := true
      nextAttempt := st.nextAttempt + 1
      connectionTimers := st.nextAttempt :: st.connectionTimers }
  else
    { st.setAttempt st.nextAttempt ⟨.closed, false, .rejected⟩ with
      isConnecting := false
      nextAttempt := st.nextAttempt + 1 }

/-- `connect()`. -/
def connect (created : Bool) (st : WebSocketTransport) : WebSocketTransport :=
  let st := st.clearReconnectTimeout
  if st.connected then st
  else if st.isConnecting && st.connectionPromise.isSome then st
  else
    { { st with shouldReconnect := config.reconnect }.doConnect created with
      connectionPromise := some st.nextAttempt }

/-- The current socket loses its handlers, is closed and forgotten. -/
def dropSocket (st : WebSocketTransport) : WebSocketTransport :=
  match st.ws with
  | some id =>
    { (st.setAttempt id { st.attempts id with handlers := false }).closeSocket id with ws := none }
  | none => st

/-- `disconnect()`. -/
def disconnect (st : WebSocketTransport) : WebSocketTransport :=
  { { st with shouldReconnect := false }.clearReconnectTimeout.dropSocket with
    connected := false
    isConnecting := false
    connectionPromise := none }

def scheduleReconnect (st : WebSocketTransport) : WebSocketTransport :=
  if !st.shouldReconnect then st
  else if config.maxReconnectAttempts.any (· ≤ st.reconnectAttempts) then st
  else
    { st with
      reconnectAttempts := st.reconnectAttempts + 1
      reconnectTimeout := some st.nextTimer
      reconnectTimers := st.nextTimer :: st.reconnectTimers
      nextTimer := st.nextTimer + 1 }

/-- The timer for the connection fires: it closes the current socket, whichever that is. -/
def connectionTimedOut (id : AttemptId) (st : WebSocketTransport) : WebSocketTransport :=
  let st := st.clearConnectionTimeout id
  let st := match st.ws with
    | some current => st.closeSocket current
    | none => st
  st.settle id .rejected

def onopen (id : AttemptId) (st : WebSocketTransport) : WebSocketTransport :=
  { st.clearConnectionTimeout id with
    connected := true
    isConnecting := false
    reconnectAttempts := 0 }.settle id .resolved

def onclose (id : AttemptId) (st : WebSocketTransport) : WebSocketTransport :=
  { st.clearConnectionTimeout id with
    connected := false
    isConnecting := false }.scheduleReconnect config

def onerror (id : AttemptId) (st : WebSocketTransport) : WebSocketTransport :=
  let st := st.clearConnectionTimeout id
  if st.isConnecting then { st with isConnecting := false }.settle id .rejected else st

inductive Event where
  /-- `connect()`, and whether a socket can be made, if it comes to that. -/
  | connect (created : Bool)
  | disconnect
  | connectionTimeout (id : AttemptId)
  | reconnectTimeout (timer : TimerId) (created : Bool)
  | opened (id : AttemptId)
  | closed (id : AttemptId)
  | errored (id : AttemptId)
  | message (id : AttemptId)
  deriving DecidableEq, Repr

/-- The runtime moves a socket to another state and calls its handler, if it is set. -/
def socketEvent (id : AttemptId) (readyState : ReadyState)
    (handler : WebSocketTransport → WebSocketTransport) (st : WebSocketTransport) :
    WebSocketTransport :=
  let moved := st.setAttempt id { st.attempts id with readyState }
  if (st.attempts id).handlers then handler moved else moved

/-- The state of a socket after its error event. -/
def ReadyState.errored : ReadyState → ReadyState
  | .connecting => .closing
  | .open => .open
  | .closing => .closing
  | .closed => .closed

def step? (st : WebSocketTransport) : Event → Option WebSocketTransport
  | .connect created => some (st.connect config created)
  | .disconnect => some st.disconnect
  | .connectionTimeout id =>
    if id ∈ st.connectionTimers then some (st.connectionTimedOut id) else none
  | .reconnectTimeout timer created =>
    if timer ∈ st.reconnectTimers then
      some ({ st with
        reconnectTimers := st.reconnectTimers.filter (· ≠ timer)
        reconnectTimeout := none }.doConnect created)
    else none
  | .opened id =>
    if (st.attempts id).readyState = .connecting then
      some (st.socketEvent id .open (onopen id))
    else none
  | .closed id =>
    if (st.attempts id).readyState ≠ .closed then
      some (st.socketEvent id .closed (onclose config id))
    else none
  | .errored id =>
    if (st.attempts id).readyState ≠ .closed then
      some (st.socketEvent id (st.attempts id).readyState.errored (onerror id))
    else none
  -- the handlers of the user get the message
  | .message id => if (st.attempts id).readyState = .open then some st else none

def init : WebSocketTransport := {}

abbrev Step (st : WebSocketTransport) (event : Event) (st' : WebSocketTransport) : Prop :=
  st.step? config event = some st'

end WebSocketTransport

end N8n
