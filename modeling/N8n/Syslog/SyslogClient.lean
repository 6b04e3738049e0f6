import Mathlib.Data.List.Basic
import Mathlib.Logic.Function.Basic
import Mathlib.Tactic.Common

/-!
# The syslog client

A `SyslogClient` sends messages through one socket, `transport_`, that it makes for the first
message and again when the socket is gone. Messages that come while it is connecting wait in a queue
that the handlers of the sockets empty (`drain`). All handlers act on the client, whichever socket
they belong to.

Sockets and log calls have numbers in the order in which they are made. Callbacks and listeners are
code of the user, which may log and close again before it returns, so what the client does next is
kept as a stack of calls. The sockets follow the runtime: a stream socket connects, times out or
fails while it is opening, a timeout is off once it has connected, and every socket that is
destroyed is closed later. What a callback throws is left out.
-/

namespace N8n.Syslog

/-- `Transport`. Those that are not UDP are streams. -/
inductive Transport where
  | udp
  | tcp
  | tls
  | unix
  deriving DecidableEq, Repr

inductive Phase where
  | unborn
  | opening
  | open_
  | destroyed
  | closed
  deriving DecidableEq, Repr

/-- What is on the stack of calls. -/
inductive Call where
  /-- A callback or a listener of the user. -/
  | user
  /-- `completionCb(error)` of a message, after the error has been emitted. -/
  | answer (request : ℕ)
  /-- `notifyAllWaitingRequests`, with a transport or with an error. -/
  | drain (transport : Option ℕ)
  /-- `this.onError`, after the requests have been notified. -/
  | onError
  deriving DecidableEq, Repr

structure SyslogClient where
  transport_ : Option ℕ
  connecting : Bool
  getTransportRequests : List ℕ
  /-- The number of sockets that have been made. -/
  attempts : ℕ
  phase : ℕ → Phase
  /-- The messages that sockets are writing, with the sockets. -/
  writes : List (ℕ × ℕ)
  /-- The number of log calls. -/
  issued : ℕ
  /-- The log calls whose callbacks have been invoked, in order. -/
  answers : List ℕ
  stack : List Call

namespace SyslogClient

def initial : SyslogClient := ⟨none, false, [], 0, fun _ => .unborn, [], 0, [], []⟩

variable (transport : Transport)

/-- `socket.destroy()`. -/
def destroy (client : SyslogClient) (socket : ℕ) : SyslogClient :=
  { client with
    phase := Function.update client.phase socket
      (if client.phase socket = .opening ∨ client.phase socket = .open_ then .destroyed
      else client.phase socket) }

/-- The callback of a log call is invoked. -/
def answer (client : SyslogClient) (request : ℕ) : SyslogClient :=
  { client with answers := client.answers ++ [request], stack := .user :: client.stack }

/-- What closing does to a transport that the client has: it is destroyed, where sockets can be, and
forgotten. -/
def forgetTransport (client : SyslogClient) : SyslogClient :=
  match client.transport_ with
  | none => client
  | some socket =>
    let client := if transport = Transport.udp then client else client.destroy socket
    { client with transport_ := none }

/-- The client is closed, and the listeners of `close` are called. -/
def onClose (client : SyslogClient) : SyslogClient :=
  let client := forgetTransport transport client
  { client with stack := .user :: client.stack }

/-- The listeners of `error` are called. -/
def onError (client : SyslogClient) : SyslogClient :=
  let client := forgetTransport transport client
  { client with stack := .user :: client.stack }

/-- A message is given to a socket, which may throw. Then the error is emitted first. -/
def sendMessage (client : SyslogClient) (fails : Bool) (socket request : ℕ) : SyslogClient :=
  if fails then
    onError transport { client with stack := .answer request :: client.stack }
  else { client with writes := client.writes ++ [(socket, request)] }

/-- A socket is made, which may throw. UDP sockets are ready at once. -/
def createTransport (client : SyslogClient) (fails : Bool) : SyslogClient :=
  match transport, fails with
  | .udp, true => onError transport { client with stack := .drain none :: client.stack }
  | .udp, false =>
    { client with
      transport_ := some client.attempts
      attempts := client.attempts + 1
      phase := Function.update client.phase client.attempts .open_
      stack := .drain (some client.attempts) :: client.stack }
  | _, true => { client with stack := .drain none :: .onError :: client.stack }
  | _, false =>
    { client with
      attempts := client.attempts + 1
      phase := Function.update client.phase client.attempts .opening }

def getTransport (client : SyslogClient) (fails : Bool) (request : ℕ) : SyslogClient :=
  match client.transport_ with
  | some socket => sendMessage transport client fails socket request
  | none =>
    let client := { client with getTransportRequests := client.getTransportRequests ++ [request] }
    if client.connecting then client
    else createTransport transport { client with connecting := true } fails

/-- A log call, with options that are valid or not. -/
def log (client : SyslogClient) (valid fails : Bool) : SyslogClient :=
  let request := client.issued
  let client := { client with issued := client.issued + 1 }
  if valid then getTransport transport client fails request else client.answer request

def close (client : SyslogClient) : SyslogClient :=
  match client.transport_ with
  | some socket => { client.destroy socket with transport_ := none }
  | none => onClose transport client

/-- The client goes on with the call on top of the stack. -/
def proceed (client : SyslogClient) (fails : Bool) : Option SyslogClient :=
  match client.stack with
  | [] => none
  | .user :: stack => some { client with stack }
  | .answer request :: stack => some ({ client with stack }.answer request)
  | .onError :: stack => some (onError transport { client with stack })
  | .drain socket? :: stack =>
    match client.getTransportRequests, socket? with
    | [], _ => some { client with connecting := false, stack }
    | request :: requests, none =>
      some ({ client with getTransportRequests := requests }.answer request)
    | request :: requests, some socket =>
      some (sendMessage transport { client with getTransportRequests := requests } fails socket
        request)

end SyslogClient

/-- What can happen. A flag says whether the call of the runtime that is made throws. -/
inductive Action where
  | log (valid fails : Bool)
  | close
  | proceed (fails : Bool)
  | connect (socket : ℕ)
  | timeout (socket : ℕ)
  | error (socket : ℕ)
  | closed (socket : ℕ)
  | written (socket request : ℕ)
  deriving DecidableEq, Repr

open SyslogClient

/-- User code runs: no call is on the stack, or a callback or a listener is on top. -/
def UserRuns (client : SyslogClient) : Prop :=
  client.stack = [] ∨ client.stack.head? = some .user

instance (client : SyslogClient) : Decidable (UserRuns client) :=
  inferInstanceAs (Decidable (_ ∨ _))

/-- A step, if the action is possible. Events of sockets come when no call is on the stack. -/
def step? (transport : Transport) (client : SyslogClient) : Action → Option SyslogClient
  | .log valid fails => if UserRuns client then some (log transport client valid fails) else none
  | .close => if UserRuns client then some (close transport client) else none
  | .proceed fails => proceed transport client fails
  | .connect socket =>
    if client.stack = [] ∧ transport ≠ .udp ∧ client.phase socket = .opening then
      some { client with
        phase := Function.update client.phase socket .open_
        transport_ := some socket
        stack := [.drain (some socket)] }
    else none
  | .timeout socket =>
    if client.stack = [] ∧ transport ≠ .udp ∧ client.phase socket = .opening then
      some { client.destroy socket with stack := [.user, .drain none] }
    else none
  | .error socket =>
    if client.stack = [] ∧ (client.phase socket = .opening ∨ client.phase socket = .open_) then
      let client := if transport = .udp then client else client.destroy socket
      some (onError transport { client with stack := [.drain none] })
    else none
  | .closed socket =>
    if client.stack = [] ∧ (client.phase socket = .destroyed ∨
        transport ≠ .udp ∧ client.phase socket = .open_) then
      some (onClose transport
        { client with phase := Function.update client.phase socket .closed })
    else none
  | .written socket request =>
    if client.stack = [] ∧ (socket, request) ∈ client.writes then
      some ({ client with writes := client.writes.erase (socket, request) }.answer request)
    else none

end N8n.Syslog
