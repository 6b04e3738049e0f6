import Mathlib.Data.Finset.Basic
import Mathlib.Data.Finset.SDiff
import Mathlib.Tactic.Common

/-!
# Two documents that are kept in sync

A `BaseSyncProvider` connects its transport, subscribes its document to what it receives and the
transport to the updates of its document, and sends the state of the document once. The document
calls its handlers for a local edit and for what it did not have of a received update.

Documents are sets of updates, and `applyUpdate` is union. The transport is a connection with a
queue of messages for each side. A connection that a side loses, or that it ends, takes with it all
messages on their way to that side and the youngest ones on their way from it; the transport may
establish it again until `disconnect()`. A message is dropped when nobody is there to take it.
Handlers of a provider's state and of its errors are left out.
-/

namespace N8n

namespace SyncSession

inductive Side where
  | first
  | second
  deriving DecidableEq, Repr

/-- The side of the peer. -/
def Side.peer : Side → Side
  | .first => .second
  | .second => .first

@[simp] theorem Side.peer_peer (side : Side) : side.peer.peer = side := by cases side <;> rfl

@[simp] theorem Side.peer_ne (side : Side) : side.peer ≠ side := by cases side <;> decide

theorem Side.eq_or_eq_peer (side other : Side) : other = side ∨ other = side.peer := by
  cases side <;> cases other <;> decide

end SyncSession

/-- A provider with its document and its end of the transport. -/
structure BaseSyncProvider (Update : Type*) where
  doc : Finset Update
  syncing : Bool := false
  /-- Calls of `start()` that wait for the transport to connect. -/
  starting : ℕ := 0
  /-- The handlers that are subscribed to the updates of the document. -/
  updateHandlers : ℕ := 0
  /-- The handlers that are subscribed to the messages of the transport. -/
  receiveHandlers : ℕ := 0
  connected : Bool := false
  /-- The transport is to have a connection: `connect()` was called, and `disconnect()` was not
  since. -/
  shouldReconnect : Bool := false

open SyncSession in
structure SyncSession (Update : Type*) where
  providers : Side → BaseSyncProvider Update
  /-- The messages on their way to a side, oldest first. -/
  inFlight : Side → List (Finset Update) := fun _ => []
  /-- All updates that were made to a document. -/
  made : Finset Update

namespace SyncSession

variable {Update : Type*} [DecidableEq Update]

def doc (st : SyncSession Update) (side : Side) : Finset Update := (st.providers side).doc

def syncing (st : SyncSession Update) (side : Side) : Bool := (st.providers side).syncing

def connected (st : SyncSession Update) (side : Side) : Bool := (st.providers side).connected

def setProvider (side : Side) (provider : BaseSyncProvider Update) (st : SyncSession Update) :
    SyncSession Update :=
  { st with providers := fun other => if other = side then provider else st.providers other }

/-- The messages for a side are now `rest`. -/
def setInFlight (side : Side) (rest : List (Finset Update)) (st : SyncSession Update) :
    SyncSession Update :=
  { st with inFlight := fun other => if other = side then rest else st.inFlight other }

/-- `send` of a connected transport, for each message in turn. -/
def sendAll (side : Side) (messages : List (Finset Update)) (st : SyncSession Update) :
    SyncSession Update :=
  st.setInFlight side.peer (st.inFlight side.peer ++ messages)

/-- The document calls its handlers: each sends the update, if the transport is connected. -/
def notifyUpdate (side : Side) (update : Finset Update) (st : SyncSession Update) :
    SyncSession Update :=
  if st.connected side then
    st.sendAll side (List.replicate (st.providers side).updateHandlers update)
  else st

/-- A local edit of the document. -/
def edit (side : Side) (update : Update) (st : SyncSession Update) : SyncSession Update :=
  { st.setProvider side { st.providers side with doc := insert update (st.doc side) } with
    made := insert update st.made }.notifyUpdate side {update}

/-- `doc.applyUpdate(data)`: the handlers are called for what is new, if anything is. -/
def applyUpdate (side : Side) (update : Finset Update) (st : SyncSession Update) :
    SyncSession Update :=
  if update ⊆ st.doc side then st
  else
    (st.setProvider side { st.providers side with doc := st.doc side ∪ update }).notifyUpdate side
      (update \ st.doc side)

/-- The oldest message for a side arrives: every handler applies it. -/
def deliver (side : Side) (update : Finset Update) (rest : List (Finset Update))
    (st : SyncSession Update) : SyncSession Update :=
  let arrived := st.setInFlight side rest
  if st.connected side then
    (applyUpdate side update)^[(st.providers side).receiveHandlers] arrived
  else arrived

/-- `start()` up to `await this.transport.connect()`. -/
def start (side : Side) (st : SyncSession Update) : SyncSession Update :=
  if st.syncing side then st
  else
    st.setProvider side { st.providers side with
      starting := (st.providers side).starting + 1
      shouldReconnect := true }

/-- `start()` from there: without a connection `send` throws, and the handlers stay. -/
def startConnected (side : Side) (st : SyncSession Update) : SyncSession Update :=
  let provider := st.providers side
  let subscribed := { provider with
    starting := provider.starting - 1
    receiveHandlers := provider.receiveHandlers + 1
    updateHandlers := provider.updateHandlers + 1 }
  if provider.connected then
    (st.setProvider side { subscribed with syncing := true }).sendAll side [provider.doc]
  else st.setProvider side subscribed

/-- A side's connection ends, and with it the messages on it but for `kept` that it has sent. -/
def dropMessages (side : Side) (kept : ℕ) (st : SyncSession Update) : SyncSession Update :=
  (st.setInFlight side []).setInFlight side.peer ((st.inFlight side.peer).take kept)

/-- `stop()`. -/
def stop (side : Side) (kept : ℕ) (st : SyncSession Update) : SyncSession Update :=
  let provider := st.providers side
  if provider.syncing then
    (st.setProvider side { provider with
      syncing := false
      receiveHandlers := provider.receiveHandlers - 1
      updateHandlers := provider.updateHandlers - 1
      connected := false
      shouldReconnect := false }).dropMessages side kept
  else st

inductive Event (Update : Type*) where
  | edit (side : Side) (update : Update)
  | start (side : Side)
  /-- The transport has a connection, for the first time or again. -/
  | established (side : Side)
  | startConnected (side : Side)
  /-- The transport fails to connect, and `start()` throws. -/
  | startFailed (side : Side)
  | stop (side : Side) (kept : ℕ)
  | lost (side : Side) (kept : ℕ)
  | deliver (side : Side)
  deriving DecidableEq, Repr

def step? (st : SyncSession Update) : Event Update → Option (SyncSession Update)
  | .edit side update => if update ∈ st.made then none else some (st.edit side update)
  | .start side => some (st.start side)
  | .established side =>
    if (st.providers side).shouldReconnect && !st.connected side then
      some (st.setProvider side { st.providers side with connected := true })
    else none
  | .startConnected side =>
    if (st.providers side).starting = 0 then none else some (st.startConnected side)
  | .startFailed side =>
    if (st.providers side).starting = 0 then none
    else
      some (st.setProvider side { st.providers side with
        starting := (st.providers side).starting - 1 })
  | .stop side kept => some (st.stop side kept)
  | .lost side kept =>
    if st.connected side then
      some ((st.setProvider side { st.providers side with connected := false }).dropMessages
        side kept)
    else none
  | .deliver side =>
    match st.inFlight side with
    | [] => none
    | update :: rest => some (st.deliver side update rest)

/-- Two documents with what was made to them before, whose providers have not been started. -/
def init (docs : Side → Finset Update) : SyncSession Update where
  providers side := { doc := docs side }
  made := docs .first ∪ docs .second

abbrev Step (st : SyncSession Update) (event : Event Update) (st' : SyncSession Update) : Prop :=
  st.step? event = some st'

end SyncSession

end N8n
