import Mathlib.Data.List.Nodup
import Mathlib.Logic.Function.Basic
import N8n.Foundations.Transition

/-!
# The stream of a chat session

Between `startExecution` and `endExecution` of a session, `ChatStreamService` numbers the events
that it sends, and buffers the chunks for clients that reconnect. The current message id, the
sequence number and the chunks are kept by `ChatStreamStateService`, in memory or in Redis. With
Redis each of its operations is a `GET` and a `SET`, and the calls that run at the same time are
suspended between the two.

The store answers every command, and nothing expires. Times of events are left out, and so is the
relay of events to other mains, but for the `await` on it.
-/

namespace N8n

namespace ChatStream

abbrev ChatMessageId := String

abbrev CallId := ℕ

structure Config where
  useRedis : Bool
  maxBufferedChunks : ℕ

structure StreamState where
  messageId : ChatMessageId
  userId : String
  sequenceNumber : ℕ
  deriving DecidableEq, Repr

structure BufferedChunk where
  sequenceNumber : ℕ
  content : String
  deriving DecidableEq, Repr

/-- What an event says besides its sequence number and the id of its message. -/
inductive Payload where
  | streamBegin (previousMessageId retryOfMessageId : Option ChatMessageId)
      (executionId : Option ℕ)
  | streamChunk (content : String)
  | streamEnd (status : String)
  deriving DecidableEq, Repr

structure StreamEvent where
  messageId : ChatMessageId
  sequenceNumber : ℕ
  payload : Payload
  deriving DecidableEq, Repr

/-- The chunk that an event brings. -/
def StreamEvent.chunk? (event : StreamEvent) : Option BufferedChunk :=
  match event.payload with
  | .streamChunk content => some ⟨event.sequenceNumber, content⟩
  | _ => none

/-! ### Calls -/

inductive Call where
  | startStream (userId : String) (messageId : ChatMessageId)
      (previousMessageId retryOfMessageId : Option ChatMessageId) (executionId : Option ℕ)
  | sendChunk (messageId : ChatMessageId) (content : String)
  | endStream (messageId : ChatMessageId) (status : String)
  | setCurrentMessage (messageId : ChatMessageId)
  deriving DecidableEq, Repr

/-- What a call does first. -/
inductive Opening where
  | setCurrentMessage
  | getStreamState
  deriving DecidableEq, Repr

def Call.opening : Call → Opening
  | startStream .. | setCurrentMessage _ => .setCurrentMessage
  | sendChunk .. | endStream .. => .getStreamState

def Call.messageId : Call → ChatMessageId
  | startStream _ messageId _ _ _ | sendChunk messageId _ | endStream messageId _
  | setCurrentMessage messageId => messageId

/-- What the event of a call says; `setCurrentMessage` sends none. -/
def Call.payload? : Call → Option Payload
  | startStream _ _ previousMessageId retryOfMessageId executionId =>
    some (.streamBegin previousMessageId retryOfMessageId executionId)
  | sendChunk _ content => some (.streamChunk content)
  | endStream _ status => some (.streamEnd status)
  | setCurrentMessage _ => none

/-- Where a call is. -/
inductive Phase where
  | called
  /-- In `setCurrentMessage`, with what the `GET` of the state gave. -/
  | settingMessage (state : Option StreamState)
  /-- Before `incrementSequence`. -/
  | opened (userId : String)
  /-- In `incrementSequence`, with what the `GET` of the state gave. -/
  | incrementing (userId : String) (state : Option StreamState)
  | numbered (userId : String) (sequenceNumber : ℕ)
  /-- In `bufferChunk`, with what the `GET` of the chunks gave. -/
  | buffering (userId : String) (sequenceNumber : ℕ) (chunks : List BufferedChunk)
  | buffered (userId : String) (sequenceNumber : ℕ)
  /-- All is done but the relay. -/
  | relaying
  deriving DecidableEq, Repr

end ChatStream

open ChatStream in
structure ChatStream where
  state : Option StreamState
  chunks : List BufferedChunk
  calls : CallId → Option (Call × Phase)
  /-- The events that were sent, with the user whose connections got them. -/
  sent : List (String × StreamEvent)

namespace ChatStream

/-- `startExecution({ sessionId, userId })`. -/
def startExecution (userId : String) : ChatStream where
  state := some ⟨"", userId, 0⟩
  chunks := []
  calls _ := none
  sent := []

variable (config : Config) (st : ChatStream)

def setPhase (id : CallId) (call : Call) (phase : Phase) : ChatStream :=
  { st with calls := Function.update st.calls id (some (call, phase)) }

def ret (id : CallId) : ChatStream := { st with calls := Function.update st.calls id none }

/-- `while (chunks.length > maxBufferedChunks) chunks.shift()`. -/
def trim (maxBufferedChunks : ℕ) : List BufferedChunk → List BufferedChunk
  | [] => []
  | chunk :: chunks =>
    if (chunk :: chunks).length > maxBufferedChunks then trim maxBufferedChunks chunks
    else chunk :: chunks

/-- `push.sendToUsers(message, [userId])`. -/
def send (id : CallId) (call : Call) (userId : String) (sequenceNumber : ℕ) : ChatStream :=
  match call.payload? with
  | none => st.setPhase id call .relaying
  | some payload =>
    { st.setPhase id call .relaying with
      sent := st.sent ++ [(userId, ⟨call.messageId, sequenceNumber, payload⟩)] }

/-- `state.messageId = messageId`, on the state that is given, and the write of it. -/
def writeMessage (state : Option StreamState) (messageId : ChatMessageId) : ChatStream :=
  match state with
  | none => st
  | some state => { st with state := some { state with messageId } }

/-- `state.sequenceNumber += 1`, on the state that is given, and the write of it. -/
def writeSequence (id : CallId) (call : Call) (userId : String) :
    Option StreamState → ChatStream
  | none => st.setPhase id call (.numbered userId 0)
  | some state =>
    { st with state := some { state with sequenceNumber := state.sequenceNumber + 1 } }.setPhase
      id call (.numbered userId (state.sequenceNumber + 1))

def writeChunks (id : CallId) (call : Call) (userId : String) (sequenceNumber : ℕ)
    (content : String) (chunks : List BufferedChunk) : ChatStream :=
  let chunk : BufferedChunk := { sequenceNumber, content }
  { st with chunks := trim config.maxBufferedChunks (chunks ++ [chunk]) }.setPhase id call
    (.buffered userId sequenceNumber)

/-- A call goes on after `setCurrentMessage`. -/
def messageSet (id : CallId) (call : Call) : ChatStream :=
  match call with
  | .startStream userId .. => st.setPhase id call (.opened userId)
  | _ => st.setPhase id call .relaying

/-- A call goes on to its next `await`. -/
def resume (id : CallId) (call : Call) : Phase → ChatStream
  | .called =>
    match call.opening with
    | .setCurrentMessage =>
      if config.useRedis then st.setPhase id call (.settingMessage st.state)
      else (st.writeMessage st.state call.messageId).messageSet id call
    | .getStreamState =>
      match st.state with
      -- no active execution
      | none => st.ret id
      | some state => st.setPhase id call (.opened state.userId)
  | .settingMessage state => (st.writeMessage state call.messageId).messageSet id call
  | .opened userId =>
    if config.useRedis then st.setPhase id call (.incrementing userId st.state)
    else st.writeSequence id call userId st.state
  | .incrementing userId state => st.writeSequence id call userId state
  | .numbered userId sequenceNumber =>
    match call with
    | .sendChunk _ content =>
      if config.useRedis then st.setPhase id call (.buffering userId sequenceNumber st.chunks)
      else st.writeChunks config id call userId sequenceNumber content st.chunks
    | _ => st.send id call userId sequenceNumber
  | .buffering userId sequenceNumber chunks =>
    match call with
    | .sendChunk _ content => st.writeChunks config id call userId sequenceNumber content chunks
    | _ => st
  | .buffered userId sequenceNumber => st.send id call userId sequenceNumber
  | .relaying => st.ret id

inductive Step where
  | calls (id : CallId) (call : Call)
  | resumes (id : CallId)
  deriving DecidableEq, Repr

def step? : Step → Option ChatStream
  | .calls id call => if (st.calls id).isNone then some (st.setPhase id call .called) else none
  | .resumes id => (st.calls id).map fun (call, phase) => st.resume config id call phase

/-- `getPendingChunks(sessionId, lastReceivedSequence)`. -/
def getPendingChunks (lastReceivedSequence : ℤ) : List BufferedChunk :=
  st.chunks.filter fun chunk => (chunk.sequenceNumber : ℤ) > lastReceivedSequence

/-! ### The property and the condition -/

/-- The sequence numbers of the events that were sent. -/
def sentNumbers : List ℕ := st.sent.map fun x => x.2.sequenceNumber

def sentChunks : List BufferedChunk := st.sent.filterMap fun x => x.2.chunk?

/-- The events have different sequence numbers; and when no call is in progress, and no more chunks
were sent than the buffer takes, exactly the chunks after any number can be replayed. -/
structure Resumable : Prop where
  distinct : st.sentNumbers.Nodup
  replay : (∀ id, st.calls id = none) → st.sentChunks.length ≤ config.maxBufferedChunks →
    ∀ lastReceivedSequence : ℤ, (st.getPendingChunks lastReceivedSequence).Perm
      (st.sentChunks.filter fun chunk => (chunk.sequenceNumber : ℤ) > lastReceivedSequence)

/-- What is written back is still as it was read: the sequence number of the state, and the
chunks. -/
def UpToDate : Step → Prop
  | .calls _ _ => True
  | .resumes id =>
    match st.calls id with
    | some (_, .settingMessage state) | some (_, .incrementing _ state) =>
      state.map (·.sequenceNumber) = st.state.map (·.sequenceNumber)
    | some (_, .buffering _ _ chunks) => chunks = st.chunks
    | _ => True

/-! ### The invariant -/

/-- The number that a call has got and not sent. -/
def Phase.number? : Phase → Option ℕ
  | numbered _ n | buffering _ n _ | buffered _ n => some n
  | called | settingMessage _ | opened _ | incrementing _ _ | relaying => none

/-- The chunk that a call has buffered and not sent. -/
def pending? : Call × Phase → Option BufferedChunk
  | (.sendChunk _ content, .buffered _ n) => some ⟨n, content⟩
  | _ => none

def number (id : CallId) : Option ℕ := (st.calls id).bind fun x => x.2.number?

def pending (id : CallId) : Option BufferedChunk := (st.calls id).bind pending?

/-- The sequence number of the state. -/
def counter : ℕ := (st.state.map (·.sequenceNumber)).getD 0

/-- A call is at a phase that it can be at. -/
def Fits (call : Call) : Phase → Prop
  | .settingMessage _ => call.opening = .setCurrentMessage
  | .incrementing _ state => call.payload? ≠ none ∧ state.isSome
  | .opened _ | .numbered _ _ => call.payload? ≠ none
  | .buffering _ _ _ | .buffered _ _ => ∃ messageId content, call = .sendChunk messageId content
  | .called | .relaying => True

structure Sound : Prop where
  active : st.state.isSome
  fits : ∀ id call phase, st.calls id = some (call, phase) → Fits call phase
  distinct : st.sentNumbers.Nodup
  sent_le : ∀ n ∈ st.sentNumbers, n ≤ st.counter
  number_le : ∀ id n, st.number id = some n → n ≤ st.counter ∧ n ∉ st.sentNumbers
  number_inj : ∀ id id' n, st.number id = some n → st.number id' = some n → id = id'
  /-- The chunks are the last ones of all that were sent or are about to be. -/
  chunks : ∃ buffered : List BufferedChunk, st.chunks = trim config.maxBufferedChunks buffered ∧
    (buffered.map (·.sequenceNumber)).Nodup ∧
    ∀ chunk, chunk ∈ buffered ↔ chunk ∈ st.sentChunks ∨ ∃ id, st.pending id = some chunk

variable {config st}

theorem sound_startExecution (userId : String) : Sound config (startExecution userId) where
  active := rfl
  fits _ _ _ hcall := by cases hcall
  distinct := List.nodup_nil
  sent_le := nofun
  number_le := nofun
  number_inj := nofun
  chunks := ⟨[], rfl, List.nodup_nil, by simp [startExecution, sentChunks, pending]⟩

@[simp] theorem trim_eq_drop (n : ℕ) (chunks : List BufferedChunk) :
    trim n chunks = chunks.drop (chunks.length - n) := by
  induction chunks with
  | nil => simp [trim]
  | cons chunk chunks ih =>
    rw [trim]
    split_ifs with h
    · rw [ih, List.length_cons, show chunks.length + 1 - n = chunks.length - n + 1 by
        simp only [List.length_cons] at h; omega, List.drop_succ_cons]
    · rw [Nat.sub_eq_zero_of_le (by omega), List.drop_zero]

/-- What was shifted away stays away. -/
theorem trim_trim_append (n : ℕ) (chunks more : List BufferedChunk) :
    trim n (trim n chunks ++ more) = trim n (chunks ++ more) := by
  simp only [trim_eq_drop]
  rw [← List.drop_append_of_le_length (by omega), List.drop_drop, List.length_drop]
  congr 1
  simp only [List.length_append]
  omega

/-- The numbers of the chunks are among those of the events, in order. -/
theorem sublist_sentNumbers (st : ChatStream) :
    (st.sentChunks.map (·.sequenceNumber)).Sublist st.sentNumbers := by
  rw [sentChunks, sentNumbers]
  induction st.sent with
  | nil => exact .slnil
  | cons x sent ih =>
    rw [List.filterMap_cons, List.map_cons]
    cases hchunk : x.2.chunk? with
    | none => exact ih.cons _
    | some chunk =>
      have hnumber : chunk.sequenceNumber = x.2.sequenceNumber := by
        simp only [StreamEvent.chunk?] at hchunk
        split at hchunk <;> cases hchunk
        rfl
      rw [List.map_cons, hnumber]
      exact ih.cons_cons _

theorem number_of_pending {id : CallId} {chunk : BufferedChunk} (h : st.pending id = some chunk) :
    st.number id = some chunk.sequenceNumber := by
  obtain ⟨⟨call, phase⟩, hcall, hpending⟩ := Option.bind_eq_some_iff.mp h
  rw [number, hcall]
  unfold pending? at hpending
  split at hpending
  · rename_i heq
    cases heq
    cases hpending
    rfl
  · cases hpending

theorem Sound.resumable (h : Sound config st) : Resumable config st where
  distinct := h.distinct
  replay := by
    intro hidle hlength k
    obtain ⟨buffered, hchunks, hnodup, hmem⟩ := h.chunks
    have hmem' : ∀ chunk, chunk ∈ buffered ↔ chunk ∈ st.sentChunks := by
      intro chunk
      rw [hmem, or_iff_left]
      intro ⟨id, hid⟩
      rw [pending, hidle id] at hid
      cases hid
    have hsent : st.sentChunks.Nodup :=
      List.Nodup.of_map _ (h.distinct.sublist st.sublist_sentNumbers)
    have hperm : buffered.Perm st.sentChunks :=
      (List.perm_ext_iff_of_nodup (List.Nodup.of_map _ hnodup) hsent).mpr hmem'
    rw [getPendingChunks, hchunks, trim_eq_drop, hperm.length_eq, Nat.sub_eq_zero_of_le hlength,
      List.drop_zero]
    exact hperm.filter _

/-! ### One step -/

theorem number_setPhase (id id' : CallId) (call : Call) (phase : Phase) :
    (st.setPhase id call phase).number id' = if id' = id then phase.number? else st.number id' := by
  by_cases hid : id' = id <;> simp [number, setPhase, hid]

theorem pending_setPhase (id id' : CallId) (call : Call) (phase : Phase) :
    (st.setPhase id call phase).pending id' =
      if id' = id then pending? (call, phase) else st.pending id' := by
  by_cases hid : id' = id <;> simp [pending, setPhase, hid]

theorem number_eq {id : CallId} {call : Call} {phase : Phase}
    (hcall : st.calls id = some (call, phase)) : st.number id = phase.number? := by
  rw [number, hcall]
  rfl

theorem pending_eq {id : CallId} {call : Call} {phase : Phase}
    (hcall : st.calls id = some (call, phase)) : st.pending id = pending? (call, phase) := by
  rw [pending, hcall]
  rfl

namespace Sound

variable {id : CallId} {call : Call} {phase phase' : Phase}

theorem fits_setPhase (h : Sound config st) (hfits : Fits call phase') :
    ∀ id' call' phase'', (st.setPhase id call phase').calls id' = some (call', phase'') →
      Fits call' phase'' := by
  intro id' call' phase'' hcall'
  by_cases hid : id' = id
  · obtain ⟨rfl, rfl⟩ : call = call' ∧ phase' = phase'' := by simpa [setPhase, hid] using hcall'
    exact hfits
  · exact h.fits id' call' phase'' (by simpa [setPhase, hid] using hcall')

/-- A call goes on without a number or a chunk coming or going. -/
theorem setPhase (h : Sound config st) (hnumber : phase'.number? = st.number id)
    (hpending : pending? (call, phase') = st.pending id) (hfits : Fits call phase') :
    Sound config (st.setPhase id call phase') := by
  have hnumber' : (st.setPhase id call phase').number = st.number := by
    funext id'
    rw [number_setPhase]
    split_ifs with hid
    · rw [hnumber, hid]
    · rfl
  have hpending' : (st.setPhase id call phase').pending = st.pending := by
    funext id'
    rw [pending_setPhase]
    split_ifs with hid
    · rw [hpending, hid]
    · rfl
  refine ⟨h.active, h.fits_setPhase hfits, h.distinct, h.sent_le, ?_, ?_, ?_⟩
  · rw [hnumber']
    exact h.number_le
  · rw [hnumber']
    exact h.number_inj
  · rw [hpending']
    exact h.chunks

/-- The state is written with the number that it has. -/
theorem setState (h : Sound config st) {state : StreamState}
    (hcounter : state.sequenceNumber = st.counter) :
    Sound config { st with state := some state } where
  active := rfl
  fits := h.fits
  distinct := h.distinct
  sent_le n hn := (h.sent_le n hn).trans hcounter.ge
  number_le id n hn := ⟨(h.number_le id n hn).1.trans hcounter.ge, (h.number_le id n hn).2⟩
  number_inj := h.number_inj
  chunks := h.chunks

/-- A call gets the next number. -/
theorem increment (h : Sound config st) (state : StreamState) (userId : String)
    (hcounter : state.sequenceNumber = st.counter + 1) (hpending : st.pending id = none)
    (hfits : call.payload? ≠ none) :
    Sound config ({ st with state := some state }.setPhase id call
      (.numbered userId state.sequenceNumber)) := by
  have hle : st.counter ≤ state.sequenceNumber := by omega
  have hnew : ∀ n, n ≤ st.counter → n ≠ state.sequenceNumber := by
    intro n hn
    omega
  refine ⟨rfl, h.fits_setPhase hfits, h.distinct, ?_, ?_, ?_, ?_⟩
  · intro n hn
    exact (h.sent_le n hn).trans hle
  · intro id' n hn
    rw [number_setPhase] at hn
    split_ifs at hn with hid
    · cases hn
      exact ⟨le_rfl, fun hmem => hnew _ (h.sent_le _ hmem) rfl⟩
    · exact ⟨(h.number_le id' n hn).1.trans hle, (h.number_le id' n hn).2⟩
  · intro id' id'' n hn hn'
    rw [number_setPhase] at hn hn'
    split_ifs at hn hn' with hid hid' hid'
    · rw [hid, hid']
    · cases hn
      exact absurd rfl (hnew _ (h.number_le id'' _ hn').1)
    · cases hn'
      exact absurd rfl (hnew _ (h.number_le id' _ hn).1)
    · exact h.number_inj id' id'' n hn hn'
  · obtain ⟨buffered, hchunks, hnodup, hmem⟩ := h.chunks
    refine ⟨buffered, hchunks, hnodup, fun chunk => (hmem chunk).trans (or_congr_right ?_)⟩
    refine exists_congr fun id' => ?_
    rw [pending_setPhase]
    split_ifs with hid
    · rw [hid, hpending, pending?]
      simp
    · rfl

/-- The chunk of a call is buffered. -/
theorem bufferChunk (h : Sound config st) {messageId content userId : String} {n : ℕ}
    (hcall : st.calls id = some (.sendChunk messageId content, phase))
    (hnumber : phase.number? = some n) (hpending : st.pending id = none) :
    Sound config (st.writeChunks config id (.sendChunk messageId content) userId n content
      st.chunks) := by
  have hnumber' : (st.writeChunks config id (.sendChunk messageId content) userId n content
      st.chunks).number = st.number := by
    funext id'
    rw [writeChunks, number_setPhase]
    split_ifs with hid
    · rw [hid, number_eq hcall, hnumber]
      rfl
    · rfl
  have hn : st.number id = some n := (number_eq hcall).trans hnumber
  refine ⟨h.active, h.fits_setPhase ⟨_, _, rfl⟩, h.distinct, h.sent_le, ?_, ?_, ?_⟩
  · rw [hnumber']
    exact h.number_le
  · rw [hnumber']
    exact h.number_inj
  · obtain ⟨buffered, hchunks, hnodup, hmem⟩ := h.chunks
    refine ⟨buffered ++ [⟨n, content⟩], ?_, ?_, ?_⟩
    · rw [← trim_trim_append, ← hchunks]
      rfl
    · -- the number is neither that of an event nor that of another call
      rw [List.map_append, List.map_cons, List.map_nil, ← List.concat_eq_append]
      refine List.Nodup.concat ?_ hnodup
      intro hmap
      obtain ⟨chunk, hchunk, rfl⟩ := List.mem_map.mp hmap
      obtain hsent | ⟨id', hid'⟩ := (hmem chunk).mp hchunk
      · refine (h.number_le id _ hn).2 (st.sublist_sentNumbers.subset ?_)
        exact List.mem_map_of_mem hsent
      · obtain rfl := h.number_inj id id' _ hn (number_of_pending hid')
        rw [hpending] at hid'
        cases hid'
    · intro chunk
      rw [List.mem_append, List.mem_singleton, hmem, or_assoc]
      refine or_congr_right ?_
      constructor
      · intro hchunk
        obtain ⟨id', hid'⟩ | rfl := hchunk
        · refine ⟨id', ?_⟩
          rw [writeChunks, pending_setPhase, if_neg]
          · exact hid'
          · rintro rfl
            rw [hpending] at hid'
            cases hid'
        · refine ⟨id, ?_⟩
          rw [writeChunks, pending_setPhase, if_pos rfl]
          rfl
      · intro ⟨id', hid'⟩
        rw [writeChunks, pending_setPhase] at hid'
        split_ifs at hid' with hid
        · cases hid'
          exact .inr rfl
        · exact .inl ⟨id', hid'⟩

/-- A call is over that has no number. -/
theorem ret (h : Sound config st) (hnumber : st.number id = none) : Sound config (st.ret id) := by
  have hpending : st.pending id = none := by
    cases hpending : st.pending id with
    | none => rfl
    | some chunk => rw [number_of_pending hpending] at hnumber; cases hnumber
  have hnumber' : (st.ret id).number = st.number := by
    funext id'
    by_cases hid : id' = id
    · rw [hid, hnumber]
      simp [number, ChatStream.ret]
    · simp [number, ChatStream.ret, hid]
  have hpending' : (st.ret id).pending = st.pending := by
    funext id'
    by_cases hid : id' = id
    · rw [hid, hpending]
      simp [pending, ChatStream.ret]
    · simp [pending, ChatStream.ret, hid]
  refine ⟨h.active, fun id' call' phase' hcall' => ?_, h.distinct, h.sent_le, ?_, ?_, ?_⟩
  · by_cases hid : id' = id
    · simp [ChatStream.ret, hid] at hcall'
    · exact h.fits id' call' phase' (by simpa [ChatStream.ret, hid] using hcall')
  · rw [hnumber']
    exact h.number_le
  · rw [hnumber']
    exact h.number_inj
  · rw [hpending']
    exact h.chunks

/-- The event of a call is sent, once its chunk is buffered if it has one. -/
theorem send (h : Sound config st) {userId : String} {n : ℕ} {payload : Payload}
    (hnumber : st.number id = some n) (hpayload : call.payload? = some payload)
    (hpending : st.pending id = StreamEvent.chunk? ⟨call.messageId, n, payload⟩) :
    Sound config (st.send id call userId n) := by
  have hsend : st.send id call userId n = { st.setPhase id call .relaying with
      sent := st.sent ++ [(userId, ⟨call.messageId, n, payload⟩)] } := by
    rw [ChatStream.send, hpayload]
  have hnumbers : (st.send id call userId n).sentNumbers = st.sentNumbers ++ [n] := by
    rw [hsend]
    simp [sentNumbers]
  have hchunks : (st.send id call userId n).sentChunks =
      st.sentChunks ++ (st.pending id).toList := by
    rw [hsend, hpending]
    simp only [sentChunks, List.filterMap_append, List.filterMap_cons, List.filterMap_nil]
    split <;> simp_all
  have hnumber' : ∀ id', (st.send id call userId n).number id' =
      if id' = id then none else st.number id' := by
    intro id'
    rw [hsend]
    exact number_setPhase id id' call .relaying
  have hpending' : ∀ id', (st.send id call userId n).pending id' =
      if id' = id then none else st.pending id' := by
    intro id'
    rw [hsend]
    have hrelaying : pending? (call, .relaying) = none := by cases call <;> rfl
    rw [← hrelaying]
    exact pending_setPhase id id' call .relaying
  obtain ⟨hle, hnotMem⟩ := h.number_le id n hnumber
  have hcounter : (st.send id call userId n).counter = st.counter := by rw [hsend]; rfl
  refine ⟨?_, ?_, ?_, ?_, ?_, ?_, ?_⟩
  · rw [hsend]
    exact h.active
  · rw [hsend]
    exact h.fits_setPhase trivial
  · rw [hnumbers, ← List.concat_eq_append]
    exact h.distinct.concat hnotMem
  · intro m hm
    rw [hcounter]
    rw [hnumbers, List.mem_append, List.mem_singleton] at hm
    obtain hm | rfl := hm
    · exact h.sent_le m hm
    · exact hle
  · intro id' m hm
    rw [hcounter, hnumbers, List.mem_append, List.mem_singleton, not_or]
    rw [hnumber'] at hm
    split_ifs at hm with hid
    obtain ⟨hle', hnot⟩ := h.number_le id' m hm
    refine ⟨hle', hnot, ?_⟩
    rintro rfl
    exact hid (h.number_inj id' id m hm hnumber)
  · intro id' id'' m hm hm'
    rw [hnumber'] at hm hm'
    split_ifs at hm hm'
    exact h.number_inj id' id'' m hm hm'
  · obtain ⟨buffered, hbuffered, hnodup, hmem⟩ := h.chunks
    refine ⟨buffered, ?_, hnodup, fun chunk => ?_⟩
    · rw [← hbuffered, hsend]
      rfl
    · rw [hmem, hchunks, List.mem_append, Option.mem_toList, or_assoc]
      refine or_congr_right ?_
      constructor
      · intro ⟨id', hid'⟩
        by_cases hid : id' = id
        · exact .inl (hid ▸ hid')
        · exact .inr ⟨id', by rw [hpending', if_neg hid]; exact hid'⟩
      · intro hchunk
        obtain hid | ⟨id', hid'⟩ := hchunk
        · exact ⟨id, hid⟩
        · rw [hpending'] at hid'
          split_ifs at hid'
          exact ⟨id', hid'⟩

/-- The message id is set with a state that has the number of the present one. -/
theorem messageSet (h : Sound config st) {state : Option StreamState} {messageId : ChatMessageId}
    (hcall : st.calls id = some (call, phase)) (hnumber : phase.number? = none)
    (hpending : pending? (call, phase) = none)
    (hstate : state.map (·.sequenceNumber) = st.state.map (·.sequenceNumber)) :
    Sound config ((st.writeMessage state messageId).messageSet id call) := by
  have hwrite : Sound config (st.writeMessage state messageId) := by
    cases state with
    | none => exact h
    | some state =>
      refine h.setState ?_
      rw [counter, ← hstate]
      rfl
  have hcalls : (st.writeMessage state messageId).calls = st.calls := by cases state <;> rfl
  have hnone : (st.writeMessage state messageId).number id = none := by
    rw [number, hcalls, hcall]
    exact hnumber
  have hnone' : (st.writeMessage state messageId).pending id = none := by
    rw [pending, hcalls, hcall]
    exact hpending
  cases call with
  | startStream => exact hwrite.setPhase hnone.symm hnone'.symm (by simp [Fits, Call.payload?])
  | sendChunk | endStream | setCurrentMessage =>
    exact hwrite.setPhase hnone.symm hnone'.symm trivial

/-- `incrementSequence` writes the present number and one. -/
theorem writeSequence (h : Sound config st) {state : Option StreamState} {userId : String}
    (hpending : st.pending id = none) (hfits : call.payload? ≠ none) (hsome : state.isSome)
    (hstate : state.map (·.sequenceNumber) = st.state.map (·.sequenceNumber)) :
    Sound config (st.writeSequence id call userId state) := by
  obtain ⟨state, rfl⟩ := Option.isSome_iff_exists.mp hsome
  have hcounter : state.sequenceNumber = st.counter := by
    rw [counter, ← hstate]
    rfl
  refine h.increment { state with sequenceNumber := state.sequenceNumber + 1 } userId ?_ hpending
    hfits
  exact congrArg (· + 1) hcounter

/-- A call goes on. -/
theorem resume (h : Sound config st) (hcall : st.calls id = some (call, phase))
    (hup : st.UpToDate (.resumes id)) : Sound config (st.resume config id call phase) := by
  have hfits := h.fits id call phase hcall
  have hnumber := number_eq hcall
  have hpending := pending_eq hcall
  have hactive := h.active
  simp only [UpToDate, hcall] at hup
  cases phase with
  | called =>
    have hnone : pending? (call, .called) = none := by cases call <;> rfl
    rw [hnone] at hpending
    have hgoesOn : ∀ phase', phase'.number? = none → pending? (call, phase') = none →
        Fits call phase' → Sound config (st.setPhase id call phase') := fun phase' hn hp hf =>
      h.setPhase (hn.trans hnumber.symm) (hp.trans hpending.symm) hf
    simp only [ChatStream.resume]
    cases hopening : call.opening with
    | setCurrentMessage =>
      simp only
      split_ifs
      · exact hgoesOn _ rfl (by cases call <;> rfl) hopening
      · exact h.messageSet hcall rfl hnone rfl
    | getStreamState =>
      obtain ⟨state, hstate⟩ := Option.isSome_iff_exists.mp hactive
      simp only [hstate]
      refine hgoesOn _ rfl (by cases call <;> rfl) ?_
      cases call <;> simp_all [Call.opening, Fits, Call.payload?]
  | settingMessage state =>
    exact h.messageSet hcall rfl (by cases call <;> rfl) hup
  | opened userId =>
    have hnone : pending? (call, .opened userId) = none := by cases call <;> rfl
    rw [hnone] at hpending
    simp only [ChatStream.resume]
    split_ifs
    · refine h.setPhase hnumber.symm (hpending ▸ ?_) ⟨hfits, hactive⟩
      cases call <;> rfl
    · exact h.writeSequence hpending hfits hactive rfl
  | incrementing userId state =>
    refine h.writeSequence ?_ hfits.1 hfits.2 hup
    rw [hpending]
    cases call <;> rfl
  | numbered userId n =>
    have hnone : pending? (call, .numbered userId n) = none := by cases call <;> rfl
    rw [hnone] at hpending
    simp only [ChatStream.resume]
    cases call with
    | sendChunk messageId content =>
      simp only
      split_ifs
      · exact h.setPhase hnumber.symm hpending.symm ⟨_, _, rfl⟩
      · exact h.bufferChunk hcall rfl hpending
    | startStream | endStream => exact h.send hnumber rfl hpending
    | setCurrentMessage => exact absurd rfl hfits
  | buffering userId n chunks =>
    obtain ⟨messageId, content, rfl⟩ := hfits
    obtain rfl : chunks = st.chunks := hup
    exact h.bufferChunk hcall rfl hpending
  | buffered userId n =>
    obtain ⟨messageId, content, rfl⟩ := hfits
    have hpayload : (Call.sendChunk messageId content).payload? = some (.streamChunk content) := rfl
    exact h.send hnumber hpayload hpending
  | relaying => exact h.ret hnumber

/-- One step keeps the invariant when it writes back what is up to date. -/
theorem step (h : Sound config st) {e : Step} {st' : ChatStream} (hup : st.UpToDate e)
    (hstep : st.step? config e = some st') : Sound config st' := by
  cases e with
  | calls id call =>
    simp only [step?, Option.ite_none_right_eq_some, Option.isNone_iff_eq_none] at hstep
    obtain ⟨hnone, hst⟩ := hstep
    cases hst
    refine h.setPhase ?_ ?_ trivial
    · simp [number, hnone, Phase.number?]
    · rw [pending, hnone]
      cases call <;> rfl
  | resumes id =>
    simp only [step?, Option.map_eq_some_iff] at hstep
    obtain ⟨⟨call, phase⟩, hcall, rfl⟩ := hstep
    exact h.resume hcall hup

end Sound

/-! ### Runs -/

def Steps (config : Config) (st : ChatStream) (e : Step) (st' : ChatStream) : Prop :=
  st.step? config e = some st'

variable {userId : String}

/-- In every run whose steps write back what is up to date, the stream can be resumed in every state
reached. -/
theorem visits_resumable (r : Transition.Run (Steps config) (startExecution userId) st)
    (h : r.Takes UpToDate) : r.Visits (Resumable config) := by
  refine (Transition.Run.visits_of_takes (I := Sound config) ?_ (sound_startExecution userId) r
    h).mono fun _ hsound => hsound.resumable
  intro s e t hs hup hstep
  exact hs.step hup hstep

/-- A chunk that is sent with Redis. -/
theorem visits_resumable_oneChunk :
    ∃ (st : ChatStream) (r : Transition.Run (Steps ⟨true, 10⟩) (startExecution "user") st),
      st.sentNumbers = [1] ∧ r.Visits (Resumable ⟨true, 10⟩) := by
  let r : Transition.Run (Steps ⟨true, 10⟩) (startExecution "user") _ :=
    .head (.calls 1 (.sendChunk "m" "a")) rfl <| .head (.resumes 1) rfl <|
    .head (.resumes 1) rfl <| .head (.resumes 1) rfl <| .head (.resumes 1) rfl <|
    .head (.resumes 1) rfl <| .head (.resumes 1) rfl <| .refl _
  refine ⟨_, r, rfl, visits_resumable r ?_⟩
  exact ⟨trivial, trivial, trivial, rfl, trivial, rfl, trivial, trivial⟩

/-! ### The memory store -/

/-- Where a call is only with Redis. -/
def Phase.MidWrite : Phase → Prop
  | settingMessage _ | incrementing _ _ | buffering _ _ _ => True
  | called | opened _ | numbered _ _ | buffered _ _ | relaying => False

/-- No call is between a read and the write of what it read. -/
def Undivided (st : ChatStream) : Prop :=
  ∀ id call phase, st.calls id = some (call, phase) → ¬ phase.MidWrite

theorem Undivided.setPhase (h : st.Undivided) {id : CallId} {call : Call} {phase : Phase}
    (hphase : ¬ phase.MidWrite) : (st.setPhase id call phase).Undivided := by
  intro id' call' phase' hcall'
  by_cases hid : id' = id
  · obtain ⟨rfl, rfl⟩ : call = call' ∧ phase = phase' := by
      simpa [ChatStream.setPhase, hid] using hcall'
    exact hphase
  · exact h id' call' phase' (by simpa [ChatStream.setPhase, hid] using hcall')

theorem Undivided.ret (h : st.Undivided) (id : CallId) : (st.ret id).Undivided := by
  intro id' call' phase' hcall'
  by_cases hid : id' = id
  · simp [ChatStream.ret, hid] at hcall'
  · exact h id' call' phase' (by simpa [ChatStream.ret, hid] using hcall')

/-- In memory nothing is suspended between a read and the write. -/
theorem Undivided.resume (h : st.Undivided) (hmemory : config.useRedis = false) {id : CallId}
    {call : Call} {phase : Phase} (hcall : st.calls id = some (call, phase)) :
    (st.resume config id call phase).Undivided := by
  have hwrite : ∀ state, Undivided { st with state } := fun state => h
  have hchunks : ∀ chunks, Undivided { st with chunks } := fun chunks => h
  cases phase with
  | called =>
    cases call with
    | startStream =>
      cases hstate : st.state <;>
        simp only [ChatStream.resume, Call.opening, hmemory, hstate, writeMessage] <;>
        exact Undivided.setPhase (hwrite _) not_false
    | setCurrentMessage =>
      cases hstate : st.state <;>
        simp only [ChatStream.resume, Call.opening, hmemory, hstate, writeMessage] <;>
        exact Undivided.setPhase (hwrite _) not_false
    | sendChunk | endStream =>
      cases hstate : st.state with
      | none =>
        simp only [ChatStream.resume, Call.opening, hstate]
        exact h.ret id
      | some state =>
        simp only [ChatStream.resume, Call.opening, hstate]
        exact h.setPhase not_false
  | opened userId =>
    simp only [ChatStream.resume, hmemory, Bool.false_eq_true, if_false]
    cases st.state with
    | none => exact h.setPhase not_false
    | some state => exact Undivided.setPhase (hwrite _) not_false
  | numbered userId n =>
    cases call with
    | sendChunk =>
      simp only [ChatStream.resume, hmemory, Bool.false_eq_true, if_false]
      exact Undivided.setPhase (hchunks _) not_false
    | startStream | endStream | setCurrentMessage => exact h.setPhase not_false
  | buffered userId n => cases call <;> exact h.setPhase not_false
  | relaying => exact h.ret id
  | settingMessage | incrementing | buffering => exact (h _ _ _ hcall trivial).elim

theorem Undivided.step (h : st.Undivided) (hmemory : config.useRedis = false) {e : Step}
    {st' : ChatStream} (hstep : st.step? config e = some st') : st'.Undivided := by
  cases e with
  | calls id call =>
    simp only [step?, Option.ite_none_right_eq_some] at hstep
    obtain ⟨-, hst⟩ := hstep
    cases hst
    exact h.setPhase not_false
  | resumes id =>
    simp only [step?, Option.map_eq_some_iff] at hstep
    obtain ⟨⟨call, phase⟩, hcall, rfl⟩ := hstep
    exact h.resume hmemory hcall

theorem Undivided.upToDate (h : st.Undivided) (e : Step) : st.UpToDate e := by
  cases e with
  | calls => trivial
  | resumes id =>
    cases hcall : st.calls id with
    | none => simp only [UpToDate, hcall]
    | some x =>
      obtain ⟨call, phase⟩ := x
      have hphase := h id call phase hcall
      cases phase with
      | settingMessage | incrementing | buffering => exact (hphase trivial).elim
      | called | opened | numbered | buffered | relaying => simp only [UpToDate, hcall]

/-- **With the memory store every stream can be resumed.** -/
theorem visits_resumable_memory (hmemory : config.useRedis = false)
    (r : Transition.Run (Steps config) (startExecution userId) st) :
    r.Visits (Resumable config) := by
  have hundivided : r.Visits Undivided := by
    refine Transition.Run.visits_of_step ?_ ?_ r
    · intro s e t hs hstep
      exact hs.step hmemory hstep
    · intro id call phase hcall
      cases hcall
  exact visits_resumable r (Transition.Run.takes_of_visits (fun s e hs => hs.upToDate e) hundivided)

/-- In memory, two chunks whose calls take turns get different sequence numbers. -/
theorem visits_resumable_memory_twoChunks :
    ∃ (st : ChatStream) (r : Transition.Run (Steps ⟨false, 10⟩) (startExecution "user") st),
      st.sentNumbers = [1, 2] ∧ r.Visits (Resumable ⟨false, 10⟩) := by
  obtain ⟨st, hst, hnumbers⟩ : ∃ st, [Step.calls 1 (.sendChunk "m" "a"),
      .calls 2 (.sendChunk "m" "b"), .resumes 1, .resumes 2, .resumes 1, .resumes 2, .resumes 1,
      .resumes 2, .resumes 1, .resumes 2].foldlM (fun st e => st.step? ⟨false, 10⟩ e)
        (startExecution "user") = some st ∧ st.sentNumbers = [1, 2] := ⟨_, rfl, rfl⟩
  obtain ⟨r, -⟩ := Transition.Run.exists_labels_eq hst
  exact ⟨st, r, hnumbers, visits_resumable_memory rfl r⟩

/-! ### The defect -/

/-- With Redis, two chunks whose calls get the same sequence number before either writes it. -/
def overlappingChunks : List Step :=
  [.calls 1 (.sendChunk "m" "a"), .calls 2 (.sendChunk "m" "b"), .resumes 1, .resumes 2,
    .resumes 1, .resumes 2, .resumes 1, .resumes 2, .resumes 1, .resumes 1, .resumes 1,
    .resumes 1, .resumes 2, .resumes 2, .resumes 2, .resumes 2]

theorem not_resumable_overlappingChunks :
    ∃ (st : ChatStream) (r : Transition.Run (Steps ⟨true, 10⟩) (startExecution "user") st),
      r.labels = overlappingChunks ∧ st.sentNumbers = [1, 1] ∧
        ¬ r.Visits (Resumable ⟨true, 10⟩) := by
  obtain ⟨st, hst, hnumbers⟩ : ∃ st, overlappingChunks.foldlM
      (fun st e => st.step? ⟨true, 10⟩ e) (startExecution "user") = some st ∧
        st.sentNumbers = [1, 1] := ⟨_, rfl, rfl⟩
  obtain ⟨r, hr⟩ := Transition.Run.exists_labels_eq hst
  refine ⟨st, r, hr, hnumbers, fun hvisits => ?_⟩
  have hdistinct := hvisits.last.distinct
  rw [hnumbers] at hdistinct
  simp at hdistinct

end ChatStream

end N8n
