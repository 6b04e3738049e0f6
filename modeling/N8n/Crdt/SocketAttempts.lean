import N8n.Crdt.WebSocketTransport
import N8n.Foundations.Transition

/-!
# A superseded attempt does not disturb the current one

Something of an attempt is outstanding while its connection timer is set or while its socket has
its handlers and has not closed. The handlers act on the fields of the transport, and the timer on
whatever socket is current: they are harmless as long as nothing of an earlier attempt is
outstanding when a new one begins. An attempt that the transport itself schedules begins after the
close of the one before; one that `connect` begins may not.
-/

namespace N8n.WebSocketTransport

open Transition

variable {config : WebSocketTransportConfig} {st st' : WebSocketTransport} {id : AttemptId}

/-- The socket of an attempt is connecting or open. -/
def Active (st : WebSocketTransport) (id : AttemptId) : Prop :=
  (st.attempts id).readyState = .connecting ∨ (st.attempts id).readyState = .open

/-- At most one socket is connecting or open, and the transport is connected exactly when its
current socket is open. -/
structure Consistent (st : WebSocketTransport) : Prop where
  unique : ∀ id id', st.Active id → st.Active id' → id = id'
  connected_iff : st.connected = true ↔
    ∃ id, st.ws = some id ∧ (st.attempts id).readyState = .open

/-- The event or the timer belongs to an attempt that is not the current one. -/
def Stale (st : WebSocketTransport) : Event → Prop
  | .connectionTimeout id | .opened id | .closed id | .errored id | .message id => st.ws ≠ some id
  | .reconnectTimeout timer _ => st.reconnectTimeout ≠ some timer
  | .connect _ | .disconnect => False

variable (config) in
/-- A stale event or timer changes neither the fields of the transport nor the current socket. -/
def Undisturbed (st : WebSocketTransport) (event : Event) : Prop :=
  st.Stale event → ∀ st', Step config st event st' →
    st'.toFields = st.toFields ∧ ∀ id, st.ws = some id → st'.attempts id = st.attempts id

/-- The connection timer of an attempt is set, or its socket may still call a handler. -/
def Outstanding (st : WebSocketTransport) (id : AttemptId) : Prop :=
  id ∈ st.connectionTimers ∨
    (st.attempts id).handlers = true ∧ (st.attempts id).readyState ≠ .closed

/-- While there is a current attempt, nothing of another one is outstanding. -/
def Clean (st : WebSocketTransport) : Prop :=
  ∀ current, st.ws = some current → ∀ id, st.Outstanding id → id = current

/-- The condition on a step: `connect` begins a new attempt with nothing outstanding. -/
def Timely (st : WebSocketTransport) : Event → Prop
  | .connect true => st.connected = false → st.isConnecting = false → ∀ id, ¬st.Outstanding id
  | _ => True

/-! ### The invariant -/

structure Sound (st : WebSocketTransport) : Prop where
  clean : st.Clean
  detached : st.ws = none → ∀ id, (st.attempts id).handlers = true →
    (st.attempts id).readyState = .closed
  active : ∀ id, st.Active id → st.ws = some id
  connected_iff : st.connected = true ↔
    ∃ id, st.ws = some id ∧ (st.attempts id).readyState = .open
  connecting : ∀ id, st.ws = some id → (st.attempts id).readyState = .connecting →
    st.isConnecting = true
  timer : ∀ id ∈ st.connectionTimers, st.ws = some id → (st.attempts id).readyState ≠ .open
  handlers : ∀ id, st.ws = some id → (st.attempts id).handlers = true
  promise : st.isConnecting = true ∨ st.reconnectTimeout.isSome = true ∨ st.ws.isSome = true →
    st.connectionPromise.isSome = true
  reconnectTimers : st.reconnectTimers = st.reconnectTimeout.toList
  reconnect : st.reconnectTimeout.isSome = true →
    st.isConnecting = false ∧ ∀ id, ¬st.Outstanding id
  fresh : ∀ id, st.nextAttempt ≤ id → (st.attempts id).readyState = .closed ∧
    (st.attempts id).handlers = false ∧ id ∉ st.connectionTimers

theorem sound_init : init.Sound where
  clean := nofun
  detached := fun _ _ _ => rfl
  active := by
    intro id hactive
    exact absurd hactive (by simp [Active, init])
  connected_iff := by simp [init]
  connecting := nofun
  timer := nofun
  handlers := nofun
  promise := by simp [init]
  reconnectTimers := rfl
  reconnect := by simp [init]
  fresh := fun _ _ => ⟨rfl, rfl, List.not_mem_nil⟩

theorem Sound.consistent (h : st.Sound) : st.Consistent where
  unique := by
    intro id id' hactive hactive'
    exact Option.some.inj ((h.active id hactive).symm.trans (h.active id' hactive'))
  connected_iff := h.connected_iff

/-- A current socket that is open is outstanding, so that a disconnected transport has none. -/
theorem Sound.connected_eq_false (h : st.Sound) (hnone : ∀ id, ¬st.Outstanding id) :
    st.connected = false := by
  refine Bool.eq_false_iff.mpr fun hconnected => ?_
  obtain ⟨id, hws, hopen⟩ := h.connected_iff.mp hconnected
  refine hnone id (Or.inr ⟨h.handlers id hws, ?_⟩)
  rw [hopen]
  exact ReadyState.noConfusion

/-- With nothing connected or connecting, no socket is active. -/
theorem Sound.not_active (h : st.Sound) (hconnected : st.connected = false)
    (hconnecting : st.isConnecting = false) : ¬st.Active id := by
  intro hactive
  have hws := h.active id hactive
  obtain hstate | hstate := hactive
  · exact absurd ((h.connecting id hws hstate).symm.trans hconnecting) (by decide)
  · have htrue := h.connected_iff.mpr ⟨id, hws, hstate⟩
    exact absurd (htrue.symm.trans hconnected) (by decide)

/-! ### Timers -/

theorem clearReconnectTimeout_eq (h : st.Sound) : st.clearReconnectTimeout =
    { st with
      reconnectTimers := []
      reconnectTimeout := none } := by
  rw [clearReconnectTimeout]
  split
  next timer htimer =>
    have htimers : st.reconnectTimers = [timer] := by rw [h.reconnectTimers, htimer]; rfl
    simp [htimers]
  next hnone =>
    have htimers : st.reconnectTimers = [] := by rw [h.reconnectTimers, hnone]; rfl
    rw [← htimers, ← hnone]

theorem Sound.clearReconnectTimeout (h : st.Sound) : st.clearReconnectTimeout.Sound := by
  rw [clearReconnectTimeout_eq h]
  exact { h with
    promise := fun hor => h.promise (hor.imp_right (Or.imp_left nofun))
    reconnectTimers := rfl
    reconnect := nofun }

/-! ### A new attempt -/

@[simp] theorem setAttempt_self (attempt : Attempt) :
    (st.setAttempt id attempt).attempts id = attempt :=
  Function.update_self _ _ _

theorem readyState_setAttempt (st : WebSocketTransport) (id : AttemptId) (attempt : Attempt) :
    ((st.setAttempt id attempt).attempts id).readyState = attempt.readyState := by
  rw [setAttempt_self]

theorem handlers_setAttempt (st : WebSocketTransport) (id : AttemptId) (attempt : Attempt) :
    ((st.setAttempt id attempt).attempts id).handlers = attempt.handlers := by
  rw [setAttempt_self]

theorem setAttempt_of_ne {id' : AttemptId} (hne : id' ≠ id) (attempt : Attempt) :
    (st.setAttempt id attempt).attempts id' = st.attempts id' :=
  Function.update_of_ne hne _ _

/-- The invariant is about the states and the handlers of sockets only. -/
theorem Sound.of_attempts (h : st.Sound) {attempts : AttemptId → Attempt}
    (hsame : ∀ id, (attempts id).readyState = (st.attempts id).readyState ∧
      (attempts id).handlers = (st.attempts id).handlers) : { st with attempts }.Sound := by
  have hactive : ∀ id, { st with attempts }.Active id ↔ st.Active id := by
    intro id
    rw [Active, Active]
    exact or_congr (by rw [(hsame id).1]) (by rw [(hsame id).1])
  have houtstanding : ∀ id, { st with attempts }.Outstanding id ↔ st.Outstanding id := by
    intro id
    rw [Outstanding, Outstanding]
    exact or_congr Iff.rfl (by rw [(hsame id).1, (hsame id).2])
  constructor
  · intro current hws id hout
    exact h.clean current hws id ((houtstanding id).mp hout)
  · intro hws id hhandlers
    rw [(hsame id).2] at hhandlers
    exact (hsame id).1.trans (h.detached hws id hhandlers)
  · intro id hact
    exact h.active id ((hactive id).mp hact)
  · refine h.connected_iff.trans (exists_congr fun id => and_congr_right fun _ => ?_)
    rw [(hsame id).1]
  · intro id hws hstate
    exact h.connecting id hws ((hsame id).1.symm.trans hstate)
  · intro id hmem hws hopen
    exact h.timer id hmem hws ((hsame id).1.symm.trans hopen)
  · intro id hws
    exact (hsame id).2.trans (h.handlers id hws)
  · exact h.promise
  · exact h.reconnectTimers
  · intro hsome
    obtain ⟨hfalse, hnone⟩ := h.reconnect hsome
    exact ⟨hfalse, fun id hout => hnone id ((houtstanding id).mp hout)⟩
  · intro id hle
    obtain ⟨hclosed, hhandlers, htimers⟩ := h.fresh id hle
    exact ⟨(hsame id).1.trans hclosed, (hsame id).2.trans hhandlers, htimers⟩

/-- An attempt whose socket cannot be made leaves everything as it is. -/
theorem Sound.notCreated (h : st.Sound) (hconnecting : st.isConnecting = false) :
    (st.doConnect false).Sound := by
  have hattempts : (st.setAttempt st.nextAttempt ⟨.closed, false, .rejected⟩).Sound := by
    refine h.of_attempts fun id => ?_
    by_cases hid : id = st.nextAttempt
    · subst hid
      obtain ⟨hstate, hhandlers, -⟩ := h.fresh st.nextAttempt le_rfl
      rw [Function.update_self]
      exact ⟨hstate.symm, hhandlers.symm⟩
    · rw [Function.update_of_ne hid]
      exact ⟨rfl, rfl⟩
  exact { hattempts with
    connecting := fun id hws hstate =>
      absurd ((hattempts.connecting id hws hstate).symm.trans hconnecting) (by decide)
    promise := fun hor => hattempts.promise (hor.imp_left nofun)
    reconnect := fun hsome => ⟨rfl, (hattempts.reconnect hsome).2⟩
    fresh := fun id hle => hattempts.fresh id (Nat.le_of_succ_le hle) }

/-- A new attempt becomes the current one. -/
theorem Sound.created (h : st.Sound) (hnone : ∀ id, ¬st.Outstanding id)
    (hconnecting : st.isConnecting = false) (hreconnect : st.reconnectTimeout = none)
    (hpromise : st.connectionPromise.isSome = true) : (st.doConnect true).Sound := by
  have hconnected := h.connected_eq_false hnone
  have hws : (st.doConnect true).ws = some st.nextAttempt := rfl
  have hself : (st.doConnect true).attempts st.nextAttempt = ⟨.connecting, true, .pending⟩ :=
    setAttempt_self _
  have hother : ∀ id, id ≠ st.nextAttempt → (st.doConnect true).attempts id = st.attempts id :=
    fun id hne => setAttempt_of_ne hne _
  constructor
  · intro current hcurrent id houtstanding
    obtain rfl := Option.some.inj (hws.symm.trans hcurrent)
    by_contra hne
    refine hnone id ?_
    rw [Outstanding, hother id hne] at houtstanding
    exact houtstanding.imp_left fun hmem => (List.mem_cons.mp hmem).resolve_left hne
  · intro hnot
    cases hnot
  · intro id hactive
    by_cases hid : id = st.nextAttempt
    · rw [hid, hws]
    · rw [Active, hother id hid] at hactive
      exact absurd hactive (h.not_active hconnected hconnecting)
  · refine iff_of_false ?_ ?_
    · have hfalse : (st.doConnect true).connected = false := hconnected
      rw [hfalse]
      decide
    · rintro ⟨id, hid, hopen⟩
      obtain rfl := Option.some.inj (hws.symm.trans hid)
      rw [hself] at hopen
      cases hopen
  · intro _ _ _
    rfl
  · intro id _ hid
    obtain rfl := Option.some.inj (hws.symm.trans hid)
    rw [hself]
    exact ReadyState.noConfusion
  · intro id hid
    obtain rfl := Option.some.inj (hws.symm.trans hid)
    rw [hself]
  · intro _
    exact hpromise
  · exact h.reconnectTimers
  · intro hsome
    have hnot : (st.doConnect true).reconnectTimeout = none := hreconnect
    rw [hnot] at hsome
    cases hsome
  · intro id hle
    have hle' : st.nextAttempt + 1 ≤ id := hle
    have hne : id ≠ st.nextAttempt := Nat.ne_of_gt (Nat.lt_of_succ_le hle')
    obtain ⟨hstate, hhandlers, htimers⟩ := h.fresh id (Nat.le_of_succ_le hle')
    rw [hother id hne]
    refine ⟨hstate, hhandlers, fun hmem => ?_⟩
    exact htimers ((List.mem_cons.mp hmem).resolve_left hne)

theorem Sound.connect {created : Bool} (h : st.Sound) (htimely : st.Timely (.connect created)) :
    (st.connect config created).Sound := by
  have hclear := h.clearReconnectTimeout
  rw [WebSocketTransport.connect]
  rw [clearReconnectTimeout_eq h] at hclear ⊢
  split
  · exact hclear
  next hconnected =>
    split
    · exact hclear
    next hguard =>
      have hconnecting : st.isConnecting = false := by
        refine Bool.eq_false_iff.mpr fun htrue => hguard ?_
        exact Bool.and_eq_true_iff.mpr ⟨htrue, h.promise (Or.inl htrue)⟩
      -- the state that `doConnect` starts from, with its promise
      have hstart : { st with
          reconnectTimers := []
          reconnectTimeout := none
          shouldReconnect := config.reconnect
          connectionPromise := some st.nextAttempt }.Sound :=
        { hclear with
          promise := fun _ => rfl }
      cases created with
      | false => exact hstart.notCreated hconnecting
      | true =>
        have hnone := htimely (Bool.eq_false_iff.mpr hconnected) hconnecting
        exact hstart.created hnone hconnecting rfl rfl

theorem Sound.reconnectTimedOut {timer : TimerId} (h : st.Sound) (hmem : timer ∈ st.reconnectTimers)
    (created : Bool) : ({ st with
      reconnectTimers := st.reconnectTimers.filter (· ≠ timer)
      reconnectTimeout := none }.doConnect created).Sound := by
  have htimeout : st.reconnectTimeout = some timer := by
    rw [h.reconnectTimers] at hmem
    exact Option.mem_toList.mp hmem
  have htimers : st.reconnectTimers.filter (· ≠ timer) = [] := by
    rw [h.reconnectTimers, htimeout]
    simp
  obtain ⟨hconnecting, hnone⟩ := h.reconnect (by rw [htimeout]; rfl)
  have hpromise := h.promise (Or.inr (Or.inl (by rw [htimeout]; rfl)))
  have hstart : { st with
      reconnectTimers := st.reconnectTimers.filter (· ≠ timer)
      reconnectTimeout := none }.Sound :=
    { h with
      promise := fun hor => h.promise (hor.imp_right (Or.imp_left nofun))
      reconnectTimers := htimers
      reconnect := nofun }
  cases created with
  | false => exact hstart.notCreated hconnecting
  | true => exact hstart.created hnone hconnecting rfl hpromise

/-! ### Sockets that move -/

/-- The rule for what happens to the current attempt, which has something outstanding. -/
theorem Sound.current (h : st.Sound) (hws : st.ws = some id) (hws' : st'.ws = some id)
    (hhandlers : (st'.attempts id).handlers = true)
    (hother : ∀ id', id' ≠ id → st'.attempts id' = st.attempts id')
    (htimers : ∀ id' ∈ st'.connectionTimers, id' ∈ st.connectionTimers)
    (hconnected : st'.connected = true ↔ (st'.attempts id).readyState = .open)
    (hconnecting : (st'.attempts id).readyState = .connecting → st'.isConnecting = true)
    (htimer : id ∈ st'.connectionTimers → (st'.attempts id).readyState ≠ .open)
    (hpromise : st'.connectionPromise = st.connectionPromise)
    (hreconnect : st'.reconnectTimeout = none) (hreconnectTimers : st'.reconnectTimers = [])
    (hnext : st'.nextAttempt = st.nextAttempt) : st'.Sound := by
  have hcurrent : ∀ id', st'.ws = some id' → id' = id := fun id' hid' =>
    Option.some.inj (hid'.symm.trans hws')
  constructor
  · intro current hws₀ id' houtstanding
    obtain rfl := hcurrent current hws₀
    by_contra hne
    refine hne (h.clean current hws id' ?_)
    rw [Outstanding, hother id' hne] at houtstanding
    exact houtstanding.imp_left (htimers id')
  · intro hnone
    rw [hws'] at hnone
    cases hnone
  · intro id' hactive
    by_cases hid : id' = id
    · rw [hid, hws']
    · rw [Active, hother id' hid] at hactive
      exact absurd (Option.some.inj ((h.active id' hactive).symm.trans hws)) hid
  · refine hconnected.trans ⟨fun hopen => ⟨id, hws', hopen⟩, ?_⟩
    rintro ⟨id', hid', hopen⟩
    exact hcurrent id' hid' ▸ hopen
  · intro id' hid' hstate
    obtain rfl := hcurrent id' hid'
    exact hconnecting hstate
  · intro id' hmem hid'
    obtain rfl := hcurrent id' hid'
    exact htimer hmem
  · intro id' hid'
    obtain rfl := hcurrent id' hid'
    exact hhandlers
  · intro _
    rw [hpromise]
    exact h.promise (Or.inr (Or.inr (by rw [hws]; rfl)))
  · rw [hreconnectTimers, hreconnect]
    rfl
  · intro hsome
    rw [hreconnect] at hsome
    cases hsome
  · intro id' hle
    rw [hnext] at hle
    obtain ⟨hstate, hfalse, hnot⟩ := h.fresh id' hle
    have hne : id' ≠ id := by
      rintro rfl
      exact absurd ((h.handlers id' hws).symm.trans hfalse) (by decide)
    rw [hother id' hne]
    exact ⟨hstate, hfalse, fun hmem => hnot (htimers id' hmem)⟩

/-- While something is outstanding, no new attempt is scheduled. -/
theorem Sound.reconnectTimeout_eq_none (h : st.Sound) (houtstanding : st.Outstanding id) :
    st.reconnectTimeout = none ∧ st.reconnectTimers = [] := by
  have hnone : st.reconnectTimeout = none := by
    by_contra hsome
    exact (h.reconnect (Option.isSome_iff_ne_none.mpr hsome)).2 id houtstanding
  refine ⟨hnone, ?_⟩
  rw [h.reconnectTimers, hnone]
  rfl

/-- A socket that may still call a handler is the current one. -/
theorem Sound.ws_of_handlers (h : st.Sound) (hhandlers : (st.attempts id).handlers = true)
    (hstate : (st.attempts id).readyState ≠ .closed) : st.ws = some id := by
  cases hws : st.ws with
  | none => exact absurd (h.detached hws id hhandlers) hstate
  | some current =>
    obtain rfl := h.clean current hws id (Or.inr ⟨hhandlers, hstate⟩)
    rfl

/-- A socket without handlers is not the current one, and may move as long as it stays inactive. -/
theorem Sound.setDetached {readyState : ReadyState} (h : st.Sound)
    (hhandlers : (st.attempts id).handlers = false)
    (hstate : (st.attempts id).readyState ≠ .closed) (hconnecting : readyState ≠ .connecting)
    (hopen : readyState ≠ .open) :
    (st.setAttempt id { st.attempts id with readyState }).Sound := by
  have hws : ∀ id', st.ws = some id' → id' ≠ id := by
    rintro id' hid' rfl
    exact absurd ((h.handlers id' hid').symm.trans hhandlers) (by decide)
  have hsame : ∀ id', id' ≠ id →
      (st.setAttempt id { st.attempts id with readyState }).attempts id' = st.attempts id' :=
    fun id' hne => setAttempt_of_ne hne _
  have hself : ((st.setAttempt id { st.attempts id with readyState }).attempts id) =
      { st.attempts id with readyState } := setAttempt_self _
  have houtstanding : ∀ id',
      (st.setAttempt id { st.attempts id with readyState }).Outstanding id' →
        st.Outstanding id' := by
    intro id' hout
    by_cases hid : id' = id
    · subst hid
      rw [Outstanding, hself] at hout
      refine Or.inl (hout.resolve_right fun hand => ?_)
      exact absurd (hand.1.symm.trans hhandlers) (by decide)
    · rwa [Outstanding, hsame id' hid] at hout
  constructor
  · intro current hcurrent id' hout
    exact h.clean current hcurrent id' (houtstanding id' hout)
  · intro hnone id' hhandlers'
    by_cases hid : id' = id
    · subst hid
      rw [hself] at hhandlers'
      exact absurd (hhandlers'.symm.trans hhandlers) (by decide)
    · rw [hsame id' hid] at hhandlers' ⊢
      exact h.detached hnone id' hhandlers'
  · intro id' hactive
    by_cases hid : id' = id
    · subst hid
      rw [Active, hself] at hactive
      exact hactive.elim (fun heq => absurd heq hconnecting) fun heq => absurd heq hopen
    · rw [Active, hsame id' hid] at hactive
      exact h.active id' hactive
  · refine h.connected_iff.trans (exists_congr fun id' => and_congr_right fun hid' => ?_)
    rw [hsame id' (hws id' hid')]
  · intro id' hid'
    rw [hsame id' (hws id' hid')]
    exact h.connecting id' hid'
  · intro id' hmem hid'
    rw [hsame id' (hws id' hid')]
    exact h.timer id' hmem hid'
  · intro id' hid'
    rw [hsame id' (hws id' hid')]
    exact h.handlers id' hid'
  · exact h.promise
  · exact h.reconnectTimers
  · intro hsome
    obtain ⟨hfalse, hnone⟩ := h.reconnect hsome
    exact ⟨hfalse, fun id' hout => hnone id' (houtstanding id' hout)⟩
  · intro id' hle
    obtain ⟨hclosed, hrest⟩ := h.fresh id' hle
    have hne : id' ≠ id := by
      rintro rfl
      exact hstate hclosed
    rw [hsame id' hne]
    exact ⟨hclosed, hrest⟩

/-- Settling a promise changes nothing that the invariant is about. -/
theorem Sound.settle (h : st.Sound) (id : AttemptId) (promise : PromiseState) :
    (st.settle id promise).Sound := by
  rw [WebSocketTransport.settle]
  split
  · refine h.of_attempts fun id' => ?_
    by_cases hid : id' = id
    · subst hid
      rw [Function.update_self]
      exact ⟨rfl, rfl⟩
    · rw [Function.update_of_ne hid]
      exact ⟨rfl, rfl⟩
  · exact h

/-! ### Handlers -/

theorem mem_clearConnectionTimeout {id' : AttemptId} :
    id' ∈ (st.clearConnectionTimeout id).connectionTimers ↔
      id' ∈ st.connectionTimers ∧ id' ≠ id := by
  rw [clearConnectionTimeout, List.mem_filter, decide_eq_true_eq]

/-- `close()` stops a socket that is not closed, and does nothing else. -/
theorem closeSocket_eq (st : WebSocketTransport) (id : AttemptId) : ∃ readyState,
    readyState ≠ .connecting ∧ readyState ≠ .open ∧
      (readyState = .closed → (st.attempts id).readyState = .closed) ∧
        st.closeSocket id = st.setAttempt id { st.attempts id with readyState } := by
  have hsame : st.setAttempt id { st.attempts id with readyState := (st.attempts id).readyState } =
      st := by rw [setAttempt, Function.update_eq_self]
  rw [closeSocket]
  split
  · exact ⟨.closing, nofun, nofun, nofun, rfl⟩
  · exact ⟨.closing, nofun, nofun, nofun, rfl⟩
  next hstate =>
    exact ⟨.closing, nofun, nofun, nofun, by rw [← hstate]; exact hsame.symm⟩
  next hstate =>
    exact ⟨.closed, nofun, nofun, fun _ => hstate, by rw [← hstate]; exact hsame.symm⟩

theorem Sound.connectionTimedOut (h : st.Sound) (hmem : id ∈ st.connectionTimers) :
    (st.connectionTimedOut id).Sound := by
  have hout : st.Outstanding id := Or.inl hmem
  obtain ⟨hreconnect, hreconnectTimers⟩ := h.reconnectTimeout_eq_none hout
  refine Sound.settle ?_ id .rejected
  cases hws : st.ws with
  | none =>
    have hws' : (st.clearConnectionTimeout id).ws = none := hws
    rw [hws']
    exact { h with
      clean := fun current hcurrent => absurd (hcurrent.symm.trans hws) (Option.some_ne_none _)
      timer := fun id' _ hid' => absurd (hid'.symm.trans hws) (Option.some_ne_none _)
      reconnect := fun hsome => absurd hreconnect (Option.isSome_iff_ne_none.mp hsome)
      fresh := fun id' hle => by
        obtain ⟨hclosed, hhandlers, hnot⟩ := h.fresh id' hle
        exact ⟨hclosed, hhandlers, fun hmem' => hnot (mem_clearConnectionTimeout.mp hmem').1⟩ }
  | some current =>
    obtain rfl := h.clean current hws id hout
    have hws' : (st.clearConnectionTimeout id).ws = some id := hws
    obtain ⟨readyState, hconnecting, hopen, _, hclose⟩ :=
      closeSocket_eq (st.clearConnectionTimeout id) id
    have hconnected : st.connected = false := by
      refine Bool.eq_false_iff.mpr fun htrue => ?_
      obtain ⟨id', hid', hstate⟩ := h.connected_iff.mp htrue
      obtain rfl := Option.some.inj (hid'.symm.trans hws)
      exact h.timer id' hmem hws hstate
    rw [hws']
    simp only [hclose]
    refine h.current hws hws' ?_ (fun id' hne => setAttempt_of_ne hne _) ?_ ?_ ?_ ?_ rfl hreconnect
      hreconnectTimers rfl
    · rw [setAttempt_self]
      exact h.handlers id hws
    · intro id' hmem'
      exact (mem_clearConnectionTimeout.mp hmem').1
    · rw [setAttempt_self]
      exact iff_of_false (by rw [← Bool.not_eq_true] at hconnected; exact hconnected) hopen
    · rw [setAttempt_self]
      exact fun heq => absurd heq hconnecting
    · intro _
      rw [setAttempt_self]
      exact hopen

/-- The old socket has no handlers and is not active, and the others stay as they are. -/
theorem dropSocket_eq (st : WebSocketTransport) : ∃ attempts : AttemptId → Attempt,
    st.dropSocket = { st with ws := none, attempts } ∧ ∀ id,
      if st.ws = some id then (attempts id).handlers = false ∧
        (attempts id).readyState ≠ .connecting ∧ (attempts id).readyState ≠ .open
      else attempts id = st.attempts id := by
  rw [dropSocket]
  split
  next current hws =>
    obtain ⟨readyState, hconnecting, hopen, _, hclose⟩ :=
      closeSocket_eq (st.setAttempt current { st.attempts current with handlers := false }) current
    refine ⟨_, by rw [hclose]; rfl, fun id => ?_⟩
    rw [hws]
    split
    next heq =>
      obtain rfl := Option.some.inj heq
      rw [setAttempt_self, setAttempt_self]
      exact ⟨rfl, hconnecting, hopen⟩
    next hne =>
      have hid : id ≠ current := fun heq => hne (congrArg some heq.symm)
      rw [setAttempt_of_ne hid, setAttempt_of_ne hid]
  next hws =>
    refine ⟨st.attempts, by rw [← hws], fun id => ?_⟩
    rw [hws, if_neg nofun]

/-- What `disconnect` leaves. -/
theorem disconnect_eq (h : st.Sound) : ∃ attempts : AttemptId → Attempt,
    st.disconnect = { st with
      ws := none
      connected := false
      shouldReconnect := false
      isConnecting := false
      connectionPromise := none
      reconnectTimeout := none
      reconnectTimers := []
      attempts } ∧ ∀ id, if st.ws = some id then
          (attempts id).handlers = false ∧ (attempts id).readyState ≠ .connecting ∧
            (attempts id).readyState ≠ .open
        else attempts id = st.attempts id := by
  have hsound : { st with shouldReconnect := false }.Sound := { h with }
  rw [WebSocketTransport.disconnect, clearReconnectTimeout_eq hsound]
  obtain ⟨attempts, heq, hattempts⟩ := dropSocket_eq { st with
    shouldReconnect := false
    reconnectTimers := []
    reconnectTimeout := none }
  exact ⟨attempts, by rw [heq], hattempts⟩

theorem Sound.disconnect (h : st.Sound) : st.disconnect.Sound := by
  obtain ⟨attempts, heq, hattempts⟩ := disconnect_eq h
  have hother : ∀ id, st.ws ≠ some id → attempts id = st.attempts id := by
    intro id hne
    have hid := hattempts id
    rwa [if_neg hne] at hid
  have hdetached : ∀ id, st.ws = some id → (attempts id).handlers = false ∧
      (attempts id).readyState ≠ .connecting ∧ (attempts id).readyState ≠ .open := by
    intro id hws
    have hid := hattempts id
    rwa [if_pos hws] at hid
  have hinactive : ∀ id, (attempts id).readyState ≠ .connecting ∧
      (attempts id).readyState ≠ .open := by
    intro id
    by_cases hws : st.ws = some id
    · exact (hdetached id hws).2
    · rw [hother id hws]
      exact ⟨fun hstate => hws (h.active id (Or.inl hstate)),
        fun hstate => hws (h.active id (Or.inr hstate))⟩
  rw [heq]
  constructor
  · exact nofun
  · intro _ id hhandlers
    by_cases hws : st.ws = some id
    · exact absurd (hhandlers.symm.trans (hdetached id hws).1) (by decide)
    · have hsame : attempts id = st.attempts id := hother id hws
      have hhandlers' : (st.attempts id).handlers = true := hsame ▸ hhandlers
      by_contra hstate
      refine hws (h.ws_of_handlers hhandlers' fun hclosed => hstate ?_)
      exact (congrArg Attempt.readyState hsame).trans hclosed
  · intro id hactive
    exact hactive.elim (fun heq => absurd heq (hinactive id).1) fun heq =>
      absurd heq (hinactive id).2
  · exact iff_of_false nofun nofun
  · exact nofun
  · intro id _ hws
    cases hws
  · exact nofun
  · intro hor
    obtain hfalse | hfalse | hfalse := hor <;> cases hfalse
  · rfl
  · exact nofun
  · intro id hle
    obtain ⟨hclosed, hhandlers, hnot⟩ := h.fresh id hle
    have hne : st.ws ≠ some id := by
      intro hws
      exact absurd ((h.handlers id hws).symm.trans hhandlers) (by decide)
    have hsame : attempts id = st.attempts id := hother id hne
    exact ⟨(congrArg Attempt.readyState hsame).trans hclosed,
      (congrArg Attempt.handlers hsame).trans hhandlers, hnot⟩

/-- A new attempt is scheduled when nothing is outstanding. -/
theorem Sound.scheduleReconnect (h : st.Sound) (hconnecting : st.isConnecting = false)
    (hnone : ∀ id, ¬st.Outstanding id) (hreconnectTimers : st.reconnectTimers = [])
    (hpromise : st.connectionPromise.isSome = true) : (st.scheduleReconnect config).Sound := by
  rw [WebSocketTransport.scheduleReconnect]
  split
  · exact h
  · split
    · exact h
    · exact { h with
        promise := fun _ => hpromise
        reconnectTimers := by rw [hreconnectTimers]; rfl
        reconnect := fun _ => ⟨hconnecting, hnone⟩ }

/-- The current socket opens. -/
theorem Sound.opened (h : st.Sound) (hstate : (st.attempts id).readyState = .connecting) :
    (st.socketEvent id .open (onopen id)).Sound := by
  have hws := h.active id (Or.inl hstate)
  have hhandlers := h.handlers id hws
  have hout : st.Outstanding id := Or.inr ⟨hhandlers, by rw [hstate]; exact ReadyState.noConfusion⟩
  obtain ⟨hreconnect, hreconnectTimers⟩ := h.reconnectTimeout_eq_none hout
  rw [socketEvent, if_pos hhandlers, onopen]
  refine Sound.settle ?_ id .resolved
  refine h.current hws hws ?_ (fun id' hne => setAttempt_of_ne hne _) ?_ ?_ ?_ ?_ rfl hreconnect
    hreconnectTimers rfl
  · exact (handlers_setAttempt _ _ _).trans hhandlers
  · intro id' hmem
    exact (List.mem_filter.mp hmem).1
  · exact iff_of_true rfl (readyState_setAttempt _ _ _)
  · intro hnot
    exact absurd (hnot.symm.trans (readyState_setAttempt _ _ _)) ReadyState.noConfusion
  · intro hmem
    exact absurd rfl (mem_clearConnectionTimeout.mp hmem).2

/-- With the current socket closed and its timer cleared, nothing is outstanding. -/
theorem Sound.not_outstanding_of_closed (h : st.Sound) (hws : st.ws = some id)
    (htimer : id ∉ st.connectionTimers) (hstate : (st.attempts id).readyState = .closed) :
    ∀ id', ¬st.Outstanding id' := by
  intro id' hout
  obtain rfl := h.clean id hws id' hout
  exact hout.elim htimer fun hand => hand.2 hstate

/-- A socket closes: the current one schedules a new attempt, any other does nothing. -/
theorem Sound.closed (h : st.Sound) (hstate : (st.attempts id).readyState ≠ .closed) :
    (st.socketEvent id .closed (onclose config id)).Sound := by
  rw [socketEvent]
  split
  next hhandlers =>
    have hws := h.ws_of_handlers hhandlers hstate
    have hout : st.Outstanding id := Or.inr ⟨hhandlers, hstate⟩
    obtain ⟨hreconnect, hreconnectTimers⟩ := h.reconnectTimeout_eq_none hout
    have hclosed : { (st.setAttempt id
        { st.attempts id with readyState := .closed }).clearConnectionTimeout id with
          connected := false
          isConnecting := false }.Sound := by
      refine h.current hws hws ?_ (fun id' hne => setAttempt_of_ne hne _) ?_ ?_ ?_ ?_ rfl hreconnect
        hreconnectTimers rfl
      · exact (handlers_setAttempt _ _ _).trans hhandlers
      · intro id' hmem
        exact (List.mem_filter.mp hmem).1
      · refine iff_of_false nofun fun hopen => ?_
        exact absurd (hopen.symm.trans (readyState_setAttempt _ _ _)) ReadyState.noConfusion
      · intro hnot
        exact absurd (hnot.symm.trans (readyState_setAttempt _ _ _)) ReadyState.noConfusion
      · intro hmem
        exact absurd rfl (mem_clearConnectionTimeout.mp hmem).2
    have hnot : id ∉
        ((st.setAttempt id
          { st.attempts id with readyState := .closed }).clearConnectionTimeout
            id).connectionTimers :=
      fun hmem => (mem_clearConnectionTimeout.mp hmem).2 rfl
    refine hclosed.scheduleReconnect rfl ?_ hreconnectTimers ?_
    · exact hclosed.not_outstanding_of_closed hws hnot (readyState_setAttempt _ _ _)
    · exact h.promise (Or.inr (Or.inr (by rw [hws]; rfl)))
  next hhandlers =>
    exact h.setDetached (Bool.eq_false_iff.mpr hhandlers) hstate nofun nofun

/-- A socket fails: a current one that was connecting no longer is. -/
theorem Sound.errored (h : st.Sound) (hstate : (st.attempts id).readyState ≠ .closed) :
    (st.socketEvent id (st.attempts id).readyState.errored (onerror id)).Sound := by
  have hconnecting : (st.attempts id).readyState.errored ≠ .connecting := by
    cases (st.attempts id).readyState <;> exact nofun
  have hopen : (st.attempts id).readyState.errored = .open ↔
      (st.attempts id).readyState = .open := by
    cases (st.attempts id).readyState <;> simp [ReadyState.errored]
  rw [socketEvent]
  split
  next hhandlers =>
    have hws := h.ws_of_handlers hhandlers hstate
    have hout : st.Outstanding id := Or.inr ⟨hhandlers, hstate⟩
    obtain ⟨hreconnect, hreconnectTimers⟩ := h.reconnectTimeout_eq_none hout
    have hconnected : st.connected = true ↔ (st.attempts id).readyState.errored = .open := by
      rw [hopen, h.connected_iff]
      constructor
      · rintro ⟨id', hid', hstate'⟩
        obtain rfl := Option.some.inj (hid'.symm.trans hws)
        exact hstate'
      · intro hstate'
        exact ⟨id, hws, hstate'⟩
    -- whether `isConnecting` was set or not
    have hmoved : ∀ isConnecting, { (st.setAttempt id { st.attempts id with
        readyState := (st.attempts id).readyState.errored }).clearConnectionTimeout id with
          isConnecting }.Sound := by
      intro isConnecting
      refine h.current hws hws ?_ (fun id' hne => setAttempt_of_ne hne _) ?_ ?_ ?_ ?_ rfl hreconnect
        hreconnectTimers rfl
      · exact (handlers_setAttempt _ _ _).trans hhandlers
      · intro id' hmem
        exact (List.mem_filter.mp hmem).1
      · have hself := readyState_setAttempt st id { st.attempts id with
          readyState := (st.attempts id).readyState.errored }
        exact hconnected.trans ⟨fun heq => hself.trans heq, fun heq => hself.symm.trans heq⟩
      · intro hnot
        exact absurd ((readyState_setAttempt _ _ _).symm.trans hnot) hconnecting
      · intro hmem
        exact absurd rfl (mem_clearConnectionTimeout.mp hmem).2
    rw [onerror]
    split
    · exact (hmoved false).settle id .rejected
    · exact hmoved _
  next hhandlers =>
    have hfalse := Bool.eq_false_iff.mpr hhandlers
    refine h.setDetached hfalse hstate hconnecting fun hopen' => ?_
    have hws := h.active id (Or.inr (hopen.mp hopen'))
    exact hhandlers (h.handlers id hws)

/-! ### Every run -/

theorem Sound.step {event : Event} (h : st.Sound) (htimely : st.Timely event)
    (hstep : Step config st event st') : st'.Sound := by
  cases event with
  | connect created =>
    obtain rfl := Option.some.inj hstep
    exact h.connect htimely
  | disconnect =>
    obtain rfl := Option.some.inj hstep
    exact h.disconnect
  | connectionTimeout id =>
    obtain ⟨hmem, heq⟩ := Option.ite_none_right_eq_some.mp hstep
    obtain rfl := Option.some.inj heq
    exact h.connectionTimedOut hmem
  | reconnectTimeout timer created =>
    obtain ⟨hmem, heq⟩ := Option.ite_none_right_eq_some.mp hstep
    obtain rfl := Option.some.inj heq
    exact h.reconnectTimedOut hmem created
  | opened id =>
    obtain ⟨hstate, heq⟩ := Option.ite_none_right_eq_some.mp hstep
    obtain rfl := Option.some.inj heq
    exact h.opened hstate
  | closed id =>
    obtain ⟨hstate, heq⟩ := Option.ite_none_right_eq_some.mp hstep
    obtain rfl := Option.some.inj heq
    exact h.closed hstate
  | errored id =>
    obtain ⟨hstate, heq⟩ := Option.ite_none_right_eq_some.mp hstep
    obtain rfl := Option.some.inj heq
    exact h.errored hstate
  | message id =>
    obtain ⟨_, heq⟩ := Option.ite_none_right_eq_some.mp hstep
    obtain rfl := Option.some.inj heq
    exact h

/-- A socket whose handlers are gone moves without the transport. -/
theorem undisturbed_setAttempt {attempt : Attempt} (hws : st.ws ≠ some id) :
    (st.setAttempt id attempt).toFields = st.toFields ∧
      ∀ id', st.ws = some id' → (st.setAttempt id attempt).attempts id' = st.attempts id' := by
  refine ⟨rfl, fun id' hid' => setAttempt_of_ne ?_ _⟩
  rintro rfl
  exact hws hid'

theorem Sound.undisturbed (h : st.Sound) (event : Event) : st.Undisturbed config event := by
  intro hstale st' hstep
  cases event with
  | connect created => exact hstale.elim
  | disconnect => exact hstale.elim
  | connectionTimeout id =>
    obtain ⟨hmem, heq⟩ := Option.ite_none_right_eq_some.mp hstep
    obtain rfl := Option.some.inj heq
    have hws : st.ws = none := by
      cases hws : st.ws with
      | none => rfl
      | some current =>
        obtain rfl := h.clean current hws id (Or.inl hmem)
        exact absurd hws hstale
    have hws' : (st.clearConnectionTimeout id).ws = none := hws
    simp only [WebSocketTransport.connectionTimedOut, hws', WebSocketTransport.settle]
    split
    · exact ⟨rfl, fun id' hid' => absurd (hid'.symm.trans hws) (Option.some_ne_none _)⟩
    · exact ⟨rfl, fun _ _ => rfl⟩
  | reconnectTimeout timer created =>
    obtain ⟨hmem, _⟩ := Option.ite_none_right_eq_some.mp hstep
    rw [h.reconnectTimers] at hmem
    exact absurd (Option.mem_toList.mp hmem) hstale
  | opened id =>
    obtain ⟨hstate, _⟩ := Option.ite_none_right_eq_some.mp hstep
    exact absurd (h.active id (Or.inl hstate)) hstale
  | closed id | errored id =>
    obtain ⟨hstate, heq⟩ := Option.ite_none_right_eq_some.mp hstep
    obtain rfl := Option.some.inj heq
    have hhandlers : ¬(st.attempts id).handlers = true := fun htrue =>
      hstale (h.ws_of_handlers htrue hstate)
    rw [socketEvent, if_neg hhandlers]
    exact undisturbed_setAttempt hstale
  | message id =>
    obtain ⟨_, heq⟩ := Option.ite_none_right_eq_some.mp hstep
    obtain rfl := Option.some.inj heq
    exact ⟨rfl, fun _ _ => rfl⟩

/-- A `connect` that is not timely leaves something of an earlier attempt outstanding. -/
theorem Sound.not_clean_of_not_timely {event : Event} (h : st.Sound) (htimely : ¬st.Timely event)
    (hstep : Step config st event st') : ¬st'.Clean := by
  intro hclean
  refine htimely ?_
  cases event with
  | connect created =>
    cases created with
    | false => trivial
    | true =>
      intro hconnected hconnecting id hout
      obtain rfl := Option.some.inj hstep
      have hnext : ∀ id, st.Outstanding id → id ≠ st.nextAttempt := by
        rintro id hout rfl
        obtain ⟨_, hhandlers, hnot⟩ := h.fresh st.nextAttempt le_rfl
        exact hout.elim hnot fun hand => absurd (hand.1.symm.trans hhandlers) (by decide)
      have hne := hnext id hout
      have heq : st.connect config true = { { st with
          reconnectTimers := []
          reconnectTimeout := none
          shouldReconnect := config.reconnect }.doConnect true with
            connectionPromise := some st.nextAttempt } := by
        simp [WebSocketTransport.connect, clearReconnectTimeout_eq h, hconnected, hconnecting]
      rw [heq] at hclean
      refine hne (hclean st.nextAttempt rfl id ?_)
      refine hout.imp (List.mem_cons_of_mem _) fun hand => ?_
      have hsame : (st.setAttempt st.nextAttempt ⟨.connecting, true, .pending⟩).attempts id =
          st.attempts id := setAttempt_of_ne hne _
      exact ⟨(congrArg Attempt.handlers hsame).trans hand.1, fun hclosed => hand.2
        ((congrArg Attempt.readyState hsame).symm.trans hclosed)⟩
  | _ => trivial

/-- **A superseded attempt does not disturb the current one**: nothing of an earlier attempt is
outstanding beside the current one if and only if all steps are timely, and then the transport is
consistent in every state and undisturbed by every step. -/
theorem visits_consistent (run : Run (Step config) init st) :
    (run.Visits Clean ↔ run.Takes Timely) ∧
      (run.Takes Timely → run.Visits Consistent ∧ run.Takes (Undisturbed config)) := by
  have hkeep : ∀ st event st', st.Sound → st.Timely event → Step config st event st' → st'.Sound :=
    fun _ _ _ h htimely hstep => h.step htimely hstep
  constructor
  · exact Run.visits_iff_takes (fun _ h => h.clean) hkeep
      (fun _ _ _ h htimely hstep => h.not_clean_of_not_timely htimely hstep) sound_init run
  · intro htimely
    have hsound := Run.visits_of_takes hkeep sound_init run htimely
    exact ⟨hsound.mono fun _ h => h.consistent,
      Run.takes_of_visits (fun _ event h => h.undisturbed event) hsound⟩

/-- After `disconnect` the timer of the first attempt is still set: it closes the socket of the
second one, so that the transport is connected while its socket is not open. -/
theorem not_consistent_timerAfterDisconnect :
    ∃ config st, ∃ run : Run (Step config) init st,
      ¬run.Visits Consistent ∧ ¬run.Takes (Undisturbed config) := by
  let events : List Event := [.connect true, .disconnect, .connect true, .opened 1]
  have hstate : (events ++ [Event.connectionTimeout 0]).foldlM (step? {}) init |>.any (fun st =>
      st.connected ∧ st.ws = some 1 ∧ (st.attempts 1).readyState = .closing) := by decide
  have hbefore : (events.foldlM (step? {}) init).any (fun st =>
      st.ws = some 1 ∧ (st.attempts 1).readyState = .open ∧
        (st.step? {} (.connectionTimeout 0)).any fun st' =>
          (st'.attempts 1).readyState = .closing) := by decide
  obtain ⟨st, hst, hdata⟩ := (Option.any_eq_true _ _).mp hstate
  obtain ⟨hconnected, hws, hclosing⟩ := of_decide_eq_true hdata
  obtain ⟨run, hlabels⟩ := Run.exists_labels_eq hst
  refine ⟨{}, st, run, fun h => ?_, fun h => ?_⟩
  · obtain ⟨id, hid, hopen⟩ := h.last.connected_iff.mp hconnected
    obtain rfl := Option.some.inj (hws.symm.trans hid)
    exact absurd (hclosing.symm.trans hopen) ReadyState.noConfusion
  · obtain ⟨before, hevents, hdata⟩ := (Option.any_eq_true _ _).mp hbefore
    obtain ⟨hws, hopen, hany⟩ := of_decide_eq_true hdata
    obtain ⟨after, hstep, hclosing⟩ := (Option.any_eq_true _ _).mp hany
    have hundisturbed : before.Undisturbed {} (.connectionTimeout 0) :=
      h.of_labels hlabels hevents
    have hstale : before.Stale (.connectionTimeout 0) := by
      rw [Stale, hws]
      decide
    obtain ⟨_, hsame⟩ := hundisturbed hstale after hstep
    have hstate := congrArg Attempt.readyState (hsame 1 hws)
    rw [hopen, of_decide_eq_true hclosing] at hstate
    cases hstate

end N8n.WebSocketTransport
