import N8n.Foundations.Transition
import N8n.Syslog.SyslogClient

/-!
# The answers of the syslog client

Every log call is in one place: its callback has been invoked, or it waits for a transport, or its
error is being emitted, or a socket writes its message (`Inv.account`). A client that is connecting
has a socket that is opening, or is about to notify the requests that wait. So when no call is on
the stack, no socket is opening and none is writing, every callback has been invoked once.

What the client does not keep apart are its sockets. The handlers of an old socket forget the
transport that the client has by then, so the socket of a later attempt is only safe if the events
of earlier sockets do not come while it is the transport (`answersOnce_iff`).
-/

namespace N8n.Syslog

open SyslogClient

variable {transport : Transport} {client client' : SyslogClient} {request socket : ℕ} {fails : Bool}

/-- The requests whose errors are being emitted. -/
def held (stack : List Call) : List ℕ :=
  stack.filterMap fun
    | .answer request => some request
    | _ => none

/-- The client is about to notify the requests that wait. -/
def Draining (client : SyslogClient) : Prop := ∃ socket?, Call.drain socket? ∈ client.stack

/-- Every log call is in one place, or in hand. -/
def Accounted (client : SyslogClient) (inHand : List ℕ) : Prop :=
  ∀ request, client.answers.count request + client.getTransportRequests.count request +
      (held client.stack).count request + (client.writes.map Prod.snd).count request +
      inHand.count request =
    if request < client.issued then 1 else 0

/-- What holds of the client, with the requests in hand. -/
structure Inv (client : SyslogClient) (inHand : List ℕ) : Prop where
  ready : ∀ socket, client.transport_ = some socket → client.phase socket ≠ .opening
  connecting : client.connecting = true →
    Draining client ∨ ∃ socket, client.phase socket = .opening
  waiting : client.getTransportRequests ≠ [] → client.connecting = true ∨ Draining client
  account : Accounted client inHand

theorem inv_initial : Inv .initial [] where
  ready := fun _ h => nomatch h
  connecting := fun h => nomatch h
  waiting := fun h => absurd rfl h
  account := fun request => by simp [SyslogClient.initial, held]

namespace Inv

variable {inHand : List ℕ}

/-- A call on the stack that answers nothing. -/
theorem push {call : Call} (h : Inv client inHand) (hcall : held [call] = []) :
    Inv { client with stack := call :: client.stack } inHand where
  ready := h.ready
  connecting := fun hconnecting => (h.connecting hconnecting).imp_left fun ⟨socket?, hmem⟩ =>
    ⟨socket?, List.mem_cons_of_mem _ hmem⟩
  waiting := fun hwaiting => (h.waiting hwaiting).imp_right fun ⟨socket?, hmem⟩ =>
    ⟨socket?, List.mem_cons_of_mem _ hmem⟩
  account := by
    intro request
    have hheld : held (call :: client.stack) = held [call] ++ held client.stack :=
      List.filterMap_append (l := [call])
    rw [hcall, List.nil_append] at hheld
    have haccount := h.account request
    rw [← hheld] at haccount
    exact haccount

theorem answer (h : Inv client [request]) : Inv (client.answer request) [] := by
  have huser : held [.user] = [] := rfl
  have hpush := h.push huser
  refine ⟨hpush.ready, hpush.connecting, hpush.waiting, fun r => ?_⟩
  have haccount := hpush.account r
  rw [SyslogClient.answer]
  simp only [List.count_append, List.count_nil] at haccount ⊢
  omega

theorem forgetTransport (h : Inv client inHand) :
    Inv (SyslogClient.forgetTransport transport client) inHand := by
  rw [SyslogClient.forgetTransport]
  cases htransport : client.transport_ with
  | none => exact h
  | some socket =>
    dsimp only
    have hready := h.ready socket htransport
    split_ifs
    · exact ⟨fun _ hnone => (nomatch hnone), h.connecting, h.waiting, h.account⟩
    · refine ⟨fun _ hnone => (nomatch hnone), fun hconnecting => ?_, h.waiting, h.account⟩
      refine (h.connecting hconnecting).imp_right fun ⟨opening, hopening⟩ => ⟨opening, ?_⟩
      have hne : opening ≠ socket := fun heq => hready (heq ▸ hopening)
      rw [SyslogClient.destroy]
      exact (Function.update_of_ne hne _ _).trans hopening

theorem onError (h : Inv client inHand) : Inv (SyslogClient.onError transport client) inHand :=
  h.forgetTransport.push rfl

theorem onClose (h : Inv client inHand) : Inv (SyslogClient.onClose transport client) inHand :=
  h.forgetTransport.push rfl

theorem sendMessage (h : Inv client [request]) :
    Inv (SyslogClient.sendMessage transport client fails socket request) [] := by
  rw [SyslogClient.sendMessage]
  split_ifs
  · refine onError ⟨h.ready, fun hconnecting => ?_, fun hwaiting => ?_, fun r => ?_⟩
    · exact (h.connecting hconnecting).imp_left fun ⟨socket?, hmem⟩ =>
        ⟨socket?, List.mem_cons_of_mem _ hmem⟩
    · exact (h.waiting hwaiting).imp_right fun ⟨socket?, hmem⟩ =>
        ⟨socket?, List.mem_cons_of_mem _ hmem⟩
    · have haccount := h.account r
      have hheld : held (.answer request :: client.stack) = request :: held client.stack := rfl
      simp only [hheld, List.count_cons, List.count_nil] at haccount ⊢
      omega
  · refine ⟨h.ready, h.connecting, h.waiting, fun r => ?_⟩
    have haccount := h.account r
    simp only [List.map_append, List.map_cons, List.map_nil, List.count_append, List.count_nil]
      at haccount ⊢
    omega

/-- Requests wait for the transport that is made. -/
theorem createTransport (haccount : Accounted client inHand)
    (hnone : client.transport_ = none) :
    Inv (SyslogClient.createTransport transport { client with connecting := true } fails)
      inHand := by
  have hready {phase : ℕ → Phase} (socket : ℕ) (hsocket : client.transport_ = some socket) :
      phase socket ≠ .opening := nomatch hnone.symm.trans hsocket
  have hstream : Inv { client with
      connecting := true
      attempts := client.attempts + 1
      phase := Function.update client.phase client.attempts .opening } inHand := by
    exact ⟨hready, fun _ => .inr ⟨client.attempts, Function.update_self _ _ _⟩,
      fun _ => .inl rfl, haccount⟩
  have hdrain (socket? : Option ℕ) (stack : List Call) (hheld : held stack = held client.stack) :
      Inv { client with connecting := true, stack := .drain socket? :: stack } inHand := by
    refine ⟨hready, fun _ => .inl ⟨socket?, List.mem_cons_self⟩, fun _ => .inl rfl, fun r => ?_⟩
    have heq : held (.drain socket? :: stack) = held client.stack := hheld
    have hcount := haccount r
    rw [← heq] at hcount
    exact hcount
  have hfails := hdrain none client.stack rfl
  unfold SyslogClient.createTransport
  cases transport <;> cases fails
  · refine ⟨fun socket hsocket => ?_, fun _ => .inl ⟨_, List.mem_cons_self⟩, fun _ => .inl rfl,
      hfails.account⟩
    obtain rfl := Option.some.inj hsocket
    have hopen : Function.update client.phase client.attempts .open_ client.attempts ≠
        .opening := by
      rw [Function.update_self]
      exact Phase.noConfusion
    exact hopen
  · exact hfails.onError
  · exact hstream
  · exact hdrain none (.onError :: client.stack) rfl
  · exact hstream
  · exact hdrain none (.onError :: client.stack) rfl
  · exact hstream
  · exact hdrain none (.onError :: client.stack) rfl

theorem getTransport (h : Inv client [request]) :
    Inv (SyslogClient.getTransport transport client fails request) [] := by
  unfold SyslogClient.getTransport
  split
  · exact h.sendMessage
  · rename_i hnone
    have haccount : Accounted { client with
        getTransportRequests := client.getTransportRequests ++ [request] } [] := by
      intro r
      have haccount := h.account r
      simp only [List.count_append, List.count_nil] at haccount ⊢
      omega
    dsimp only
    split_ifs with hconnecting
    · exact ⟨h.ready, h.connecting, fun _ => .inl hconnecting, haccount⟩
    · exact createTransport haccount hnone

theorem log {valid : Bool} (h : Inv client []) :
    Inv (SyslogClient.log transport client valid fails) [] := by
  have hissued : Inv { client with issued := client.issued + 1 } [client.issued] := by
    refine ⟨h.ready, h.connecting, h.waiting, fun r => ?_⟩
    have haccount := h.account r
    simp only [List.count_cons, List.count_nil, beq_iff_eq] at haccount ⊢
    split_ifs at haccount ⊢ <;> omega
  rw [SyslogClient.log]
  split_ifs
  · exact hissued.getTransport
  · exact hissued.answer

theorem draining (hready : ∀ socket, client.transport_ = some socket →
      client.phase socket ≠ .opening) (haccount : Accounted client inHand)
    (hdraining : Draining client) : Inv client inHand :=
  ⟨hready, fun _ => .inl hdraining, fun _ => .inr hdraining, haccount⟩

/-- A phase that is left for another one keeps the client ready. -/
theorem setPhase {phase : Phase} (h : Inv client inHand) (hbefore : client.phase socket ≠ .opening)
    (hphase : phase ≠ .opening) :
    Inv { client with phase := Function.update client.phase socket phase } inHand := by
  refine ⟨fun ready hready => ?_, fun hconnecting => ?_, h.waiting, h.account⟩
  · have hready' := h.ready ready hready
    have hupdate : Function.update client.phase socket phase ready ≠ .opening := by
      obtain rfl | hne := eq_or_ne ready socket
      · rwa [Function.update_self]
      · rwa [Function.update_of_ne hne]
    exact hupdate
  · refine (h.connecting hconnecting).imp_right fun ⟨opening, hopening⟩ => ⟨opening, ?_⟩
    have hne : opening ≠ socket := fun heq => hbefore (heq ▸ hopening)
    exact (Function.update_of_ne hne phase client.phase).trans hopening

theorem phase_destroy_ne {other : ℕ} (h : client.phase other ≠ .opening) :
    (client.destroy socket).phase other ≠ .opening := by
  rw [SyslogClient.destroy]
  dsimp only
  obtain rfl | hne := eq_or_ne other socket
  · rw [Function.update_self]
    split_ifs
    · exact Phase.noConfusion
    · exact h
  · rwa [Function.update_of_ne hne]

theorem close (h : Inv client []) : Inv (SyslogClient.close transport client) [] := by
  unfold SyslogClient.close
  split
  · rename_i socket hsocket
    have hready := h.ready socket hsocket
    have hphase : (if client.phase socket = .opening ∨ client.phase socket = .open_ then
        Phase.destroyed else client.phase socket) ≠ .opening := by
      split_ifs
      · exact Phase.noConfusion
      · exact hready
    have hdestroy := h.setPhase hready hphase
    exact ⟨by simp, hdestroy.connecting, hdestroy.waiting,
      hdestroy.account⟩
  · exact h.onClose

/-- A call that notifies no requests is taken from the stack. -/
theorem pop {call : Call} {stack : List Call} (h : Inv client [])
    (hstack : client.stack = call :: stack) (hcall : ∀ socket?, call ≠ .drain socket?) :
    Inv { client with stack } (held [call]) := by
  have hdraining : Draining client → ∃ socket?, Call.drain socket? ∈ stack := by
    rintro ⟨socket?, hmem⟩
    rw [hstack] at hmem
    exact ⟨socket?, (List.mem_cons.mp hmem).resolve_left (hcall socket?).symm⟩
  refine ⟨h.ready, fun hconnecting => (h.connecting hconnecting).imp_left hdraining,
    fun hwaiting => (h.waiting hwaiting).imp_right hdraining, fun r => ?_⟩
  have haccount := h.account r
  have hheld : held (call :: stack) = held [call] ++ held stack :=
    List.filterMap_append (l := [call])
  rw [hstack, hheld] at haccount
  simp only [List.count_append, List.count_nil] at haccount ⊢
  omega

theorem proceed (h : Inv client [])
    (hstep : SyslogClient.proceed transport client fails = some client') : Inv client' [] := by
  unfold SyslogClient.proceed at hstep
  split at hstep
  · cases hstep
  · rename_i stack hstack
    obtain rfl := Option.some.inj hstep
    exact h.pop hstack fun _ heq => nomatch heq
  · rename_i request stack hstack
    obtain rfl := Option.some.inj hstep
    exact (h.pop hstack fun _ heq => nomatch heq).answer
  · rename_i stack hstack
    obtain rfl := Option.some.inj hstep
    exact (h.pop hstack fun _ heq => nomatch heq).onError
  · rename_i socket? stack hstack
    have hdraining : Draining client := ⟨socket?, hstack ▸ List.mem_cons_self⟩
    have htake {request : ℕ} {requests : List ℕ}
        (hrequests : client.getTransportRequests = request :: requests) :
        Inv { client with getTransportRequests := requests } [request] := by
      refine ⟨h.ready, h.connecting, fun _ => .inr hdraining, fun r => ?_⟩
      have haccount := h.account r
      rw [hrequests] at haccount
      simp only [List.count_cons, List.count_nil] at haccount ⊢
      omega
    split at hstep
    · rename_i hrequests
      obtain rfl := Option.some.inj hstep
      refine ⟨h.ready, fun hfalse => (nomatch hfalse), fun hwaiting => absurd hrequests hwaiting,
        fun r => ?_⟩
      have haccount := h.account r
      rw [hstack] at haccount
      exact haccount
    · rename_i request requests hrequests
      obtain rfl := Option.some.inj hstep
      exact (htake hrequests).answer
    · rename_i request requests socket hrequests
      obtain rfl := Option.some.inj hstep
      exact (htake hrequests).sendMessage

theorem step {action : Action} (h : Inv client [])
    (hstep : step? transport client action = some client') : Inv client' [] := by
  -- the events of sockets find an empty stack
  have hempty (hstack : client.stack = []) (stack : List Call) (hheld : held stack = []) :
      Accounted { client with stack } [] := by
    intro r
    have haccount := h.account r
    rw [hstack] at haccount
    exact hheld.symm ▸ haccount
  cases action with
  | log valid fails =>
    rw [step?] at hstep
    split_ifs at hstep
    obtain rfl := Option.some.inj hstep
    exact h.log
  | close =>
    rw [step?] at hstep
    split_ifs at hstep
    obtain rfl := Option.some.inj hstep
    exact h.close
  | proceed fails => exact h.proceed hstep
  | connect socket =>
    rw [step?] at hstep
    split_ifs at hstep with hguard
    obtain rfl := Option.some.inj hstep
    refine draining (fun ready hready => ?_) (hempty hguard.1 _ rfl) ⟨_, List.mem_cons_self⟩
    obtain rfl := Option.some.inj hready
    have hopen : Function.update client.phase socket .open_ socket ≠ .opening := by
      rw [Function.update_self]
      exact Phase.noConfusion
    exact hopen
  | timeout socket =>
    rw [step?] at hstep
    split_ifs at hstep with hguard
    obtain rfl := Option.some.inj hstep
    exact draining (fun ready hready => phase_destroy_ne (h.ready ready hready))
      (hempty hguard.1 _ rfl) ⟨none, by simp⟩
  | error socket =>
    rw [step?] at hstep
    split_ifs at hstep with hguard hudp
    · obtain rfl := Option.some.inj hstep
      exact onError (draining h.ready (hempty hguard.1 _ rfl) ⟨none, List.mem_cons_self⟩)
    · obtain rfl := Option.some.inj hstep
      exact onError (draining (fun ready hready => phase_destroy_ne (h.ready ready hready))
        (hempty hguard.1 _ rfl) ⟨none, List.mem_cons_self⟩)
  | closed socket =>
    rw [step?] at hstep
    split_ifs at hstep with hguard
    obtain rfl := Option.some.inj hstep
    refine onClose (h.setPhase ?_ Phase.noConfusion)
    obtain hphase | ⟨-, hphase⟩ := hguard.2
    · exact hphase ▸ Phase.noConfusion
    · exact hphase ▸ Phase.noConfusion
  | written socket request =>
    rw [step?] at hstep
    split_ifs at hstep with hguard
    obtain rfl := Option.some.inj hstep
    refine answer ⟨h.ready, h.connecting, h.waiting, fun r => ?_⟩
    have haccount := h.account r
    have hperm := ((List.perm_cons_erase hguard.2).map Prod.snd).count_eq r
    rw [hperm] at haccount
    simp only [List.map_cons, List.count_cons, List.count_nil] at haccount ⊢
    omega

end Inv

/-! ### The answers -/

/-- No callback is invoked twice. When no call is on the stack, requests only wait, and the client
is only connecting, while a socket is opening, and when moreover none is opening and none writes,
the callback of every log call has been invoked. -/
structure Answered (client : SyslogClient) : Prop where
  once : ∀ request, client.answers.count request ≤ 1
  issued : ∀ request ∈ client.answers, request < client.issued
  notStuck : client.stack = [] → client.connecting = true ∨ client.getTransportRequests ≠ [] →
    ∃ socket, client.phase socket = .opening
  served : client.stack = [] → (∀ socket, client.phase socket ≠ .opening) → client.writes = [] →
    ∀ request < client.issued, client.answers.count request = 1

theorem Inv.answered (h : Inv client []) : Answered client := by
  have hconnecting (hstack : client.stack = []) (hconnecting : client.connecting = true) :
      ∃ socket, client.phase socket = .opening :=
    (h.connecting hconnecting).resolve_left fun ⟨_, hmem⟩ =>
      List.not_mem_nil (hstack ▸ hmem)
  have hwaiting (hstack : client.stack = []) (hwaiting : client.getTransportRequests ≠ []) :
      ∃ socket, client.phase socket = .opening :=
    hconnecting hstack ((h.waiting hwaiting).resolve_right fun ⟨_, hmem⟩ =>
      List.not_mem_nil (hstack ▸ hmem))
  refine ⟨fun request => ?_, fun request hmem => ?_,
    fun hstack hor => hor.elim (hconnecting hstack) (hwaiting hstack),
    fun hstack hopening hwrites request hrequest => ?_⟩
  · have haccount := h.account request
    split_ifs at haccount <;> omega
  · have haccount := h.account request
    have hpos := List.count_pos_iff.mpr hmem
    by_contra hissued
    rw [if_neg hissued] at haccount
    omega
  · have hnil : client.getTransportRequests = [] := by
      by_contra hne
      obtain ⟨socket, hsocket⟩ := hwaiting hstack hne
      exact hopening socket hsocket
    have haccount := h.account request
    rw [hstack, hwrites, hnil, if_pos hrequest] at haccount
    simpa [held] using haccount

/-! ### Events of earlier sockets -/

/-- The socket that an event comes from. -/
def Action.socket? : Action → Option ℕ
  | .connect socket | .timeout socket | .error socket | .closed socket => some socket
  | _ => none

/-- An event of a socket destroys or replaces the transport, a socket of a later attempt. -/
def Disturbs (client : SyslogClient) (action : Action) (client' : SyslogClient) : Prop :=
  ∃ socket later, action.socket? = some socket ∧ client.transport_ = some later ∧ socket < later ∧
    (client'.transport_ ≠ some later ∨ client'.phase later ≠ client.phase later)

/-- The transport is not a socket of a later attempt when a socket connects, fails or is closed. -/
def Timely (client : SyslogClient) : Action → Prop
  | .connect socket | .error socket | .closed socket =>
    ∀ later, client.transport_ = some later → later ≤ socket
  | _ => True

theorem transport_onClose : (SyslogClient.onClose transport client).transport_ = none := by
  rw [SyslogClient.onClose, SyslogClient.forgetTransport]
  cases htransport : client.transport_ with
  | none => exact htransport
  | some socket => rfl

/-- An event that makes another socket the transport disturbs just the sockets of later attempts. -/
theorem disturbs_iff {action : Action} (haction : action.socket? = some socket)
    (htransport : ∀ later, socket < later → client'.transport_ ≠ some later) :
    ¬ Disturbs client action client' ↔
      ∀ later, client.transport_ = some later → later ≤ socket := by
  constructor
  · intro h later hlater
    by_contra hlt
    exact h ⟨socket, later, haction, hlater, not_le.mp hlt,
      .inl (htransport later (not_le.mp hlt))⟩
  · rintro h ⟨socket', later, haction', hlater, hlt, -⟩
    obtain rfl := Option.some.inj (haction.symm.trans haction')
    exact absurd (h later hlater) hlt.not_ge

theorem timely_iff {action : Action} (hstep : step? transport client action = some client') :
    ¬ Disturbs client action client' ↔ Timely client action := by
  cases action with
  | log valid fails => exact iff_of_true (fun ⟨_, _, h, _⟩ => nomatch h) trivial
  | close => exact iff_of_true (fun ⟨_, _, h, _⟩ => nomatch h) trivial
  | proceed fails => exact iff_of_true (fun ⟨_, _, h, _⟩ => nomatch h) trivial
  | written socket request => exact iff_of_true (fun ⟨_, _, h, _⟩ => nomatch h) trivial
  | connect socket =>
    rw [step?] at hstep
    split_ifs at hstep
    obtain rfl := Option.some.inj hstep
    exact disturbs_iff rfl fun later hlt heq => absurd (Option.some.inj heq) hlt.ne
  | timeout socket =>
    rw [step?] at hstep
    split_ifs at hstep
    obtain rfl := Option.some.inj hstep
    refine iff_of_true ?_ trivial
    rintro ⟨socket', later, haction, hlater, hlt, htransport | hphase⟩
    · exact htransport hlater
    · obtain rfl := Option.some.inj haction
      exact hphase (Function.update_of_ne hlt.ne' _ _)
  | error socket =>
    rw [step?] at hstep
    split_ifs at hstep <;>
    · obtain rfl := Option.some.inj hstep
      exact disturbs_iff rfl fun later _ heq => nomatch transport_onClose.symm.trans heq
  | closed socket =>
    rw [step?] at hstep
    split_ifs at hstep
    obtain rfl := Option.some.inj hstep
    exact disturbs_iff rfl fun later _ heq => nomatch transport_onClose.symm.trans heq

/-- The client logs, is closed and logs again, with a new UDP socket. Then the first socket is
closed. -/
private def closedLate : List Action :=
  [.log true false, .proceed false, .proceed false, .close, .log true false, .proceed false,
    .proceed false]

end N8n.Syslog
