import N8n.Foundations.History
import N8n.Foundations.InsertionMap
import N8n.Foundations.Transition

/-!
# The command channel

Instances publish commands into a channel of Redis, and every instance receives all of them. A
subscriber drops the commands that are not for its instance and emits the others on the event bus:
at once, or through a handler of the event's name that is debounced. A debounced handler is called
with its last arguments, when some time has passed without another call.

The subscriber has a log of what it has received and emitted. Its property `Faithful` holds in a
run exactly when every command is `Timely`: it does not push another one with a different payload
out of the debounced handler.
-/

namespace N8n

namespace PubSub

abbrev HostId := String

/-! ### Messages -/

/-- The commands of `PubSubCommandMap`. -/
inductive CommandName where
  | reloadLicense
  | restartEventBus
  | reloadExternalSecretsProviders
  | reloadOverwriteCredentials
  | reloadOidcConfig
  | reloadSamlConfig
  | reloadSsoProvisioningConfiguration
  | reloadSourceControlConfig
  | reloadMcpRegistry
  | communityPackageInstall
  | communityPackageUpdate
  | communityPackageUninstall
  | getWorkerId
  | getWorkerStatus
  | addWebhooksTriggersAndPollers
  | removeTriggersAndPollers
  | displayWorkflowActivation
  | displayWorkflowDeactivation
  | displayWorkflowActivationError
  | relayExecutionLifecycleEvent
  | clearTestWebhooks
  | relayChatStreamEvent
  | relayChatHumanMessage
  | relayChatMessageEdit
  | cancelTestRun
  | cancelCollection
  | agentChatIntegrationChanged
  | agentConfigChanged
  deriving DecidableEq, Repr

/-- Commands that are sent to the sender as well. -/
def selfSendCommands : List CommandName :=
  [.addWebhooksTriggersAndPollers, .removeTriggersAndPollers]

/-- Commands that are not debounced when received. -/
def immediateCommands : List CommandName :=
  [.addWebhooksTriggersAndPollers, .removeTriggersAndPollers, .relayExecutionLifecycleEvent,
    .relayChatStreamEvent, .cancelTestRun]

inductive EventName where
  | command (command : CommandName)
  | responseToGetWorkerStatus
  deriving DecidableEq, Repr

/-- What is published and received: a command, or the response of a worker. Fields that a message
does not have are `none`. -/
structure Message (P : Type) where
  name : EventName
  payload : Option P := none
  senderId : Option HostId := none
  targets : Option (List HostId) := none
  selfSend : Option Bool := none
  debounce : Option Bool := none
  deriving DecidableEq, Repr

/-- A command as it is given to the publisher. -/
structure Command (P : Type) where
  command : CommandName
  payload : Option P := none
  senderId : Option HostId := none
  targets : Option (List HostId) := none
  selfSend : Option Bool := none
  debounce : Option Bool := none

/-- `publishCommand(msg)`: what it sends in queue mode, where the publisher decides the fields of
the sender, of sending to oneself and of debouncing. -/
def publishCommand {P : Type} (hostId : HostId) (msg : Command P) : Message P where
  name := .command msg.command
  payload := msg.payload
  targets := msg.targets
  senderId := some hostId
  selfSend := some (msg.command ∈ selfSendCommands)
  debounce := some (msg.command ∉ immediateCommands)

/-- The response of a worker as it is given to the publisher, which sends it as it is. -/
structure WorkerResponse (P : Type) where
  payload : P
  senderId : HostId
  targets : Option (List HostId) := none
  debounce : Option Bool := none

def publishWorkerResponse {P : Type} (msg : WorkerResponse P) : Message P where
  name := .responseToGetWorkerStatus
  payload := some msg.payload
  senderId := some msg.senderId
  targets := msg.targets
  debounce := msg.debounce

/-! ### The subscriber -/

/-- A debounced handler: the arguments that it is to be called with, and the time of the last
call. -/
structure DebouncedHandler (P : Type) where
  lastArgs : Option (Message P)
  lastCallTime : ℕ
  deriving DecidableEq, Repr

/-- How long a debounced handler waits, in milliseconds. -/
def debounceWait : ℕ := 300

/-- An entry of the log. -/
inductive Entry (P : Type) where
  | received (msg : Message P)
  /-- Emitted on the event bus, under the name of the message and with its payload. -/
  | emitted (msg : Message P)
  deriving DecidableEq, Repr

end PubSub

open PubSub in
structure Subscriber (P : Type) where
  now : ℕ := 0
  debouncedHandlers : InsertionMap EventName (DebouncedHandler P) := .empty
  log : List (Entry P) := []
  deriving DecidableEq

namespace Subscriber

open PubSub

variable {P : Type} (hostId : HostId) (st : Subscriber P)

def logged (entry : Entry P) : Subscriber P := { st with log := st.log ++ [entry] }

/-- `handlerFn(msg)`. -/
def handlerFn (msg : Message P) : Subscriber P := st.logged (.emitted msg)

/-- `parseMessage(str, channel)` gives the message, or drops it. -/
def parseMessage (msg : Message P) : Option (Message P) :=
  match msg.name with
  | .command _ =>
    if msg.selfSend.getD false = false ∧
        (msg.senderId = some hostId ∨ msg.targets.any fun targets => hostId ∉ targets) then none
    else some msg
  | .responseToGetWorkerStatus => some msg

/-- The handler of a message of the channels. -/
def onMessage (received : Message P) : Subscriber P :=
  let st := st.logged (.received received)
  match parseMessage hostId received with
  | none => st
  | some msg =>
    if msg.debounce.getD false then
      { st with
        debouncedHandlers := st.debouncedHandlers.set msg.name
          { lastArgs := some msg, lastCallTime := st.now } }
    else st.handlerFn msg

/-- The message that the debounced handler of a name is to be called with. -/
def pending? (name : EventName) : Option (Message P) :=
  (st.debouncedHandlers.get? name).bind DebouncedHandler.lastArgs

/-! ### Steps -/

inductive Event (P : Type) where
  /-- A command that an instance has published arrives. -/
  | command (publisher : HostId) (msg : Command P)
  | workerResponse (msg : WorkerResponse P)
  | elapses (ms : ℕ)
  /-- The timer of the debounced handler of a name fires. -/
  | fires (name : EventName)

def step? : Event P → Option (Subscriber P)
  | .command publisher msg => some (st.onMessage hostId (publishCommand publisher msg))
  | .workerResponse msg => some (st.onMessage hostId (publishWorkerResponse msg))
  | .elapses ms => some { st with now := st.now + ms }
  | .fires name =>
    match st.debouncedHandlers.get? name with
    | some { lastArgs := some msg, lastCallTime } =>
      if lastCallTime + debounceWait ≤ st.now then
        some ({ st with
          debouncedHandlers := st.debouncedHandlers.set name
            { lastArgs := none, lastCallTime } }.handlerFn msg)
      else none
    | _ => none

abbrev Step (st : Subscriber P) (event : Event P) (st' : Subscriber P) : Prop :=
  st.step? hostId event = some st'

/-- A subscriber that has received nothing. -/
def start : Subscriber P := {}

/-! ### No distinct command is lost -/

/-- The instance is an addressee of a command: the command is not its own, or sent to the sender as
well, and the targets, if any, have the instance. -/
structure Addressed (msg : Message P) : Prop where
  sender : msg.senderId = some hostId → msg.selfSend = some true
  targets : ∀ targets, msg.targets = some targets → hostId ∈ targets

/-- An emission does for a message: it has the same name and payload. -/
def Covers (emission msg : Message P) : Prop :=
  emission.name = msg.name ∧ emission.payload = msg.payload

/-- A command that is received and addressed to the instance is emitted later, or is to be emitted
by its debounced handler. -/
def Answered (entry : Entry P) (later : List (Entry P)) : Prop :=
  ∀ msg command, entry = .received msg → msg.name = .command command → Addressed hostId msg →
    (∃ emission, .emitted emission ∈ later ∧ Covers emission msg) ∨
      ∃ emission, st.pending? msg.name = some emission ∧ Covers emission msg

/-- No distinct command is lost, and only commands for the instance are emitted. -/
structure Faithful : Prop where
  answered : EachBefore (st.Answered hostId) st.log
  addressed : ∀ msg command, .emitted msg ∈ st.log → msg.name = .command command →
    Addressed hostId msg

/-- The condition on a step: a command that is sent to the sender as well has the instance among
its targets, and a debounced command that is for the instance finds no other payload in the
debounced handler. -/
def Timely : Event P → Prop
  | .command publisher msg =>
    if msg.command ∈ selfSendCommands then ∀ targets, msg.targets = some targets → hostId ∈ targets
    else msg.command ∉ immediateCommands → Addressed hostId (publishCommand publisher msg) →
      ∀ last, st.pending? (.command msg.command) = some last → last.payload = msg.payload
  | _ => True

/-- Nothing is left to be emitted. -/
def Settled : Prop := ∀ name, st.pending? name = none

variable {hostId st} {st' : Subscriber P}

/-- When nothing is left to be emitted, every command has been. -/
theorem Faithful.exists_emitted (h : st.Faithful hostId) (hsettled : st.Settled)
    {earlier later : List (Entry P)} {msg : Message P} {command : CommandName}
    (hlog : st.log = earlier ++ .received msg :: later) (hname : msg.name = .command command)
    (haddressed : Addressed hostId msg) : ∃ emission, .emitted emission ∈ later ∧
      Covers emission msg := by
  obtain hemitted | ⟨emission, hpending, -⟩ := h.answered _ _ _ hlog msg command rfl hname
    haddressed
  · exact hemitted
  · exact nomatch (hsettled msg.name).symm.trans hpending

/-! ### The invariant -/

variable (hostId st) in
/-- What the debounced handler of a command is to be called with: it has been received, and nothing
of its name has been emitted since. -/
structure PendingOk (command : CommandName) (msg : Message P) : Prop where
  debounced : command ∉ immediateCommands
  addressed : Addressed hostId msg
  received : ∃ earlier later, st.log = earlier ++ .received msg :: later ∧
    ∀ emission, .emitted emission ∈ later → emission.name ≠ .command command

variable (hostId st) in
/-- The invariant. -/
structure Sound : Prop where
  faithful : st.Faithful hostId
  named : ∀ name msg, st.pending? name = some msg → msg.name = name
  pendingOk : ∀ command msg, st.pending? (.command command) = some msg →
    st.PendingOk hostId command msg

theorem sound_start : (start : Subscriber P).Sound hostId where
  faithful :=
    { answered := EachBefore.nil
      addressed := fun _ _ h => absurd h List.not_mem_nil }
  named := fun _ msg hpending => absurd hpending (Option.some_ne_none msg).symm
  pendingOk := fun _ msg hpending => absurd hpending (Option.some_ne_none msg).symm

theorem pending?_set (st : Subscriber P) (handler : DebouncedHandler P) (name name' : EventName) :
    ({ st with debouncedHandlers := st.debouncedHandlers.set name handler }.pending? name') =
      if name' = name then handler.lastArgs else st.pending? name' := by
  rw [pending?, InsertionMap.get?_set]
  split
  · rfl
  · rfl

theorem Answered.logged {entry x : Entry P} {later : List (Entry P)}
    (h : st.Answered hostId entry later) : (st.logged x).Answered hostId entry (later ++ [x]) := by
  intro msg command hentry hname haddressed
  obtain ⟨emission, hmem, hcovers⟩ | hpending := h msg command hentry hname haddressed
  · exact Or.inl ⟨emission, List.mem_append_left _ hmem, hcovers⟩
  · exact Or.inr hpending

theorem mem_emitted_logged {x : Entry P} {msg : Message P} (h : .emitted msg ∈ (st.logged x).log) :
    .emitted msg ∈ st.log ∨ x = .emitted msg := by
  obtain hold | hnew := List.mem_append.mp h
  · exact Or.inl hold
  · exact Or.inr (List.mem_singleton.mp hnew).symm

/-- What is pending, after one more entry of the log. -/
theorem PendingOk.logged {x : Entry P} {command : CommandName} {msg : Message P}
    (h : st.PendingOk hostId command msg)
    (hx : ∀ emission, x = .emitted emission → emission.name ≠ .command command) :
    (st.logged x).PendingOk hostId command msg where
  debounced := h.debounced
  addressed := h.addressed
  received := by
    obtain ⟨earlier, later, hlog, hlater⟩ := h.received
    refine ⟨earlier, later ++ [x], ?_, ?_⟩
    · rw [Subscriber.logged, hlog, List.append_assoc, List.cons_append]
    · intro emission hmem
      obtain hold | hnew := List.mem_append.mp hmem
      · exact hlater emission hold
      · exact hx emission (List.mem_singleton.mp hnew).symm

/-- Something is received that is not for the instance, or no command. -/
theorem Sound.received (h : st.Sound hostId) {msg : Message P}
    (hnot : ∀ command, msg.name = .command command → ¬Addressed hostId msg) :
    (st.logged (.received msg)).Sound hostId where
  faithful :=
    { answered := by
        refine h.faithful.answered.concat (fun _ _ _ h => h.logged) ?_
        rintro _ command ⟨⟩ hname haddressed
        exact absurd haddressed (hnot command hname)
      addressed := by
        intro other command hmem hname
        obtain hold | hnew := mem_emitted_logged hmem
        · exact h.faithful.addressed other command hold hname
        · exact nomatch hnew }
  named := h.named
  pendingOk := by
    intro command other hpending
    refine (h.pendingOk command other hpending).logged fun emission hemission => ?_
    cases hemission

/-- A message is received and emitted at once. -/
theorem Sound.emitted (h : st.Sound hostId) {msg : Message P}
    (hnew : ∀ command, msg.name = .command command →
      Addressed hostId msg ∧ st.pending? (.command command) = none) :
    ((st.logged (.received msg)).handlerFn msg).Sound hostId where
  faithful :=
    { answered := by
        have hreceived : EachBefore (fun entry later => st.Answered hostId entry later ∨
            entry = .received msg) (st.log ++ [.received msg]) :=
          h.faithful.answered.concat (fun _ _ _ h => Or.inl h.logged) (Or.inr rfl)
        refine hreceived.concat ?_ ?_
        · rintro entry - later (hanswered | rfl)
          · exact hanswered.logged
          · rintro _ command ⟨⟩ - -
            exact Or.inl ⟨msg, List.mem_append_right _ List.mem_cons_self, rfl, rfl⟩
        · rintro _ command ⟨⟩
      addressed := by
        intro other command hmem hname
        obtain hold | hemitted := mem_emitted_logged hmem
        · obtain hold | hreceived := mem_emitted_logged hold
          · exact h.faithful.addressed other command hold hname
          · cases hreceived
        · obtain rfl := Entry.emitted.inj hemitted
          exact (hnew command hname).1 }
  named := h.named
  pendingOk := by
    intro command other hpending
    have hok : (st.logged (.received msg)).PendingOk hostId command other := by
      refine (h.pendingOk command other hpending).logged fun _ hemission => ?_
      cases hemission
    refine hok.logged fun emission hemission hsame => ?_
    obtain rfl := Entry.emitted.inj hemission
    exact nomatch (hnew command hsame).2.symm.trans hpending

/-- A message is received, and becomes what its debounced handler is to be called with. -/
theorem Sound.debounced (h : st.Sound hostId) {msg : Message P} (lastCallTime : ℕ)
    (hnew : ∀ command, msg.name = .command command → command ∉ immediateCommands ∧
      Addressed hostId msg ∧
      ∀ last, st.pending? (.command command) = some last → last.payload = msg.payload) :
    { st.logged (.received msg) with
      debouncedHandlers := (st.logged (.received msg)).debouncedHandlers.set msg.name
        { lastArgs := some msg, lastCallTime := lastCallTime } }.Sound hostId where
  faithful :=
    { answered := by
        refine h.faithful.answered.concat ?_ ?_
        · intro entry _ later hanswered other command hentry hname haddressed
          obtain ⟨emission, hmem, hcovers⟩ | ⟨emission, hpending, hcovers⟩ :=
            hanswered other command hentry hname haddressed
          · exact Or.inl ⟨emission, List.mem_append_left _ hmem, hcovers⟩
          · rw [pending?_set]
            by_cases hsame : other.name = msg.name
            · -- the payload that is replaced is the same
              rw [if_pos hsame]
              have hcommand := hsame.symm.trans hname
              have heq := (hnew command hcommand).2.2 emission (hname ▸ hpending)
              exact Or.inr ⟨msg, rfl, hsame.symm, heq.symm.trans hcovers.2⟩
            · rw [if_neg hsame]
              exact Or.inr ⟨emission, hpending, hcovers⟩
        · rintro _ command ⟨⟩ hname -
          rw [pending?_set, if_pos rfl]
          exact Or.inr ⟨msg, rfl, rfl, rfl⟩
      addressed := by
        intro other command hmem hname
        obtain hold | hnew := mem_emitted_logged hmem
        · exact h.faithful.addressed other command hold hname
        · cases hnew }
  named := by
    intro name other hpending
    rw [pending?_set] at hpending
    split at hpending
    next hsame =>
      obtain rfl := Option.some.inj hpending
      exact hsame.symm
    next => exact h.named name other hpending
  pendingOk := by
    intro command other hpending
    rw [pending?_set] at hpending
    split at hpending
    next hsame =>
      obtain rfl := Option.some.inj hpending
      obtain ⟨hdebounced, haddressed, -⟩ := hnew command hsame.symm
      refine ⟨hdebounced, haddressed, st.log, [], rfl, ?_⟩
      exact fun _ hmem => absurd hmem List.not_mem_nil
    next =>
      have hok : (st.logged (.received msg)).PendingOk hostId command other := by
        refine (h.pendingOk command other hpending).logged fun _ hemission => ?_
        cases hemission
      exact ⟨hok.debounced, hok.addressed, hok.received⟩

/-- A debounced handler is called. -/
theorem Sound.fires (h : st.Sound hostId) {name : EventName} {msg : Message P}
    (hpending : st.pending? name = some msg) (lastCallTime : ℕ) :
    ({ st with
      debouncedHandlers := st.debouncedHandlers.set name
        { lastArgs := none, lastCallTime := lastCallTime } }.handlerFn msg).Sound hostId where
  faithful :=
    { answered := by
        refine h.faithful.answered.concat ?_ ?_
        · intro entry _ later hanswered other command hentry hname haddressed
          obtain ⟨emission, hmem, hcovers⟩ | ⟨emission, hother, hcovers⟩ :=
            hanswered other command hentry hname haddressed
          · exact Or.inl ⟨emission, List.mem_append_left _ hmem, hcovers⟩
          · by_cases hsame : other.name = name
            · obtain rfl := Option.some.inj (hpending.symm.trans (hsame ▸ hother))
              exact Or.inl ⟨msg, List.mem_append_right _ List.mem_cons_self, hcovers⟩
            · have hkept := (pending?_set st ⟨none, lastCallTime⟩ name other.name).trans
                (if_neg hsame)
              exact Or.inr ⟨emission, hkept.trans hother, hcovers⟩
        · rintro _ command ⟨⟩
      addressed := by
        intro other command hmem hname
        obtain hold | hnew := mem_emitted_logged hmem
        · exact h.faithful.addressed other command hold hname
        · obtain rfl := Entry.emitted.inj hnew
          have hsame : name = .command command := (h.named name msg hpending).symm.trans hname
          exact (h.pendingOk command msg (hsame ▸ hpending)).addressed }
  named := by
    intro other last hother
    have hkept := (pending?_set st ⟨none, lastCallTime⟩ name other).symm.trans hother
    split at hkept
    · cases hkept
    · exact h.named other last hkept
  pendingOk := by
    intro command last hother
    have hkept := (pending?_set st ⟨none, lastCallTime⟩ name (.command command)).symm.trans
      hother
    split at hkept
    · cases hkept
    next hne =>
      have hok : (st.logged (.emitted msg)).PendingOk hostId command last := by
        refine (h.pendingOk command last hkept).logged fun emission hemission hsame => hne ?_
        obtain rfl := Entry.emitted.inj hemission
        exact hsame.symm.trans (h.named name msg hpending)
      exact ⟨hok.debounced, hok.addressed, hok.received⟩

/-! ### Steps keep the invariant -/

theorem addressed_iff_of_mem_selfSendCommands {publisher : HostId} {msg : Command P}
    (h : msg.command ∈ selfSendCommands) : Addressed hostId (publishCommand publisher msg) ↔
      ∀ targets, msg.targets = some targets → hostId ∈ targets :=
  ⟨Addressed.targets, fun htargets => ⟨fun _ => congrArg some (decide_eq_true h), htargets⟩⟩

theorem parseMessage_of_mem_selfSendCommands {publisher : HostId} {msg : Command P}
    (h : msg.command ∈ selfSendCommands) :
    parseMessage hostId (publishCommand publisher msg) = some (publishCommand publisher msg) := by
  refine if_neg fun hdropped => ?_
  have hself : decide (msg.command ∈ selfSendCommands) = false := hdropped.1
  exact of_decide_eq_false hself h

theorem addressed_iff_of_notMem_selfSendCommands {publisher : HostId} {msg : Command P}
    (h : msg.command ∉ selfSendCommands) : Addressed hostId (publishCommand publisher msg) ↔
      ¬(some publisher = some hostId ∨ msg.targets.any fun targets => hostId ∉ targets) := by
  have hself : (publishCommand publisher msg).selfSend = some false :=
    congrArg some (decide_eq_false h)
  constructor
  · rintro ⟨hsender, htargets⟩ (hown | hother)
    · exact absurd (hself.symm.trans (hsender hown)) (by decide)
    · cases hsome : msg.targets with
      | none =>
        rw [hsome] at hother
        cases hother
      | some targets =>
        rw [hsome] at hother
        exact of_decide_eq_true hother (htargets targets hsome)
  · intro hnot
    constructor
    · exact fun hown => absurd (Or.inl hown) hnot
    · intro targets hsome
      by_contra hmem
      refine hnot (Or.inr ?_)
      rw [show msg.targets = some targets from hsome]
      exact decide_eq_true hmem

theorem parseMessage_of_notMem_selfSendCommands {publisher : HostId} {msg : Command P}
    (h : msg.command ∉ selfSendCommands) :
    (Addressed hostId (publishCommand publisher msg) →
      parseMessage hostId (publishCommand publisher msg) = some (publishCommand publisher msg)) ∧
    (¬Addressed hostId (publishCommand publisher msg) →
      parseMessage hostId (publishCommand publisher msg) = none) := by
  have hself : decide (msg.command ∈ selfSendCommands) = false := decide_eq_false h
  rw [addressed_iff_of_notMem_selfSendCommands h]
  constructor
  · exact fun haddressed => if_neg fun hdropped => haddressed hdropped.2
  · exact fun hnot => if_pos ⟨hself, not_not.mp hnot⟩

theorem onMessage_of_parseMessage_eq_some {msg : Message P}
    (h : parseMessage hostId msg = some msg) : st.onMessage hostId msg =
      if msg.debounce.getD false then
        { st.logged (.received msg) with
          debouncedHandlers := (st.logged (.received msg)).debouncedHandlers.set msg.name
            { lastArgs := some msg, lastCallTime := (st.logged (.received msg)).now } }
      else (st.logged (.received msg)).handlerFn msg := by
  rw [onMessage, h]

theorem Sound.onCommand (h : st.Sound hostId) {publisher : HostId} {msg : Command P}
    (htimely : st.Timely hostId (.command publisher msg)) :
    (st.onMessage hostId (publishCommand publisher msg)).Sound hostId := by
  have hdebounce : (publishCommand publisher msg).debounce.getD false =
      decide (msg.command ∉ immediateCommands) := rfl
  have hcommand : ∀ command, (publishCommand publisher msg).name = .command command →
      msg.command = command := fun _ hname => EventName.command.inj hname
  -- an immediate command is never pending
  have hnone : msg.command ∈ immediateCommands →
      st.pending? (.command msg.command) = none := by
    intro himmediate
    refine Option.eq_none_iff_forall_ne_some.mpr fun last hlast => ?_
    exact (h.pendingOk _ last hlast).debounced himmediate
  by_cases hself : msg.command ∈ selfSendCommands
  · have haddressed : Addressed hostId (publishCommand publisher msg) := by
      rw [Timely, if_pos hself] at htimely
      exact (addressed_iff_of_mem_selfSendCommands hself).mpr htimely
    have himmediate : msg.command ∈ immediateCommands := by
      have hall : ∀ command ∈ selfSendCommands, command ∈ immediateCommands := by decide
      exact hall _ hself
    rw [onMessage_of_parseMessage_eq_some (parseMessage_of_mem_selfSendCommands hself),
      hdebounce, decide_eq_false (not_not.mpr himmediate)]
    refine h.emitted fun command hname => ⟨haddressed, ?_⟩
    rw [← hcommand command hname]
    exact hnone himmediate
  · rw [Timely, if_neg hself] at htimely
    by_cases haddressed : Addressed hostId (publishCommand publisher msg)
    · rw [onMessage_of_parseMessage_eq_some
        ((parseMessage_of_notMem_selfSendCommands hself).1 haddressed), hdebounce]
      by_cases himmediate : msg.command ∈ immediateCommands
      · rw [decide_eq_false (not_not.mpr himmediate)]
        refine h.emitted fun command hname => ⟨haddressed, ?_⟩
        rw [← hcommand command hname]
        exact hnone himmediate
      · rw [decide_eq_true himmediate]
        refine h.debounced _ fun command hname => ?_
        rw [← hcommand command hname]
        exact ⟨himmediate, haddressed, htimely himmediate haddressed⟩
    · rw [onMessage, (parseMessage_of_notMem_selfSendCommands hself).2 haddressed]
      exact h.received fun _ _ => haddressed

theorem Sound.onWorkerResponse (h : st.Sound hostId) (msg : WorkerResponse P) :
    (st.onMessage hostId (publishWorkerResponse msg)).Sound hostId := by
  have hname : ∀ command, (publishWorkerResponse msg).name ≠ .command command := fun _ => nofun
  have hparse : parseMessage hostId (publishWorkerResponse msg) =
      some (publishWorkerResponse msg) := rfl
  rw [onMessage_of_parseMessage_eq_some hparse]
  split
  · exact h.debounced _ fun command hcommand => absurd hcommand (hname command)
  · exact h.emitted fun command hcommand => absurd hcommand (hname command)

theorem Sound.step {event : Event P} (h : st.Sound hostId) (htimely : st.Timely hostId event)
    (hstep : Step hostId st event st') : st'.Sound hostId := by
  cases event with
  | command publisher msg =>
    obtain rfl := Option.some.inj hstep
    exact h.onCommand htimely
  | workerResponse msg =>
    obtain rfl := Option.some.inj hstep
    exact h.onWorkerResponse msg
  | elapses ms =>
    obtain rfl := Option.some.inj hstep
    exact
      { faithful := ⟨h.faithful.answered, h.faithful.addressed⟩
        named := h.named
        pendingOk := fun command msg hpending =>
          have hok := h.pendingOk command msg hpending
          ⟨hok.debounced, hok.addressed, hok.received⟩ }
  | fires name =>
    rw [Step, step?] at hstep
    split at hstep
    next msg lastCallTime hget =>
      obtain ⟨-, heq⟩ := Option.ite_none_right_eq_some.mp hstep
      obtain rfl := Option.some.inj heq
      have hpending : st.pending? name = some msg := by rw [pending?, hget]; rfl
      exact h.fires hpending lastCallTime
    · cases hstep

/-! ### The condition is exact -/

/-- A command that is pushed out of the debounced handler is lost. -/
theorem not_faithful_of_not_timely {event : Event P} (h : st.Sound hostId)
    (htimely : ¬st.Timely hostId event) (hstep : Step hostId st event st') :
    ¬st'.Faithful hostId := by
  intro hfaithful
  cases event with
  | command publisher msg =>
    obtain rfl := Option.some.inj hstep
    by_cases hself : msg.command ∈ selfSendCommands
    · -- the command is emitted although the instance is not among its targets
      rw [Timely, if_pos hself] at htimely
      have himmediate : msg.command ∈ immediateCommands := by
        have hall : ∀ command ∈ selfSendCommands, command ∈ immediateCommands := by decide
        exact hall _ hself
      have hdebounce : (publishCommand publisher msg).debounce.getD false = false :=
        decide_eq_false (not_not.mpr himmediate)
      rw [onMessage_of_parseMessage_eq_some (parseMessage_of_mem_selfSendCommands hself),
        hdebounce, if_neg Bool.false_ne_true] at hfaithful
      have haddressed := hfaithful.addressed (publishCommand publisher msg) msg.command
        (List.mem_append_right _ List.mem_cons_self) rfl
      exact htimely ((addressed_iff_of_mem_selfSendCommands hself).mp haddressed)
    · rw [Timely, if_neg hself] at htimely
      simp only [Classical.not_imp, not_forall] at htimely
      obtain ⟨himmediate, haddressed, last, hlast, hne⟩ := htimely
      have hdebounce : (publishCommand publisher msg).debounce.getD false = true :=
        decide_eq_true himmediate
      rw [onMessage_of_parseMessage_eq_some
        ((parseMessage_of_notMem_selfSendCommands hself).1 haddressed), hdebounce, if_pos rfl]
        at hfaithful
      have hok := h.pendingOk msg.command last hlast
      have hname := h.named _ last hlast
      obtain ⟨earlier, later, hlog, hlater⟩ := hok.received
      have hanswered := hfaithful.answered earlier (.received last)
        (later ++ [.received (publishCommand publisher msg)])
        (by simp only [Subscriber.logged, hlog, List.append_assoc, List.cons_append])
        last msg.command rfl hname hok.addressed
      obtain ⟨emission, hmem, hcovers⟩ | ⟨emission, hpending, hcovers⟩ := hanswered
      · obtain hold | hreceived := List.mem_append.mp hmem
        · exact hlater emission hold (hcovers.1.trans hname)
        · cases List.mem_singleton.mp hreceived
      · have hsame : last.name = (publishCommand publisher msg).name := hname
        rw [pending?_set, if_pos hsame] at hpending
        obtain rfl := Option.some.inj hpending
        exact hne hcovers.2.symm
  | workerResponse msg | elapses ms | fires name => exact htimely trivial

/-- **The command channel loses no distinct command**: a run keeps to it if and only if all its
steps are timely. -/
theorem visits_faithful_iff (run : Transition.Run (Step hostId) (start : Subscriber P) st) :
    run.Visits (Faithful hostId) ↔ run.Takes (Timely hostId) :=
  Transition.Run.visits_iff_takes (I := Sound hostId) (fun _ h => h.faithful)
    (fun _ _ _ h htimely hstep => h.step htimely hstep)
    (fun _ _ _ h htimely hstep => not_faithful_of_not_timely h htimely hstep) sound_start run

/-- The command to uninstall a community package, with its name as the payload. -/
def uninstall (packageName : String) : Command String :=
  { command := .communityPackageUninstall, payload := some packageName }

/-- Two community packages are uninstalled within the time that the handler waits: the instance is
told of the second one only, and nothing is left to be emitted. -/
theorem not_faithful_twoUninstalls :
    ∃ st, ∃ run : Transition.Run (Step "worker") (start : Subscriber String) st,
      ¬run.Visits (Faithful "worker") ∧ st.pending? (.command .communityPackageUninstall) = none ∧
        ∀ msg, .emitted msg ∈ st.log → msg.payload = some "n8n-nodes-b" := by
  have hstate : [Event.command "main" (uninstall "n8n-nodes-a"), .elapses 100,
      .command "main" (uninstall "n8n-nodes-b"), .elapses 300,
      .fires (.command .communityPackageUninstall)].foldlM (step? "worker") start = some {
        now := 400
        debouncedHandlers := InsertionMap.empty.set (.command .communityPackageUninstall)
          { lastArgs := none, lastCallTime := 100 }
        log := [.received (publishCommand "main" (uninstall "n8n-nodes-a")),
          .received (publishCommand "main" (uninstall "n8n-nodes-b")),
          .emitted (publishCommand "main" (uninstall "n8n-nodes-b"))] } := by
    decide
  obtain ⟨run, _⟩ := Transition.Run.exists_labels_eq hstate
  have hemitted : ∀ msg, .emitted msg ∈ [Entry.received (publishCommand "main" (uninstall
      "n8n-nodes-a")), .received (publishCommand "main" (uninstall "n8n-nodes-b")),
      .emitted (publishCommand "main" (uninstall "n8n-nodes-b"))] →
      msg.payload = some "n8n-nodes-b" := by
    intro msg hmem
    simp only [List.mem_cons, reduceCtorEq, Entry.emitted.injEq, List.not_mem_nil, or_false,
      false_or] at hmem
    rw [hmem]
    rfl
  refine ⟨_, run, fun h => ?_, by decide, hemitted⟩
  have hanswered := h.last.answered [] _ _ rfl _ .communityPackageUninstall rfl rfl
    ⟨by decide, by decide⟩
  obtain ⟨emission, hmem, hcovers⟩ | ⟨emission, hpending, -⟩ := hanswered
  · have hpayload := hemitted emission (List.mem_cons_of_mem _ hmem)
    exact absurd (hpayload.symm.trans hcovers.2) (by decide)
  · cases hpending

end Subscriber

end N8n
