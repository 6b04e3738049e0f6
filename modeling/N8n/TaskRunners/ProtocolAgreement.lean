import N8n.Foundations.Transition
import N8n.TaskRunners.BrokerInvariant
import N8n.TaskRunners.RunnerInvariant

/-!
# The broker and a task runner agree

A broker and a runner are connected by a channel in each direction; other runners and the
requesters send the broker whatever they like. The broker makes a new id for each task it
offers and gives its settings once (`TaskBroker.WellFormed`), channels keep the order and
lose nothing, and so the runner receives no offer and no settings twice: in every state of
every run it has met no task in an unexpected state, and has no more tasks than it may.
-/

namespace N8n

open BrokerMessage Transition

namespace TaskBroker

variable {st st' : TaskBroker} {taskId : NanoId}

/-! ### The broker does not take back what it has sent -/

/-- What has been handed to runners stays, and more may follow. -/
def Sends (st st' : TaskBroker) : Prop := st.toRunners <+: st'.toRunners

theorem Sends.of_eq (h : st'.toRunners = st.toRunners) : Sends st st' := by
  simp only [Sends, h, List.prefix_refl]

/-- Whatever else has changed before. -/
theorem Sends.of_sent {st₁ st₂ st₃ : TaskBroker} (h : Sends st₂ st₃)
    (heq : st₂.toRunners = st₁.toRunners) : Sends st₁ st₃ := by
  rw [Sends, ← heq]
  exact h

theorem Sends.trans {st₁ st₂ st₃ : TaskBroker} (h : Sends st₁ st₂) (h' : Sends st₂ st₃) :
    Sends st₁ st₃ :=
  List.IsPrefix.trans h h'

theorem Sends.foldl {α : Type} {f : TaskBroker → α → TaskBroker} (hf : ∀ st a, Sends st (f st a))
    (l : List α) (st : TaskBroker) : Sends st (l.foldl f st) := by
  induction l generalizing st with
  | nil => exact .of_eq rfl
  | cons a l ih => exact (hf st a).trans (ih (f st a))

theorem sends_messageRunner (runnerId : String) (message : ToRunner) (st : TaskBroker) :
    Sends st (st.messageRunner runnerId message) := by
  by_cases h : st.knownRunners.has runnerId = true
  · rw [Sends, messageRunner, if_pos h]
    exact List.prefix_append _ _
  · exact .of_eq (if_neg h)

theorem sends_cancelTask (taskId : NanoId) (reason : String) (st : TaskBroker) :
    Sends st (st.cancelTask taskId reason) := by
  rw [cancelTask]
  split
  · exact .of_eq rfl
  · exact sends_messageRunner _ _ (st.deleteTask taskId)

theorem sends_failTask (taskId : NanoId) (error : TaskFailure) (st : TaskBroker) :
    Sends st (st.failTask taskId error) := by
  rw [failTask]
  split <;> exact .of_eq rfl

theorem sends_endTask (taskId : NanoId) (message : ToRequester) (st : TaskBroker) :
    Sends st (st.endTask taskId message) := by
  rw [endTask]
  split <;> exact .of_eq rfl

theorem sends_handleTaskTimeout (taskId : NanoId) (st : TaskBroker) :
    Sends st (st.handleTaskTimeout taskId) := by
  rw [handleTaskTimeout]
  split
  · exact .of_eq rfl
  · split
    · exact sends_endTask _ _ st
    · exact sends_messageRunner _ _ st

theorem sends_handleRunnerReject (taskId : NanoId) (reason : String) (st : TaskBroker) :
    Sends st (st.handleRunnerReject taskId reason) := by
  rw [handleRunnerReject]
  split <;> exact .of_eq rfl

theorem sends_failTaskOf (runnerId error : String) (st : TaskBroker) (task : Task) :
    Sends st (st.failTaskOf runnerId error task) := by
  rw [failTaskOf]
  split
  · exact (sends_failTask _ _ st).trans (sends_handleRunnerReject _ _ _)
  · exact .of_eq rfl

theorem sends_acceptOffer (offer : TaskOffer) (request : TaskRequest) (st : TaskBroker) :
    Sends st (st.acceptOffer offer request) := by
  have hmessage := sends_messageRunner offer.runnerId (.taskOfferAccept offer.offerId st.nextId)
    ((st.newTaskId offer request).setTimeout (.runnerAccept st.nextId))
  exact (hmessage.of_sent rfl).trans (.of_eq rfl)

theorem sends_settleRequest (st : TaskBroker) (request : TaskRequest) :
    Sends st (st.settleRequest request) := by
  rw [settleRequest]
  split
  · exact .of_eq rfl
  · split
    · exact .of_eq rfl
    · exact (sends_acceptOffer _ _ _).of_sent rfl

theorem sends_settleTasks (st : TaskBroker) : Sends st st.settleTasks :=
  (Sends.foldl sends_settleRequest _ st.expireTasks).of_sent rfl

theorem sends_getRunnerOrFailTask (taskId : NanoId) (st : TaskBroker) :
    Sends st (st.getRunnerOrFailTask taskId).1 := by
  rw [getRunnerOrFailTask]
  split
  · exact .of_eq rfl
  · split
    · exact sends_failTask _ _ st
    · exact .of_eq rfl

theorem sends_onRunnerMessage (runnerId : String) (message : RunnerMessage.ToBroker)
    (st : TaskBroker) : Sends st (st.onRunnerMessage runnerId message) := by
  rw [onRunnerMessage.eq_def]
  split
  · cases message with
    | info name types => exact .of_eq rfl
    | taskAccepted taskId =>
      simp only [handleRunnerAccept]
      split <;> exact .of_eq rfl
    | taskRejected taskId reason => exact sends_handleRunnerReject _ _ st
    | taskDeferred taskId =>
      simp only [handleRunnerDeferred]
      split <;> exact .of_eq rfl
    | taskDone taskId data => exact sends_endTask _ _ st
    | taskError taskId error => exact sends_endTask _ _ st
    | taskOffer offerId taskType validFor =>
      exact (sends_settleTasks _).of_sent rfl
    | taskDataRequest taskId requestId requestParams =>
      simp only [askRequester]
      split <;> exact .of_eq rfl
    | nodeTypesRequest taskId requestId requestParams =>
      simp only [askRequester]
      split <;> exact .of_eq rfl
    | rpc callId taskId name params =>
      simp only [askRequester]
      split <;> exact .of_eq rfl
  · exact .of_eq rfl

theorem sends_respond (taskId : NanoId) (message : ToRunner) (st : TaskBroker) :
    Sends st (st.respond taskId message) := by
  rw [respond]
  split
  · exact sends_getRunnerOrFailTask taskId st
  · exact .of_eq rfl

theorem sends_onRequesterMessage (requesterId : String) (message : RequesterMessage.ToBroker)
    (st : TaskBroker) : Sends st (st.onRequesterMessage requesterId message) := by
  cases message with
  | taskSettings taskId settings =>
    simp only [onRequesterMessage, handleRequesterAccept]
    split <;> exact .of_eq rfl
  | taskCancel taskId reason => exact sends_cancelTask _ _ st
  | taskDataResponse taskId requestId data => exact sends_respond _ _ st
  | nodeTypesResponse taskId requestId nodeTypes => exact sends_respond _ _ st
  | rpcResponse taskId callId status data => exact sends_respond _ _ st
  | taskRequest requestId taskType =>
    dsimp only [onRequesterMessage, taskRequested]
    split
    · refine .of_eq ?_
      dsimp only [messageRequester, clearTimeout, createRequestTimeout, recordRequest, setTimeout]
    · refine (sends_settleTasks _).of_sent ?_
      dsimp only [createRequestTimeout, recordRequest, setTimeout]

theorem sends_requesterAnswered (taskId : NanoId) (answer : RequesterAnswer) (st : TaskBroker) :
    Sends st (st.requesterAnswered taskId answer) := by
  cases answer with
  | accepted settings =>
    rw [requesterAnswered, sendTaskSettings]
    split
    · exact sends_getRunnerOrFailTask taskId st
    · exact .of_eq rfl
  | rejected reason => exact sends_cancelTask _ _ st
  | timedOut => exact sends_cancelTask _ _ st

theorem sends_runnerAnswered (taskId : NanoId) (offer : TaskOffer) (request : TaskRequest)
    (answer : RunnerAnswer) (st : TaskBroker) :
    Sends st (st.runnerAnswered taskId offer request answer) := by
  cases answer with
  | accepted =>
    refine .of_eq ?_
    dsimp only [runnerAnswered, runnerAccepted]
    split <;> dsimp only [suspend, messageRequester, setTimeout, expectSettings, takeRequest,
      setTask, clearTimeout]
  | rejected reason => exact .of_eq rfl
  | timedOut => exact .of_eq rfl
  | deferred => exact .of_eq rfl

theorem sends_resume {handler : Suspended} (h : st.resume handler = some st') : Sends st st' := by
  rcases handler with ⟨t, offer, request⟩ | ⟨t, offer, request⟩ | t | t
    | ⟨t, settings, runner | error⟩ | ⟨runner | error, message⟩ | ⟨t, called⟩ | t
  · obtain rfl := Option.some.inj h
    exact .of_eq rfl
  · obtain ⟨answer, -, rfl⟩ := Option.map_eq_some_iff.mp h
    exact sends_runnerAnswered _ _ _ _ st
  · obtain rfl := Option.some.inj h
    exact .of_eq rfl
  · obtain ⟨answer, -, rfl⟩ := Option.map_eq_some_iff.mp h
    exact sends_requesterAnswered _ _ st
  · obtain rfl := Option.some.inj h
    rw [settingsToRunner]
    split
    · exact .of_eq rfl
    · exact sends_messageRunner _ _ (st.setTimeout _)
  · obtain rfl := Option.some.inj h
    exact sends_cancelTask _ _ st
  · obtain rfl := Option.some.inj h
    exact sends_messageRunner _ _ st
  · obtain rfl := Option.some.inj h
    exact .of_eq rfl
  · obtain rfl := Option.some.inj h
    exact .of_eq rfl
  · obtain rfl := Option.some.inj h
    exact sends_endTask _ _ st

/-- A step takes back nothing that was handed to a runner. -/
theorem sends_step {e : Event} (h : st.step? e = some st') : Sends st st' := by
  cases e with
  | registerRunner runner =>
    obtain rfl := Option.some.inj h
    rw [registerRunner]
    exact (sends_messageRunner _ _ _).of_sent rfl
  | deregisterRunner runnerId error =>
    obtain rfl := Option.some.inj h
    rw [deregisterRunner]
    exact (Sends.foldl (sends_failTaskOf runnerId error) _ _).of_sent rfl
  | registerRequester requesterId =>
    obtain rfl := Option.some.inj h
    exact .of_eq rfl
  | deregisterRequester requesterId =>
    obtain rfl := Option.some.inj h
    exact .of_eq rfl
  | runnerMessage runnerId message =>
    obtain rfl := Option.some.inj h
    exact sends_onRunnerMessage _ _ st
  | requesterMessage requesterId message =>
    obtain ⟨-, heq⟩ := Option.ite_none_right_eq_some.mp h
    obtain rfl := Option.some.inj heq
    exact sends_onRequesterMessage _ _ st
  | timer timer =>
    obtain ⟨-, heq⟩ := Option.ite_none_right_eq_some.mp h
    obtain rfl := Option.some.inj heq
    cases timer with
    | request requestId =>
      simp only [fire, handleRequestTimeout]
      split <;> exact .of_eq rfl
    | runnerAccept taskId => exact .of_eq rfl
    | requesterAccept taskId => exact .of_eq rfl
    | task taskId => exact sends_handleTaskTimeout _ (st.takeTimer _)
  | resume handler =>
    obtain ⟨-, heq⟩ := Option.ite_none_right_eq_some.mp h
    exact (sends_resume heq).of_sent rfl
  | startDraining =>
    obtain rfl := Option.some.inj h
    exact .of_eq rfl
  | tick now =>
    obtain ⟨-, heq⟩ := Option.ite_none_right_eq_some.mp h
    obtain rfl := Option.some.inj heq
    exact .of_eq rfl

end TaskBroker

/-- A broker and a task runner. -/
structure Connection where
  broker : TaskBroker
  runner : TaskRunner
  /-- History: the messages put into the channel that leads to the runner. -/
  toRunner : List ToRunner := []
  /-- The number of messages of the runner that the broker has received. -/
  delivered : ℕ := 0

namespace Connection

variable {c c' : Connection}

/-- What the broker has handed to the runner since it was in the state of `c`. -/
def handedOver (broker : TaskBroker) (c : Connection) : List ToRunner :=
  ((broker.toRunners.drop c.broker.toRunners.length).filter fun m => m.1 = c.runner.id).map
    Prod.snd

/-- The broker takes a step: what it hands to the runner goes into the channel. -/
def brokerStep (broker : TaskBroker) (c : Connection) : Connection :=
  { c with broker, toRunner := c.toRunner ++ c.handedOver broker }

/-- The web socket server puts a message of its own into the channel to the runner. -/
def serverSend (message : ToRunner) (c : Connection) : Connection :=
  { c with toRunner := c.toRunner ++ [message] }

inductive Event where
  /-- Something happens to the broker that is not a message of the runner. -/
  | broker (e : TaskBroker.Event)
  /-- Something happens to the runner that is not a message. -/
  | runner (e : TaskRunner.Event)
  /-- The server asks who the runner is. -/
  | infoRequest
  /-- The server stops. -/
  | drain
  /-- The first message in the channel to the runner is delivered. -/
  | deliverToRunner
  /-- The first message in the channel to the broker is delivered. -/
  | deliverToBroker

/-- Whether something that happens to the broker is a message of the runner with an id. -/
def IsMessageOf (id : String) : TaskBroker.Event → Prop
  | .runnerMessage runnerId _ => runnerId = id
  | _ => False

instance (id : String) (e : TaskBroker.Event) : Decidable (IsMessageOf id e) := by
  rw [IsMessageOf.eq_def]
  split <;> infer_instance

def step? (c : Connection) : Event → Option Connection
  | .broker e =>
    if IsMessageOf c.runner.id e then none
    else (c.broker.step? e).map fun broker => c.brokerStep broker
  | .runner e => (c.runner.step? e).map fun runner => { c with runner }
  | .infoRequest => some (c.serverSend .infoRequest)
  | .drain => some (c.serverSend .drain)
  | .deliverToRunner =>
    (c.toRunner[c.runner.received.length]?).map fun message =>
      { c with runner := c.runner.receiveMessage message }
  | .deliverToBroker =>
    (c.runner.sent[c.delivered]?).bind fun message =>
      (c.broker.step? (.runnerMessage c.runner.id message)).map fun broker =>
        { c.brokerStep broker with delivered := c.delivered + 1 }

def Step (c : Connection) (e : Event) (c' : Connection) : Prop := c.step? e = some c'

/-- The runner has met no task in a state it does not expect, and has no more tasks than
`maxConcurrency`. -/
def Agrees (c : Connection) : Prop :=
  c.runner.unexpected = [] ∧ c.runner.runningTasks.size ≤ c.runner.maxConcurrency

open TaskRunner in
/-- What holds between the broker, the channel and the runner. -/
structure Connected (c : Connection) : Prop where
  broker : c.broker.WellFormed
  runner : c.runner.WellFormed c.runner.received
  received : c.runner.received <+: c.toRunner
  accepts : (acceptsReceived c.toRunner).Sublist c.broker.acceptsSent
  settings : (settingsReceived c.toRunner).Sublist c.broker.settingsSent

theorem Connected.agrees (h : Connected c) : Agrees c :=
  ⟨h.runner.unexpected_eq, h.runner.size_le⟩

/-- What a channel holds of the messages for one runner. -/
private theorem filterMap_sublist {id : String} (f : ToRunner → Option NanoId)
    (l : List (String × ToRunner)) :
    (((l.filter fun m => m.1 = id).map Prod.snd).filterMap f).Sublist
      (l.filterMap fun m => f m.2) := by
  rw [List.filterMap_map]
  exact List.filter_sublist.filterMap _

theorem Connected.brokerStep {e : TaskBroker.Event} {broker : TaskBroker} (h : Connected c)
    (hstep : c.broker.step? e = some broker) : Connected (c.brokerStep broker) := by
  obtain ⟨l, hl⟩ := TaskBroker.sends_step hstep
  have hnew : c.handedOver broker = (l.filter fun m => m.1 = c.runner.id).map Prod.snd := by
    rw [handedOver, ← hl, List.drop_left]
  exact {
    broker := h.broker.step hstep
    runner := h.runner
    received := h.received.trans (List.prefix_append _ _)
    accepts := by
      rw [TaskBroker.acceptsSent, Connection.brokerStep, ← hl, hnew, List.filterMap_append,
        TaskRunner.acceptsReceived, List.filterMap_append]
      exact h.accepts.append (filterMap_sublist _ l)
    settings := by
      rw [TaskBroker.settingsSent, Connection.brokerStep, ← hl, hnew, List.filterMap_append,
        TaskRunner.settingsReceived, List.filterMap_append]
      exact h.settings.append (filterMap_sublist _ l) }

theorem Connected.serverSend {message : ToRunner} (h : Connected c)
    (haccept : acceptTask message = none) (hsettings : settingsTask message = none) :
    Connected (c.serverSend message) where
  broker := h.broker
  runner := h.runner
  received := h.received.trans (List.prefix_append _ _)
  accepts := by
    rw [TaskRunner.acceptsReceived, Connection.serverSend, List.filterMap_append,
      List.filterMap_cons_none haccept, List.filterMap_nil, List.append_nil]
    exact h.accepts
  settings := by
    rw [TaskRunner.settingsReceived, Connection.serverSend, List.filterMap_append,
      List.filterMap_cons_none hsettings, List.filterMap_nil, List.append_nil]
    exact h.settings

/-- What follows a prefix is where the prefix ends. -/
private theorem concat_prefix {α : Type} {l l' : List α} {a : α} (h : l <+: l')
    (ha : l'[l.length]? = some a) : l ++ [a] <+: l' := by
  obtain ⟨r, rfl⟩ := h
  rw [List.getElem?_append_right (Nat.le_refl _), Nat.sub_self] at ha
  obtain ⟨b, r, rfl⟩ := List.exists_cons_of_ne_nil (l := r) fun hr => by simp [hr] at ha
  obtain rfl := Option.some.inj ha
  exact ⟨r, by rw [List.append_assoc, List.singleton_append]⟩

/-- What comes last in a list without duplicates was not there before. -/
private theorem not_mem_of_concat_prefix {f : ToRunner → Option NanoId} {l l' : List ToRunner}
    {sent : List NanoId} {message : ToRunner} {t : NanoId} (hconcat : l ++ [message] <+: l')
    (hsub : (l'.filterMap f).Sublist sent) (hnodup : sent.Nodup) (ht : f message = some t) :
    t ∉ l.filterMap f := by
  have hnodup' : ((l ++ [message]).filterMap f).Nodup :=
    hnodup.sublist ((hconcat.sublist.filterMap f).trans hsub)
  rw [List.filterMap_append, List.filterMap_cons_some ht] at hnodup'
  intro hmem
  exact (List.nodup_append'.mp hnodup').2.2 hmem List.mem_cons_self

theorem Connected.deliverToRunner {message : ToRunner} (h : Connected c)
    (hmessage : c.toRunner[c.runner.received.length]? = some message) :
    Connected { c with runner := c.runner.receiveMessage message } := by
  have hconcat := concat_prefix h.received hmessage
  have hrunner := h.runner.receiveMessage
    (fun t ht => not_mem_of_concat_prefix hconcat h.accepts h.broker.accepts_nodup ht)
    (fun t ht => not_mem_of_concat_prefix hconcat h.settings h.broker.settings_nodup ht)
  have hreceived := hrunner.received_eq
  exact {
    broker := h.broker
    runner := hreceived.symm ▸ hrunner
    received := hreceived.symm ▸ hconcat
    accepts := h.accepts
    settings := h.settings }

theorem Connected.runnerStep {e : TaskRunner.Event} {runner : TaskRunner} (h : Connected c)
    (hstep : c.runner.step? e = some runner) : Connected { c with runner } := by
  have hrunner := h.runner.step hstep
  have hreceived := hrunner.received_eq
  exact {
    broker := h.broker
    runner := hreceived.symm ▸ hrunner
    received := hreceived.symm ▸ h.received
    accepts := h.accepts
    settings := h.settings }

/-- **Step lemma**: every step keeps a broker and a runner connected. -/
theorem Connected.step {e : Event} (h : Connected c) (hstep : c.Step e c') : Connected c' := by
  cases e with
  | broker e =>
    rw [Step, step?] at hstep
    obtain ⟨-, heq⟩ := Option.ite_none_left_eq_some.mp hstep
    obtain ⟨broker, hbroker, rfl⟩ := Option.map_eq_some_iff.mp heq
    exact h.brokerStep hbroker
  | runner e =>
    obtain ⟨runner, hrunner, rfl⟩ := Option.map_eq_some_iff.mp hstep
    exact h.runnerStep hrunner
  | infoRequest =>
    obtain rfl := Option.some.inj hstep
    exact h.serverSend rfl rfl
  | drain =>
    obtain rfl := Option.some.inj hstep
    exact h.serverSend rfl rfl
  | deliverToRunner =>
    obtain ⟨message, hmessage, rfl⟩ := Option.map_eq_some_iff.mp hstep
    exact h.deliverToRunner hmessage
  | deliverToBroker =>
    obtain ⟨message, -, heq⟩ := Option.bind_eq_some_iff.mp hstep
    obtain ⟨broker, hbroker, rfl⟩ := Option.map_eq_some_iff.mp heq
    have hconnected := h.brokerStep hbroker
    exact { hconnected with }

/-- **The broker and a runner agree.** Whatever happens to a new broker, to a new runner and
in the two channels between them, and in whatever order: the runner meets no task in a state
it does not expect, and has no more tasks than `maxConcurrency`. -/
theorem protocol_agreement (mode : TaskRunnerMode) (brokerTimeout : ℕ) (isSelfHosted : Bool)
    (id name taskType : String) (maxConcurrency taskTimeout : ℕ) (randomInt : NanoId → ℕ)
    (c : Connection)
    (run : Run Step
      { broker := .new mode brokerTimeout isSelfHosted
        runner := .new id name taskType maxConcurrency taskTimeout randomInt } c) :
    run.Visits Agrees := by
  have hnew : Connected
      { broker := .new mode brokerTimeout isSelfHosted
        runner := .new id name taskType maxConcurrency taskTimeout randomInt } :=
    { broker := TaskBroker.wellFormed_new _ _ _
      runner := TaskRunner.wellFormed_new _ _ _ _ _ _
      received := List.prefix_refl _
      accepts := List.Sublist.refl _
      settings := List.Sublist.refl _ }
  exact (run.visits_of_step (fun _ _ _ h hstep => h.step hstep) hnew).mono fun _ h => h.agrees

end Connection

end N8n
