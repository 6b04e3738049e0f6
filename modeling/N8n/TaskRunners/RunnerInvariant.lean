import N8n.TaskRunners.TaskRunner

/-!
# What every step of the task runner keeps

The tasks of a runner, their timers and their executions all come from the tasks it was asked
to take, and a task that has started has received its settings. `WellFormed` states this
together with the bound on the number of tasks. As long as no task is offered twice and no
settings come twice, every event and every message keeps it, and nothing unexpected happens.
-/

namespace N8n.TaskRunner

open BrokerMessage

variable {st st' : TaskRunner} {taskId : NanoId} {taskState : TaskState}

/-! ### What a handler leaves as it is -/

/-- Offers are made, go stale and are sent, and nothing else happens. -/
def Offers (st st' : TaskRunner) : Prop :=
  ∃ openOffers nextId offers,
    st' = { st with openOffers, nextId, sent := st.sent ++ offers } ∧ st.nextId ≤ nextId ∧
      ∀ m ∈ offers, ∃ o t v, m = RunnerMessage.ToBroker.taskOffer o t v

theorem Offers.refl (st : TaskRunner) : Offers st st := by
  refine ⟨st.openOffers, st.nextId, [], ?_, Nat.le_refl _, nofun⟩
  rw [List.append_nil]

theorem Offers.trans {st₁ st₂ st₃ : TaskRunner} (h : Offers st₁ st₂) (h' : Offers st₂ st₃) :
    Offers st₁ st₃ := by
  obtain ⟨_, _, offers, rfl, hle, hoffers⟩ := h
  obtain ⟨openOffers, nextId, offers', rfl, hle', hoffers'⟩ := h'
  refine ⟨openOffers, nextId, offers ++ offers', ?_, Nat.le_trans hle hle', fun m hm => ?_⟩
  · rw [← List.append_assoc]
  · exact (List.mem_append.mp hm).elim (hoffers m) (hoffers' m)

theorem offers_deleteStaleOffers (st : TaskRunner) : Offers st st.deleteStaleOffers := by
  refine ⟨st.deleteStaleOffers.openOffers, st.nextId, [], ?_, Nat.le_refl _, nofun⟩
  rw [List.append_nil]
  rfl

theorem offers_sendOffer (st : TaskRunner) : Offers st st.sendOffer := by
  refine ⟨_, st.nextId + 1, [_], rfl, Nat.le_succ _, fun m hm => ?_⟩
  exact ⟨_, _, _, List.mem_singleton.mp hm⟩

theorem offers_iterate_sendOffer (n : ℕ) (st : TaskRunner) : Offers st (sendOffer^[n] st) := by
  induction n generalizing st with
  | zero => exact .refl st
  | succ n ih => exact (offers_sendOffer st).trans (ih st.sendOffer)

theorem offers_sendOffers (st : TaskRunner) : Offers st st.sendOffers := by
  simp only [sendOffers]
  split
  · exact (offers_deleteStaleOffers st).trans (offers_iterate_sendOffer _ _)
  · exact offers_deleteStaleOffers st

/-- Promises are settled and data and node type requests go, and nothing else happens. -/
def Cancels (st st' : TaskRunner) : Prop :=
  ∃ settled dataRequests nodeTypesRequests,
    st' = { st with settled, dataRequests, nodeTypesRequests }

theorem Cancels.trans {st₁ st₂ st₃ : TaskRunner} (h : Cancels st₁ st₂) (h' : Cancels st₂ st₃) :
    Cancels st₁ st₃ := by
  obtain ⟨_, _, _, rfl⟩ := h
  obtain ⟨settled, dataRequests, nodeTypesRequests, rfl⟩ := h'
  exact ⟨settled, dataRequests, nodeTypesRequests, rfl⟩

theorem Cancels.foldl {α : Type} {f : TaskRunner → α → TaskRunner}
    (hf : ∀ st a, Cancels st (f st a)) (l : List α) (st : TaskRunner) :
    Cancels st (l.foldl f st) := by
  induction l generalizing st with
  | nil => exact ⟨_, _, _, rfl⟩
  | cons a l ih => exact (hf st a).trans (ih (f st a))

theorem cancels_cancelTaskRequests (taskId : NanoId) (st : TaskRunner) :
    Cancels st (st.cancelTaskRequests taskId) := by
  refine (Cancels.foldl (fun st request => ?_) _ st).trans
    (Cancels.foldl (fun st request => ?_) _ _)
  · rw [cancelDataRequest]
    split <;> exact ⟨_, _, _, rfl⟩
  · rw [cancelNodeTypesRequest]
    split <;> exact ⟨_, _, _, rfl⟩

/-! ### The invariant -/

/-- The tasks of the messages that ask a runner to take one. -/
def acceptsReceived (received : List ToRunner) : List NanoId := received.filterMap acceptTask

/-- The tasks of the messages with settings. -/
def settingsReceived (received : List ToRunner) : List NanoId := received.filterMap settingsTask

/-- What a runner that received these messages keeps about its tasks. -/
structure WellFormed (received : List ToRunner) (st : TaskRunner) : Prop where
  received_eq : st.received = received
  taskId_eq : ∀ t s, st.runningTasks.get? t = some s → s.taskId = t
  tasks_accepted : ∀ t ∈ st.runningTasks.keys, t ∈ acceptsReceived received
  started_settings : ∀ t s, st.runningTasks.get? t = some s → s.status ≠ .waitingForSettings →
    t ∈ settingsReceived received
  timers_nodup : st.timers.Nodup
  timers_accepted : ∀ t ∈ st.timers, t ∈ acceptsReceived received
  timers_live : ∀ t ∈ st.timers, ∀ s, st.runningTasks.get? t = some s →
    s.status ≠ .abortingTimeout
  executing_accepted : ∀ t ∈ st.executing, t ∈ acceptsReceived received
  executing_started : ∀ t ∈ st.executing, ∀ s, st.runningTasks.get? t = some s →
    s.status ≠ .waitingForSettings
  size_le : st.runningTasks.size ≤ st.maxConcurrency
  unexpected_eq : st.unexpected = []

theorem wellFormed_new (id name taskType : String) (maxConcurrency taskTimeout : ℕ)
    (randomInt : NanoId → ℕ) :
    WellFormed [] (new id name taskType maxConcurrency taskTimeout randomInt) where
  received_eq := rfl
  taskId_eq := nofun
  tasks_accepted := nofun
  started_settings := nofun
  timers_nodup := List.nodup_nil
  timers_accepted := nofun
  timers_live := nofun
  executing_accepted := nofun
  executing_started := nofun
  size_le := Nat.zero_le maxConcurrency
  unexpected_eq := rfl

variable {received : List ToRunner}

/-- A handler that has nothing to do with tasks. -/
theorem WellFormed.congr (h : st.WellFormed received) (hreceived : st'.received = st.received)
    (htasks : st'.runningTasks = st.runningTasks)
    (htimers : st'.timers = st.timers) (hexecuting : st'.executing = st.executing)
    (hmax : st'.maxConcurrency = st.maxConcurrency) (hunexpected : st'.unexpected = st.unexpected) :
    st'.WellFormed received := by
  constructor
  · exact hreceived.trans h.received_eq
  all_goals try rw [htasks]
  · exact h.taskId_eq
  · exact h.tasks_accepted
  · exact h.started_settings
  · exact htimers.symm ▸ h.timers_nodup
  · exact htimers.symm ▸ h.timers_accepted
  · exact htimers.symm ▸ h.timers_live
  · exact hexecuting.symm ▸ h.executing_accepted
  · exact hexecuting.symm ▸ h.executing_started
  · exact hmax.symm ▸ h.size_le
  · exact hunexpected.trans h.unexpected_eq

theorem WellFormed.sendOffers (h : st.WellFormed received) :
    st.sendOffers.WellFormed received := by
  obtain ⟨_, _, _, heq, -, -⟩ := offers_sendOffers st
  rw [heq]
  exact h.congr rfl rfl rfl rfl rfl rfl

theorem WellFormed.cancelTaskRequests (h : st.WellFormed received) :
    (st.cancelTaskRequests taskId).WellFormed received := by
  obtain ⟨_, _, _, heq⟩ := cancels_cancelTaskRequests taskId st
  rw [heq]
  exact h.congr rfl rfl rfl rfl rfl rfl

/-! ### The handlers -/

theorem WellFormed.setStatus (h : st.WellFormed received) {status : TaskStatus}
    (htask : st.runningTasks.get? taskState.taskId = some taskState)
    (hsettings : status ≠ .waitingForSettings → taskState.taskId ∈ settingsReceived received)
    (htimer : status = .abortingTimeout → taskState.taskId ∉ st.timers)
    (hexecuting : status = .waitingForSettings → taskState.taskId ∉ st.executing) :
    (st.setStatus taskState status).WellFormed received := by
  have hmem : taskState.taskId ∈ st.runningTasks.keys :=
    InsertionMap.mem_keys.mpr ⟨taskState, InsertionMap.get?_eq_some_iff.mp htask⟩
  have hget : ∀ t s, (st.setStatus taskState status).runningTasks.get? t = some s →
      (t = taskState.taskId ∧ s = { taskState with status }) ∨
        (t ≠ taskState.taskId ∧ st.runningTasks.get? t = some s) := by
    intro t s hs
    rw [InsertionMap.get?_eq_some_iff] at hs ⊢
    exact InsertionMap.mem_set.mp hs
  exact { h with
    taskId_eq := fun t s hs => by
      obtain ⟨rfl, rfl⟩ | ⟨-, hs⟩ := hget t s hs
      · rfl
      · exact h.taskId_eq t s hs
    tasks_accepted := fun t ht => by
      obtain rfl | ht := InsertionMap.mem_keys_set.mp ht
      · exact h.tasks_accepted _ hmem
      · exact h.tasks_accepted t ht
    started_settings := fun t s hs hstatus => by
      obtain ⟨rfl, rfl⟩ | ⟨-, hs⟩ := hget t s hs
      · exact hsettings hstatus
      · exact h.started_settings t s hs hstatus
    timers_live := fun t ht s hs => by
      obtain ⟨rfl, rfl⟩ | ⟨-, hs⟩ := hget t s hs
      · exact fun heq => htimer heq ht
      · exact h.timers_live t ht s hs
    executing_started := fun t ht s hs => by
      obtain ⟨rfl, rfl⟩ | ⟨-, hs⟩ := hget t s hs
      · exact fun heq => hexecuting heq ht
      · exact h.executing_started t ht s hs
    size_le := Nat.le_trans (Nat.le_of_eq (InsertionMap.size_set_of_mem hmem _)) h.size_le }

theorem WellFormed.removeTask (h : st.WellFormed received) :
    (st.removeTask taskId).WellFormed received := by
  have hget : ∀ t s, (st.removeTask taskId).runningTasks.get? t = some s →
      st.runningTasks.get? t = some s := by
    intro t s hs
    rw [InsertionMap.get?_eq_some_iff] at hs ⊢
    exact (InsertionMap.mem_erase.mp hs).1
  have htimer : ∀ t ∈ (st.removeTask taskId).timers, t ∈ st.timers := fun t ht =>
    List.mem_of_mem_erase ht
  exact { h with
    taskId_eq := fun t s hs => h.taskId_eq t s (hget t s hs)
    tasks_accepted := fun t ht => h.tasks_accepted t (InsertionMap.mem_keys_erase.mp ht).1
    started_settings := fun t s hs => h.started_settings t s (hget t s hs)
    timers_nodup := h.timers_nodup.erase taskId
    timers_accepted := fun t ht => h.timers_accepted t (htimer t ht)
    timers_live := fun t ht s hs => h.timers_live t (htimer t ht) s (hget t s hs)
    executing_started := fun t ht s hs => h.executing_started t ht s (hget t s hs)
    size_le := Nat.le_trans (InsertionMap.size_erase_le _ _) h.size_le }

theorem WellFormed.finishTask (h : st.WellFormed received) :
    (st.finishTask taskState).WellFormed received :=
  h.removeTask.sendOffers

/-- The runner takes a task it has not taken before, when there is room for it. -/
theorem WellFormed.addTask (h : st.WellFormed received)
    (haccepted : taskId ∈ acceptsReceived received) (htimer : taskId ∉ st.timers)
    (hexecuting : taskId ∉ st.executing) (hroom : st.hasOpenTaskSlots = true) :
    (st.addTask taskId).WellFormed received := by
  have hlt : st.runningTasks.size < st.maxConcurrency := of_decide_eq_true hroom
  have hget : ∀ t s, (st.addTask taskId).runningTasks.get? t = some s →
      (t = taskId ∧ s = { taskId }) ∨ (t ≠ taskId ∧ st.runningTasks.get? t = some s) := by
    intro t s hs
    rw [InsertionMap.get?_eq_some_iff] at hs ⊢
    exact InsertionMap.mem_set.mp hs
  have hmem : ∀ t ∈ (st.addTask taskId).timers, t ∈ st.timers ∨ t = taskId := fun t ht =>
    (List.mem_append.mp ht).imp_right List.mem_singleton.mp
  exact { h with
    taskId_eq := fun t s hs => by
      obtain ⟨rfl, rfl⟩ | ⟨-, hs⟩ := hget t s hs
      · rfl
      · exact h.taskId_eq t s hs
    tasks_accepted := fun t ht => by
      obtain rfl | ht := InsertionMap.mem_keys_set.mp ht
      · exact haccepted
      · exact h.tasks_accepted t ht
    started_settings := fun t s hs hstatus => by
      obtain ⟨rfl, rfl⟩ | ⟨-, hs⟩ := hget t s hs
      · exact absurd rfl hstatus
      · exact h.started_settings t s hs hstatus
    timers_nodup :=
      h.timers_nodup.append (List.nodup_singleton _) (List.disjoint_singleton.mpr htimer)
    timers_accepted := fun t ht =>
      (hmem t ht).elim (h.timers_accepted t) fun heq => heq ▸ haccepted
    timers_live := fun t ht s hs => by
      obtain ⟨rfl, rfl⟩ | ⟨hne, hs⟩ := hget t s hs
      · exact TaskStatus.noConfusion
      · exact h.timers_live t ((hmem t ht).resolve_right hne) s hs
    executing_started := fun t ht s hs => by
      obtain ⟨rfl, rfl⟩ | ⟨-, hs⟩ := hget t s hs
      · exact absurd ht hexecuting
      · exact h.executing_started t ht s hs
    size_le := Nat.le_trans (InsertionMap.size_set_le _ _ _) hlt }

theorem WellFormed.send (h : st.WellFormed received) {message : RunnerMessage.ToBroker} :
    (st.send message).WellFormed received :=
  h.congr rfl rfl rfl rfl rfl rfl

theorem WellFormed.settle (h : st.WellFormed received) {requestId : NanoId} :
    (st.settle requestId).WellFormed received :=
  h.congr rfl rfl rfl rfl rfl rfl

theorem WellFormed.offerAccepted (h : st.WellFormed received) {offerId : NanoId}
    (haccepted : taskId ∈ acceptsReceived received) (htimer : taskId ∉ st.timers)
    (hexecuting : taskId ∉ st.executing) :
    (st.offerAccepted offerId taskId).WellFormed received := by
  have hoffer : (st.deleteOffer offerId).WellFormed received :=
    h.congr rfl rfl rfl rfl rfl rfl
  rw [TaskRunner.offerAccepted]
  split
  · exact h.send
  · split
    · exact hoffer.send
    next hroom =>
      split
      · exact h.send
      · exact (hoffer.addTask haccepted htimer hexecuting (not_not.mp hroom)).send

theorem WellFormed.taskCancelled (h : st.WellFormed received) :
    (st.taskCancelled taskId).WellFormed received := by
  rw [TaskRunner.taskCancelled]
  split
  · exact h
  next taskState htask =>
    have hid := h.taskId_eq _ _ htask
    split
    · exact h.finishTask
    · exact h
    · exact h
    next hrunning =>
      have hstarted : taskState.status ≠ .waitingForSettings := fun heq =>
        TaskStatus.noConfusion (hrunning.symm.trans heq)
      have hsettings := h.started_settings _ _ htask hstarted
      have hset : (st.setStatus taskState .abortingCancelled).WellFormed received :=
        h.setStatus (hid.symm ▸ htask) (fun _ => hid.symm ▸ hsettings) nofun nofun
      exact hset.cancelTaskRequests

/-- The timer of a task fires: its task is not aborting because of a timeout. -/
theorem WellFormed.taskTimedOut (h : st.WellFormed received) (htimer : taskId ∉ st.timers)
    (hlive : ∀ s, st.runningTasks.get? taskId = some s → s.status ≠ .abortingTimeout) :
    (st.taskTimedOut taskId).WellFormed received := by
  rw [TaskRunner.taskTimedOut]
  split
  · exact h
  next taskState htask =>
    have hid := h.taskId_eq _ _ htask
    split
    · exact h.send.finishTask
    next hstatus => exact absurd hstatus (hlive _ htask)
    next hrunning =>
      have hstarted : taskState.status ≠ .waitingForSettings := fun heq =>
        TaskStatus.noConfusion (hrunning.symm.trans heq)
      have hsettings := h.started_settings _ _ htask hstarted
      have hset : (st.setStatus taskState .abortingTimeout).WellFormed received :=
        h.setStatus (hid.symm ▸ htask) (fun _ => hid.symm ▸ hsettings)
          (fun _ => hid.symm ▸ htimer) nofun
      exact hset.cancelTaskRequests
    · exact h

theorem WellFormed.startExecution (h : st.WellFormed received)
    (haccepted : taskId ∈ acceptsReceived received)
    (hstarted : ∀ s, st.runningTasks.get? taskId = some s → s.status ≠ .waitingForSettings) :
    (st.startExecution taskId).WellFormed received := by
  have hmem : ∀ t ∈ (st.startExecution taskId).executing, t ∈ st.executing ∨ t = taskId :=
    fun t ht => (List.mem_append.mp ht).imp_right List.mem_singleton.mp
  exact { h with
    executing_accepted := fun t ht =>
      (hmem t ht).elim (h.executing_accepted t) fun heq => heq ▸ haccepted
    executing_started := fun t ht s hs =>
      (hmem t ht).elim (fun ht => h.executing_started t ht s hs) fun heq =>
        hstarted s (heq ▸ hs) }

/-- The settings of a task come while it waits for them. -/
theorem WellFormed.receivedSettings (h : st.WellFormed received)
    (hsettings : taskId ∈ settingsReceived received)
    (hwaiting : ∀ s, st.runningTasks.get? taskId = some s → s.status = .waitingForSettings) :
    (st.receivedSettings taskId).WellFormed received := by
  rw [TaskRunner.receivedSettings]
  split
  · exact h
  next taskState htask =>
    have hid := h.taskId_eq _ _ htask
    have hstatus := hwaiting _ htask
    split
    next heq => exact TaskStatus.noConfusion (hstatus.symm.trans heq)
    next heq => exact TaskStatus.noConfusion (hstatus.symm.trans heq)
    next heq => exact TaskStatus.noConfusion (hstatus.symm.trans heq)
    · have hmem : taskId ∈ st.runningTasks.keys :=
        InsertionMap.mem_keys.mpr ⟨_, InsertionMap.get?_eq_some_iff.mp htask⟩
      have hrunning : (st.setStatus taskState .running).WellFormed received :=
        h.setStatus (hid.symm ▸ htask) (fun _ => hid.symm ▸ hsettings) nofun nofun
      refine hrunning.startExecution (h.tasks_accepted _ hmem) fun s hs => ?_
      rw [TaskRunner.setStatus, hid, InsertionMap.get?_set_self] at hs
      obtain rfl := Option.some.inj hs
      exact TaskStatus.noConfusion

theorem WellFormed.taskExecutionFailed (h : st.WellFormed received) {error : JsonValue}
    (hstarted : taskState.status ≠ .waitingForSettings) :
    (st.taskExecutionFailed taskState error).WellFormed received := by
  rw [TaskRunner.taskExecutionFailed]
  split
  next heq => exact absurd heq hstarted
  · exact h.finishTask
  · exact h.send.finishTask
  · exact h.send.finishTask

theorem WellFormed.taskExecutionSucceeded (h : st.WellFormed received) {data : JsonValue}
    (hstarted : taskState.status ≠ .waitingForSettings) :
    (st.taskExecutionSucceeded taskState data).WellFormed received := by
  rw [TaskRunner.taskExecutionSucceeded]
  split
  next heq => exact absurd heq hstarted
  · exact h.finishTask
  · exact h.send.finishTask
  · exact h.send.finishTask

/-- The execution of a task ends: the task had started. -/
theorem WellFormed.executionEnded (h : st.WellFormed received)
    {result : Except JsonValue JsonValue} (hstarted : ∀ s,
      st.runningTasks.get? taskId = some s → s.status ≠ .waitingForSettings) :
    (st.executionEnded taskId result).WellFormed received := by
  rw [TaskRunner.executionEnded]
  split
  · exact h
  next taskState htask =>
    split
    · exact h.taskExecutionSucceeded (hstarted _ htask)
    · exact h.taskExecutionFailed (hstarted _ htask)

/-! ### One step -/

/-- **Step lemma**: every event keeps the runner well formed. -/
theorem WellFormed.step {e : Event} (h : st.WellFormed received)
    (hstep : st.step? e = some st') : st'.WellFormed received := by
  cases e with
  | interval =>
    obtain ⟨-, heq⟩ := Option.ite_none_right_eq_some.mp hstep
    obtain rfl := Option.some.inj heq
    exact h.sendOffers
  | timer taskId =>
    obtain ⟨hmem, heq⟩ := Option.ite_none_right_eq_some.mp hstep
    obtain rfl := Option.some.inj heq
    have hsub : ∀ t ∈ (st.takeTimer taskId).timers, t ∈ st.timers := fun t ht =>
      List.mem_of_mem_erase ht
    have htake : (st.takeTimer taskId).WellFormed received :=
      { h with
        timers_nodup := h.timers_nodup.erase taskId
        timers_accepted := fun t ht => h.timers_accepted t (hsub t ht)
        timers_live := fun t ht => h.timers_live t (hsub t ht) }
    exact htake.taskTimedOut h.timers_nodup.not_mem_erase (h.timers_live taskId hmem)
  | executionEnded taskId result =>
    obtain ⟨hmem, heq⟩ := Option.ite_none_right_eq_some.mp hstep
    obtain rfl := Option.some.inj heq
    have hsub : ∀ t ∈ (st.endExecution taskId).executing, t ∈ st.executing := fun t ht =>
      List.mem_of_mem_erase ht
    have hend : (st.endExecution taskId).WellFormed received :=
      { h with
        executing_accepted := fun t ht => h.executing_accepted t (hsub t ht)
        executing_started := fun t ht => h.executing_started t (hsub t ht) }
    exact hend.executionEnded (h.executing_started taskId hmem)
  | requestNodeTypes taskId requestParams =>
    obtain ⟨-, heq⟩ := Option.ite_none_right_eq_some.mp hstep
    obtain rfl := Option.some.inj heq
    exact h.congr rfl rfl rfl rfl rfl rfl
  | requestData taskId requestParams =>
    obtain ⟨-, heq⟩ := Option.ite_none_right_eq_some.mp hstep
    obtain rfl := Option.some.inj heq
    exact h.congr rfl rfl rfl rfl rfl rfl
  | makeRpcCall taskId name params =>
    obtain ⟨-, heq⟩ := Option.ite_none_right_eq_some.mp hstep
    obtain rfl := Option.some.inj heq
    exact h.congr rfl rfl rfl rfl rfl rfl
  | resume handler =>
    obtain ⟨-, heq⟩ := Option.ite_none_right_eq_some.mp hstep
    obtain rfl := Option.some.inj heq
    cases handler <;> exact h.congr rfl rfl rfl rfl rfl rfl
  | stop =>
    obtain rfl := Option.some.inj hstep
    exact h.congr rfl rfl rfl rfl rfl rfl
  | connectionClose =>
    obtain rfl := Option.some.inj hstep
    exact h.congr rfl rfl rfl rfl rfl rfl
  | tick now =>
    obtain ⟨-, heq⟩ := Option.ite_none_right_eq_some.mp hstep
    obtain rfl := Option.some.inj heq
    exact h.congr rfl rfl rfl rfl rfl rfl

/-- More messages have been received. -/
theorem WellFormed.record (h : st.WellFormed received) (message : ToRunner) :
    ({ st with received := st.received ++ [message] } : TaskRunner).WellFormed
      (received ++ [message]) := by
  have haccepts : ∀ t ∈ acceptsReceived received,
      t ∈ acceptsReceived (received ++ [message]) := fun t ht => by
    rw [acceptsReceived, List.filterMap_append]
    exact List.mem_append_left _ ht
  have hsettings : ∀ t ∈ settingsReceived received,
      t ∈ settingsReceived (received ++ [message]) := fun t ht => by
    rw [settingsReceived, List.filterMap_append]
    exact List.mem_append_left _ ht
  exact { h with
    received_eq := congrArg (· ++ [message]) h.received_eq
    tasks_accepted := fun t ht => haccepts t (h.tasks_accepted t ht)
    started_settings := fun t s hs hstatus => hsettings t (h.started_settings t s hs hstatus)
    timers_accepted := fun t ht => haccepts t (h.timers_accepted t ht)
    executing_accepted := fun t ht => haccepts t (h.executing_accepted t ht) }

/-- **Message lemma**: a message keeps the runner well formed, unless it offers a task or
gives settings for the second time. -/
theorem WellFormed.receiveMessage {message : ToRunner} (h : st.WellFormed received)
    (haccept : ∀ t, acceptTask message = some t → t ∉ acceptsReceived received)
    (hsettings : ∀ t, settingsTask message = some t → t ∉ settingsReceived received) :
    (st.receiveMessage message).WellFormed (received ++ [message]) := by
  have hrecord := h.record message
  have haccepted : ∀ t, acceptTask message = some t →
      t ∈ acceptsReceived (received ++ [message]) := fun t ht =>
    List.mem_filterMap.mpr ⟨message, List.mem_append_right _ List.mem_cons_self, ht⟩
  have hgiven : ∀ t, settingsTask message = some t →
      t ∈ settingsReceived (received ++ [message]) := fun t ht =>
    List.mem_filterMap.mpr ⟨message, List.mem_append_right _ List.mem_cons_self, ht⟩
  rw [TaskRunner.receiveMessage]
  cases message with
  | infoRequest => exact hrecord.send
  | runnerRegistered => exact hrecord.congr rfl rfl rfl rfl rfl rfl
  | taskOfferAccept offerId taskId =>
    have hnew := haccept taskId rfl
    exact hrecord.offerAccepted (haccepted taskId rfl)
      (fun ht => hnew (h.timers_accepted taskId ht))
      fun ht => hnew (h.executing_accepted taskId ht)
  | taskCancel taskId reason => exact hrecord.taskCancelled
  | taskSettings taskId settings =>
    refine hrecord.receivedSettings (hgiven taskId rfl) fun s hs => ?_
    by_contra hstatus
    exact hsettings taskId rfl (h.started_settings taskId s hs hstatus)
  | rpcResponse callId taskId status data =>
    rw [onMessage, handleRpcResponse]
    split
    · exact hrecord
    · exact hrecord.settle
  | taskDataResponse taskId requestId data =>
    rw [onMessage, processDataResponse]
    split
    · exact hrecord
    · exact hrecord.settle
  | nodeTypes taskId requestId nodeTypes =>
    rw [onMessage, processNodeTypesResponse]
    split
    · exact hrecord
    · exact hrecord.settle
  | drain => exact hrecord.congr rfl rfl rfl rfl rfl rfl

end N8n.TaskRunner
