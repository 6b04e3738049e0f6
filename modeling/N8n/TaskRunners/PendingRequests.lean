import N8n.Foundations.Transition
import N8n.TaskRunners.RunnerInvariant

/-!
# What a finished task leaves behind in the runner

A request of a task waits in one of three tables until its promise is settled. When a task
is cancelled or times out while it runs, `cancelTaskRequests` settles what is left of it in
two of the tables, for the third one does not know the task of a call. When a task ends in
another way nothing is settled. So a run leaves nothing behind exactly if no step ends a task
that still waits for something the step does not settle.
-/

namespace N8n.TaskRunner

open BrokerMessage Transition

variable {st st' : TaskRunner} {taskId id t : NanoId}

/-- What can happen to the runner. -/
inductive Action where
  | receive (message : ToRunner)
  | event (e : Event)

def act? (st : TaskRunner) : Action → Option TaskRunner
  | .receive message => some (st.receiveMessage message)
  | .event e => st.step? e

def Step (st : TaskRunner) (a : Action) (st' : TaskRunner) : Prop := st.act? a = some st'

/-! ### Pending requests -/

/-- The entry of `dataRequests` with this id was created on behalf of the task. -/
def DataFor (id taskId : NanoId) (st : TaskRunner) : Prop :=
  ∃ r, st.dataRequests.get? id = some r ∧ r.taskId = taskId

/-- The entry of `nodeTypesRequests` with this id was created on behalf of the task. -/
def NodeTypesFor (id taskId : NanoId) (st : TaskRunner) : Prop :=
  ∃ r, st.nodeTypesRequests.get? id = some r ∧ r.taskId = taskId

/-- The entry of `rpcCalls` with this id was created on behalf of the task: the call that was
sent says so. -/
def RpcFor (id taskId : NanoId) (st : TaskRunner) : Prop :=
  id ∈ st.rpcCalls.keys ∧ ∃ name params, RunnerMessage.ToBroker.rpc id taskId name params ∈ st.sent

/-- A request that was made on behalf of the task, and whose promise is not settled. -/
def Pending (id taskId : NanoId) (st : TaskRunner) : Prop :=
  (st.DataFor id taskId ∨ st.NodeTypesFor id taskId ∨ st.RpcFor id taskId) ∧ id ∉ st.settled

/-- The task is there and not aborting. -/
def Live (taskId : NanoId) (st : TaskRunner) : Prop :=
  ∃ s, st.runningTasks.get? taskId = some s ∧
    (s.status = .waitingForSettings ∨ s.status = .running)

/-- No request of a task that has ended or is aborting is pending. -/
def LeavesNothing (st : TaskRunner) : Prop := ∀ id t, st.Pending id t → st.Live t

/-- A task that is cancelled or times out is running, and what it waits for is no call. -/
def AbortsClean (taskId : NanoId) (st : TaskRunner) : Prop :=
  ∀ id, st.Pending id taskId →
    (∃ s, st.runningTasks.get? taskId = some s ∧ s.status = .running) ∧ ¬st.RpcFor id taskId

/-- What a step ends waits for nothing that the step does not settle, and only a live task
asks for something. -/
def EndsClean (st : TaskRunner) : Action → Prop
  | .receive (.taskCancel taskId _) | .event (.timer taskId) => st.AbortsClean taskId
  | .event (.executionEnded taskId _) => ∀ id, ¬st.Pending id taskId
  | .event (.requestNodeTypes taskId _) | .event (.requestData taskId _)
  | .event (.makeRpcCall taskId _ _) => st.Live taskId
  | _ => True

/-! ### Ids -/

/-- The ids of requests: each is the key of its entry and was made before, and a call has no
id of another request. -/
structure RequestIds (st : TaskRunner) : Prop where
  data_id : ∀ id r, st.dataRequests.get? id = some r → r.requestId = id ∧ id < st.nextId
  nodeTypes_id : ∀ id r, st.nodeTypesRequests.get? id = some r → r.requestId = id ∧ id < st.nextId
  rpc_lt : ∀ id ∈ st.rpcCalls.keys, id < st.nextId
  sent_lt : ∀ id t name params, .rpc id t name params ∈ st.sent → id < st.nextId
  settled_lt : ∀ id ∈ st.settled, id < st.nextId
  rpc_not_data : ∀ id ∈ st.rpcCalls.keys, st.dataRequests.get? id = none
  rpc_not_nodeTypes : ∀ id ∈ st.rpcCalls.keys, st.nodeTypesRequests.get? id = none

/-! ### Steps that have nothing to do with requests -/

/-- The requests are the same in both states. -/
structure SameRequests (st st' : TaskRunner) : Prop where
  dataRequests : st'.dataRequests = st.dataRequests
  nodeTypesRequests : st'.nodeTypesRequests = st.nodeTypesRequests
  rpcCalls : st'.rpcCalls = st.rpcCalls
  settled : st'.settled = st.settled
  rpc_sent : ∀ id t name params, .rpc id t name params ∈ st'.sent ↔ .rpc id t name params ∈ st.sent
  nextId_le : st.nextId ≤ st'.nextId

theorem SameRequests.trans {st₁ st₂ st₃ : TaskRunner} (h : SameRequests st₁ st₂)
    (h' : SameRequests st₂ st₃) : SameRequests st₁ st₃ where
  dataRequests := h'.dataRequests.trans h.dataRequests
  nodeTypesRequests := h'.nodeTypesRequests.trans h.nodeTypesRequests
  rpcCalls := h'.rpcCalls.trans h.rpcCalls
  settled := h'.settled.trans h.settled
  rpc_sent id t name params := (h'.rpc_sent id t name params).trans (h.rpc_sent id t name params)
  nextId_le := Nat.le_trans h.nextId_le h'.nextId_le

theorem SameRequests.rpcFor_iff (h : SameRequests st st') : st'.RpcFor id t ↔ st.RpcFor id t := by
  rw [RpcFor, RpcFor, h.rpcCalls]
  simp only [h.rpc_sent]

theorem SameRequests.pending_iff (h : SameRequests st st') :
    st'.Pending id t ↔ st.Pending id t := by
  rw [Pending, Pending, h.rpcFor_iff, DataFor, DataFor, NodeTypesFor, NodeTypesFor, h.dataRequests,
    h.nodeTypesRequests, h.settled]

theorem SameRequests.requestIds (h : SameRequests st st') (hids : RequestIds st) :
    RequestIds st' where
  data_id id r hr := (hids.data_id id r (h.dataRequests ▸ hr)).imp_right fun hlt =>
    Nat.lt_of_lt_of_le hlt h.nextId_le
  nodeTypes_id id r hr := (hids.nodeTypes_id id r (h.nodeTypesRequests ▸ hr)).imp_right fun hlt =>
    Nat.lt_of_lt_of_le hlt h.nextId_le
  rpc_lt id hid := Nat.lt_of_lt_of_le (hids.rpc_lt id (h.rpcCalls ▸ hid)) h.nextId_le
  sent_lt id t name params hm :=
    Nat.lt_of_lt_of_le (hids.sent_lt id t name params ((h.rpc_sent _ _ _ _).mp hm)) h.nextId_le
  settled_lt id hid := Nat.lt_of_lt_of_le (hids.settled_lt id (h.settled ▸ hid)) h.nextId_le
  rpc_not_data id hid := h.dataRequests ▸ hids.rpc_not_data id (h.rpcCalls ▸ hid)
  rpc_not_nodeTypes id hid := h.nodeTypesRequests ▸ hids.rpc_not_nodeTypes id (h.rpcCalls ▸ hid)

theorem sameRequests_send {message : RunnerMessage.ToBroker}
    (hmessage : ∀ id t name params, message ≠ .rpc id t name params) :
    SameRequests st (st.send message) := by
  refine ⟨rfl, rfl, rfl, rfl, fun id t name params => ?_, Nat.le_refl _⟩
  rw [send, List.mem_append, List.mem_singleton]
  exact or_iff_left (hmessage id t name params).symm

theorem sameRequests_sendOffers (st : TaskRunner) : SameRequests st st.sendOffers := by
  obtain ⟨openOffers, nextId, offers, heq, hle, hoffers⟩ := offers_sendOffers st
  rw [heq]
  refine ⟨rfl, rfl, rfl, rfl, fun id t name params => ?_, hle⟩
  rw [List.mem_append]
  refine or_iff_left fun hm => ?_
  obtain ⟨o, ty, v, hm⟩ := hoffers _ hm
  cases hm

theorem sameRequests_finishTask (taskState : TaskState) (st : TaskRunner) :
    SameRequests st (st.finishTask taskState) := by
  have hremove : SameRequests st (st.removeTask taskState.taskId) :=
    ⟨rfl, rfl, rfl, rfl, fun _ _ _ _ => Iff.rfl, Nat.le_refl _⟩
  exact hremove.trans (sameRequests_sendOffers _)

theorem runningTasks_finishTask (taskState : TaskState) (st : TaskRunner) :
    (st.finishTask taskState).runningTasks = st.runningTasks.erase taskState.taskId := by
  obtain ⟨_, _, _, heq, -, -⟩ := offers_sendOffers (st.removeTask taskState.taskId)
  rw [finishTask, heq]
  rfl

/-! ### The end of a task -/

/-- Tasks know their keys. -/
def Keyed (st : TaskRunner) : Prop := ∀ t s, st.runningTasks.get? t = some s → s.taskId = t

/-- A task goes, and its requests stay. -/
structure Finishes (taskId : NanoId) (st st' : TaskRunner) : Prop where
  requests : SameRequests st st'
  get?_eq : ∀ t, st'.runningTasks.get? t = if t = taskId then none else st.runningTasks.get? t

theorem finishes_finishTask {taskState : TaskState} (hid : taskState.taskId = taskId) :
    Finishes taskId st (st.finishTask taskState) where
  requests := sameRequests_finishTask taskState st
  get?_eq t := by rw [runningTasks_finishTask, hid, InsertionMap.get?_erase]

/-- What is sent or reported before a task goes. -/
theorem Finishes.of_same {st₁ : TaskRunner} (h : Finishes taskId st₁ st')
    (hrequests : SameRequests st st₁) (htasks : st₁.runningTasks = st.runningTasks) :
    Finishes taskId st st' where
  requests := hrequests.trans h.requests
  get?_eq := htasks ▸ h.get?_eq

/-- A task that has gone goes again. -/
theorem Finishes.again {st₁ : TaskRunner} (h : Finishes taskId st st₁)
    (h' : Finishes taskId st₁ st') : Finishes taskId st st' where
  requests := h.requests.trans h'.requests
  get?_eq t := by
    rw [h'.get?_eq, h.get?_eq]
    split <;> rfl

theorem Finishes.keyed (h : Finishes taskId st st') (hkeyed : Keyed st) : Keyed st' := by
  intro t s hs
  rw [h.get?_eq] at hs
  exact hkeyed t s (Option.ite_none_left_eq_some.mp hs).2

theorem Finishes.not_live (h : Finishes taskId st st') : ¬st'.Live taskId := by
  rintro ⟨s, hs, -⟩
  rw [h.get?_eq, if_pos rfl] at hs
  cases hs

theorem Finishes.live (h : Finishes taskId st st') (hne : t ≠ taskId) (ht : st.Live t) :
    st'.Live t := by
  obtain ⟨s, hs, hstatus⟩ := ht
  exact ⟨s, by rw [h.get?_eq, if_neg hne, hs], hstatus⟩

/-- A task that goes leaves nothing exactly if nothing of it is pending. -/
theorem Finishes.leavesNothing_iff (h : Finishes taskId st st') (hst : LeavesNothing st) :
    LeavesNothing st' ↔ ∀ id, ¬st.Pending id taskId := by
  constructor
  · intro hst' id hid
    exact h.not_live (hst' id taskId (h.requests.pending_iff.mpr hid))
  · intro hnone id t hid
    have hpending := h.requests.pending_iff.mp hid
    have hne : t ≠ taskId := by
      rintro rfl
      exact hnone id hpending
    exact h.live hne (hst id t hpending)

theorem sameRequests_throwUnexpectedTaskStatus (taskState : TaskState) (st : TaskRunner) :
    SameRequests st (st.throwUnexpectedTaskStatus taskState) :=
  ⟨rfl, rfl, rfl, rfl, fun _ _ _ _ => Iff.rfl, Nat.le_refl _⟩

theorem finishes_taskExecutionFailed {taskState : TaskState} (hid : taskState.taskId = taskId)
    (error : JsonValue) : Finishes taskId st (st.taskExecutionFailed taskState error) := by
  rw [taskExecutionFailed]
  split
  · exact (finishes_finishTask hid).of_same (sameRequests_throwUnexpectedTaskStatus _ _) rfl
  · exact finishes_finishTask hid
  · exact (finishes_finishTask hid).of_same (sameRequests_send (by simp)) rfl
  · exact (finishes_finishTask hid).of_same (sameRequests_send (by simp)) rfl

theorem finishes_taskExecutionSucceeded {taskState : TaskState} (hid : taskState.taskId = taskId)
    (data : JsonValue) : Finishes taskId st (st.taskExecutionSucceeded taskState data) := by
  rw [taskExecutionSucceeded]
  split
  · have hfirst : Finishes taskId st
        ((st.throwUnexpectedTaskStatus taskState).finishTask taskState) :=
      (finishes_finishTask hid).of_same (sameRequests_throwUnexpectedTaskStatus _ _) rfl
    exact hfirst.again (finishes_taskExecutionFailed hid _)
  · exact finishes_finishTask hid
  · exact (finishes_finishTask hid).of_same (sameRequests_send (by simp)) rfl
  · exact (finishes_finishTask hid).of_same (sameRequests_send (by simp)) rfl

theorem finishes_executionEnded {taskState : TaskState} (hkeyed : Keyed st)
    (htask : st.runningTasks.get? taskId = some taskState) (result : Except JsonValue JsonValue) :
    Finishes taskId st (st.executionEnded taskId result) := by
  have hid := hkeyed _ _ htask
  rw [executionEnded, htask]
  cases result with
  | ok data => exact finishes_taskExecutionSucceeded hid data
  | error error => exact finishes_taskExecutionFailed hid error

/-! ### The requests that are cancelled -/

theorem foldl_cancelDataRequest (l : List DataRequest) (st : TaskRunner) :
    l.foldl (cancelDataRequest taskId) st =
      { st with
        settled := l.foldl
          (fun s r => if r.taskId = taskId then s.add r.requestId else s) st.settled
        dataRequests := l.foldl
          (fun m r => if r.taskId = taskId then m.erase r.requestId else m) st.dataRequests } := by
  induction l generalizing st with
  | nil => rfl
  | cons r l ih =>
    rw [List.foldl_cons, ih, cancelDataRequest, List.foldl_cons, List.foldl_cons]
    by_cases hr : r.taskId = taskId
    · rw [if_pos hr, if_pos hr, if_pos hr]
      rfl
    · rw [if_neg hr, if_neg hr, if_neg hr]

theorem foldl_cancelNodeTypesRequest (l : List NodeTypesRequest) (st : TaskRunner) :
    l.foldl (cancelNodeTypesRequest taskId) st =
      { st with
        settled := l.foldl
          (fun s r => if r.taskId = taskId then s.add r.requestId else s) st.settled
        nodeTypesRequests := l.foldl
          (fun m r => if r.taskId = taskId then m.erase r.requestId else m)
          st.nodeTypesRequests } := by
  induction l generalizing st with
  | nil => rfl
  | cons r l ih =>
    rw [List.foldl_cons, ih, cancelNodeTypesRequest, List.foldl_cons, List.foldl_cons]
    by_cases hr : r.taskId = taskId
    · rw [if_pos hr, if_pos hr, if_pos hr]
      rfl
    · rw [if_neg hr, if_neg hr, if_neg hr]

/-- What `cancelTaskRequests` settles are data and node type requests, and no entry of these
is left for the task. -/
structure CancelsRequests (taskId : NanoId) (st st' : TaskRunner) : Prop where
  data_iff : ∀ id r, st'.dataRequests.get? id = some r ↔
    st.dataRequests.get? id = some r ∧ r.taskId ≠ taskId
  nodeTypes_iff : ∀ id r, st'.nodeTypesRequests.get? id = some r ↔
    st.nodeTypesRequests.get? id = some r ∧ r.taskId ≠ taskId
  rpcCalls : st'.rpcCalls = st.rpcCalls
  sent : st'.sent = st.sent
  nextId : st'.nextId = st.nextId
  runningTasks : st'.runningTasks = st.runningTasks
  settled_mono : ∀ id ∈ st.settled, id ∈ st'.settled
  settled_cases : ∀ id ∈ st'.settled, id ∈ st.settled ∨ st.dataRequests.get? id ≠ none ∨
    st.nodeTypesRequests.get? id ≠ none

theorem cancelsRequests_cancelTaskRequests (taskId : NanoId) (h : RequestIds st) :
    CancelsRequests taskId st (st.cancelTaskRequests taskId) := by
  rw [cancelTaskRequests, foldl_cancelDataRequest, foldl_cancelNodeTypesRequest]
  refine ⟨fun id r => ?_, fun id r => ?_, rfl, rfl, rfl, rfl, fun id hid => ?_, fun id hid => ?_⟩
  · exact InsertionMap.get?_foldl_erase_values _ fun k a ha => (h.data_id k a ha).1
  · exact InsertionMap.get?_foldl_erase_values _ fun k a ha => (h.nodeTypes_id k a ha).1
  · exact (InsertionSet.mem_foldl_add _ _).mpr
      (Or.inl ((InsertionSet.mem_foldl_add _ _).mpr (Or.inl hid)))
  · obtain hid | ⟨r, hr, -, rfl⟩ := (InsertionSet.mem_foldl_add _ _).mp hid
    · obtain hid | ⟨r, hr, -, rfl⟩ := (InsertionSet.mem_foldl_add _ _).mp hid
      · exact Or.inl hid
      · obtain ⟨k, hk⟩ := InsertionMap.mem_values.mp hr
        have hget := InsertionMap.get?_eq_some_iff.mpr hk
        rw [(h.data_id _ _ hget).1, hget]
        exact Or.inr (Or.inl nofun)
    · obtain ⟨k, hk⟩ := InsertionMap.mem_values.mp hr
      have hget := InsertionMap.get?_eq_some_iff.mpr hk
      rw [(h.nodeTypes_id _ _ hget).1, hget]
      exact Or.inr (Or.inr nofun)

theorem CancelsRequests.rpcFor_iff (h : CancelsRequests taskId st st') :
    st'.RpcFor id t ↔ st.RpcFor id t := by
  rw [RpcFor, RpcFor, h.rpcCalls, h.sent]

theorem CancelsRequests.requestIds (h : CancelsRequests taskId st st') (hids : RequestIds st) :
    RequestIds st' where
  data_id id r hr := h.nextId.symm ▸ hids.data_id id r ((h.data_iff id r).mp hr).1
  nodeTypes_id id r hr := h.nextId.symm ▸ hids.nodeTypes_id id r ((h.nodeTypes_iff id r).mp hr).1
  rpc_lt id hid := h.nextId.symm ▸ hids.rpc_lt id (h.rpcCalls ▸ hid)
  sent_lt id t name params hm := h.nextId.symm ▸ hids.sent_lt id t name params (h.sent ▸ hm)
  settled_lt id hid := by
    rw [h.nextId]
    obtain hid | hid | hid := h.settled_cases id hid
    · exact hids.settled_lt id hid
    · obtain ⟨r, hr⟩ := Option.ne_none_iff_exists'.mp hid
      exact (hids.data_id id r hr).2
    · obtain ⟨r, hr⟩ := Option.ne_none_iff_exists'.mp hid
      exact (hids.nodeTypes_id id r hr).2
  rpc_not_data id hid := Option.eq_none_iff_forall_not_mem.mpr fun r hr => by
    have hnone := hids.rpc_not_data id (h.rpcCalls ▸ hid)
    rw [Option.mem_def, h.data_iff, hnone] at hr
    cases hr.1
  rpc_not_nodeTypes id hid := Option.eq_none_iff_forall_not_mem.mpr fun r hr => by
    have hnone := hids.rpc_not_nodeTypes id (h.rpcCalls ▸ hid)
    rw [Option.mem_def, h.nodeTypes_iff, hnone] at hr
    cases hr.1

/-- What is still pending was pending before, and of the task itself only calls are. -/
theorem CancelsRequests.pending (h : CancelsRequests taskId st st') (hid : st'.Pending id t) :
    st.Pending id t ∧ (t = taskId → st.RpcFor id t) := by
  obtain ⟨⟨r, hr, rfl⟩ | ⟨r, hr, rfl⟩ | hrpc, hsettled⟩ := hid
  · obtain ⟨hr, hne⟩ := (h.data_iff id r).mp hr
    exact ⟨⟨Or.inl ⟨r, hr, rfl⟩, mt (h.settled_mono id) hsettled⟩, fun heq => absurd heq hne⟩
  · obtain ⟨hr, hne⟩ := (h.nodeTypes_iff id r).mp hr
    exact ⟨⟨Or.inr (Or.inl ⟨r, hr, rfl⟩), mt (h.settled_mono id) hsettled⟩,
      fun heq => absurd heq hne⟩
  · have hrpc := h.rpcFor_iff.mp hrpc
    exact ⟨⟨Or.inr (Or.inr hrpc), mt (h.settled_mono id) hsettled⟩, fun _ => hrpc⟩

/-- A pending call stays pending. -/
theorem CancelsRequests.pending_of_rpcFor (h : CancelsRequests taskId st st')
    (hids : RequestIds st) (hid : st.Pending id t) (hrpc : st.RpcFor id t) : st'.Pending id t := by
  refine ⟨Or.inr (Or.inr (h.rpcFor_iff.mpr hrpc)), fun hsettled => ?_⟩
  obtain hmem | hdata | hnodeTypes := h.settled_cases id hsettled
  · exact hid.2 hmem
  · exact hdata (hids.rpc_not_data id hrpc.1)
  · exact hnodeTypes (hids.rpc_not_nodeTypes id hrpc.1)

/-! ### The invariant -/

/-- What the runner keeps about its requests, whatever happens. -/
structure Held (st : TaskRunner) : Prop where
  ids : RequestIds st
  keyed : Keyed st

/-- A running task is aborted, and its requests are cancelled. -/
theorem Held.abort (h : Held st) (hst : LeavesNothing st) {taskState : TaskState}
    {status : TaskStatus} (htask : st.runningTasks.get? taskId = some taskState)
    (hrunning : taskState.status = .running)
    (hstatus : status = .abortingCancelled ∨ status = .abortingTimeout) :
    Held ((st.setStatus taskState status).cancelTaskRequests taskId) ∧
      (LeavesNothing ((st.setStatus taskState status).cancelTaskRequests taskId) ↔
        st.AbortsClean taskId) := by
  have hid := h.keyed _ _ htask
  have hset : SameRequests st (st.setStatus taskState status) :=
    ⟨rfl, rfl, rfl, rfl, fun _ _ _ _ => Iff.rfl, Nat.le_refl _⟩
  have hids := hset.requestIds h.ids
  have hcancels := cancelsRequests_cancelTaskRequests taskId hids
  have hget : ∀ t, ((st.setStatus taskState status).cancelTaskRequests taskId).runningTasks.get? t =
      if t = taskId then some { taskState with status } else st.runningTasks.get? t := fun t => by
    rw [hcancels.runningTasks, setStatus, hid, InsertionMap.get?_set]
  have hnot : ¬((st.setStatus taskState status).cancelTaskRequests taskId).Live taskId := by
    rintro ⟨s, hs, hlive⟩
    rw [hget, if_pos rfl] at hs
    obtain rfl := Option.some.inj hs
    obtain rfl | rfl := hstatus <;> obtain h | h := hlive <;> cases h
  refine ⟨⟨hcancels.requestIds hids, fun t s hs => ?_⟩, fun hst' id hpending => ?_,
    fun hclean id t hpending => ?_⟩
  · rw [hget] at hs
    split at hs
    next heq =>
      obtain rfl := Option.some.inj hs
      exact hid.trans heq.symm
    · exact h.keyed t s hs
  · refine ⟨⟨taskState, htask, hrunning⟩, fun hrpc => hnot (hst' id taskId ?_)⟩
    exact hcancels.pending_of_rpcFor hids (hset.pending_iff.mpr hpending)
      (hset.rpcFor_iff.mpr hrpc)
  · obtain ⟨hbefore, hcall⟩ := hcancels.pending hpending
    have hbefore := hset.pending_iff.mp hbefore
    have hne : t ≠ taskId := fun heq =>
      (hclean id (heq ▸ hbefore)).2 (heq ▸ hset.rpcFor_iff.mp (hcall heq))
    obtain ⟨s, hs, hlive⟩ := hst id t hbefore
    exact ⟨s, by rw [hget, if_neg hne, hs], hlive⟩

/-- Nothing happens to requests and tasks. -/
theorem Held.same (h : Held st) (hrequests : SameRequests st st')
    (htasks : st'.runningTasks = st.runningTasks) :
    Held st' ∧ (LeavesNothing st' ↔ LeavesNothing st) := by
  refine ⟨⟨hrequests.requestIds h.ids, fun t s hs => h.keyed t s (htasks ▸ hs)⟩, ?_⟩
  simp only [LeavesNothing, hrequests.pending_iff, Live, htasks]

/-- A task that is not live waits for nothing. -/
theorem LeavesNothing.abortsClean (h : LeavesNothing st) (hnot : ¬st.Live taskId) :
    st.AbortsClean taskId := fun id hid => absurd (h id taskId hid) hnot

/-- A task that waits for its settings is clean only without requests. -/
theorem abortsClean_iff_of_waiting {taskState : TaskState}
    (htask : st.runningTasks.get? taskId = some taskState)
    (hwaiting : taskState.status = .waitingForSettings) :
    st.AbortsClean taskId ↔ ∀ id, ¬st.Pending id taskId := by
  refine ⟨fun h id hid => ?_, fun h id hid => absurd hid (h id)⟩
  obtain ⟨⟨s, hs, hrunning⟩, -⟩ := h id hid
  obtain rfl := Option.some.inj (htask.symm.trans hs)
  exact TaskStatus.noConfusion (hwaiting.symm.trans hrunning)

private theorem not_live_of_get? {taskState : TaskState}
    (htask : st.runningTasks.get? taskId = some taskState)
    (hwaiting : taskState.status ≠ .waitingForSettings) (hrunning : taskState.status ≠ .running) :
    ¬st.Live taskId := by
  rintro ⟨s, hs, hlive⟩
  obtain rfl := Option.some.inj (htask.symm.trans hs)
  exact hlive.elim hwaiting hrunning

theorem Held.taskCancelled (h : Held st) (hst : LeavesNothing st) (taskId : NanoId) :
    Held (st.taskCancelled taskId) ∧
      (LeavesNothing (st.taskCancelled taskId) ↔ st.AbortsClean taskId) := by
  rw [TaskRunner.taskCancelled]
  split
  next hnone =>
    have hnot : ¬st.Live taskId := by
      rintro ⟨s, hs, -⟩
      cases hnone.symm.trans hs
    exact ⟨h, iff_of_true hst (hst.abortsClean hnot)⟩
  next taskState htask =>
    split
    next hwaiting =>
      have hfinishes : Finishes taskId st (st.finishTask taskState) :=
        finishes_finishTask (h.keyed _ _ htask)
      refine ⟨⟨hfinishes.requests.requestIds h.ids, hfinishes.keyed h.keyed⟩, ?_⟩
      rw [hfinishes.leavesNothing_iff hst, abortsClean_iff_of_waiting htask hwaiting]
    next hstatus =>
      have hnot := not_live_of_get? htask (hstatus ▸ (by simp)) (hstatus ▸ (by simp))
      exact ⟨h, iff_of_true hst (hst.abortsClean hnot)⟩
    next hstatus =>
      have hnot := not_live_of_get? htask (hstatus ▸ (by simp)) (hstatus ▸ (by simp))
      exact ⟨h, iff_of_true hst (hst.abortsClean hnot)⟩
    next hrunning => exact h.abort hst htask hrunning (Or.inl rfl)

theorem Held.taskTimedOut (h : Held st) (hst : LeavesNothing st) (taskId : NanoId) :
    Held (st.taskTimedOut taskId) ∧
      (LeavesNothing (st.taskTimedOut taskId) ↔ st.AbortsClean taskId) := by
  rw [TaskRunner.taskTimedOut]
  split
  next hnone =>
    have hnot : ¬st.Live taskId := by
      rintro ⟨s, hs, -⟩
      cases hnone.symm.trans hs
    exact ⟨h, iff_of_true hst (hst.abortsClean hnot)⟩
  next taskState htask =>
    split
    next hwaiting =>
      have hfinishes : Finishes taskId st ((st.send (.taskError taskId timeoutError)).finishTask
          taskState) :=
        (finishes_finishTask (h.keyed _ _ htask)).of_same (sameRequests_send (by simp)) rfl
      refine ⟨⟨hfinishes.requests.requestIds h.ids, hfinishes.keyed h.keyed⟩, ?_⟩
      rw [hfinishes.leavesNothing_iff hst, abortsClean_iff_of_waiting htask hwaiting]
    next hstatus =>
      have hnot := not_live_of_get? htask (hstatus ▸ (by simp)) (hstatus ▸ (by simp))
      obtain ⟨hheld, hiff⟩ := h.same (sameRequests_throwUnexpectedTaskStatus taskState st) rfl
      exact ⟨hheld, iff_of_true (hiff.mpr hst) (hst.abortsClean hnot)⟩
    next hrunning => exact h.abort hst htask hrunning (Or.inr rfl)
    next hstatus =>
      have hnot := not_live_of_get? htask (hstatus ▸ (by simp)) (hstatus ▸ (by simp))
      exact ⟨h, iff_of_true hst (hst.abortsClean hnot)⟩

/-! ### Requests are made and answered -/

/-- One request more is pending, under a new id. -/
structure Asks (taskId : NanoId) (st st' : TaskRunner) : Prop where
  held : Held st'
  runningTasks : st'.runningTasks = st.runningTasks
  pending_iff : ∀ id t, st'.Pending id t ↔ st.Pending id t ∨ id = st.nextId ∧ t = taskId

theorem Asks.leavesNothing_iff (h : Asks taskId st st') (hst : LeavesNothing st) :
    LeavesNothing st' ↔ st.Live taskId := by
  have hlive : ∀ t, st'.Live t ↔ st.Live t := fun t => by rw [Live, h.runningTasks, Live]
  constructor
  · intro hst'
    exact (hlive taskId).mp (hst' _ _ ((h.pending_iff _ _).mpr (Or.inr ⟨rfl, rfl⟩)))
  · intro htask id t hid
    rw [hlive]
    obtain hid | ⟨-, rfl⟩ := (h.pending_iff id t).mp hid
    · exact hst id t hid
    · exact htask

theorem RequestIds.data_new (h : RequestIds st) : st.dataRequests.get? st.nextId = none :=
  Option.eq_none_iff_forall_not_mem.mpr fun r hr => Nat.lt_irrefl _ (h.data_id _ r hr).2

theorem RequestIds.nodeTypes_new (h : RequestIds st) : st.nodeTypesRequests.get? st.nextId = none :=
  Option.eq_none_iff_forall_not_mem.mpr fun r hr => Nat.lt_irrefl _ (h.nodeTypes_id _ r hr).2

theorem RequestIds.settled_new (h : RequestIds st) : st.nextId ∉ st.settled := fun hmem =>
  Nat.lt_irrefl _ (h.settled_lt _ hmem)

private theorem mem_concat_of_ne {sent : List RunnerMessage.ToBroker} {name : String}
    {params : List JsonValue} (message : RunnerMessage.ToBroker)
    (hmessage : ∀ id t name params, message ≠ .rpc id t name params) :
    RunnerMessage.ToBroker.rpc id t name params ∈ sent ++ [message] ↔
      .rpc id t name params ∈ sent := by
  rw [List.mem_append, List.mem_singleton]
  exact or_iff_left (hmessage id t name params).symm

/-- An entry under a new key adds what it was made for. -/
private theorem exists_get?_set {α : Type} {m : InsertionMap NanoId α} {n : NanoId} {a : α}
    (f : α → NanoId) (hn : m.get? n = none) :
    (∃ r, (m.set n a).get? id = some r ∧ f r = t) ↔
      (∃ r, m.get? id = some r ∧ f r = t) ∨ id = n ∧ t = f a := by
  rw [InsertionMap.get?_set]
  by_cases hid : id = n
  · simp [hid, hn, eq_comm]
  · simp [hid]

/-- A request with a new id is made. -/
theorem asks_of_new (h : Held st) (hids : RequestIds st')
    (htasks : st'.runningTasks = st.runningTasks) (hsettled : st'.settled = st.settled)
    (hfor : ∀ id t, st'.DataFor id t ∨ st'.NodeTypesFor id t ∨ st'.RpcFor id t ↔
      (st.DataFor id t ∨ st.NodeTypesFor id t ∨ st.RpcFor id t) ∨ id = st.nextId ∧ t = taskId) :
    Asks taskId st st' where
  held := ⟨hids, fun t s hs => h.keyed t s (htasks ▸ hs)⟩
  runningTasks := htasks
  pending_iff id t := by
    rw [Pending, Pending, hfor, hsettled, or_and_right]
    refine or_congr_right (and_iff_left_of_imp ?_)
    rintro ⟨rfl, -⟩
    exact h.ids.settled_new

theorem asks_requestData (h : Held st) (taskId : NanoId) (requestParams : JsonValue) :
    Asks taskId st (st.requestData taskId requestParams) := by
  have hsent : ∀ {id t name params}, .rpc id t name params ∈
      (st.requestData taskId requestParams).sent ↔ .rpc id t name params ∈ st.sent :=
    mem_concat_of_ne (.taskDataRequest taskId st.nextId requestParams) nofun
  have hids : RequestIds (st.requestData taskId requestParams) :=
    { data_id := fun id r hr => by
        rw [requestData, send, InsertionMap.get?_set] at hr
        split at hr
        next heq =>
          obtain rfl := Option.some.inj hr
          exact ⟨heq.symm, heq ▸ Nat.lt_succ_self _⟩
        · exact (h.ids.data_id id r hr).imp_right Nat.lt_succ_of_lt
      nodeTypes_id := fun id r hr => (h.ids.nodeTypes_id id r hr).imp_right Nat.lt_succ_of_lt
      rpc_lt := fun id hid => Nat.lt_succ_of_lt (h.ids.rpc_lt id hid)
      sent_lt := fun id t name params hm =>
        Nat.lt_succ_of_lt (h.ids.sent_lt id t name params (hsent.mp hm))
      settled_lt := fun id hid => Nat.lt_succ_of_lt (h.ids.settled_lt id hid)
      rpc_not_data := fun id hid => by
        rw [requestData, send, InsertionMap.get?_set,
          if_neg (Nat.ne_of_lt (h.ids.rpc_lt id hid))]
        exact h.ids.rpc_not_data id hid
      rpc_not_nodeTypes := h.ids.rpc_not_nodeTypes }
  refine asks_of_new h hids rfl rfl fun id t => ?_
  have hdata : (st.requestData taskId requestParams).DataFor id t ↔
      st.DataFor id t ∨ id = st.nextId ∧ t = taskId :=
    exists_get?_set DataRequest.taskId h.ids.data_new
  have hrpc : (st.requestData taskId requestParams).RpcFor id t ↔ st.RpcFor id t :=
    and_congr_right fun _ => exists_congr fun _ => exists_congr fun _ => hsent
  rw [hdata, hrpc, or_right_comm]
  exact Iff.rfl

theorem asks_requestNodeTypes (h : Held st) (taskId : NanoId) (requestParams : JsonValue) :
    Asks taskId st (st.requestNodeTypes taskId requestParams) := by
  have hsent : ∀ {id t name params}, .rpc id t name params ∈
      (st.requestNodeTypes taskId requestParams).sent ↔ .rpc id t name params ∈ st.sent :=
    mem_concat_of_ne (.nodeTypesRequest taskId st.nextId requestParams) nofun
  have hids : RequestIds (st.requestNodeTypes taskId requestParams) :=
    { data_id := fun id r hr => (h.ids.data_id id r hr).imp_right Nat.lt_succ_of_lt
      nodeTypes_id := fun id r hr => by
        rw [requestNodeTypes, send, InsertionMap.get?_set] at hr
        split at hr
        next heq =>
          obtain rfl := Option.some.inj hr
          exact ⟨heq.symm, heq ▸ Nat.lt_succ_self _⟩
        · exact (h.ids.nodeTypes_id id r hr).imp_right Nat.lt_succ_of_lt
      rpc_lt := fun id hid => Nat.lt_succ_of_lt (h.ids.rpc_lt id hid)
      sent_lt := fun id t name params hm =>
        Nat.lt_succ_of_lt (h.ids.sent_lt id t name params (hsent.mp hm))
      settled_lt := fun id hid => Nat.lt_succ_of_lt (h.ids.settled_lt id hid)
      rpc_not_data := h.ids.rpc_not_data
      rpc_not_nodeTypes := fun id hid => by
        rw [requestNodeTypes, send, InsertionMap.get?_set,
          if_neg (Nat.ne_of_lt (h.ids.rpc_lt id hid))]
        exact h.ids.rpc_not_nodeTypes id hid }
  refine asks_of_new h hids rfl rfl fun id t => ?_
  have hnodeTypes : (st.requestNodeTypes taskId requestParams).NodeTypesFor id t ↔
      st.NodeTypesFor id t ∨ id = st.nextId ∧ t = taskId :=
    exists_get?_set NodeTypesRequest.taskId h.ids.nodeTypes_new
  have hrpc : (st.requestNodeTypes taskId requestParams).RpcFor id t ↔ st.RpcFor id t :=
    and_congr_right fun _ => exists_congr fun _ => exists_congr fun _ => hsent
  rw [hnodeTypes, hrpc, or_right_comm]
  simp only [or_assoc]
  exact Iff.rfl

theorem asks_makeRpcCall (h : Held st) (taskId : NanoId) (name : String) (params : List JsonValue) :
    Asks taskId st (st.makeRpcCall taskId name params) := by
  have hkeys : ∀ {id}, id ∈ (st.makeRpcCall taskId name params).rpcCalls.keys ↔
      id = st.nextId ∨ id ∈ st.rpcCalls.keys := InsertionMap.mem_keys_set
  have hsent : ∀ {id t n p}, .rpc id t n p ∈ (st.makeRpcCall taskId name params).sent ↔
      .rpc id t n p ∈ st.sent ∨
        RunnerMessage.ToBroker.rpc id t n p = .rpc st.nextId taskId name params := by
    intro id t n p
    exact List.mem_append.trans (or_congr_right List.mem_singleton)
  have hids : RequestIds (st.makeRpcCall taskId name params) :=
    { data_id := fun id r hr => (h.ids.data_id id r hr).imp_right Nat.lt_succ_of_lt
      nodeTypes_id := fun id r hr => (h.ids.nodeTypes_id id r hr).imp_right Nat.lt_succ_of_lt
      rpc_lt := fun id hid => by
        obtain rfl | hid := hkeys.mp hid
        · exact Nat.lt_succ_self _
        · exact Nat.lt_succ_of_lt (h.ids.rpc_lt id hid)
      sent_lt := fun id t n p hm => by
        obtain hm | heq := hsent.mp hm
        · exact Nat.lt_succ_of_lt (h.ids.sent_lt id t n p hm)
        · obtain ⟨rfl, -⟩ := RunnerMessage.ToBroker.rpc.inj heq
          exact Nat.lt_succ_self _
      settled_lt := fun id hid => Nat.lt_succ_of_lt (h.ids.settled_lt id hid)
      rpc_not_data := fun id hid => by
        obtain rfl | hid := hkeys.mp hid
        · exact h.ids.data_new
        · exact h.ids.rpc_not_data id hid
      rpc_not_nodeTypes := fun id hid => by
        obtain rfl | hid := hkeys.mp hid
        · exact h.ids.nodeTypes_new
        · exact h.ids.rpc_not_nodeTypes id hid }
  refine asks_of_new h hids rfl rfl fun id t => ?_
  have hrpc : (st.makeRpcCall taskId name params).RpcFor id t ↔
      st.RpcFor id t ∨ id = st.nextId ∧ t = taskId := by
    constructor
    · rintro ⟨hid, n, p, hm⟩
      obtain hm | heq := hsent.mp hm
      · -- the id of a call that was sent before is not the new one
        have hne : id ≠ st.nextId := Nat.ne_of_lt (h.ids.sent_lt id t n p hm)
        exact Or.inl ⟨(hkeys.mp hid).resolve_left hne, n, p, hm⟩
      · obtain ⟨rfl, rfl, -⟩ := RunnerMessage.ToBroker.rpc.inj heq
        exact Or.inr ⟨rfl, rfl⟩
    · rintro (⟨hid, n, p, hm⟩ | ⟨rfl, rfl⟩)
      · exact ⟨hkeys.mpr (Or.inr hid), n, p, hsent.mpr (Or.inl hm)⟩
      · exact ⟨hkeys.mpr (Or.inl rfl), name, params, hsent.mpr (Or.inr rfl)⟩
  rw [hrpc]
  simp only [or_assoc]
  exact Iff.rfl

/-- A promise is settled. -/
theorem Held.settle (h : Held st) (hst : LeavesNothing st) (hid : id < st.nextId) :
    Held (st.settle id) ∧ LeavesNothing (st.settle id) := by
  refine ⟨⟨{ h.ids with settled_lt := fun k hk => ?_ }, h.keyed⟩, fun k t hk => ?_⟩
  · obtain rfl | hk := InsertionSet.mem_add.mp hk
    · exact hid
    · exact h.ids.settled_lt k hk
  · exact hst k t ⟨hk.1, fun hmem => hk.2 (InsertionSet.mem_add.mpr (Or.inr hmem))⟩

/-- The messages that answer a request. -/
theorem Held.processDataResponse (h : Held st) (hst : LeavesNothing st) :
    Held (st.processDataResponse id) ∧ LeavesNothing (st.processDataResponse id) := by
  rw [TaskRunner.processDataResponse]
  split
  · exact ⟨h, hst⟩
  next hget => exact h.settle hst (h.ids.data_id _ _ hget).2

theorem Held.processNodeTypesResponse (h : Held st) (hst : LeavesNothing st) :
    Held (st.processNodeTypesResponse id) ∧ LeavesNothing (st.processNodeTypesResponse id) := by
  rw [TaskRunner.processNodeTypesResponse]
  split
  · exact ⟨h, hst⟩
  next hget => exact h.settle hst (h.ids.nodeTypes_id _ _ hget).2

theorem Held.handleRpcResponse (h : Held st) (hst : LeavesNothing st) :
    Held (st.handleRpcResponse id) ∧ LeavesNothing (st.handleRpcResponse id) := by
  rw [TaskRunner.handleRpcResponse]
  split
  · exact ⟨h, hst⟩
  next hget =>
    have hmem := InsertionMap.mem_keys.mpr ⟨_, InsertionMap.get?_eq_some_iff.mp hget⟩
    exact h.settle hst (h.ids.rpc_lt _ hmem)

private theorem get?_of_erase {α : Type} {m : InsertionMap NanoId α} {k k' : NanoId} {a : α}
    (h : (m.erase k).get? k' = some a) : m.get? k' = some a := by
  rw [InsertionMap.get?_erase] at h
  exact (Option.ite_none_left_eq_some.mp h).2

private theorem get?_erase_of_none {α : Type} {m : InsertionMap NanoId α} {k k' : NanoId}
    (h : m.get? k' = none) : (m.erase k).get? k' = none := by
  rw [InsertionMap.get?_erase, h, ite_self]

/-- A suspended handler goes on, and its entry goes. -/
theorem Held.resume (h : Held st) (hst : LeavesNothing st) (handler : Suspended) :
    Held (st.resume handler) ∧ LeavesNothing (st.resume handler) := by
  cases handler with
  | requestData requestId =>
    refine ⟨⟨{ h.ids with
      data_id := fun k r hr => h.ids.data_id k r (get?_of_erase hr)
      rpc_not_data := fun k hk => get?_erase_of_none (h.ids.rpc_not_data k hk) }, h.keyed⟩, ?_⟩
    rintro k t ⟨⟨r, hr, rfl⟩ | hk, hsettled⟩
    · exact hst k _ ⟨Or.inl ⟨r, get?_of_erase hr, rfl⟩, hsettled⟩
    · exact hst k t ⟨Or.inr hk, hsettled⟩
  | requestNodeTypes requestId =>
    refine ⟨⟨{ h.ids with
      nodeTypes_id := fun k r hr => h.ids.nodeTypes_id k r (get?_of_erase hr)
      rpc_not_nodeTypes := fun k hk => get?_erase_of_none (h.ids.rpc_not_nodeTypes k hk) },
      h.keyed⟩, ?_⟩
    rintro k t ⟨hk | ⟨r, hr, rfl⟩ | hk, hsettled⟩
    · exact hst k t ⟨Or.inl hk, hsettled⟩
    · exact hst k _ ⟨Or.inr (Or.inl ⟨r, get?_of_erase hr, rfl⟩), hsettled⟩
    · exact hst k t ⟨Or.inr (Or.inr hk), hsettled⟩
  | makeRpcCall callId =>
    have hkeys : ∀ k ∈ (st.rpcCalls.erase callId).keys, k ∈ st.rpcCalls.keys := fun k hk =>
      (InsertionMap.mem_keys_erase.mp hk).1
    refine ⟨⟨{ h.ids with
      rpc_lt := fun k hk => h.ids.rpc_lt k (hkeys k hk)
      rpc_not_data := fun k hk => h.ids.rpc_not_data k (hkeys k hk)
      rpc_not_nodeTypes := fun k hk => h.ids.rpc_not_nodeTypes k (hkeys k hk) }, h.keyed⟩, ?_⟩
    rintro k t ⟨hk | hk | ⟨hk, hsent⟩, hsettled⟩
    · exact hst k t ⟨Or.inl hk, hsettled⟩
    · exact hst k t ⟨Or.inr (Or.inl hk), hsettled⟩
    · exact hst k t ⟨Or.inr (Or.inr ⟨hkeys k hk, hsent⟩), hsettled⟩

/-- A live task is set. -/
theorem Held.setTask (h : Held st) (hst : LeavesNothing st) (hrequests : SameRequests st st')
    (taskState : TaskState) (htasks : st'.runningTasks = st.runningTasks.set taskId taskState)
    (hid : taskState.taskId = taskId)
    (hlive : taskState.status = .waitingForSettings ∨ taskState.status = .running) :
    Held st' ∧ LeavesNothing st' := by
  have hget : ∀ t, st'.runningTasks.get? t =
      if t = taskId then some taskState else st.runningTasks.get? t := fun t => by
    rw [htasks, InsertionMap.get?_set]
  refine ⟨⟨hrequests.requestIds h.ids, fun t s hs => ?_⟩, fun k t hk => ?_⟩
  · rw [hget] at hs
    split at hs
    next heq =>
      obtain rfl := Option.some.inj hs
      exact hid.trans heq.symm
    · exact h.keyed t s hs
  · obtain ⟨s, hs, hslive⟩ := hst k t (hrequests.pending_iff.mp hk)
    by_cases heq : t = taskId
    · exact ⟨taskState, by rw [hget, if_pos heq], hlive⟩
    · exact ⟨s, by rw [hget, if_neg heq, hs], hslive⟩

theorem Held.addTask (h : Held st) (hst : LeavesNothing st) (taskId : NanoId) :
    Held (st.addTask taskId) ∧ LeavesNothing (st.addTask taskId) :=
  h.setTask hst ⟨rfl, rfl, rfl, rfl, fun _ _ _ _ => Iff.rfl, Nat.le_refl _⟩ { taskId } rfl rfl
    (Or.inl rfl)

/-- Nothing happens to requests and tasks. -/
theorem Held.quiet (h : Held st) (hst : LeavesNothing st) (hrequests : SameRequests st st')
    (htasks : st'.runningTasks = st.runningTasks) : Held st' ∧ LeavesNothing st' := by
  obtain ⟨hheld, hiff⟩ := h.same hrequests htasks
  exact ⟨hheld, hiff.mpr hst⟩

theorem Held.offerAccepted (h : Held st) (hst : LeavesNothing st) {offerId : NanoId} :
    Held (st.offerAccepted offerId taskId) ∧ LeavesNothing (st.offerAccepted offerId taskId) := by
  have hdelete : SameRequests st (st.deleteOffer offerId) :=
    ⟨rfl, rfl, rfl, rfl, fun _ _ _ _ => Iff.rfl, Nat.le_refl _⟩
  obtain ⟨hheld, hleaves⟩ := h.quiet hst hdelete rfl
  rw [TaskRunner.offerAccepted]
  split
  · exact h.quiet hst (sameRequests_send (by simp)) rfl
  · split
    · exact hheld.quiet hleaves (sameRequests_send (by simp)) rfl
    · split
      · exact h.quiet hst (sameRequests_send (by simp)) rfl
      · obtain ⟨hheld, hleaves⟩ := hheld.addTask hleaves taskId
        exact hheld.quiet hleaves (sameRequests_send (by simp)) rfl

/-- A task starts. -/
theorem Held.receivedSettings (h : Held st) (hst : LeavesNothing st) :
    Held (st.receivedSettings taskId) ∧ LeavesNothing (st.receivedSettings taskId) := by
  have hunexpected := fun taskState =>
    h.quiet hst (sameRequests_throwUnexpectedTaskStatus taskState st) rfl
  rw [TaskRunner.receivedSettings]
  split
  · exact ⟨h, hst⟩
  next taskState htask =>
    split
    · exact hunexpected taskState
    · exact hunexpected taskState
    · exact hunexpected taskState
    · have hid := h.keyed _ _ htask
      refine h.setTask hst ⟨rfl, rfl, rfl, rfl, fun _ _ _ _ => Iff.rfl, Nat.le_refl _⟩
        { taskState with status := .running } ?_ hid (Or.inr rfl)
      rw [startExecution, setStatus, hid]

/-! ### One step -/

/-- **Message lemma**: after a message a runner that left nothing behind leaves nothing
behind, exactly if the message ends no task that waits for something. -/
theorem Held.receiveMessage (h : Held st) (hst : LeavesNothing st) (message : ToRunner) :
    Held (st.receiveMessage message) ∧
      (LeavesNothing (st.receiveMessage message) ↔ st.EndsClean (.receive message)) := by
  have hrecord : SameRequests st { st with received := st.received ++ [message] } :=
    ⟨rfl, rfl, rfl, rfl, fun _ _ _ _ => Iff.rfl, Nat.le_refl _⟩
  obtain ⟨h', hst'⟩ := h.quiet hst hrecord rfl
  have htrue : ∀ {st' : TaskRunner}, Held st' ∧ LeavesNothing st' →
      Held st' ∧ (LeavesNothing st' ↔ True) := fun hst' => hst'.imp_right iff_true_intro
  rw [TaskRunner.receiveMessage]
  cases message with
  | infoRequest => exact htrue (h'.quiet hst' (sameRequests_send (by simp)) rfl)
  | runnerRegistered =>
    exact htrue (h'.quiet hst' ⟨rfl, rfl, rfl, rfl, fun _ _ _ _ => Iff.rfl, Nat.le_refl _⟩ rfl)
  | taskOfferAccept offerId taskId => exact htrue (h'.offerAccepted hst')
  | taskCancel taskId reason =>
    obtain ⟨hheld, hiff⟩ := h'.taskCancelled hst' taskId
    refine ⟨hheld, hiff.trans (forall_congr' fun id => imp_congr hrecord.pending_iff ?_)⟩
    exact and_congr_right fun _ => not_congr hrecord.rpcFor_iff
  | taskSettings taskId settings => exact htrue (h'.receivedSettings hst')
  | rpcResponse callId taskId status data => exact htrue (h'.handleRpcResponse hst')
  | taskDataResponse taskId requestId data => exact htrue (h'.processDataResponse hst')
  | nodeTypes taskId requestId nodeTypes => exact htrue (h'.processNodeTypesResponse hst')
  | drain =>
    exact htrue (h'.quiet hst' ⟨rfl, rfl, rfl, rfl, fun _ _ _ _ => Iff.rfl, Nat.le_refl _⟩ rfl)

theorem Held.step {e : Event} (h : Held st) (hst : LeavesNothing st)
    (hstep : st.step? e = some st') :
    Held st' ∧ (LeavesNothing st' ↔ st.EndsClean (.event e)) := by
  have htrue : ∀ {st' : TaskRunner}, Held st' ∧ LeavesNothing st' →
      Held st' ∧ (LeavesNothing st' ↔ True) := fun hst' => hst'.imp_right iff_true_intro
  cases e with
  | interval =>
    obtain ⟨-, heq⟩ := Option.ite_none_right_eq_some.mp hstep
    obtain rfl := Option.some.inj heq
    obtain ⟨_, _, _, htasks, -, -⟩ := offers_sendOffers st
    exact htrue (h.quiet hst (sameRequests_sendOffers st) (htasks ▸ rfl))
  | timer taskId =>
    obtain ⟨-, heq⟩ := Option.ite_none_right_eq_some.mp hstep
    obtain rfl := Option.some.inj heq
    have htake : SameRequests st (st.takeTimer taskId) :=
      ⟨rfl, rfl, rfl, rfl, fun _ _ _ _ => Iff.rfl, Nat.le_refl _⟩
    obtain ⟨h', hst'⟩ := h.quiet hst htake rfl
    obtain ⟨hheld, hiff⟩ := h'.taskTimedOut hst' taskId
    refine ⟨hheld, hiff.trans (forall_congr' fun id => imp_congr htake.pending_iff ?_)⟩
    exact and_congr_right fun _ => not_congr htake.rpcFor_iff
  | executionEnded taskId result =>
    obtain ⟨-, heq⟩ := Option.ite_none_right_eq_some.mp hstep
    obtain rfl := Option.some.inj heq
    have hend : SameRequests st (st.endExecution taskId) :=
      ⟨rfl, rfl, rfl, rfl, fun _ _ _ _ => Iff.rfl, Nat.le_refl _⟩
    obtain ⟨h', hst'⟩ := h.quiet hst hend rfl
    rcases htask : st.runningTasks.get? taskId with _ | taskState
    · have hnone : (st.endExecution taskId).executionEnded taskId result =
          st.endExecution taskId := by
        rw [executionEnded, show (st.endExecution taskId).runningTasks.get? taskId = none from
          htask]
      rw [hnone]
      refine ⟨h', iff_of_true hst' fun id hid => ?_⟩
      obtain ⟨s, hs, -⟩ := hst id taskId hid
      cases htask.symm.trans hs
    · have hfinishes := finishes_executionEnded h'.keyed htask result
      refine ⟨⟨hfinishes.requests.requestIds h'.ids, hfinishes.keyed h'.keyed⟩, ?_⟩
      rw [hfinishes.leavesNothing_iff hst']
      exact forall_congr' fun id => not_congr hend.pending_iff
  | requestNodeTypes taskId requestParams =>
    obtain ⟨-, heq⟩ := Option.ite_none_right_eq_some.mp hstep
    obtain rfl := Option.some.inj heq
    have hasks := asks_requestNodeTypes h taskId requestParams
    exact ⟨hasks.held, hasks.leavesNothing_iff hst⟩
  | requestData taskId requestParams =>
    obtain ⟨-, heq⟩ := Option.ite_none_right_eq_some.mp hstep
    obtain rfl := Option.some.inj heq
    have hasks := asks_requestData h taskId requestParams
    exact ⟨hasks.held, hasks.leavesNothing_iff hst⟩
  | makeRpcCall taskId name params =>
    obtain ⟨-, heq⟩ := Option.ite_none_right_eq_some.mp hstep
    obtain rfl := Option.some.inj heq
    have hasks := asks_makeRpcCall h taskId name params
    exact ⟨hasks.held, hasks.leavesNothing_iff hst⟩
  | resume handler =>
    obtain ⟨-, heq⟩ := Option.ite_none_right_eq_some.mp hstep
    obtain rfl := Option.some.inj heq
    have htake : SameRequests st (st.takeHandler handler) :=
      ⟨rfl, rfl, rfl, rfl, fun _ _ _ _ => Iff.rfl, Nat.le_refl _⟩
    obtain ⟨h', hst'⟩ := h.quiet hst htake rfl
    exact htrue (h'.resume hst' handler)
  | stop =>
    obtain rfl := Option.some.inj hstep
    exact htrue (h.quiet hst ⟨rfl, rfl, rfl, rfl, fun _ _ _ _ => Iff.rfl, Nat.le_refl _⟩ rfl)
  | connectionClose =>
    obtain rfl := Option.some.inj hstep
    exact htrue (h.quiet hst ⟨rfl, rfl, rfl, rfl, fun _ _ _ _ => Iff.rfl, Nat.le_refl _⟩ rfl)
  | tick now =>
    obtain ⟨-, heq⟩ := Option.ite_none_right_eq_some.mp hstep
    obtain rfl := Option.some.inj heq
    exact htrue (h.quiet hst ⟨rfl, rfl, rfl, rfl, fun _ _ _ _ => Iff.rfl, Nat.le_refl _⟩ rfl)

/-- **Step lemma**: a step leaves nothing behind exactly if it ends no task that waits for
something. -/
theorem Held.act {a : Action} (h : Held st) (hst : LeavesNothing st) (hstep : st.Step a st') :
    Held st' ∧ (LeavesNothing st' ↔ st.EndsClean a) := by
  cases a with
  | receive message =>
    obtain rfl := Option.some.inj hstep
    exact h.receiveMessage hst message
  | event e => exact h.step hst hstep

/-- **What a finished task leaves behind, exactly.** For every sequence of messages, timeouts,
requests, ends of executions and suspended handlers from a new runner: no request of a task
that has ended or is aborting is pending, if and only if no task is cancelled or times out
while one of its calls is pending, no execution ends while one of its requests is pending,
and only live tasks make requests. -/
theorem pendingRequests_leavesNothing_iff (id name taskType : String)
    (maxConcurrency taskTimeout : ℕ)
    (randomInt : NanoId → ℕ) (st : TaskRunner)
    (run : Run Step (new id name taskType maxConcurrency taskTimeout randomInt) st) :
    run.Visits LeavesNothing ↔ run.Takes EndsClean := by
  have hnew : Held (new id name taskType maxConcurrency taskTimeout randomInt) ∧
      LeavesNothing (new id name taskType maxConcurrency taskTimeout randomInt) :=
    ⟨⟨⟨nofun, nofun, nofun, nofun, nofun, nofun, nofun⟩, nofun⟩, by
      rintro k t ⟨⟨r, hr, -⟩ | ⟨r, hr, -⟩ | ⟨hk, -⟩, -⟩
      · cases hr
      · cases hr
      · cases hk⟩
  have hkeep : ∀ (st : TaskRunner) (a : Action) (st' : TaskRunner), Held st ∧ LeavesNothing st →
      st.EndsClean a → st.Step a st' → Held st' ∧ LeavesNothing st' := fun _ _ _ h hc hs =>
    (h.1.act h.2 hs).imp_right fun hiff => hiff.mpr hc
  have hbreak : ∀ (st : TaskRunner) (a : Action) (st' : TaskRunner), Held st ∧ LeavesNothing st →
      ¬st.EndsClean a → st.Step a st' → ¬LeavesNothing st' := fun _ _ _ h hc hs hst =>
    hc ((h.1.act h.2 hs).2.mp hst)
  exact run.visits_iff_takes (fun _ h => h.2) hkeep hbreak hnew

/-- The code of a task logs something, which is not waited for, and is done. -/
def loggedThenDone : List Action :=
  [.receive .runnerRegistered, .event .interval, .receive (.taskOfferAccept 0 0),
    .receive (.taskSettings 0 .null), .event (.makeRpcCall 0 "logNodeOutput" [.str "hello"]),
    .event (.executionEnded 0 (.ok .null))]

/-- The task is done, and its call is pending. -/
theorem not_leavesNothing_loggedThenDone :
    ∃ (st : TaskRunner)
      (run : Run Step (new "runner" "JS Task Runner" "javascript" 1 300 fun _ => 0) st),
      run.labels = loggedThenDone ∧ st.runningTasks = .empty ∧ ¬run.Visits LeavesNothing := by
  have hstate : (loggedThenDone.foldlM act?
      (new "runner" "JS Task Runner" "javascript" 1 300 fun _ => 0)).map (fun st =>
        (st.runningTasks, st.rpcCalls.keys, st.settled,
          st.sent.filter (· = .rpc 1 0 "logNodeOutput" [.str "hello"]))) =
      some (.empty, [1], .empty, [.rpc 1 0 "logNodeOutput" [.str "hello"]]) := by decide
  obtain ⟨st, hst, heq⟩ := Option.map_eq_some_iff.mp hstate
  simp only [Prod.mk.injEq] at heq
  obtain ⟨htasks, hkeys, hsettled, hsent⟩ := heq
  obtain ⟨run, hlabels⟩ := Run.exists_labels_eq hst
  refine ⟨st, run, hlabels, htasks, fun hvisits => ?_⟩
  have hmem : .rpc 1 0 "logNodeOutput" [.str "hello"] ∈ st.sent :=
    List.mem_of_mem_filter (hsent ▸ List.mem_singleton_self _)
  have hrpc : st.RpcFor 1 0 := ⟨hkeys ▸ List.mem_singleton_self _, _, _, hmem⟩
  obtain ⟨s, hs, -⟩ := hvisits.last 1 0
    ⟨Or.inr (Or.inr hrpc), hsettled ▸ InsertionSet.notMem_empty 1⟩
  rw [htasks] at hs
  cases hs

end N8n.TaskRunner
