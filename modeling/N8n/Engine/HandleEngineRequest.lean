import N8n.Engine.NodeOutput

/-!
# Queueing the nodes of a request

`handleEngineRequest` hands the nodes that a request needs to `addNodeToBeExecuted`, one after
the other. What that does to the state of the execution is said once, for every method of the
engine: entries are added at one end of the execution stack, runs are added, and the filter
stays (`Extends`).
-/

namespace N8n

/-- The error as the node that causes it reports it. -/
def EngineError.toExecutionError : EngineError → ExecutionError
  | .typeError => RequestsResponse.typeError
  | .applicationError message => ⟨message⟩

namespace WorkflowExecute

open RequestsResponse

/-- The arguments with which a node is added. -/
def deliveryOf (node : NodeToBeExecuted) (parentOutputData : NodeOutputs) : Delivery where
  connectionData := node.inputConnectionData
  outputIndex := node.parentOutputIndex
  parentNodeName := node.parentNode
  nodeSuccessData := some parentOutputData
  runIndex := node.runIndex
  newRunIndex := some node.nodeRunIndex
  metadata := node.metadata

/-- Add one of the nodes. Without parent data there is nothing to index. -/
def queueNode (w : Workflow) (st : IRunExecutionData) (node : NodeToBeExecuted) :
    IRunExecutionData × Except ExecutionError Unit :=
  match node.parentOutputData with
  | none => (st, .error typeError)
  | some parentOutputData =>
    match addNodeToBeExecuted w (deliveryOf node parentOutputData) st with
    | (st, .error e) => (st, .error e.toExecutionError)
    | (st, .ok ()) => (st, .ok ())

def queueNodes (w : Workflow) (st : IRunExecutionData) (nodes : List NodeToBeExecuted) :
    IRunExecutionData × Except ExecutionError Unit :=
  ExceptFold.foldUntilError (queueNode w) st nodes

/-- The queueing of the nodes of a request: the nodes, and the state of the execution that they
are added to. -/
structure Queueing where
  request : EngineRequest
  nodesToBeExecuted : List NodeToBeExecuted
  execution : IRunExecutionData
  deriving DecidableEq

/-- Handle the request of a node. The state of the execution and the `rewireOutputLogTo` of the
nodes change also when it throws. -/
def handleEngineRequest (w : Workflow) (executionData : IExecuteData) (request : EngineRequest)
    (runIndex : ℕ) (st : IRunExecutionData)
    (rewireOutputLogTo : InsertionMap String NodeConnectionType) :
    (IRunExecutionData × InsertionMap String NodeConnectionType) × Except ExecutionError Queueing :=
  match handleRequest w executionData.node request runIndex executionData st.runData
      rewireOutputLogTo with
  | (prepared, .error e) =>
    (({ st with runData := prepared.runData }, prepared.rewireOutputLogTo), .error e)
  | (prepared, .ok nodesToBeExecuted) =>
    let execution := { st with runData := prepared.runData }
    match queueNodes w execution nodesToBeExecuted with
    | (st, .error e) => ((st, prepared.rewireOutputLogTo), .error e)
    | (st, .ok ()) =>
      ((st, prepared.rewireOutputLogTo), .ok { request, nodesToBeExecuted, execution })

/-! ### What the methods do to the execution -/

/-- Put entries at the end of the stack where the execution order adds them. -/
def enqueueAll {α : Type} (w : Workflow) (added stack : List α) : List α :=
  if w.executionOrder = some "v1" then added ++ stack else stack ++ added

@[simp] theorem enqueueAll_nil {α : Type} (w : Workflow) (stack : List α) :
    enqueueAll w [] stack = stack := by
  rw [enqueueAll]
  split
  · rfl
  · exact List.append_nil stack

/-- What is added in two turns is added in one. -/
theorem exists_enqueueAll {α : Type} (w : Workflow) (added added' stack : List α) :
    ∃ both, enqueueAll w added' (enqueueAll w added stack) = enqueueAll w both stack ∧
      both.length = added.length + added'.length := by
  by_cases hw : w.executionOrder = some "v1"
  · refine ⟨added' ++ added, ?_, ?_⟩
    · simp only [enqueueAll, if_pos hw, List.append_assoc]
    · rw [List.length_append, Nat.add_comm]
  · refine ⟨added ++ added', ?_, List.length_append⟩
    simp only [enqueueAll, if_neg hw, List.append_assoc]

/-- The entries on the stack keep their places, no run is lost, and the filter stays. -/
structure Extends (w : Workflow) (st st' : IRunExecutionData) : Prop where
  stack : ∃ added, st'.nodeExecutionStack = enqueueAll w added st.nodeExecutionStack
  runs : RunsKept st.runData st'.runData
  runNodeFilter : st'.runNodeFilter = st.runNodeFilter

variable {w : Workflow} {st st' st'' : IRunExecutionData}

theorem Extends.refl (w : Workflow) (st : IRunExecutionData) : Extends w st st :=
  ⟨⟨[], (enqueueAll_nil w _).symm⟩, RunsKept.refl _, rfl⟩

theorem Extends.trans (h : Extends w st st') (h' : Extends w st' st'') : Extends w st st'' := by
  obtain ⟨added, hadded⟩ := h.stack
  obtain ⟨added', hadded'⟩ := h'.stack
  obtain ⟨both, hboth, _⟩ := exists_enqueueAll w added added' st.nodeExecutionStack
  refine ⟨⟨both, ?_⟩, h.runs.trans h'.runs, h'.runNodeFilter.trans h.runNodeFilter⟩
  rw [hadded', hadded, hboth]

/-- What leaves the stack, the runs and the filter alone. -/
theorem Extends.of_eq (hstack : st'.nodeExecutionStack = st.nodeExecutionStack)
    (hruns : st'.runData = st.runData) (hfilter : st'.runNodeFilter = st.runNodeFilter) :
    Extends w st st' :=
  ⟨⟨[], hstack.trans (enqueueAll_nil w _).symm⟩, hruns ▸ RunsKept.refl _, hfilter⟩

/-- What adds one entry and leaves the runs and the filter alone. -/
theorem Extends.of_enqueue {item : IExecuteData}
    (hstack : st'.nodeExecutionStack = enqueue w item st.nodeExecutionStack)
    (hruns : st'.runData = st.runData) (hfilter : st'.runNodeFilter = st.runNodeFilter) :
    Extends w st st' :=
  ⟨⟨[item], hstack⟩, hruns ▸ RunsKept.refl _, hfilter⟩

theorem extends_addInputNodes (w : Workflow) (d : Delivery) (st : IRunExecutionData) :
    Extends w st (addInputNodes w d st).1 := by
  rw [addInputNodes]
  split
  next => exact Extends.refl w st
  next outputNodes _ =>
    refine ExceptFold.foldUntilError_induct (P := Extends w st) (fun st' inputData _ hst' => ?_)
      (Extends.refl w st)
    refine hst'.trans ?_
    simp only [addInputNode]
    split
    next => exact Extends.refl w st'
    next => exact Extends.refl w st'
    next nodeName _ => exact Extends.of_enqueue rfl rfl rfl

theorem extends_addToWaiting (w : Workflow) (d : Delivery) (st : IRunExecutionData) :
    Extends w st (addToWaiting w d st).1 := by
  rw [addToWaiting]
  split
  next => exact Extends.of_eq rfl rfl rfl
  next waiting data source _ =>
    simp only [setOrDeleteNodeWaiting]
    split
    next => exact Extends.of_enqueue rfl rfl rfl
    next => exact Extends.of_enqueue rfl rfl rfl
  next waiting waitingNodeIndex _ =>
    have hset : Extends w st (setNodeWaiting d.connectionData.node waiting st) :=
      Extends.of_eq rfl rfl rfl
    have hadd : Extends w st (if st.waitingExecution.has d.connectionData.node = true then
        (setNodeWaiting d.connectionData.node waiting st, Except.ok ())
        else addInputNodes w d (setNodeWaiting d.connectionData.node waiting st)).1 := by
      split
      next => exact hset
      next => exact hset.trans (extends_addInputNodes w d _)
    simp only
    split
    next st' e heq =>
      rw [heq] at hadd
      exact hadd
    next st' heq =>
      rw [heq] at hadd
      exact hadd.trans (Extends.of_eq rfl rfl rfl)

theorem extends_addNodeToBeExecuted (w : Workflow) (d : Delivery) (st : IRunExecutionData) :
    Extends w st (addNodeToBeExecuted w d st).1 := by
  rw [addNodeToBeExecuted]
  split
  next => exact extends_addToWaiting w d st
  next =>
    split
    next => exact Extends.refl w st
    next node _ => exact Extends.of_enqueue rfl rfl rfl

theorem extends_queueNode (w : Workflow) (st : IRunExecutionData) (node : NodeToBeExecuted) :
    Extends w st (queueNode w st node).1 := by
  rw [queueNode]
  split
  next => exact Extends.refl w st
  next parentOutputData _ =>
    have hadd := extends_addNodeToBeExecuted w (deliveryOf node parentOutputData) st
    split
    next heq =>
      rw [heq] at hadd
      exact hadd
    next heq =>
      rw [heq] at hadd
      exact hadd

theorem extends_queueNodes (w : Workflow) (st : IRunExecutionData) (nodes : List NodeToBeExecuted) :
    Extends w st (queueNodes w st nodes).1 :=
  ExceptFold.foldUntilError_induct (P := Extends w st)
    (fun st' node _ h => h.trans (extends_queueNode w st' node)) (Extends.refl w st)

theorem extends_handleEngineRequest {executionData : IExecuteData} {request : EngineRequest}
    {runIndex : ℕ} {rewireOutputLogTo : InsertionMap String NodeConnectionType} :
    Extends w st
      (handleEngineRequest w executionData request runIndex st rewireOutputLogTo).1.1 := by
  have hkept : RunsKept st.runData
      (handleRequest w executionData.node request runIndex executionData st.runData
        rewireOutputLogTo).1.runData := runsKept_handleRequest
  rw [handleEngineRequest]
  rcases hrequest : handleRequest w executionData.node request runIndex executionData st.runData
    rewireOutputLogTo with ⟨prepared, e | nodes⟩ <;> rw [hrequest] at hkept
  · exact ⟨⟨[], (enqueueAll_nil w _).symm⟩, hkept, rfl⟩
  · have hprepared : Extends w st { st with runData := prepared.runData } :=
      ⟨⟨[], (enqueueAll_nil w _).symm⟩, hkept, rfl⟩
    have hqueue := hprepared.trans
      (extends_queueNodes w { st with runData := prepared.runData } nodes)
    simp only
    split
    next heq =>
      rw [heq] at hqueue
      exact hqueue
    next heq =>
      rw [heq] at hqueue
      exact hqueue

/-! ### What a request does -/

variable {node : NodeToBeExecuted} {nodes : List NodeToBeExecuted}

end WorkflowExecute

end N8n
