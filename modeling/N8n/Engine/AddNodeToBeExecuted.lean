import N8n.Foundations.ExceptFold
import N8n.Workflow.ConnectedNodes

/-!
# Adding nodes to be executed

The state of a running execution, and `addNodeToBeExecuted`, which hands the output of a
node to a node that is connected to it. A node with one input goes on the execution stack
right away. A node with several inputs waits: its data is collected, under a run index, in
the waiting area of the engine until every input has some.

The methods change the state also when they throw: they return the state together with the
exception.
-/

namespace N8n

/-- What the methods of the engine throw. -/
inductive EngineError where
  | typeError
  | applicationError (message : String)
  deriving DecidableEq, Repr

/-- The state of an execution: the parts of `IRunExecutionData` that the engine uses. -/
structure IRunExecutionData where
  nodeExecutionStack : List IExecuteData := []
  waitingExecution : IWaitingForExecution := .empty
  waitingExecutionSource : Option IWaitingForExecutionSource := some .empty
  runData : IRunData := .empty
  pinData : Option IPinData := none
  lastNodeExecuted : Option String := none
  runNodeFilter : Option (List String) := none
  destinationNode : Option String := none
  waitTill : Option ℕ := none
  deriving DecidableEq

namespace WorkflowExecute

def isLegacyExecutionOrder (w : Workflow) : Bool := w.executionOrder ≠ some "v1"

/-- `nodeExecutionStack[enqueueFn](item)`: in front in the order `v1`, and at the end
otherwise. -/
def enqueue (w : Workflow) (item : IExecuteData) (stack : List IExecuteData) :
    List IExecuteData :=
  if w.executionOrder = some "v1" then item :: stack else stack ++ [item]

/-- `runData[node][runIndex].data.main[index]`, a hole where any of it is missing. -/
def incomingData (runData : IRunData) (inputConnection : IConnection) (runIndex : ℕ) :
    Slot (List INodeExecutionData) :=
  match (((runData.get? inputConnection.node).bind (·[runIndex]?)).bind (·.data)).bind
      (·.get? .main) with
  | none => .hole
  | some outputs => SparseArray.getAt .hole outputs inputConnection.index

def incomingConnectionIsEmpty (runData : IRunData) (runIndex : ℕ) :
    List IConnection → Except EngineError Bool
  | [] => .ok true
  | inputConnection :: inputConnections =>
    match incomingData runData inputConnection runIndex with
    | .hole => incomingConnectionIsEmpty runData runIndex inputConnections
    | .null => .error .typeError
    | .value nodeIncomingData =>
      if nodeIncomingData.length ≠ 0 then .ok false
      else incomingConnectionIsEmpty runData runIndex inputConnections

/-- The main inputs of a node: `connectionsByDestinationNode[nodeName].main`. -/
def mainInputs (w : Workflow) (nodeName : String) : Option NodeInputConnections :=
  (w.connectionsByDestinationNode.get? nodeName).bind (·.get? .main)

def numberOfInputs (w : Workflow) (nodeName : String) : ℕ :=
  ((mainInputs w nodeName).getD []).length

/-- The arguments of `addNodeToBeExecuted`. -/
structure Delivery where
  connectionData : IConnection
  outputIndex : ℕ
  parentNodeName : String
  nodeSuccessData : Option (List (Slot (List INodeExecutionData)))
  runIndex : ℕ
  newRunIndex : Option ℕ := none
  metadata : Option ITaskMetadata := none
  deriving DecidableEq, Repr

/-- The data that is delivered: `nodeSuccessData[outputIndex]`, or `null`. -/
def Delivery.data (d : Delivery) : Slot (List INodeExecutionData) :=
  match d.nodeSuccessData with
  | none => .null
  | some nodeSuccessData => SparseArray.getAt .hole nodeSuccessData d.outputIndex

/-- Where it comes from. -/
def Delivery.sourceData (d : Delivery) : ISourceData where
  previousNode := d.parentNodeName
  previousNodeOutput := some d.outputIndex
  previousNodeRun := some d.runIndex

/-- The source that is recorded next to the data. -/
def Delivery.source (d : Delivery) : Slot ISourceData :=
  match d.nodeSuccessData with
  | none => .null
  | some _ => .value d.sourceData

/-! ### The waiting entries of a node -/

/-- The waiting entries of one node, data and sources, by run index. -/
structure NodeWaiting where
  data : InsertionMap ℕ ITaskDataConnections := .empty
  source : InsertionMap ℕ ITaskDataConnectionsSource := .empty
  deriving DecidableEq

/-- An entry whose inputs are all `null`. -/
def emptyWaitingEntry (α : Type) (numberOfConnections : ℕ) :
    InsertionMap NodeConnectionType (List (Slot α)) :=
  InsertionMap.empty.set .main (List.replicate numberOfConnections .null)

def prepareWaitingToExecution (numberOfConnections runIndex : ℕ) (waiting : NodeWaiting) :
    NodeWaiting where
  data := waiting.data.set runIndex (emptyWaitingEntry _ numberOfConnections)
  source := waiting.source.set runIndex (emptyWaitingEntry _ numberOfConnections)

/-- The run index of an entry, if it has no data for an input. An entry without main data
throws. -/
def indexIfMissing (inputIndex : ℕ) (entry : ℕ × ITaskDataConnections) :
    Except EngineError (Option ℕ) :=
  match entry.2.get? .main with
  | none => .error .typeError
  | some main =>
    .ok (if (SparseArray.getAt .hole main inputIndex).isValue then none else some entry.1)

/-- The run index of the first entry without data for an input. -/
def findWaitingNodeIndex (data : InsertionMap ℕ ITaskDataConnections) (inputIndex : ℕ) :
    Except EngineError (Option ℕ) :=
  data.indexEntries.findSomeM? (indexIfMissing inputIndex)

/-- `entries[runIndex].main[inputIndex] = slot`, nothing where that throws. -/
def setMain {α : Type} (entries : InsertionMap ℕ (InsertionMap NodeConnectionType (List (Slot α))))
    (runIndex inputIndex : ℕ) (slot : Slot α) :
    Option (InsertionMap ℕ (InsertionMap NodeConnectionType (List (Slot α)))) :=
  (entries.get? runIndex).bind fun entry => (entry.get? .main).map fun main =>
    entries.set runIndex (entry.set .main (SparseArray.setAt .hole main inputIndex slot))

/-- What comes of the data of one input: an entry that is complete and leaves the waiting area,
or one that still waits, with its run index. -/
inductive DeliveryOutcome where
  | complete (data : ITaskDataConnections) (source : ITaskDataConnectionsSource)
  | missing (waitingNodeIndex : ℕ)
  deriving DecidableEq

/-- No input of the entry is `null`. -/
def allDataFound (entry : ITaskDataConnections) : Bool :=
  ((entry.get? .main).getD []).all fun thisExecutionData => thisExecutionData ≠ .null

/-- Put the data of one input into an entry, which leaves when it is complete. -/
def NodeWaiting.fill (waitingNodeIndex inputIndex : ℕ) (data : Slot (List INodeExecutionData))
    (source : Slot ISourceData) (waiting : NodeWaiting) :
    NodeWaiting × Except EngineError DeliveryOutcome :=
  match setMain waiting.data waitingNodeIndex inputIndex data with
  | none => (waiting, .error .typeError)
  | some data =>
    match setMain waiting.source waitingNodeIndex inputIndex source with
    | none => ({ waiting with data }, .error .typeError)
    | some source =>
      let entry := (data.get? waitingNodeIndex).getD .empty
      if allDataFound entry then
        (⟨data.erase waitingNodeIndex, source.erase waitingNodeIndex⟩,
          .ok (.complete entry ((source.get? waitingNodeIndex).getD .empty)))
      else (⟨data, source⟩, .ok (.missing waitingNodeIndex))

/-- Put the data of one input into the first entry that lacks it, or else into a new one, whose
run index is the number of entries. -/
def NodeWaiting.deliver (numberOfInputs inputIndex : ℕ) (data : Slot (List INodeExecutionData))
    (source : Slot ISourceData) (waiting : NodeWaiting) :
    NodeWaiting × Except EngineError DeliveryOutcome :=
  match findWaitingNodeIndex waiting.data inputIndex with
  | .error e => (waiting, .error e)
  | .ok (some waitingNodeIndex) => waiting.fill waitingNodeIndex inputIndex data source
  | .ok none =>
    let waitingNodeIndex := waiting.data.entries.length
    (prepareWaitingToExecution numberOfInputs waitingNodeIndex waiting).fill waitingNodeIndex
      inputIndex data source

/-- Keep only the main data of an entry. -/
def keepMain {α : Type} (entries : InsertionMap ℕ (InsertionMap NodeConnectionType (List (Slot α))))
    (runIndex : ℕ) : InsertionMap ℕ (InsertionMap NodeConnectionType (List (Slot α))) :=
  match (entries.get? runIndex).bind (·.get? .main) with
  | none => entries
  | some main => entries.set runIndex (InsertionMap.empty.set .main main)

/-- An entry that still waits is written again, with the main data and sources it has. -/
def NodeWaiting.rewrite (waitingNodeIndex : ℕ) (waiting : NodeWaiting) : NodeWaiting :=
  ⟨keepMain waiting.data waitingNodeIndex, keepMain waiting.source waitingNodeIndex⟩

/-- The waiting entries of a node. -/
def nodeWaiting (st : IRunExecutionData) (nodeName : String) : NodeWaiting :=
  match st.waitingExecution.get? nodeName with
  | none => {}
  | some data => ⟨data, ((st.waitingExecutionSource.getD .empty).get? nodeName).getD .empty⟩

/-- Write the waiting entries of a node. -/
def setNodeWaiting (nodeName : String) (waiting : NodeWaiting) (st : IRunExecutionData) :
    IRunExecutionData :=
  { st with
    waitingExecution := st.waitingExecution.set nodeName waiting.data
    waitingExecutionSource :=
      some ((st.waitingExecutionSource.getD .empty).set nodeName waiting.source) }

/-- Delete the waiting entries of a node. -/
def deleteNodeWaiting (nodeName : String) (st : IRunExecutionData) : IRunExecutionData :=
  { st with
    waitingExecution := st.waitingExecution.erase nodeName
    waitingExecutionSource := some ((st.waitingExecutionSource.getD .empty).erase nodeName) }

/-- Write the entries that are left of a node, and delete the node when there are none. -/
def setOrDeleteNodeWaiting (nodeName : String) (waiting : NodeWaiting) (st : IRunExecutionData) :
    IRunExecutionData :=
  if waiting.data.entries.length = 0 then deleteNodeWaiting nodeName st
  else setNodeWaiting nodeName waiting st

@[simp] theorem nodeWaiting_setNodeWaiting (nodeName : String) (waiting : NodeWaiting)
    (st : IRunExecutionData) :
    nodeWaiting (setNodeWaiting nodeName waiting st) nodeName = waiting := by
  simp [nodeWaiting, setNodeWaiting]

@[simp] theorem nodeWaiting_deleteNodeWaiting (nodeName : String) (st : IRunExecutionData) :
    nodeWaiting (deleteNodeWaiting nodeName st) nodeName = {} := by
  simp [nodeWaiting, deleteNodeWaiting, InsertionMap.get?_erase]

/-! ### Nodes that have to be added first

A node that starts to wait needs the data of its other inputs. In the legacy order the nodes
that will deliver it are put on the stack, unless they are there already or will be. -/

/-- The nodes connected to the outputs of a node. -/
def checkOutputNodes (w : Workflow) (parentNodeName : String) : Except EngineError (List String) :=
  match w.connectionsBySourceNode.get? parentNodeName with
  | none => .error .typeError
  | some connections =>
    .ok ((((connections.get? .main).getD []).flatMap (·.getD [])).map IConnection.node)

/-- `connectionsByDestinationNode[nodeName].main[0] ?? []`. -/
def firstInput (w : Workflow) (nodeName : String) : Except EngineError (List IConnection) :=
  match mainInputs w nodeName with
  | none => .error .typeError
  | some inputs => .ok ((inputs[0]?).join.getD [])

/-- The parent adds the node anyway, as its incoming data is not empty. -/
def addedByParent (w : Workflow) (runData : IRunData) (runIndex : ℕ) (outputNodes : List String)
    (nodeName : String) : Except EngineError Bool :=
  if outputNodes.contains nodeName then do
    let isEmpty ← incomingConnectionIsEmpty runData runIndex (← firstInput w nodeName)
    return !isEmpty
  else .ok false

/-- Follow the nodes before an input up to one that is processed; nothing when one of them is
going to be executed. -/
def chooseNodeToAdd (outputNodes executionStackNodes : List String) (runData : IRunData)
    (inputNode : String) : List String → String → Option String
  | [], nodeToAdd => some nodeToAdd
  | parentNode :: parentNodes, nodeToAdd =>
    if inputNode ≠ parentNode ∧ outputNodes.contains parentNode then none
    else if executionStackNodes.contains parentNode then none
    else if runData.has parentNode then some nodeToAdd
    else chooseNodeToAdd outputNodes executionStackNodes runData inputNode parentNodes parentNode

/-- The node that has to run so that an input gets data, if there is one. -/
def nodeToAdd (w : Workflow) (d : Delivery) (outputNodes : List String) (st : IRunExecutionData)
    (inputData : IConnection) : Except EngineError (Option String) :=
  if inputData.node = d.parentNodeName then .ok none
  else do
    let executionStackNodes := st.nodeExecutionStack.map (·.node.name)
    let added ← addedByParent w st.runData d.runIndex outputNodes inputData.node
    if added ∨ executionStackNodes.contains inputData.node ∨ st.runData.has inputData.node ∨
        ¬isLegacyExecutionOrder w then
      return none
    else
      let parentNodes := (w.getParentNodes inputData.node ++ [inputData.node]).reverse
      match chooseNodeToAdd outputNodes executionStackNodes st.runData inputData.node parentNodes
          inputData.node with
      | none => return none
      | some nodeToAdd =>
        if (w.getParentNodes nodeToAdd).contains d.parentNodeName then
          match d.data with
          | .value data => return if data.length = 0 then none else some nodeToAdd
          | _ => .error .typeError
        else return some nodeToAdd

/-- The stack entry of a node that is added without data. -/
def emptyItemEntry (w : Workflow) (d : Delivery) (nodeName : String) : IExecuteData where
  node := (w.getNode nodeName).getD default
  data := InsertionMap.empty.set .main [.value [{}]]
  source := some (InsertionMap.empty.set .main [.value d.sourceData])

/-- Add the node that has to run for an input, when it would not be added by a node before
it. -/
def addInputNode (w : Workflow) (d : Delivery) (outputNodes : List String)
    (st : IRunExecutionData) (inputData : IConnection) :
    IRunExecutionData × Except EngineError Unit :=
  let addEmptyItem : Except EngineError (Option String) := do
    match ← nodeToAdd w d outputNodes st inputData with
    | none => return none
    | some nodeName =>
      if w.connectionsByDestinationNode.has nodeName then
        let isEmpty ←
          incomingConnectionIsEmpty st.runData d.runIndex (← firstInput w nodeName)
        return if isEmpty then some nodeName else none
      else return some nodeName
  match addEmptyItem with
  | .error e => (st, .error e)
  | .ok none => (st, .ok ())
  | .ok (some nodeName) =>
    ({ st with
        nodeExecutionStack := enqueue w (emptyItemEntry w d nodeName) st.nodeExecutionStack },
      .ok ())

/-- Go through all inputs of a node that starts to wait. -/
def addInputNodes (w : Workflow) (d : Delivery) (st : IRunExecutionData) :
    IRunExecutionData × Except EngineError Unit :=
  match checkOutputNodes w d.parentNodeName with
  | .error e => (st, .error e)
  | .ok outputNodes =>
    ExceptFold.foldUntilError (addInputNode w d outputNodes) st
      (((mainInputs w d.connectionData.node).getD []).flatMap (·.getD []))

/-- Only the stack changes. -/
theorem addInputNodes_eq (w : Workflow) (d : Delivery) (st : IRunExecutionData) :
    ∃ stack, (addInputNodes w d st).1 = { st with nodeExecutionStack := stack } := by
  rw [addInputNodes]
  split
  next => exact ⟨st.nodeExecutionStack, rfl⟩
  next outputNodes _ =>
    refine ExceptFold.foldUntilError_induct
      (P := fun st' : IRunExecutionData => ∃ stack, st' = { st with nodeExecutionStack := stack })
      (fun st' inputData _ hst' => ?_) ⟨st.nodeExecutionStack, rfl⟩
    obtain ⟨stack, rfl⟩ := hst'
    simp only [addInputNode]
    split
    next => exact ⟨stack, rfl⟩
    next => exact ⟨stack, rfl⟩
    next => exact ⟨_, rfl⟩

/-! ### The method -/

/-- A node that is missing in the workflow is `undefined` in the source. -/
def workflowNode (w : Workflow) (nodeName : String) : INode := (w.getNode nodeName).getD default

/-- What a call does to the waiting entries of its node. -/
def deliverTo (w : Workflow) (d : Delivery) (st : IRunExecutionData) :
    NodeWaiting × Except EngineError DeliveryOutcome :=
  (nodeWaiting st d.connectionData.node).deliver (numberOfInputs w d.connectionData.node)
    d.connectionData.index d.data d.source

/-- The node has several inputs: its data goes through the waiting area. -/
def addToWaiting (w : Workflow) (d : Delivery) (st : IRunExecutionData) :
    IRunExecutionData × Except EngineError Unit :=
  let nodeName := d.connectionData.node
  let nodeWasWaiting := st.waitingExecution.has nodeName
  match deliverTo w d st with
  | (waiting, .error e) =>
    ({ st with
        waitingExecution := st.waitingExecution.set nodeName waiting.data
        waitingExecutionSource := some (st.waitingExecutionSource.getD .empty) }, .error e)
  | (waiting, .ok (.complete data source)) =>
    let executionStackItem : IExecuteData :=
      { node := workflowNode w nodeName, data, source := some source }
    ({ setOrDeleteNodeWaiting nodeName waiting st with
        nodeExecutionStack := enqueue w executionStackItem st.nodeExecutionStack }, .ok ())
  | (waiting, .ok (.missing waitingNodeIndex)) =>
    let r := if nodeWasWaiting then (setNodeWaiting nodeName waiting st, .ok ())
      else addInputNodes w d (setNodeWaiting nodeName waiting st)
    match r with
    | (st, .error e) => (st, .error e)
    | (st, .ok ()) =>
      (setNodeWaiting nodeName ((nodeWaiting st nodeName).rewrite waitingNodeIndex) st, .ok ())

/-- The stack entry of a node with one input. -/
def directEntry (d : Delivery) (node : INode) : IExecuteData where
  node := node
  data := InsertionMap.empty.set .main
    ((List.replicate (d.connectionData.index + 1) .null).set d.connectionData.index d.data)
  source := some (InsertionMap.empty.set .main [.value d.sourceData])
  runIndex := d.newRunIndex
  metadata := d.metadata

def addNodeToBeExecuted (w : Workflow) (d : Delivery) (st : IRunExecutionData) :
    IRunExecutionData × Except EngineError Unit :=
  if numberOfInputs w d.connectionData.node > 1 then addToWaiting w d st
  else
    match w.getNode d.connectionData.node with
    | none => (st, .ok ())
    | some node =>
      ({ st with
          nodeExecutionStack := enqueue w (directEntry d node) st.nodeExecutionStack }, .ok ())

/-! ### What a call does to the waiting area -/

/-- The item that a call moves from the waiting area to the stack. -/
def completedItem (w : Workflow) (d : Delivery) (st : IRunExecutionData) : Option IExecuteData :=
  if numberOfInputs w d.connectionData.node > 1 then
    match (deliverTo w d st).2 with
    | .ok (.complete data source) =>
      some { node := workflowNode w d.connectionData.node, data, source := some source }
    | _ => none
  else none

variable {w : Workflow} {d : Delivery} {st : IRunExecutionData}

/-- The waiting entries after an entry was completed. -/
theorem nodeWaiting_of_complete {waiting : NodeWaiting} {data : ITaskDataConnections}
    {source : ITaskDataConnectionsSource} (hn : 1 < numberOfInputs w d.connectionData.node)
    (hd : deliverTo w d st = (waiting, .ok (.complete data source)))
    (hempty : waiting.data.entries.length = 0 → waiting = {}) :
    nodeWaiting (addNodeToBeExecuted w d st).1 d.connectionData.node = waiting := by
  rw [addNodeToBeExecuted, if_pos hn, addToWaiting, hd]
  simp only [setOrDeleteNodeWaiting]
  split
  next hlen =>
    rw [hempty hlen]
    exact nodeWaiting_deleteNodeWaiting d.connectionData.node st
  next => exact nodeWaiting_setNodeWaiting d.connectionData.node waiting st

/-- The waiting entries after an entry still waits. -/
theorem nodeWaiting_of_missing {waiting : NodeWaiting} {waitingNodeIndex : ℕ}
    (hn : 1 < numberOfInputs w d.connectionData.node)
    (hd : deliverTo w d st = (waiting, .ok (.missing waitingNodeIndex))) :
    nodeWaiting (addNodeToBeExecuted w d st).1 d.connectionData.node = waiting ∨
      nodeWaiting (addNodeToBeExecuted w d st).1 d.connectionData.node
        = waiting.rewrite waitingNodeIndex := by
  rw [addNodeToBeExecuted, if_pos hn, addToWaiting, hd]
  obtain ⟨stack, hstack⟩ := addInputNodes_eq w d (setNodeWaiting d.connectionData.node waiting st)
  have hkeep : ∀ stack, nodeWaiting { setNodeWaiting d.connectionData.node waiting st with
      nodeExecutionStack := stack } d.connectionData.node = waiting := fun stack =>
    nodeWaiting_setNodeWaiting d.connectionData.node waiting st
  simp only
  by_cases hwas : st.waitingExecution.has d.connectionData.node = true
  · simp only [hwas, if_true]
    right
    rw [nodeWaiting_setNodeWaiting, nodeWaiting_setNodeWaiting]
  · simp only [hwas]
    rcases hadd : addInputNodes w d (setNodeWaiting d.connectionData.node waiting st)
      with ⟨st', e | u⟩
    · rw [hadd] at hstack
      left
      simp only at hstack
      simp only [if_neg, Bool.false_eq_true, not_false_eq_true, hstack]
      exact hkeep stack
    · rw [hadd] at hstack
      right
      simp only at hstack
      simp only [if_neg, Bool.false_eq_true, not_false_eq_true, hstack]
      rw [nodeWaiting_setNodeWaiting, hkeep]

end WorkflowExecute

end N8n
