import N8n.Engine.NodeTries
import N8n.Engine.WaitingNodes

/-!
# The execution loop

`processRunExecutionData` takes entries from the execution stack until it is empty. One
iteration (`iterate`) takes an entry, runs its node, records the run and puts the nodes behind
it on the stack. Iterations end early in many ways; each returns its own `Iteration`.

What the nodes answer is given to the iteration, as the calls of its turn. Hooks, hints, times
and binary data are left out. A cancelled execution makes no further iteration.
-/

namespace N8n

/-- Why the loop ended before the stack was empty. -/
inductive LoopEnd where
  | failed (error : ExecutionError)
  | waiting
  | threw (error : EngineError)
  deriving DecidableEq, Repr

/-- The variables of the loop. The last execution try is a node name with a run index; the
`rewireOutputLogTo` that nodes got from requests is kept next to the nodes. -/
structure Loop where
  execution : IRunExecutionData
  rewireOutputLogTo : InsertionMap String NodeConnectionType := .empty
  lastExecutionTry : Option (String × ℕ) := none
  currentNodeExecutionIndex : ℕ := 0
  ended : Option LoopEnd := none
  deriving DecidableEq

/-- What an iteration came to. -/
inductive Iteration where
  | endlessLoop
  | filtered
  | inputMissing
  | requested (queueing : WorkflowExecute.Queueing)
  | noData
  | failed
  | threw
  | waiting
  | destination
  | done
  deriving DecidableEq

namespace WorkflowExecute

open RequestsResponse

/-! ### Before the node runs -/

/-- The node is on the filter, if there is one. -/
def passesFilter (st : IRunExecutionData) (nodeName : String) : Bool :=
  st.runNodeFilter.all (·.contains nodeName)

/-- Some input that `ensureInputData` looks at, from the given ones on, has no data. Inputs
without an enabled node before them end the check. -/
def lacksInputData (w : Workflow) (executionData : IExecuteData) : List ℕ → Bool
  | [] => false
  | connectionIndex :: connectionIndexes =>
    if (w.getHighestNode executionData.node.name (some connectionIndex)).length = 0 then false
    else
      match executionData.data.get? .main with
      | none => true
      | some main =>
        if isLegacyExecutionOrder w ∧
            (main.length < connectionIndex ∨ main[connectionIndex]? = some .null) then true
        else lacksInputData w executionData connectionIndexes

/-- An entry that lacks data goes back on the stack. -/
def ensureInputData (w : Workflow) (executionData : IExecuteData) (st : IRunExecutionData) :
    IRunExecutionData × Bool :=
  if lacksInputData w executionData
      (List.range ((mainInputs w executionData.node.name).getD []).length) then
    ({ st with nodeExecutionStack := st.nodeExecutionStack ++ [executionData] }, false)
  else (st, true)

/-- The index of the run. -/
def runIndexOf (st : IRunExecutionData) (executionData : IExecuteData) : ℕ :=
  executionData.runIndex.getD (runCount st.runData executionData.node.name)

/-! ### The record of the run -/

/-- `Object.assign(currentTaskData, taskData)`. -/
def assignTaskData (currentTaskData taskData : ITaskData) : ITaskData :=
  { taskData with
    data := taskData.data.or currentTaskData.data
    inputOverride := taskData.inputOverride.or currentTaskData.inputOverride
    error := taskData.error.or currentTaskData.error }

/-- The run of a node at an index, if there is one. -/
def runAt (runData : IRunData) (nodeName : String) (runIndex : ℕ) : Option ITaskData :=
  (runData.get? nodeName).bind (·[runIndex]?)

/-- Record a run: in the place of the one with this index, or else as the last one. -/
def recordTaskData (runData : IRunData) (nodeName : String) (runIndex : ℕ)
    (taskData : ITaskData) : IRunData :=
  let runs := (runData.get? nodeName).getD []
  runData.set nodeName
    (match runs[runIndex]? with
    | some currentTaskData => runs.set runIndex (assignTaskData currentTaskData taskData)
    | none => runs ++ [taskData])

/-- The data of a run: its output, under the connection type the node logs it to. A node that was
requested keeps what is displayed as its input. -/
def withOutput (rewireOutputLogTo : Option NodeConnectionType) (runData : IRunData)
    (nodeName : String) (runIndex : ℕ) (output : NodeOutputs) (taskData : ITaskData) :
    ITaskData :=
  match rewireOutputLogTo with
  | none => { taskData with data := some (InsertionMap.empty.set .main output) }
  | some type => { taskData with
      data := some (InsertionMap.empty.set type output)
      inputOverride := some
        (((runAt runData nodeName runIndex).bind (·.inputOverride)).getD .empty) }

/-- The workflow continues even if the node errors. -/
def continuesOnFail (node : INode) : Bool :=
  node.continueOnFail = some true ∨ node.onError = some .continueRegularOutput ∨
    node.onError = some .continueErrorOutput

/-- The input data of a node that failed, to be passed through. -/
def passInputThrough (executionData : IExecuteData) (nodeSuccessData : Option NodeOutputs) :
    Option NodeOutputs :=
  match executionData.data.get? .main with
  | some (input :: _) => if input = .null then nodeSuccessData else some [input]
  | _ => nodeSuccessData

/-! ### The nodes behind a node -/

structure NodeToAdd where
  position : ℤ × ℤ
  connection : IConnection
  outputIndex : ℕ
  deriving DecidableEq, Repr

/-- The main connections of a node with the index of their output. -/
def outputConnections (w : Workflow) (nodeName : String) : List (ℕ × IConnection) :=
  (((w.connectionsBySourceNode.get? nodeName).bind (·.get? .main)).getD []).zipIdx.flatMap
    fun output => (output.1.getD []).map fun connection => (output.2, connection)

/-- The node is added: its output has items, or the node has an optional input there. -/
def isAdded (w : Workflow) (nodeSuccessData : NodeOutputs) (output : ℕ × IConnection) : Bool :=
  match SparseArray.getAt .hole nodeSuccessData output.1 with
  | .value data => data.length ≠ 0 ∨ (output.2.index > 0 ∧ isLegacyExecutionOrder w)
  | _ => false

def checkDestination (w : Workflow) (connection : IConnection) : Except EngineError Unit :=
  if w.nodes.has connection.node then .ok ()
  else .error (.applicationError "Destination node not found")

/-- A node more to the top-left is executed first, and thus added later. -/
def NodeToAdd.isBefore (a b : NodeToAdd) : Prop :=
  b.position.2 < a.position.2 ∨ a.position.2 = b.position.2 ∧ b.position.1 < a.position.1

instance (a b : NodeToAdd) : Decidable (a.isBefore b) := by
  unfold NodeToAdd.isBefore
  infer_instance

/-- The nodes that are added, sorted by their positions. -/
def nodesToAdd (w : Workflow) (nodeSuccessData : NodeOutputs) (nodeName : String) :
    Except EngineError (List NodeToAdd) := do
  let outputs ← (outputConnections w nodeName).mapM fun output => do
    checkDestination w output.2
    return output
  let nodes := (outputs.filter (isAdded w nodeSuccessData)).map fun output =>
    { position := ((w.getNode output.2.node).map (·.position)).getD (0, 0)
      connection := output.2
      outputIndex := output.1 }
  return nodes.insertionSort fun a b => ¬b.isBefore a

def childDelivery (nodeName : String) (nodeSuccessData : NodeOutputs) (runIndex : ℕ)
    (outputIndex : ℕ) (connection : IConnection) : Delivery where
  connectionData := connection
  outputIndex := outputIndex
  parentNodeName := nodeName
  nodeSuccessData := some nodeSuccessData
  runIndex := runIndex

/-- Add a node while going through the connections, as the legacy order does. -/
def addChild (w : Workflow) (nodeName : String) (nodeSuccessData : NodeOutputs) (runIndex : ℕ)
    (st : IRunExecutionData) (output : ℕ × IConnection) :
    IRunExecutionData × Except EngineError Unit :=
  match checkDestination w output.2 with
  | .error e => (st, .error e)
  | .ok () =>
    if isAdded w nodeSuccessData output then
      addNodeToBeExecuted w
        (childDelivery nodeName nodeSuccessData runIndex output.1 output.2) st
    else (st, .ok ())

/-- Add the nodes to which the node has an output connection. -/
def addChildren (w : Workflow) (nodeName : String) (nodeSuccessData : NodeOutputs) (runIndex : ℕ)
    (st : IRunExecutionData) : IRunExecutionData × Except EngineError Unit :=
  if isLegacyExecutionOrder w then
    ExceptFold.foldUntilError (addChild w nodeName nodeSuccessData runIndex) st
      (outputConnections w nodeName)
  else
    match nodesToAdd w nodeSuccessData nodeName with
    | .error e => (st, .error e)
    | .ok nodes =>
      ExceptFold.foldUntilError (fun st node => addNodeToBeExecuted w
        (childDelivery nodeName nodeSuccessData runIndex node.outputIndex node.connection) st)
        st nodes

/-! ### The iteration -/

variable (w : Workflow) (env : NodeFunctions) (calls : List NodeCall)

/-- The task data of a run that succeeds or waits. -/
def taskDataOf (executionIndex : ℕ) (executionData : IExecuteData) (st : IRunExecutionData) :
    ITaskData where
  executionIndex := executionIndex
  source := (executionData.source.bind (·.get? .main)).getD []
  metadata := executionData.metadata
  executionStatus := some (if st.waitTill.isSome then .waiting else .success)

/-- The node failed and stops the workflow: its error is recorded and its entry is put back, so
that it can get restarted. -/
def failNode (executionData : IExecuteData) (runIndex : ℕ) (error : ExecutionError)
    (taskData : ITaskData) (loop : Loop) : Loop × Iteration :=
  let nodeName := executionData.node.name
  let rewireOutputLogTo :=
    (loop.rewireOutputLogTo.get? nodeName).or executionData.node.rewireOutputLogTo
  let taskData := { taskData with error := some error, executionStatus := some .error }
  let taskData := match rewireOutputLogTo with
    | none => taskData
    | some _ => withOutput rewireOutputLogTo loop.execution.runData nodeName runIndex
        [.value [{ json := [("error", .str error.message)] }]] taskData
  ({ loop with
      execution := { loop.execution with
        runData := recordTaskData loop.execution.runData nodeName runIndex taskData
        nodeExecutionStack := executionData :: loop.execution.nodeExecutionStack }
      ended := some (.failed error) }, .failed)

/-- After the run was recorded: the nodes behind it are added, and a node that waits when there
are none. -/
def addNextNodes (executionData : IExecuteData) (runIndex : ℕ) (nodeSuccessData : NodeOutputs)
    (loop : Loop) : Loop × Iteration :=
  match addChildren w executionData.node.name nodeSuccessData runIndex loop.execution with
  | (execution, .error e) => ({ loop with execution, ended := some (.threw e) }, .threw)
  | (execution, .ok ()) =>
    match addWaitingNode w execution with
    | (execution, .error e) => ({ loop with execution, ended := some (.threw e) }, .threw)
    | (execution, .ok ()) => ({ loop with execution }, .done)

/-- The node has data: its run is recorded, and the loop stops if the node waits. -/
def completeNode (executionData : IExecuteData) (runIndex : ℕ)
    (nodeSuccessData : Option NodeOutputs) (taskData : ITaskData) (loop : Loop) :
    Loop × Iteration :=
  let nodeName := executionData.node.name
  match mergeErrors nodeSuccessData with
  | .error e => ({ loop with ended := some (.threw e) }, .threw)
  | .ok nodeSuccessData =>
    let rewireOutputLogTo :=
      (loop.rewireOutputLogTo.get? nodeName).or executionData.node.rewireOutputLogTo
    let taskData := withOutput rewireOutputLogTo loop.execution.runData nodeName runIndex
      nodeSuccessData taskData
    let execution := { loop.execution with
      runData := recordTaskData loop.execution.runData nodeName runIndex taskData }
    if execution.waitTill.isSome then
      ({ loop with
          execution := { execution with
            nodeExecutionStack := executionData :: execution.nodeExecutionStack }
          ended := some .waiting }, .waiting)
    else if execution.destinationNode = some nodeName then
      ({ loop with execution }, .destination)
    else addNextNodes w executionData runIndex nodeSuccessData { loop with execution }

/-- After the tries of a node. -/
def finishNode (executionData : IExecuteData) (runIndex executionIndex : ℕ) (run : NodeRun)
    (loop : Loop) : Loop × Iteration :=
  let nodeName := executionData.node.name
  -- the run data of the node exists from here on
  let runData := run.execution.runData.set nodeName
    ((run.execution.runData.get? nodeName).getD [])
  let loop := { loop with
    execution := { run.execution with runData }
    rewireOutputLogTo := run.rewireOutputLogTo }
  let taskData := taskDataOf executionIndex executionData run.execution
  match run.executionError with
  | none => completeNode w executionData runIndex run.nodeSuccessData taskData loop
  | some error =>
    if continuesOnFail executionData.node then
      completeNode w executionData runIndex (passInputThrough executionData run.nodeSuccessData)
        { taskData with error := some error, executionStatus := some .error } loop
    else failNode executionData runIndex error taskData loop

/-- Run the node of an entry that has its input data. What the calls of `runNode` received is
returned too. -/
def executeNode (executionData : IExecuteData) (runIndex executionIndex : ℕ) (loop : Loop) :
    (Loop × Iteration) × List (Option EngineResponse) :=
  match runTries w env calls executionData runIndex loop.execution loop.rewireOutputLogTo with
  | (run, .requested queueing) =>
    (({ loop with execution := run.execution, rewireOutputLogTo := run.rewireOutputLogTo },
      .requested queueing), run.received)
  | (run, .noData) =>
    (({ loop with execution := run.execution, rewireOutputLogTo := run.rewireOutputLogTo },
      .noData), run.received)
  | (run, _) => (finishNode w executionData runIndex executionIndex run loop, run.received)

/-- One iteration of the loop, for an entry that was taken from the stack. -/
def iterate (executionData : IExecuteData) (loop : Loop) :
    (Loop × Iteration) × List (Option EngineResponse) :=
  let executionIndex := loop.currentNodeExecutionIndex
  let loop := { loop with currentNodeExecutionIndex := executionIndex + 1 }
  let executionData := updatePairedItems executionData
  let nodeName := executionData.node.name
  let runIndex := runIndexOf loop.execution executionData
  if loop.lastExecutionTry = some (nodeName, runIndex) then
    (({ loop with ended := some (.threw (.applicationError
        "Stopped execution because it seems to be in an endless loop")) }, .endlessLoop), [])
  else if passesFilter loop.execution nodeName then
    match ensureInputData w executionData loop.execution with
    | (execution, false) =>
      (({ loop with execution, lastExecutionTry := some (nodeName, runIndex) }, .inputMissing), [])
    | (execution, true) =>
      executeNode w env calls executionData runIndex executionIndex { loop with execution }
  else ((loop, .filtered), [])

/-! ### What an iteration does -/

variable {w env calls} {executionData : IExecuteData} {runIndex executionIndex : ℕ}
  {loop : Loop} {st : IRunExecutionData}

end WorkflowExecute

end N8n
