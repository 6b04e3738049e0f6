import N8n.Engine.AddNodeToBeExecuted

/-!
# Requests of a node to the engine

A node may answer its execution with a request: other nodes are to be executed first, and it
wants to run again with their results. `handleRequest` prepares that. For every action it
creates the run of the requested node in the run data, empty but for what is displayed, and
keeps its index; the list of these indexes is the metadata with which the requesting node is
put back.
-/

namespace N8n

namespace RequestsResponse

/-- The error of an operation on `undefined` or `null`. The texts of these errors are not
modelled. -/
def typeError : ExecutionError := ⟨"TypeError"⟩

structure NodeToBeExecuted where
  inputConnectionData : IConnection
  parentOutputIndex : ℕ
  parentNode : String
  parentOutputData : Option (List (Slot (List INodeExecutionData)))
  runIndex : ℕ
  nodeRunIndex : ℕ
  metadata : Option ITaskMetadata := none
  deriving DecidableEq, Repr

def buildParentOutputData (json : IDataObject) (parentRunIndex parentOutputIndex : ℕ)
    (parentSourceNode : String) : List (Slot (List INodeExecutionData)) :=
  [.value [{
    json
    pairedItem := some (.single {
      item := parentRunIndex
      input := some parentOutputIndex
      sourceOverwrite := some {
        previousNode := parentSourceNode
        previousNodeOutput := some parentOutputIndex
        previousNodeRun := some parentRunIndex } }) }]]

/-- The number of runs of a node. -/
def runCount (runData : IRunData) (nodeName : String) : ℕ :=
  ((runData.get? nodeName).getD []).length

/-- `actionMetadata?.parentNodeName` as a condition. -/
def hasParentNodeName (action : ExecuteNodeAction) : Bool :=
  action.parentNodeName.any (· ≠ "")

/-- Create the run of a requested node; it comes after those there are. -/
def initializeNodeRunData (runData : IRunData) (nodeName : String) (sourceData : ISourceData)
    (displayOutputData : List (Slot (List INodeExecutionData))) : IRunData :=
  runData.set nodeName ((runData.get? nodeName).getD [] ++ [{
    inputOverride := some (InsertionMap.empty.set .aiTool displayOutputData)
    source := [.value sourceData] }])

/-- What is prepared for the actions of a request: the run data with the new runs, the
`rewireOutputLogTo` of the requested nodes, the nodes to be executed and the metadata of the
requesting node. -/
structure Prepared where
  runData : IRunData
  rewireOutputLogTo : InsertionMap String NodeConnectionType
  nodesToBeExecuted : List NodeToBeExecuted := []
  actions : List SubNodeExecutionDataAction := []
  deriving DecidableEq

/-- `executionData.source?.main?.[runIndex]`. -/
def parentSourceData (executionData : IExecuteData) (runIndex : ℕ) : Option ISourceData :=
  (SparseArray.getAt .hole ((executionData.source.bind (·.get? .main)).getD []) runIndex).toOption

/-- The item of the requesting node that an action belongs to:
`executionData.data.main?.[0]?.[itemIndex]`. -/
def agentInputData (executionData : IExecuteData) (action : ExecuteNodeAction) :
    Option INodeExecutionData :=
  (SparseArray.getAt .hole ((executionData.data.get? .main).getD []) 0).toOption.bind
    (·[action.itemIndex.getD 0]?)

/-- One action of a request. An array without runs counts like a missing one for the run index
of its parent. -/
def prepareRequestedNode (w : Workflow) (currentNode : INode) (runIndex : ℕ)
    (executionData : IExecuteData) (prepared : Prepared) (action : ExecuteNodeAction) :
    Prepared × Except ExecutionError Unit :=
  match w.getNode action.nodeName with
  | none =>
    (prepared, .error
      ⟨"Workflow does not contain a node with the name of \"" ++ action.nodeName ++ "\"."⟩)
  | some node =>
    let parentSourceData := parentSourceData executionData runIndex
    let defaultParentOutputIndex := (parentSourceData.bind (·.previousNodeOutput)).getD 0
    let defaultParentSourceNode := (parentSourceData.map (·.previousNode)).getD currentNode.name
    let parentNode := action.parentNodeName.getD currentNode.name
    let parentRunIndex :=
      if hasParentNodeName action then runCount prepared.runData parentNode - 1
      else (parentSourceData.bind (·.previousNodeRun)).getD 0
    let mergedJson :=
      JsonValue.setField
        (JsonValue.spread (((agentInputData executionData action).map (·.json)).getD [])
          action.input) "toolCallId" (.str action.id)
    let actionRunIndex := if hasParentNodeName action then parentRunIndex else runIndex
    let nodeRunIndex := runCount prepared.runData node.name
    ({ runData := initializeNodeRunData prepared.runData node.name
        { previousNode := parentNode
          previousNodeOutput := some defaultParentOutputIndex
          previousNodeRun := some actionRunIndex }
        (buildParentOutputData action.input parentRunIndex defaultParentOutputIndex
          defaultParentSourceNode)
       rewireOutputLogTo := prepared.rewireOutputLogTo.set node.name action.type
       nodesToBeExecuted := prepared.nodesToBeExecuted ++ [{
        inputConnectionData := ⟨action.nodeName, action.type, 0⟩
        parentOutputIndex := 0
        parentNode
        parentOutputData := some (buildParentOutputData mergedJson parentRunIndex
          defaultParentOutputIndex defaultParentSourceNode)
        runIndex := actionRunIndex
        nodeRunIndex
        metadata := some {
          preserveSourceOverwrite := some true
          preservedSourceOverwrite := some
            ((executionData.metadata.bind (·.preservedSourceOverwrite)).getD {
              previousNode := defaultParentSourceNode
              previousNodeOutput := some defaultParentOutputIndex
              previousNodeRun := some parentRunIndex }) } }]
       actions := prepared.actions ++
        [{ nodeName := action.nodeName, runIndex := nodeRunIndex, action }] }, .ok ())

def prepareRequestedNodesForExecution (w : Workflow) (currentNode : INode)
    (request : EngineRequest) (runIndex : ℕ) (runData : IRunData)
    (rewireOutputLogTo : InsertionMap String NodeConnectionType) (executionData : IExecuteData) :
    Prepared × Except ExecutionError Unit :=
  ExceptFold.foldUntilError (prepareRequestedNode w currentNode runIndex executionData)
    { runData, rewireOutputLogTo } request.actions

/-- `executionData.source?.main?.[0]?.previousNode`, if it is a name. -/
def resumingParent (executionData : IExecuteData) : Option String :=
  ((parentSourceData executionData 0).map (·.previousNode)).filter (· ≠ "")

/-- The requesting node, to be executed again when its parent is known. -/
def prepareRequestingNodeForResuming (request : EngineRequest) (runIndex : ℕ)
    (executionData : IExecuteData) (actions : List SubNodeExecutionDataAction) :
    Option NodeToBeExecuted :=
  (resumingParent executionData).map fun parentNode => {
    inputConnectionData := ⟨executionData.node.name, .aiTool, 0⟩
    parentOutputIndex := 0
    parentNode
    parentOutputData := executionData.data.get? .main
    runIndex
    nodeRunIndex := runIndex
    metadata := some
      (let metadata : ITaskMetadata :=
        { nodeWasResumed := some true
          subNodeExecutionData := some { actions, metadata := request.metadata } }
      match executionData.metadata with
      | some { preservedSourceOverwrite := some source
               preserveSourceOverwrite := some true, .. } =>
        { metadata with
          preserveSourceOverwrite := some true
          preservedSourceOverwrite := some source }
      | _ => metadata) }

/-- Prepare the nodes to be executed for a request: the requesting node first, the requested ones
after it, and none at all when the requesting node has no parent. The run data and the nodes
change also when it throws. -/
def handleRequest (w : Workflow) (currentNode : INode) (request : EngineRequest) (runIndex : ℕ)
    (executionData : IExecuteData) (runData : IRunData)
    (rewireOutputLogTo : InsertionMap String NodeConnectionType) :
    Prepared × Except ExecutionError (List NodeToBeExecuted) :=
  match prepareRequestedNodesForExecution w currentNode request runIndex runData
      rewireOutputLogTo executionData with
  | (prepared, .error e) => (prepared, .error e)
  | (prepared, .ok ()) =>
    match prepareRequestingNodeForResuming request runIndex executionData prepared.actions with
    | none => (prepared, .ok [])
    | some requestingNode => (prepared, .ok (requestingNode :: prepared.nodesToBeExecuted))

/-! ### What is prepared -/

/-- Every node has at least the runs it had. -/
def RunsKept (runData runData' : IRunData) : Prop :=
  ∀ nodeName, runCount runData nodeName ≤ runCount runData' nodeName

theorem RunsKept.refl (runData : IRunData) : RunsKept runData runData := fun _ => le_rfl

theorem RunsKept.trans {runData₁ runData₂ runData₃ : IRunData} (h : RunsKept runData₁ runData₂)
    (h' : RunsKept runData₂ runData₃) : RunsKept runData₁ runData₃ :=
  fun nodeName => (h nodeName).trans (h' nodeName)

theorem runCount_set (runData : IRunData) (nodeName nodeName' : String) (runs : List ITaskData) :
    runCount (runData.set nodeName runs) nodeName' =
      if nodeName' = nodeName then runs.length else runCount runData nodeName' := by
  rw [runCount, InsertionMap.get?_set]
  split
  · rfl
  · rfl

theorem runCount_initializeNodeRunData (runData : IRunData) (nodeName nodeName' : String)
    (sourceData : ISourceData) (displayOutputData : List (Slot (List INodeExecutionData))) :
    runCount (initializeNodeRunData runData nodeName sourceData displayOutputData) nodeName' =
      runCount runData nodeName' + if nodeName' = nodeName then 1 else 0 := by
  rw [initializeNodeRunData, runCount_set]
  split
  next heq =>
    rw [heq, List.length_append]
    rfl
  next => rfl

variable {w : Workflow} {currentNode : INode} {runIndex : ℕ} {executionData : IExecuteData}
  {request : EngineRequest} {runData : IRunData}
  {rewireOutputLogTo : InsertionMap String NodeConnectionType} {prepared : Prepared}

/-- One action keeps the runs. -/
theorem runsKept_prepareRequestedNode (prepared : Prepared) (action : ExecuteNodeAction) :
    RunsKept prepared.runData
      (prepareRequestedNode w currentNode runIndex executionData prepared action).1.runData := by
  rw [prepareRequestedNode]
  split
  next => exact RunsKept.refl _
  next node _ =>
    intro nodeName
    simp only [runCount_initializeNodeRunData]
    exact Nat.le_add_right ..

theorem runsKept_handleRequest : RunsKept runData
    (handleRequest w currentNode request runIndex executionData runData rewireOutputLogTo).1.runData
      := by
  have hkept : RunsKept runData (prepareRequestedNodesForExecution w currentNode request runIndex
      runData rewireOutputLogTo executionData).1.runData :=
    ExceptFold.foldUntilError_induct
      (P := fun prepared : Prepared => RunsKept runData prepared.runData)
      (fun prepared action _ h => h.trans (runsKept_prepareRequestedNode prepared action))
      (RunsKept.refl runData)
  rw [handleRequest]
  rcases hprepared : prepareRequestedNodesForExecution w currentNode request runIndex runData
    rewireOutputLogTo executionData with ⟨prepared, e | u⟩
  · rw [hprepared] at hkept
    exact hkept
  · rw [hprepared] at hkept
    simp only
    split
    next => exact hkept
    next => exact hkept

end RequestsResponse

end N8n
