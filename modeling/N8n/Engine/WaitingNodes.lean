import N8n.Engine.HandleEngineRequest
import N8n.Foundations.PlainObject

/-!
# Running the nodes that wait

When the execution stack is empty, nodes that wait for data on some of their inputs may run
with what they have. The waiting nodes are looked at in turn: the first one that may run leaves
the waiting area with one of its entries and goes on the stack, and an entry without any items
is removed on the way, upon which the search starts again.
-/

namespace N8n

namespace WorkflowExecute

/-- The inputs that must have data for a node to run; in the legacy order none must. -/
def requiredInputs (w : Workflow) (checkNode : INode) : Option RequiredInputs :=
  if w.executionOrder = some "v1" then
    match (w.nodeTypes checkNode).requiredInputs with
    | none => none
    | some (.value requiredInputs) => some requiredInputs
    | some (.expression value) => w.evaluate checkNode value
  else none

/-- All inputs are required. -/
def requiresAllInputs (w : Workflow) (checkNode : INode) : Bool :=
  match requiredInputs w checkNode with
  | none => false
  | some (.indexes inputs) => inputs.length = (w.nodeTypes checkNode).inputsLength
  | some (.count n) => n = (w.nodeTypes checkNode).inputsLength

/-- The run index of the entry to run: the first one in the order of their decimal texts. -/
def firstRunIndex (data : InsertionMap ℕ ITaskDataConnections) : Option ℕ :=
  (data.keys.insertionSort fun k k' =>
    ¬List.lex (Nat.toDigits 10 k') (Nat.toDigits 10 k) (fun c c' => c < c')).head?

/-- The inputs which received any kind of data. -/
def inputsWithData (main : NodeOutputs) : List ℕ :=
  main.zipIdx.filterMap fun input => if input.1.isValue then some input.2 else none

/-- Data is missing on an input that is required. -/
def inputDataMissing (requiredInputs : Option RequiredInputs) (main : NodeOutputs) : Bool :=
  match requiredInputs with
  | none => false
  | some (.indexes inputs) => inputs.any fun input => ¬(inputsWithData main).contains input
  | some (.count n) => (inputsWithData main).length < n

/-- Inputs that never got any data are empty. -/
def taskDataMain (main : NodeOutputs) : NodeOutputs :=
  main.map fun
    | .null => .value []
    | data => data

/-- Some input has items. -/
def hasItems (main : NodeOutputs) : Bool :=
  main.any fun data => (data.toOption.getD []).length ≠ 0

/-- Each input at least receives an empty array. -/
def padInputs (inputsLength : ℕ) (main : NodeOutputs) : NodeOutputs :=
  main ++ List.replicate (inputsLength - main.length) (.value [])

/-- What becomes of a waiting node that is looked at. -/
inductive WaitingNodeOutcome where
  | skipped
  | removed
  | added
  deriving DecidableEq, Repr

/-- Remove an entry of a node from the waiting area. -/
def removeWaiting (nodeName : String) (runIndex : ℕ) (st : IRunExecutionData) :
    IRunExecutionData × Except EngineError Unit :=
  let data := ((st.waitingExecution.get? nodeName).getD .empty).erase runIndex
  match st.waitingExecutionSource.bind (·.get? nodeName) with
  | none =>
    ({ st with waitingExecution := st.waitingExecution.set nodeName data }, .error .typeError)
  | some source => (setOrDeleteNodeWaiting nodeName ⟨data, source.erase runIndex⟩ st, .ok ())

/-- The data of the entry of a node that would run, with its run index. -/
def firstWaitingEntry (st : IRunExecutionData) (nodeName : String) : Option (ℕ × NodeOutputs) :=
  (st.waitingExecution.get? nodeName).bind fun data => (firstRunIndex data).bind fun runIndex =>
    ((data.get? runIndex).bind (·.get? .main)).map fun main => (runIndex, main)

/-- The stack entry of a waiting node. -/
def waitingNodeEntry (w : Workflow) (checkNode : INode) (main : NodeOutputs)
    (source : Option ITaskDataConnectionsSource) : IExecuteData where
  node := checkNode
  data := InsertionMap.empty.set .main (padInputs (w.nodeTypes checkNode).inputsLength main)
  source := source

/-- Look at one of the waiting nodes. -/
def checkWaitingNode (w : Workflow) (waitingNodes : List String) (nodeName : String)
    (st : IRunExecutionData) : IRunExecutionData × Except EngineError WaitingNodeOutcome :=
  match w.getNode nodeName with
  | none => (st, .ok .skipped)
  | some checkNode =>
    if requiresAllInputs w checkNode then (st, .ok .skipped)
    else if (w.getParentNodes nodeName).any waitingNodes.contains then (st, .ok .skipped)
    else
      match firstWaitingEntry st nodeName with
      | none => (st, .error .typeError)
      | some (runIndex, main) =>
        if inputDataMissing (requiredInputs w checkNode) main then (st, .ok .skipped)
        else if hasItems (taskDataMain main) then
          match st.waitingExecutionSource.bind (·.get? nodeName) with
          | none => (st, .error .typeError)
          | some source =>
            let entry := waitingNodeEntry w checkNode (taskDataMain main) (source.get? runIndex)
            let st := { st with nodeExecutionStack := st.nodeExecutionStack ++ [entry] }
            ((removeWaiting nodeName runIndex st).1, .ok .added)
        else
          match removeWaiting nodeName runIndex st with
          | (st, .error e) => (st, .error e)
          | (st, .ok ()) => (st, .ok .removed)

/-- Look at the waiting nodes up to one that is not skipped. -/
def checkWaitingNodes (w : Workflow) (waitingNodes : List String) :
    List String → IRunExecutionData → IRunExecutionData × Except EngineError WaitingNodeOutcome
  | [], st => (st, .ok .skipped)
  | nodeName :: nodeNames, st =>
    match checkWaitingNode w waitingNodes nodeName st with
    | (st, .ok .skipped) => checkWaitingNodes w waitingNodes nodeNames st
    | r => r

/-- Look at all waiting nodes, again as long as an entry is removed. The first argument bounds
the number of rounds. -/
def searchWaitingNodes (w : Workflow) :
    ℕ → IRunExecutionData → IRunExecutionData × Except EngineError Unit
  | 0, st => (st, .ok ())
  | rounds + 1, st =>
    let waitingNodes := st.waitingExecution.ownKeys
    match checkWaitingNodes w waitingNodes waitingNodes st with
    | (st, .ok .removed) => searchWaitingNodes w rounds st
    | (st, .ok _) => (st, .ok ())
    | (st, .error e) => (st, .error e)

/-- The number of entries in the waiting area. -/
def waitingCount (st : IRunExecutionData) : ℕ :=
  (st.waitingExecution.entries.map fun node => node.2.entries.length).sum

/-- Put a waiting node on the stack when it is empty. -/
def addWaitingNode (w : Workflow) (st : IRunExecutionData) :
    IRunExecutionData × Except EngineError Unit :=
  if st.nodeExecutionStack.length = 0 then searchWaitingNodes w (waitingCount st + 1) st
  else (st, .ok ())

/-! ### The search -/

variable {w : Workflow} {st st' : IRunExecutionData} {nodeName : String} {runIndex : ℕ}

/-- Entries are added to the stack behind those there are, and else only the waiting area
changes. -/
def Adds (added : List IExecuteData) (st st' : IRunExecutionData) : Prop :=
  st'.nodeExecutionStack = st.nodeExecutionStack ++ added ∧ st'.runData = st.runData ∧
    st'.runNodeFilter = st.runNodeFilter

theorem adds_removeWaiting (nodeName : String) (runIndex : ℕ) (st : IRunExecutionData) :
    Adds [] st (removeWaiting nodeName runIndex st).1 := by
  rw [removeWaiting]
  split
  next => exact ⟨(List.append_nil _).symm, rfl, rfl⟩
  next source _ =>
    simp only [setOrDeleteNodeWaiting]
    split
    next => exact ⟨(List.append_nil _).symm, rfl, rfl⟩
    next => exact ⟨(List.append_nil _).symm, rfl, rfl⟩

end WorkflowExecute

end N8n
