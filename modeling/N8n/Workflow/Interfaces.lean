import N8n.Foundations.JsonValue
import N8n.Foundations.PlainObject
import N8n.Foundations.SparseArray

/-!
# Workflow interfaces

The data types that the engine and the partial-execution planner share: nodes,
connections, items, run data and the entries of the execution stack. They follow the
interfaces of the workflow package field by field, without the fields that no modelled
function reads. An optional field `x?: T` is an `Option T`; a string-keyed object is an
`InsertionMap`; an array that may hold `null` or holes is a list of `Slot`s.
-/

namespace N8n

/-! ### Nodes and connections -/

/-- The types of a connection. -/
inductive NodeConnectionType where
  | aiAgent
  | aiChain
  | aiDocument
  | aiEmbedding
  | aiLanguageModel
  | aiMemory
  | aiOutputParser
  | aiRetriever
  | aiReranker
  | aiTextSplitter
  | aiTool
  | aiVectorStore
  | main
  deriving DecidableEq, Inhabited, Repr

/-- The string that denotes a connection type in workflows and run data. -/
def NodeConnectionType.toString : NodeConnectionType → String
  | .aiAgent => "ai_agent"
  | .aiChain => "ai_chain"
  | .aiDocument => "ai_document"
  | .aiEmbedding => "ai_embedding"
  | .aiLanguageModel => "ai_languageModel"
  | .aiMemory => "ai_memory"
  | .aiOutputParser => "ai_outputParser"
  | .aiRetriever => "ai_retriever"
  | .aiReranker => "ai_reranker"
  | .aiTextSplitter => "ai_textSplitter"
  | .aiTool => "ai_tool"
  | .aiVectorStore => "ai_vectorStore"
  | .main => "main"

instance : ToString NodeConnectionType := ⟨NodeConnectionType.toString⟩

theorem NodeConnectionType.toString_injective : Function.Injective toString := by
  let types : List NodeConnectionType := [.aiAgent, .aiChain, .aiDocument, .aiEmbedding,
    .aiLanguageModel, .aiMemory, .aiOutputParser, .aiRetriever, .aiReranker, .aiTextSplitter,
    .aiTool, .aiVectorStore, .main]
  have hmem : ∀ t, t ∈ types := by
    intro t
    cases t <;> decide
  have hall : ∀ a ∈ types, ∀ b ∈ types, a.toString = b.toString → a = b := by decide +kernel
  exact fun a b h => hall a (hmem a) b (hmem b) h

inductive OnError where
  | continueErrorOutput
  | continueRegularOutput
  | stopWorkflow
  deriving DecidableEq, Repr

structure INode where
  name : String
  type : String := ""
  position : ℤ × ℤ := (0, 0)
  disabled : Option Bool := none
  retryOnFail : Option Bool := none
  maxTries : Option ℤ := none
  alwaysOutputData : Option Bool := none
  executeOnce : Option Bool := none
  onError : Option OnError := none
  continueOnFail : Option Bool := none
  rewireOutputLogTo : Option NodeConnectionType := none
  deriving DecidableEq, Inhabited, Repr

/-- The truth value of `node.disabled`. -/
def INode.isDisabled (node : INode) : Bool := node.disabled = some true

/-- One end of a connection: the other node, the type of the connection at that node and
the index of the input (or output) there. -/
structure IConnection where
  node : String
  type : NodeConnectionType
  index : ℕ
  deriving DecidableEq, Repr

/-- The connections of one node and type, by the index of its output; an output without
connections may be `null`. -/
abbrev NodeInputConnections := List (Option (List IConnection))

abbrev INodeConnections := InsertionMap NodeConnectionType NodeInputConnections

/-- The connections of a workflow, by node. -/
abbrev IConnections := InsertionMap String INodeConnections

/-! ### Items and run data -/

/-- Where the data of an input came from. -/
structure ISourceData where
  previousNode : String
  previousNodeOutput : Option ℕ := none
  previousNodeRun : Option ℕ := none
  deriving DecidableEq, Repr

structure IPairedItemData where
  item : ℕ
  input : Option ℕ := none
  sourceOverwrite : Option ISourceData := none
  deriving DecidableEq, Repr

/-- The forms a `pairedItem` link takes. -/
inductive PairedItem where
  | number (item : ℕ)
  | single (data : IPairedItemData)
  | many (data : List IPairedItemData)
  deriving DecidableEq, Repr

/-- A JSON object as a list of fields. -/
abbrev IDataObject := List (String × JsonValue)

structure ExecutionError where
  message : String
  deriving DecidableEq, Repr

structure INodeExecutionData where
  json : IDataObject := []
  pairedItem : Option PairedItem := none
  error : Option ExecutionError := none
  deriving DecidableEq, Inhabited, Repr

/-- The data of the inputs (or outputs) of a node, by connection type and index. -/
abbrev ITaskDataConnections :=
  InsertionMap NodeConnectionType (List (Slot (List INodeExecutionData)))

/-- The sources of that data, in the same shape. -/
abbrev ITaskDataConnectionsSource := InsertionMap NodeConnectionType (List (Slot ISourceData))

/-- A node that another one asks the engine to execute. -/
structure ExecuteNodeAction where
  nodeName : String
  input : IDataObject
  type : NodeConnectionType
  id : String
  /-- The metadata of the action that the engine reads. -/
  parentNodeName : Option String := none
  itemIndex : Option ℕ := none
  deriving DecidableEq, Repr

structure EngineRequest where
  actions : List ExecuteNodeAction
  metadata : IDataObject := []
  deriving DecidableEq, Repr

structure SubNodeExecutionDataAction where
  nodeName : String
  runIndex : ℕ
  action : ExecuteNodeAction
  deriving DecidableEq, Repr

structure SubNodeExecutionData where
  actions : List SubNodeExecutionDataAction
  metadata : IDataObject
  deriving DecidableEq, Repr

structure ITaskMetadata where
  subNodeExecutionData : Option SubNodeExecutionData := none
  preserveSourceOverwrite : Option Bool := none
  preservedSourceOverwrite : Option ISourceData := none
  nodeWasResumed : Option Bool := none
  deriving DecidableEq, Repr

inductive ExecutionStatus where
  | canceled
  | crashed
  | error
  | new
  | running
  | success
  | unknown
  | waiting
  deriving DecidableEq, Repr

/-- The data of one run of a node. -/
structure ITaskData where
  executionIndex : ℕ := 0
  source : List (Slot ISourceData) := []
  executionStatus : Option ExecutionStatus := none
  data : Option ITaskDataConnections := none
  inputOverride : Option ITaskDataConnections := none
  error : Option ExecutionError := none
  metadata : Option ITaskMetadata := none
  deriving DecidableEq, Repr

/-- The runs of every node that ran, by node name. -/
abbrev IRunData := InsertionMap String (List ITaskData)

/-- The pinned output of nodes, by node name. -/
abbrev IPinData := InsertionMap String (List INodeExecutionData)

/-- An entry of the execution stack. -/
structure IExecuteData where
  node : INode
  data : ITaskDataConnections
  source : Option ITaskDataConnectionsSource
  runIndex : Option ℕ := none
  metadata : Option ITaskMetadata := none
  deriving DecidableEq, Repr

/-- The data that nodes wait with, by node name and run index, in the shape `WaitingSlots`
with items or with sources. -/
abbrev WaitingSlots (α : Type) :=
  InsertionMap String (InsertionMap ℕ (InsertionMap NodeConnectionType (List (Slot α))))

abbrev IWaitingForExecution := WaitingSlots (List INodeExecutionData)

abbrev IWaitingForExecutionSource := WaitingSlots ISourceData

end N8n
