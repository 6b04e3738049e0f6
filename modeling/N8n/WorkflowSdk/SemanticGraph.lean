import N8n.Foundations.InsertionSet
import N8n.Foundations.StackSearch
import N8n.WorkflowSdk.WorkflowJson

/-!
# The semantic graph

The graph that the code generator works on. Its nodes have their connections under the names of
outputs and inputs, and the sub-nodes that are attached to them.
-/

namespace N8n

namespace WorkflowSdk

/-! ### Data -/

inductive AiConnectionType where
  | languageModel
  | memory
  | tool
  | outputParser
  | embedding
  | vectorStore
  | retriever
  | document
  | textSplitter
  | reranker
  deriving DecidableEq, Inhabited, Repr

structure SubnodeConnection where
  connectionType : AiConnectionType
  subnodeName : String
  index : ℕ
  deriving DecidableEq, Repr

structure SemanticConnection where
  target : String
  targetInputSlot : String
  deriving DecidableEq, Repr

structure SourceInfo where
  fromNode : String
  outputSlot : String
  deriving DecidableEq, Repr

structure NodeAnnotations where
  isTrigger : Bool
  isCycleTarget : Bool := false
  isConvergencePoint : Bool := false
  deriving DecidableEq, Repr

structure SemanticNode where
  name : String
  type : String
  json : NodeJson
  outputs : InsertionMap String (List SemanticConnection) := .empty
  inputSources : InsertionMap String (List SourceInfo) := .empty
  subnodes : List SubnodeConnection := []
  annotations : NodeAnnotations
  deriving DecidableEq

abbrev SemanticNodes := InsertionMap String SemanticNode

structure SemanticGraph where
  nodes : SemanticNodes
  roots : List String := []
  cycleEdges : InsertionMap String (List String) := .empty
  deriving DecidableEq

/-! ### What leads where -/

namespace SemanticNodes

variable (nodes : SemanticNodes)

/-- The targets of the outputs of a node, which may not exist. -/
def outputTargets (name : String) : List String :=
  match nodes.get? name with
  | none => []
  | some node => node.outputs.values.flatten.map SemanticConnection.target

/-- The targets of all outputs. -/
def targets : List String := nodes.keys.flatMap (outputTargets nodes)

theorem mem_targets (name : String) : ∀ target ∈ outputTargets nodes name,
    target ∈ targets nodes := by
  intro target h
  refine List.mem_flatMap.mpr ⟨name, ?_, h⟩
  by_contra hmem
  rw [outputTargets, InsertionMap.get?_eq_none_iff.mpr hmem] at h
  exact List.not_mem_nil h

/-- There is a connection from an output of the first node to the second. -/
def Leads (nodes : SemanticNodes) : String → String → Prop :=
  StackSearch.Step (outputTargets nodes)

end SemanticNodes

end WorkflowSdk

end N8n
