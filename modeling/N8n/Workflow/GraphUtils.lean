import N8n.Foundations.InsertionMap
import N8n.Foundations.StackSearch
import N8n.Workflow.Interfaces

/-!
# Selections that can be extracted into one node

`parseExtractableSubgraphSelection` decides whether a selection of nodes can be replaced by a
single node, and finds the node through which it is entered and the one through which it is left.
Only connections of the type `main` count.
-/

namespace N8n

namespace GraphUtils

/-- The connections that leave a node, by node. -/
abbrev IConnectionAdjacencyList := InsertionMap String (List IConnection)

inductive ExtractableErrorResult where
  | multipleInputNodes (nodes : InsertionSet String)
  | multipleOutputNodes (nodes : InsertionSet String)
  | inputEdgeToNonRootNode (node : String)
  | outputEdgeFromNonLeafNode (node : String)
  | noContinuousPathFromRootToLeaf (start end_ : String)
  deriving DecidableEq, Repr

/-- The `errorCode` of an error. -/
def ExtractableErrorResult.errorCode : ExtractableErrorResult → String
  | .multipleInputNodes _ => "Multiple Input Nodes"
  | .multipleOutputNodes _ => "Multiple Output Nodes"
  | .inputEdgeToNonRootNode _ => "Input Edge To Non-Root Node"
  | .outputEdgeFromNonLeafNode _ => "Output Edge From Non-Leaf Node"
  | .noContinuousPathFromRootToLeaf _ _ => "No Continuous Path From Root To Leaf In Selection"

structure ExtractableSubgraphData where
  start : Option String
  end_ : Option String
  deriving DecidableEq, Repr

variable (graphIds : InsertionSet String) (adjacencyList : IConnectionAdjacencyList)

/-- The edges from nodes that satisfy `isSource` to nodes that satisfy `isTarget`. -/
def edgesBetween (isSource isTarget : String → Bool) : List (String × IConnection) :=
  adjacencyList.entries.flatMap fun entry =>
    if isSource entry.1 then
      (entry.2.filter fun connection => isTarget connection.node).map (entry.1, ·)
    else []

/-- The edges that lead into the selection. -/
def getInputEdges : List (String × IConnection) :=
  edgesBetween adjacencyList (· ∉ graphIds) (· ∈ graphIds)

/-- The edges that lead out of the selection. -/
def getOutputEdges : List (String × IConnection) :=
  edgesBetween adjacencyList (· ∈ graphIds) (· ∉ graphIds)

def intersection (a b : InsertionSet String) : InsertionSet String := a.filter (· ∈ b)

def difference (minuend subtrahend : InsertionSet String) : InsertionSet String :=
  subtrahend.elements.foldl (fun result x => result.erase x) minuend

/-- `adjacencyList.get(nodeId) ?? []`. -/
def edgesFrom (nodeId : String) : List IConnection := (adjacencyList.get? nodeId).getD []

/-- The other nodes that a node leads to. -/
def otherTargets (nodeId : String) : InsertionSet String :=
  .ofList (((edgesFrom adjacencyList nodeId).filter fun x =>
    x.type = .main ∧ x.node ≠ nodeId).map IConnection.node)

/-- The selected nodes that no other selected node leads to. -/
def getRootNodes : InsertionSet String :=
  difference graphIds (graphIds.elements.foldl
    (fun innerNodes nodeId => innerNodes.union (otherTargets adjacencyList nodeId)) .empty)

/-- The selected nodes that lead to no other selected node. -/
def getLeafNodes : InsertionSet String :=
  graphIds.elements.foldl (fun result nodeId =>
    if (intersection (otherTargets adjacencyList nodeId) graphIds).elements = [] then
      result.add nodeId
    else result) .empty

/-- The nodes that a node leads to, in the order in which `hasPath` pushes them. -/
def targets (nodeId : String) : List String :=
  (InsertionSet.ofList (((edgesFrom adjacencyList nodeId).filter (·.type = .main)).map
    IConnection.node)).elements

theorem mem_targets {nodeId target : String} :
    target ∈ targets adjacencyList nodeId ↔
      ∃ x ∈ edgesFrom adjacencyList nodeId, x.type = .main ∧ x.node = target := by
  refine InsertionSet.mem_ofList.trans ?_
  simp [and_assoc]

theorem mem_of_mem_targets (nodeId target : String)
    (h : target ∈ targets adjacencyList nodeId) :
    target ∈ adjacencyList.values.flatten.map IConnection.node := by
  obtain ⟨x, hx, -, rfl⟩ := (mem_targets adjacencyList).mp h
  rw [edgesFrom] at hx
  cases htos : adjacencyList.get? nodeId with
  | none => exact absurd (htos ▸ hx) List.not_mem_nil
  | some tos =>
    rw [htos] at hx
    have hentry := InsertionMap.get?_eq_some_iff.mp htos
    have hvalue := InsertionMap.mem_values.mpr ⟨nodeId, hentry⟩
    exact List.mem_map_of_mem (List.mem_flatten_of_mem hvalue hx)

def hasPath (start end_ : String) : Bool :=
  StackSearch.finds (mem_of_mem_targets adjacencyList) end_ .empty [start]

/-- `new Set(edges.filter(isMain).map(end))`. -/
def mainEnds (edges : List (String × IConnection)) (f : String × IConnection → String) :
    InsertionSet String :=
  .ofList ((edges.filter (·.2.type = .main)).map f)

/-- The nodes that the selection is entered at. -/
def inputNodes : InsertionSet String :=
  mainEnds (getInputEdges graphIds adjacencyList) (·.2.node)

/-- The nodes that the selection is left from. -/
def outputNodes : InsertionSet String :=
  mainEnds (getOutputEdges graphIds adjacencyList) (·.1)

/-- Where there is no root (or leaf) and only one node at the boundary, that node counts as one. -/
def orBoundary (candidates boundary : InsertionSet String) : InsertionSet String :=
  if candidates.elements.length = 0 ∧ boundary.elements.length = 1 then boundary else candidates

def rootNodes : InsertionSet String :=
  orBoundary (getRootNodes graphIds adjacencyList) (inputNodes graphIds adjacencyList)

def rootInputNodes : InsertionSet String :=
  intersection (rootNodes graphIds adjacencyList) (inputNodes graphIds adjacencyList)

def leafNodes : InsertionSet String :=
  orBoundary (getLeafNodes graphIds adjacencyList) (outputNodes graphIds adjacencyList)

def leafOutputNodes : InsertionSet String :=
  intersection (leafNodes graphIds adjacencyList) (outputNodes graphIds adjacencyList)

/-- `values().next().value`. -/
def first (s : InsertionSet String) : Option String := s.elements.head?

/-- `start` and `end`. -/
def subgraphData : ExtractableSubgraphData where
  start := first (rootInputNodes graphIds adjacencyList)
  end_ := first (leafOutputNodes graphIds adjacencyList)

/-- The check of the path, where both ends are there and are not the empty string. -/
def pathErrors (data : ExtractableSubgraphData) : List ExtractableErrorResult :=
  match data.start, data.end_ with
  | some start, some end_ =>
    if start ≠ "" ∧ end_ ≠ "" ∧ !hasPath adjacencyList start end_ then
      [.noContinuousPathFromRootToLeaf start end_]
    else []
  | _, _ => []

/-- The errors of a selection, in the order in which they are pushed. -/
def subgraphErrors : List ExtractableErrorResult :=
  let rootInputNodes := rootInputNodes graphIds adjacencyList
  let leafOutputNodes := leafOutputNodes graphIds adjacencyList
  (difference (inputNodes graphIds adjacencyList) (rootNodes graphIds adjacencyList)).elements.map
      .inputEdgeToNonRootNode ++
    (if rootInputNodes.elements.length > 1 then [.multipleInputNodes rootInputNodes] else []) ++
    (difference (outputNodes graphIds adjacencyList)
      (leafNodes graphIds adjacencyList)).elements.map .outputEdgeFromNonLeafNode ++
    (if leafOutputNodes.elements.length > 1 then [.multipleOutputNodes leafOutputNodes] else []) ++
    pathErrors adjacencyList (subgraphData graphIds adjacencyList)

def parseExtractableSubgraphSelection :
    Except (List ExtractableErrorResult) ExtractableSubgraphData :=
  let errors := subgraphErrors graphIds adjacencyList
  if errors.length > 0 then .error errors else .ok (subgraphData graphIds adjacencyList)

end GraphUtils

end N8n
