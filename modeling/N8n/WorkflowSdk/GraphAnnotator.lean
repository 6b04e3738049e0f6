import N8n.WorkflowSdk.SemanticGraph

/-!
# Annotations of the semantic graph

`annotateGraph` looks for the edges that lead back to a node on the way from a root, records them,
and marks their targets. Then it marks the nodes that more than one branch of a node leads to.

The depth of the recursion is bounded here, and the search gives up below the bound. It never gets
there.
-/

namespace N8n

namespace WorkflowSdk

/-! ### Cycles -/

/-- The state of `detectCycles`. -/
structure CycleSearch where
  graph : SemanticGraph
  /-- Nodes in current DFS path -/
  visiting : InsertionSet String := .empty
  /-- Fully processed nodes -/
  visited : InsertionSet String := .empty

namespace CycleSearch

/-- Mark target as cycle target -/
def markCycleTarget (nodes : SemanticNodes) (target : String) : SemanticNodes :=
  match nodes.get? target with
  | none => nodes
  | some targetNode => nodes.set target { targetNode with annotations.isCycleTarget := true }

/-- Mark the target, and record the cycle edge. -/
def recordCycleEdge (search : CycleSearch) (nodeName target : String) : CycleSearch :=
  let edges := (search.graph.cycleEdges.get? nodeName).getD [] ++ [target]
  { search with
    graph := { search.graph with
      nodes := markCycleTarget search.graph.nodes target
      cycleEdges := search.graph.cycleEdges.set nodeName edges } }

def leave (search : CycleSearch) (nodeName : String) : CycleSearch :=
  { search with
    visiting := search.visiting.erase nodeName
    visited := search.visited.add nodeName }

/-- Follow a connection of a node. -/
def follow (dfs : String → InsertionSet String → CycleSearch → Option CycleSearch)
    (nodeName : String) (ancestors : InsertionSet String) (search : CycleSearch)
    (conn : SemanticConnection) : Option CycleSearch :=
  -- if target is an ancestor, we found a cycle
  if conn.target ∈ ancestors then some (search.recordCycleEdge nodeName conn.target)
  else if conn.target ∈ search.visited then some search
  else dfs conn.target (ancestors.add nodeName) search

def dfs : ℕ → String → InsertionSet String → CycleSearch → Option CycleSearch
  | 0, _, _, _ => none
  | depth + 1, nodeName, ancestors, search =>
    if nodeName ∈ search.visited then some search
    else if nodeName ∈ search.visiting then some search
    else
      let search := { search with visiting := search.visiting.add nodeName }
      match search.graph.nodes.get? nodeName with
      | none => some (search.leave nodeName)
      | some node =>
        (node.outputs.values.flatten.foldlM (follow (dfs depth) nodeName ancestors) search).map
          (·.leave nodeName)

end CycleSearch

namespace SemanticGraph

def detectCycles (graph : SemanticGraph) : Option SemanticGraph := do
  let depth := graph.nodes.size + 1
  let search ← graph.roots.foldlM
    (fun search rootName => CycleSearch.dfs depth rootName .empty search) { graph := graph }
  -- also check for disconnected components (orphan nodes not in roots)
  let search ← graph.nodes.keys.foldlM (fun search nodeName =>
    if nodeName ∈ search.visited then some search
    else CycleSearch.dfs depth nodeName .empty search) search
  return search.graph

/-! ### Convergence -/

/-- Collect all nodes reachable from a starting node. -/
def collectReachable (nodes : SemanticNodes) (visited : InsertionSet String) (startName : String) :
    InsertionSet String :=
  StackSearch.collect (SemanticNodes.mem_targets nodes) visited [startName]

/-- The nodes that at least two branches of a node lead to. -/
def convergenceNodes (nodes : SemanticNodes) (node : SemanticNode) : List String :=
  if node.outputs.size ≤ 1 then []
  else
    let branchOutputs := (node.outputs.values.filter (·.length > 0)).map fun connections =>
      connections.map SemanticConnection.target
    if branchOutputs.length < 2 then []
    else
      let branchReachable := branchOutputs.map (·.foldl (collectReachable nodes) .empty)
      let allReachable := branchReachable.foldl InsertionSet.union .empty
      allReachable.elements.filter fun nodeName =>
        2 ≤ branchReachable.countP fun reachable => nodeName ∈ reachable

def markConvergence (nodes : SemanticNodes) (nodeName : String) : SemanticNodes :=
  match nodes.get? nodeName with
  | none => nodes
  | some targetNode =>
    nodes.set nodeName { targetNode with annotations.isConvergencePoint := true }

/-- Mark the nodes where the branches of a node meet. -/
def markBranches (nodes : SemanticNodes) (nodeName : String) : SemanticNodes :=
  match nodes.get? nodeName with
  | none => nodes
  | some node => (convergenceNodes nodes node).foldl markConvergence nodes

def findConvergenceNodes (graph : SemanticGraph) : SemanticGraph :=
  { graph with nodes := graph.nodes.keys.foldl markBranches graph.nodes }

def annotateGraph (graph : SemanticGraph) : Option SemanticGraph :=
  graph.detectCycles.map findConvergenceNodes

end SemanticGraph

end WorkflowSdk

end N8n
