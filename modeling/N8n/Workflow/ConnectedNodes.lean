import N8n.Workflow.Workflow

/-!
# Connected nodes

The recursive searches over the connections of a workflow: all the nodes before a node
(`getParentNodes`) and the first enabled ones (`getHighestNode`). Both remember the nodes
they have checked, the former along the branch and the latter in one array for the whole
search, so that no branch is longer than the number of nodes; this bounds the depth of the
recursion here.
-/

namespace N8n

/-- The connection types a search follows. -/
inductive ConnectionTypes where
  | only (type : NodeConnectionType)
  | all
  | allNonMain
  deriving DecidableEq, Repr

/-- The types to look at among the connections of a node. -/
def ConnectionTypes.select (connectionType : ConnectionTypes) (connections : INodeConnections) :
    List NodeConnectionType :=
  match connectionType with
  | .only type => [type]
  | .all => connections.keys
  | .allNonMain => connections.keys.filter fun type => type ≠ .main

/-- Add the nodes found behind a connection, last one first; one that was found before moves
to the front. -/
def addNodesToFront (addNodes returnNodes : List String) : List String :=
  addNodes.foldr (fun nodeName returnNodes => nodeName :: returnNodes.erase nodeName) returnNodes

/-- One connection of the search, with the search behind it as a parameter. -/
def addConnectedNode (search : String → List String) (checkedNodes returnNodes : List String)
    (connection : IConnection) : List String :=
  if checkedNodes.contains connection.node then returnNodes
  else addNodesToFront (search connection.node) (connection.node :: returnNodes)

/-- `getConnectedNodes`, with a bound on the depth. -/
def connectedNodes (connections : IConnections) (connectionType : ConnectionTypes) :
    ℕ → String → ℤ → List String → List String
  | 0, _, _, _ => []
  | fuel + 1, nodeName, depth, checkedNodesIncoming =>
    let newDepth := if depth = -1 then depth else depth - 1
    if depth = 0 then []
    else
      match connections.get? nodeName with
      | none => []
      | some nodeConnections =>
        (connectionType.select nodeConnections).foldl (fun returnNodes type =>
          match nodeConnections.get? type with
          | none => returnNodes
          | some connectionsOfType =>
            if checkedNodesIncoming.contains nodeName then returnNodes
            else
              let checkedNodes := checkedNodesIncoming ++ [nodeName]
              (connectionsOfType.flatMap (·.getD [])).foldl
                (addConnectedNode
                  (fun name => connectedNodes connections connectionType fuel name newDepth
                    checkedNodes) checkedNodes) returnNodes) []

/-- All the nodes connected to a node, directly or not. -/
def getConnectedNodes (connections : IConnections) (nodeName : String)
    (connectionType : ConnectionTypes := .only .main) (depth : ℤ := -1) : List String :=
  connectedNodes connections connectionType (connections.keys.length + 1) nodeName depth []

namespace Workflow

/-- The nodes before a node. -/
def getParentNodes (w : Workflow) (nodeName : String)
    (type : ConnectionTypes := .only .main) (depth : ℤ := -1) : List String :=
  getConnectedNodes w.connectionsByDestinationNode nodeName type depth

/-- The nodes after a node. -/
def getChildNodes (w : Workflow) (nodeName : String)
    (type : ConnectionTypes := .only .main) (depth : ℤ := -1) : List String :=
  getConnectedNodes w.connectionsBySourceNode nodeName type depth

/-- Add the names that are not there yet. -/
def addNewNodes (returnNodes addNodes : List String) : List String :=
  addNodes.foldl (fun returnNodes name =>
    if returnNodes.contains name then returnNodes else returnNodes ++ [name]) returnNodes

/-- One connection of `getHighestNode`, with the search behind it as a parameter. The pair are
the nodes found and those checked. -/
def addHighestNode (w : Workflow)
    (search : String → List String → List String × List String)
    (found : List String × List String) (connection : IConnection) :
    List String × List String :=
  if found.2.contains connection.node then found
  else
    match w.getNode connection.node with
    | none => found
    | some node =>
      let (addNodes, checkedNodes) := search connection.node found.2
      -- a node without further parents is the highest itself, if it is not disabled
      let addNodes :=
        if addNodes.length = 0 ∧ node.disabled ≠ some true then [connection.node] else addNodes
      (addNewNodes found.1 addNodes, checkedNodes)

/-- `getHighestNode`, with a bound on the depth; returns the nodes found and those checked. -/
def highestNode (w : Workflow) :
    ℕ → String → Option ℕ → List String → List String × List String
  | 0, _, _, checkedNodes => ([], checkedNodes)
  | fuel + 1, nodeName, nodeConnectionIndex, checkedNodes =>
    match w.getNode nodeName with
    | none => ([], checkedNodes)
    | some node =>
      let currentHighest := if node.disabled = some false then [nodeName] else []
      match (w.connectionsByDestinationNode.get? nodeName).bind (·.get? .main) with
      | none => (currentHighest, checkedNodes)
      | some inputs =>
        if checkedNodes.contains nodeName then (currentHighest, checkedNodes)
        else
          let connections := inputs.zipIdx.flatMap fun input =>
            if nodeConnectionIndex.isNone ∨ nodeConnectionIndex = some input.2 then
              input.1.getD []
            else []
          connections.foldl
            (w.addHighestNode fun name checkedNodes => highestNode w fuel name none checkedNodes)
            ([], checkedNodes ++ [nodeName])

/-- The first enabled nodes before an input of a node. -/
def getHighestNode (w : Workflow) (nodeName : String) (nodeConnectionIndex : Option ℕ := none) :
    List String :=
  (w.highestNode (w.connectionsByDestinationNode.keys.length + 1) nodeName nodeConnectionIndex
    []).1

end Workflow

end N8n
