import N8n.Workflow.Interfaces

/-!
# The workflow class

A `Workflow` holds its nodes under their names and its connections by source node, in
nested arrays with holes; the connections by destination node are computed from them by
`mapConnectionsByDestination`. The loops of the source visit the connections of a workflow
one by one, in the order of `connectionEntries`, and are folds over that list here.
-/

namespace N8n

/-! ### Connection entries -/

/-- One connection of a workflow, with both its ends. -/
structure ConnectionEntry where
  sourceNode : String
  outputType : NodeConnectionType
  outputIndex : ℕ
  destinationNode : String
  inputType : NodeConnectionType
  inputIndex : ℕ
  deriving DecidableEq, Repr

/-- The connections of one output. -/
def outputEntries (sourceNode : String) (outputType : NodeConnectionType)
    (output : Option (List IConnection) × ℕ) : List ConnectionEntry :=
  (output.1.getD []).map fun connection =>
    ⟨sourceNode, outputType, output.2, connection.node, connection.type, connection.index⟩

/-- The connections of one node and output type. -/
def typeEntries (sourceNode : String) (outputs : NodeConnectionType × NodeInputConnections) :
    List ConnectionEntry :=
  outputs.2.zipIdx.flatMap (outputEntries sourceNode outputs.1)

/-- The connections that start in one node. -/
def nodeEntries (node : String × INodeConnections) : List ConnectionEntry :=
  node.2.entries.flatMap (typeEntries node.1)

/-- The connections of a workflow, in the order in which nested loops over the nodes, the
output types and the outputs visit them. -/
def connectionEntries (connections : IConnections) : List ConnectionEntry :=
  connections.ownEntries.flatMap nodeEntries

/-- The order in which the nodes are enumerated does not matter for which connections
there are. -/
theorem connectionEntries_perm (connections : IConnections) :
    (connectionEntries connections).Perm (connections.entries.flatMap nodeEntries) :=
  connections.ownEntries_perm.flatMap_right _

/-! ### Connections by destination -/

/-- One iteration of `mapConnectionsByDestination`: grow the inputs of the destination
node up to the index of the connection, with empty inputs, and record its source there. -/
def addByDestination (returnConnection : IConnections) (e : ConnectionEntry) : IConnections :=
  let byType := (returnConnection.get? e.destinationNode).getD .empty
  let inputs := (byType.get? e.inputType).getD []
  let inputs := inputs ++ List.replicate (e.inputIndex + 1 - inputs.length) (some [])
  let inputs := inputs.modify e.inputIndex
    (Option.map (· ++ [⟨e.sourceNode, e.outputType, e.outputIndex⟩]))
  returnConnection.set e.destinationNode (byType.set e.inputType inputs)

/-- The connections by destination, for nodes with ordinary names. -/
def groupByDestination (connections : IConnections) : IConnections :=
  (connectionEntries connections).foldl addByDestination .empty

/-- The iteration on an object: an entry of the name `hasOwnProperty` hides the method that is
called, and to set `__proto__` sets the prototype and no entry. -/
def addOwnByDestination (returnConnection : IConnections) (e : ConnectionEntry) :
    Option IConnections :=
  if returnConnection.has "hasOwnProperty" then none
  else if e.destinationNode = "__proto__" then some returnConnection
  else some (addByDestination returnConnection e)

/-- `mapConnectionsByDestination`, which has no result where it throws a `TypeError`. -/
def mapConnectionsByDestination (connections : IConnections) : Option IConnections :=
  if connections.has "hasOwnProperty" then none
  else (connectionEntries connections).foldlM addOwnByDestination .empty

/-- No name among the connections gets in the way of the objects that they are stored in. -/
structure OrdinaryNames (connections : IConnections) : Prop where
  keys : "hasOwnProperty" ∉ connections.keys
  destinations : ∀ e ∈ connectionEntries connections,
    e.destinationNode ≠ "hasOwnProperty" ∧ e.destinationNode ≠ "__proto__"

/-- With ordinary names the objects are maps. -/
theorem mapConnectionsByDestination_eq {connections : IConnections}
    (h : OrdinaryNames connections) :
    mapConnectionsByDestination connections = some (groupByDestination connections) := by
  have hfold : ∀ (entries : List ConnectionEntry) (byDestination : IConnections),
      "hasOwnProperty" ∉ byDestination.keys → (∀ e ∈ entries, e.destinationNode ≠ "hasOwnProperty" ∧
        e.destinationNode ≠ "__proto__") → entries.foldlM addOwnByDestination byDestination =
          some (entries.foldl addByDestination byDestination) := by
    intro entries
    induction entries with
    | nil => exact fun _ _ _ => rfl
    | cons e entries ih =>
      intro byDestination hkeys hentries
      obtain ⟨hfirst, hrest⟩ := List.forall_mem_cons.mp hentries
      have hadd : addOwnByDestination byDestination e =
          some (addByDestination byDestination e) := by
        rw [addOwnByDestination, if_neg (mt InsertionMap.has_eq_true_iff.mp hkeys),
          if_neg hfirst.2]
      rw [List.foldlM_cons, hadd, List.foldl_cons]
      refine ih _ (fun hmem => ?_) hrest
      exact (InsertionMap.mem_keys_set.mp hmem).elim (fun heq => hfirst.1 heq.symm) hkeys
  rw [mapConnectionsByDestination, if_neg (mt InsertionMap.has_eq_true_iff.mp h.keys)]
  exact hfold _ .empty List.not_mem_nil h.destinations

/-! ### Workflows -/

/-- The inputs that must have data for a node to run: a number of them, or their
indexes. -/
inductive RequiredInputs where
  | count (n : ℕ)
  | indexes (inputs : List ℕ)
  deriving DecidableEq, Repr

/-- How a node type states its required inputs: outright, or as an expression over the
parameters of the node. -/
inductive RequiredInputsSetting where
  | value (requiredInputs : RequiredInputs)
  | expression (value : String)
  deriving DecidableEq, Repr

/-- What the engine reads of the description of a node type: the `length` of `inputs` and
the inputs that must have data for the node to run. -/
structure INodeTypeDescription where
  inputsLength : ℕ := 1
  requiredInputs : Option RequiredInputsSetting := none
  deriving DecidableEq, Repr

/-- What a workflow is made from. `nodeTypes` looks up the description of a node's type,
`evaluate` the value of an expression in the parameters of a node. -/
structure WorkflowParameters where
  nodes : List INode
  connections : IConnections
  executionOrder : Option String := none
  nodeTypes : INode → INodeTypeDescription := fun _ => {}
  evaluate : INode → String → Option RequiredInputs := fun _ _ => none

structure Workflow where
  nodes : InsertionMap String INode
  nodes_name : ∀ k n, (k, n) ∈ nodes.entries → n.name = k
  nodes_own : "__proto__" ∉ nodes.keys
  connectionsBySourceNode : IConnections
  executionOrder : Option String
  nodeTypes : INode → INodeTypeDescription
  evaluate : INode → String → Option RequiredInputs

namespace Workflow

/-- `setNodes`: the nodes under their names; a later node replaces an earlier one. To set
`__proto__` of an object sets its prototype, and the node is lost. -/
def setNodes (nodes : List INode) : InsertionMap String INode :=
  (nodes.filter fun node => node.name ≠ "__proto__").foldl
    (fun nodes node => nodes.set node.name node) .empty

theorem setNodes_name_aux (nodes : List INode) (m : InsertionMap String INode)
    (hm : ∀ k n, (k, n) ∈ m.entries → n.name = k) (k : String) (n : INode)
    (h : (k, n) ∈ (nodes.foldl (fun nodes node => nodes.set node.name node) m).entries) :
    n.name = k := by
  induction nodes generalizing m with
  | nil => exact hm k n h
  | cons node nodes ih =>
    refine ih _ (fun k n hmem => ?_) h
    rcases InsertionMap.mem_set.mp hmem with ⟨rfl, rfl⟩ | ⟨-, hmem⟩
    · rfl
    · exact hm k n hmem

theorem setNodes_own_aux (nodes : List INode) (hnodes : ∀ node ∈ nodes, node.name ≠ "__proto__")
    (m : InsertionMap String INode) (hm : "__proto__" ∉ m.keys) :
    "__proto__" ∉ (nodes.foldl (fun nodes node => nodes.set node.name node) m).keys := by
  induction nodes generalizing m with
  | nil => exact hm
  | cons node nodes ih =>
    obtain ⟨hnode, hnodes⟩ := List.forall_mem_cons.mp hnodes
    refine ih hnodes _ fun hmem => ?_
    exact (InsertionMap.mem_keys_set.mp hmem).elim (fun heq => hnode heq.symm) hm

/-- The constructor. -/
def new (parameters : WorkflowParameters) : Workflow where
  nodes := setNodes parameters.nodes
  nodes_name := setNodes_name_aux _ _ (by simp)
  nodes_own := setNodes_own_aux _ (fun _ h => of_decide_eq_true (List.mem_filter.mp h).2) _
    List.not_mem_nil
  connectionsBySourceNode := parameters.connections
  executionOrder := parameters.executionOrder
  nodeTypes := parameters.nodeTypes
  evaluate := parameters.evaluate

def getNode (w : Workflow) (nodeName : String) : Option INode := w.nodes.get? nodeName

/-- As `setConnections` computes it when the names are ordinary. -/
def connectionsByDestinationNode (w : Workflow) : IConnections :=
  groupByDestination w.connectionsBySourceNode

/-- No node, and no end of a connection, has the name of a member of every object, which `in` and a
lookup find. -/
structure PlainNames (w : Workflow) : Prop where
  nodes : ∀ name ∈ w.nodes.keys, name ∉ InsertionMap.inheritedKeys
  sources : ∀ name ∈ w.connectionsBySourceNode.keys, name ∉ InsertionMap.inheritedKeys
  destinations : ∀ e ∈ connectionEntries w.connectionsBySourceNode,
    e.destinationNode ∉ InsertionMap.inheritedKeys

theorem name_of_getNode {w : Workflow} {k : String} {n : INode} (h : w.getNode k = some n) :
    n.name = k :=
  w.nodes_name k n (InsertionMap.get?_eq_some_iff.mp h)

end Workflow

end N8n
