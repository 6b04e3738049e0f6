import Mathlib.Logic.Relation
import N8n.Foundations.Decimal
import N8n.Foundations.ExceptFold
import N8n.Workflow.Interfaces

/-!
# Directed graphs of a workflow

`DirectedGraph` keeps the nodes of a workflow under their names and its connections under
a string key, `makeKey`, that concatenates the names of both ends, the type and the two
indexes. Both maps only ever hold a value under its own key, which the structure records
(`nodes_name`, `connections_key`); that the ends of a connection are nodes of the graph is
a property that `addConnection` asserts and that not every method keeps (`Closed`).

Object identity of nodes (`===`) is equality of nodes here: a graph holds at most one node
of each name.
-/

namespace N8n

/-- A failed `assert.ok`, a `TypeError` of the runtime, or, in a recursive function, a depth
of nested calls beyond the bound of the model. -/
inductive GraphError where
  | assertion
  | typeError
  | outOfFuel
  deriving DecidableEq, Repr

structure GraphConnection where
  fromNode : INode
  toNode : INode
  type : NodeConnectionType := .main
  outputIndex : ℕ := 0
  inputIndex : ℤ := 0
  deriving DecidableEq, Repr

/-- `fromName-outputType-outputIndex-inputIndex-toName`, the key of a connection. -/
def makeKey (connection : GraphConnection) : String :=
  s!"{connection.fromNode.name}-{connection.type}-{connection.outputIndex}-{
    connection.inputIndex}-{connection.toNode.name}"

/-! ### Keys of dashless names -/

private theorem dash_notMem_toString (t : NodeConnectionType) :
    '-' ∉ (NodeConnectionType.toString t).toList := by
  cases t <;> decide

private theorem dash_notMem_toDigits (n : ℕ) : '-' ∉ Nat.toDigits 10 n := fun h =>
  absurd (Nat.isDigit_of_mem_toDigits (by decide) (by decide) h) (by decide)

/-- A list is split at its first separator in one way. -/
private theorem append_cons_inj {α : Type*} {x : α} {a a' b b' : List α} (ha : x ∉ a)
    (ha' : x ∉ a') (h : a ++ x :: b = a' ++ x :: b') : a = a' ∧ b = b' := by
  induction a generalizing a' with
  | nil =>
    rcases a' with _ | ⟨y, a'⟩
    · exact ⟨rfl, (List.cons.inj h).2⟩
    · exact absurd ((List.cons.inj h).1 ▸ List.mem_cons_self) ha'
  | cons z a ih =>
    rcases a' with _ | ⟨y, a'⟩
    · exact absurd ((List.cons.inj h).1 ▸ List.mem_cons_self) ha
    · obtain ⟨rfl, htail⟩ := List.cons.inj h
      obtain ⟨rfl, hb⟩ := ih (List.not_mem_of_not_mem_cons ha)
        (List.not_mem_of_not_mem_cons ha') htail
      exact ⟨rfl, hb⟩

/-- A number ends where the dash behind it stands. -/
private theorem int_append_cons_inj {i i' : ℤ} {b b' : List Char}
    (h : i.repr.toList ++ '-' :: b = i'.repr.toList ++ '-' :: b') : i = i' ∧ b = b' := by
  have hmixed : ∀ (n : ℕ) (l l' : List Char), Nat.toDigits 10 n ++ l ≠ '-' :: l' := by
    intro n l l' heq
    cases hdigits : Nat.toDigits 10 n with
    | nil => exact Nat.toDigits_ne_nil hdigits
    | cons d digits =>
      rw [hdigits] at heq
      exact dash_notMem_toDigits n (hdigits ▸ (List.cons.inj heq).1 ▸ List.mem_cons_self)
  rcases i with n | n <;> rcases i' with n' | n'
  · obtain ⟨hn, hb⟩ := append_cons_inj (dash_notMem_toDigits n) (dash_notMem_toDigits n')
      (by simpa [Int.repr] using h)
    exact ⟨congrArg Int.ofNat (Decimal.toDigits_injective hn), hb⟩
  · exact absurd (by simpa [Int.repr] using h) (hmixed n _ _)
  · exact absurd (by simpa [Int.repr] using h.symm) (hmixed n' _ _)
  · obtain ⟨hn, hb⟩ := append_cons_inj (dash_notMem_toDigits _) (dash_notMem_toDigits _)
      (by simpa [Int.repr] using h)
    exact ⟨congrArg Int.negSucc (Nat.succ_injective (Decimal.toDigits_injective hn)), hb⟩

theorem toList_makeKey (c : GraphConnection) :
    (makeKey c).toList = c.fromNode.name.toList ++ '-' :: (c.type.toString.toList ++
      '-' :: (Nat.toDigits 10 c.outputIndex ++ '-' :: (c.inputIndex.repr.toList ++
        '-' :: c.toNode.name.toList))) := by
  simp [makeKey, toString]

/-- The key of a connection tells its parts when the name of its source has no dash. -/
theorem makeKey_inj_of_dashless {c c' : GraphConnection} (hc : '-' ∉ c.fromNode.name.toList)
    (hc' : '-' ∉ c'.fromNode.name.toList) (h : makeKey c = makeKey c') :
    c.fromNode.name = c'.fromNode.name ∧ c.type = c'.type ∧ c.outputIndex = c'.outputIndex ∧
      c.inputIndex = c'.inputIndex ∧ c.toNode.name = c'.toNode.name := by
  have hlist := congrArg String.toList h
  rw [toList_makeKey, toList_makeKey] at hlist
  obtain ⟨hfrom, hlist⟩ := append_cons_inj hc hc' hlist
  obtain ⟨htype, hlist⟩ := append_cons_inj (dash_notMem_toString _) (dash_notMem_toString _) hlist
  obtain ⟨hout, hlist⟩ := append_cons_inj (dash_notMem_toDigits _) (dash_notMem_toDigits _) hlist
  obtain ⟨hin, hto⟩ := int_append_cons_inj hlist
  exact ⟨String.toList_inj.mp hfrom,
    NodeConnectionType.toString_injective (String.toList_inj.mp htype),
    Decimal.toDigits_injective hout, hin, String.toList_inj.mp hto⟩

/-! ### Graphs -/

structure DirectedGraph where
  nodes : InsertionMap String INode
  connections : InsertionMap String GraphConnection
  nodes_name : ∀ k n, (k, n) ∈ nodes.entries → n.name = k
  connections_key : ∀ k c, (k, c) ∈ connections.entries → makeKey c = k

namespace DirectedGraph

/-- `new DirectedGraph()`. -/
def empty : DirectedGraph where
  nodes := .empty
  connections := .empty
  nodes_name := by simp
  connections_key := by simp

variable {g : DirectedGraph} {node : INode} {connection : GraphConnection}

/-- The nodes of the graph. -/
def getNodes (g : DirectedGraph) : List INode := g.nodes.values

/-- `getConnections()`, without a filter: all connections. -/
def getConnections (g : DirectedGraph) : List GraphConnection := g.connections.values

@[simp] theorem getConnections_empty : empty.getConnections = [] := rfl

/-- No node has the name of a member of every object, which the lookups of the planner would find
where there is no data of the node. -/
structure PlainNames (g : DirectedGraph) : Prop where
  node : ∀ node ∈ g.getNodes, node.name ∉ InsertionMap.inheritedKeys
  source : ∀ c ∈ g.getConnections, c.fromNode.name ∉ InsertionMap.inheritedKeys

/-- `getConnections({ to })`. -/
def getConnectionsTo (g : DirectedGraph) (node : INode) : List GraphConnection :=
  g.getConnections.filter fun connection => connection.toNode = node

def hasNode (g : DirectedGraph) (nodeName : String) : Bool := g.nodes.has nodeName

/-- `this.nodes.get(node.name) === node`. -/
def nodeExists (g : DirectedGraph) (node : INode) : Bool :=
  g.nodes.get? node.name = some node

theorem mem_getNodes_iff : node ∈ g.getNodes ↔ g.nodes.get? node.name = some node := by
  rw [InsertionMap.get?_eq_some_iff, getNodes, InsertionMap.mem_values]
  constructor
  · rintro ⟨k, hk⟩
    rwa [g.nodes_name k node hk]
  · exact fun h => ⟨_, h⟩

theorem nodeExists_iff : g.nodeExists node = true ↔ node ∈ g.getNodes := by
  rw [nodeExists, decide_eq_true_eq, mem_getNodes_iff]

theorem mem_getConnections_iff :
    connection ∈ g.getConnections ↔ (makeKey connection, connection) ∈ g.connections.entries := by
  rw [getConnections, InsertionMap.mem_values]
  constructor
  · rintro ⟨k, hk⟩
    rwa [g.connections_key k connection hk]
  · exact fun h => ⟨_, h⟩

/-- Two connections of one graph with the same key are the same. -/
theorem eq_of_makeKey_eq {c c' : GraphConnection} (hc : c ∈ g.getConnections)
    (hc' : c' ∈ g.getConnections) (h : makeKey c = makeKey c') : c = c' := by
  rw [mem_getConnections_iff] at hc hc'
  exact InsertionMap.eq_of_mem (h ▸ hc) hc'

theorem eq_of_name_eq {n n' : INode} (hn : n ∈ g.getNodes) (hn' : n' ∈ g.getNodes)
    (h : n.name = n'.name) : n = n' := by
  rw [mem_getNodes_iff] at hn hn'
  rw [h, hn'] at hn
  exact (Option.some.inj hn).symm

theorem hasNode_iff {nodeName : String} :
    g.hasNode nodeName = true ↔ ∃ node ∈ g.getNodes, node.name = nodeName := by
  rw [hasNode, InsertionMap.has_eq_true_iff, InsertionMap.mem_keys]
  constructor
  · rintro ⟨node, hentry⟩
    obtain rfl := g.nodes_name nodeName node hentry
    exact ⟨node, InsertionMap.mem_values.mpr ⟨_, hentry⟩, rfl⟩
  · rintro ⟨node, hnode, rfl⟩
    exact ⟨node, InsertionMap.get?_eq_some_iff.mp (mem_getNodes_iff.mp hnode)⟩

theorem getNodes_nodup (g : DirectedGraph) : g.getNodes.Nodup := by
  refine List.Nodup.map_on ?_ g.nodes.entries_nodup
  rintro ⟨k, n⟩ hn ⟨k', n'⟩ hn' (rfl : n = n')
  rw [← g.nodes_name k n hn, ← g.nodes_name k' n hn']

theorem getConnections_nodup (g : DirectedGraph) : g.getConnections.Nodup := by
  refine List.Nodup.map_on ?_ g.connections.entries_nodup
  rintro ⟨k, c⟩ hc ⟨k', c'⟩ hc' (rfl : c = c')
  rw [← g.connections_key k c hc, ← g.connections_key k' c hc']

/-! ### Adding nodes and connections -/

def addNode (g : DirectedGraph) (node : INode) : DirectedGraph where
  nodes := g.nodes.set node.name node
  connections := g.connections
  nodes_name := by
    intro k n h
    rcases InsertionMap.mem_set.mp h with ⟨rfl, rfl⟩ | ⟨-, h⟩
    · rfl
    · exact g.nodes_name k n h
  connections_key := g.connections_key

def addNodes (g : DirectedGraph) (nodes : List INode) : DirectedGraph :=
  nodes.foldl addNode g

/-- `this.connections.set(this.makeKey(connection), connection)`. -/
def setConnection (g : DirectedGraph) (connection : GraphConnection) : DirectedGraph where
  nodes := g.nodes
  connections := g.connections.set (makeKey connection) connection
  nodes_name := g.nodes_name
  connections_key := by
    intro k c h
    rcases InsertionMap.mem_set.mp h with ⟨rfl, rfl⟩ | ⟨-, h⟩
    · rfl
    · exact g.connections_key k c h

def addConnection (g : DirectedGraph) (connection : GraphConnection) :
    Except GraphError DirectedGraph :=
  if g.nodeExists connection.fromNode ∧ g.nodeExists connection.toNode then
    .ok (g.setConnection connection)
  else .error .assertion

def addConnections (g : DirectedGraph) (connections : List GraphConnection) :
    Except GraphError DirectedGraph :=
  connections.foldlM addConnection g

@[simp] theorem getConnections_addNode : (g.addNode node).getConnections = g.getConnections :=
  rfl

@[simp] theorem getNodes_setConnection :
    (g.setConnection connection).getNodes = g.getNodes := rfl

/-- Adding a node replaces the one of the same name. -/
theorem mem_getNodes_addNode {n : INode} :
    n ∈ (g.addNode node).getNodes ↔ n = node ∨ (n.name ≠ node.name ∧ n ∈ g.getNodes) := by
  rw [mem_getNodes_iff, mem_getNodes_iff]
  by_cases h : n.name = node.name
  · rw [h]
    simp [addNode, eq_comm]
  · rw [addNode, InsertionMap.get?_set_of_ne _ h]
    simp only [ne_eq, h, not_false_eq_true, true_and]
    exact ⟨Or.inr, fun hn => hn.elim (fun heq => absurd (congrArg INode.name heq) h) id⟩

/-- A new connection replaces the one with the same key. -/
theorem mem_getConnections_setConnection {c : GraphConnection} :
    c ∈ (g.setConnection connection).getConnections ↔
      c = connection ∨ (makeKey c ≠ makeKey connection ∧ c ∈ g.getConnections) := by
  rw [mem_getConnections_iff, mem_getConnections_iff, setConnection, InsertionMap.mem_set]
  by_cases h : c = connection
  · simp [h]
  · simp [h]

theorem getConnections_setConnection_of_new
    (h : ∀ c ∈ g.getConnections, makeKey c ≠ makeKey connection) :
    (g.setConnection connection).getConnections = g.getConnections ++ [connection] := by
  have hnew : makeKey connection ∉ g.connections.keys := by
    intro hk
    obtain ⟨c, hc⟩ := InsertionMap.mem_keys.mp hk
    exact h c (InsertionMap.mem_values.mpr ⟨_, hc⟩) (g.connections_key _ _ hc)
  simp [getConnections, setConnection, InsertionMap.values,
    InsertionMap.entries_set_of_not_mem hnew]

theorem addConnection_of_mem (hf : connection.fromNode ∈ g.getNodes)
    (ht : connection.toNode ∈ g.getNodes) :
    g.addConnection connection = .ok (g.setConnection connection) :=
  if_pos ⟨nodeExists_iff.mpr hf, nodeExists_iff.mpr ht⟩

/-- Every end of a connection is a node of the graph. -/
def Closed (g : DirectedGraph) : Prop :=
  ∀ c ∈ g.getConnections, c.fromNode ∈ g.getNodes ∧ c.toNode ∈ g.getNodes

instance (g : DirectedGraph) : Decidable g.Closed :=
  inferInstanceAs (Decidable (∀ c ∈ g.getConnections, _))

/-! ### Neighbours -/

/-- The connections that start in a node. -/
def childConnections (g : DirectedGraph) (node : INode) : List GraphConnection :=
  g.getConnections.filter fun connection => connection.fromNode = node

/-- The connections that end in a node. -/
def parentConnections (g : DirectedGraph) (node : INode) : List GraphConnection :=
  g.getConnections.filter fun connection => connection.toNode = node

def getDirectChildConnections (g : DirectedGraph) (node : INode) :
    Except GraphError (List GraphConnection) :=
  if g.nodeExists node then .ok (g.childConnections node) else .error .assertion

def getDirectParentConnections (g : DirectedGraph) (node : INode) :
    Except GraphError (List GraphConnection) :=
  if g.nodeExists node then .ok (g.parentConnections node) else .error .assertion

theorem mem_childConnections :
    connection ∈ g.childConnections node ↔
      connection ∈ g.getConnections ∧ connection.fromNode = node := by
  simp [childConnections]

theorem mem_parentConnections :
    connection ∈ g.parentConnections node ↔
      connection ∈ g.getConnections ∧ connection.toNode = node := by
  simp [parentConnections]

theorem getDirectChildConnections_of_mem (h : node ∈ g.getNodes) :
    g.getDirectChildConnections node = .ok (g.childConnections node) :=
  if_pos (nodeExists_iff.mpr h)

theorem getDirectParentConnections_of_mem (h : node ∈ g.getNodes) :
    g.getDirectParentConnections node = .ok (g.parentConnections node) :=
  if_pos (nodeExists_iff.mpr h)

/-- A connection of any type from one node to another. -/
def Step (g : DirectedGraph) (u v : INode) : Prop :=
  ∃ c ∈ g.getConnections, c.fromNode = u ∧ c.toNode = v

/-- A main connection from one node to another. -/
def MainStep (g : DirectedGraph) (u v : INode) : Prop :=
  ∃ c ∈ g.getConnections, c.type = .main ∧ c.fromNode = u ∧ c.toNode = v

instance (g : DirectedGraph) (u v : INode) : Decidable (g.Step u v) :=
  inferInstanceAs (Decidable (∃ c ∈ g.getConnections, _))

instance (g : DirectedGraph) (u v : INode) : Decidable (g.MainStep u v) :=
  inferInstanceAs (Decidable (∃ c ∈ g.getConnections, _))

/-- `v` is reachable from `u` along main connections. -/
def MainReachable (g : DirectedGraph) : INode → INode → Prop :=
  Relation.ReflTransGen g.MainStep

/-! ### Copies -/

@[ext]
theorem ext : ∀ {g g' : DirectedGraph}, g.nodes = g'.nodes → g.connections = g'.connections →
    g = g'
  | ⟨_, _, _, _⟩, ⟨_, _, _, _⟩, rfl, rfl => rfl

theorem nodes_addNodes (nodes : List INode) (g : DirectedGraph) :
    (g.addNodes nodes).nodes
      = nodes.foldl (fun m (n : INode) => m.set n.name n) g.nodes := by
  induction nodes generalizing g with
  | nil => rfl
  | cons n nodes ih => exact ih (g.addNode n)

@[simp] theorem getConnections_addNodes (nodes : List INode) (g : DirectedGraph) :
    (g.addNodes nodes).getConnections = g.getConnections := by
  induction nodes generalizing g with
  | nil => rfl
  | cons n nodes ih => exact ih (g.addNode n)

/-- `clone()`. -/
def clone (g : DirectedGraph) : Except GraphError DirectedGraph :=
  (empty.addNodes g.getNodes).addConnections g.getConnections

private theorem connections_foldl_setConnection (l : List GraphConnection) (g : DirectedGraph) :
    (l.foldl setConnection g).connections
      = l.foldl (fun m c => m.set (makeKey c) c) g.connections := by
  induction l generalizing g with
  | nil => rfl
  | cons c l ih => exact ih (g.setConnection c)

private theorem connections_addNodes (nodes : List INode) (g : DirectedGraph) :
    (g.addNodes nodes).connections = g.connections := by
  induction nodes generalizing g with
  | nil => rfl
  | cons n nodes ih => exact ih (g.addNode n)

private theorem nodes_addNodes_getNodes (g : DirectedGraph) :
    (empty.addNodes g.getNodes).nodes = g.nodes := by
  rw [nodes_addNodes]
  exact g.nodes.foldl_set_values g.nodes_name

private theorem mem_getNodes_congr {g g' : DirectedGraph} (h : g.nodes = g'.nodes) :
    node ∈ g.getNodes ↔ node ∈ g'.getNodes := by
  rw [getNodes, getNodes, h]

/-- A graph whose connections have both ends in the graph is copied as it is. -/
theorem clone_of_closed (h : g.Closed) : g.clone = .ok g := by
  have hfold := ExceptFold.foldlM_eq_ok (f := addConnection) (g := setConnection)
    (fun g' => g'.nodes = g.nodes) g.getConnections (fun g' c hc hg' =>
      ⟨addConnection_of_mem ((mem_getNodes_congr hg').mpr (h c hc).1)
        ((mem_getNodes_congr hg').mpr (h c hc).2), hg'⟩)
    (empty.addNodes g.getNodes) g.nodes_addNodes_getNodes
  rw [clone, addConnections, hfold.1]
  refine congrArg Except.ok (ext hfold.2 ?_)
  rw [connections_foldl_setConnection, connections_addNodes]
  exact g.connections.foldl_set_values g.connections_key

private theorem addConnection_eq_ok_iff {g' : DirectedGraph} :
    g.addConnection connection = .ok g' ↔
      (connection.fromNode ∈ g.getNodes ∧ connection.toNode ∈ g.getNodes) ∧
        g.setConnection connection = g' := by
  simp only [addConnection, nodeExists_iff]
  split
  next h => simp [h]
  next h => simp [h]

/-- No other graph can be copied. -/
theorem closed_of_clone {g' : DirectedGraph} (h : g.clone = .ok g') : g.Closed := by
  intro c hc
  have hkeep : ∀ b : DirectedGraph, ∀ a ∈ g.getConnections, ∀ b', b.nodes = g.nodes →
      b.addConnection a = .ok b' → b'.nodes = g.nodes := fun b a _ b' hb hadd => by
    rw [← (addConnection_eq_ok_iff.mp hadd).2]
    exact hb
  obtain ⟨b, b', hb, hadd, -⟩ :=
    ExceptFold.exists_step_of_foldlM_eq_ok hkeep g.nodes_addNodes_getNodes h hc
  have hmem := (addConnection_eq_ok_iff.mp hadd).1
  exact ⟨(mem_getNodes_congr hb).mp hmem.1, (mem_getNodes_congr hb).mp hmem.2⟩

/-! ### Removing nodes -/

structure RemoveNodeOptions where
  reconnectConnections : Bool := false
  skipConnectionFn : GraphConnection → Bool := fun _ => false

/-- A connection into a node and one out of it become one past the node. -/
def rewire (incomingConnection outgoingConnection : GraphConnection) : GraphConnection :=
  { incomingConnection with
    toNode := outgoingConnection.toNode, inputIndex := outgoingConnection.inputIndex }

/-- The connections that take the place of a removed node. -/
def rewiredConnections (skip : GraphConnection → Bool)
    (incomingConnections outgoingConnections : List GraphConnection) : List GraphConnection :=
  (incomingConnections.filter fun c => !skip c).flatMap fun incomingConnection =>
    (outgoingConnections.filter fun c => !skip c).map (rewire incomingConnection)

/-- Delete every connection that uses the node. -/
def deleteConnections (g : DirectedGraph) (node : INode) : DirectedGraph where
  nodes := g.nodes
  connections := g.connections.filter fun _ c => ¬(c.toNode = node ∨ c.fromNode = node)
  nodes_name := g.nodes_name
  connections_key := fun k c h => g.connections_key k c (InsertionMap.mem_filter.mp h).1

/-- `this.nodes.delete(node.name)`. -/
def deleteNode (g : DirectedGraph) (node : INode) : DirectedGraph where
  nodes := g.nodes.erase node.name
  connections := g.connections
  nodes_name := fun k n h => g.nodes_name k n (InsertionMap.mem_erase.mp h).1
  connections_key := g.connections_key

/-- Remove a node. With `reconnectConnections`, its parents are connected to its children,
and the new connections are returned. -/
def removeNode (g : DirectedGraph) (node : INode) (options : RemoveNodeOptions := {}) :
    Except GraphError (DirectedGraph × Option (List GraphConnection)) :=
  if options.reconnectConnections then do
    let incomingConnections ← g.getDirectParentConnections node
    let outgoingConnections ← g.getDirectChildConnections node
    let newConnections :=
      rewiredConnections options.skipConnectionFn incomingConnections outgoingConnections
    return ((newConnections.foldl setConnection (g.deleteConnections node)).deleteNode node,
      some newConnections)
  else
    return ((g.deleteConnections node).deleteNode node, none)

@[simp] theorem getNodes_deleteConnections : (g.deleteConnections node).getNodes = g.getNodes :=
  rfl

@[simp] theorem getConnections_deleteNode :
    (g.deleteNode node).getConnections = g.getConnections := rfl

theorem mem_getConnections_deleteConnections {c : GraphConnection} :
    c ∈ (g.deleteConnections node).getConnections ↔
      c ∈ g.getConnections ∧ c.fromNode ≠ node ∧ c.toNode ≠ node := by
  rw [mem_getConnections_iff, mem_getConnections_iff, deleteConnections, InsertionMap.mem_filter,
    decide_eq_true_eq, not_or, and_comm (a := c.toNode ≠ node)]

theorem mem_getNodes_deleteNode {n : INode} :
    n ∈ (g.deleteNode node).getNodes ↔ n ∈ g.getNodes ∧ n.name ≠ node.name := by
  rw [mem_getNodes_iff, mem_getNodes_iff, deleteNode, InsertionMap.get?_erase]
  by_cases h : n.name = node.name <;> simp [h]

theorem mem_rewiredConnections {skip : GraphConnection → Bool} {ins outs : List GraphConnection}
    {c : GraphConnection} :
    c ∈ rewiredConnections skip ins outs ↔ ∃ i ∈ ins, skip i = false ∧
      ∃ o ∈ outs, skip o = false ∧ rewire i o = c := by
  simp [rewiredConnections, and_assoc]

@[simp] theorem getNodes_foldl_setConnection (l : List GraphConnection) (g : DirectedGraph) :
    (l.foldl setConnection g).getNodes = g.getNodes := by
  induction l generalizing g with
  | nil => rfl
  | cons c l ih => exact ih (g.setConnection c)

/-- Connections whose keys tell them apart are all kept. -/
theorem mem_getConnections_foldl_setConnection {S : Set GraphConnection} (hS : S.InjOn makeKey)
    (l : List GraphConnection) (g : DirectedGraph) (hl : ∀ c ∈ l, c ∈ S)
    (hg : ∀ c ∈ g.getConnections, c ∈ S) {c : GraphConnection} :
    c ∈ (l.foldl setConnection g).getConnections ↔ c ∈ l ∨ c ∈ g.getConnections := by
  induction l generalizing g with
  | nil => simp
  | cons a l ih =>
    have ha := hl a List.mem_cons_self
    have hset : ∀ c, c ∈ (g.setConnection a).getConnections ↔ c = a ∨ c ∈ g.getConnections := by
      intro c
      rw [mem_getConnections_setConnection]
      refine or_congr_right' fun hne => and_iff_right_of_imp fun hc hkey => ?_
      exact hne (hS (hg c hc) ha hkey)
    rw [List.foldl_cons, ih _ (fun c hc => hl c (List.mem_cons_of_mem _ hc)), hset,
      List.mem_cons, or_assoc, or_left_comm]
    intro c hc
    exact ((hset c).mp hc).elim (fun h => h ▸ ha) (hg c)

end DirectedGraph

end N8n
