import Mathlib.Data.List.Induction
import N8n.Foundations.ExceptFold
import N8n.PartialExecution.DirectedGraph
import N8n.Workflow.Workflow

/-!
# Workflow to graph and back

`fromWorkflow` reads the connections of a workflow into the flat, string-keyed connection
map of a `DirectedGraph`; `toWorkflow` writes them back into nested arrays. Three things
are lost on the way. Connections with the same key collapse (`makeKey` joins names and
numbers with dashes, and a name may contain dashes). The type of the input is never read,
and written back as the type of the output. And `toIConnections` prepares the array of one
type only for each source node, so that a node with outgoing connections of two types, or
one named like a member of `Object.prototype`, makes it fail.

`roundTrips_iff` says that there is no other loss.
-/

namespace N8n

namespace DirectedGraph

/-! ### Reading a workflow -/

/-- Add one connection of the workflow that starts in `fromNode`. -/
def addEntry (workflow : Workflow) (fromNode : INode) (graph : DirectedGraph)
    (e : ConnectionEntry) : Except GraphError DirectedGraph :=
  match workflow.getNode e.destinationNode with
  | none => .error .assertion
  | some toNode =>
    graph.addConnection
      { fromNode, toNode, type := e.outputType, outputIndex := e.outputIndex,
        inputIndex := e.inputIndex }

/-- Add all connections of the workflow that start in one node. -/
def addNodeEntries (workflow : Workflow) (graph : DirectedGraph)
    (node : String × INodeConnections) : Except GraphError DirectedGraph :=
  match workflow.getNode node.1 with
  | none => .error .assertion
  | some fromNode => (nodeEntries node).foldlM (addEntry workflow fromNode) graph

def fromWorkflow (workflow : Workflow) : Except GraphError DirectedGraph :=
  workflow.connectionsBySourceNode.ownEntries.foldlM (addNodeEntries workflow)
    (empty.addNodes workflow.nodes.ownValues)

/-! ### Writing a workflow -/

/-- One iteration of `toIConnections`. Reading the object of a source node finds what the
node already has, or a member of `Object.prototype`; only a new object gets an array, for
the type at hand. -/
def addToIConnections (result : IConnections) (connection : GraphConnection) :
    Except GraphError IConnections :=
  let name := connection.fromNode.name
  let resultConnection? : Option INodeConnections :=
    match result.get? name with
    | some own => some own
    | none =>
      if name ∈ InsertionMap.inheritedKeys then none
      else some (InsertionMap.empty.set connection.type [])
  match resultConnection? with
  | none => .error .typeError
  | some resultConnection =>
    match resultConnection.get? connection.type with
    | none => .error .typeError
    | some outputs =>
      let group := (SparseArray.getAt none outputs connection.outputIndex).getD []
      -- the connections of a workflow have natural input indexes
      let group := group ++
        [⟨connection.toNode.name, connection.type, connection.inputIndex.toNat⟩]
      .ok (result.set name (resultConnection.set connection.type
        (SparseArray.setAt none outputs connection.outputIndex (some group))))

def toIConnections (g : DirectedGraph) : Except GraphError IConnections :=
  g.getConnections.foldlM addToIConnections .empty

/-- `toWorkflow(parameters)`: the nodes and connections of the parameters are replaced. -/
def toWorkflow (g : DirectedGraph) (parameters : WorkflowParameters) :
    Except GraphError Workflow := do
  let connections ← g.toIConnections
  return Workflow.new { parameters with nodes := g.getNodes, connections }

end DirectedGraph

/-! ### Entries and keys -/

/-- The entry that `toIConnections` writes for a connection: its type stands at both
ends. -/
def GraphConnection.entry (c : GraphConnection) : ConnectionEntry :=
  ⟨c.fromNode.name, c.type, c.outputIndex, c.toNode.name, c.type, c.inputIndex.toNat⟩

/-- An entry as a graph remembers it, with the type of its output at both ends. -/
def ConnectionEntry.untyped (e : ConnectionEntry) : ConnectionEntry :=
  { e with inputType := e.outputType }

/-- The key under which a graph stores an entry. -/
def ConnectionEntry.key (e : ConnectionEntry) : String :=
  s!"{e.sourceNode}-{e.outputType}-{e.outputIndex}-{e.inputIndex}-{e.destinationNode}"

@[simp] theorem key_untyped (e : ConnectionEntry) : e.untyped.key = e.key := rfl

theorem makeKey_eq_key {c : GraphConnection} (h : 0 ≤ c.inputIndex) : makeKey c = c.entry.key := by
  obtain ⟨inputIndex, hindex⟩ := Int.eq_ofNat_of_zero_le h
  rw [makeKey, GraphConnection.entry, ConnectionEntry.key, hindex, Int.toNat_natCast]
  rfl

theorem untyped_eq_self_iff {e : ConnectionEntry} : e.untyped = e ↔ e.inputType = e.outputType := by
  obtain ⟨s, ot, oi, d, it, ii⟩ := e
  simp [ConnectionEntry.untyped, eq_comm]

/-! ### What `toIConnections` writes -/

/-- Holes hold no entries. -/
private theorem outputEntries_holes (name : String) (type : NodeConnectionType) (k start : ℕ) :
    ((List.replicate k (none : Option (List IConnection))).zipIdx start).flatMap
      (outputEntries name type) = [] := by
  induction k generalizing start with
  | zero => rfl
  | succ k ih =>
    rw [List.replicate_succ, List.zipIdx_cons, List.flatMap_cons, ih]
    rfl

/-- Growing the group of one output by a connection grows its entries by one. -/
private theorem typeEntries_setAt (name : String) (type : NodeConnectionType)
    (outputs : NodeInputConnections) (i : ℕ) (x : IConnection) :
    (typeEntries name (type, SparseArray.setAt none outputs i
        (some ((SparseArray.getAt none outputs i).getD [] ++ [x])))).Perm
      (typeEntries name (type, outputs) ++ [⟨name, type, i, x.node, x.type, x.index⟩]) := by
  rcases Nat.lt_or_ge i outputs.length with h | h
  · -- the group is there: only its own entries change
    rw [SparseArray.setAt_of_lt h, SparseArray.getAt_of_lt h]
    have hsplit : outputs = outputs.take i ++ outputs[i] :: outputs.drop (i + 1) := by
      rw [← List.drop_eq_getElem_cons h, List.take_append_drop]
    have hlen : (outputs.take i).length = i := List.length_take_of_le (Nat.le_of_lt h)
    have hset : outputs.set i (some (outputs[i].getD [] ++ [x]))
        = outputs.take i ++ some (outputs[i].getD [] ++ [x]) :: outputs.drop (i + 1) := by
      rw [List.set_eq_take_append_cons_drop, if_pos h]
    rw [hset]
    conv_rhs => rw [hsplit]
    simp only [typeEntries, List.zipIdx_append, List.zipIdx_cons, List.flatMap_append,
      List.flatMap_cons, hlen, Nat.zero_add, outputEntries, Option.getD_some, List.map_append,
      List.map_cons, List.map_nil, List.append_assoc]
    exact ((List.perm_append_comm).append_left _).append_left _
  · -- a new group: the array grows by holes and the group
    rw [SparseArray.setAt_of_le h, SparseArray.getAt_of_le h]
    simp only [typeEntries, List.zipIdx_append, List.flatMap_append, outputEntries_holes,
      List.append_nil, List.length_append, List.length_replicate, List.zipIdx_cons,
      List.zipIdx_nil, List.flatMap_cons, List.flatMap_nil, Option.getD_none, List.nil_append,
      Nat.zero_add, Nat.add_sub_cancel' h, outputEntries, Option.getD_some, List.map_cons,
      List.map_nil]
    exact List.Perm.refl _

/-- Setting the connections of a node: its new entries, and those of the other nodes. -/
private theorem connectionEntries_set (r : IConnections) (name : String)
    (own : INodeConnections) :
    (connectionEntries (r.set name own)).Perm
      (nodeEntries (name, own) ++ (r.erase name).entries.flatMap nodeEntries) :=
  (connectionEntries_perm _).trans ((r.entries_perm_set name own).flatMap_right _)

private theorem nodeEntries_set (name : String) (own : INodeConnections)
    (type : NodeConnectionType) (outputs : NodeInputConnections) :
    (nodeEntries (name, own.set type outputs)).Perm
      (typeEntries name (type, outputs) ++
        (own.erase type).entries.flatMap (typeEntries name)) :=
  (own.entries_perm_set type outputs).flatMap_right _

namespace DirectedGraph

/-- What `toIConnections` has built from the connections `cs` it has seen so far: an object
for each of their source nodes, with an array for one type, and their entries. -/
private structure Written (cs : List GraphConnection) (r : IConnections) : Prop where
  types : ∀ c ∈ cs, ∃ own, r.get? c.fromNode.name = some own ∧ own.keys = [c.type]
  names : ∀ name ∈ r.keys, ∃ c ∈ cs, c.fromNode.name = name
  own_name : ∀ c ∈ cs, c.fromNode.name ∉ InsertionMap.inheritedKeys
  entries : (connectionEntries r).Perm (cs.map GraphConnection.entry)

/-- When one more connection can be written after `cs`. -/
private def Fits (cs : List GraphConnection) (c : GraphConnection) : Prop :=
  c.fromNode.name ∉ InsertionMap.inheritedKeys ∧
    ∀ c' ∈ cs, c'.fromNode.name = c.fromNode.name → c'.type = c.type

variable {cs : List GraphConnection} {r : IConnections} {c : GraphConnection}

private theorem written_nil : Written [] .empty where
  types := by simp
  names := by simp [InsertionMap.keys]
  own_name := by simp
  entries := List.Perm.refl _

/-- The result of writing a connection into the array of its type. -/
private def writeInto (r : IConnections) (c : GraphConnection) (own : INodeConnections)
    (outputs : NodeInputConnections) : IConnections :=
  r.set c.fromNode.name (own.set c.type (SparseArray.setAt none outputs c.outputIndex
    (some ((SparseArray.getAt none outputs c.outputIndex).getD [] ++
      [⟨c.toNode.name, c.type, c.inputIndex.toNat⟩]))))

private theorem written_writeInto (h : Written cs r) {own : INodeConnections}
    {outputs : NodeInputConnections} (hown : own.keys = [c.type])
    (hget : own.get? c.type = some outputs)
    (hname : c.fromNode.name ∉ InsertionMap.inheritedKeys)
    (hsame : ∀ c' ∈ cs, c'.fromNode.name = c.fromNode.name → c'.type = c.type)
    (hent : (connectionEntries r).Perm (nodeEntries (c.fromNode.name, own) ++
      (r.erase c.fromNode.name).entries.flatMap nodeEntries)) :
    Written (cs ++ [c]) (writeInto r c own outputs) where
  types := by
    have hkeys : ∀ o, (own.set c.type o).keys = [c.type] := fun o => by
      rw [InsertionMap.keys_set_of_mem (by simp [hown]), hown]
    intro c' hc'
    rw [writeInto, InsertionMap.get?_set]
    by_cases heq : c'.fromNode.name = c.fromNode.name
    · rw [if_pos heq]
      refine ⟨_, rfl, ?_⟩
      rcases List.mem_append.mp hc' with hmem | hmem
      · rw [hkeys, hsame c' hmem heq]
      · rw [hkeys, List.mem_singleton.mp hmem]
    · rw [if_neg heq]
      rcases List.mem_append.mp hc' with hmem | hmem
      · exact h.types c' hmem
      · exact absurd (congrArg (·.fromNode.name) (List.mem_singleton.mp hmem)) heq
  names := by
    intro name hmem
    rcases InsertionMap.mem_keys_set.mp hmem with rfl | hmem
    · exact ⟨c, by simp, rfl⟩
    · obtain ⟨c', hc', hn⟩ := h.names name hmem
      exact ⟨c', List.mem_append_left _ hc', hn⟩
  own_name := by
    intro c' hc'
    rcases List.mem_append.mp hc' with hmem | hmem
    · exact h.own_name c' hmem
    · exact List.mem_singleton.mp hmem ▸ hname
  entries := by
    -- the entries of the node are those of the type, one more now, and the others
    have hold : (nodeEntries (c.fromNode.name, own)).Perm
        (typeEntries c.fromNode.name (c.type, outputs) ++
          (own.erase c.type).entries.flatMap (typeEntries c.fromNode.name)) :=
      (InsertionMap.entries_perm_of_get? hget).flatMap_right _
    have hnew := typeEntries_setAt c.fromNode.name c.type outputs c.outputIndex
      ⟨c.toNode.name, c.type, c.inputIndex.toNat⟩
    have hall := hent.symm.trans h.entries
    refine (connectionEntries_set _ _ _).trans ?_
    refine (((nodeEntries_set _ _ _ _).trans (hnew.append_right _)).append_right _).trans ?_
    rw [List.map_append, List.map_cons, List.map_nil]
    refine List.Perm.trans ?_ ((((hold.append_right _).symm).trans hall).append_right _)
    simp only [List.append_assoc]
    refine List.Perm.append_left _ ?_
    refine List.perm_append_comm.trans ?_
    simp only [List.append_assoc]
    exact List.Perm.refl _

/-- **Step lemma of `toIConnections`**: a connection that fits is written. -/
private theorem addToIConnections_of_fits (h : Written cs r) (hfits : Fits cs c) :
    ∃ r', addToIConnections r c = .ok r' ∧ Written (cs ++ [c]) r' := by
  obtain ⟨hname, hsame⟩ := hfits
  rcases hget : r.get? c.fromNode.name with _ | own
  · -- the first connection of this node: its object is made for the type at hand
    have hown : (InsertionMap.empty.set c.type ([] : NodeInputConnections)).get? c.type
        = some [] := InsertionMap.get?_set_self _ _ _
    refine ⟨writeInto r c (InsertionMap.empty.set c.type []) [], ?_, ?_⟩
    · simp only [addToIConnections, hget, if_neg hname, hown]
      rfl
    · refine written_writeInto h rfl hown hname hsame ?_
      rw [InsertionMap.erase_of_get?_eq_none hget]
      exact connectionEntries_perm r
  · have hkeys : own.keys = [c.type] := by
      obtain ⟨c', hc', hn⟩ := h.names _ (InsertionMap.mem_keys.mpr
        ⟨own, InsertionMap.get?_eq_some_iff.mp hget⟩)
      obtain ⟨own', hown', hk⟩ := h.types c' hc'
      rw [hn, hget, Option.some.injEq] at hown'
      rw [hown', hk, hsame c' hc' hn]
    obtain ⟨outputs, hout⟩ : ∃ outputs, own.get? c.type = some outputs := by
      have hmem : c.type ∈ own.keys := by simp [hkeys]
      obtain ⟨outputs, hout⟩ := InsertionMap.mem_keys.mp hmem
      exact ⟨outputs, InsertionMap.get?_eq_some_iff.mpr hout⟩
    refine ⟨writeInto r c own outputs, ?_, ?_⟩
    · simp only [addToIConnections, hget, hout]
      rfl
    · exact written_writeInto h hkeys hout hname hsame
        ((connectionEntries_perm r).trans
          ((InsertionMap.entries_perm_of_get? hget).flatMap_right _))

/-- A connection that does not fit makes `toIConnections` fail. -/
private theorem fits_of_addToIConnections (h : Written cs r) {r' : IConnections}
    (hr' : addToIConnections r c = .ok r') : Fits cs c := by
  rcases hget : r.get? c.fromNode.name with _ | own
  · have hname : c.fromNode.name ∉ InsertionMap.inheritedKeys := by
      intro hname
      simp only [addToIConnections, hget, if_pos hname] at hr'
      cases hr'
    refine ⟨hname, fun c' hc' hn => ?_⟩
    obtain ⟨own, hown, -⟩ := h.types c' hc'
    rw [hn, hget] at hown
    cases hown
  · obtain ⟨c₀, hc₀, hn₀⟩ := h.names _ (InsertionMap.mem_keys.mpr
      ⟨own, InsertionMap.get?_eq_some_iff.mp hget⟩)
    refine ⟨hn₀ ▸ h.own_name c₀ hc₀, fun c' hc' hn => ?_⟩
    obtain ⟨own', hown', hk⟩ := h.types c' hc'
    rw [hn, hget, Option.some.injEq] at hown'
    rcases hout : own.get? c.type with _ | outputs
    · simp only [addToIConnections, hget, hout] at hr'
      cases hr'
    · have hmem : c.type ∈ own.keys :=
        InsertionMap.mem_keys.mpr ⟨outputs, InsertionMap.get?_eq_some_iff.mp hout⟩
      rw [hown', hk, List.mem_singleton] at hmem
      exact hmem.symm

/-- The connections that `toIConnections` can write: one type for each source node, and no
source node with a name that every object inherits. -/
def Writable (cs : List GraphConnection) : Prop :=
  (∀ c ∈ cs, c.fromNode.name ∉ InsertionMap.inheritedKeys) ∧
    ∀ c ∈ cs, ∀ c' ∈ cs, c.fromNode.name = c'.fromNode.name → c.type = c'.type

private theorem fits_of_writable (h : Writable (cs ++ [c])) : Writable cs ∧ Fits cs c :=
  ⟨⟨fun c' hc' => h.1 c' (List.mem_append_left _ hc'),
    fun c' hc' c'' hc'' => h.2 c' (List.mem_append_left _ hc') c''
      (List.mem_append_left _ hc'')⟩,
   h.1 c (by simp), fun c' hc' => h.2 c' (List.mem_append_left _ hc') c (by simp)⟩

private theorem writable_concat (h : Writable cs) (hfits : Fits cs c) :
    Writable (cs ++ [c]) := by
  refine ⟨fun c' hc' => ?_, fun c' hc' c'' hc'' hn => ?_⟩
  · rcases List.mem_append.mp hc' with hmem | hmem
    · exact h.1 c' hmem
    · exact List.mem_singleton.mp hmem ▸ hfits.1
  · rcases List.mem_append.mp hc' with hmem | hmem <;>
      rcases List.mem_append.mp hc'' with hmem' | hmem'
    · exact h.2 c' hmem c'' hmem' hn
    · rw [List.mem_singleton.mp hmem'] at hn ⊢
      exact hfits.2 c' hmem hn
    · rw [List.mem_singleton.mp hmem] at hn ⊢
      exact (hfits.2 c'' hmem' hn.symm).symm
    · rw [List.mem_singleton.mp hmem, List.mem_singleton.mp hmem']

/-- **Run lemma of `toIConnections`**: writable connections are written, all of them. -/
private theorem exists_written (h : Writable cs) :
    ∃ r, cs.foldlM addToIConnections .empty = .ok r ∧ Written cs r := by
  induction cs using List.reverseRecOn with
  | nil => exact ⟨.empty, rfl, written_nil⟩
  | append_singleton cs c ih =>
    obtain ⟨hcs, hfits⟩ := fits_of_writable h
    obtain ⟨r, hr, hw⟩ := ih hcs
    obtain ⟨r', hr', hw'⟩ := addToIConnections_of_fits hw hfits
    exact ⟨r', ExceptFold.foldlM_concat_eq_ok_iff.mpr ⟨r, hr, hr'⟩, hw'⟩

private theorem writable_of_eq_ok (h : cs.foldlM addToIConnections .empty = .ok r) :
    Writable cs ∧ Written cs r := by
  induction cs using List.reverseRecOn generalizing r with
  | nil =>
    cases h
    exact ⟨⟨by simp, by simp⟩, written_nil⟩
  | append_singleton cs c ih =>
    obtain ⟨r₀, hr₀, hadd⟩ := ExceptFold.foldlM_concat_eq_ok_iff.mp h
    obtain ⟨hcs, hw⟩ := ih hr₀
    have hfits := fits_of_addToIConnections hw hadd
    obtain ⟨r', hr', hw'⟩ := addToIConnections_of_fits hw hfits
    rw [hadd] at hr'
    cases hr'
    exact ⟨writable_concat hcs hfits, hw'⟩

/-- `toIConnections` succeeds exactly on the writable graphs, and writes every
connection. -/
theorem toIConnections_eq_ok_iff (g : DirectedGraph) :
    (∃ r, g.toIConnections = .ok r) ↔ Writable g.getConnections := by
  refine ⟨fun ⟨r, hr⟩ => (writable_of_eq_ok hr).1, fun h => ?_⟩
  obtain ⟨r, hr, -⟩ := exists_written h
  exact ⟨r, hr⟩

theorem connectionEntries_toIConnections {g : DirectedGraph} (h : g.toIConnections = .ok r) :
    (connectionEntries r).Perm (g.getConnections.map GraphConnection.entry) :=
  (writable_of_eq_ok h).2.entries

/-! ### What `fromWorkflow` reads -/

/-- Every node that the connections of the workflow mention is a node of the workflow. -/
structure ConnectionsExist (w : Workflow) : Prop where
  source : ∀ name ∈ w.connectionsBySourceNode.keys, ∃ node, w.getNode name = some node
  destination : ∀ e ∈ connectionEntries w.connectionsBySourceNode,
    ∃ node, w.getNode e.destinationNode = some node

instance (w : Workflow) : Decidable (ConnectionsExist w) :=
  decidable_of_iff ((∀ name ∈ w.connectionsBySourceNode.keys, (w.getNode name).isSome) ∧
      ∀ e ∈ connectionEntries w.connectionsBySourceNode, (w.getNode e.destinationNode).isSome)
    ⟨fun h => ⟨fun name hn => Option.isSome_iff_exists.mp (h.1 name hn),
        fun e he => Option.isSome_iff_exists.mp (h.2 e he)⟩,
      fun h => ⟨fun name hn => Option.isSome_iff_exists.mpr (h.source name hn),
        fun e he => Option.isSome_iff_exists.mpr (h.destination e he)⟩⟩

/-- The connection of an entry, between the nodes it names. -/
def entryConnection (w : Workflow) (e : ConnectionEntry) : GraphConnection where
  fromNode := (w.getNode e.sourceNode).getD default
  toNode := (w.getNode e.destinationNode).getD default
  type := e.outputType
  outputIndex := e.outputIndex
  inputIndex := e.inputIndex

/-- A graph over the nodes of a workflow. -/
private def HasNodesOf (w : Workflow) (g : DirectedGraph) : Prop :=
  ∀ name node, w.getNode name = some node → node ∈ g.getNodes

variable {w : Workflow} {g : DirectedGraph} {e : ConnectionEntry}

private theorem entry_entryConnection {n n' : INode} (hs : w.getNode e.sourceNode = some n)
    (hd : w.getNode e.destinationNode = some n') : (entryConnection w e).entry = e.untyped := by
  simp only [entryConnection, GraphConnection.entry, ConnectionEntry.untyped, hs, hd,
    Int.toNat_natCast, Option.getD_some, Workflow.name_of_getNode hs, Workflow.name_of_getNode hd]

private theorem addEntry_eq_ok {n n' : INode} (hg : HasNodesOf w g)
    (hs : w.getNode e.sourceNode = some n) (hd : w.getNode e.destinationNode = some n') :
    addEntry w n g e = .ok (g.setConnection (entryConnection w e)) := by
  have hconn : entryConnection w e
      = ⟨n, n', e.outputType, e.outputIndex, e.inputIndex⟩ := by
    simp only [entryConnection, hs, hd, Option.getD_some]
  simp only [addEntry, hd]
  rw [hconn]
  exact addConnection_of_mem (hg _ _ hs) (hg _ _ hd)

private theorem sourceNode_of_mem_nodeEntries {node : String × INodeConnections}
    (h : e ∈ nodeEntries node) : e.sourceNode = node.1 := by
  simp only [nodeEntries, typeEntries, outputEntries, List.mem_flatMap, List.mem_map] at h
  obtain ⟨_, _, _, _, _, _, rfl⟩ := h
  rfl

private theorem mem_connectionEntries {node : String × INodeConnections}
    (hnode : node ∈ w.connectionsBySourceNode.ownEntries) (h : e ∈ nodeEntries node) :
    e ∈ connectionEntries w.connectionsBySourceNode :=
  List.mem_flatMap.mpr ⟨node, hnode, h⟩

/-- Reading all connections of one node sets them one after the other. -/
private theorem addNodeEntries_eq_ok (hw : ConnectionsExist w)
    {node : String × INodeConnections} (hnode : node ∈ w.connectionsBySourceNode.ownEntries)
    (hg : HasNodesOf w g) :
    addNodeEntries w g node
      = .ok ((nodeEntries node).foldl (fun g e => g.setConnection (entryConnection w e)) g) ∧
    HasNodesOf w
      ((nodeEntries node).foldl (fun g e => g.setConnection (entryConnection w e)) g) := by
  obtain ⟨n, hn⟩ := hw.source node.1
    (InsertionMap.mem_ownKeys.mp (List.mem_map_of_mem hnode))
  simp only [addNodeEntries, hn]
  refine ExceptFold.foldlM_eq_ok (g := fun g e => g.setConnection (entryConnection w e))
    (HasNodesOf w) _ (fun g e he hg => ⟨?_, hg⟩) g hg
  obtain ⟨n', hn'⟩ := hw.destination e (mem_connectionEntries hnode he)
  exact addEntry_eq_ok hg ((sourceNode_of_mem_nodeEntries he).symm ▸ hn) hn'

/-- The nodes of a workflow have distinct names. -/
private theorem ownValues_name_nodup (w : Workflow) :
    (w.nodes.ownValues.map INode.name).Nodup := by
  have hname : w.nodes.ownValues.map INode.name = w.nodes.ownKeys := by
    rw [InsertionMap.ownValues, InsertionMap.ownKeys, List.map_map]
    refine List.map_congr_left fun e he => ?_
    exact w.nodes_name e.1 e.2 (InsertionMap.mem_ownEntries.mp he)
  rw [hname]
  exact w.nodes.ownKeys_nodup

private theorem entries_foldl_nodes (nodes : List INode) (h : (nodes.map INode.name).Nodup) :
    (nodes.foldl (fun m (n : INode) => m.set n.name n)
      (.empty : InsertionMap String INode)).entries = nodes.map fun n => (n.name, n) := by
  rw [InsertionMap.entries_foldl_set nodes _ h (by simp [InsertionMap.keys])]
  rfl

/-- The graph of a workflow before its connections are read. -/
private theorem hasNodesOf_addNodes (w : Workflow) :
    HasNodesOf w (empty.addNodes w.nodes.ownValues) := by
  intro name node h
  have hent : (empty.addNodes w.nodes.ownValues).nodes.entries
      = w.nodes.ownValues.map fun n => (n.name, n) := by
    rw [nodes_addNodes]
    exact entries_foldl_nodes _ (ownValues_name_nodup w)
  have hmem : node ∈ w.nodes.ownValues := InsertionMap.mem_ownValues.mpr
    (InsertionMap.mem_values.mpr ⟨name, InsertionMap.get?_eq_some_iff.mp h⟩)
  rw [mem_getNodes_iff, InsertionMap.get?_eq_some_iff, hent]
  exact List.mem_map_of_mem hmem

private theorem foldl_setConnection_flatMap
    (l : List (String × INodeConnections)) (g : DirectedGraph) :
    l.foldl (fun g node =>
      (nodeEntries node).foldl (fun g e => g.setConnection (entryConnection w e)) g) g
      = (l.flatMap nodeEntries).foldl (fun g e => g.setConnection (entryConnection w e)) g := by
  rw [List.foldl_flatMap]

/-- **`fromWorkflow` succeeds** on a workflow whose connections refer to existing nodes,
and sets the connection of each entry in turn. -/
theorem fromWorkflow_eq_ok (hw : ConnectionsExist w) :
    fromWorkflow w = .ok ((connectionEntries w.connectionsBySourceNode).foldl
      (fun g e => g.setConnection (entryConnection w e))
      (empty.addNodes w.nodes.ownValues)) := by
  have h := ExceptFold.foldlM_eq_ok (HasNodesOf w) w.connectionsBySourceNode.ownEntries
    (fun g node hnode hg => addNodeEntries_eq_ok hw hnode hg) _ (hasNodesOf_addNodes w)
  rw [foldl_setConnection_flatMap] at h
  exact h.1

private theorem nodes_foldl_setEntryConnection (l : List ConnectionEntry) (g : DirectedGraph) :
    (l.foldl (fun g e => g.setConnection (entryConnection w e)) g).nodes = g.nodes := by
  induction l generalizing g with
  | nil => rfl
  | cons e l ih => exact ih (g.setConnection (entryConnection w e))

/-- Connections with distinct keys are all kept. -/
private theorem getConnections_foldl_setConnection (l : List ConnectionEntry)
    (hl : (l.map fun e => makeKey (entryConnection w e)).Nodup) (g : DirectedGraph)
    (hg : ∀ e ∈ l, ∀ c ∈ g.getConnections, makeKey c ≠ makeKey (entryConnection w e)) :
    (l.foldl (fun g e => g.setConnection (entryConnection w e)) g).getConnections
      = g.getConnections ++ l.map (entryConnection w) := by
  induction l generalizing g with
  | nil => simp
  | cons e l ih =>
    rw [List.map_cons, List.nodup_cons] at hl
    have hnew := getConnections_setConnection_of_new (hg e List.mem_cons_self)
    rw [List.foldl_cons, ih hl.2, hnew]
    · simp
    · intro e' he' c hc
      rw [hnew, List.mem_append, List.mem_singleton] at hc
      rcases hc with hc | rfl
      · exact hg e' (List.mem_cons_of_mem _ he') c hc
      · exact fun heq => hl.1 (heq ▸ List.mem_map_of_mem
          (f := fun e => makeKey (entryConnection w e)) he')

/-! ### The round trip -/

/-- The claim of the class on a workflow: `fromWorkflow` succeeds, its connections
correspond one to one to the entries of the workflow, and `toWorkflow` gives back the same
nodes and the same entries, counted with multiplicity. -/
def RoundTrips (w : Workflow) : Prop :=
  ∃ graph, fromWorkflow w = .ok graph ∧
    (∀ c ∈ graph.getConnections, 0 ≤ c.inputIndex) ∧
    (graph.getConnections.map GraphConnection.entry).Perm
      ((connectionEntries w.connectionsBySourceNode).map ConnectionEntry.untyped) ∧
    ∀ parameters, ∃ w', graph.toWorkflow parameters = .ok w' ∧
      w'.nodes.entries.Perm w.nodes.entries ∧
      (connectionEntries w'.connectionsBySourceNode).Perm
        (connectionEntries w.connectionsBySourceNode)

/-- A workflow whose connections survive in a graph: distinct keys, one output type for
each source node and that type at both ends, and source nodes with names that an object
does not inherit. -/
structure Lossless (w : Workflow) : Prop where
  key_nodup : ((connectionEntries w.connectionsBySourceNode).map ConnectionEntry.key).Nodup
  inputType_eq : ∀ e ∈ connectionEntries w.connectionsBySourceNode,
    e.inputType = e.outputType
  outputType_eq : ∀ e ∈ connectionEntries w.connectionsBySourceNode,
    ∀ e' ∈ connectionEntries w.connectionsBySourceNode,
      e.sourceNode = e'.sourceNode → e.outputType = e'.outputType
  own_name : ∀ e ∈ connectionEntries w.connectionsBySourceNode,
    e.sourceNode ∉ InsertionMap.inheritedKeys

instance (w : Workflow) : Decidable (Lossless w) :=
  decidable_of_iff (((connectionEntries w.connectionsBySourceNode).map ConnectionEntry.key).Nodup ∧
      (∀ e ∈ connectionEntries w.connectionsBySourceNode, e.inputType = e.outputType) ∧
      (∀ e ∈ connectionEntries w.connectionsBySourceNode,
        ∀ e' ∈ connectionEntries w.connectionsBySourceNode,
          e.sourceNode = e'.sourceNode → e.outputType = e'.outputType) ∧
      ∀ e ∈ connectionEntries w.connectionsBySourceNode,
        e.sourceNode ∉ InsertionMap.inheritedKeys)
    ⟨fun h => ⟨h.1, h.2.1, h.2.2.1, h.2.2.2⟩, fun h => ⟨h.1, h.2, h.3, h.4⟩⟩

private theorem toWorkflow_eq_ok_iff {parameters : WorkflowParameters} {w' : Workflow} :
    g.toWorkflow parameters = .ok w' ↔ ∃ r, g.toIConnections = .ok r ∧
      Workflow.new { parameters with nodes := g.getNodes, connections := r } = w' := by
  rw [toWorkflow]
  rcases g.toIConnections with err | r
  · exact iff_of_false (fun h => by cases h) fun ⟨_, h, _⟩ => by cases h
  · constructor
    · intro h
      exact ⟨r, rfl, Except.ok.inj h⟩
    · rintro ⟨r', hr', h⟩
      cases hr'
      exact congrArg Except.ok h

/-- The nodes of a workflow come back unchanged. -/
private theorem nodes_new_perm (w : Workflow) (parameters : WorkflowParameters)
    (r : IConnections) (hnodes : g.nodes = (empty.addNodes w.nodes.ownValues).nodes) :
    (Workflow.new { parameters with nodes := g.getNodes, connections := r }).nodes.entries.Perm
      w.nodes.entries := by
  have hvalues : g.getNodes = w.nodes.ownValues := by
    rw [getNodes, hnodes, nodes_addNodes, InsertionMap.values]
    change List.map Prod.snd (w.nodes.ownValues.foldl _ InsertionMap.empty).entries = _
    rw [entries_foldl_nodes _ (ownValues_name_nodup w), List.map_map]
    exact List.map_id _
  have hown : w.nodes.ownValues.filter (fun node => node.name ≠ "__proto__") =
      w.nodes.ownValues := by
    refine List.filter_eq_self.mpr fun node hnode => decide_eq_true fun heq => ?_
    obtain ⟨e, he, rfl⟩ := List.mem_map.mp hnode
    rw [InsertionMap.mem_ownEntries] at he
    rw [w.nodes_name e.1 e.2 he] at heq
    exact w.nodes_own (heq ▸ InsertionMap.mem_keys.mpr ⟨e.2, he⟩)
  have hent : (Workflow.setNodes w.nodes.ownValues).entries = w.nodes.ownEntries := by
    rw [Workflow.setNodes, hown, entries_foldl_nodes _ (ownValues_name_nodup w),
      InsertionMap.ownValues, List.map_map]
    refine (List.map_congr_left fun e he => ?_).trans (List.map_id _)
    have hname := w.nodes_name e.1 e.2 (InsertionMap.mem_ownEntries.mp he)
    simp [hname]
  simp only [Workflow.new, hvalues, hent]
  exact w.nodes.ownEntries_perm

private theorem entry_mem_iff_of_perm {cs : List GraphConnection} {es : List ConnectionEntry}
    (h : (cs.map GraphConnection.entry).Perm (es.map ConnectionEntry.untyped)) :
    Writable cs ↔ (∀ e ∈ es, e.sourceNode ∉ InsertionMap.inheritedKeys) ∧
      ∀ e ∈ es, ∀ e' ∈ es, e.sourceNode = e'.sourceNode → e.outputType = e'.outputType := by
  have hto : ∀ c ∈ cs, ∃ e ∈ es, e.untyped = c.entry := fun c hc =>
    List.mem_map.mp (h.subset (List.mem_map_of_mem hc))
  have hfrom : ∀ e ∈ es, ∃ c ∈ cs, c.entry = e.untyped := fun e he =>
    List.mem_map.mp (h.symm.subset (List.mem_map_of_mem he))
  have hname : ∀ {c : GraphConnection} {e : ConnectionEntry}, c.entry = e.untyped →
      c.fromNode.name = e.sourceNode ∧ c.type = e.outputType := fun h =>
    ⟨congrArg ConnectionEntry.sourceNode h, congrArg ConnectionEntry.outputType h⟩
  constructor
  · rintro ⟨hown, hsame⟩
    refine ⟨fun e he => ?_, fun e he e' he' hs => ?_⟩
    · obtain ⟨c, hc, heq⟩ := hfrom e he
      exact (hname heq).1 ▸ hown c hc
    · obtain ⟨c, hc, heq⟩ := hfrom e he
      obtain ⟨c', hc', heq'⟩ := hfrom e' he'
      rw [← (hname heq).2, ← (hname heq').2]
      exact hsame c hc c' hc' (by rw [(hname heq).1, (hname heq').1, hs])
  · rintro ⟨hown, hsame⟩
    refine ⟨fun c hc => ?_, fun c hc c' hc' hs => ?_⟩
    · obtain ⟨e, he, heq⟩ := hto c hc
      exact (hname heq.symm).1 ▸ hown e he
    · obtain ⟨e, he, heq⟩ := hto c hc
      obtain ⟨e', he', heq'⟩ := hto c' hc'
      rw [(hname heq.symm).2, (hname heq'.symm).2]
      exact hsame e he e' he' (by rw [← (hname heq.symm).1, ← (hname heq'.symm).1, hs])

/-- A workflow that survives the round trip is lossless. -/
private theorem lossless_of_roundTrips (h : RoundTrips w) : Lossless w := by
  obtain ⟨graph, -, hinputs, hperm, hto⟩ := h
  obtain ⟨w', hw', -, hentries⟩ := hto ⟨[], .empty, none, fun _ => {}, fun _ _ => none⟩
  obtain ⟨r, hr, rfl⟩ := toWorkflow_eq_ok_iff.mp hw'
  have hwrite := (entry_mem_iff_of_perm hperm).mp ((toIConnections_eq_ok_iff graph).mp ⟨r, hr⟩)
  refine ⟨?_, fun e he => ?_, hwrite.2, hwrite.1⟩
  · -- the keys of the stored connections are distinct, and they are those of the entries
    have hkeys : (graph.getConnections.map makeKey).Nodup :=
      graph.getConnections_nodup.map_on fun c hc c' hc' h => eq_of_makeKey_eq hc hc' h
    have hperm' := hperm.map ConnectionEntry.key
    rw [List.map_map, List.map_map] at hperm'
    rw [List.map_congr_left fun c hc => makeKey_eq_key (hinputs c hc)] at hkeys
    exact hperm'.nodup_iff.mp hkeys
  · -- every entry that comes back has the type of its output at both ends
    have hmem := ((connectionEntries_toIConnections hr).symm.trans hentries).mem_iff.mpr he
    obtain ⟨c, -, rfl⟩ := List.mem_map.mp hmem
    rfl

private theorem entry_entryConnection_of_mem (hw : ConnectionsExist w)
    (he : e ∈ connectionEntries w.connectionsBySourceNode) :
    (entryConnection w e).entry = e.untyped := by
  obtain ⟨node, hnode, hmem⟩ := List.mem_flatMap.mp he
  obtain ⟨n, hn⟩ := hw.source node.1
    (InsertionMap.mem_ownKeys.mp (List.mem_map_of_mem hnode))
  obtain ⟨n', hn'⟩ := hw.destination e he
  exact entry_entryConnection ((sourceNode_of_mem_nodeEntries hmem).symm ▸ hn) hn'

/-- A lossless workflow survives the round trip. -/
private theorem roundTrips_of_lossless (hw : ConnectionsExist w) (h : Lossless w) :
    RoundTrips w := by
  have hentry : ∀ e ∈ connectionEntries w.connectionsBySourceNode,
      (entryConnection w e).entry = e.untyped := fun e he => entry_entryConnection_of_mem hw he
  have hkeys : ((connectionEntries w.connectionsBySourceNode).map
      fun e => makeKey (entryConnection w e)).Nodup := by
    refine (List.map_congr_left fun e he => ?_) ▸ h.key_nodup
    rw [makeKey_eq_key (Int.natCast_nonneg e.inputIndex), hentry e he, key_untyped]
  -- distinct keys: no connection overwrites another one
  have hconns := getConnections_foldl_setConnection _ hkeys
    (empty.addNodes w.nodes.ownValues) (by rw [getConnections_addNodes]; simp)
  have hmap : (((connectionEntries w.connectionsBySourceNode).foldl
      (fun g e => g.setConnection (entryConnection w e))
      (empty.addNodes w.nodes.ownValues)).getConnections.map GraphConnection.entry)
      = (connectionEntries w.connectionsBySourceNode).map ConnectionEntry.untyped := by
    rw [hconns, getConnections_addNodes, List.map_append, List.map_map]
    exact List.map_congr_left hentry
  refine ⟨_, fromWorkflow_eq_ok hw, fun c hc => ?_, List.Perm.of_eq hmap, fun parameters => ?_⟩
  · rw [hconns, getConnections_addNodes, getConnections_empty, List.nil_append] at hc
    obtain ⟨e, -, rfl⟩ := List.mem_map.mp hc
    exact Int.natCast_nonneg e.inputIndex
  obtain ⟨r, hr⟩ := (toIConnections_eq_ok_iff _).mpr
    ((entry_mem_iff_of_perm (List.Perm.of_eq hmap)).mpr ⟨h.own_name, h.outputType_eq⟩)
  refine ⟨_, toWorkflow_eq_ok_iff.mpr ⟨r, hr, rfl⟩, ?_, ?_⟩
  · exact nodes_new_perm w parameters r (nodes_foldl_setEntryConnection _ _)
  · refine (connectionEntries_toIConnections hr).trans ?_
    rw [hmap, List.map_congr_left fun e he => untyped_eq_self_iff.mpr (h.inputType_eq e he)]
    exact List.map_id _ ▸ List.Perm.refl _

/-- **The round trip, exactly.** For a workflow whose connections refer to existing nodes,
reading it into a graph and writing it back preserves nodes and connections if and only if
the entries have distinct keys, the same type at both ends, one output type for each source
node, and no source node with a name that every object inherits. -/
theorem roundTrips_iff (w : Workflow) (hw : ConnectionsExist w) : RoundTrips w ↔ Lossless w :=
  ⟨lossless_of_roundTrips, roundTrips_of_lossless hw⟩

/-- A workflow of nodes without types, with the connections of the given source nodes. -/
def workflowOf (names : List String) (connections : IConnections) : Workflow :=
  Workflow.new { nodes := names.map fun name => { name }, connections }

/-- One connection between the first input and output, of one type. -/
def connectTo (type : NodeConnectionType) (name : String) (m : INodeConnections) :
    INodeConnections :=
  m.set type [some [⟨name, type, 0⟩]]

/-- A model that feeds an agent and a chain of nodes survives. -/
theorem roundTrips_agent :
    RoundTrips (workflowOf ["Trigger", "Agent", "Model"]
      ((InsertionMap.empty.set "Trigger" (connectTo .main "Agent" .empty)).set "Model"
        (connectTo .aiLanguageModel "Agent" .empty))) :=
  (roundTrips_iff _ (by decide)).mpr (by decide)

/-- Two reasons to be lost: a vector store with a `main` and an `ai_tool` output, whose
second type has no array when it is written; and two connections between different pairs of
nodes with one key. -/
theorem not_roundTrips_vectorStore :
    (ConnectionsExist (workflowOf ["Store", "Next", "Agent"]
        (InsertionMap.empty.set "Store" (connectTo .aiTool "Agent" (connectTo .main "Next"
          .empty)))) ∧
      ¬ RoundTrips (workflowOf ["Store", "Next", "Agent"]
        (InsertionMap.empty.set "Store" (connectTo .aiTool "Agent" (connectTo .main "Next"
          .empty))))) ∧
    (ConnectionsExist (workflowOf ["A", "B-main-0-0-C", "A-main-0-0-B", "C"]
        ((InsertionMap.empty.set "A" (connectTo .main "B-main-0-0-C" .empty)).set
          "A-main-0-0-B" (connectTo .main "C" .empty))) ∧
      ¬ RoundTrips (workflowOf ["A", "B-main-0-0-C", "A-main-0-0-B", "C"]
        ((InsertionMap.empty.set "A" (connectTo .main "B-main-0-0-C" .empty)).set
          "A-main-0-0-B" (connectTo .main "C" .empty)))) := by
  refine ⟨⟨by decide, fun h => ?_⟩, ⟨by decide, fun h => ?_⟩⟩
  · exact absurd (lossless_of_roundTrips h) (by decide)
  · exact absurd (lossless_of_roundTrips h) (by decide)

end DirectedGraph

end N8n
