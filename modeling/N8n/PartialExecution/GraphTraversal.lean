import N8n.Foundations.Traversal
import N8n.PartialExecution.DirectedGraph

/-!
# Children and parent connections

`getChildren` and `getParentConnections` are depth-first traversals that remember what they
have seen: nodes in the one case, connections in the other. In a closed graph both return,
and they return what is reachable.
-/

namespace N8n

namespace DirectedGraph

open Relation

/-- `getChildrenRecursive`, with a bound on the depth of nested calls. -/
def getChildrenRecursive (g : DirectedGraph) :
    ℕ → INode → InsertionSet INode → Except GraphError (InsertionSet INode) :=
  Traversal.visit .outOfFuel
    (fun node => (g.getDirectChildConnections node).map (List.map GraphConnection.toNode)) id

def getChildren (g : DirectedGraph) (node : INode) : Except GraphError (InsertionSet INode) :=
  g.getChildrenRecursive (g.getNodes.length + 1) node .empty

/-- `getParentConnectionsRecursive`, with a bound on the depth of nested calls. -/
def getParentConnectionsRecursive (g : DirectedGraph) :
    ℕ → INode → InsertionSet GraphConnection → Except GraphError (InsertionSet GraphConnection) :=
  Traversal.visit .outOfFuel g.getDirectParentConnections GraphConnection.fromNode

def getParentConnections (g : DirectedGraph) (node : INode) :
    Except GraphError (InsertionSet GraphConnection) :=
  g.getParentConnectionsRecursive (g.getConnections.length + 1) node .empty

/-- A connection of another type than `main`, from a sub-node to a node that uses it. -/
def SubNodeStep (g : DirectedGraph) (u v : INode) : Prop :=
  ∃ c ∈ g.getConnections, c.type ≠ .main ∧ c.fromNode = u ∧ c.toNode = v

variable {g : DirectedGraph} {node : INode}

theorem SubNodeStep.step {u v : INode} (h : g.SubNodeStep u v) : g.Step u v := by
  obtain ⟨c, hc, -, hf, ht⟩ := h
  exact ⟨c, hc, hf, ht⟩

/-- The children of a node, as a traversal looks them up. -/
private theorem next_children (hg : g.Closed) {n : INode} (hn : n ∈ g.getNodes) :
    ∃ items, (g.getDirectChildConnections n).map (List.map GraphConnection.toNode) = .ok items ∧
      ∀ v, v ∈ items ↔ g.Step n v ∧ v ∈ g.getNodes := by
  refine ⟨(g.childConnections n).map (·.toNode), ?_, fun v => ?_⟩
  · rw [getDirectChildConnections_of_mem hn]
    rfl
  · simp only [List.mem_map, mem_childConnections]
    constructor
    · rintro ⟨c, ⟨hc, hf⟩, rfl⟩
      exact ⟨⟨c, hc, hf, rfl⟩, (hg c hc).2⟩
    · rintro ⟨⟨c, hc, hf, ht⟩, -⟩
      exact ⟨c, ⟨hc, hf⟩, ht⟩

theorem mem_getNodes_of_step (hg : g.Closed) {u v : INode} (h : g.Step u v) :
    u ∈ g.getNodes ∧ v ∈ g.getNodes := by
  obtain ⟨c, hc, rfl, rfl⟩ := h
  exact hg c hc

/-- A traversal of the children discovers what is reachable by at least one connection. -/
private theorem discovers_children_iff (hg : g.Closed) (hnode : node ∈ g.getNodes) {v : INode} :
    Traversal.Discovers (fun node => (g.getDirectChildConnections node).map
      (List.map GraphConnection.toNode)) id node v ↔ TransGen g.Step node v := by
  constructor
  · intro h
    induction h with
    | here h he =>
      obtain ⟨items, hi, hmem⟩ := next_children hg hnode
      rw [h, Except.ok.injEq] at hi
      exact .single ((hmem _).mp (hi ▸ he)).1
    | there h he _ ih =>
      obtain ⟨items, hi, hmem⟩ := next_children hg hnode
      rw [h, Except.ok.injEq] at hi
      obtain ⟨hstep, hv⟩ := (hmem _).mp (hi ▸ he)
      exact TransGen.head hstep (ih hv)
  · intro h
    induction h using TransGen.head_induction_on with
    | single h =>
      obtain ⟨items, hi, hmem⟩ := next_children hg hnode
      exact .here hi ((hmem _).mpr ⟨h, (mem_getNodes_of_step hg h).2⟩)
    | head h _ ih =>
      obtain ⟨items, hi, hmem⟩ := next_children hg hnode
      have hv := (mem_getNodes_of_step hg h).2
      exact .there hi ((hmem _).mpr ⟨h, hv⟩) (ih hv)

/-- `getChildren` returns the nodes that are reachable by at least one connection. -/
theorem exists_getChildren_eq_ok (hg : g.Closed) (hnode : node ∈ g.getNodes) :
    ∃ s, g.getChildren node = .ok s ∧ ∀ v, v ∈ s ↔ TransGen g.Step node v := by
  have hnext : ∀ n, n ∈ g.getNodes → ∃ items, (g.getDirectChildConnections n).map
      (List.map GraphConnection.toNode) = .ok items ∧
        ∀ v ∈ items, v ∈ g.getNodes ∧ id v ∈ g.getNodes := by
    intro n hn
    obtain ⟨items, hi, hmem⟩ := next_children hg hn
    exact ⟨items, hi, fun v hv => ⟨((hmem v).mp hv).2, ((hmem v).mp hv).2⟩⟩
  obtain ⟨s, hs, hmem⟩ := Traversal.exists_visit_eq_ok GraphError.outOfFuel hnext hnode
  exact ⟨s, hs, fun v => (hmem v).trans (discovers_children_iff hg hnode)⟩

/-- A traversal of the parents discovers the connections whose target reaches the node. -/
private theorem discovers_parents_iff (hg : g.Closed) (hnode : node ∈ g.getNodes)
    {c : GraphConnection} :
    Traversal.Discovers g.getDirectParentConnections GraphConnection.fromNode node c ↔
      c ∈ g.getConnections ∧ ReflTransGen g.Step c.toNode node := by
  constructor
  · intro h
    induction h with
    | here h he =>
      rw [getDirectParentConnections_of_mem hnode, Except.ok.injEq] at h
      obtain ⟨hc, ht⟩ := mem_parentConnections.mp (h ▸ he)
      exact ⟨hc, ht ▸ .refl⟩
    | there h he _ ih =>
      rw [getDirectParentConnections_of_mem hnode, Except.ok.injEq] at h
      obtain ⟨hc, ht⟩ := mem_parentConnections.mp (h ▸ he)
      obtain ⟨hc', hpath⟩ := ih (hg _ hc).1
      exact ⟨hc', hpath.tail ⟨_, hc, rfl, ht⟩⟩
  · rintro ⟨hc, hpath⟩
    generalize hv : c.toNode = v at hpath
    induction hpath with
    | refl =>
      exact .here (getDirectParentConnections_of_mem hnode) (mem_parentConnections.mpr ⟨hc, hv⟩)
    | tail _ hstep ih =>
      obtain ⟨c', hc', rfl, ht⟩ := hstep
      exact .there (getDirectParentConnections_of_mem hnode)
        (mem_parentConnections.mpr ⟨hc', ht⟩) (ih (hg c' hc').1)

/-- `getParentConnections` returns the connections from whose target the node is
reachable. -/
theorem exists_getParentConnections_eq_ok (hg : g.Closed) (hnode : node ∈ g.getNodes) :
    ∃ s, g.getParentConnections node = .ok s ∧
      ∀ c, c ∈ s ↔ c ∈ g.getConnections ∧ ReflTransGen g.Step c.toNode node := by
  have hnext : ∀ n, n ∈ g.getNodes → ∃ items, g.getDirectParentConnections n = .ok items ∧
      ∀ c ∈ items, c ∈ g.getConnections ∧ c.fromNode ∈ g.getNodes := by
    intro n hn
    refine ⟨_, getDirectParentConnections_of_mem hn, fun c hc => ?_⟩
    have hc' := (mem_parentConnections.mp hc).1
    exact ⟨hc', (hg c hc').1⟩
  obtain ⟨s, hs, hmem⟩ := Traversal.exists_visit_eq_ok GraphError.outOfFuel hnext hnode
  exact ⟨s, hs, fun c => (hmem c).trans (discovers_parents_iff hg hnode)⟩

end DirectedGraph

end N8n
