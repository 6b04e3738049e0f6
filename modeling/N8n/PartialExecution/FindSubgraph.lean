import N8n.Foundations.Paths
import N8n.PartialExecution.GraphTraversal

/-!
# The subgraph between trigger and destination

`findSubgraph` walks backwards from the destination along main connections and keeps a
branch when it arrives at the trigger, or at a node that the branch has visited before. It
stops at the trigger, and it never passes through the destination again. So the main part
of the result consists of the walks that end in the destination, visit it only there, do
not come back to the trigger, and start in the trigger *or on a cycle* (`OnWalk`); the
walks that start on a cycle need not be reachable from the trigger. Then every non-main
connection is added from whose target a node of the main part is reachable, along
connections of any type. Where the trigger reaches all cycles upstream, the result is what leads
from the trigger to the destination (`findSubgraph_exact`).
-/

namespace N8n

namespace DirectedGraph

open Relation

/-! ### The search -/

/-- `addNodes(connection.from, connection.to)` and `addConnection(connection)`. -/
def addWithNodes (newGraph : DirectedGraph) (connection : GraphConnection) :
    Except GraphError DirectedGraph :=
  (newGraph.addNodes [connection.fromNode, connection.toNode]).addConnection connection

/-- Keep all connections of a branch. -/
def keepBranch (newGraph : DirectedGraph) (currentBranch : List GraphConnection) :
    Except GraphError DirectedGraph :=
  currentBranch.foldlM addWithNodes newGraph

/-- `findSubgraphRecursive`, with a bound on the depth of nested calls. -/
def findSubgraphRecursive (graph : DirectedGraph) (destinationNode trigger : INode) :
    ℕ → INode → DirectedGraph → List GraphConnection → Except GraphError DirectedGraph
  | 0, _, _, _ => .error .outOfFuel
  | fuel + 1, current, newGraph, currentBranch =>
    if current = trigger then (newGraph.addNode trigger).keepBranch currentBranch
    else do
      let parentConnections ← graph.getDirectParentConnections current
      let isCycleWithDestinationNode := current = destinationNode ∧
        currentBranch.any fun c => c.toNode = destinationNode
      let isCycleWithCurrentNode := currentBranch.any fun c => c.toNode = current
      if parentConnections.length = 0 then .ok newGraph
      else if isCycleWithDestinationNode then .ok newGraph
      else if isCycleWithCurrentNode then newGraph.keepBranch currentBranch
      else parentConnections.foldlM (fun newGraph parentConnection =>
        if parentConnection.type ≠ .main then .ok newGraph
        else graph.findSubgraphRecursive destinationNode trigger fuel parentConnection.fromNode
          newGraph (currentBranch ++ [parentConnection])) newGraph

/-- One iteration of the second loop: add the utility nodes of one node. -/
def addUtilities (graph : DirectedGraph) (subgraph : DirectedGraph) (node : INode) :
    Except GraphError DirectedGraph := do
  let parentConnections ← graph.getParentConnections node
  parentConnections.elements.foldlM (fun subgraph connection =>
    if connection.type = .main then .ok subgraph else subgraph.addWithNodes connection) subgraph

def findSubgraph (graph : DirectedGraph) (destination trigger : INode) :
    Except GraphError DirectedGraph := do
  let subgraph ← graph.findSubgraphRecursive destination trigger (graph.getNodes.length + 1)
    destination .empty []
  subgraph.getNodes.foldlM graph.addUtilities subgraph

/-! ### Growing a subgraph -/

/-- The nodes and connections of `r` are nodes and connections of `g`. -/
structure SubgraphOf (g r : DirectedGraph) : Prop where
  nodes : ∀ n ∈ r.getNodes, n ∈ g.getNodes
  connections : ∀ c ∈ r.getConnections, c ∈ g.getConnections

/-- `r'` is `r` with some nodes and connections of `g` added. -/
structure Adds (g r r' : DirectedGraph) (N : INode → Prop) (C : GraphConnection → Prop) :
    Prop where
  subgraphOf : SubgraphOf g r'
  nodes : ∀ n, n ∈ r'.getNodes ↔ n ∈ r.getNodes ∨ N n
  connections : ∀ c, c ∈ r'.getConnections ↔ c ∈ r.getConnections ∨ C c

variable {g r r' r'' : DirectedGraph} {N N' : INode → Prop} {C C' : GraphConnection → Prop}
  {c : GraphConnection} {n : INode}

theorem Adds.refl (h : SubgraphOf g r) : Adds g r r (fun _ => False) fun _ => False :=
  ⟨h, by simp, by simp⟩

theorem Adds.trans (h : Adds g r r' N C) (h' : Adds g r' r'' N' C') :
    Adds g r r'' (fun n => N n ∨ N' n) fun c => C c ∨ C' c where
  subgraphOf := h'.subgraphOf
  nodes := by
    intro n
    rw [h'.nodes, h.nodes, or_assoc]
  connections := by
    intro c
    rw [h'.connections, h.connections, or_assoc]

theorem Adds.congr (h : Adds g r r' N C) (hN : ∀ n, N n ↔ N' n) (hC : ∀ c, C c ↔ C' c) :
    Adds g r r' N' C' := by
  rwa [show N' = N from funext fun n => propext (hN n).symm,
    show C' = C from funext fun c => propext (hC c).symm]

private theorem adds_addNode (h : SubgraphOf g r) (hn : n ∈ g.getNodes) :
    Adds g r (r.addNode n) (fun m => m = n) fun _ => False := by
  have hmem : ∀ m, m ∈ (r.addNode n).getNodes ↔ m ∈ r.getNodes ∨ m = n := by
    intro m
    rw [mem_getNodes_addNode, or_comm (a := m ∈ r.getNodes)]
    refine or_congr_right' fun hne => and_iff_right_of_imp fun hm hname => ?_
    exact hne (eq_of_name_eq (h.nodes m hm) hn hname)
  refine ⟨⟨fun m hm => ?_, h.connections⟩, hmem, by simp⟩
  exact ((hmem m).mp hm).elim (h.nodes m) fun heq => heq ▸ hn

/-- Connections of one graph do not replace each other. -/
private theorem adds_setConnection (h : SubgraphOf g r) (hc : c ∈ g.getConnections) :
    Adds g r (r.setConnection c) (fun _ => False) fun c' => c' = c := by
  have hmem : ∀ c', c' ∈ (r.setConnection c).getConnections ↔ c' ∈ r.getConnections ∨ c' = c := by
    intro c'
    rw [mem_getConnections_setConnection, or_comm (a := c' ∈ r.getConnections)]
    refine or_congr_right' fun hne => and_iff_right_of_imp fun hc' hkey => ?_
    exact hne (eq_of_makeKey_eq (h.connections c' hc') hc hkey)
  refine ⟨⟨h.nodes, fun c' hc' => ?_⟩, by simp, hmem⟩
  exact ((hmem c').mp hc').elim (h.connections c') fun heq => heq ▸ hc

/-- Adding a connection of `g` with its nodes succeeds. -/
theorem exists_addWithNodes_eq_ok (hg : g.Closed) (h : SubgraphOf g r)
    (hc : c ∈ g.getConnections) : ∃ r', r.addWithNodes c = .ok r' ∧
      Adds g r r' (fun n => n = c.fromNode ∨ n = c.toNode) fun c' => c' = c := by
  obtain ⟨hf, ht⟩ := hg c hc
  have hfrom := adds_addNode h hf
  have hto := adds_addNode hfrom.subgraphOf ht
  have hconn := adds_setConnection hto.subgraphOf hc
  refine ⟨_, addConnection_of_mem ?_ ?_, ((hfrom.trans hto).trans hconn).congr ?_ ?_⟩
  · exact (hto.nodes _).mpr (Or.inl ((hfrom.nodes _).mpr (Or.inr rfl)))
  · exact (hto.nodes _).mpr (Or.inr rfl)
  · simp
  · simp

/-- **Loop rule.** A loop whose iterations each add something adds all of it. -/
theorem exists_foldlM_adds {α : Type} {f : DirectedGraph → α → Except GraphError DirectedGraph}
    {N : α → INode → Prop} {C : α → GraphConnection → Prop} (l : List α)
    (hstep : ∀ r, ∀ a ∈ l, SubgraphOf g r → ∃ r', f r a = .ok r' ∧ Adds g r r' (N a) (C a))
    (h : SubgraphOf g r) : ∃ r', l.foldlM f r = .ok r' ∧
      Adds g r r' (fun n => ∃ a ∈ l, N a n) fun c => ∃ a ∈ l, C a c := by
  induction l generalizing r with
  | nil => exact ⟨r, rfl, (Adds.refl h).congr (by simp) (by simp)⟩
  | cons a l ih =>
    obtain ⟨r₁, hr₁, hadds₁⟩ := hstep r a List.mem_cons_self h
    obtain ⟨r', hr', hadds⟩ := ih (fun r b hb => hstep r b (List.mem_cons_of_mem _ hb))
      hadds₁.subgraphOf
    refine ⟨r', ?_, (hadds₁.trans hadds).congr (by simp) (by simp)⟩
    rw [List.foldlM_cons, hr₁]
    exact hr'

/-! ### Branches -/

/-- A branch from the destination `d` back to a node, of connections that satisfy `P`. -/
inductive Backward (P : GraphConnection → Prop) (d : INode) : List GraphConnection → INode → Prop
  | nil : Backward P d [] d
  | snoc {branch : List GraphConnection} {c : GraphConnection} (h : Backward P d branch c.toNode)
    (hc : P c) : Backward P d (branch ++ [c]) c.fromNode

/-- The branches that are kept when the search is at `current` with the branch so far. -/
inductive Keeps (g : DirectedGraph) (d t : INode) :
    INode → List GraphConnection → List GraphConnection → Prop
  | trigger {branch : List GraphConnection} : Keeps g d t t branch branch
  | cycle {current : INode} {branch : List GraphConnection} (ht : current ≠ t) (hd : current ≠ d)
    (hvisited : ∃ c ∈ branch, c.toNode = current) : Keeps g d t current branch branch
  | step {current : INode} {branch full : List GraphConnection} {c : GraphConnection}
    (ht : current ≠ t) (hnew : ¬∃ c ∈ branch, c.toNode = current) (hc : c ∈ g.getConnections)
    (hto : c.toNode = current) (hmain : c.type = .main)
    (h : Keeps g d t c.fromNode (branch ++ [c]) full) : Keeps g d t current branch full

variable {P : GraphConnection → Prop} {d t current : INode} {branch full : List GraphConnection}

theorem Backward.forall_mem (h : Backward P d branch current) : ∀ c ∈ branch, P c := by
  induction h with
  | nil => simp
  | snoc _ hc ih => simpa using fun c hmem => hmem.elim (ih c) fun heq => heq ▸ hc

theorem Backward.mono {Q : GraphConnection → Prop} (h : Backward P d branch current)
    (hPQ : ∀ c, P c → Q c) : Backward Q d branch current := by
  induction h with
  | nil => exact .nil
  | snoc _ hc ih => exact .snoc ih (hPQ _ hc)

/-- The nodes of a branch are the destination and the sources of its connections. -/
theorem Backward.ends_iff (h : Backward P d branch current) :
    (n = current ∨ ∃ c ∈ branch, n = c.fromNode ∨ n = c.toNode) ↔
      n ∈ d :: branch.map GraphConnection.fromNode := by
  induction h with
  | nil => simp
  | @snoc branch c _ _ ih =>
    rw [List.map_append, ← List.cons_append, List.mem_append, ← ih]
    simp only [List.mem_append, List.mem_singleton, List.map_cons, List.map_nil]
    constructor
    · rintro (rfl | ⟨c', hc' | rfl, rfl | rfl⟩)
      · exact Or.inr rfl
      · exact Or.inl (Or.inr ⟨c', hc', Or.inl rfl⟩)
      · exact Or.inl (Or.inr ⟨c', hc', Or.inr rfl⟩)
      · exact Or.inr rfl
      · exact Or.inl (Or.inl rfl)
    · rintro ((rfl | ⟨c', hc', hn⟩) | rfl)
      · exact Or.inr ⟨c, Or.inr rfl, Or.inr rfl⟩
      · exact Or.inr ⟨c', Or.inl hc', hn⟩
      · exact Or.inl rfl

private theorem exists_keepBranch_eq_ok (hg : g.Closed) (h : SubgraphOf g r)
    (hbranch : ∀ c ∈ branch, c ∈ g.getConnections) : ∃ r', r.keepBranch branch = .ok r' ∧
      Adds g r r' (fun n => ∃ c ∈ branch, n = c.fromNode ∨ n = c.toNode) fun c => c ∈ branch := by
  have hstep : ∀ r, ∀ c ∈ branch, SubgraphOf g r → ∃ r', r.addWithNodes c = .ok r' ∧
      Adds g r r' (fun n => n = c.fromNode ∨ n = c.toNode) fun c' => c' = c :=
    fun r c hc h => exists_addWithNodes_eq_ok hg h (hbranch c hc)
  obtain ⟨r', hr', hadds⟩ := exists_foldlM_adds branch hstep h
  exact ⟨r', hr', hadds.congr (fun _ => Iff.rfl) (by simp)⟩

theorem keeps_trigger_iff : Keeps g d t t branch full ↔ full = branch := by
  constructor
  · intro h
    rcases h with _ | ⟨ht, -, -⟩ | ⟨ht, -, -, -, -, -⟩
    · rfl
    · exact absurd rfl ht
    · exact absurd rfl ht
  · rintro rfl
    exact .trigger

private theorem keeps_visited_iff (ht : current ≠ t) (hd : current ≠ d)
    (hvisited : ∃ c ∈ branch, c.toNode = current) :
    Keeps g d t current branch full ↔ full = branch := by
  constructor
  · intro h
    rcases h with _ | ⟨-, -, -⟩ | ⟨-, hnew, -, -, -, -⟩
    · exact absurd rfl ht
    · rfl
    · exact absurd hvisited hnew
  · rintro rfl
    exact .cycle ht hd hvisited

private theorem keeps_new_iff (ht : current ≠ t) (hnew : ¬∃ c ∈ branch, c.toNode = current) :
    Keeps g d t current branch full ↔ ∃ c ∈ g.parentConnections current, c.type = .main ∧
      Keeps g d t c.fromNode (branch ++ [c]) full := by
  constructor
  · intro h
    rcases h with _ | ⟨-, -, hvisited⟩ | ⟨-, -, hc, hto, hmain, h⟩
    · exact absurd rfl ht
    · exact absurd hvisited hnew
    · exact ⟨_, mem_parentConnections.mpr ⟨hc, hto⟩, hmain, h⟩
  · rintro ⟨c, hc, hmain, h⟩
    obtain ⟨hc, hto⟩ := mem_parentConnections.mp hc
    exact .step ht hnew hc hto hmain h

/-- A node without parents, or the destination reached again, keeps nothing. -/
private theorem not_keeps (hback : Backward (· ∈ g.getConnections) d branch current)
    (ht : current ≠ t) (h : g.parentConnections current = [] ∨
      (current = d ∧ ∃ c ∈ branch, c.toNode = current)) :
    ¬Keeps g d t current branch full := by
  have hparent : ∀ c ∈ g.getConnections, c.toNode = current →
      g.parentConnections current ≠ [] := fun c hc hto =>
    List.ne_nil_of_mem (mem_parentConnections.mpr ⟨hc, hto⟩)
  intro hkeeps
  rcases hkeeps with _ | ⟨-, hd, c, hc, hto⟩ | ⟨-, hnew, hc, hto, -, -⟩
  · exact ht rfl
  · exact h.elim (hparent c (hback.forall_mem c hc) hto) fun h => hd h.1
  · exact h.elim (hparent _ hc hto) fun h => hnew h.2

/-- **The search keeps the branches of `Keeps`**, with their nodes. The depth of the calls is
bounded because a branch that goes on has distinct targets. -/
private theorem exists_findSubgraphRecursive_eq_ok (hg : g.Closed) (fuel : ℕ) (current : INode)
    (hmem : current ∈ g.getNodes) (branch : List GraphConnection)
    (hback : Backward (· ∈ g.getConnections) d branch current)
    (hnodup : (branch.map GraphConnection.toNode).Nodup)
    (hfuel : g.getNodes.length < fuel + branch.length) (r : DirectedGraph)
    (h : SubgraphOf g r) :
    ∃ r', g.findSubgraphRecursive d t fuel current r branch = .ok r' ∧
      Adds g r r'
        (fun n => ∃ full, Keeps g d t current branch full ∧
          n ∈ d :: full.map GraphConnection.fromNode)
        fun c => ∃ full, Keeps g d t current branch full ∧ c ∈ full := by
  induction fuel generalizing current branch r with
  | zero =>
    have hle : (branch.map GraphConnection.toNode).length ≤ g.getNodes.length := by
      refine (List.subperm_of_subset hnodup fun n hn => ?_).length_le
      obtain ⟨c, hc, rfl⟩ := List.mem_map.mp hn
      exact (hg c (hback.forall_mem c hc)).2
    rw [List.length_map] at hle
    omega
  | succ fuel ih =>
    rw [findSubgraphRecursive]
    by_cases ht : current = t
    · -- the trigger: the branch is kept
      subst ht
      obtain ⟨r', hr', hadds⟩ := exists_keepBranch_eq_ok hg (adds_addNode h hmem).subgraphOf
        hback.forall_mem
      refine ⟨r', by rw [if_pos rfl, hr'], ((adds_addNode h hmem).trans hadds).congr ?_ ?_⟩
      · intro n
        simp only [keeps_trigger_iff, exists_eq_left]
        exact hback.ends_iff
      · simp [keeps_trigger_iff]
    · rw [if_neg ht, getDirectParentConnections_of_mem hmem]
      simp only [bind, Except.bind, List.length_eq_zero_iff, List.any_eq_true, decide_eq_true_eq]
      split
      next hnil =>
        have hno : ∀ full, ¬Keeps g d t current branch full := fun _ =>
          not_keeps hback ht (Or.inl hnil)
        exact ⟨r, rfl, (Adds.refl h).congr (by simp [hno]) (by simp [hno])⟩
      next =>
        split
        next hcycle =>
          have hno : ∀ full, ¬Keeps g d t current branch full := fun _ =>
            not_keeps hback ht (Or.inr ⟨hcycle.1, hcycle.1 ▸ hcycle.2⟩)
          exact ⟨r, rfl, (Adds.refl h).congr (by simp [hno]) (by simp [hno])⟩
        next hcycle =>
          split
          next hvisited =>
            have hd : current ≠ d := fun hd => hcycle ⟨hd, hd ▸ hvisited⟩
            obtain ⟨r', hr', hadds⟩ := exists_keepBranch_eq_ok hg h hback.forall_mem
            refine ⟨r', hr', hadds.congr ?_ ?_⟩
            · intro n
              simp only [keeps_visited_iff ht hd hvisited, exists_eq_left, ← hback.ends_iff]
              refine ⟨Or.inr, fun hn => hn.elim (fun hcur => ?_) id⟩
              obtain ⟨c, hc, hto⟩ := hvisited
              exact ⟨c, hc, Or.inr (hcur.trans hto.symm)⟩
            · simp [keeps_visited_iff ht hd hvisited]
          next hnew =>
            -- a nested call for each main parent
            have hstep : ∀ r, ∀ c ∈ g.parentConnections current, SubgraphOf g r → ∃ r',
                (if c.type ≠ .main then .ok r else g.findSubgraphRecursive d t fuel c.fromNode r
                  (branch ++ [c])) = .ok r' ∧
                Adds g r r'
                  (fun n => c.type = .main ∧ ∃ full, Keeps g d t c.fromNode (branch ++ [c]) full ∧
                    n ∈ d :: full.map GraphConnection.fromNode)
                  fun c' => c.type = .main ∧ ∃ full,
                    Keeps g d t c.fromNode (branch ++ [c]) full ∧ c' ∈ full := by
              intro r c hc h
              obtain ⟨hc, hto⟩ := mem_parentConnections.mp hc
              by_cases hmain : c.type = .main
              · simp only [hmain, ne_eq, not_true_eq_false, if_false, true_and]
                refine ih c.fromNode (hg c hc).1 (branch ++ [c]) ?_ ?_ ?_ r h
                · exact .snoc (hto.symm ▸ hback) hc
                · rw [List.map_append, List.map_cons, List.map_nil]
                  refine hnodup.append (List.nodup_singleton _)
                    (List.disjoint_singleton.mpr fun hin => hnew ?_)
                  obtain ⟨c', hc', heq⟩ := List.mem_map.mp hin
                  exact ⟨c', hc', heq.trans hto⟩
                · rw [List.length_append, List.length_singleton]
                  omega
              · refine ⟨r, if_pos hmain, (Adds.refl h).congr ?_ ?_⟩ <;> simp [hmain]
            obtain ⟨r', hr', hadds⟩ := exists_foldlM_adds (g.parentConnections current) hstep h
            refine ⟨r', hr', hadds.congr ?_ ?_⟩
            · intro n
              simp only [keeps_new_iff ht hnew]
              grind
            · intro c
              simp only [keeps_new_iff ht hnew]
              grind

/-! ### Walks -/

/-- A main connection that neither leaves the destination nor enters the trigger. -/
def Inner (g : DirectedGraph) (d t : INode) (c : GraphConnection) : Prop :=
  c ∈ g.getConnections ∧ c.type = .main ∧ c.fromNode ≠ d ∧ c.toNode ≠ t

instance (g : DirectedGraph) (d t : INode) (c : GraphConnection) : Decidable (g.Inner d t c) :=
  inferInstanceAs (Decidable (_ ∧ _ ∧ _ ∧ _))

def InnerStep (g : DirectedGraph) (d t u v : INode) : Prop :=
  ∃ c, g.Inner d t c ∧ c.fromNode = u ∧ c.toNode = v

/-- Where a walk may start: in the trigger, or on a cycle. -/
def Root (g : DirectedGraph) (d t x : INode) : Prop :=
  x = t ∨ TransGen (g.InnerStep d t) x x

/-- The node lies on a walk to the destination that starts in the trigger or on a cycle. -/
def OnWalk (g : DirectedGraph) (d t n : INode) : Prop :=
  ∃ x, g.Root d t x ∧ ReflTransGen (g.InnerStep d t) x n ∧ ReflTransGen (g.InnerStep d t) n d

/-- The connection lies on such a walk. -/
def ConnectionOnWalk (g : DirectedGraph) (d t : INode) (c : GraphConnection) : Prop :=
  g.Inner d t c ∧ ∃ x, g.Root d t x ∧ ReflTransGen (g.InnerStep d t) x c.fromNode ∧
    ReflTransGen (g.InnerStep d t) c.toNode d

theorem Inner.step (h : g.Inner d t c) : g.InnerStep d t c.fromNode c.toNode := ⟨c, h, rfl, rfl⟩

theorem not_innerStep_destination : ¬g.InnerStep d t d n := by
  rintro ⟨c, hc, hf, -⟩
  exact hc.2.2.1 hf

/-- A branch is a walk to the destination. -/
private theorem Backward.walk (h : Backward (g.Inner d t) d branch current) :
    ReflTransGen (g.InnerStep d t) current d ∧
      ∀ c ∈ branch, ReflTransGen (g.InnerStep d t) current c.fromNode ∧
        ReflTransGen (g.InnerStep d t) c.toNode d := by
  induction h with
  | nil => exact ⟨.refl, by simp⟩
  | @snoc branch c _ hc ih =>
    refine ⟨.head hc.step ih.1, fun c' hc' => ?_⟩
    rcases List.mem_append.mp hc' with hc' | hc'
    · exact ⟨.head hc.step (ih.2 c' hc').1, (ih.2 c' hc').2⟩
    · rw [List.mem_singleton.mp hc']
      exact ⟨.refl, ih.1⟩

private theorem Backward.eq_of_nil (h : Backward P d branch current) (hnil : branch = []) :
    current = d := by
  rcases h with _ | ⟨-, -⟩
  · rfl
  · exact absurd hnil (List.append_ne_nil_of_right_ne_nil _ (List.cons_ne_nil _ _))

private theorem Backward.exists_toNode_eq (h : Backward P d branch current) (hne : branch ≠ []) :
    ∃ c ∈ branch, c.toNode = d := by
  induction h with
  | nil => exact absurd rfl hne
  | @snoc branch c h _ ih =>
    by_cases hnil : branch = []
    · exact ⟨c, by simp, h.eq_of_nil hnil⟩
    · obtain ⟨c', hc', hto⟩ := ih hnil
      exact ⟨c', List.mem_append_left _ hc', hto⟩

private theorem Backward.ne_destination (h : Backward (g.Inner d t) d branch current)
    (hne : branch ≠ []) : current ≠ d := by
  rcases h with _ | ⟨-, hc⟩
  · exact absurd rfl hne
  · exact hc.2.2.1

/-- A branch that is kept consists of inner connections and ends in a root. -/
private theorem Keeps.backward (hdt : d ≠ t) (h : Keeps g d t current branch full)
    (hback : Backward (g.Inner d t) d branch current) :
    ∃ x, Backward (g.Inner d t) d full x ∧ g.Root d t x := by
  induction h with
  | trigger => exact ⟨t, hback, Or.inl rfl⟩
  | @cycle current branch _ _ hvisited =>
    obtain ⟨c, hc, rfl⟩ := hvisited
    have hstep := (hback.forall_mem c hc).step
    exact ⟨c.toNode, hback, Or.inr (TransGen.tail' (hback.walk.2 c hc).1 hstep)⟩
  | @step current branch full c ht _ hc hto hmain h ih =>
    refine ih (.snoc (hto.symm ▸ hback) ⟨hc, hmain, fun hd => ?_, hto.symm ▸ ht⟩)
    -- at the destination again, with a branch that has visited it
    have hwalk : Backward (fun _ => True) d (branch ++ [c]) c.fromNode :=
      .snoc (hto.symm ▸ hback.mono fun _ _ => trivial) trivial
    have hvisited : ∃ c' ∈ branch ++ [c], c'.toNode = d := hwalk.exists_toNode_eq (by simp)
    rw [hd] at h
    rcases h with _ | ⟨-, hne, -⟩ | ⟨-, hnew, -, -, -, -⟩
    · exact hdt rfl
    · exact hne rfl
    · exact hnew hvisited

/-- At a node that is reached from `x`, the search keeps a branch if it does so at `x`. -/
private theorem exists_keeps_of_reach {x : INode} (h : ReflTransGen (g.InnerStep d t) x current)
    (hback : Backward (g.Inner d t) d branch current)
    (hx : ∀ branch', Backward (g.Inner d t) d branch' x → branch ⊆ branch' →
      ∃ full, Keeps g d t x branch' full ∧ branch' ⊆ full) :
    ∃ full, Keeps g d t current branch full ∧ branch ⊆ full := by
  induction h generalizing branch with
  | refl => exact hx branch hback (List.Subset.refl branch)
  | @tail y v _ hstep ih =>
    obtain ⟨c, hc, rfl, rfl⟩ := hstep
    by_cases hvisited : ∃ c' ∈ branch, c'.toNode = c.toNode
    · have hne : branch ≠ [] := List.ne_nil_of_mem hvisited.choose_spec.1
      exact ⟨branch, .cycle hc.2.2.2 (hback.ne_destination hne) hvisited, List.Subset.refl _⟩
    · obtain ⟨full, hkeeps, hsub⟩ := ih (.snoc hback hc) fun branch' hback' hsub =>
        hx branch' hback' (List.Subset.trans (List.subset_append_left _ _) hsub)
      exact ⟨full, .step hc.2.2.2 hvisited hc.1 rfl hc.2.1 hkeeps,
        List.Subset.trans (List.subset_append_left _ _) hsub⟩

/-- At a root, the search keeps a branch: at once, or after going round the cycle. -/
private theorem exists_keeps_of_root (hroot : g.Root d t current)
    (hback : Backward (g.Inner d t) d branch current) :
    ∃ full, Keeps g d t current branch full ∧ branch ⊆ full := by
  rcases hroot with rfl | hcycle
  · exact ⟨branch, .trigger, List.Subset.refl _⟩
  · obtain ⟨y, hpath, c, hc, rfl, rfl⟩ := TransGen.tail'_iff.mp hcycle
    have hd : c.toNode ≠ d := by
      intro hd
      obtain ⟨z, hstep, -⟩ := TransGen.head'_iff.mp hcycle
      exact not_innerStep_destination (hd ▸ hstep)
    by_cases hvisited : ∃ c' ∈ branch, c'.toNode = c.toNode
    · exact ⟨branch, .cycle hc.2.2.2 hd hvisited, List.Subset.refl _⟩
    · obtain ⟨full, hkeeps, hsub⟩ := exists_keeps_of_reach hpath (.snoc hback hc)
        fun branch' _ hsub => ⟨branch', .cycle hc.2.2.2 hd
          ⟨c, hsub (List.mem_append_right _ (List.mem_singleton.mpr rfl)), rfl⟩,
          List.Subset.refl _⟩
      exact ⟨full, .step hc.2.2.2 hvisited hc.1 rfl hc.2.1 hkeeps,
        List.Subset.trans (List.subset_append_left _ _) hsub⟩

/-- The search gets to every node that reaches the destination, along a simple path. -/
private theorem exists_branch_of_simple_path (l : List INode)
    (hchain : (current :: l).IsChain (g.InnerStep d t)) (hnodup : (current :: l).Nodup)
    (hlast : (current :: l).getLast (List.cons_ne_nil current l) = d) :
    ∃ branch, Backward (g.Inner d t) d branch current ∧ (∀ c ∈ branch, c.toNode ∈ l) ∧
      ∀ full, Keeps g d t current branch full → Keeps g d t d [] full := by
  induction l generalizing current with
  | nil =>
    obtain rfl : current = d := hlast
    exact ⟨[], .nil, by simp, fun full h => h⟩
  | cons v l ih =>
    rw [List.isChain_cons_cons] at hchain
    rw [List.nodup_cons] at hnodup
    obtain ⟨⟨c, hc, rfl, rfl⟩, hchain⟩ := hchain
    obtain ⟨branch, hback, hmem, hkeeps⟩ := ih hchain hnodup.2
      (by rwa [List.getLast_cons (List.cons_ne_nil _ _)] at hlast)
    have hnew : ¬∃ c' ∈ branch, c'.toNode = c.toNode := fun ⟨c', hc', hto⟩ =>
      (List.nodup_cons.mp hnodup.2).1 (hto ▸ hmem c' hc')
    refine ⟨branch ++ [c], .snoc hback hc, fun c' hc' => ?_, fun full h => ?_⟩
    · rcases List.mem_append.mp hc' with hc' | hc'
      · exact List.mem_cons_of_mem _ (hmem c' hc')
      · rw [List.mem_singleton.mp hc']
        exact List.mem_cons_self
    · exact hkeeps full (.step hc.2.2.2 hnew hc.1 rfl hc.2.1 h)

/-- **The connections of the branches that are kept** are those on walks. -/
theorem exists_keeps_mem_iff :
    (∃ full, Keeps g d t d [] full ∧ c ∈ full) ↔ g.ConnectionOnWalk d t c := by
  constructor
  · rintro ⟨full, hkeeps, hc⟩
    by_cases hdt : d = t
    · subst hdt
      rw [keeps_trigger_iff.mp hkeeps] at hc
      exact absurd hc List.not_mem_nil
    · obtain ⟨x, hback, hroot⟩ := hkeeps.backward hdt .nil
      obtain ⟨hfrom, hto⟩ := hback.walk.2 c hc
      exact ⟨hback.forall_mem c hc, x, hroot, hfrom, hto⟩
  · rintro ⟨hc, x, hroot, hfrom, hto⟩
    obtain ⟨l, hchain, hnodup, hlast⟩ := Paths.exists_simple_path hto
    obtain ⟨branch, hback, hmem, hkeeps⟩ := exists_branch_of_simple_path l hchain hnodup hlast
    obtain ⟨full, hfull, hsub⟩ := exists_keeps_of_reach hfrom (.snoc hback hc)
      fun _ hback' _ => exists_keeps_of_root hroot hback'
    have hnew : ¬∃ c' ∈ branch, c'.toNode = c.toNode := fun ⟨c', hc', heq⟩ =>
      (List.nodup_cons.mp hnodup).1 (heq ▸ hmem c' hc')
    exact ⟨full, hkeeps full (.step hc.2.2.2 hnew hc.1 rfl hc.2.1 hfull),
      hsub (List.mem_append_right _ (List.mem_singleton.mpr rfl))⟩

/-- **The nodes of the branches that are kept** are those on walks. -/
theorem exists_keeps_node_iff :
    (∃ full, Keeps g d t d [] full ∧ n ∈ d :: full.map GraphConnection.fromNode) ↔
      g.OnWalk d t n := by
  constructor
  · rintro ⟨full, hkeeps, hn⟩
    by_cases hdt : d = t
    · subst hdt
      rw [keeps_trigger_iff.mp hkeeps] at hn
      rw [List.mem_singleton.mp hn]
      exact ⟨d, Or.inl rfl, .refl, .refl⟩
    · obtain ⟨x, hback, hroot⟩ := hkeeps.backward hdt .nil
      rcases List.mem_cons.mp hn with rfl | hn
      · exact ⟨x, hroot, hback.walk.1, .refl⟩
      · obtain ⟨c, hc, rfl⟩ := List.mem_map.mp hn
        obtain ⟨hfrom, hto⟩ := hback.walk.2 c hc
        exact ⟨x, hroot, hfrom, .head (hback.forall_mem c hc).step hto⟩
  · rintro ⟨x, hroot, hxn, hnd⟩
    -- a connection of the walk next to `n`, if there is one
    rcases ReflTransGen.cases_head hnd with rfl | ⟨m, ⟨c, hc, rfl, rfl⟩, hmd⟩
    · rcases ReflTransGen.cases_tail hxn with rfl | ⟨y, hxy, c, hc, rfl, rfl⟩
      · rcases hroot with rfl | hcycle
        · exact ⟨[], .trigger, List.mem_cons_self⟩
        · obtain ⟨z, hstep, -⟩ := TransGen.head'_iff.mp hcycle
          exact absurd hstep not_innerStep_destination
      · obtain ⟨full, hkeeps, -⟩ := exists_keeps_mem_iff.mpr ⟨hc, x, hroot, hxy, .refl⟩
        exact ⟨full, hkeeps, List.mem_cons_self⟩
    · obtain ⟨full, hkeeps, hmem⟩ := exists_keeps_mem_iff.mpr ⟨hc, x, hroot, hxn, hmd⟩
      exact ⟨full, hkeeps, List.mem_cons_of_mem _ (List.mem_map_of_mem hmem)⟩

/-! ### The result -/

/-- A non-main connection from whose target a node of the main part is reachable, along
connections of any type. -/
def Utility (g : DirectedGraph) (main : INode → Prop) (c : GraphConnection) : Prop :=
  c ∈ g.getConnections ∧ c.type ≠ .main ∧ ∃ n, main n ∧ ReflTransGen g.Step c.toNode n

/-- The second loop adds the non-main connections that lead to a node, with their ends. -/
private theorem exists_addUtilities_eq_ok (hg : g.Closed) (hn : n ∈ g.getNodes)
    (h : SubgraphOf g r) : ∃ r', g.addUtilities r n = .ok r' ∧
      Adds g r r'
        (fun m => ∃ c, (c ∈ g.getConnections ∧ c.type ≠ .main ∧ ReflTransGen g.Step c.toNode n) ∧
          (m = c.fromNode ∨ m = c.toNode))
        fun c => c ∈ g.getConnections ∧ c.type ≠ .main ∧ ReflTransGen g.Step c.toNode n := by
  obtain ⟨parents, hparents, hmem⟩ := exists_getParentConnections_eq_ok hg hn
  have hstep : ∀ r, ∀ c ∈ parents.elements, SubgraphOf g r → ∃ r',
      (if c.type = .main then .ok r else r.addWithNodes c) = .ok r' ∧
      Adds g r r' (fun m => c.type ≠ .main ∧ (m = c.fromNode ∨ m = c.toNode))
        fun c' => c.type ≠ .main ∧ c' = c := by
    intro r c hc h
    by_cases hmain : c.type = .main
    · exact ⟨r, if_pos hmain, (Adds.refl h).congr (by simp [hmain]) (by simp [hmain])⟩
    · obtain ⟨r', hr', hadds⟩ := exists_addWithNodes_eq_ok hg h ((hmem c).mp hc).1
      exact ⟨r', (if_neg hmain).trans hr', hadds.congr (by simp [hmain]) (by simp [hmain])⟩
  obtain ⟨r', hr', hadds⟩ := exists_foldlM_adds parents.elements hstep h
  refine ⟨r', ?_, hadds.congr (fun m => ?_) fun c => ?_⟩
  · rw [addUtilities, hparents]
    exact hr'
  · simp only [← InsertionSet.mem_def, hmem]
    exact exists_congr fun c => by tauto
  · simp only [← InsertionSet.mem_def, hmem]
    constructor
    · rintro ⟨c', ⟨hc', hpath⟩, hmain, rfl⟩
      exact ⟨hc', hmain, hpath⟩
    · rintro ⟨hc, hmain, hpath⟩
      exact ⟨c, ⟨hc, hpath⟩, hmain, rfl⟩

/-- **What `findSubgraph` returns, exactly.** In a closed graph that contains the destination
it returns. The main part of the result consists of the nodes and connections on the main
walks that end in the destination and visit it only there, do not come back to the trigger,
and start in the trigger or on a cycle. The rest are the non-main connections, with their
ends, from whose target a node of the main part is reachable. -/
theorem findSubgraph_spec (g : DirectedGraph) (destination trigger : INode) (hg : g.Closed)
    (hd : destination ∈ g.getNodes) : ∃ r, g.findSubgraph destination trigger = .ok r ∧
      (∀ c, c ∈ r.getConnections ↔
        g.ConnectionOnWalk destination trigger c ∨ g.Utility (g.OnWalk destination trigger) c) ∧
      ∀ n, n ∈ r.getNodes ↔ g.OnWalk destination trigger n ∨
        ∃ c, g.Utility (g.OnWalk destination trigger) c ∧ (n = c.fromNode ∨ n = c.toNode) := by
  have hempty : SubgraphOf g empty := ⟨fun n hn => absurd hn List.not_mem_nil,
    fun c hc => absurd hc List.not_mem_nil⟩
  obtain ⟨r₁, hr₁, hadds₁⟩ := exists_findSubgraphRecursive_eq_ok (t := trigger) hg
    (g.getNodes.length + 1) destination hd [] .nil List.nodup_nil (by simp) empty hempty
  -- the first loop: what the search from the destination keeps
  have hmain := hadds₁.congr (fun n => exists_keeps_node_iff) fun c => exists_keeps_mem_iff
  -- the second loop: what leads to the nodes of the first one by non-main connections
  have hstep : ∀ r, ∀ n ∈ r₁.getNodes, SubgraphOf g r → ∃ r', g.addUtilities r n = .ok r' ∧
      Adds g r r' _ _ := fun r n hn h =>
    exists_addUtilities_eq_ok hg (hadds₁.subgraphOf.nodes n hn) h
  obtain ⟨r, hr, hadds⟩ := exists_foldlM_adds r₁.getNodes hstep hadds₁.subgraphOf
  have hnode : ∀ n, n ∈ r₁.getNodes ↔ g.OnWalk destination trigger n := fun n => by
    rw [hmain.nodes]
    exact or_iff_right List.not_mem_nil
  have hutility : ∀ c, (∃ n ∈ r₁.getNodes, c ∈ g.getConnections ∧ c.type ≠ .main ∧
      ReflTransGen g.Step c.toNode n) ↔ g.Utility (g.OnWalk destination trigger) c := fun c => by
    simp only [hnode, Utility]
    exact ⟨fun ⟨n, hn, hc, hne, hpath⟩ => ⟨hc, hne, n, hn, hpath⟩,
      fun ⟨hc, hne, n, hn, hpath⟩ => ⟨n, hn, hc, hne, hpath⟩⟩
  refine ⟨r, ?_, fun c => ?_, fun n => ?_⟩
  · rw [findSubgraph, hr₁]
    exact hr
  · rw [hadds.connections, hmain.connections, hutility]
    exact or_congr_left (or_iff_right List.not_mem_nil)
  · rw [hadds.nodes, hnode]
    refine or_congr_right ?_
    constructor
    · rintro ⟨m, hm, c, hc, hends⟩
      exact ⟨c, (hutility c).mp ⟨m, hm, hc⟩, hends⟩
    · rintro ⟨c, hc, hends⟩
      obtain ⟨m, hm, hc⟩ := (hutility c).mpr hc
      exact ⟨m, hm, c, hc, hends⟩

/-! ### What leads from the trigger -/

/-- The node lies on a walk from the trigger to the destination. -/
def FromTrigger (g : DirectedGraph) (d t n : INode) : Prop :=
  ReflTransGen (g.InnerStep d t) t n ∧ ReflTransGen (g.InnerStep d t) n d

/-- The connection lies on such a walk, or is that of a utility. -/
def LeadsOn (g : DirectedGraph) (d t : INode) (c : GraphConnection) : Prop :=
  (g.Inner d t c ∧ ReflTransGen (g.InnerStep d t) t c.fromNode ∧
    ReflTransGen (g.InnerStep d t) c.toNode d) ∨ g.Utility (g.FromTrigger d t) c

/-- The node lies on such a walk, or is that of a utility. -/
def NodeLeadsOn (g : DirectedGraph) (d t n : INode) : Prop :=
  g.FromTrigger d t n ∨ ∃ c, g.Utility (g.FromTrigger d t) c ∧ (n = c.fromNode ∨ n = c.toNode)

/-- The trigger reaches the cycles that lead to the destination. -/
def CyclesReached (g : DirectedGraph) (d t : INode) : Prop :=
  ∀ x, TransGen (g.InnerStep d t) x x → ReflTransGen (g.InnerStep d t) x d →
    ReflTransGen (g.InnerStep d t) t x

theorem FromTrigger.onWalk (h : g.FromTrigger d t n) : g.OnWalk d t n :=
  ⟨t, Or.inl rfl, h.1, h.2⟩

/-- A root from which the destination can be reached. -/
private theorem CyclesReached.root (h : g.CyclesReached d t) {x : INode} (hroot : g.Root d t x)
    (hd : ReflTransGen (g.InnerStep d t) x d) : ReflTransGen (g.InnerStep d t) t x := by
  rcases hroot with rfl | hcycle
  · exact .refl
  · exact h x hcycle hd

theorem CyclesReached.fromTrigger (h : g.CyclesReached d t) (hn : g.OnWalk d t n) :
    g.FromTrigger d t n := by
  obtain ⟨x, hroot, hxn, hnd⟩ := hn
  exact ⟨(h.root hroot (hxn.trans hnd)).trans hxn, hnd⟩

theorem Utility.mono {main main' : INode → Prop} (hmain : ∀ n, main n → main' n)
    (h : g.Utility main c) : g.Utility main' c := by
  obtain ⟨hc, htype, n, hn, hpath⟩ := h
  exact ⟨hc, htype, n, hmain n hn, hpath⟩

/-- **What leads from the trigger to the destination** is part of the result, and nothing else is if
the trigger reaches the cycles upstream of the destination. -/
theorem findSubgraph_exact (g : DirectedGraph) (destination trigger : INode) (hg : g.Closed)
    (hd : destination ∈ g.getNodes) : ∃ r, g.findSubgraph destination trigger = .ok r ∧
      (∀ c, g.LeadsOn destination trigger c → c ∈ r.getConnections) ∧
      (∀ n, g.NodeLeadsOn destination trigger n → n ∈ r.getNodes) ∧
      (g.CyclesReached destination trigger →
        (∀ c ∈ r.getConnections, g.LeadsOn destination trigger c) ∧
          ∀ n ∈ r.getNodes, g.NodeLeadsOn destination trigger n) := by
  obtain ⟨r, hr, hconnections, hnodes⟩ := findSubgraph_spec g destination trigger hg hd
  refine ⟨r, hr, fun c hc => ?_, fun n hn => ?_, fun hcycles => ⟨fun c hc => ?_, fun n hn => ?_⟩⟩
  · rw [hconnections]
    exact hc.imp (fun ⟨hinner, hfrom, hto⟩ => ⟨hinner, trigger, Or.inl rfl, hfrom, hto⟩)
      (Utility.mono fun _ => FromTrigger.onWalk)
  · rw [hnodes]
    exact hn.imp FromTrigger.onWalk
      fun ⟨c, hc, hends⟩ => ⟨c, hc.mono fun _ => FromTrigger.onWalk, hends⟩
  · rcases (hconnections c).mp hc with ⟨hinner, x, hroot, hfrom, hto⟩ | hutility
    · exact Or.inl ⟨hinner, (hcycles.root hroot (hfrom.trans (.head hinner.step hto))).trans hfrom,
        hto⟩
    · exact Or.inr (hutility.mono fun _ => hcycles.fromTrigger)
  · rcases (hnodes n).mp hn with hwalk | ⟨c, hc, hends⟩
    · exact Or.inl (hcycles.fromTrigger hwalk)
    · exact Or.inr ⟨c, hc.mono fun _ => hcycles.fromTrigger, hends⟩

/-- The trigger leads to the destination and to a node that leads back to it, and a model is
connected to the destination. -/
def returningGraph : DirectedGraph :=
  let node (name : String) : INode := { name }
  [(node "trigger", node "destination", NodeConnectionType.main),
    (node "trigger", node "again", .main), (node "again", node "trigger", .main),
    (node "model", node "destination", .aiLanguageModel)].foldl
    (fun g c => g.setConnection { fromNode := c.1, toNode := c.2.1, type := c.2.2 })
    (empty.addNodes (["trigger", "again", "model", "destination"].map node))

/-- No cycle is left without the trigger. -/
private theorem cyclesReached_returningGraph :
    returningGraph.CyclesReached { name := "destination" } { name := "trigger" } := by
  intro x hcycle _
  obtain ⟨y, ⟨c, hc, rfl, rfl⟩, -⟩ := TransGen.head'_iff.mp hcycle
  have hfrom : ∀ c ∈ returningGraph.getConnections,
      returningGraph.Inner { name := "destination" } { name := "trigger" } c →
        c.fromNode = { name := "trigger" } := by decide
  rw [hfrom c hc.1 hc]

theorem findSubgraph_returningGraph :
    ∃ r, returningGraph.findSubgraph { name := "destination" } { name := "trigger" } = .ok r ∧
      ({ name := "trigger" } : INode) ∈ r.getNodes ∧
      ∀ n ∈ r.getNodes, returningGraph.NodeLeadsOn { name := "destination" } { name := "trigger" }
        n := by
  obtain ⟨r, hr, -, hnodes, hexact⟩ := findSubgraph_exact returningGraph { name := "destination" }
    { name := "trigger" } (by decide) (by decide)
  have hstep : returningGraph.InnerStep { name := "destination" } { name := "trigger" }
      { name := "trigger" } { name := "destination" } :=
    ⟨{ fromNode := { name := "trigger" }, toNode := { name := "destination" } }, by decide⟩
  exact ⟨r, hr, hnodes _ (Or.inl ⟨.refl, .single hstep⟩),
    (hexact cyclesReached_returningGraph).2⟩

/-- The node behind the trigger lies on a walk that visits the destination at its end only, but the
walk comes back to the trigger, and the node is not part of the result. -/
theorem findSubgraph_returningGraph_again :
    (∃ r, returningGraph.findSubgraph { name := "destination" } { name := "trigger" } = .ok r ∧
      ({ name := "again" } : INode) ∉ r.getNodes) ∧
    returningGraph.MainStep { name := "trigger" } { name := "again" } ∧
    returningGraph.MainStep { name := "again" } { name := "trigger" } ∧
    returningGraph.MainStep { name := "trigger" } { name := "destination" } := by
  decide

end DirectedGraph

end N8n
