import N8n.Foundations.Contraction
import N8n.PartialExecution.DirectedGraph

/-!
# Removing the disabled nodes

`filterDisabledNodes` removes the disabled nodes of a copy of the graph one after the
other, and each time connects the parents of the removed node to its children. On the main
connections this is the elimination of a vertex (`Eliminated.mainStep`), as long as no two
of the connections that it sees or makes share a key. So reachability among the enabled
nodes is preserved, and the result is a graph without dangling connections, unless the
disabled nodes have a cycle among themselves: then the connections of the last node of the
cycle are rewired to that node itself, and stay when it is removed.
-/

namespace N8n

namespace DirectedGraph

open Contraction

/-- One iteration of `filterDisabledNodes`. -/
def filterNode (filteredGraph : DirectedGraph) (node : INode) :
    Except GraphError DirectedGraph :=
  if node.isDisabled then
    Prod.fst <$> filteredGraph.removeNode node
      { reconnectConnections := true, skipConnectionFn := fun c => c.type ≠ .main }
  else .ok filteredGraph

def filterDisabledNodes (graph : DirectedGraph) : Except GraphError DirectedGraph := do
  let filteredGraph ← graph.clone
  filteredGraph.getNodes.foldlM filterNode filteredGraph

/-- The connections that `filterDisabledNodes` sees or makes: those of the graph, and the
joins of two main connections that meet in a disabled node. -/
inductive Bypass (g : DirectedGraph) : GraphConnection → Prop
  | own {c : GraphConnection} (h : c ∈ g.getConnections) : Bypass g c
  | join {i o : GraphConnection} (hi : Bypass g i) (ho : Bypass g o) (him : i.type = .main)
      (hom : o.type = .main) (hd : i.toNode.isDisabled = true) (h : o.fromNode = i.toNode) :
      Bypass g (rewire i o)

/-- The keys of these connections are distinct. -/
def KeysDistinguish (g : DirectedGraph) : Prop := Set.InjOn makeKey {c | Bypass g c}

variable {g₀ g r : DirectedGraph} {d : INode} {c : GraphConnection}

theorem Bypass.ends_mem (hg : g.Closed) (h : Bypass g c) :
    c.fromNode ∈ g.getNodes ∧ c.toNode ∈ g.getNodes := by
  induction h with
  | own h => exact hg _ h
  | join _ _ _ _ _ _ ihi iho => exact ⟨ihi.1, iho.2⟩

/-- Names without dashes are enough for that. -/
theorem keysDistinguish_of_dashless (hg : g.Closed)
    (hnames : ∀ n ∈ g.getNodes, '-' ∉ n.name.toList) : g.KeysDistinguish := by
  intro c hc c' hc' h
  obtain ⟨hf, ht⟩ := Bypass.ends_mem hg hc
  obtain ⟨hf', ht'⟩ := Bypass.ends_mem hg hc'
  obtain ⟨hfrom, htype, hout, hin, hto⟩ :=
    makeKey_inj_of_dashless (hnames _ hf) (hnames _ hf') h
  obtain ⟨f, t, type, o, i⟩ := c
  obtain ⟨f', t', type', o', i'⟩ := c'
  simp only [GraphConnection.mk.injEq]
  exact ⟨eq_of_name_eq hf hf' hfrom, eq_of_name_eq ht ht' hto, htype, hout, hin⟩

/-! ### One node -/

/-- The graph that is left when `d` has been removed and its main connections rewired. -/
def withoutNode (g : DirectedGraph) (d : INode) : DirectedGraph :=
  ((rewiredConnections (fun c => c.type ≠ .main) (g.parentConnections d)
    (g.childConnections d)).foldl setConnection (g.deleteConnections d)).deleteNode d

theorem filterNode_of_disabled (hd : d.isDisabled = true) (hmem : d ∈ g.getNodes) :
    filterNode g d = .ok (g.withoutNode d) := by
  rw [filterNode, if_pos hd, removeNode, if_pos rfl, getDirectParentConnections_of_mem hmem,
    getDirectChildConnections_of_mem hmem]
  rfl

/-- What the connections are after the removal of one node. -/
theorem mem_getConnections_withoutNode (hkeys : g₀.KeysDistinguish)
    (hg : ∀ c ∈ g.getConnections, Bypass g₀ c) (hd : d.isDisabled = true) :
    c ∈ (g.withoutNode d).getConnections ↔
      (∃ i ∈ g.getConnections, i.toNode = d ∧ i.type = .main ∧
        ∃ o ∈ g.getConnections, o.fromNode = d ∧ o.type = .main ∧ rewire i o = c) ∨
      (c ∈ g.getConnections ∧ c.fromNode ≠ d ∧ c.toNode ≠ d) := by
  have hnew : ∀ c, c ∈ rewiredConnections (fun c => c.type ≠ .main) (g.parentConnections d)
      (g.childConnections d) ↔ ∃ i ∈ g.getConnections, i.toNode = d ∧ i.type = .main ∧
        ∃ o ∈ g.getConnections, o.fromNode = d ∧ o.type = .main ∧ rewire i o = c := by
    intro c
    simp [mem_rewiredConnections, mem_parentConnections, mem_childConnections, and_assoc]
  rw [withoutNode, getConnections_deleteNode, mem_getConnections_foldl_setConnection hkeys, hnew,
    mem_getConnections_deleteConnections]
  · intro c hc
    obtain ⟨i, hi, hid, him, o, ho, hod, hom, rfl⟩ := (hnew c).mp hc
    exact .join (hg i hi) (hg o ho) him hom (hid ▸ hd) (hod.trans hid.symm)
  · intro c hc
    exact hg c (mem_getConnections_deleteConnections.mp hc).1

/-- `r` is what is left of `g` when the nodes `ds` are eliminated. -/
structure Eliminated (g : DirectedGraph) (ds : List INode) (r : DirectedGraph) : Prop where
  nodes : ∀ n, n ∈ r.getNodes ↔ n ∈ g.getNodes ∧ n ∉ ds
  mainStep : r.MainStep = contractAll g.MainStep ds
  other : ∀ c ∈ r.getConnections, c.type ≠ .main →
    c ∈ g.getConnections ∧ c.fromNode ∉ ds ∧ c.toNode ∉ ds

theorem Eliminated.refl (g : DirectedGraph) : Eliminated g [] g where
  nodes := by simp
  mainStep := rfl
  other := by simp_all

theorem Eliminated.cons {ds : List INode} {g' : DirectedGraph} (h : Eliminated g [d] g')
    (h' : Eliminated g' ds r) : Eliminated g (d :: ds) r where
  nodes := by
    intro n
    rw [h'.nodes, h.nodes, List.mem_singleton, List.mem_cons, not_or, and_assoc]
  mainStep := by
    rw [h'.mainStep, h.mainStep]
    rfl
  other := by
    intro c hc hmain
    obtain ⟨hc', hf', ht'⟩ := h'.other c hc hmain
    obtain ⟨hc, hf, ht⟩ := h.other c hc' hmain
    rw [List.mem_singleton] at hf ht
    exact ⟨hc, List.not_mem_cons_of_ne_of_not_mem hf hf',
      List.not_mem_cons_of_ne_of_not_mem ht ht'⟩

/-- **Step lemma**: removing a disabled node eliminates it. -/
theorem eliminated_withoutNode (hkeys : g₀.KeysDistinguish)
    (hg : ∀ c ∈ g.getConnections, Bypass g₀ c) (hd : d.isDisabled = true)
    (hmem : d ∈ g.getNodes) : Eliminated g [d] (g.withoutNode d) where
  nodes := by
    intro n
    rw [withoutNode, mem_getNodes_deleteNode, getNodes_foldl_setConnection,
      getNodes_deleteConnections, List.mem_singleton]
    refine and_congr_right fun hn => not_congr ⟨fun h => eq_of_name_eq hn hmem h, ?_⟩
    exact congrArg INode.name
  mainStep := by
    funext u v
    refine propext ?_
    constructor
    · rintro ⟨c, hc, hmain, rfl, rfl⟩
      rcases (mem_getConnections_withoutNode hkeys hg hd).mp hc with
        ⟨i, hi, hid, him, o, ho, hod, hom, rfl⟩ | ⟨hc, hf, ht⟩
      · exact Or.inr ⟨⟨i, hi, him, rfl, hid⟩, ⟨o, ho, hom, hod, rfl⟩⟩
      · exact Or.inl ⟨hf, ht, c, hc, hmain, rfl, rfl⟩
    · rintro (⟨hu, hv, c, hc, hmain, rfl, rfl⟩ |
        ⟨⟨i, hi, him, rfl, hid⟩, ⟨o, ho, hom, hod, rfl⟩⟩)
      · exact ⟨c, (mem_getConnections_withoutNode hkeys hg hd).mpr (Or.inr ⟨hc, hu, hv⟩), hmain,
          rfl, rfl⟩
      · exact ⟨rewire i o, (mem_getConnections_withoutNode hkeys hg hd).mpr
          (Or.inl ⟨i, hi, hid, him, o, ho, hod, hom, rfl⟩), him, rfl, rfl⟩
  other := by
    intro c hc hmain
    rcases (mem_getConnections_withoutNode hkeys hg hd).mp hc with
      ⟨i, -, -, him, o, -, -, -, rfl⟩ | ⟨hc, hf, ht⟩
    · exact absurd him hmain
    · exact ⟨hc, mt List.mem_singleton.mp hf, mt List.mem_singleton.mp ht⟩

theorem bypass_withoutNode (hkeys : g₀.KeysDistinguish)
    (hg : ∀ c ∈ g.getConnections, Bypass g₀ c) (hd : d.isDisabled = true) :
    ∀ c ∈ (g.withoutNode d).getConnections, Bypass g₀ c := by
  intro c hc
  rcases (mem_getConnections_withoutNode hkeys hg hd).mp hc with
    ⟨i, hi, hid, him, o, ho, hod, hom, rfl⟩ | ⟨hc, -, -⟩
  · exact .join (hg i hi) (hg o ho) him hom (hid ▸ hd) (hod.trans hid.symm)
  · exact hg c hc

/-! ### All nodes -/

/-- **Run lemma**: the loop over the nodes eliminates the disabled ones among them. -/
theorem eliminated_foldlM (hkeys : g₀.KeysDistinguish) (nodes : List INode)
    (hnodes : nodes.Nodup) (g : DirectedGraph) (hmem : ∀ n ∈ nodes, n ∈ g.getNodes)
    (hg : ∀ c ∈ g.getConnections, Bypass g₀ c) :
    ∃ r, nodes.foldlM filterNode g = .ok r ∧
      Eliminated g (nodes.filter INode.isDisabled) r ∧
      ∀ c ∈ r.getConnections, Bypass g₀ c := by
  induction nodes generalizing g with
  | nil => exact ⟨g, rfl, .refl g, hg⟩
  | cons n nodes ih =>
    rw [List.nodup_cons] at hnodes
    have hn := hmem n List.mem_cons_self
    rw [List.foldlM_cons]
    by_cases hd : n.isDisabled = true
    · rw [filterNode_of_disabled hd hn, List.filter_cons_of_pos hd]
      have helim := eliminated_withoutNode hkeys hg hd hn
      obtain ⟨r, hr, hrest, hby⟩ := ih hnodes.2 (g.withoutNode n) (fun m hm =>
        (helim.nodes m).mpr ⟨hmem m (List.mem_cons_of_mem _ hm),
          fun h => hnodes.1 (List.mem_singleton.mp h ▸ hm)⟩) (bypass_withoutNode hkeys hg hd)
      exact ⟨r, hr, helim.cons hrest, hby⟩
    · rw [filterNode, if_neg hd, List.filter_cons_of_neg hd]
      exact ih hnodes.2 g (fun m hm => hmem m (List.mem_cons_of_mem _ hm)) hg

/-- `filterDisabledNodes` eliminates the disabled nodes of a closed graph. -/
theorem filterDisabledNodes_of_closed (hkeys : g.KeysDistinguish) (hg : g.Closed) :
    ∃ r, g.filterDisabledNodes = .ok r ∧
      Eliminated g (g.getNodes.filter INode.isDisabled) r ∧
      ∀ c ∈ r.getConnections, Bypass g c := by
  obtain ⟨r, hr, helim, hby⟩ := eliminated_foldlM hkeys g.getNodes g.getNodes_nodup g
    (fun n hn => hn) (fun c hc => .own hc)
  refine ⟨r, ?_, helim, hby⟩
  rw [filterDisabledNodes, clone_of_closed hg]
  exact hr

/-- The claim of `filterDisabledNodes`: no disabled node is left, no connection dangles, and
the enabled nodes reach each other along main connections as before. -/
def RemovesDisabledNodes (g : DirectedGraph) : Prop :=
  ∃ r, g.filterDisabledNodes = .ok r ∧
    (∀ n ∈ r.getNodes, n.isDisabled = false) ∧ r.Closed ∧
    ∀ u ∈ g.getNodes, ∀ v ∈ g.getNodes, u.isDisabled = false → v.isDisabled = false →
      (r.MainReachable u v ↔ g.MainReachable u v)

/-- A cycle of main connections through disabled nodes only. -/
def HasDisabledCycle (g : DirectedGraph) : Prop :=
  HasCycleIn g.MainStep fun n => n ∈ g.getNodes ∧ n.isDisabled = true

private theorem mem_disabled_iff {n : INode} :
    n ∈ g.getNodes.filter INode.isDisabled ↔ n ∈ g.getNodes ∧ n.isDisabled = true :=
  List.mem_filter

private theorem removesDisabledNodes_of_not_hasDisabledCycle (hkeys : g.KeysDistinguish)
    (hg : g.Closed) (hcycle : ¬g.HasDisabledCycle) : g.RemovesDisabledNodes := by
  obtain ⟨r, hr, helim, hby⟩ := filterDisabledNodes_of_closed hkeys hg
  refine ⟨r, hr, fun n hn => ?_, fun c hc => ?_, fun u hu v hv hue hve => ?_⟩
  · obtain ⟨hn, hd⟩ := (helim.nodes n).mp hn
    exact Bool.eq_false_iff.mpr fun h => hd (mem_disabled_iff.mpr ⟨hn, h⟩)
  · obtain ⟨hf, ht⟩ := (hby c hc).ends_mem hg
    rw [helim.nodes, helim.nodes]
    by_cases hmain : c.type = .main
    · have hstep : r.MainStep c.fromNode c.toNode := ⟨c, hc, hmain, rfl, rfl⟩
      rw [helim.mainStep] at hstep
      have hav := avoids_contractAll (fun d hd => mem_disabled_iff.mp hd) hcycle hstep
      exact ⟨⟨hf, hav.1⟩, ⟨ht, hav.2⟩⟩
    · obtain ⟨-, hf', ht'⟩ := helim.other c hc hmain
      exact ⟨⟨hf, hf'⟩, ⟨ht, ht'⟩⟩
  · have henabled : ∀ n : INode, n.isDisabled = false → n ∉ g.getNodes.filter INode.isDisabled :=
      fun n hn h => by simp [hn] at h
    rw [MainReachable, helim.mainStep]
    exact reflTransGen_contractAll_iff (henabled u hue) (henabled v hve)

private theorem not_hasDisabledCycle_of_removesDisabledNodes (hkeys : g.KeysDistinguish)
    (h : g.RemovesDisabledNodes) : g.Closed ∧ ¬g.HasDisabledCycle := by
  obtain ⟨r, hr, henabled, hclosed, -⟩ := h
  have hg : g.Closed := by
    rw [filterDisabledNodes] at hr
    rcases hc : g.clone with e | g'
    · rw [hc] at hr
      cases hr
    · exact closed_of_clone hc
  refine ⟨hg, fun hcycle => ?_⟩
  obtain ⟨r', hr', helim, -⟩ := filterDisabledNodes_of_closed hkeys hg
  rw [hr] at hr'
  obtain rfl := Except.ok.inj hr'
  -- the cycle is still there, on nodes that are gone
  have hleft := (hasCycleIn_contractAll_iff fun d hd => mem_disabled_iff.mp hd).mpr hcycle
  rw [← helim.mainStep] at hleft
  obtain ⟨x, hx⟩ := hleft
  obtain ⟨y, ⟨hxd, -, c, hc, -, rfl, rfl⟩, -⟩ := Relation.TransGen.head'_iff.mp hx
  have hfalse := henabled _ (hclosed c hc).1
  rw [hxd.2] at hfalse
  cases hfalse

/-- A trigger, a disabled node behind it and a destination behind that. -/
def chainGraph : DirectedGraph :=
  let trigger : INode := { name := "trigger" }
  let disabled : INode := { name := "disabled", disabled := true }
  let destination : INode := { name := "destination" }
  ((empty.addNodes [trigger, disabled, destination]).setConnection
    { fromNode := trigger, toNode := disabled }).setConnection
    { fromNode := disabled, toNode := destination }

/-- The same with a second output of the disabled node connected to the node itself. -/
def loopGraph : DirectedGraph :=
  let disabled : INode := { name := "disabled", disabled := true }
  chainGraph.setConnection { fromNode := disabled, toNode := disabled, outputIndex := 1 }

end DirectedGraph

end N8n
