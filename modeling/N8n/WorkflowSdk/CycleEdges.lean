import N8n.Foundations.FinishOrder
import N8n.WorkflowSdk.GraphAnnotator

/-!
# The edges that close a cycle

The search of `detectCycles` has the ancestors of a node on its way, and finishes a node after what
it leads to, apart from ancestors and itself. So without the recorded edges the graph has no cycle
but loops, and a recorded edge is on a cycle. A loop is never recorded: when the edges of a node are
followed it is not among its own ancestors.
-/

namespace N8n

namespace WorkflowSdk

open Relation SemanticNodes FinishOrder

/-! ### The property -/

def SemanticNodes.IsCycleTarget (nodes : SemanticNodes) (name : String) : Prop :=
  ∃ node, nodes.get? name = some node ∧ node.annotations.isCycleTarget = true

namespace SemanticGraph

/-- An edge that is recorded in `cycleEdges`. -/
def IsCycleEdge (graph : SemanticGraph) (source target : String) : Prop :=
  ∃ edges, graph.cycleEdges.get? source = some edges ∧ target ∈ edges

/-- The cycles of a graph are found. -/
structure CyclesFound (graph annotated : SemanticGraph) : Prop where
  acyclic : ∀ name, ¬ TransGen
    (fun a b => Leads graph.nodes a b ∧ ¬ annotated.IsCycleEdge a b) name name
  onCycle : ∀ a b, annotated.IsCycleEdge a b →
    Leads graph.nodes a b ∧ ReflTransGen (Leads graph.nodes) b a
  target : ∀ name, annotated.nodes.IsCycleTarget name ↔ ∃ a, annotated.IsCycleEdge a name

/-- A graph without annotations of cycles. -/
structure Unannotated (graph : SemanticGraph) : Prop where
  cycleEdges : graph.cycleEdges = .empty
  cycleTarget : ∀ name, ¬ graph.nodes.IsCycleTarget name

end SemanticGraph

open SemanticGraph

/-! ### Marks -/

section Marks

variable {nodes nodes' : SemanticNodes}

/-- Marks change no edge. -/
structure SameEdges (nodes nodes' : SemanticNodes) : Prop where
  keys : nodes'.keys = nodes.keys
  targets : ∀ name, outputTargets nodes' name = outputTargets nodes name

theorem SameEdges.refl (nodes : SemanticNodes) : SameEdges nodes nodes := ⟨rfl, fun _ => rfl⟩

theorem SameEdges.trans {nodes'' : SemanticNodes} (h : SameEdges nodes nodes')
    (h' : SameEdges nodes' nodes'') : SameEdges nodes nodes'' :=
  ⟨h'.keys.trans h.keys, fun name => (h'.targets name).trans (h.targets name)⟩

/-- A node is replaced by one with the same outputs. -/
theorem sameEdges_set {name : String} {node node' : SemanticNode}
    (hget : nodes.get? name = some node) (houtputs : node'.outputs = node.outputs) :
    SameEdges nodes (nodes.set name node') := by
  have hmem := InsertionMap.mem_keys.mpr ⟨_, InsertionMap.get?_eq_some_iff.mp hget⟩
  refine ⟨InsertionMap.keys_set_of_mem hmem _, fun name' => ?_⟩
  simp only [outputTargets, InsertionMap.get?_set]
  by_cases heq : name' = name
  · subst heq
    simp only [if_true, hget, houtputs]
  · simp only [if_neg heq]

end Marks

namespace CycleSearch

variable {graph : SemanticGraph} {search : CycleSearch} {ancestors : InsertionSet String}
  {nodeName : String}

/-! ### Recorded edges -/

/-- What a mark does to the nodes. -/
theorem sameEdges_markCycleTarget (nodes : SemanticNodes) (target : String) :
    SameEdges nodes (markCycleTarget nodes target) := by
  unfold markCycleTarget
  cases hget : nodes.get? target with
  | none => exact .refl nodes
  | some targetNode => exact sameEdges_set hget rfl

theorem isCycleTarget_recordCycleEdge (search : CycleSearch) (nodeName target name : String) :
    (search.recordCycleEdge nodeName target).graph.nodes.IsCycleTarget name ↔
      search.graph.nodes.IsCycleTarget name ∨ name = target ∧ target ∈ search.graph.nodes.keys := by
  simp only [recordCycleEdge, SemanticNodes.IsCycleTarget, markCycleTarget]
  cases hget : search.graph.nodes.get? target with
  | none =>
    have hnot := InsertionMap.get?_eq_none_iff.mp hget
    simp [hnot]
  | some targetNode =>
    have hmem := InsertionMap.mem_keys.mpr ⟨_, InsertionMap.get?_eq_some_iff.mp hget⟩
    simp only [InsertionMap.get?_set]
    by_cases heq : name = target
    · subst heq
      simp [hmem]
    · simp [heq]

theorem isCycleEdge_recordCycleEdge (search : CycleSearch) (nodeName target a b : String) :
    (search.recordCycleEdge nodeName target).graph.IsCycleEdge a b ↔
      search.graph.IsCycleEdge a b ∨ a = nodeName ∧ b = target := by
  simp only [recordCycleEdge, IsCycleEdge, InsertionMap.get?_set]
  by_cases heq : a = nodeName
  · subst heq
    cases hget : search.graph.cycleEdges.get? a with
    | none => simp
    | some edges => simp
  · simp [heq]

/-! ### The invariant -/

/-- The search is at a node with some ancestors. -/
structure Inv (graph : SemanticGraph) (search : CycleSearch) (ancestors : InsertionSet String) :
    Prop where
  edges : SameEdges graph.nodes search.graph.nodes
  visiting : ∀ name, name ∈ search.visiting ↔ name ∈ ancestors
  disjoint : ∀ name ∈ ancestors, name ∉ search.visited
  finished : Finished (Leads graph.nodes) search.graph.IsCycleEdge search.visited.elements.reverse
  onCycle : ∀ a b, search.graph.IsCycleEdge a b →
    Leads graph.nodes a b ∧ ReflTransGen (Leads graph.nodes) b a
  target : ∀ name, search.graph.nodes.IsCycleTarget name ↔ ∃ a, search.graph.IsCycleEdge a name
  loopFree : ∀ a, ¬ search.graph.IsCycleEdge a a

/-- What one part of the search leaves to the next. -/
structure Continues (search search' : CycleSearch) : Prop where
  visited : ∀ name ∈ search.visited, name ∈ search'.visited
  cycleEdges : ∀ a b, search.graph.IsCycleEdge a b → search'.graph.IsCycleEdge a b

theorem Continues.refl (search : CycleSearch) : Continues search search :=
  ⟨fun _ hmem => hmem, fun _ _ hedge => hedge⟩

theorem Continues.trans {search' search'' : CycleSearch} (h : Continues search search')
    (h' : Continues search' search'') : Continues search search'' :=
  ⟨fun name hmem => h'.visited name (h.visited name hmem),
    fun a b hedge => h'.cycleEdges a b (h.cycleEdges a b hedge)⟩

/-- An edge to an ancestor is recorded. -/
theorem Inv.recordCycleEdge (h : Inv graph search ancestors) {target : String}
    (hleads : Leads graph.nodes nodeName target)
    (hback : ReflTransGen (Leads graph.nodes) target nodeName)
    (htarget : target ∈ graph.nodes.keys) (hne : target ≠ nodeName) :
    Inv graph (search.recordCycleEdge nodeName target) ancestors ∧
      Continues search (search.recordCycleEdge nodeName target) := by
  have hedges := sameEdges_markCycleTarget search.graph.nodes target
  have hmarks := isCycleTarget_recordCycleEdge search nodeName target
  have hrecorded := isCycleEdge_recordCycleEdge search nodeName target
  refine ⟨⟨h.edges.trans hedges, h.visiting, h.disjoint, ?_, fun a b hedge => ?_, fun name => ?_,
    fun a hedge => ?_⟩, fun _ hmem => hmem, fun a b hedge => (hrecorded a b).mpr (.inl hedge)⟩
  · exact h.finished.mono fun a b hedge => (hrecorded a b).mpr (.inl hedge)
  · obtain hold | ⟨rfl, rfl⟩ := (hrecorded a b).mp hedge
    · exact h.onCycle a b hold
    · exact ⟨hleads, hback⟩
  · rw [hmarks, h.target, h.edges.keys]
    simp only [hrecorded]
    constructor
    · rintro (⟨a, ha⟩ | ⟨rfl, -⟩)
      · exact ⟨a, .inl ha⟩
      · exact ⟨nodeName, .inr ⟨rfl, rfl⟩⟩
    · rintro ⟨a, ha | ⟨-, rfl⟩⟩
      · exact .inl ⟨a, ha⟩
      · exact .inr ⟨rfl, htarget⟩
  · obtain hold | ⟨rfl, rfl⟩ := (hrecorded a a).mp hedge
    · exact h.loopFree a hold
    · exact hne rfl

/-- The search comes to a node. -/
theorem Inv.enter (h : Inv graph search ancestors) (hvisited : nodeName ∉ search.visited) :
    Inv graph { search with visiting := search.visiting.add nodeName }
      (ancestors.add nodeName) := by
  refine ⟨h.edges, fun name => ?_, fun name hmem => ?_, h.finished, h.onCycle, h.target, h.loopFree⟩
  · rw [InsertionSet.mem_add, InsertionSet.mem_add, h.visiting]
  · obtain rfl | hmem := InsertionSet.mem_add.mp hmem
    · exact hvisited
    · exact h.disjoint name hmem

/-- It leaves the node, when what this leads to is finished, or an ancestor, or the node itself. -/
theorem Inv.leave (h : Inv graph search (ancestors.add nodeName)) (hnot : nodeName ∉ ancestors)
    (hnext : ∀ target, Leads graph.nodes nodeName target →
      search.graph.IsCycleEdge nodeName target ∨ target = nodeName ∨ target ∈ search.visited) :
    Inv graph (search.leave nodeName) ancestors := by
  have hvisited : nodeName ∉ search.visited :=
    h.disjoint nodeName (InsertionSet.mem_add.mpr (.inl rfl))
  refine ⟨h.edges, fun name => ?_, fun name hmem hin => ?_, ?_, h.onCycle, h.target,
    h.loopFree⟩
  · rw [CycleSearch.leave, InsertionSet.mem_erase, h.visiting, InsertionSet.mem_add]
    constructor
    · rintro ⟨rfl | hmem, hne⟩
      · exact absurd rfl hne
      · exact hmem
    · intro hmem
      refine ⟨.inr hmem, ?_⟩
      rintro rfl
      exact hnot hmem
  · obtain rfl | hin := InsertionSet.mem_add.mp hin
    · exact hnot hmem
    · exact h.disjoint name (InsertionSet.mem_add.mpr (.inr hmem)) hin
  · have helements : (search.visited.add nodeName).elements =
        search.visited.elements ++ [nodeName] := by
      rw [InsertionSet.add, dif_neg (InsertionSet.mem_def.not.mp hvisited)]
    rw [CycleSearch.leave, helements, List.reverse_append, List.reverse_singleton]
    refine ⟨fun target hleads => (hnext target hleads).imp_right (Or.imp_right ?_), h.finished⟩
    exact List.mem_reverse.mpr

/-! ### The search -/

/-- What a search from a node gives. -/
def Searches (graph : SemanticGraph) (search : CycleSearch) (ancestors : InsertionSet String)
    (nodeName : String) (result : Option CycleSearch) : Prop :=
  ∃ search', result = some search' ∧ Inv graph search' ancestors ∧ Continues search search' ∧
    (nodeName ∈ search'.visited ∨ nodeName ∈ ancestors)

/-- Following the connections of a node, one after the other. -/
theorem foldlM_follow {dfs : String → InsertionSet String → CycleSearch → Option CycleSearch}
    (hdfs : ∀ search target, Inv graph search (ancestors.add nodeName) →
      Leads graph.nodes nodeName target →
        Searches graph search (ancestors.add nodeName) target
          (dfs target (ancestors.add nodeName) search))
    (hancestors : ∀ name ∈ ancestors, name ∈ graph.nodes.keys ∧
      ReflTransGen (Leads graph.nodes) name nodeName) (hnot : nodeName ∉ ancestors)
    (conns : List SemanticConnection)
    (hconns : ∀ conn ∈ conns, Leads graph.nodes nodeName conn.target)
    (h : Inv graph search (ancestors.add nodeName)) :
    ∃ search', conns.foldlM (follow dfs nodeName ancestors) search = some search' ∧
      Inv graph search' (ancestors.add nodeName) ∧ Continues search search' ∧
      ∀ conn ∈ conns, search'.graph.IsCycleEdge nodeName conn.target ∨ conn.target = nodeName ∨
        conn.target ∈ search'.visited := by
  induction conns generalizing search with
  | nil => exact ⟨search, rfl, h, .refl search, fun _ hmem => absurd hmem List.not_mem_nil⟩
  | cons conn conns ih =>
    have hleads := hconns conn List.mem_cons_self
    obtain ⟨search₁, hfollow, h₁, hcontinues₁, hdone⟩ : ∃ search₁,
        follow dfs nodeName ancestors search conn = some search₁ ∧
        Inv graph search₁ (ancestors.add nodeName) ∧ Continues search search₁ ∧
        (search₁.graph.IsCycleEdge nodeName conn.target ∨ conn.target = nodeName ∨
          conn.target ∈ search₁.visited) := by
      unfold follow
      split_ifs with hancestor hvisited
      · obtain ⟨hkey, hback⟩ := hancestors conn.target hancestor
        have hne : conn.target ≠ nodeName := fun heq => hnot (heq ▸ hancestor)
        obtain ⟨hrecorded, hcontinues⟩ := h.recordCycleEdge hleads hback hkey hne
        refine ⟨_, rfl, hrecorded, hcontinues, .inl ?_⟩
        exact (isCycleEdge_recordCycleEdge search _ _ _ _).mpr (.inr ⟨rfl, rfl⟩)
      · exact ⟨search, rfl, h, .refl search, .inr (.inr hvisited)⟩
      · obtain ⟨search₁, hresult, h₁, hcontinues, hmem⟩ := hdfs search conn.target h hleads
        refine ⟨search₁, hresult, h₁, hcontinues, .inr ?_⟩
        obtain hin | hadded := hmem
        · exact .inr hin
        · exact .inl ((InsertionSet.mem_add.mp hadded).resolve_right hancestor)
    obtain ⟨search', hfold, h', hcontinues', hall⟩ :=
      ih (fun conn hmem => hconns conn (List.mem_cons_of_mem _ hmem)) h₁
    refine ⟨search', ?_, h', hcontinues₁.trans hcontinues', fun conn' hmem => ?_⟩
    · rw [List.foldlM_cons, hfollow]
      exact hfold
    · obtain rfl | hmem := List.mem_cons.mp hmem
      · exact hdone.imp (hcontinues'.cycleEdges _ _) (Or.imp_right (hcontinues'.visited _))
      · exact hall conn' hmem

/-- **The search from a node.** With the depth that is left for the other nodes it comes to its
end. -/
theorem searches_dfs (depth : ℕ) (h : Inv graph search ancestors)
    (hdepth : graph.nodes.size < depth + ancestors.elements.length)
    (hancestors : ∀ name ∈ ancestors, name ∈ graph.nodes.keys ∧
      TransGen (Leads graph.nodes) name nodeName) :
    Searches graph search ancestors nodeName (dfs depth nodeName ancestors search) := by
  induction depth generalizing nodeName ancestors search with
  | zero =>
    have hle : ancestors.elements.length ≤ graph.nodes.keys.length :=
      InsertionSet.length_le_of_subset fun name hmem => (hancestors name hmem).1
    rw [InsertionMap.keys, List.length_map] at hle
    rw [Nat.zero_add] at hdepth
    exact absurd hdepth (Nat.not_lt.mpr hle)
  | succ depth ih =>
    unfold dfs
    split_ifs with hvisited hvisiting
    · exact ⟨search, rfl, h, .refl search, .inl hvisited⟩
    · exact ⟨search, rfl, h, .refl search, .inr ((h.visiting nodeName).mp hvisiting)⟩
    · have hnot : nodeName ∉ ancestors := fun hmem => hvisiting ((h.visiting nodeName).mpr hmem)
      have henter := h.enter hvisited
      have hleft : ∀ search' : CycleSearch, nodeName ∈ (search'.leave nodeName).visited :=
        fun search' => InsertionSet.mem_add.mpr (.inl rfl)
      cases hget : search.graph.nodes.get? nodeName with
      | none =>
        -- there is no such node, and it leads nowhere
        simp only [hget]
        refine ⟨_, rfl, henter.leave hnot fun target hleads => ?_, ⟨fun name hmem => ?_,
          fun _ _ hedge => hedge⟩, .inl (hleft _)⟩
        · have htargets := h.edges.targets nodeName
          rw [outputTargets, hget] at htargets
          have hmem : target ∈ outputTargets graph.nodes nodeName := hleads
          rw [← htargets] at hmem
          cases hmem
        · exact InsertionSet.mem_add.mpr (.inr hmem)
      | some node =>
        simp only [hget]
        have htargets : outputTargets graph.nodes nodeName =
            node.outputs.values.flatten.map SemanticConnection.target := by
          rw [← h.edges.targets, outputTargets, hget]
        have hkey : nodeName ∈ graph.nodes.keys := by
          rw [← h.edges.keys]
          exact InsertionMap.mem_keys.mpr ⟨_, InsertionMap.get?_eq_some_iff.mp hget⟩
        have hlength := InsertionSet.length_add_of_notMem hnot
        obtain ⟨search', hfold, h', hcontinues, hdone⟩ := foldlM_follow
          (fun search target hinv hleads => ih hinv (by omega) fun name hmem => by
            obtain rfl | hmem := InsertionSet.mem_add.mp hmem
            · exact ⟨hkey, .single hleads⟩
            · exact ⟨(hancestors name hmem).1, (hancestors name hmem).2.tail hleads⟩)
          (fun name hmem => ⟨(hancestors name hmem).1, (hancestors name hmem).2.to_reflTransGen⟩)
          hnot node.outputs.values.flatten
          (fun conn hmem => by
            show conn.target ∈ outputTargets graph.nodes nodeName
            rw [htargets]
            exact List.mem_map_of_mem hmem) henter
        refine ⟨search'.leave nodeName, ?_, h'.leave hnot fun target hleads => ?_,
          ⟨fun name hmem => ?_, hcontinues.cycleEdges⟩, .inl (hleft _)⟩
        · rw [hfold]
          rfl
        · have hmem : target ∈ outputTargets graph.nodes nodeName := hleads
          rw [htargets] at hmem
          obtain ⟨conn, hconn, rfl⟩ := List.mem_map.mp hmem
          exact hdone conn hconn
        · exact InsertionSet.mem_add.mpr (.inr (hcontinues.visited name hmem))

/-- The search from each of some nodes. -/
theorem foldlM_dfs {step : CycleSearch → String → Option CycleSearch}
    (hstep : ∀ search name, step search name = dfs (graph.nodes.size + 1) name .empty search)
    (names : List String) (h : Inv graph search .empty) :
    ∃ search', names.foldlM step search = some search' ∧ Inv graph search' .empty ∧
      Continues search search' ∧ ∀ name ∈ names, name ∈ search'.visited := by
  induction names generalizing search with
  | nil => exact ⟨search, rfl, h, .refl search, fun _ hmem => absurd hmem List.not_mem_nil⟩
  | cons name names ih =>
    have hsearches : Searches graph search .empty name
        (dfs (graph.nodes.size + 1) name .empty search) :=
      searches_dfs _ h (Nat.lt_succ_self _) fun a ha => absurd ha (InsertionSet.notMem_empty a)
    obtain ⟨search₁, hdfs, h₁, hcontinues₁, hmem₁⟩ := hsearches
    obtain ⟨search', hfold, h', hcontinues', hall⟩ := ih h₁
    refine ⟨search', ?_, h', hcontinues₁.trans hcontinues', fun a ha => ?_⟩
    · rw [List.foldlM_cons, hstep, hdfs]
      exact hfold
    · obtain rfl | ha := List.mem_cons.mp ha
      · exact hcontinues'.visited a (hmem₁.resolve_right (InsertionSet.notMem_empty a))
      · exact hall a ha

/-- Before the search. -/
theorem Inv.start (h : graph.Unannotated) : Inv graph { graph := graph } .empty := by
  have hnone : ∀ a b, ¬ graph.IsCycleEdge a b := by
    rintro a b ⟨edges, hget, -⟩
    rw [h.cycleEdges, InsertionMap.get?_empty] at hget
    cases hget
  refine ⟨.refl _, fun name => Iff.rfl, fun name hmem => ?_, trivial, fun a b hedge => ?_,
    fun name => ?_, fun a => hnone a a⟩
  · exact absurd hmem (InsertionSet.notMem_empty name)
  · exact absurd hedge (hnone a b)
  · exact iff_of_false (h.cycleTarget name) fun ⟨a, hedge⟩ => hnone a name hedge

end CycleSearch

open CycleSearch

variable {graph : SemanticGraph}

/-- The whole search. -/
theorem SemanticGraph.exists_detectCycles (h : graph.Unannotated) :
    ∃ search : CycleSearch, graph.detectCycles = some search.graph ∧
      Inv graph search .empty ∧ ∀ name ∈ graph.nodes.keys, name ∈ search.visited := by
  obtain ⟨search₁, hfold₁, h₁, -, -⟩ := foldlM_dfs (fun _ _ => rfl) graph.roots (.start h)
  -- the search ends at once at a node that has been visited
  have hstep : ∀ (search : CycleSearch) (name : String),
      (if name ∈ search.visited then some search
        else dfs (graph.nodes.size + 1) name .empty search) =
        dfs (graph.nodes.size + 1) name .empty search := by
    intro search name
    by_cases hvisited : name ∈ search.visited
    · rw [if_pos hvisited, dfs, if_pos hvisited]
    · rw [if_neg hvisited]
  obtain ⟨search₂, hfold₂, h₂, -, hall⟩ := foldlM_dfs hstep graph.nodes.keys h₁
  refine ⟨search₂, ?_, h₂, hall⟩
  simp only [SemanticGraph.detectCycles, Option.bind_eq_bind, hfold₁, Option.bind_some, hfold₂]
  rfl

/-! ### The other annotation -/

/-- A mark for another annotation keeps these. -/
theorem isCycleTarget_markConvergence (nodes : SemanticNodes) (nodeName name : String) :
    (markConvergence nodes nodeName).IsCycleTarget name ↔ nodes.IsCycleTarget name := by
  unfold markConvergence SemanticNodes.IsCycleTarget
  cases hget : nodes.get? nodeName with
  | none => exact Iff.rfl
  | some targetNode =>
    simp only [InsertionMap.get?_set]
    by_cases heq : name = nodeName
    · subst heq
      simp [hget]
    · simp [heq]

private theorem isCycleTarget_foldl {α : Type} {mark : SemanticNodes → α → SemanticNodes}
    {name : String} (hmark : ∀ nodes a, (mark nodes a).IsCycleTarget name ↔
      nodes.IsCycleTarget name) (l : List α) (nodes : SemanticNodes) :
    (l.foldl mark nodes).IsCycleTarget name ↔ nodes.IsCycleTarget name := by
  induction l generalizing nodes with
  | nil => exact Iff.rfl
  | cons a l ih => rw [List.foldl_cons, ih, hmark]

theorem isCycleTarget_findConvergenceNodes (graph : SemanticGraph) (name : String) :
    graph.findConvergenceNodes.nodes.IsCycleTarget name ↔ graph.nodes.IsCycleTarget name := by
  refine isCycleTarget_foldl (fun nodes nodeName => ?_) graph.nodes.keys graph.nodes
  unfold markBranches
  cases nodes.get? nodeName with
  | none => exact Iff.rfl
  | some node =>
    exact isCycleTarget_foldl (fun nodes a => isCycleTarget_markConvergence nodes a name) _ nodes

/-! ### The result -/

/-- **The cycles of a graph are found unless a node is connected to itself.** -/
theorem SemanticGraph.cyclesFound_annotateGraph_iff (h : graph.Unannotated) :
    ∃ annotated, graph.annotateGraph = some annotated ∧
      (graph.CyclesFound annotated ↔ ∀ name, ¬ Leads graph.nodes name name) := by
  obtain ⟨search, hresult, hinv, hall⟩ := exists_detectCycles h
  refine ⟨search.graph.findConvergenceNodes, by rw [annotateGraph, hresult]; rfl, ?_⟩
  constructor
  · intro hfound name hloop
    exact hfound.acyclic name (.single ⟨hloop, hinv.loopFree name⟩)
  · intro hloops
    refine ⟨fun name => ?_, hinv.onCycle, fun name => ?_⟩
    · refine hinv.finished.acyclic (List.nodup_reverse.mpr search.visited.nodup) ?_
        (fun a ha => absurd ha (hloops a)) name
      intro a b hleads
      have hmem : b ∈ outputTargets graph.nodes a := hleads
      refine List.mem_reverse.mpr (hall a ?_)
      by_contra hnot
      rw [outputTargets, InsertionMap.get?_eq_none_iff.mpr hnot] at hmem
      cases hmem
    · rw [isCycleTarget_findConvergenceNodes]
      exact hinv.target name

section Examples

private def wait (name target : String) : SemanticNode where
  name := name
  type := "n8n-nodes-base.wait"
  json := { id := name, name := some name, type := "n8n-nodes-base.wait" }
  outputs := InsertionMap.empty.set "output0" [{ target := target, targetInputSlot := "input0" }]
  annotations := { isTrigger := false }

/-- Two nodes that lead to each other. -/
private def circle : SemanticGraph where
  nodes := (InsertionMap.empty.set "Wait" (wait "Wait" "Wait 1")).set "Wait 1"
    (wait "Wait 1" "Wait")

/-- A node that leads to itself. -/
private def loop : SemanticGraph where
  nodes := InsertionMap.empty.set "Wait" (wait "Wait" "Wait")

theorem SemanticGraph.cyclesFound_annotateGraph_circle :
    ∃ annotated, circle.annotateGraph = some annotated ∧
      (circle.CyclesFound annotated ↔ ∀ name, ¬ Leads circle.nodes name name) :=
  cyclesFound_annotateGraph_iff ⟨rfl, by
    rintro name ⟨node, hget, htarget⟩
    have hmem := InsertionMap.get?_eq_some_iff.mp hget
    simp [circle] at hmem
    obtain ⟨-, rfl⟩ | ⟨-, -, rfl⟩ := hmem
    all_goals cases htarget⟩

/-- A loop is not recorded. -/
theorem SemanticGraph.not_cyclesFound_loop : ∃ annotated,
    loop.annotateGraph = some annotated ∧ ¬ loop.CyclesFound annotated := by
  refine ⟨loop, by decide, fun hfound => ?_⟩
  refine hfound.acyclic "Wait" (.single ⟨?_, ?_⟩)
  · show "Wait" ∈ outputTargets loop.nodes "Wait"
    decide
  · rintro ⟨edges, hget, -⟩
    cases hget

end Examples

end WorkflowSdk

end N8n
