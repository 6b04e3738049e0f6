import N8n.Foundations.LowLinkParts
import N8n.PartialExecution.StronglyConnectedComponents

/-!
# Start nodes in cycles

A partial execution does not start in the middle of a cycle: `handleCycles` replaces a start node
of a cycle by the first node of the cycle that `depthFirstSearch` meets on its way from the trigger.
A search that never succeeds meets the nodes in the order of `preorder`, and one with a predicate
stops at the first of them that the predicate holds of (`depthFirstSearch_eq`).

The cycles are the sets of `getStronglyConnectedComponents`. These sets are disjoint parts of the
strongly connected components, so every start node is replaced by one node of its own component,
and by the right one unless the component has been torn apart (`handlesCycles_iff`).
-/

namespace N8n

namespace DirectedGraph

open DepthFirst Relation

/-! ### The functions -/

/-- `depthFirstSearchRecursive`, with a bound of the depth of nested calls. -/
def depthFirstSearchRecursive (g : DirectedGraph) (fn : INode → Bool) :
    ℕ → INode → InsertionSet INode → Except GraphError (Option INode × InsertionSet INode)
  | 0, _, _ => .error .outOfFuel
  | depth + 1, fromNode, seen =>
    if fromNode ∈ seen then .ok (none, seen)
    else if fn fromNode then .ok (some fromNode, seen.add fromNode)
    else do
      let directChildren := (← g.getDirectChildConnections fromNode).map GraphConnection.toNode
      directChildren.foldlM
        (fun (found, seen) child =>
          if found.isSome then .ok (found, seen)
          else g.depthFirstSearchRecursive fn depth child seen)
        (none, seen.add fromNode)

def depthFirstSearch (g : DirectedGraph) (fromNode : INode) (fn : INode → Bool) :
    Except GraphError (Option INode) := do
  let (found, _) ← g.depthFirstSearchRecursive fn (g.getNodes.length + 1) fromNode .empty
  return found

/-- What one cycle does to a start node. -/
def replaceStartNode (g : DirectedGraph) (trigger startNode : INode)
    (newStartNodes cycle : InsertionSet INode) : Except GraphError (InsertionSet INode) :=
  if startNode ∈ cycle then do
    match ← g.depthFirstSearch trigger fun node => node ∈ cycle with
    | none => .error .assertion
    | some firstNode => .ok ((newStartNodes.erase startNode).add firstNode)
  else .ok newStartNodes

def handleCycles (g : DirectedGraph) (startNodes : InsertionSet INode) (trigger : INode) :
    Except GraphError (InsertionSet INode) := do
  let cycles := (← g.getStronglyConnectedComponents).filter fun cycle => 1 ≤ cycle.elements.length
  if cycles.length = 0 then .ok startNodes
  else
    startNodes.elements.foldlM
      (fun newStartNodes startNode =>
        cycles.foldlM (g.replaceStartNode trigger startNode) newStartNodes)
      startNodes

variable {g : DirectedGraph} {startNodes cycle : InsertionSet INode}
  {cycles components : List (InsertionSet INode)} {trigger node s v w : INode}
  {fn : INode → Bool} {events : List (Event INode)} {path : List INode} {depth : ℕ}
  {seen : InsertionSet INode}

/-! ### The first node that is met -/

/-- The nodes that are reachable from a node in the order in which a search meets them. -/
def preorder (g : DirectedGraph) (node : INode) : List INode :=
  entered (visit g.children (g.getNodes.length + 1) [] node)

private theorem find?_entered_append {more : List (Event INode)}
    (h : (entered events).find? fn = some v) : (entered (events ++ more)).find? fn = some v := by
  rw [entered_append, List.find?_append, h]
  rfl

private theorem find?_entered_enter (h : (entered events).find? fn = none) :
    (entered (events ++ [.enter node])).find? fn = if fn node then some node else none := by
  rw [entered_append, entered_enter, List.find?_append, h, List.find?_singleton]
  rfl

/-- A search finds the first node of its order that the predicate holds of. -/
theorem depthFirstSearchRecursive_eq (hg : g.ChildrenExist) (h : Trace g.children events path)
    (hpath : ∀ u ∈ path, u ∈ g.getNodes) (hnode : node ∈ g.getNodes)
    (hstep : ∀ u ∈ path.head?, node ∈ g.children u)
    (hdepth : g.getNodes.length < depth + path.length) (hseen : seen.elements = entered events)
    (hnone : (entered events).find? fn = none) :
    ∃ seen', g.depthFirstSearchRecursive fn depth node seen
        = .ok ((entered (visit g.children depth events node)).find? fn, seen') ∧
      ((entered (visit g.children depth events node)).find? fn = none →
        seen'.elements = entered (visit g.children depth events node)) := by
  induction depth generalizing events path node seen with
  | zero =>
    have hle := (h.nodup_path.subperm hpath).length_le
    omega
  | succ depth ih =>
    rw [depthFirstSearchRecursive, visit]
    by_cases hmem : node ∈ seen
    · rw [if_pos hmem, if_pos (hseen ▸ InsertionSet.mem_def.mp hmem), hnone]
      exact ⟨seen, rfl, fun _ => hseen⟩
    · have hnew : node ∉ entered events := fun hentered =>
        hmem (InsertionSet.mem_def.mpr (hseen ▸ hentered))
      have hadd : (seen.add node).elements = entered (events ++ [.enter node]) := by
        rw [InsertionSet.elements_add_of_notMem hmem, hseen, entered_append, entered_enter]
      have hpath' := List.forall_mem_cons.mpr ⟨hnode, hpath⟩
      have hdepth' : g.getNodes.length < depth + (node :: path).length := by
        rw [List.length_cons]
        omega
      have hchild {child : INode} (hchild : child ∈ g.children node) :
          ∀ u ∈ (node :: path).head?, child ∈ g.children u :=
        fun u hu => Option.some.inj hu ▸ hchild
      rw [if_neg hmem, if_neg hnew]
      by_cases hfn : fn node = true
      · -- the node itself is found, whatever the search would meet after it
        rw [if_pos hfn]
        obtain ⟨-, ⟨more, hmore⟩, -⟩ := (h.enter hnew hstep).foldl_visit
          (fun htrace hw => htrace.visit hg hpath' (hg node hnode _ hw) (hchild hw) hdepth')
          fun w hw => hw
        have hfound : (entered (events ++ [.enter node])).find? fn = some node := by
          rw [find?_entered_enter hnone, if_pos hfn]
        rw [← hmore, List.append_assoc, find?_entered_append hfound]
        exact ⟨_, rfl, by simp⟩
      · have hstart : (entered (events ++ [.enter node])).find? fn = none := by
          rw [find?_entered_enter hnone, if_neg hfn]
        rw [if_neg hfn, getDirectChildConnections_of_mem hnode]
        obtain ⟨⟨found, seen'⟩, hfold, -, rfl, hseen'⟩ := ExceptFold.foldlM_simulates
          (R := fun (acc : Option INode × InsertionSet INode) events =>
            Trace g.children events (node :: path) ∧ acc.1 = (entered events).find? fn ∧
              (acc.1 = none → acc.2.elements = entered events))
          (f := fun (found, seen) child =>
            if found.isSome then .ok (found, seen)
            else g.depthFirstSearchRecursive fn depth child seen)
          (k := fun events child => visit g.children depth events child ++ [.follow node child])
          (b := (none, seen.add node)) (l := g.children node)
          (by
            rintro ⟨found, seen⟩ events child hmem ⟨htrace, hfound, hseen⟩
            obtain ⟨htrace', hentered, ⟨more, hmore⟩⟩ :=
              htrace.visit hg hpath' (hg node hnode child hmem) (hchild hmem) hdepth'
            have hnext : entered (visit g.children depth events child ++ [.follow node child])
                = entered (visit g.children depth events child) := by
              rw [entered_append, entered_follow, List.append_nil]
            rw [hnext]
            obtain _ | n := found
            · obtain ⟨seen', hrec, hseen'⟩ := ih htrace hpath' (hg node hnode child hmem)
                (hchild hmem) hdepth' (hseen rfl) hfound.symm
              exact ⟨_, hrec, htrace'.follow hmem hentered, rfl, hseen'⟩
            · refine ⟨_, rfl, htrace'.follow hmem hentered, ?_, by simp⟩
              rw [← hmore]
              exact (find?_entered_append hfound.symm).symm)
          ⟨h.enter hnew hstep, hstart.symm, fun _ => hadd⟩
        have hlast (events : List (Event INode)) :
            entered (events ++ [.leave node]) = entered events := by
          rw [entered_append, entered_leave, List.append_nil]
        rw [hlast]
        exact ⟨seen', hfold, hseen'⟩

theorem depthFirstSearch_eq (hg : g.ChildrenExist) (hnode : node ∈ g.getNodes)
    (fn : INode → Bool) : g.depthFirstSearch node fn = .ok ((g.preorder node).find? fn) := by
  have hseen : (InsertionSet.empty : InsertionSet INode).elements
      = entered ([] : List (Event INode)) := rfl
  have hnone : (entered ([] : List (Event INode))).find? fn = none := rfl
  obtain ⟨seen, hsearch, -⟩ := depthFirstSearchRecursive_eq hg .nil
    (fun u hu => absurd hu List.not_mem_nil) hnode (fun u hu => nomatch hu)
    (Nat.lt_succ_self g.getNodes.length) hseen hnone
  rw [depthFirstSearch, hsearch]
  rfl

/-- The search meets whatever is reachable. -/
theorem mem_preorder (hg : g.ChildrenExist) (hnode : node ∈ g.getNodes)
    (hreach : ReflTransGen g.Step node v) : v ∈ g.preorder node := by
  have hstart : Trace g.children [] [] := .nil
  obtain ⟨htrace, hentered, -⟩ := hstart.visit hg
    (fun u hu => absurd hu List.not_mem_nil) hnode (fun u hu => nomatch hu)
    (Nat.lt_succ_self g.getNodes.length)
  induction hreach with
  | refl => exact hentered
  | tail _ hstep ih =>
    -- everything that has been entered has been left, so all its edges have been followed
    have hleft := (htrace.mem_path_or_leave ih).resolve_left List.not_mem_nil
    exact (htrace.of_followed (htrace.followed_of_leave hleft (mem_children.mpr hstep))).2.2

/-! ### What a start node is replaced by -/

/-- The first node of a cycle. -/
def firstNode? (g : DirectedGraph) (trigger : INode) (cycle : InsertionSet INode) : Option INode :=
  (g.preorder trigger).find? fun node => node ∈ cycle

/-- What a start node is replaced by: the first node of the cycle that it is in, if it is in one. -/
def replacement (g : DirectedGraph) (trigger : INode) (cycles : List (InsertionSet INode))
    (startNode : INode) : INode :=
  ((cycles.find? fun cycle => startNode ∈ cycle).bind (g.firstNode? trigger)).getD startNode

/-- No node is in two of the sets. -/
def Apart (cycles : List (InsertionSet INode)) : Prop :=
  cycles.Pairwise fun c c' => ∀ v ∈ c, v ∉ c'

theorem Apart.eq_of_mem (h : Apart cycles) {c c' : InsertionSet INode} (hc : c ∈ cycles)
    (hc' : c' ∈ cycles) (hv : v ∈ c) (hv' : v ∈ c') : c = c' := by
  by_contra hne
  have : Std.Symm fun c c' : InsertionSet INode => ∀ v ∈ c, v ∉ c' :=
    ⟨fun c c' h v hv hv' => h v hv' hv⟩
  exact h.forall hc hc' hne v hv hv'

theorem replacement_of_notMem (h : ∀ cycle ∈ cycles, s ∉ cycle) :
    g.replacement trigger cycles s = s := by
  have hnone : (cycles.find? fun cycle => s ∈ cycle) = none := by simpa using h
  rw [replacement, hnone]
  rfl

theorem replacement_of_mem (h : Apart cycles) (hcycle : cycle ∈ cycles) (hs : s ∈ cycle) :
    g.replacement trigger cycles s = (g.firstNode? trigger cycle).getD s := by
  have hfound : (cycles.find? fun cycle => s ∈ cycle) = some cycle := by
    obtain ⟨c, hc⟩ := Option.isSome_iff_exists.mp
      ((List.find?_isSome (p := fun cycle => s ∈ cycle)).mpr ⟨cycle, hcycle, by simpa using hs⟩)
    have hmem : s ∈ c := by simpa using List.find?_some hc
    rw [hc, h.eq_of_mem (List.mem_of_find?_eq_some hc) hcycle hmem hs]
  rw [replacement, hfound, Option.bind_some]

theorem mem_of_firstNode? (h : g.firstNode? trigger cycle = some v) : v ∈ cycle := by
  simpa using List.find?_some h

/-- A cycle that can be reached has a first node. -/
theorem exists_firstNode? (hg : g.ChildrenExist) (htrigger : trigger ∈ g.getNodes)
    (hreach : ReflTransGen g.Step trigger s) (hs : s ∈ cycle) :
    ∃ v, g.firstNode? trigger cycle = some v :=
  Option.isSome_iff_exists.mp
    (List.find?_isSome.mpr ⟨s, mem_preorder hg htrigger hreach, decide_eq_true hs⟩)

/-- What a start node is replaced by is the node itself, or in its cycle. -/
theorem replacement_eq_or_mem (g : DirectedGraph) (trigger : INode)
    (cycles : List (InsertionSet INode)) (s : INode) :
    g.replacement trigger cycles s = s ∨
      ∃ cycle ∈ cycles, s ∈ cycle ∧ g.replacement trigger cycles s ∈ cycle := by
  rw [replacement]
  cases hfound : cycles.find? fun cycle => s ∈ cycle with
  | none => exact .inl rfl
  | some cycle =>
    rw [Option.bind_some]
    cases hfirst : g.firstNode? trigger cycle with
    | none => exact .inl rfl
    | some v =>
      have hmem : s ∈ cycle := by simpa using List.find?_some hfound
      exact .inr ⟨cycle, List.mem_of_find?_eq_some hfound, hmem, mem_of_firstNode? hfirst⟩

/-- What replaces a start node is not replaced by anything else. -/
theorem replacement_replacement (h : Apart cycles) :
    g.replacement trigger cycles (g.replacement trigger cycles s)
      = g.replacement trigger cycles s := by
  obtain heq | ⟨cycle, hcycle, hs, hmem⟩ := g.replacement_eq_or_mem trigger cycles s
  · rw [heq, heq]
  · rw [replacement_of_mem h hcycle hs] at hmem ⊢
    rw [replacement_of_mem h hcycle hmem]
    cases g.firstNode? trigger cycle with
    | none => rfl
    | some v => rfl

/-! ### The loops -/

/-- One cycle after another: only the one that the start node is in changes anything. -/
theorem exists_foldlM_replaceStartNode (hg : g.ChildrenExist) (htrigger : trigger ∈ g.getNodes)
    (hreach : ReflTransGen g.Step trigger s) (h : Apart cycles)
    {newStartNodes : InsertionSet INode} (hs : s ∈ newStartNodes) :
    ∃ new, cycles.foldlM (g.replaceStartNode trigger s) newStartNodes = .ok new ∧
      ∀ v, v ∈ new ↔ v = g.replacement trigger cycles s ∨ (v ∈ newStartNodes ∧ v ≠ s) := by
  have hskip {cycles : List (InsertionSet INode)} (hnot : ∀ cycle ∈ cycles, s ∉ cycle)
      (newStartNodes : InsertionSet INode) :
      cycles.foldlM (g.replaceStartNode trigger s) newStartNodes = .ok newStartNodes := by
    induction cycles with
    | nil => rfl
    | cons c cycles ih =>
      obtain ⟨hc, hcycles⟩ := List.forall_mem_cons.mp hnot
      rw [List.foldlM_cons, replaceStartNode, if_neg hc]
      exact ih hcycles
  by_cases hin : ∃ cycle ∈ cycles, s ∈ cycle
  · obtain ⟨cycle, hcycle, hmem⟩ := hin
    obtain ⟨first, hfirst⟩ := exists_firstNode? hg htrigger hreach hmem
    rw [replacement_of_mem h hcycle hmem, hfirst]
    obtain ⟨before, after, rfl⟩ := List.append_of_mem hcycle
    obtain ⟨-, hafter, hbefore⟩ := List.pairwise_append.mp h
    have hbefore : ∀ c ∈ before, s ∉ c := fun c hc hsc =>
      hbefore c hc cycle List.mem_cons_self s hsc hmem
    have hafter : ∀ c ∈ after, s ∉ c := fun c hc =>
      (List.pairwise_cons.mp hafter).1 c hc s hmem
    have hturn : g.replaceStartNode trigger s newStartNodes cycle
        = .ok ((newStartNodes.erase s).add first) := by
      rw [firstNode?] at hfirst
      rw [replaceStartNode, if_pos hmem, depthFirstSearch_eq hg htrigger, hfirst]
      rfl
    refine ⟨(newStartNodes.erase s).add first, ?_, fun v => ?_⟩
    · rw [List.foldlM_append, hskip hbefore]
      change (cycle :: after).foldlM (g.replaceStartNode trigger s) newStartNodes = _
      rw [List.foldlM_cons, hturn]
      exact hskip hafter _
    · rw [InsertionSet.mem_add, InsertionSet.mem_erase]
      rfl
  · have hnot : ∀ cycle ∈ cycles, s ∉ cycle := fun cycle hc hmem => hin ⟨cycle, hc, hmem⟩
    refine ⟨newStartNodes, hskip hnot newStartNodes, fun v => ?_⟩
    rw [replacement_of_notMem hnot]
    constructor
    · intro hv
      exact (eq_or_ne v s).imp_right fun hne => ⟨hv, hne⟩
    · rintro (rfl | ⟨hv, -⟩)
      · exact hs
      · exact hv

/-- The start nodes that are left stay until it is their turn. -/
theorem exists_foldlM_startNodes (hg : g.ChildrenExist) (htrigger : trigger ∈ g.getNodes)
    (h : Apart cycles) {l : List INode} (hnodup : l.Nodup)
    (hreach : ∀ s ∈ l, ReflTransGen g.Step trigger s) {newStartNodes : InsertionSet INode}
    (hl : ∀ s ∈ l, s ∈ newStartNodes) :
    ∃ new, l.foldlM (fun newStartNodes startNode =>
        cycles.foldlM (g.replaceStartNode trigger startNode) newStartNodes) newStartNodes
          = .ok new ∧
      ∀ v, v ∈ new ↔ (∃ s ∈ l, g.replacement trigger cycles s = v) ∨
        (v ∈ newStartNodes ∧ v ∉ l) := by
  induction l generalizing newStartNodes with
  | nil => exact ⟨newStartNodes, rfl, by simp⟩
  | cons s l ih =>
    obtain ⟨hsl, hnodup⟩ := List.nodup_cons.mp hnodup
    obtain ⟨hs, hl⟩ := List.forall_mem_cons.mp hl
    obtain ⟨hreach_s, hreach⟩ := List.forall_mem_cons.mp hreach
    obtain ⟨next, hnext, hmem⟩ := exists_foldlM_replaceStartNode hg htrigger hreach_s h hs
    obtain ⟨new, hnew, hmem'⟩ := ih hnodup hreach fun s' hs' =>
      (hmem s').mpr (.inr ⟨hl s' hs', ne_of_mem_of_not_mem hs' hsl⟩)
    refine ⟨new, ?_, fun v => ?_⟩
    · rw [List.foldlM_cons, hnext]
      exact hnew
    · rw [hmem', hmem, List.mem_cons, not_or]
      constructor
      · rintro (⟨s', hs', rfl⟩ | ⟨rfl | ⟨hv, hne⟩, hvl⟩)
        · exact .inl ⟨s', List.mem_cons_of_mem s hs', rfl⟩
        · exact .inl ⟨s, List.mem_cons_self, rfl⟩
        · exact .inr ⟨hv, hne, hvl⟩
      · rintro (⟨s', hs', rfl⟩ | ⟨hv, hne, hvl⟩)
        · obtain rfl | hs' := List.mem_cons.mp hs'
          · -- where it is a start node too, it replaces itself later
            by_cases hvl : g.replacement trigger cycles s' ∈ l
            · exact .inl ⟨_, hvl, replacement_replacement h⟩
            · exact .inr ⟨.inl rfl, hvl⟩
          · exact .inl ⟨s', hs', rfl⟩
        · exact .inr ⟨.inr ⟨hv, hne⟩, hvl⟩

/-- Every start node is replaced. -/
theorem exists_handleCycles_eq_ok (hg : g.ChildrenExist) (htrigger : trigger ∈ g.getNodes)
    (hreach : ∀ s ∈ startNodes, ReflTransGen g.Step trigger s)
    (hcomponents : g.getStronglyConnectedComponents = .ok components) (h : Apart components) :
    ∃ result, g.handleCycles startNodes trigger = .ok result ∧
      ∀ v, v ∈ result ↔ ∃ s ∈ startNodes, g.replacement trigger components s = v := by
  set cycles := components.filter fun cycle => 1 ≤ cycle.elements.length with hcycles
  have hsame (s : INode) :
      g.replacement trigger cycles s = g.replacement trigger components s := by
    have hmem (cycle : InsertionSet INode) :
        decide (decide (1 ≤ cycle.elements.length) = true ∧ decide (s ∈ cycle) = true)
          = decide (s ∈ cycle) := by
      simp only [decide_eq_true_eq, decide_eq_decide]
      exact and_iff_right_of_imp fun hs => List.length_pos_of_mem (InsertionSet.mem_def.mp hs)
    rw [replacement, replacement, hcycles, List.find?_filter, funext hmem]
  have hstart : g.handleCycles startNodes trigger =
      if cycles.length = 0 then .ok startNodes
      else
        startNodes.elements.foldlM
          (fun newStartNodes startNode =>
            cycles.foldlM (g.replaceStartNode trigger startNode) newStartNodes)
          startNodes := by
    rw [handleCycles, hcomponents]
    rfl
  rw [hstart]
  split_ifs with hnone
  · refine ⟨startNodes, rfl, fun v => ?_⟩
    have hself (s : INode) : g.replacement trigger components s = s := by
      rw [← hsame, List.length_eq_zero_iff.mp hnone]
      rfl
    simp [hself]
  · have hapart : Apart cycles := h.filter _
    have hstay : ∀ s ∈ startNodes.elements, s ∈ startNodes := fun s hs => hs
    obtain ⟨result, hresult, hmem⟩ :=
      exists_foldlM_startNodes hg htrigger hapart startNodes.nodup hreach hstay
    refine ⟨result, hresult, fun v => (hmem v).trans ?_⟩
    simp only [hsame]
    exact or_iff_left fun hv => hv.2 hv.1

/-! ### What it is for -/

/-- A node is part of a cycle if its strongly connected component has more than one node. -/
def OnCycle (g : DirectedGraph) (node : INode) : Prop :=
  ∃ v, v ≠ node ∧ Mutual g.children node v

/-- The first node of the strongly connected component of a node that `depthFirstSearch` meets. -/
def IsFirstOfCycle (g : DirectedGraph) (trigger node first : INode) : Prop :=
  ∃ fn : INode → Bool, (∀ v, fn v = true ↔ Mutual g.children node v) ∧
    g.depthFirstSearch trigger fn = .ok (some first)

/-- `handleCycles` keeps the start nodes that are not part of a cycle, and replaces the others by
the first nodes of their cycles; for its own result it returns the same. -/
def HandlesCycles (g : DirectedGraph) (startNodes : InsertionSet INode) (trigger : INode) : Prop :=
  ∃ result, g.handleCycles startNodes trigger = .ok result ∧
    (∀ v, v ∈ result ↔ (v ∈ startNodes ∧ ¬ g.OnCycle v) ∨
      ∃ s ∈ startNodes, g.OnCycle s ∧ g.IsFirstOfCycle trigger s v) ∧
    ∃ again, g.handleCycles result trigger = .ok again ∧ ∀ v, v ∈ again ↔ v ∈ result

/-- The sets that are returned do not tear the cycle of a start node from its first node. -/
def KeepsFirst (g : DirectedGraph) (startNodes : InsertionSet INode) (trigger : INode) : Prop :=
  ∀ s ∈ startNodes, g.OnCycle s → ∀ first, g.IsFirstOfCycle trigger s first →
    first = s ∨ ∃ components, g.getStronglyConnectedComponents = .ok components ∧
      ∃ cycle ∈ components, s ∈ cycle ∧ first ∈ cycle

theorem OnCycle.congr (h : g.OnCycle s) (hmutual : Mutual g.children s v) : g.OnCycle v := by
  obtain ⟨w, hne, hw⟩ := h
  by_cases heq : w = v
  · exact ⟨s, fun hsv => hne (heq.trans hsv.symm), hmutual.symm⟩
  · exact ⟨w, heq, hmutual.symm.trans hw⟩

theorem IsFirstOfCycle.congr (h : g.IsFirstOfCycle trigger s v)
    (hmutual : Mutual g.children s w) : g.IsFirstOfCycle trigger w v := by
  obtain ⟨fn, hfn, hsearch⟩ := h
  exact ⟨fn, fun x => (hfn x).trans ⟨hmutual.symm.trans, hmutual.trans⟩, hsearch⟩

theorem IsFirstOfCycle.unique (h : g.IsFirstOfCycle trigger s v)
    (h' : g.IsFirstOfCycle trigger s w) : v = w := by
  obtain ⟨fn, hfn, hsearch⟩ := h
  obtain ⟨fn', hfn', hsearch'⟩ := h'
  have hsame : fn = fn' := by
    funext x
    exact Bool.eq_iff_iff.mpr ((hfn x).trans (hfn' x).symm)
  rw [← hsame, hsearch] at hsearch'
  exact Option.some.inj (Except.ok.inj hsearch')

theorem IsFirstOfCycle.isMutual (hg : g.ChildrenExist) (htrigger : trigger ∈ g.getNodes)
    (h : g.IsFirstOfCycle trigger s v) : Mutual g.children s v := by
  obtain ⟨fn, hfn, hsearch⟩ := h
  rw [depthFirstSearch_eq hg htrigger, Except.ok.injEq] at hsearch
  exact (hfn v).mp (List.find?_some hsearch)

/-- In a part of a cycle that has the first node of the cycle, that node is first. -/
theorem firstNode?_of_isFirstOfCycle (hg : g.ChildrenExist) (htrigger : trigger ∈ g.getNodes)
    (h : g.IsFirstOfCycle trigger s v) (hv : v ∈ cycle)
    (hcycle : ∀ w ∈ cycle, Mutual g.children s w) : g.firstNode? trigger cycle = some v := by
  obtain ⟨fn, hfn, hsearch⟩ := h
  rw [depthFirstSearch_eq hg htrigger, Except.ok.injEq, List.find?_eq_some_iff_append] at hsearch
  obtain ⟨-, before, after, hsplit, hbefore⟩ := hsearch
  rw [firstNode?, List.find?_eq_some_iff_append]
  refine ⟨decide_eq_true hv, before, after, hsplit, fun w hw => ?_⟩
  have hnot : ¬ fn w = true := by simpa using hbefore w hw
  simpa using fun hmem => hnot ((hfn w).mpr (hcycle w hmem))

theorem exists_isFirstOfCycle (hg : g.ChildrenExist) (htrigger : trigger ∈ g.getNodes)
    (hreach : ReflTransGen g.Step trigger s) :
    ∃ v, g.IsFirstOfCycle trigger s v := by
  classical
  obtain ⟨v, hv⟩ := Option.isSome_iff_exists.mp
    ((List.find?_isSome (p := fun v => decide (Mutual g.children s v))).mpr
      ⟨s, mem_preorder hg htrigger hreach, decide_eq_true (Mutual.refl s)⟩)
  refine ⟨v, fun v => decide (Mutual g.children s v), fun v => decide_eq_true_iff, ?_⟩
  rw [depthFirstSearch_eq hg htrigger, hv]

theorem exists_components (hg : g.ChildrenExist) :
    ∃ components, g.getStronglyConnectedComponents = .ok components ∧ Apart components ∧
      ∀ cycle ∈ components, ∀ v ∈ cycle, ∀ w ∈ cycle, Mutual g.children v w := by
  obtain ⟨components, hok, hcomponents, -⟩ := getStronglyConnectedComponents_eq hg
  have hparts := LowLinks.parts_run (trace_search hg).1
  refine ⟨components, hok, ?_, fun cycle hcycle => ?_⟩
  · have hdisjoint := hparts.disjoint
    rw [← hcomponents, List.pairwise_map] at hdisjoint
    exact hdisjoint.imp fun h v hv hv' => h hv hv'
  · exact hparts.same cycle.elements (hcomponents ▸ List.mem_map_of_mem hcycle)

/-- A start node is replaced by a node of its own component. -/
theorem mutual_replacement
    (hsame : ∀ cycle ∈ components, ∀ v ∈ cycle, ∀ w ∈ cycle, Mutual g.children v w) (s : INode) :
    Mutual g.children s (g.replacement trigger components s) := by
  obtain heq | ⟨cycle, hcycle, hs, hmem⟩ := g.replacement_eq_or_mem trigger components s
  · rw [heq]
    exact .refl s
  · exact hsame cycle hcycle s hs _ hmem

theorem reflTransGen_of_mutual (hreach : ReflTransGen g.Step trigger s)
    (hmutual : Mutual g.children s v) : ReflTransGen g.Step trigger v :=
  hreach.trans (ReflTransGen.mono (fun _ _ hstep => mem_children.mp hstep) _ _ hmutual.1)

/-- `handleCycles` does what it is for exactly if the connections lead to nodes and no cycle of a
start node is torn from its first node. -/
theorem handlesCycles_iff (htrigger : trigger ∈ g.getNodes)
    (hreach : ∀ s ∈ startNodes, ReflTransGen g.Step trigger s) :
    g.HandlesCycles startNodes trigger ↔ g.ChildrenExist ∧ g.KeepsFirst startNodes trigger := by
  constructor
  · rintro ⟨result, hresult, hmem, -⟩
    have hg : g.ChildrenExist := by
      cases hcomponents : g.getStronglyConnectedComponents with
      | ok components => exact childrenExist_of_ok hcomponents
      | error e =>
        rw [handleCycles, hcomponents] at hresult
        cases hresult
    obtain ⟨components, hok, hapart, hsame⟩ := exists_components hg
    obtain ⟨result', hresult', hreplaced⟩ :=
      exists_handleCycles_eq_ok hg htrigger hreach hok hapart
    obtain rfl := Except.ok.inj (hresult.symm.trans hresult')
    refine ⟨hg, fun s hs hcycle first hfirst => ?_⟩
    have hmutual : Mutual g.children s (g.replacement trigger components s) :=
      mutual_replacement hsame s
    obtain ⟨-, hnot⟩ | ⟨s', -, -, hfirst'⟩ := (hmem _).mp ((hreplaced _).mpr ⟨s, hs, rfl⟩)
    · exact absurd (hcycle.congr hmutual) hnot
    · -- what the start node is replaced by is the first node of its own cycle
      have hsame' := hfirst'.isMutual hg htrigger
      have heq : first = g.replacement trigger components s :=
        hfirst.unique (hfirst'.congr (hsame'.trans hmutual.symm))
      rw [heq]
      refine (g.replacement_eq_or_mem trigger components s).imp_right ?_
      exact fun hin => ⟨components, hok, hin⟩
  · rintro ⟨hg, hkeeps⟩
    obtain ⟨components, hok, hapart, hsame⟩ := exists_components hg
    have hfirst : ∀ s ∈ startNodes, g.OnCycle s →
        g.IsFirstOfCycle trigger s (g.replacement trigger components s) := by
      intro s hs hcycle
      obtain ⟨first, hfirst⟩ := exists_isFirstOfCycle hg htrigger (hreach s hs)
      have hin {cycle : InsertionSet INode} (hc : cycle ∈ components) (hs : s ∈ cycle)
          (hmem : first ∈ cycle) : g.replacement trigger components s = first := by
        rw [replacement_of_mem hapart hc hs,
          firstNode?_of_isFirstOfCycle hg htrigger hfirst hmem (hsame cycle hc s hs)]
        rfl
      have heq : g.replacement trigger components s = first := by
        obtain rfl | ⟨components', hok', cycle, hc, hs, hmem⟩ := hkeeps s hs hcycle first hfirst
        · by_cases hmem : ∃ cycle ∈ components, first ∈ cycle
          · obtain ⟨cycle, hc, hmem⟩ := hmem
            exact hin hc hmem hmem
          · exact replacement_of_notMem fun cycle hc hfc => hmem ⟨cycle, hc, hfc⟩
        · obtain rfl := Except.ok.inj (hok.symm.trans hok')
          exact hin hc hs hmem
      rwa [heq]
    obtain ⟨result, hresult, hmem⟩ := exists_handleCycles_eq_ok hg htrigger hreach hok hapart
    refine ⟨result, hresult, fun v => (hmem v).trans ?_, ?_⟩
    · constructor
      · rintro ⟨s, hs, rfl⟩
        by_cases hcycle : g.OnCycle s
        · exact .inr ⟨s, hs, hcycle, hfirst s hs hcycle⟩
        · -- there is nothing else in its component
          have heq : g.replacement trigger components s = s := by
            by_contra hne
            exact hcycle ⟨_, hne, mutual_replacement hsame s⟩
          rw [heq]
          exact .inl ⟨hs, hcycle⟩
      · rintro (⟨hv, hcycle⟩ | ⟨s, hs, hcycle, hv⟩)
        · refine ⟨v, hv, ?_⟩
          by_contra hne
          exact hcycle ⟨_, hne, mutual_replacement hsame v⟩
        · exact ⟨s, hs, (hfirst s hs hcycle).unique hv⟩
    · have hreach' : ∀ v ∈ result, ReflTransGen g.Step trigger v := by
        intro v hv
        obtain ⟨s, hs, rfl⟩ := (hmem v).mp hv
        exact reflTransGen_of_mutual (hreach s hs) (mutual_replacement hsame s)
      obtain ⟨again, hagain, hmem'⟩ := exists_handleCycles_eq_ok hg htrigger hreach' hok hapart
      refine ⟨again, hagain, fun v => (hmem' v).trans ?_⟩
      constructor
      · rintro ⟨w, hw, rfl⟩
        obtain ⟨s, hs, rfl⟩ := (hmem w).mp hw
        rw [replacement_replacement hapart]
        exact hw
      · intro hv
        obtain ⟨s, hs, rfl⟩ := (hmem v).mp hv
        exact ⟨_, hv, replacement_replacement hapart⟩

/-- Where the sets that are returned are the components, no cycle is torn. -/
theorem KeepsFirst.of_findsComponents (hreach : ∀ s ∈ startNodes, ReflTransGen g.Step trigger s)
    (htrigger : trigger ∈ g.getNodes) (h : g.FindsComponents) :
    g.KeepsFirst startNodes trigger := by
  obtain ⟨components, hok, hclassifies⟩ := h
  have hg := childrenExist_of_ok hok
  intro s hs _ first hfirst
  have hmutual := hfirst.isMutual hg htrigger
  have hmem {v : INode} (hv : ReflTransGen g.Step trigger v) : v ∈ g.getNodes := by
    induction hv with
    | refl => exact htrigger
    | tail _ hstep ih => exact hg _ ih _ (mem_children.mpr hstep)
  have hs := hreach s hs
  obtain ⟨elements, hin, hsc, hfc⟩ := (hclassifies.same_iff s (hmem hs) first
    (hmem (reflTransGen_of_mutual hs hmutual))).mpr hmutual
  obtain ⟨cycle, hcycle, rfl⟩ := List.mem_map.mp hin
  exact .inr ⟨components, hok, cycle, hcycle, hsc, hfc⟩

/-! ### Cycles behind a trigger -/

private def cycleNode (name : String) : INode := { name }

/-- A trigger in front of nodes that are connected to each other. -/
private def behindTrigger (names : List String) (steps : List (String × String)) : DirectedGraph :=
  steps.foldl (fun g (source, target) =>
      g.setConnection { fromNode := cycleNode source, toNode := cycleNode target })
    (empty.addNodes (("trigger" :: names).map cycleNode))

/-- `a` and `b` lead to each other. -/
private def twoCycle : DirectedGraph :=
  behindTrigger ["a", "b"] [("trigger", "a"), ("a", "b"), ("b", "a")]

/-- A start node of a cycle is replaced by the node that is next to the trigger. -/
theorem handlesCycles_twoCycle :
    twoCycle.HandlesCycles (.ofList [cycleNode "b"]) (cycleNode "trigger") := by
  have htrigger : cycleNode "trigger" ∈ twoCycle.getNodes := by decide +kernel
  have hg : twoCycle.ChildrenExist := by
    unfold ChildrenExist
    decide +kernel
  have hreach : ∀ s ∈ InsertionSet.ofList [cycleNode "b"],
      ReflTransGen twoCycle.Step (cycleNode "trigger") s := by
    intro s hs
    obtain rfl : s = cycleNode "b" := by simpa using hs
    have hfirst : twoCycle.Step (cycleNode "trigger") (cycleNode "a") := by decide +kernel
    exact (ReflTransGen.single hfirst).tail (by decide +kernel)
  refine (handlesCycles_iff htrigger hreach).mpr ⟨hg, fun s hs _ first hfirst => ?_⟩
  obtain rfl : s = cycleNode "b" := by simpa using hs
  have hin : first ∈ [cycleNode "a", cycleNode "b"] := by
    have hclosed : ∀ u ∈ [cycleNode "a", cycleNode "b"], ∀ child ∈ twoCycle.children u,
        child ∈ [cycleNode "a", cycleNode "b"] := by decide +kernel
    have hpath := (hfirst.isMutual hg htrigger).1
    clear hfirst
    induction hpath with
    | refl => decide
    | tail _ hstep ih => exact hclosed _ ih _ hstep
  obtain rfl | rfl : first = cycleNode "a" ∨ first = cycleNode "b" := by simpa using hin
  · exact .inr (by decide +kernel)
  · exact .inl rfl

/-- `r` leads to `w`, `w` to `v` and then back to `r`, and `v` to `w`. -/
private def tornCycle : DirectedGraph :=
  behindTrigger ["r", "w", "v"]
    [("trigger", "r"), ("r", "w"), ("w", "v"), ("v", "w"), ("w", "r")]

/-- The cycle is in none of the sets that are returned, so its start node stays as it is. -/
theorem not_handlesCycles_tornCycle :
    ¬ tornCycle.HandlesCycles (.ofList [cycleNode "v"]) (cycleNode "trigger") := by
  rintro ⟨result, hresult, hmem, -⟩
  have hstays : tornCycle.handleCycles (.ofList [cycleNode "v"]) (cycleNode "trigger")
      = .ok (.ofList [cycleNode "v"]) := by decide +kernel
  obtain rfl := Except.ok.inj (hstays.symm.trans hresult)
  have hg : tornCycle.ChildrenExist := by
    unfold ChildrenExist
    decide +kernel
  have hback : Mutual tornCycle.children (cycleNode "v") (cycleNode "r") := by
    have hvw : cycleNode "w" ∈ tornCycle.children (cycleNode "v") := by decide +kernel
    have hwr : cycleNode "r" ∈ tornCycle.children (cycleNode "w") := by decide +kernel
    have hrw : cycleNode "w" ∈ tornCycle.children (cycleNode "r") := by decide +kernel
    have hwv : cycleNode "v" ∈ tornCycle.children (cycleNode "w") := by decide +kernel
    exact ⟨(ReflTransGen.single hvw).tail hwr, (ReflTransGen.single hrw).tail hwv⟩
  obtain ⟨-, hnot⟩ | ⟨s, hs, -, fn, hfn, hsearch⟩ := (hmem (cycleNode "v")).mp (by decide +kernel)
  · exact hnot ⟨cycleNode "r", by decide, hback⟩
  · obtain rfl : s = cycleNode "v" := by simpa using hs
    have hr : fn (cycleNode "r") = true := (hfn _).mpr hback
    have horder : tornCycle.preorder (cycleNode "trigger")
        = [cycleNode "trigger", cycleNode "r", cycleNode "w", cycleNode "v"] := by decide +kernel
    rw [depthFirstSearch_eq hg (by decide +kernel), Except.ok.injEq, horder] at hsearch
    -- the search stops at `r` at the latest
    cases htrigger : fn (cycleNode "trigger") with
    | true =>
      rw [List.find?_cons_of_pos htrigger] at hsearch
      exact absurd (Option.some.inj hsearch) (by decide)
    | false =>
      rw [List.find?_cons_of_neg (by simp [htrigger]), List.find?_cons_of_pos hr] at hsearch
      exact absurd (Option.some.inj hsearch) (by decide)

end DirectedGraph

end N8n
