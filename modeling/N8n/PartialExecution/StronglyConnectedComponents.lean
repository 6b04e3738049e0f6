import N8n.Foundations.InsertionSet
import N8n.Foundations.LowLinkClasses
import N8n.PartialExecution.DirectedGraph

/-!
# Strongly connected components of a workflow

`getStronglyConnectedComponents` follows the connections of every node to its direct children, with
a low link for each node. `followNode` is its recursive function. In a graph whose connections lead
from nodes to nodes it goes through the depth-first search of the graph, and keeps the low links of
`LowLinks.run` (`followNode_simulates`).

After a child has been followed, the low link of a node becomes that of the child *at that time*,
also for a child that is still being followed and whose low link is lowered later. So the sets that
the function returns are the strongly connected components exactly if the depth-first search, when
it leaves a node, has followed connections that lead back to the first node of its component
(`findsComponents_iff`).
-/

namespace N8n

namespace DirectedGraph

open DepthFirst

/-- The variables of `getStronglyConnectedComponents`. The top of the stack is its head. -/
structure SccState where
  id : ℕ
  visited : InsertionSet INode
  ids : InsertionMap INode ℕ
  lowLinkValues : InsertionMap INode ℕ
  stack : List INode
  stronglyConnectedComponents : List (InsertionSet INode)

namespace SccState

def initial : SccState := ⟨0, .empty, .empty, .empty, [], []⟩

/-- The first visit of a node gives it the next number. -/
def enter (s : SccState) (node : INode) : SccState :=
  { s with
    visited := s.visited.add node
    lowLinkValues := s.lowLinkValues.set node s.id
    ids := s.ids.set node s.id
    id := s.id + 1
    stack := node :: s.stack }

/-- If a child is on the stack, the low link of the node is lowered to the one of the child. -/
def lower (s : SccState) (node child : INode) : Except GraphError SccState :=
  if child ∈ s.stack then
    match s.lowLinkValues.get? child, s.lowLinkValues.get? node with
    | some childLowLinkValue, some ownLowLinkValue =>
      .ok { s with
        lowLinkValues := s.lowLinkValues.set node (min childLowLinkValue ownLowLinkValue) }
    | _, _ => .error .assertion
  else .ok s

/-- The loop that takes nodes from the stack until one has a different low link. -/
def popWhile (lowLinkValues : InsertionMap INode ℕ) (ownId : ℕ) :
    List INode → InsertionSet INode → InsertionSet INode × List INode
  | [], scc => (scc, [])
  | next :: stack, scc =>
    if lowLinkValues.get? next = some ownId then popWhile lowLinkValues ownId stack (scc.add next)
    else (scc, next :: stack)

/-- What happens after all children of a node have been followed. -/
def finish (s : SccState) (node : INode) : Except GraphError SccState :=
  match s.ids.get? node, s.lowLinkValues.get? node with
  | some ownId, some ownLowLinkValue =>
    if ownId = ownLowLinkValue then
      let (scc, stack) := popWhile s.lowLinkValues ownId s.stack .empty
      .ok { s with
        stack
        stronglyConnectedComponents :=
          if 0 < scc.elements.length then s.stronglyConnectedComponents ++ [scc]
          else s.stronglyConnectedComponents }
    else .ok s
  | _, _ => .error .assertion

end SccState

/-- The nodes that the connections of a node lead to. -/
def children (g : DirectedGraph) (node : INode) : List INode :=
  (g.childConnections node).map GraphConnection.toNode

/-- `followNode`, with a bound of the depth of nested calls. -/
def followNode (g : DirectedGraph) : ℕ → SccState → INode → Except GraphError SccState
  | 0, _, _ => .error .outOfFuel
  | depth + 1, s, node =>
    if node ∈ s.visited then .ok s
    else do
      let directChildren := (← g.getDirectChildConnections node).map GraphConnection.toNode
      let s ← directChildren.foldlM
        (fun s child => do (← g.followNode depth s child).lower node child) (s.enter node)
      s.finish node

def getStronglyConnectedComponents (g : DirectedGraph) :
    Except GraphError (List (InsertionSet INode)) := do
  let s ← g.getNodes.foldlM (g.followNode (g.getNodes.length + 1)) .initial
  return s.stronglyConnectedComponents

variable {g : DirectedGraph} {s s' : SccState} {events : List (Event INode)} {path : List INode}
  {node child : INode} {depth : ℕ}

theorem mem_children : child ∈ g.children node ↔ g.Step node child := by
  simp [children, mem_childConnections, DirectedGraph.Step, and_assoc]

/-! ### The low links of the search -/

/-- The variables hold what the search has entered, its numbers and its low links. -/
structure Matches (s : SccState) (events : List (Event INode)) : Prop where
  id : s.id = (entered events).length
  visited : s.visited.elements = entered events
  ids : ∀ v ∈ entered events, s.ids.get? v = some (number events v)
  low : ∀ v ∈ entered events, s.lowLinkValues.get? v = some ((LowLinks.run events).low v)
  stack : s.stack = (LowLinks.run events).stack
  nodup : s.stack.Nodup
  entered : ∀ v ∈ s.stack, v ∈ DepthFirst.entered events
  components : s.stronglyConnectedComponents.map InsertionSet.elements =
    (LowLinks.run events).components

namespace Matches

theorem initial : Matches .initial [] where
  id := rfl
  visited := rfl
  ids := fun _ hv => absurd hv List.not_mem_nil
  low := fun _ hv => absurd hv List.not_mem_nil
  stack := rfl
  nodup := .nil
  entered := fun _ hv => absurd hv List.not_mem_nil
  components := rfl

theorem mem_visited (h : Matches s events) :
    node ∈ s.visited ↔ node ∈ DepthFirst.entered events := by
  rw [InsertionSet.mem_def, h.visited]

theorem enter (h : Matches s events) (hnew : node ∉ DepthFirst.entered events) :
    Matches (s.enter node) (events ++ [.enter node]) := by
  have hlow : (LowLinks.run (events ++ [.enter node])).low =
      Function.update (LowLinks.run events).low node (DepthFirst.entered events).length := by
    rw [LowLinks.run_append_singleton, ← LowLinks.order_run]
    rfl
  have hne {v : INode} (hv : v ∈ DepthFirst.entered events) : v ≠ node :=
    ne_of_mem_of_not_mem hv hnew
  have hmem {v : INode} : v ∈ DepthFirst.entered (events ++ [.enter node]) ↔
      v ∈ DepthFirst.entered events ∨ v = node := by
    rw [entered_append, entered_enter, List.mem_append, List.mem_singleton]
  exact {
    id := by
      rw [entered_append, entered_enter, List.length_append, List.length_singleton, ← h.id]
      rfl
    visited := by
      rw [entered_append, entered_enter, ← h.visited]
      exact InsertionSet.elements_add_of_notMem (h.mem_visited.not.mpr hnew)
    ids := by
      intro v hv
      obtain hv | rfl := hmem.mp hv
      · rw [number_append hv, ← h.ids v hv]
        exact InsertionMap.get?_set_of_ne _ (hne hv) _
      · rw [number_enter hnew, ← h.id]
        exact InsertionMap.get?_set_self _ _ _
    low := by
      intro v hv
      rw [hlow]
      obtain hv | rfl := hmem.mp hv
      · rw [Function.update_of_ne (hne hv), ← h.low v hv]
        exact InsertionMap.get?_set_of_ne _ (hne hv) _
      · rw [Function.update_self, ← h.id]
        exact InsertionMap.get?_set_self _ _ _
    stack := by
      rw [LowLinks.run_append_singleton]
      exact congrArg (node :: ·) h.stack
    nodup := List.nodup_cons.mpr ⟨fun hstack => hnew (h.entered node hstack), h.nodup⟩
    entered := List.forall_mem_cons.mpr
      ⟨hmem.mpr (.inr rfl), fun v hv => hmem.mpr (.inl (h.entered v hv))⟩
    components := by
      rw [LowLinks.run_append_singleton]
      exact h.components }

theorem lower (h : Matches s events) (hnode : node ∈ DepthFirst.entered events) :
    ∃ s', s.lower node child = .ok s' ∧ Matches s' (events ++ [.follow node child]) := by
  have hentered : DepthFirst.entered (events ++ [.follow node child]) =
      DepthFirst.entered events := by
    rw [entered_append, entered_follow, List.append_nil]
  have hrun : LowLinks.run (events ++ [.follow node child]) =
      (LowLinks.run events).follow node child := LowLinks.run_append_singleton _
  by_cases hchild : child ∈ s.stack
  · have hchild' := h.stack ▸ hchild
    set lowest := min ((LowLinks.run events).low child) ((LowLinks.run events).low node)
      with hlowest
    refine ⟨{ s with lowLinkValues := s.lowLinkValues.set node lowest }, ?_, ?_⟩
    · rw [SccState.lower, if_pos hchild, h.low child (h.entered child hchild), h.low node hnode]
    · exact {
        id := hentered ▸ h.id
        visited := hentered ▸ h.visited
        ids := by simpa only [hentered, number_append_follow] using h.ids
        low := by
          rw [hentered, hrun]
          intro v hv
          obtain rfl | hne := eq_or_ne v node
          · rw [LowLinks.low_follow_of_mem hchild', ← hlowest]
            exact InsertionMap.get?_set_self _ _ _
          · rw [LowLinks.low_follow_of_ne hne, ← h.low v hv]
            exact InsertionMap.get?_set_of_ne _ hne _
        stack := by
          rw [hrun, LowLinks.stack_follow]
          exact h.stack
        nodup := h.nodup
        entered := hentered ▸ h.entered
        components := by
          rw [hrun, LowLinks.components_follow]
          exact h.components }
  · refine ⟨s, if_neg hchild, ?_⟩
    have hsame : (LowLinks.run events).follow node child = LowLinks.run events :=
      if_neg (h.stack ▸ hchild)
    exact {
      id := hentered ▸ h.id
      visited := hentered ▸ h.visited
      ids := by simpa only [hentered, number_append_follow] using h.ids
      low := by
        rw [hentered, hrun, hsame]
        exact h.low
      stack := by
        rw [hrun, hsame]
        exact h.stack
      nodup := h.nodup
      entered := hentered ▸ h.entered
      components := by
        rw [hrun, hsame]
        exact h.components }

/-- The loop takes the nodes from the top of the stack that have a low link. -/
theorem popWhile_eq {values : InsertionMap INode ℕ} {low : INode → ℕ} (ownId : ℕ)
    {stack : List INode} {scc : InsertionSet INode}
    (hlow : ∀ v ∈ stack, values.get? v = some (low v)) (hnodup : (scc.elements ++ stack).Nodup) :
    let (scc', stack') := SccState.popWhile values ownId stack scc
    scc'.elements = scc.elements ++ stack.takeWhile (low · = ownId) ∧
      stack' = stack.dropWhile (low · = ownId) := by
  induction stack generalizing scc with
  | nil => exact ⟨(List.append_nil _).symm, rfl⟩
  | cons next stack ih =>
    obtain ⟨hnext, hlow⟩ := List.forall_mem_cons.mp hlow
    have hnew : next ∉ scc := fun hmem =>
      (List.nodup_append.mp hnodup).2.2 next hmem next List.mem_cons_self rfl
    have hadd := InsertionSet.elements_add_of_notMem hnew
    rw [SccState.popWhile, hnext, List.takeWhile_cons, List.dropWhile_cons]
    by_cases heq : low next = ownId
    · have hnodup' : ((scc.add next).elements ++ stack).Nodup := by
        rw [hadd, List.append_assoc]
        exact hnodup
      obtain ⟨hscc, hstack⟩ := ih hlow hnodup'
      rw [if_pos (congrArg some heq), if_pos (decide_eq_true heq), if_pos (decide_eq_true heq)]
      refine ⟨?_, hstack⟩
      rw [hscc, hadd, List.append_assoc]
      rfl
    · have hne : some (low next) ≠ some ownId := fun hsome => heq (Option.some.inj hsome)
      have hfalse : ¬ decide (low next = ownId) = true := fun h => heq (of_decide_eq_true h)
      rw [if_neg hne, if_neg hfalse, if_neg hfalse]
      exact ⟨(List.append_nil _).symm, rfl⟩

theorem finish (h : Matches s events) (hnode : node ∈ DepthFirst.entered events) :
    ∃ s', s.finish node = .ok s' ∧ Matches s' (events ++ [.leave node]) := by
  have hentered : DepthFirst.entered (events ++ [.leave node]) = DepthFirst.entered events := by
    rw [entered_append, entered_leave, List.append_nil]
  have hrun : LowLinks.run (events ++ [.leave node]) = (LowLinks.run events).leave node :=
    LowLinks.run_append_singleton _
  have hlow : ∀ v ∈ DepthFirst.entered (events ++ [.leave node]),
      s.lowLinkValues.get? v = some ((LowLinks.run (events ++ [.leave node])).low v) := by
    rw [hentered, hrun, LowLinks.low_leave]
    exact h.low
  rw [SccState.finish, h.ids node hnode, h.low node hnode]
  dsimp only
  have horder : (LowLinks.run events).order = DepthFirst.entered events := LowLinks.order_run
  have hleave : (LowLinks.run events).leave node = _ := LowLinks.leave_eq horder
  by_cases heq : (LowLinks.run events).low node = number events node
  · rw [if_pos heq] at hleave
    rw [if_pos heq.symm]
    have hvalues : ∀ v ∈ s.stack, s.lowLinkValues.get? v = some ((LowLinks.run events).low v) :=
      fun v hv => h.low v (h.entered v hv)
    have hnodup : ((InsertionSet.empty : InsertionSet INode).elements ++ s.stack).Nodup := h.nodup
    have hpop := popWhile_eq (number events node) hvalues hnodup
    generalize SccState.popWhile s.lowLinkValues (number events node) s.stack .empty = pair
      at hpop ⊢
    obtain ⟨scc, stack⟩ := pair
    obtain ⟨hscc, rfl⟩ := hpop
    refine ⟨_, rfl, ?_⟩
    exact {
      id := hentered ▸ h.id
      visited := hentered ▸ h.visited
      ids := by simpa only [hentered, number_append_leave] using h.ids
      low := hlow
      stack := by
        rw [hrun, hleave, LowLinks.State.pop, ← h.stack]
      nodup := h.nodup.sublist (List.dropWhile_sublist _)
      entered := fun v hv => hentered ▸ h.entered v (List.dropWhile_subset _ hv)
      components := by
        rw [InsertionSet.elements_empty, List.nil_append] at hscc
        rw [hrun, hleave, LowLinks.State.pop, ← h.stack, ← h.components, ← hscc]
        dsimp only
        obtain hnil | hne := eq_or_ne scc.elements []
        · rw [if_pos hnil, hnil]
          rfl
        · rw [if_neg hne, if_pos (List.length_pos_iff.mpr hne), List.map_append]
          rfl }
  · rw [if_neg heq] at hleave
    refine ⟨s, if_neg (Ne.symm heq), ?_⟩
    exact {
      id := hentered ▸ h.id
      visited := hentered ▸ h.visited
      ids := by simpa only [hentered, number_append_leave] using h.ids
      low := hlow
      stack := by
        rw [hrun, hleave]
        exact h.stack
      nodup := h.nodup
      entered := hentered ▸ h.entered
      components := by
        rw [hrun, hleave]
        exact h.components }

end Matches

/-- The connections of the nodes lead to nodes. -/
def ChildrenExist (g : DirectedGraph) : Prop :=
  ∀ node ∈ g.getNodes, ∀ child ∈ g.children node, child ∈ g.getNodes

/-- A visit of a node goes on with the search, and keeps its low links. -/
theorem followNode_simulates (hg : g.ChildrenExist) (h : Trace g.children events path)
    (hmatches : Matches s events) (hpath : ∀ u ∈ path, u ∈ g.getNodes)
    (hnode : node ∈ g.getNodes) (hstep : ∀ u ∈ path.head?, node ∈ g.children u)
    (hdepth : g.getNodes.length < depth + path.length) :
    ∃ s', g.followNode depth s node = .ok s' ∧
      Matches s' (visit g.children depth events node) := by
  induction depth generalizing s events path node with
  | zero =>
    have hle := (h.nodup_path.subperm hpath).length_le
    omega
  | succ depth ih =>
    rw [followNode, visit]
    by_cases hvisited : node ∈ s.visited
    · rw [if_pos hvisited, if_pos (hmatches.mem_visited.mp hvisited)]
      exact ⟨s, rfl, hmatches⟩
    · have hnew := hmatches.mem_visited.not.mp hvisited
      have hpath' := List.forall_mem_cons.mpr ⟨hnode, hpath⟩
      have hdepth' : g.getNodes.length < depth + (node :: path).length := by
        rw [List.length_cons]
        omega
      rw [if_neg hvisited, if_neg hnew, getDirectChildConnections_of_mem hnode]
      -- the children are followed as they are in the search
      obtain ⟨s₁, hfold, htrace, hmatches₁⟩ := ExceptFold.foldlM_simulates
        (R := fun s events => Trace g.children events (node :: path) ∧ Matches s events)
        (f := fun s child => do (← g.followNode depth s child).lower node child)
        (k := fun events child => visit g.children depth events child ++ [.follow node child])
        (l := g.children node)
        (by
          rintro s events child hchild ⟨htrace, hmatches⟩
          have hstep' : ∀ u ∈ (node :: path).head?, child ∈ g.children u :=
            fun u hu => Option.some.inj hu ▸ hchild
          obtain ⟨htrace', hentered, -⟩ :=
            htrace.visit hg hpath' (hg node hnode child hchild) hstep' hdepth'
          obtain ⟨s', hs', hmatches'⟩ := ih htrace hmatches hpath' (hg node hnode child hchild)
            hstep' hdepth'
          have hlower : ∃ s'', s'.lower node child = .ok s'' ∧ Matches s'' _ :=
            hmatches'.lower (htrace'.mem_entered_of_mem_path List.mem_cons_self)
          obtain ⟨s'', hs'', hmatches''⟩ := hlower
          refine ⟨s'', ?_, htrace'.follow hchild hentered, hmatches''⟩
          rw [hs']
          exact hs'')
        ⟨h.enter hnew hstep, hmatches.enter hnew⟩
      obtain ⟨s', hfinish, hmatches'⟩ :=
        hmatches₁.finish (htrace.mem_entered_of_mem_path List.mem_cons_self)
      refine ⟨s', ?_, hmatches'⟩
      change (do
        let s ← (g.children node).foldlM
          (fun s child => do (← g.followNode depth s child).lower node child) (s.enter node)
        s.finish node) = _
      rw [hfold]
      exact hfinish

/-! ### Graphs whose connections leave the graph -/

theorem mem_getNodes_of_ok {connections : List GraphConnection}
    (h : g.getDirectChildConnections node = .ok connections) :
    node ∈ g.getNodes ∧ connections = g.childConnections node := by
  rw [getDirectChildConnections] at h
  split_ifs at h with hexists
  exact ⟨nodeExists_iff.mp hexists, (Except.ok.inj h).symm⟩

theorem visited_lower (h : s.lower node child = .ok s') : s'.visited = s.visited := by
  rw [SccState.lower] at h
  split_ifs at h
  · split at h
    · rw [← Except.ok.inj h]
    · cases h
  · rw [Except.ok.inj h]

theorem visited_finish (h : s.finish node = .ok s') : s'.visited = s.visited := by
  rw [SccState.finish] at h
  split at h
  · split_ifs at h
    · rw [← Except.ok.inj h]
    · rw [Except.ok.inj h]
  · cases h

/-- The nodes that have been visited in between are nodes of the graph, as are their children. -/
structure Found (g : DirectedGraph) (visited visited' : InsertionSet INode) : Prop where
  mem : ∀ u ∈ visited', u ∈ g.getNodes
  mono : ∀ u ∈ visited, u ∈ visited'
  children : ∀ u ∈ visited', u ∉ visited → ∀ child ∈ g.children u, child ∈ g.getNodes

theorem Found.refl {visited : InsertionSet INode} (h : ∀ u ∈ visited, u ∈ g.getNodes) :
    Found g visited visited :=
  ⟨h, fun _ hu => hu, fun _ hu hnew => absurd hu hnew⟩

theorem Found.trans {visited visited' visited'' : InsertionSet INode}
    (h : Found g visited visited') (h' : Found g visited' visited'') :
    Found g visited visited'' where
  mem := h'.mem
  mono := fun u hu => h'.mono u (h.mono u hu)
  children := by
    intro u hu hnew
    by_cases hmem : u ∈ visited'
    · exact h.children u hmem hnew
    · exact h'.children u hu hmem

/-- What a visit of a child and the step after it keep. -/
theorem Found.visit_child {start : InsertionSet INode} {b b' : SccState}
    (hvisit : ∀ {s s' : SccState} {node : INode}, (∀ u ∈ s.visited, u ∈ g.getNodes) →
      g.followNode depth s node = .ok s' → Found g s.visited s'.visited ∧ node ∈ s'.visited)
    (h : Found g start b.visited)
    (hstep : (do (← g.followNode depth b child).lower node child) = Except.ok b') :
    Found g start b'.visited ∧ child ∈ g.getNodes := by
  cases hfollow : g.followNode depth b child with
  | error e =>
    rw [hfollow] at hstep
    cases hstep
  | ok b₁ =>
    rw [hfollow] at hstep
    obtain ⟨hfound, hmem⟩ := hvisit h.mem hfollow
    have hvisited : b'.visited = b₁.visited := visited_lower hstep
    rw [hvisited]
    exact ⟨h.trans hfound, hfound.mem child hmem⟩

theorem found_of_followNode (hmem : ∀ u ∈ s.visited, u ∈ g.getNodes)
    (h : g.followNode depth s node = .ok s') :
    Found g s.visited s'.visited ∧ node ∈ s'.visited := by
  induction depth generalizing s node s' with
  | zero => cases h
  | succ depth ih =>
    rw [followNode] at h
    split_ifs at h with hvisited
    · rw [← Except.ok.inj h]
      exact ⟨.refl hmem, hvisited⟩
    · cases hconnections : g.getDirectChildConnections node with
      | error e =>
        rw [hconnections] at h
        cases h
      | ok connections =>
        obtain ⟨hnode, rfl⟩ := mem_getNodes_of_ok hconnections
        rw [hconnections] at h
        change (do
          let s ← (g.children node).foldlM
            (fun s child => do (← g.followNode depth s child).lower node child) (s.enter node)
          s.finish node) = _ at h
        cases hfold : (g.children node).foldlM
            (fun s child => do (← g.followNode depth s child).lower node child) (s.enter node) with
        | error e =>
          rw [hfold] at h
          cases h
        | ok s₁ =>
          rw [hfold] at h
          have hstart : Found g (s.enter node).visited (s.enter node).visited := by
            refine .refl fun u hu => ?_
            obtain rfl | hu := InsertionSet.mem_add.mp hu
            · exact hnode
            · exact hmem u hu
          have hfound : Found g (s.enter node).visited s₁.visited :=
            ExceptFold.foldlM_induct (P := fun b => Found g (s.enter node).visited b.visited)
              (fun b child _ b' hb hstep => (hb.visit_child ih hstep).1) hstart hfold
          have hvisited' : s'.visited = s₁.visited := visited_finish h
          rw [hvisited']
          refine ⟨⟨hfound.mem, fun u hu => hfound.mono u (InsertionSet.mem_add.mpr (.inr hu)), ?_⟩,
            hfound.mono node (InsertionSet.mem_add.mpr (.inl rfl))⟩
          intro u hu hnew child hchild
          obtain rfl | hne := eq_or_ne u node
          · obtain ⟨b, b', hb, hstep, -⟩ := ExceptFold.exists_step_of_foldlM_eq_ok
              (P := fun b => Found g (s.enter u).visited b.visited)
              (fun b child _ b' hb hstep => (hb.visit_child ih hstep).1) hstart hfold hchild
            exact (hb.visit_child ih hstep).2
          · exact hfound.children u hu
              (fun hmem => (InsertionSet.mem_add.mp hmem).elim hne hnew) child hchild

/-- When the loop over the nodes succeeds, it has visited the nodes of the graph. -/
theorem found_of_foldlM
    (h : g.getNodes.foldlM (g.followNode (g.getNodes.length + 1)) .initial = .ok s) :
    Found g .empty s.visited ∧ ∀ node ∈ g.getNodes, node ∈ s.visited := by
  have hstart : Found g .empty SccState.initial.visited :=
    .refl fun u hu => absurd hu (InsertionSet.notMem_empty u)
  have hstep (b : SccState) (root : INode) (b' : SccState) (hb : Found g .empty b.visited)
      (hroot : g.followNode (g.getNodes.length + 1) b root = .ok b') :
      Found g .empty b'.visited :=
    hb.trans (found_of_followNode hb.mem hroot).1
  refine ⟨ExceptFold.foldlM_induct (P := fun b => Found g .empty b.visited)
    (fun b root _ b' hb hroot => hstep b root b' hb hroot) hstart h, fun node hnode => ?_⟩
  obtain ⟨b, b', hb, hroot, hrest⟩ := ExceptFold.exists_step_of_foldlM_eq_ok
    (P := fun b => Found g .empty b.visited)
    (fun b root _ b' hb hroot => hstep b root b' hb hroot) hstart h hnode
  refine (hrest (fun b => Found g .empty b.visited ∧ node ∈ b.visited) ?_ ?_).2
  · rintro b root - b' ⟨hb, hmem⟩ hroot
    exact ⟨hstep b root b' hb hroot, (found_of_followNode hb.mem hroot).1.mono node hmem⟩
  · exact ⟨hstep b node b' hb hroot, (found_of_followNode hb.mem hroot).2⟩

theorem childrenExist_of_ok {components : List (InsertionSet INode)}
    (h : g.getStronglyConnectedComponents = .ok components) : g.ChildrenExist := by
  rw [getStronglyConnectedComponents] at h
  cases hfold : g.getNodes.foldlM (g.followNode (g.getNodes.length + 1)) .initial with
  | error e =>
    rw [hfold] at h
    cases h
  | ok s =>
    obtain ⟨hfound, hvisited⟩ := found_of_foldlM hfold
    exact fun node hnode =>
      hfound.children node (hvisited node hnode) (InsertionSet.notMem_empty node)

/-! ### The components -/

/-- The components that the function returns are those of the search. -/
theorem getStronglyConnectedComponents_eq (hg : g.ChildrenExist) :
    ∃ components, g.getStronglyConnectedComponents = .ok components ∧
      components.map InsertionSet.elements =
        (LowLinks.run (search g.children g.getNodes)).components ∧
      ∀ v, v ∈ entered (search g.children g.getNodes) ↔ v ∈ g.getNodes := by
  have hroots : ∀ root ∈ g.getNodes, root ∈ g.getNodes := fun root hroot => hroot
  obtain ⟨s, hfold, -, hmatches⟩ := ExceptFold.foldlM_simulates
    (R := fun s events => Trace g.children events [] ∧ Matches s events)
    (f := g.followNode (g.getNodes.length + 1))
    (k := visit g.children (g.getNodes.length + 1)) (l := g.getNodes)
    (fun s events root hroot ⟨htrace, hmatches⟩ => by
      have hpath : ∀ u ∈ ([] : List INode), u ∈ g.getNodes := fun u hu => nomatch hu
      have hstep : ∀ u ∈ ([] : List INode).head?, root ∈ g.children u := fun u hu => nomatch hu
      have hdepth : g.getNodes.length < g.getNodes.length + 1 + ([] : List INode).length :=
        Nat.lt_succ_self _
      obtain ⟨s', hs', hmatches'⟩ :=
        followNode_simulates hg htrace hmatches hpath hroot hstep hdepth
      exact ⟨s', hs', (htrace.visit hg hpath hroot hstep hdepth).1, hmatches'⟩)
    ⟨.nil, Matches.initial⟩
  obtain ⟨hfound, hvisited⟩ := found_of_foldlM hfold
  refine ⟨s.stronglyConnectedComponents, ?_, hmatches.components, fun v => ?_⟩
  · rw [getStronglyConnectedComponents, hfold]
    rfl
  · exact hmatches.mem_visited.symm.trans ⟨hfound.mem v, hvisited v⟩

/-- The sets that the function returns partition the nodes, and two nodes are in one of them exactly
if each is reachable from the other. -/
def FindsComponents (g : DirectedGraph) : Prop :=
  ∃ components, g.getStronglyConnectedComponents = .ok components ∧
    LowLinks.Classifies g.children g.getNodes (components.map InsertionSet.elements)

theorem findsComponents_iff (g : DirectedGraph) :
    g.FindsComponents ↔
      g.ChildrenExist ∧ LowLinks.Returns g.children (search g.children g.getNodes) := by
  have hclassifies (hg : g.ChildrenExist) : g.FindsComponents ↔
      LowLinks.Returns g.children (search g.children g.getNodes) := by
    obtain ⟨components, hok, hcomponents, hmem⟩ := getStronglyConnectedComponents_eq hg
    rw [← LowLinks.classifies_iff_returns (trace_search hg).1, ← hcomponents,
      LowLinks.classifies_congr hmem]
    constructor
    · rintro ⟨components', hok', h⟩
      obtain rfl := Except.ok.inj (hok.symm.trans hok')
      exact h
    · exact fun h => ⟨components, hok, h⟩
  constructor
  · intro h
    obtain ⟨components, hok, -⟩ := id h
    have hg := childrenExist_of_ok hok
    exact ⟨hg, (hclassifies hg).mp h⟩
  · rintro ⟨hg, h⟩
    exact (hclassifies hg).mpr h

/-! ### A component that loses its first node -/

private def sccNode (name : String) : INode := { name }

/-- `r` leads to `w`, `w` to `v` and then back to `r`, and `v` to `w`. -/
private def loopInLoop : DirectedGraph :=
  [(sccNode "r", sccNode "w"), (sccNode "w", sccNode "v"), (sccNode "v", sccNode "w"),
    (sccNode "w", sccNode "r")].foldl
    (fun g (source, target) => g.setConnection { fromNode := source, toNode := target })
    (DirectedGraph.empty.addNodes [sccNode "r", sccNode "w", sccNode "v"])

/-- The low link of `v` is the number that `w` has as its low link before it is lowered to `r`, so
when `r` is left there is nothing with its number on top of the stack. -/
theorem not_findsComponents_loopInLoop : ¬ loopInLoop.FindsComponents := by
  rintro ⟨components, hok, h⟩
  have heq : loopInLoop.getStronglyConnectedComponents = .ok [] := by decide +kernel
  obtain rfl := Except.ok.inj (heq.symm.trans hok)
  have hmem : sccNode "r" ∈ loopInLoop.getNodes := by decide +kernel
  obtain ⟨component, hcomponent, -⟩ := (h.mem_iff _).mp hmem
  cases hcomponent

end DirectedGraph

end N8n
