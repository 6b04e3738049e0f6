import N8n.Engine.InputData
import N8n.Workflow.ConnectionIndex

/-!
# The nodes before an input

`getHighestNode` is a recursion without a bound of its own. A call that goes deeper has put a node
with main inputs on `checkedNodes`, and no node gets there twice, so the calls are never nested
deeper than there are such nodes (`callHighestNode_eq`).

What it finds before an input is stated here over the connections of the workflow: a node is found
exactly if some node that is not disabled leads to the input, through nodes of the workflow and not
through the node itself. The one exception is a node without main inputs, which is its own highest
node if its `disabled` is `false`.
-/

namespace N8n

namespace Workflow

variable (w : Workflow)

/-! ### The calls -/

/-- One connection, when the search behind it may not return. -/
def visitHighestNode (search : String → List String → Option (List String × List String))
    (found : List String × List String) (connection : IConnection) :
    Option (List String × List String) :=
  if found.2.contains connection.node then some found
  else
    match w.getNode connection.node with
    | none => some found
    | some node =>
      (search connection.node found.2).map fun (addNodes, checkedNodes) =>
        let addNodes :=
          if addNodes.length = 0 ∧ node.disabled ≠ some true then [connection.node] else addNodes
        (addNewNodes found.1 addNodes, checkedNodes)

/-- `getHighestNode`, with the nodes found and those checked; `none` when its calls are nested
deeper than `fuel`. -/
def callHighestNode :
    ℕ → String → Option ℕ → List String → Option (List String × List String)
  | 0, _, _, _ => none
  | fuel + 1, nodeName, nodeConnectionIndex, checkedNodes =>
    match w.getNode nodeName with
    | none => some ([], checkedNodes)
    | some node =>
      let currentHighest := if node.disabled = some false then [nodeName] else []
      match (w.connectionsByDestinationNode.get? nodeName).bind (·.get? .main) with
      | none => some (currentHighest, checkedNodes)
      | some inputs =>
        if checkedNodes.contains nodeName then some (currentHighest, checkedNodes)
        else
          let connections := inputs.zipIdx.flatMap fun input =>
            if nodeConnectionIndex.isNone ∨ nodeConnectionIndex = some input.2 then
              input.1.getD []
            else []
          connections.foldlM
            (w.visitHighestNode fun name checkedNodes =>
              callHighestNode fuel name none checkedNodes)
            ([], checkedNodes ++ [nodeName])

variable {w}

theorem subset_foldl_addHighestNode
    {search : String → List String → List String × List String}
    (hsearch : ∀ name checkedNodes, checkedNodes ⊆ (search name checkedNodes).2)
    (connections : List IConnection) (found : List String × List String) :
    found.2 ⊆ (connections.foldl (w.addHighestNode search) found).2 := by
  induction connections generalizing found with
  | nil => exact List.Subset.refl _
  | cons connection connections ih =>
    refine List.Subset.trans ?_ (ih _)
    rw [addHighestNode]
    split
    · exact List.Subset.refl _
    · split
      · exact List.Subset.refl _
      · exact hsearch _ _

/-- What was checked stays checked. -/
theorem subset_highestNode (fuel : ℕ) (name : String) (index : Option ℕ)
    (checkedNodes : List String) :
    checkedNodes ⊆ (w.highestNode fuel name index checkedNodes).2 := by
  induction fuel generalizing name index checkedNodes with
  | zero => exact List.Subset.refl _
  | succ fuel ih =>
    rw [highestNode]
    cases w.getNode name with
    | none => exact List.Subset.refl _
    | some node =>
      simp only
      cases (w.connectionsByDestinationNode.get? name).bind (·.get? .main) with
      | none => exact List.Subset.refl _
      | some inputs =>
        by_cases hchecked : checkedNodes.contains name = true
        · simp only [if_pos hchecked]
          exact List.Subset.refl _
        · simp only [if_neg hchecked]
          exact List.Subset.trans (List.subset_append_left checkedNodes [name])
            (subset_foldl_addHighestNode (fun name checkedNodes => ih name none checkedNodes) _
              ([], checkedNodes ++ [name]))

/-- The calls behind connections return what the searches find. -/
theorem foldlM_visitHighestNode {calls : String → List String → Option (List String × List String)}
    {search : String → List String → List String × List String} {checkedNodes : List String}
    (hcalls : ∀ name checkedNodes', checkedNodes ⊆ checkedNodes' →
      calls name checkedNodes' = some (search name checkedNodes'))
    (hsearch : ∀ name checkedNodes, checkedNodes ⊆ (search name checkedNodes).2)
    (connections : List IConnection) {found : List String × List String}
    (hfound : checkedNodes ⊆ found.2) :
    connections.foldlM (w.visitHighestNode calls) found =
      some (connections.foldl (w.addHighestNode search) found) := by
  induction connections generalizing found with
  | nil => rfl
  | cons connection connections ih =>
    have hvisit : w.visitHighestNode calls found connection =
        some (w.addHighestNode search found connection) := by
      rw [visitHighestNode, addHighestNode, hcalls _ _ hfound]
      split_ifs
      · rfl
      · cases w.getNode connection.node <;> rfl
    have hstep := subset_foldl_addHighestNode (w := w) hsearch [connection] found
    rw [List.foldlM_cons, hvisit, List.foldl_cons]
    exact ih (List.Subset.trans hfound hstep)

/-- **The recursion ends**: a call returns when there are fewer nodes with main inputs left than
calls may be nested. -/
theorem callHighestNode_eq {fuel : ℕ} {name : String} {index : Option ℕ}
    {checkedNodes : List String}
    (hfuel : (w.connectionsByDestinationNode.keys.filter (· ∉ checkedNodes)).length < fuel) :
    w.callHighestNode fuel name index checkedNodes =
      some (w.highestNode fuel name index checkedNodes) := by
  induction fuel generalizing name index checkedNodes with
  | zero => omega
  | succ fuel ih =>
    rw [callHighestNode, highestNode]
    cases w.getNode name with
    | none => rfl
    | some node =>
      simp only
      cases hinputs : (w.connectionsByDestinationNode.get? name).bind (·.get? .main) with
      | none => rfl
      | some inputs =>
        by_cases hchecked : checkedNodes.contains name = true
        · simp only [if_pos hchecked]
        · have hnew : name ∉ checkedNodes := fun hmem => hchecked (List.contains_iff_mem.mpr hmem)
          have hkey : name ∈ w.connectionsByDestinationNode.keys := by
            by_contra hnot
            rw [InsertionMap.get?_eq_none_iff.mpr hnot] at hinputs
            contradiction
          simp only [if_neg hchecked]
          -- the node itself is no longer left
          refine foldlM_visitHighestNode (fun name' checkedNodes' hsubset => ih ?_)
            (fun name' checkedNodes' => subset_highestNode fuel name' none checkedNodes') _
            (List.Subset.refl _)
          have hlt := Paths.length_filter_notMem_lt
            (List.Subset.trans (List.subset_append_left _ _) hsubset) hkey hnew
            (hsubset (List.mem_append_right _ List.mem_cons_self))
          omega

end Workflow

namespace WorkflowExecute

open Relation

variable {w : Workflow} {name source : String} {i : ℕ}

/-! ### Paths to an input -/

variable (w) in
/-- A node of the workflow with a connection to a main input. -/
def FeedsInput (source name : String) (i : ℕ) : Prop :=
  (w.getNode source).isSome ∧
    ∃ e ∈ connectionEntries w.connectionsBySourceNode,
      e.sourceNode = source ∧ e.EndsAt name .main i

variable (w) in
/-- One step back along a main connection, not to the node `avoided`. -/
def StepBack (avoided name source : String) : Prop :=
  (∃ i, FeedsInput w source name i) ∧ source ≠ avoided

variable (w) in
/-- A node that leads to a main input along main connections, without passing the node of the input
on the way. -/
def LeadsToInput (source name : String) (i : ℕ) : Prop :=
  ∃ parent, FeedsInput w parent name i ∧ parent ≠ name ∧
    ReflTransGen (StepBack w name) parent source

theorem LeadsToInput.ne (h : LeadsToInput w source name i) : source ≠ name := by
  obtain ⟨parent, -, hne, hpath⟩ := h
  obtain rfl | ⟨v, -, hlast⟩ := ReflTransGen.cases_tail hpath
  · exact hne
  · exact hlast.2

theorem mem_existingNodes {connections : List IConnection} :
    source ∈ existingNodes w connections ↔
      (w.getNode source).isSome ∧ ∃ connection ∈ connections, connection.node = source := by
  rw [existingNodes, List.mem_filter, List.mem_map, and_comm]

theorem inputParents_eq (w : Workflow) (name : String) (i : ℕ) :
    inputParents w name i =
      existingNodes w (sourcesAt w.connectionsByDestinationNode name .main i) := by
  have hinputs : ((w.connectionsByDestinationNode.get? name).getD .empty).get? .main =
      mainInputs w name := by
    rw [mainInputs]
    cases w.connectionsByDestinationNode.get? name <;> rfl
  rw [inputParents, sourcesAt, hinputs]
  cases ((mainInputs w name).getD [])[i]? <;> rfl

theorem mem_inputParents : source ∈ inputParents w name i ↔ FeedsInput w source name i := by
  rw [inputParents_eq, mem_existingNodes, FeedsInput, Workflow.connectionsByDestinationNode,
    sourcesAt_groupByDestination]
  refine and_congr_right fun _ => ?_
  constructor
  · rintro ⟨connection, hmem, hsource⟩
    obtain ⟨e, he, rfl⟩ := List.mem_map.mp hmem
    obtain ⟨he, hends⟩ := List.mem_filter.mp he
    exact ⟨e, he, hsource, of_decide_eq_true hends⟩
  · rintro ⟨e, he, hsource, hends⟩
    exact ⟨e.source, List.mem_map_of_mem (List.mem_filter.mpr ⟨he, decide_eq_true hends⟩), hsource⟩

/-- The nodes before a node are those before one of its main inputs. -/
theorem exists_mem_parentsOf :
    (∃ ws, parentsOf w name = some ws ∧ source ∈ ws) ↔ ∃ i, FeedsInput w source name i := by
  simp only [← mem_inputParents, parentsOf, inputParents, mem_existingNodes]
  cases mainInputs w name with
  | none => simp
  | some inputs =>
    simp only [Option.map_some, Option.some.injEq, exists_eq_left', mem_existingNodes,
      Option.getD_some, exists_and_left, List.mem_flatMap]
    refine and_congr_right fun _ => ?_
    constructor
    · rintro ⟨connection, ⟨input, hinput, hmem⟩, hsource⟩
      obtain ⟨i, hi⟩ := List.mem_iff_getElem?.mp hinput
      exact ⟨i, connection, by rwa [hi, Option.getD_some], hsource⟩
    · rintro ⟨i, connection, hmem, hsource⟩
      cases hi : inputs[i]? with
      | none =>
        rw [hi] at hmem
        exact absurd hmem List.not_mem_nil
      | some input =>
        rw [hi] at hmem
        exact ⟨connection, ⟨input, List.mem_of_getElem? hi, hmem⟩, hsource⟩

theorem hasEnabledAncestor_iff :
    HasEnabledAncestor w [name] name i ↔
      ∃ source, isEnabled w source = true ∧ LeadsToInput w source name i := by
  have hstep (v u : String) : GoalSearch.Step (parentsOf w) [name] v u ↔ StepBack w name v u := by
    rw [GoalSearch.Step, exists_mem_parentsOf, List.mem_singleton]
    rfl
  have hsteps : GoalSearch.Step (parentsOf w) [name] = StepBack w name := by
    ext v u
    exact hstep v u
  simp only [HasEnabledAncestor, GoalSearch.ReachesGoal, hsteps, mem_inputParents,
    List.mem_singleton, LeadsToInput]
  constructor
  · rintro ⟨parent, hparent, hne, u, henabled, hpath⟩
    exact ⟨u, henabled, parent, hparent, hne, hpath⟩
  · rintro ⟨u, henabled, parent, hparent, hne, hpath⟩
    exact ⟨parent, hparent, hne, u, henabled, hpath⟩

/-! ### What is found -/

/-- A node without main inputs is the only one that may be found before its inputs. -/
theorem getHighestNode_of_mainInputs_eq_none (h : mainInputs w name = none) :
    w.getHighestNode name (some i) ≠ [] ↔
      ∃ node, w.getNode name = some node ∧ node.disabled = some false := by
  have hmain : (w.connectionsByDestinationNode.get? name).bind (·.get? .main) = none := h
  rw [Workflow.getHighestNode, Workflow.highestNode]
  cases w.getNode name with
  | none => simp
  | some node => simp [hmain]

/-- **The highest nodes before an input.** The search returns, and it finds something exactly if
the node has no main inputs and its `disabled` is `false`, or some node that is not disabled leads
to the input. -/
theorem highestNodes_found_iff (w : Workflow) (_hnames : w.PlainNames) (name : String)
    (_hname : name ∉ InsertionMap.inheritedKeys) (i : ℕ) :
    (∃ checkedNodes, w.callHighestNode (w.connectionsByDestinationNode.keys.length + 1) name
      (some i) [] = some (w.getHighestNode name (some i), checkedNodes)) ∧
    (w.getHighestNode name (some i) ≠ [] ↔
      (∃ node, w.getNode name = some node ∧ node.disabled = some false ∧
        mainInputs w name = none) ∨
      (w.getNode name).isSome ∧ ∃ source, source ≠ name ∧ isEnabled w source = true ∧
        LeadsToInput w source name i) := by
  have hleads : (∃ source, source ≠ name ∧ isEnabled w source = true ∧
      LeadsToInput w source name i) ↔ HasEnabledAncestor w [name] name i := by
    rw [hasEnabledAncestor_iff]
    exact exists_congr fun source => and_iff_right_of_imp fun h => h.2.ne
  have hfuel : (w.connectionsByDestinationNode.keys.filter (· ∉ ([] : List String))).length <
      w.connectionsByDestinationNode.keys.length + 1 :=
    Nat.lt_succ_of_le (List.length_filter_le _ _)
  refine ⟨⟨_, Workflow.callHighestNode_eq hfuel⟩, ?_⟩
  rw [hleads]
  by_cases hinputs : mainInputs w name = none
  · rw [getHighestNode_of_mainInputs_eq_none hinputs]
    constructor
    · rintro ⟨node, hnode, hdisabled⟩
      exact .inl ⟨node, hnode, hdisabled, hinputs⟩
    · rintro (⟨node, hnode, hdisabled, -⟩ | ⟨-, hancestor⟩)
      · exact ⟨node, hnode, hdisabled⟩
      · have hlt := lt_length_of_hasEnabledAncestor hancestor
        rw [hinputs] at hlt
        exact absurd hlt (Nat.not_lt_zero i)
  · rw [getHighestNode_ne_nil_iff hinputs]
    refine (or_iff_right ?_).symm
    rintro ⟨node, -, -, hnone⟩
    exact hinputs hnone

/-! ### Two nodes -/

private def feedingWorkflow : Workflow := Workflow.new
  { nodes := [{ name := "First" }, { name := "Second" }]
    connections := InsertionMap.empty.set "First"
      (InsertionMap.empty.set .main [some [⟨"Second", .main, 0⟩]]) }

/-- The first node is found before the input that it feeds. -/
theorem highestNodes_found_second : feedingWorkflow.getHighestNode "Second" (some 0) ≠ [] := by
  refine (highestNodes_found_iff feedingWorkflow ⟨by decide, by decide, by decide⟩ "Second"
    (by decide) 0).2.mpr (.inr ⟨by decide, "First", by decide, by decide, "First", ?_, by decide,
      .refl⟩)
  exact ⟨by decide, ⟨"First", .main, 0, "Second", .main, 0⟩, by decide, rfl, rfl, rfl, rfl⟩

/-! ### A node alone -/

private def soloWorkflow : Workflow :=
  Workflow.new { nodes := [{ name := "Solo", disabled := some false }], connections := .empty }

/-- Nothing leads to the node, and it is found nevertheless. -/
theorem not_found_iff_leads_solo :
    ¬ (soloWorkflow.getHighestNode "Solo" (some 0) ≠ [] ↔
      ∃ source, source ≠ "Solo" ∧ isEnabled soloWorkflow source = true ∧
        LeadsToInput soloWorkflow source "Solo" 0) := by
  intro h
  obtain ⟨source, -, -, parent, ⟨-, e, he, -⟩, -⟩ := h.mp (by decide +kernel)
  exact List.not_mem_nil he

end WorkflowExecute

end N8n
