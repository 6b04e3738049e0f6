import N8n.Engine.ExecutionLoop
import N8n.Foundations.GoalSearch

/-!
# The check of the input data

Before a node runs, `ensureInputData` goes through its inputs. An input counts when `getHighestNode`
finds an enabled node before it, that is when one can be reached without passing the node itself
(`getHighestNode_ne_nil_iff`). The first input that does not count ends the check, the ones behind
it are not looked at. Of the data the check sees that there is none at all, that it is shorter than
the index of the input, and that it is `null` there, but not that it ends right before that index.

So the check says of some entries that their data is there when it is not. The entries for which
that does not happen are those of `ensuresInputData_iff`.
-/

namespace N8n

namespace WorkflowExecute

open GoalSearch

variable {w : Workflow} {name : String}

/-! ### What `getHighestNode` finds -/

/-- The node is in the workflow and is not disabled. -/
def isEnabled (w : Workflow) (name : String) : Bool :=
  (w.getNode name).any fun node => node.disabled ≠ some true

/-- The nodes at the other ends of connections, as far as they are in the workflow. -/
def existingNodes (w : Workflow) (connections : List IConnection) : List String :=
  (connections.map (·.node)).filter fun name => (w.getNode name).isSome

/-- The nodes before a node, if it has main inputs. -/
def parentsOf (w : Workflow) (name : String) : Option (List String) :=
  (mainInputs w name).map fun inputs => existingNodes w (inputs.flatMap (·.getD []))

/-- The nodes right before an input. -/
def inputParents (w : Workflow) (name : String) (i : ℕ) : List String :=
  existingNodes w ((((mainInputs w name).getD [])[i]?.getD none).getD [])

/-- There is an enabled node before the input, right before it or further up, and there is a way to
it that does not pass the given nodes. -/
def HasEnabledAncestor (w : Workflow) (avoided : List String) (name : String) (i : ℕ) : Prop :=
  ∃ parent ∈ inputParents w name i, parent ∉ avoided ∧
    ReachesGoal (parentsOf w) (isEnabled w) avoided parent

theorem addNewNodes_ne_nil_iff {returnNodes addNodes : List String} :
    Workflow.addNewNodes returnNodes addNodes ≠ [] ↔ returnNodes ≠ [] ∨ addNodes ≠ [] := by
  induction addNodes generalizing returnNodes with
  | nil => simp [Workflow.addNewNodes]
  | cons a addNodes ih =>
    have hstep : Workflow.addNewNodes returnNodes (a :: addNodes) =
        Workflow.addNewNodes
          (if returnNodes.contains a then returnNodes else returnNodes ++ [a]) addNodes := rfl
    rw [hstep, ih]
    split_ifs with ha
    · have hne : returnNodes ≠ [] := List.ne_nil_of_mem (List.contains_iff_mem.mp ha)
      simp [hne]
    · simp

/-- The search of `getHighestNode` from a node that was not checked before, and the search for an
enabled node. -/
def Agrees (w : Workflow) (fuel : ℕ) : Prop :=
  ∀ name checkedNodes, (w.getNode name).isSome → name ∉ checkedNodes →
    ((w.highestNode fuel name none checkedNodes).1 ≠ [] ∨ isEnabled w name = true ↔
      (search (parentsOf w) (isEnabled w) fuel name checkedNodes).1 = true) ∧
    (w.highestNode fuel name none checkedNodes).2 =
      (search (parentsOf w) (isEnabled w) fuel name checkedNodes).2

/-- What is found behind connections. -/
theorem Agrees.foldl {fuel : ℕ} (h : Agrees w fuel) (connections : List IConnection)
    {found : List String × List String} {reached : Bool × List String}
    (hfound : found.1 ≠ [] ↔ reached.1 = true) (hchecked : found.2 = reached.2) :
    ((connections.foldl (w.addHighestNode fun name checkedNodes =>
        w.highestNode fuel name none checkedNodes) found).1 ≠ [] ↔
      ((existingNodes w connections).foldl
        (visit (search (parentsOf w) (isEnabled w) fuel)) reached).1 = true) ∧
    (connections.foldl (w.addHighestNode fun name checkedNodes =>
        w.highestNode fuel name none checkedNodes) found).2 =
      ((existingNodes w connections).foldl
        (visit (search (parentsOf w) (isEnabled w) fuel)) reached).2 := by
  induction connections generalizing found reached with
  | nil => exact ⟨hfound, hchecked⟩
  | cons connection connections ih =>
    rw [List.foldl_cons, existingNodes, List.map_cons, Workflow.addHighestNode]
    cases hnode : w.getNode connection.node with
    | none =>
      rw [List.filter_cons_of_neg (by simp [hnode])]
      have hskip : (if found.2.contains connection.node = true then found else found) = found :=
        ite_self _
      simp only [hskip]
      exact ih hfound hchecked
    | some node =>
      rw [List.filter_cons_of_pos (by simp [hnode]), List.foldl_cons, visit]
      by_cases hmem : connection.node ∈ found.2
      · rw [if_pos (List.contains_iff_mem.mpr hmem), if_pos (hchecked ▸ hmem)]
        exact ih hfound hchecked
      · have hnot : ¬ found.2.contains connection.node = true :=
          fun hcontains => hmem (List.contains_iff_mem.mp hcontains)
        rw [if_neg hnot, if_neg (hchecked ▸ hmem)]
        obtain ⟨hreach, hlist⟩ := h connection.node found.2 (by rw [hnode]; rfl) hmem
        have henabled : isEnabled w connection.node = true ↔ node.disabled ≠ some true := by
          rw [isEnabled, hnode]
          simp
        refine ih ?_ (hchecked ▸ hlist)
        simp only
        rw [addNewNodes_ne_nil_iff, hfound, Bool.or_eq_true, ← hchecked, ← hreach, henabled]
        refine or_congr_right ?_
        split_ifs with hempty
        · exact iff_of_true (List.cons_ne_nil _ _) (.inr hempty.2)
        · refine (or_iff_left_of_imp fun hdisabled hnil => hempty ⟨?_, hdisabled⟩).symm
          exact List.length_eq_zero_iff.mpr hnil

theorem Agrees.foldl_start {fuel : ℕ} (h : Agrees w fuel) (connections : List IConnection)
    (checkedNodes : List String) :
    ((connections.foldl (w.addHighestNode fun name checkedNodes =>
        w.highestNode fuel name none checkedNodes) ([], checkedNodes)).1 ≠ [] ↔
      ((existingNodes w connections).foldl
        (visit (search (parentsOf w) (isEnabled w) fuel)) (false, checkedNodes)).1 = true) ∧
    (connections.foldl (w.addHighestNode fun name checkedNodes =>
        w.highestNode fuel name none checkedNodes) ([], checkedNodes)).2 =
      ((existingNodes w connections).foldl
        (visit (search (parentsOf w) (isEnabled w) fuel)) (false, checkedNodes)).2 :=
  h.foldl connections (iff_of_false (fun hne => hne rfl) Bool.false_ne_true) rfl

theorem agrees (w : Workflow) (fuel : ℕ) : Agrees w fuel := by
  induction fuel with
  | zero =>
    intro name checkedNodes _ _
    exact ⟨by simp [Workflow.highestNode, search], rfl⟩
  | succ fuel ih =>
    intro name checkedNodes hexists hnot
    obtain ⟨node, hnode⟩ := Option.isSome_iff_exists.mp hexists
    have henabled : isEnabled w name = true ↔ node.disabled ≠ some true := by
      rw [isEnabled, hnode]
      simp
    rw [Workflow.highestNode, hnode, search, parentsOf, mainInputs]
    cases (w.connectionsByDestinationNode.get? name).bind (·.get? .main) with
    | none =>
      refine ⟨?_, rfl⟩
      simp only [Option.map_none]
      refine or_iff_right_of_imp fun hne => henabled.mpr fun hdisabled => ?_
      rw [hdisabled] at hne
      exact hne rfl
    | some inputs =>
      have hcontains : ¬ checkedNodes.contains name = true :=
        fun hmem => hnot (List.contains_iff_mem.mp hmem)
      have hconnections : (inputs.zipIdx.flatMap fun input =>
          if (none : Option ℕ).isNone ∨ none = some input.2 then input.1.getD [] else []) =
            inputs.flatMap (·.getD []) := by
        have hinputs := List.zipIdx_map_fst 0 inputs
        conv_rhs => rw [← hinputs, List.flatMap_map]
        rfl
      simp only [Option.map_some, if_neg hcontains, hconnections]
      obtain ⟨hreach, hlist⟩ := ih.foldl_start (inputs.flatMap (·.getD []))
        (checkedNodes ++ [name])
      refine ⟨?_, hlist⟩
      rw [Bool.or_eq_true, or_comm]
      exact or_congr_right hreach

/-- Of the inputs of a node, those at one index. -/
theorem flatMap_zipIdx_eq {α β : Type} (f : α → List β) (l : List α) (i n : ℕ) :
    ((l.zipIdx n).flatMap fun p => if n + i = p.2 then f p.1 else []) = (l[i]?.map f).getD [] := by
  induction l generalizing i n with
  | nil => rfl
  | cons a l ih =>
    rw [List.zipIdx_cons, List.flatMap_cons]
    cases i with
    | zero =>
      have hrest :
          (l.zipIdx (n + 1)).flatMap (fun p => if n + 0 = p.2 then f p.1 else []) = [] := by
        refine List.flatMap_eq_nil_iff.mpr fun p hp => ?_
        have hle : n + 1 ≤ p.2 := List.le_snd_of_mem_zipIdx hp
        rw [if_neg (by omega)]
      rw [hrest, if_pos (Nat.add_zero n)]
      simp
    | succ i =>
      have hindex : n + (i + 1) = n + 1 + i := by omega
      rw [if_neg (by omega), List.nil_append, List.getElem?_cons_succ, ← ih i (n + 1), hindex]

/-- **What `getHighestNode` finds before an input**: whether there is an enabled node that can be
reached without passing the node itself. -/
theorem getHighestNode_ne_nil_iff {i : ℕ} (hinputs : mainInputs w name ≠ none) :
    w.getHighestNode name (some i) ≠ [] ↔
      (w.getNode name).isSome ∧ HasEnabledAncestor w [name] name i := by
  obtain ⟨inputs, hinputs⟩ := Option.ne_none_iff_exists'.mp hinputs
  have hkey {v : String} (hv : parentsOf w v ≠ none) :
      v ∈ w.connectionsByDestinationNode.keys := by
    by_contra hnot
    rw [parentsOf, mainInputs, InsertionMap.get?_eq_none_iff.mpr hnot] at hv
    exact hv rfl
  have hparents : parentsOf w name ≠ none := by
    rw [parentsOf, hinputs]
    exact Option.some_ne_none _
  rw [Workflow.getHighestNode, Workflow.highestNode]
  cases hnode : w.getNode name with
  | none => exact iff_of_false (fun hne => hne rfl) fun h => Bool.false_ne_true h.1
  | some node =>
    have hmain : (w.connectionsByDestinationNode.get? name).bind (·.get? .main) = some inputs :=
      hinputs
    have hconnections : (inputs.zipIdx.flatMap fun input =>
        if (some i).isNone ∨ some i = some input.2 then input.1.getD [] else []) =
          (inputs[i]?.getD none).getD [] := by
      have hindex := flatMap_zipIdx_eq (fun input : Option (List IConnection) => input.getD [])
        inputs i 0
      simp only [Nat.zero_add] at hindex
      simp only [Option.isNone_some, Bool.false_eq_true, false_or, Option.some.injEq]
      rw [hindex]
      cases inputs[i]? with
      | none => rfl
      | some input => rfl
    have hnil : ¬ ([] : List String).contains name = true := Bool.false_ne_true
    rw [hmain]
    simp only [if_neg hnil, hconnections, List.nil_append]
    obtain ⟨hreach, -⟩ := (agrees w w.connectionsByDestinationNode.keys.length).foldl_start
      ((inputs[i]?.getD none).getD []) [name]
    have hfuel : (w.connectionsByDestinationNode.keys.filter (· ∉ [name])).length <
        w.connectionsByDestinationNode.keys.length := by
      have hlt := Paths.length_filter_notMem_lt (List.nil_subset [name]) (hkey hparents)
        List.not_mem_nil List.mem_cons_self
      exact Nat.lt_of_lt_of_le hlt (List.length_filter_le _ _)
    rw [hreach, foldl_visit_iff (fun v hv => hkey hv) hfuel, HasEnabledAncestor, inputParents,
      hinputs]
    exact (and_iff_right rfl).symm

/-! ### The inputs that are checked -/

/-- The data of an input: present and not `null`. -/
def HasData (executionData : IExecuteData) (i : ℕ) : Prop :=
  ∃ main, executionData.data.get? .main = some main ∧ ∃ items, main[i]? = some (.value items)

/-- The data of an input is seen to be missing: there is no data, or it is shorter than the index,
or it is `null` there. -/
def SeenMissing (executionData : IExecuteData) (i : ℕ) : Prop :=
  ∀ main, executionData.data.get? .main = some main →
    main.length < i ∨ main[i]? = some .null

/-- The search finds an enabled node before the input. -/
def IsChecked (w : Workflow) (name : String) (i : ℕ) : Prop :=
  (w.getNode name).isSome ∧ HasEnabledAncestor w [name] name i

/-- The check of the inputs from one on. -/
theorem lacksInputData_iff {executionData : IExecuteData}
    (hlegacy : isLegacyExecutionOrder w = true)
    (hinputs : mainInputs w executionData.node.name ≠ none) (first count : ℕ) :
    lacksInputData w executionData (List.range' first count) = true ↔
      ∃ i, first ≤ i ∧ i < first + count ∧
        (∀ j, first ≤ j → j ≤ i → IsChecked w executionData.node.name j) ∧
        SeenMissing executionData i := by
  induction count generalizing first with
  | zero =>
    refine iff_of_false Bool.false_ne_true ?_
    rintro ⟨i, hle, hlt, -⟩
    omega
  | succ count ih =>
    have hchecked := getHighestNode_ne_nil_iff (i := first) hinputs
    rw [List.range'_succ, lacksInputData]
    split_ifs with hempty
    · -- an input that does not count ends the check
      refine iff_of_false id ?_
      rintro ⟨i, hle, -, hall, -⟩
      exact hchecked.mpr (hall first le_rfl hle) (List.length_eq_zero_iff.mp hempty)
    · have hcounts : IsChecked w executionData.node.name first :=
        hchecked.mp fun hnil => hempty (List.length_eq_zero_iff.mpr hnil)
      have hrest : lacksInputData w executionData (List.range' (first + 1) count) = true ↔
          ∃ i, first < i ∧ i < first + (count + 1) ∧
            (∀ j, first ≤ j → j ≤ i → IsChecked w executionData.node.name j) ∧
            SeenMissing executionData i := by
        rw [ih]
        refine exists_congr fun i => ?_
        constructor
        · rintro ⟨hle, hlt, hall, hmissing⟩
          refine ⟨hle, by omega, fun j hj hji => ?_, hmissing⟩
          obtain rfl | hj := Nat.eq_or_lt_of_le hj
          · exact hcounts
          · exact hall j hj hji
        · rintro ⟨hle, hlt, hall, hmissing⟩
          exact ⟨hle, by omega, fun j hj hji => hall j (by omega) hji, hmissing⟩
      have hfirst : (∃ i, first ≤ i ∧ i < first + (count + 1) ∧
            (∀ j, first ≤ j → j ≤ i → IsChecked w executionData.node.name j) ∧
            SeenMissing executionData i) ↔
          SeenMissing executionData first ∨
            lacksInputData w executionData (List.range' (first + 1) count) = true := by
        rw [hrest]
        constructor
        · rintro ⟨i, hle, hlt, hall, hmissing⟩
          obtain rfl | hle := Nat.eq_or_lt_of_le hle
          · exact .inl hmissing
          · exact .inr ⟨i, hle, hlt, hall, hmissing⟩
        · rintro (hmissing | ⟨i, hle, hlt, hall, hmissing⟩)
          · refine ⟨first, le_rfl, by omega, fun j hj hji => ?_, hmissing⟩
            obtain rfl := Nat.le_antisymm hji hj
            exact hcounts
          · exact ⟨i, hle.le, hlt, hall, hmissing⟩
      rw [hfirst]
      cases hmain : executionData.data.get? .main with
      | none =>
        refine iff_of_true rfl (.inl fun main hmain' => ?_)
        rw [hmain] at hmain'
        cases hmain'
      | some main =>
        have hmissing : SeenMissing executionData first ↔
            main.length < first ∨ main[first]? = some .null := by
          refine ⟨fun h => h main hmain, fun h main' hmain' => ?_⟩
          obtain rfl := Option.some.inj (hmain.symm.trans hmain')
          exact h
        rw [hmissing]
        simp only [hlegacy, true_and]
        split_ifs with hnone
        · exact iff_of_true rfl (.inl hnone)
        · exact (or_iff_right hnone).symm

/-! ### When the check is right -/

/-- A node runs only if the data of every input with an enabled ancestor is there. Otherwise its
entry goes back on the stack, once and as it is. -/
structure EnsuresInputData (w : Workflow) (executionData : IExecuteData) (st : IRunExecutionData) :
    Prop where
  complete : (ensureInputData w executionData st).2 = true →
    ∀ i, HasEnabledAncestor w [] executionData.node.name i → HasData executionData i
  requeued : (∃ i, HasEnabledAncestor w [] executionData.node.name i ∧ ¬ HasData executionData i) →
    ensureInputData w executionData st =
      ({ st with nodeExecutionStack := st.nodeExecutionStack ++ [executionData] }, false)

theorem lt_length_of_hasEnabledAncestor {avoided : List String} {i : ℕ}
    (h : HasEnabledAncestor w avoided name i) : i < ((mainInputs w name).getD []).length := by
  obtain ⟨parent, hparent, -⟩ := h
  by_contra hle
  rw [inputParents, List.getElem?_eq_none (Nat.not_lt.mp hle)] at hparent
  cases hparent

/-- **When the check of the input data is right**: if data is missing, it is seen to be missing at
an input, and the search finds an enabled node before this input and before each one in front of
it. -/
theorem ensuresInputData_iff {w : Workflow} (_hnames : w.PlainNames)
    (hlegacy : isLegacyExecutionOrder w = true) (executionData : IExecuteData)
    (_hname : executionData.node.name ∉ InsertionMap.inheritedKeys) (st : IRunExecutionData) :
    EnsuresInputData w executionData st ↔
      ((∃ i, HasEnabledAncestor w [] executionData.node.name i ∧ ¬ HasData executionData i) →
        ∃ i, (∀ j ≤ i, IsChecked w executionData.node.name j) ∧ SeenMissing executionData i) := by
  have hlacks : lacksInputData w executionData
        (List.range ((mainInputs w executionData.node.name).getD []).length) = true ↔
      ∃ i, (∀ j ≤ i, IsChecked w executionData.node.name j) ∧ SeenMissing executionData i := by
    by_cases hinputs : mainInputs w executionData.node.name = none
    · refine iff_of_false (by simp [hinputs, lacksInputData]) ?_
      rintro ⟨i, hall, -⟩
      have hlt := lt_length_of_hasEnabledAncestor (hall i le_rfl).2
      rw [hinputs] at hlt
      exact Nat.not_lt_zero i hlt
    · rw [List.range_eq_range', lacksInputData_iff hlegacy hinputs]
      refine exists_congr fun i => ?_
      constructor
      · rintro ⟨-, -, hall, hmissing⟩
        exact ⟨fun j hj => hall j (Nat.zero_le j) hj, hmissing⟩
      · rintro ⟨hall, hmissing⟩
        have hlt := lt_length_of_hasEnabledAncestor (hall i le_rfl).2
        exact ⟨Nat.zero_le i, by omega, fun j _ hj => hall j hj, hmissing⟩
  rw [← hlacks]
  constructor
  · intro h hmissing
    by_contra hnot
    have hreturns := h.requeued hmissing
    rw [ensureInputData, if_neg hnot] at hreturns
    cases congrArg Prod.snd hreturns
  · intro h
    exact {
      complete := fun htrue i hancestor => by
        by_contra hdata
        rw [ensureInputData, if_pos (h ⟨i, hancestor, hdata⟩)] at htrue
        cases htrue
      requeued := fun hmissing => by
        rw [ensureInputData, if_pos (h hmissing)] }

/-! ### A node with two inputs -/

private def mergeWorkflow : Workflow := Workflow.new
  { nodes := [{ name := "First" }, { name := "Second" }, { name := "Merge" }]
    connections := (InsertionMap.empty.set "First"
      (InsertionMap.empty.set .main [some [⟨"Merge", .main, 0⟩]])).set "Second"
      (InsertionMap.empty.set .main [some [⟨"Merge", .main, 1⟩]]) }

private def mergeEntry (main : NodeOutputs) : IExecuteData where
  node := { name := "Merge" }
  data := InsertionMap.empty.set .main main
  source := none

/-- A node that a search of no step finds. -/
theorem hasEnabledAncestor_of_parent {avoided : List String} {parent : String} {i : ℕ}
    (hparent : parent ∈ inputParents w name i) (hnot : parent ∉ avoided)
    (henabled : isEnabled w parent = true) : HasEnabledAncestor w avoided name i :=
  ⟨parent, hparent, hnot, parent, henabled, .refl⟩

/-- The data of the second input has not arrived, and the check sees it. -/
theorem ensuresInputData_merge :
    EnsuresInputData mergeWorkflow (mergeEntry [.value [{}], .null]) {} := by
  refine (ensuresInputData_iff ⟨by decide, by decide, by decide⟩ (by decide) _ (by decide) _).mpr
    fun _ => ⟨1, fun j hj => ⟨by decide, ?_⟩, ?_⟩
  · obtain rfl | rfl : j = 0 ∨ j = 1 := by omega
    · exact hasEnabledAncestor_of_parent (show "First" ∈ _ by decide) (by decide) (by decide)
    · exact hasEnabledAncestor_of_parent (show "Second" ∈ _ by decide) (by decide) (by decide)
  · intro main hmain
    obtain rfl := Option.some.inj hmain
    exact .inr rfl

/-- The data ends right before the second input. -/
theorem not_ensuresInputData_merge :
    ¬ EnsuresInputData mergeWorkflow (mergeEntry [.value [{}]]) {} := by
  intro h
  have hancestor : HasEnabledAncestor mergeWorkflow [] "Merge" 1 :=
    hasEnabledAncestor_of_parent (show "Second" ∈ _ by decide) (by decide) (by decide)
  obtain ⟨main, hmain, items, hitems⟩ := h.complete (by decide +kernel) 1 hancestor
  obtain rfl := Option.some.inj hmain
  cases hitems

end WorkflowExecute

end N8n
