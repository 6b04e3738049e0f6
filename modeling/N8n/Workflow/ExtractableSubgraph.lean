import N8n.Workflow.GraphUtils

/-!
# What an extractable selection is

A selection that `parseExtractableSubgraphSelection` accepts is entered at one node at most and left
from one node at most, and these are where the selection begins and ends: the one is a root and the
other a leaf, unless there is none. Every path from the one to the other can then be cut short to
one that stays inside the selection, since the selection is only left from its end.
-/

namespace N8n.GraphUtils

open Relation

variable {graphIds : InsertionSet String} {adjacencyList : IConnectionAdjacencyList}

/-- A connection of the type `main`. -/
def MainEdge (adjacencyList : IConnectionAdjacencyList) (u v : String) : Prop :=
  ∃ x ∈ edgesFrom adjacencyList u, x.type = .main ∧ x.node = v

variable (graphIds adjacencyList) in
/-- A connection between two selected nodes. -/
def Inside (u v : String) : Prop := u ∈ graphIds ∧ v ∈ graphIds ∧ MainEdge adjacencyList u v

variable (graphIds adjacencyList) in
/-- The selection is entered at a node. -/
def Entered (v : String) : Prop := v ∈ graphIds ∧ ∃ u, u ∉ graphIds ∧ MainEdge adjacencyList u v

variable (graphIds adjacencyList) in
/-- The selection is left from a node. -/
def Left (u : String) : Prop := u ∈ graphIds ∧ ∃ v, v ∉ graphIds ∧ MainEdge adjacencyList u v

variable (graphIds adjacencyList) in
/-- No other selected node leads to the node. -/
def IsRoot (v : String) : Prop :=
  v ∈ graphIds ∧ ∀ u ∈ graphIds, u ≠ v → ¬MainEdge adjacencyList u v

variable (graphIds adjacencyList) in
/-- The node leads to no other selected node. -/
def IsLeaf (u : String) : Prop :=
  u ∈ graphIds ∧ ∀ v ∈ graphIds, v ≠ u → ¬MainEdge adjacencyList u v

variable (graphIds adjacencyList) in
/-- The selection is entered at `start` only and left from `end_` only, as far as there are such
nodes. -/
structure SingleBoundary (data : ExtractableSubgraphData) : Prop where
  entered : ∀ v, Entered graphIds adjacencyList v ↔ data.start = some v
  left : ∀ u, Left graphIds adjacencyList u ↔ data.end_ = some u

variable (graphIds adjacencyList) in
/-- The node at which the selection is entered is a root, unless there is none; the one from which
it is left is a leaf, unless there is none. -/
structure AtEnds (data : ExtractableSubgraphData) : Prop where
  root : ∀ v, data.start = some v →
    IsRoot graphIds adjacencyList v ∨ ∀ u, ¬IsRoot graphIds adjacencyList u
  leaf : ∀ u, data.end_ = some u →
    IsLeaf graphIds adjacencyList u ∨ ∀ v, ¬IsLeaf graphIds adjacencyList v

variable (graphIds adjacencyList) in
/-- When both nodes exist, the end can be reached from the start inside the selection. -/
def PathInside (data : ExtractableSubgraphData) : Prop :=
  ∀ start end_, data.start = some start → data.end_ = some end_ →
    ReflTransGen (Inside graphIds adjacencyList) start end_

variable (graphIds adjacencyList) in
/-- The selected nodes hang together. -/
def Connected : Prop :=
  ∀ u ∈ graphIds, ∀ v ∈ graphIds, EqvGen (Inside graphIds adjacencyList) u v

/-! ### The sets -/

@[simp] theorem mem_intersection {a b : InsertionSet String} {x : String} :
    x ∈ intersection a b ↔ x ∈ a ∧ x ∈ b := by
  simp [intersection]

@[simp] theorem mem_difference {minuend subtrahend : InsertionSet String} {x : String} :
    x ∈ difference minuend subtrahend ↔ x ∈ minuend ∧ x ∉ subtrahend := by
  suffices ∀ (l : List String) (s : InsertionSet String),
      x ∈ l.foldl (fun result y => result.erase y) s ↔ x ∈ s ∧ x ∉ l from this _ _
  intro l
  induction l with
  | nil => simp
  | cons y l ih =>
    intro s
    rw [List.foldl_cons, ih, InsertionSet.mem_erase, List.mem_cons, not_or, and_assoc]

theorem mem_edgesFrom {u : String} {x : IConnection} :
    x ∈ edgesFrom adjacencyList u ↔ ∃ tos, (u, tos) ∈ adjacencyList.entries ∧ x ∈ tos := by
  rw [edgesFrom]
  constructor
  · intro h
    cases htos : adjacencyList.get? u with
    | none => exact absurd (htos ▸ h) List.not_mem_nil
    | some tos =>
      rw [htos] at h
      exact ⟨tos, InsertionMap.get?_eq_some_iff.mp htos, h⟩
  · rintro ⟨tos, htos, hx⟩
    rw [InsertionMap.get?_eq_some_iff.mpr htos]
    exact hx

theorem mem_edgesBetween {isSource isTarget : String → Bool} {u : String} {x : IConnection} :
    (u, x) ∈ edgesBetween adjacencyList isSource isTarget ↔
      isSource u = true ∧ isTarget x.node = true ∧ x ∈ edgesFrom adjacencyList u := by
  rw [edgesBetween, List.mem_flatMap, mem_edgesFrom]
  constructor
  · rintro ⟨⟨source, tos⟩, hentry, hmem⟩
    split at hmem
    next hsource =>
      obtain ⟨y, hy, heq⟩ := List.mem_map.mp hmem
      obtain ⟨rfl, rfl⟩ := Prod.mk.inj heq
      obtain ⟨hy, htarget⟩ := List.mem_filter.mp hy
      exact ⟨hsource, htarget, tos, hentry, hy⟩
    next => exact absurd hmem List.not_mem_nil
  · rintro ⟨hu, hx, tos, hentry, hmem⟩
    refine ⟨(u, tos), hentry, ?_⟩
    rw [if_pos hu]
    exact List.mem_map_of_mem (List.mem_filter.mpr ⟨hmem, hx⟩)

theorem mem_getInputEdges {u : String} {x : IConnection} :
    (u, x) ∈ getInputEdges graphIds adjacencyList ↔
      u ∉ graphIds ∧ x.node ∈ graphIds ∧ x ∈ edgesFrom adjacencyList u := by
  simp only [getInputEdges, mem_edgesBetween, decide_eq_true_eq]

theorem mem_getOutputEdges {u : String} {x : IConnection} :
    (u, x) ∈ getOutputEdges graphIds adjacencyList ↔
      u ∈ graphIds ∧ x.node ∉ graphIds ∧ x ∈ edgesFrom adjacencyList u := by
  simp only [getOutputEdges, mem_edgesBetween, decide_eq_true_eq]

theorem mem_mainEnds {edges : List (String × IConnection)} {f : String × IConnection → String}
    {v : String} : v ∈ mainEnds edges f ↔ ∃ e ∈ edges, e.2.type = .main ∧ f e = v := by
  rw [mainEnds, InsertionSet.mem_ofList]
  simp [and_assoc]

theorem mem_inputNodes {v : String} :
    v ∈ inputNodes graphIds adjacencyList ↔ Entered graphIds adjacencyList v := by
  rw [inputNodes, mem_mainEnds]
  constructor
  · rintro ⟨⟨u, x⟩, hedge, htype, rfl⟩
    obtain ⟨hu, hx, hmem⟩ := mem_getInputEdges.mp hedge
    exact ⟨hx, u, hu, x, hmem, htype, rfl⟩
  · rintro ⟨hv, u, hu, x, hmem, htype, rfl⟩
    exact ⟨(u, x), mem_getInputEdges.mpr ⟨hu, hv, hmem⟩, htype, rfl⟩

theorem mem_outputNodes {u : String} :
    u ∈ outputNodes graphIds adjacencyList ↔ Left graphIds adjacencyList u := by
  rw [outputNodes, mem_mainEnds]
  constructor
  · rintro ⟨⟨u, x⟩, hedge, htype, rfl⟩
    obtain ⟨hu, hx, hmem⟩ := mem_getOutputEdges.mp hedge
    exact ⟨hu, x.node, hx, x, hmem, htype, rfl⟩
  · rintro ⟨hu, v, hv, x, hmem, htype, rfl⟩
    exact ⟨(u, x), mem_getOutputEdges.mpr ⟨hu, hv, hmem⟩, htype, rfl⟩

theorem mem_otherTargets {u v : String} :
    v ∈ otherTargets adjacencyList u ↔ v ≠ u ∧ MainEdge adjacencyList u v := by
  rw [otherTargets, InsertionSet.mem_ofList]
  constructor
  · intro h
    obtain ⟨x, hx, rfl⟩ := List.mem_map.mp h
    obtain ⟨hx, hmain⟩ := List.mem_filter.mp hx
    obtain ⟨htype, hne⟩ := of_decide_eq_true hmain
    exact ⟨hne, x, hx, htype, rfl⟩
  · rintro ⟨hne, x, hx, htype, rfl⟩
    exact List.mem_map_of_mem (List.mem_filter.mpr ⟨hx, decide_eq_true ⟨htype, hne⟩⟩)

theorem mem_getRootNodes {v : String} :
    v ∈ getRootNodes graphIds adjacencyList ↔ IsRoot graphIds adjacencyList v := by
  have hinner : ∀ (l : List String) (s : InsertionSet String),
      v ∈ l.foldl (fun innerNodes nodeId =>
        innerNodes.union (otherTargets adjacencyList nodeId)) s ↔
        v ∈ s ∨ ∃ u ∈ l, v ≠ u ∧ MainEdge adjacencyList u v := by
    intro l
    induction l with
    | nil => simp
    | cons u l ih =>
      intro s
      rw [List.foldl_cons, ih, InsertionSet.mem_union, mem_otherTargets, or_assoc]
      simp
  rw [getRootNodes, mem_difference, hinner]
  constructor
  · rintro ⟨hv, hnot⟩
    exact ⟨hv, fun u hu hne hedge => hnot (Or.inr ⟨u, hu, hne.symm, hedge⟩)⟩
  · rintro ⟨hv, hroot⟩
    refine ⟨hv, ?_⟩
    rintro (hempty | ⟨u, hu, hne, hedge⟩)
    · exact InsertionSet.notMem_empty v hempty
    · exact hroot u hu hne.symm hedge

theorem mem_getLeafNodes {u : String} :
    u ∈ getLeafNodes graphIds adjacencyList ↔ IsLeaf graphIds adjacencyList u := by
  have hcheck : ∀ u, (intersection (otherTargets adjacencyList u) graphIds).elements = [] ↔
      ∀ v ∈ graphIds, v ≠ u → ¬MainEdge adjacencyList u v := by
    intro u
    rw [InsertionSet.elements_eq_nil_iff]
    constructor
    · intro h v hv hne hedge
      exact h v (mem_intersection.mpr ⟨mem_otherTargets.mpr ⟨hne, hedge⟩, hv⟩)
    · intro h v hv
      obtain ⟨htarget, hmem⟩ := mem_intersection.mp hv
      obtain ⟨hne, hedge⟩ := mem_otherTargets.mp htarget
      exact h v hmem hne hedge
  have hfold := InsertionSet.mem_foldl_add
    (p := fun u => (intersection (otherTargets adjacencyList u) graphIds).elements = [])
    (f := id) graphIds.elements .empty (a := u)
  refine hfold.trans ?_
  constructor
  · rintro (hempty | ⟨v, hv, hnone, rfl⟩)
    · exact absurd hempty (InsertionSet.notMem_empty u)
    · exact ⟨hv, (hcheck v).mp hnone⟩
  · rintro ⟨hu, hleaf⟩
    exact Or.inr ⟨u, hu, (hcheck u).mpr hleaf, rfl⟩

theorem hasPath_iff {start end_ : String} :
    hasPath adjacencyList start end_ = true ↔
      ReflTransGen (MainEdge adjacencyList) start end_ := by
  have hstep : StackSearch.Step (targets adjacencyList) = MainEdge adjacencyList := by
    funext u v
    exact propext (mem_targets adjacencyList)
  rw [hasPath, StackSearch.finds_iff, hstep]

/-! ### The boundary -/

/-- The checks of one side of the boundary: there is one node at most, and it is a candidate, unless
there are no candidates. -/
theorem boundary_iff {candidates boundary : InsertionSet String} {node : Option String} :
    ((difference boundary (orBoundary candidates boundary)).elements = [] ∧
        ¬(intersection (orBoundary candidates boundary) boundary).elements.length > 1 ∧
        first (intersection (orBoundary candidates boundary) boundary) = node) ↔
      (∀ v, v ∈ boundary ↔ node = some v) ∧
        ∀ v, node = some v → v ∈ candidates ∨ ∀ u, u ∉ candidates := by
  constructor
  · rintro ⟨hall, hone, hfirst⟩
    have hsub : ∀ v ∈ boundary, v ∈ orBoundary candidates boundary := by
      intro v hv
      by_contra hnot
      exact InsertionSet.elements_eq_nil_iff.mp hall v (mem_difference.mpr ⟨hv, hnot⟩)
    have hsame : ∀ v, v ∈ intersection (orBoundary candidates boundary) boundary ↔
        v ∈ boundary := fun v => by
      rw [mem_intersection]
      exact and_iff_right_of_imp (hsub v)
    have hcandidate : ∀ v ∈ boundary, v ∈ candidates ∨ ∀ u, u ∉ candidates := by
      intro v hv
      have hmem := hsub v hv
      rw [orBoundary] at hmem
      split at hmem
      next hnone =>
        exact Or.inr (InsertionSet.elements_eq_nil_iff.mp (List.eq_nil_of_length_eq_zero hnone.1))
      next => exact Or.inl hmem
    have hnode : ∀ v, v ∈ boundary ↔ node = some v := by
      intro v
      rw [← hsame, ← hfirst, first, InsertionSet.mem_def]
      match hi : (intersection (orBoundary candidates boundary) boundary).elements with
      | [] => simp
      | [a] => simp [eq_comm]
      | a :: b :: l =>
        rw [hi] at hone
        exact absurd (by simp) hone
    exact ⟨hnode, fun v hv => hcandidate v ((hnode v).mpr hv)⟩
  · rintro ⟨hnode, hcandidate⟩
    cases node with
    | none =>
      have hnone : ∀ v, v ∉ boundary := fun v hv =>
        Option.some_ne_none v ((hnode v).mp hv).symm
      have hempty : (intersection (orBoundary candidates boundary) boundary).elements = [] :=
        InsertionSet.elements_eq_nil_iff.mpr fun v hv => hnone v (mem_intersection.mp hv).2
      refine ⟨?_, ?_, ?_⟩
      · exact InsertionSet.elements_eq_nil_iff.mpr fun v hv => hnone v (mem_difference.mp hv).1
      · rw [hempty]
        exact Nat.not_lt_zero 1
      · rw [first, hempty]
        rfl
    | some a =>
      have hsingle : ∀ v, v ∈ boundary ↔ v = a := fun v =>
        (hnode v).trans ((Option.some.injEq a v).to_iff.trans eq_comm)
      have hboundary : boundary.elements = [a] := InsertionSet.elements_eq_singleton_iff.mpr hsingle
      have hmem : a ∈ orBoundary candidates boundary := by
        rw [orBoundary]
        split
        next => exact (hsingle a).mpr rfl
        next hnot =>
          refine (hcandidate a rfl).resolve_right fun hnone => hnot ⟨?_, ?_⟩
          · rw [InsertionSet.elements_eq_nil_iff.mpr hnone]
            rfl
          · rw [hboundary]
            rfl
      have hinter : (intersection (orBoundary candidates boundary) boundary).elements = [a] := by
        refine InsertionSet.elements_eq_singleton_iff.mpr fun v => ?_
        rw [mem_intersection, hsingle]
        exact and_iff_right_of_imp fun heq => heq ▸ hmem
      refine ⟨?_, ?_, ?_⟩
      · refine InsertionSet.elements_eq_nil_iff.mpr fun v hv => ?_
        obtain ⟨hv, hnot⟩ := mem_difference.mp hv
        exact hnot ((hsingle v).mp hv ▸ hmem)
      · rw [hinter]
        exact lt_irrefl 1
      · rw [first, hinter]
        rfl

theorem parse_eq_ok_iff_errors {data : ExtractableSubgraphData} :
    parseExtractableSubgraphSelection graphIds adjacencyList = .ok data ↔
      subgraphErrors graphIds adjacencyList = [] ∧ subgraphData graphIds adjacencyList = data := by
  rw [parseExtractableSubgraphSelection]
  split
  next hpos =>
    refine ⟨fun h => absurd h (by simp), ?_⟩
    rintro ⟨hnil, -⟩
    rw [hnil] at hpos
    exact absurd hpos (lt_irrefl 0)
  next hnone =>
    have hnil := List.eq_nil_of_length_eq_zero (Nat.eq_zero_of_not_pos hnone)
    rw [Except.ok.injEq]
    exact (and_iff_right hnil).symm

/-- When the selection succeeds: both sides of the boundary pass, and the path is there. -/
theorem parse_eq_ok_iff {data : ExtractableSubgraphData} :
    parseExtractableSubgraphSelection graphIds adjacencyList = .ok data ↔
      SingleBoundary graphIds adjacencyList data ∧ AtEnds graphIds adjacencyList data ∧
        pathErrors adjacencyList data = [] := by
  have hinput := @boundary_iff (getRootNodes graphIds adjacencyList)
    (inputNodes graphIds adjacencyList) data.start
  have houtput := @boundary_iff (getLeafNodes graphIds adjacencyList)
    (outputNodes graphIds adjacencyList) data.end_
  simp only [mem_inputNodes, mem_getRootNodes] at hinput
  simp only [mem_outputNodes, mem_getLeafNodes] at houtput
  rw [parse_eq_ok_iff_errors]
  constructor
  · rintro ⟨hnone, rfl⟩
    simp only [subgraphErrors, gt_iff_lt, List.append_eq_nil_iff, List.map_eq_nil_iff,
      ite_eq_right_iff, List.cons_ne_nil, imp_false] at hnone
    obtain ⟨⟨⟨⟨hroots, hstart⟩, hleaves⟩, hend⟩, hpath⟩ := hnone
    obtain ⟨hentered, hroot⟩ := hinput.mp ⟨hroots, hstart, rfl⟩
    obtain ⟨hleft, hleaf⟩ := houtput.mp ⟨hleaves, hend, rfl⟩
    exact ⟨⟨hentered, hleft⟩, ⟨hroot, hleaf⟩, hpath⟩
  · rintro ⟨hboundary, hends, hpath⟩
    obtain ⟨hroots, hstart, hfirst⟩ := hinput.mpr ⟨hboundary.entered, hends.root⟩
    obtain ⟨hleaves, hend, hlast⟩ := houtput.mpr ⟨hboundary.left, hends.leaf⟩
    have hdata : subgraphData graphIds adjacencyList = data := by
      cases data
      exact congrArg₂ ExtractableSubgraphData.mk hfirst hlast
    refine ⟨?_, hdata⟩
    simp only [subgraphErrors, gt_iff_lt, List.append_eq_nil_iff, List.map_eq_nil_iff,
      ite_eq_right_iff, List.cons_ne_nil, imp_false, hdata]
    exact ⟨⟨⟨⟨hroots, hstart⟩, hleaves⟩, hend⟩, hpath⟩

theorem pathErrors_eq_nil_iff {data : ExtractableSubgraphData} :
    pathErrors adjacencyList data = [] ↔ ∀ s e, data.start = some s → data.end_ = some e →
      s ≠ "" → e ≠ "" → ReflTransGen (MainEdge adjacencyList) s e := by
  obtain ⟨start, end_⟩ := data
  cases start with
  | none => simp [pathErrors]
  | some s =>
    cases end_ with
    | none => simp [pathErrors]
    | some e => simp [pathErrors, hasPath_iff, ← Bool.not_eq_true]

/-- A path to the node from which alone the selection is left stays inside, up to that node. -/
theorem inside_of_mainEdge {end_ u : String} (hleft : ∀ v, Left graphIds adjacencyList v → v = end_)
    (hu : u ∈ graphIds) (hpath : ReflTransGen (MainEdge adjacencyList) u end_) :
    ReflTransGen (Inside graphIds adjacencyList) u end_ := by
  induction hpath using ReflTransGen.head_induction_on with
  | refl => exact .refl
  | @head u v hedge _ ih =>
    by_cases hv : v ∈ graphIds
    · exact .head ⟨hu, hv, hedge⟩ (ih hv)
    · rw [hleft u ⟨hu, v, hv, hedge⟩]

/-- **Extractable selections**: a selection that succeeds has no other main edge across its boundary
than into its start and out of its end, and the end can be reached from the start inside it. A
selection like that, whose boundary is at its roots and leaves, succeeds. -/
theorem parse_eq_ok_extractable (data : ExtractableSubgraphData) :
    (parseExtractableSubgraphSelection graphIds adjacencyList = .ok data →
      SingleBoundary graphIds adjacencyList data ∧ AtEnds graphIds adjacencyList data ∧
        (data.start ≠ some "" → data.end_ ≠ some "" → PathInside graphIds adjacencyList data)) ∧
    (SingleBoundary graphIds adjacencyList data → AtEnds graphIds adjacencyList data →
      PathInside graphIds adjacencyList data →
        parseExtractableSubgraphSelection graphIds adjacencyList = .ok data) := by
  constructor
  · intro hok
    obtain ⟨hboundary, hends, hpath⟩ := parse_eq_ok_iff.mp hok
    refine ⟨hboundary, hends, fun hstart hend s e hs he => ?_⟩
    have hreach := pathErrors_eq_nil_iff.mp hpath s e hs he (fun heq => hstart (heq ▸ hs))
      fun heq => hend (heq ▸ he)
    have hentered := (hboundary.entered s).mpr hs
    refine inside_of_mainEdge (fun v hv => ?_) hentered.1 hreach
    exact Option.some.inj (((hboundary.left v).mp hv).symm.trans he)
  · intro hboundary hends hpath
    refine parse_eq_ok_iff.mpr ⟨hboundary, hends, ?_⟩
    refine pathErrors_eq_nil_iff.mpr fun s e hs he _ _ => ?_
    have hle : Inside graphIds adjacencyList ≤ MainEdge adjacencyList := fun _ _ h => h.2.2
    exact ReflTransGen.mono hle s e (hpath s e hs he)

/-- The nodes `a`, `b` and `c` with a loop between `b` and `c`: the selection is entered at `b`,
which is not a root of it, while `a` is. -/
theorem not_parse_eq_ok_entryNotRoot :
    ∃ graphIds adjacencyList data, SingleBoundary graphIds adjacencyList data ∧
      PathInside graphIds adjacencyList data ∧ Connected graphIds adjacencyList ∧
        ∀ data', parseExtractableSubgraphSelection graphIds adjacencyList ≠ .ok data' := by
  let main (node : String) : IConnection := ⟨node, .main, 0⟩
  let graphIds := InsertionSet.ofList ["a", "b", "c"]
  let adjacencyList : IConnectionAdjacencyList := ((((InsertionMap.empty).set "x" [main "b"]).set
    "a" [main "b"]).set "b" [main "c"]).set "c" [main "b", main "y"]
  have hentered : (inputNodes graphIds adjacencyList).elements = ["b"] := by decide
  have hleft : (outputNodes graphIds adjacencyList).elements = ["c"] := by decide
  have hroots : (getRootNodes graphIds adjacencyList).elements = ["a"] := by decide
  have hab : Inside graphIds adjacencyList "a" "b" :=
    ⟨by decide, by decide, main "b", by decide, rfl, rfl⟩
  have hbc : Inside graphIds adjacencyList "b" "c" :=
    ⟨by decide, by decide, main "c", by decide, rfl, rfl⟩
  have hboundary : SingleBoundary graphIds adjacencyList ⟨some "b", some "c"⟩ := by
    constructor
    · intro v
      rw [← mem_inputNodes, InsertionSet.mem_def, hentered, List.mem_singleton]
      exact eq_comm.trans (Option.some.injEq "b" v).to_iff.symm
    · intro v
      rw [← mem_outputNodes, InsertionSet.mem_def, hleft, List.mem_singleton]
      exact eq_comm.trans (Option.some.injEq "c" v).to_iff.symm
  refine ⟨graphIds, adjacencyList, ⟨some "b", some "c"⟩, hboundary, ?_, ?_, ?_⟩
  · intro s e hs he
    obtain rfl := Option.some.inj hs
    obtain rfl := Option.some.inj he
    exact .single hbc
  · have hb : ∀ u ∈ graphIds, EqvGen (Inside graphIds adjacencyList) u "b" := by
      intro u hu
      have hcases : u = "a" ∨ u = "b" ∨ u = "c" := by
        have hmem := InsertionSet.mem_ofList.mp hu
        simpa using hmem
      obtain rfl | rfl | rfl := hcases
      · exact .rel _ _ hab
      · exact .refl _
      · exact .symm _ _ (.rel _ _ hbc)
    exact fun u hu v hv => .trans _ _ _ (hb u hu) (.symm _ _ (hb v hv))
  · intro data' hok
    obtain ⟨hboundary', hends, -⟩ := parse_eq_ok_iff.mp hok
    have hstart := (hboundary'.entered "b").mp ((hboundary.entered "b").mpr rfl)
    have hroot : ∀ v, IsRoot graphIds adjacencyList v ↔ v = "a" := fun v => by
      rw [← mem_getRootNodes, InsertionSet.mem_def, hroots, List.mem_singleton]
    obtain hb | hnone := hends.root "b" hstart
    · exact absurd ((hroot "b").mp hb) (by decide)
    · exact hnone "a" ((hroot "a").mpr rfl)

end N8n.GraphUtils
