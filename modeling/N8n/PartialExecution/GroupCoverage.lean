import N8n.PartialExecution.SourceDataGroups

/-!
# What the groups of a node cover

The grouping takes every connection that it considers exactly once. While it fills its first group
it meets the inputs from the first one on, one after the other, and none of the connections of the
inputs ahead is taken yet. So up to the first input without connections the first group has a
connection of every input, with data where there is one (`FirstGroup`).

A group is complete when all its connections have data, also when it has no connection for some
input: of two sources at the first input and one at the second, all with data, one of the first two
makes up a complete group of its own (`not_completeCovers_threeSources`).
-/

namespace N8n

namespace DirectedGraph

variable {localeCompare : String → String → ℤ} {g : DirectedGraph} {node : INode}
  {runData : IRunData} {pinnedData : IPinData} {st : GroupState}
  {withData withoutData : List GraphConnection}

/-- The connections that are grouped: the main connections of the node, and others whose source has
data. -/
def consideredConnections (g : DirectedGraph) (node : INode) (runData : IRunData)
    (pinnedData : IPinData) : List GraphConnection :=
  (g.getConnectionsTo node).filter fun connection =>
    hasData runData pinnedData connection || connection.type = .main

/-! ### The loop as a rule -/

/-- What is kept by every iteration holds when the loop ends. -/
theorem groupLoop_induct {P : GroupState → Prop} (hstep : ∀ st, 0 < st.left → P st → P st.next)
    {fuel : ℕ} {groups : List SourceConnectionGroup} (hst : P st)
    (h : groupLoop fuel st = .ok groups) :
    ∃ st', P st' ∧ st'.left = 0 ∧ groups = st'.groups ++ [st'.currentGroup] := by
  induction fuel generalizing st with
  | zero => cases h
  | succ fuel ih =>
    rw [groupLoop] at h
    split at h
    next hleft =>
      refine ih (hstep st ?_ hst) h
      rw [GroupState.left]
      omega
    next hleft =>
      refine ⟨st, hst, ?_, (Except.ok.inj h).symm⟩
      rw [GroupState.left]
      omega

/-- The connection that is taken comes out of the list. -/
theorem perm_eraseP_of_find? {α : Type} {p : α → Bool} {l : List α} {a : α}
    (h : l.find? p = some a) : l.Perm (a :: l.eraseP p) := by
  induction l with
  | nil => cases h
  | cons b l ih =>
    cases hb : p b with
    | true =>
      rw [List.find?_cons_of_pos hb] at h
      obtain rfl := Option.some.inj h
      rw [List.eraseP_cons_of_pos hb]
    | false =>
      have hnot : ¬ p b = true := Bool.eq_false_iff.mp hb
      rw [List.find?_cons_of_neg hnot] at h
      rw [List.eraseP_cons_of_neg hnot]
      exact ((ih h).cons b).trans (.swap a b _)

/-! ### Every connection once -/

/-- The connections of all groups, and those that are left. -/
def GroupState.connections (st : GroupState) : List GraphConnection :=
  st.groups.flatMap (·.connections) ++ (st.currentGroup.connections ++
    (st.sortedConnectionsWithData ++ st.sortedConnectionsWithoutData))

/-- An iteration loses no connection and takes none twice. -/
theorem perm_connections_next (st : GroupState) : st.next.connections.Perm st.connections := by
  rw [GroupState.next]
  split
  next connection hfind =>
    have hperm := perm_eraseP_of_find? hfind
    simp only [GroupState.connections, List.append_assoc, List.singleton_append]
    exact .append_left _ (.append_left _ (hperm.symm.append_right _))
  next =>
    split
    next connection hfind =>
      have hperm := perm_eraseP_of_find? hfind
      simp only [GroupState.connections, List.append_assoc, List.singleton_append]
      refine .append_left _ (.append_left _ ?_)
      refine List.perm_middle.symm.trans ?_
      exact hperm.symm.append_left _
    next =>
      simp only [GroupState.connections, List.flatMap_append, List.flatMap_singleton, newGroup,
        List.nil_append, List.append_assoc]
      exact .refl _

/-! ### The first group -/

/-- The group has a connection of the input, and one with data if there is one. -/
def Takes (withData : List GraphConnection) (group : SourceConnectionGroup) (i : ℤ) : Prop :=
  ∃ c ∈ group.connections, c.inputIndex = i ∧
    ((∃ c' ∈ withData, c'.inputIndex = i) → c ∈ withData)

/-- A group has a connection of every input from the first one up to a gap. -/
def CoversToGap (withData withoutData : List GraphConnection) (group : SourceConnectionGroup) :
    Prop :=
  ∀ i, beforeFirstInput withData withoutData < i →
    (∀ j, beforeFirstInput withData withoutData < j → j ≤ i →
      ∃ c ∈ withData ++ withoutData, c.inputIndex = j) → Takes withData group i

/-- While the first group is filled, the connections of the inputs ahead are all there, and the
group has one of each input behind. -/
structure FillsFirst (withData withoutData : List GraphConnection) (st : GroupState) : Prop where
  groups : st.groups = []
  le : beforeFirstInput withData withoutData ≤ st.currentInputIndex
  mem_withData : ∀ c : GraphConnection, st.currentInputIndex < c.inputIndex →
    (c ∈ st.sortedConnectionsWithData ↔ c ∈ withData)
  mem_withoutData : ∀ c : GraphConnection, st.currentInputIndex < c.inputIndex →
    (c ∈ st.sortedConnectionsWithoutData ↔ c ∈ withoutData)
  takes : ∀ i, beforeFirstInput withData withoutData < i → i ≤ st.currentInputIndex →
    Takes withData st.currentGroup i

/-- The first group is being filled, or it covers the inputs up to a gap. -/
def FirstGroup (withData withoutData : List GraphConnection) (st : GroupState) : Prop :=
  FillsFirst withData withoutData st ∨
    ∃ first rest, st.groups = first :: rest ∧ CoversToGap withData withoutData first

/-- A group that takes the next input. -/
theorem FillsFirst.takes_append (h : FillsFirst withData withoutData st)
    {connection : GraphConnection} (hinput : connection.inputIndex = st.currentInputIndex + 1)
    (hdata : (∃ c ∈ withData, c.inputIndex = connection.inputIndex) → connection ∈ withData)
    {complete : Bool} (i : ℤ) (hi : beforeFirstInput withData withoutData < i)
    (hle : i ≤ st.currentInputIndex + 1) :
    Takes withData ⟨complete, st.currentGroup.connections ++ [connection]⟩ i := by
  obtain hle | heq := Int.lt_or_eq_of_le hle
  · obtain ⟨c, hc, hci, hcdata⟩ := h.takes i hi (Int.le_of_lt_add_one hle)
    exact ⟨c, List.mem_append_left _ hc, hci, hcdata⟩
  · have hci : connection.inputIndex = i := by omega
    exact ⟨connection, List.mem_append_right _ List.mem_cons_self, hci, hci ▸ hdata⟩

/-- The smallest input index is that of one of the connections, and none is smaller. -/
theorem beforeFirstInput_lt {c : GraphConnection} (hc : c ∈ withData ++ withoutData) :
    beforeFirstInput withData withoutData < c.inputIndex := by
  have hmem : c.inputIndex ∈ (withData ++ withoutData).map fun c => c.inputIndex :=
    List.mem_map.mpr ⟨c, hc, rfl⟩
  rw [beforeFirstInput]
  cases hmin : ((withData ++ withoutData).map fun c => c.inputIndex).min? with
  | none =>
    rw [List.min?_eq_none_iff.mp hmin] at hmem
    exact absurd hmem List.not_mem_nil
  | some m =>
    have hle : m ≤ c.inputIndex := (List.min?_eq_some_iff.mp hmin).2 _ hmem
    rw [Option.getD_some]
    omega

/-- When no connection of the next input is left, there is none at all. -/
theorem FillsFirst.coversToGap (h : FillsFirst withData withoutData st)
    (hnone : ¬ st.HasNext) : CoversToGap withData withoutData st.currentGroup := by
  intro i hi hall
  refine h.takes i hi ?_
  by_contra hlt
  have hle := h.le
  -- the input behind the last one that was taken
  obtain ⟨c, hc, hinput⟩ := hall (st.currentInputIndex + 1) (by omega) (by omega)
  have hahead : st.currentInputIndex < c.inputIndex := by omega
  refine hnone ⟨c, ?_, by omega⟩
  obtain hc | hc := List.mem_append.mp hc
  · exact List.mem_append_left _ ((h.mem_withData c hahead).mpr hc)
  · exact List.mem_append_right _ ((h.mem_withoutData c hahead).mpr hc)

/-- **An iteration and the first group.** -/
theorem FirstGroup.next (h : FirstGroup withData withoutData st) :
    FirstGroup withData withoutData st.next := by
  obtain hfills | ⟨first, rest, hgroups, hcovers⟩ := h
  · rw [GroupState.next]
    split
    next connection hfind =>
      have hinput := List.find?_some hfind
      rw [decide_eq_true_eq] at hinput
      have hmem : connection ∈ withData :=
        (hfills.mem_withData connection (by omega)).mp (List.mem_of_find?_eq_some hfind)
      refine .inl ⟨hfills.groups, ?_, fun c hc => ?_, fun c hc => ?_,
        hfills.takes_append hinput fun _ => hmem⟩
      · have hle := hfills.le
        simp only
        omega
      · simp only at hc
        have hnot : ¬ decide (c.inputIndex = st.currentInputIndex + 1) = true := by
          rw [decide_eq_true_eq]
          omega
        rw [← hfills.mem_withData c (by omega)]
        exact List.mem_eraseP_of_neg hnot
      · simp only at hc
        exact hfills.mem_withoutData c (by omega)
    next hwith =>
      -- no connection with data is at the next input
      have hnot (c : GraphConnection) (hc : c ∈ withData) :
          c.inputIndex ≠ st.currentInputIndex + 1 := by
        intro hinput
        have hmem := (hfills.mem_withData c (by omega)).mpr hc
        exact List.find?_eq_none.mp hwith c hmem (decide_eq_true hinput)
      split
      next connection hfind =>
        have hinput := List.find?_some hfind
        rw [decide_eq_true_eq] at hinput
        refine .inl ⟨hfills.groups, ?_, fun c hc => ?_, fun c hc => ?_,
          hfills.takes_append hinput ?_⟩
        · have hle := hfills.le
          simp only
          omega
        · simp only at hc
          exact hfills.mem_withData c (by omega)
        · simp only at hc
          have hne : ¬ decide (c.inputIndex = st.currentInputIndex + 1) = true := by
            rw [decide_eq_true_eq]
            omega
          rw [← hfills.mem_withoutData c (by omega)]
          exact List.mem_eraseP_of_neg hne
        · rintro ⟨c, hc, hci⟩
          exact absurd (hci ▸ hinput) (hnot c hc)
      next hwithout =>
        refine .inr ⟨st.currentGroup, [], ?_, hfills.coversToGap ?_⟩
        · rw [hfills.groups]
          rfl
        · rintro ⟨c, hc, hinput⟩
          obtain hc | hc := List.mem_append.mp hc
          · exact List.find?_eq_none.mp hwith c hc (decide_eq_true hinput)
          · exact List.find?_eq_none.mp hwithout c hc (decide_eq_true hinput)
  · refine .inr ?_
    rw [GroupState.next]
    split
    next => exact ⟨first, rest, hgroups, hcovers⟩
    next =>
      split
      next => exact ⟨first, rest, hgroups, hcovers⟩
      next => exact ⟨first, rest ++ [st.currentGroup], by rw [hgroups]; rfl, hcovers⟩

/-! ### What the groups are -/

/-- What the groups of a node amount to. -/
structure GroupsSources (g : DirectedGraph) (node : INode) (runData : IRunData)
    (pinnedData : IPinData) (groups : List SourceConnectionGroup) : Prop where
  /-- Every connection that is considered is in one group, once, and no other connection is. -/
  once : (groups.flatMap (·.connections)).Perm (consideredConnections g node runData pinnedData)
  /-- No group has two connections of one input. -/
  distinct : ∀ group ∈ groups, group.connections.Pairwise fun c c' => c.inputIndex ≠ c'.inputIndex
  /-- Of each input that has connections, and below which no input from the first one on has none,
  the first group has one, and one with data if there is one. -/
  first : ∀ c₀ ∈ consideredConnections g node runData pinnedData,
    (∀ c ∈ consideredConnections g node runData pinnedData, c₀.inputIndex ≤ c.inputIndex) →
    ∀ i, c₀.inputIndex ≤ i →
      (∀ j, c₀.inputIndex ≤ j → j ≤ i →
        ∃ c ∈ consideredConnections g node runData pinnedData, c.inputIndex = j) →
      ∃ first, groups.head? = some first ∧ ∃ c ∈ first.connections, c.inputIndex = i ∧
        ((∃ c' ∈ consideredConnections g node runData pinnedData,
          c'.inputIndex = i ∧ hasData runData pinnedData c' = true) →
        hasData runData pinnedData c = true)
  /-- A group is complete if all its connections have data. -/
  complete : ∀ group ∈ groups, (group.complete = true ↔
    ∀ c ∈ group.connections, hasData runData pinnedData c = true)

theorem pairwise_inputIndex {connections : List GraphConnection}
    (h : ∃ first : ℤ, ∀ (i : ℕ) c, connections[i]? = some c → c.inputIndex = first + i) :
    connections.Pairwise fun c c' => c.inputIndex ≠ c'.inputIndex := by
  obtain ⟨first, hfirst⟩ := h
  rw [List.pairwise_iff_getElem]
  intro i j hi hj hlt heq
  have hci := hfirst i _ (List.getElem?_eq_getElem hi)
  have hcj := hfirst j _ (List.getElem?_eq_getElem hj)
  omega

/-- The two lists of the loop have the considered connections between them. -/
theorem perm_consideredConnections (localeCompare : String → String → ℤ) (g : DirectedGraph)
    (node : INode) (runData : IRunData) (pinnedData : IPinData) :
    (sortConnections localeCompare
        ((g.getConnectionsTo node).filter (hasData runData pinnedData)) ++
      sortConnections localeCompare ((g.getConnectionsTo node).filter fun connection =>
        !hasData runData pinnedData connection && connection.type = .main)).Perm
      (consideredConnections g node runData pinnedData) := by
  have hwith : (consideredConnections g node runData pinnedData).filter
      (hasData runData pinnedData) =
        (g.getConnectionsTo node).filter (hasData runData pinnedData) := by
    rw [consideredConnections, List.filter_filter]
    refine List.filter_congr fun c _ => ?_
    cases hasData runData pinnedData c with
    | true => rfl
    | false => rfl
  have hwithout : (consideredConnections g node runData pinnedData).filter
      (fun connection => !hasData runData pinnedData connection) =
        (g.getConnectionsTo node).filter fun connection =>
          !hasData runData pinnedData connection && connection.type = .main := by
    rw [consideredConnections, List.filter_filter]
    refine List.filter_congr fun c _ => ?_
    cases hasData runData pinnedData c with
    | true => rfl
    | false => rfl
  rw [← hwith, ← hwithout]
  exact ((List.perm_insertionSort _ _).append (List.perm_insertionSort _ _)).trans
    (List.filter_append_perm _ _)

/-- **The groups of a node.** -/
theorem exists_groupsSources (localeCompare : String → String → ℤ) (g : DirectedGraph)
    (node : INode) (runData : IRunData) (pinnedData : IPinData) :
    ∃ groups, getSourceDataGroups localeCompare g node runData pinnedData = .ok groups ∧
      GroupsSources g node runData pinnedData groups := by
  obtain ⟨groups, hgroups, hisGroup⟩ :=
    exists_getSourceDataGroups_eq_ok localeCompare g node runData pinnedData
  refine ⟨groups, hgroups, ?_⟩
  have hperm := perm_consideredConnections localeCompare g node runData pinnedData
  have hdistinct : ∀ group ∈ groups,
      group.connections.Pairwise fun c c' => c.inputIndex ≠ c'.inputIndex :=
    fun group hgroup => pairwise_inputIndex (hisGroup group hgroup).consecutive
  have hcomplete : ∀ group ∈ groups, (group.complete = true ↔
      ∀ c ∈ group.connections, hasData runData pinnedData c = true) := by
    intro group hgroup
    refine ⟨(hisGroup group hgroup).complete, fun hall => ?_⟩
    by_contra hnot
    obtain ⟨c, hc, hno, -⟩ := (hisGroup group hgroup).incomplete (Bool.eq_false_iff.mpr hnot)
    exact Bool.false_ne_true (hno.symm.trans (hall c hc))
  rw [getSourceDataGroups] at hgroups
  split at hgroups
  next hempty =>
    obtain rfl := Except.ok.inj hgroups
    rw [List.length_eq_zero_iff.mp hempty.1, List.length_eq_zero_iff.mp hempty.2] at hperm
    have hnone : consideredConnections g node runData pinnedData = [] := hperm.symm.eq_nil
    exact {
      once := by
        rw [hnone]
        exact .refl []
      distinct := hdistinct
      first := fun c₀ hc₀ => by
        rw [hnone] at hc₀
        exact absurd hc₀ List.not_mem_nil
      complete := hcomplete }
  next =>
    set withData := sortConnections localeCompare
      ((g.getConnectionsTo node).filter (hasData runData pinnedData)) with hwithData
    set withoutData := sortConnections localeCompare ((g.getConnectionsTo node).filter
      fun connection => !hasData runData pinnedData connection && connection.type = .main)
    have hmem {c : GraphConnection} :
        c ∈ withData ++ withoutData ↔ c ∈ consideredConnections g node runData pinnedData :=
      hperm.mem_iff
    have hdata {c : GraphConnection} : c ∈ withData ↔
        c ∈ consideredConnections g node runData pinnedData ∧
          hasData runData pinnedData c = true := by
      rw [mem_sortConnections, List.mem_filter, consideredConnections, List.mem_filter, and_assoc,
        Bool.or_eq_true]
      tauto
    obtain ⟨st, ⟨hall, hfirst⟩, hleft, rfl⟩ := groupLoop_induct
      (P := fun st => st.connections.Perm (withData ++ withoutData) ∧
        FirstGroup withData withoutData st)
      (fun st _ h => ⟨(perm_connections_next st).trans h.1, h.2.next⟩)
      ⟨.refl _, .inl ⟨rfl, le_rfl, fun _ _ => Iff.rfl, fun _ _ => Iff.rfl,
        fun i hi hle => absurd hle (by simp only; omega)⟩⟩ hgroups
    have hempty : st.sortedConnectionsWithData = [] ∧ st.sortedConnectionsWithoutData = [] := by
      rw [GroupState.left] at hleft
      exact ⟨List.length_eq_zero_iff.mp (by omega), List.length_eq_zero_iff.mp (by omega)⟩
    -- the first group, also when it is the only one
    obtain ⟨first, hhead, hcovers⟩ : ∃ first, (st.groups ++ [st.currentGroup]).head? = some first ∧
        CoversToGap withData withoutData first := by
      obtain hfills | ⟨first, rest, hgroups', hcovers⟩ := hfirst
      · refine ⟨st.currentGroup, by rw [hfills.groups]; rfl, hfills.coversToGap ?_⟩
        rintro ⟨c, hc, -⟩
        rw [hempty.1, hempty.2] at hc
        exact absurd hc List.not_mem_nil
      · exact ⟨first, by rw [hgroups']; rfl, hcovers⟩
    exact {
      once := by
        rw [GroupState.connections, hempty.1, hempty.2] at hall
        rw [List.flatMap_append, List.flatMap_singleton]
        refine (List.Perm.of_eq ?_).trans (hall.trans hperm)
        rw [List.append_nil, List.append_nil]
      distinct := hdistinct
      first := fun c₀ hc₀ hleast i hi hinputs => by
        have hstart : beforeFirstInput withData withoutData + 1 = c₀.inputIndex := by
          obtain ⟨c, hc, hci⟩ := hasNext_beforeFirstInput (List.ne_nil_of_mem (hmem.mpr hc₀))
          have hle := hleast c (hmem.mp hc)
          have hlt := beforeFirstInput_lt (hmem.mpr hc₀)
          omega
        obtain ⟨c, hc, hci, hcdata⟩ := hcovers i (by omega) fun j hj hji => by
          obtain ⟨c, hc, hcj⟩ := hinputs j (by omega) hji
          exact ⟨c, hmem.mpr hc, hcj⟩
        refine ⟨first, hhead, c, hc, hci, ?_⟩
        rintro ⟨c', hc', hci', hdata'⟩
        exact (hdata.mp (hcdata ⟨c', hdata.mpr ⟨hc', hdata'⟩, hci'⟩)).2
      complete := hcomplete }

/-! ### Two sources at one input -/

private def compareSources (name name' : String) : ℤ :=
  if name = name' then 0 else if name < name' then -1 else 1

private def source (n : ℕ) : INode := { name := toString n }

private def joinNode : INode := { name := "node" }

/-- Two sources at the first input and one at the second. -/
private def threeSources : DirectedGraph :=
  (((empty.addNodes [source 1, source 2, source 3, joinNode]).setConnection
    { fromNode := source 1, toNode := joinNode }).setConnection
    { fromNode := source 2, toNode := joinNode }).setConnection
    { fromNode := source 3, toNode := joinNode, inputIndex := 1 }

/-- All three have run. -/
private def threeRuns : IRunData :=
  ((InsertionMap.empty.set "1" []).set "2" []).set "3" []

/-- A group is complete exactly if it has a connection with data of every input. -/
def CompleteCovers (localeCompare : String → String → ℤ) (g : DirectedGraph) (node : INode)
    (runData : IRunData) (pinnedData : IPinData) : Prop :=
  ∀ groups, getSourceDataGroups localeCompare g node runData pinnedData = .ok groups →
    ∀ group ∈ groups, (group.complete = true ↔
      ∀ c ∈ consideredConnections g node runData pinnedData, ∃ c' ∈ group.connections,
        c'.inputIndex = c.inputIndex ∧ hasData runData pinnedData c' = true)

theorem not_completeCovers_threeSources :
    ¬ CompleteCovers compareSources threeSources joinNode threeRuns .empty := by
  intro h
  obtain ⟨groups, hgroups, -⟩ :=
    exists_getSourceDataGroups_eq_ok compareSources threeSources joinNode threeRuns .empty
  -- the second source is left for a group of its own
  have hsecond : (⟨true, [{ fromNode := source 2, toNode := joinNode }]⟩ : SourceConnectionGroup) ∈
      groups := by
    have hmem : (getSourceDataGroups compareSources threeSources joinNode threeRuns
        .empty).toOption.any (fun groups =>
          groups.contains ⟨true, [{ fromNode := source 2, toNode := joinNode }]⟩) = true := by
      decide +kernel
    rw [hgroups] at hmem
    exact List.contains_iff_mem.mp hmem
  have hthird : { fromNode := source 3, toNode := joinNode, inputIndex := 1 } ∈
      consideredConnections threeSources joinNode threeRuns .empty := by decide +kernel
  obtain ⟨c, hc, hinput, -⟩ := (h groups hgroups _ hsecond).mp rfl _ hthird
  obtain rfl := List.mem_singleton.mp hc
  exact absurd hinput (by decide)

end DirectedGraph

end N8n
