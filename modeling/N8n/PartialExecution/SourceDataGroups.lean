import Mathlib.Data.List.Sort
import N8n.PartialExecution.IncomingData

/-!
# Groups of incoming connections

`getSourceDataGroups` distributes the incoming connections of a node over groups with one
connection for each of a run of consecutive inputs. Connections whose source has run data or
is pinned come first; a group that has to make do with another one is not `complete`.

How names compare (`localeCompare`) depends on the locale, and is a parameter.
-/

namespace N8n

namespace DirectedGraph

variable (localeCompare : String → String → ℤ)

def sortByInputIndexThenByName (connection1 connection2 : GraphConnection) : ℤ :=
  if connection1.inputIndex = connection2.inputIndex then
    localeCompare connection1.fromNode.name connection2.fromNode.name
  else connection1.inputIndex - connection2.inputIndex

/-- The stable sort of an array of connections. -/
def sortConnections (connections : List GraphConnection) : List GraphConnection :=
  connections.insertionSort fun c c' => sortByInputIndexThenByName localeCompare c c' ≤ 0

structure SourceConnectionGroup where
  /-- Whether all connections have data. -/
  complete : Bool := true
  connections : List GraphConnection := []
  deriving DecidableEq, Repr

def newGroup : SourceConnectionGroup := {}

/-- The variables of the loop. -/
structure GroupState where
  sortedConnectionsWithData : List GraphConnection
  sortedConnectionsWithoutData : List GraphConnection
  groups : List SourceConnectionGroup := []
  currentGroup : SourceConnectionGroup := newGroup
  currentInputIndex : ℤ

/-- The smallest input index of the connections that are left, minus one. -/
def beforeFirstInput (withData withoutData : List GraphConnection) : ℤ :=
  (((withData ++ withoutData).map fun c => c.inputIndex).min?).getD 0 - 1

/-- One iteration: take a connection of the next input, or start a new group. -/
def GroupState.next (st : GroupState) : GroupState :=
  let currentInputIndex := st.currentInputIndex + 1
  let atInput : GraphConnection → Bool := fun c => c.inputIndex = currentInputIndex
  match st.sortedConnectionsWithData.find? atInput with
  | some connection =>
    { st with
      currentInputIndex
      sortedConnectionsWithData := st.sortedConnectionsWithData.eraseP atInput
      currentGroup := { st.currentGroup with
        connections := st.currentGroup.connections ++ [connection] } }
  | none =>
    match st.sortedConnectionsWithoutData.find? atInput with
    | some connection =>
      { st with
        currentInputIndex
        sortedConnectionsWithoutData := st.sortedConnectionsWithoutData.eraseP atInput
        currentGroup :=
          { complete := false, connections := st.currentGroup.connections ++ [connection] } }
    | none =>
      { st with
        groups := st.groups ++ [st.currentGroup]
        currentGroup := newGroup
        currentInputIndex :=
          beforeFirstInput st.sortedConnectionsWithData st.sortedConnectionsWithoutData }

/-- The loop, with a bound on the number of iterations. -/
def groupLoop : ℕ → GroupState → Except GraphError (List SourceConnectionGroup)
  | 0, _ => .error .outOfFuel
  | fuel + 1, st =>
    if st.sortedConnectionsWithData.length > 0 ∨ st.sortedConnectionsWithoutData.length > 0 then
      groupLoop fuel st.next
    else .ok (st.groups ++ [st.currentGroup])

/-- The source of the connection has run data or is pinned, or the lookup finds a member of
`Object.prototype`. -/
def hasData (runData : IRunData) (pinnedData : IPinData) (connection : GraphConnection) : Bool :=
  runData.has connection.fromNode.name || pinnedData.has connection.fromNode.name ||
    connection.fromNode.name ∈ InsertionMap.inheritedKeys

def getSourceDataGroups (graph : DirectedGraph) (node : INode) (runData : IRunData)
    (pinnedData : IPinData) : Except GraphError (List SourceConnectionGroup) :=
  let connections := graph.getConnectionsTo node
  let connectionsWithData := connections.filter (hasData runData pinnedData)
  let connectionsWithoutData := connections.filter fun connection =>
    !hasData runData pinnedData connection && connection.type = .main
  if connectionsWithData.length = 0 ∧ connectionsWithoutData.length = 0 then .ok []
  else
    let withData := sortConnections localeCompare connectionsWithData
    let withoutData := sortConnections localeCompare connectionsWithoutData
    groupLoop (2 * (withData.length + withoutData.length) + 2)
      { sortedConnectionsWithData := withData
        sortedConnectionsWithoutData := withoutData
        currentInputIndex := beforeFirstInput withData withoutData }

/-! ### What a group is -/

variable {localeCompare} {g : DirectedGraph} {node : INode} {runData : IRunData}
  {pinnedData : IPinData} {st : GroupState} {group : SourceConnectionGroup}

/-- The connections of a group lead to the node and take consecutive inputs; the group is
complete when all of them have data, and otherwise has a main connection without. -/
structure IsGroup (g : DirectedGraph) (node : INode) (runData : IRunData)
    (pinnedData : IPinData) (group : SourceConnectionGroup) : Prop where
  mem : ∀ c ∈ group.connections, c ∈ g.getConnections ∧ c.toNode = node
  consecutive : ∃ first : ℤ, ∀ (i : ℕ) c, group.connections[i]? = some c →
    c.inputIndex = first + i
  complete : group.complete = true → ∀ c ∈ group.connections,
    hasData runData pinnedData c = true
  incomplete : group.complete = false → ∃ c ∈ group.connections,
    hasData runData pinnedData c = false ∧ c.type = .main

/-- What holds in every iteration. -/
structure GroupState.Invariant (g : DirectedGraph) (node : INode) (runData : IRunData)
    (pinnedData : IPinData) (st : GroupState) : Prop where
  withData : ∀ c ∈ st.sortedConnectionsWithData,
    (c ∈ g.getConnections ∧ c.toNode = node) ∧ hasData runData pinnedData c = true
  withoutData : ∀ c ∈ st.sortedConnectionsWithoutData,
    (c ∈ g.getConnections ∧ c.toNode = node) ∧ hasData runData pinnedData c = false ∧
      c.type = .main
  groups : ∀ group ∈ st.groups, IsGroup g node runData pinnedData group
  current : IsGroup g node runData pinnedData st.currentGroup
  index : ∀ (i : ℕ) c, st.currentGroup.connections[i]? = some c →
    c.inputIndex = st.currentInputIndex + 1 - st.currentGroup.connections.length + i

theorem isGroup_newGroup : IsGroup g node runData pinnedData newGroup where
  mem := by simp [newGroup]
  consecutive := ⟨0, by simp [newGroup]⟩
  complete := by simp [newGroup]
  incomplete := by simp [newGroup]

/-- The connection of the next input continues a group. -/
private theorem index_concat {connections : List GraphConnection} {connection : GraphConnection}
    {currentInputIndex : ℤ} (hindex : ∀ (i : ℕ) c, connections[i]? = some c →
      c.inputIndex = currentInputIndex + 1 - connections.length + i)
    (hconn : connection.inputIndex = currentInputIndex + 1) (i : ℕ) (c : GraphConnection)
    (hc : (connections ++ [connection])[i]? = some c) :
    c.inputIndex =
      currentInputIndex + 1 + 1 - (connections ++ [connection]).length + i := by
  rw [List.length_append, List.length_singleton]
  rcases Nat.lt_or_ge i connections.length with h | h
  · rw [List.getElem?_append_left h] at hc
    rw [hindex i c hc]
    omega
  · rw [List.getElem?_append_right h, List.getElem?_singleton] at hc
    split at hc
    next hi =>
      cases hc
      rw [hconn]
      omega
    next => cases hc

/-- **Step lemma of the grouping.** -/
theorem GroupState.Invariant.next (h : st.Invariant g node runData pinnedData) :
    st.next.Invariant g node runData pinnedData := by
  rw [GroupState.next]
  split
  next connection hfind =>
    -- a connection with data keeps the group as complete as it was
    have hmem := h.withData _ (List.mem_of_find?_eq_some hfind)
    have hinput := List.find?_some hfind
    rw [decide_eq_true_eq] at hinput
    have hindex := index_concat h.index hinput
    refine ⟨fun c hc => h.withData c (List.mem_of_mem_eraseP hc), h.withoutData, h.groups,
      ⟨?_, ⟨_, fun i c hc => hindex i c hc⟩, fun hcomplete => ?_, fun hincomplete => ?_⟩, hindex⟩
    · intro c hc
      rcases List.mem_append.mp hc with hc | hc
      · exact h.current.mem c hc
      · exact List.mem_singleton.mp hc ▸ hmem.1
    · intro c hc
      rcases List.mem_append.mp hc with hc | hc
      · exact h.current.complete hcomplete c hc
      · exact List.mem_singleton.mp hc ▸ hmem.2
    · obtain ⟨c, hc, hno⟩ := h.current.incomplete hincomplete
      exact ⟨c, List.mem_append_left _ hc, hno⟩
  next =>
    split
    next connection hfind =>
      -- one without data makes it incomplete
      have hmem := h.withoutData _ (List.mem_of_find?_eq_some hfind)
      have hinput := List.find?_some hfind
      rw [decide_eq_true_eq] at hinput
      have hindex := index_concat h.index hinput
      refine ⟨h.withData, fun c hc => h.withoutData c (List.mem_of_mem_eraseP hc), h.groups,
        ⟨?_, ⟨_, fun i c hc => hindex i c hc⟩, by simp, fun _ => ?_⟩, hindex⟩
      · intro c hc
        rcases List.mem_append.mp hc with hc | hc
        · exact h.current.mem c hc
        · exact List.mem_singleton.mp hc ▸ hmem.1
      · exact ⟨connection, by simp, hmem.2⟩
    next =>
      -- no connection of the next input is left: the group is put away and a new one begins
      refine ⟨h.withData, h.withoutData, fun group hgroup => ?_, isGroup_newGroup,
        by simp [newGroup]⟩
      rcases List.mem_append.mp hgroup with hgroup | hgroup
      · exact h.groups group hgroup
      · exact List.mem_singleton.mp hgroup ▸ h.current

/-! ### The loop -/

/-- The number of connections that are left. -/
def GroupState.left (st : GroupState) : ℕ :=
  st.sortedConnectionsWithData.length + st.sortedConnectionsWithoutData.length

/-- A connection of the next input is left. -/
def GroupState.HasNext (st : GroupState) : Prop :=
  ∃ c ∈ st.sortedConnectionsWithData ++ st.sortedConnectionsWithoutData,
    c.inputIndex = st.currentInputIndex + 1

/-- When no connection of the next input is left, a new group starts at the first input that
is. -/
theorem hasNext_beforeFirstInput {withData withoutData : List GraphConnection}
    (h : withData ++ withoutData ≠ []) : ∃ c ∈ withData ++ withoutData,
      c.inputIndex = beforeFirstInput withData withoutData + 1 := by
  have hne : (withData ++ withoutData).map (fun c => c.inputIndex) ≠ [] :=
    fun hmap => h (List.map_eq_nil_iff.mp hmap)
  rw [beforeFirstInput, Int.sub_add_cancel]
  rcases hmin : ((withData ++ withoutData).map fun c => c.inputIndex).min? with _ | m
  · exact absurd (List.min?_eq_none_iff.mp hmin) hne
  · obtain ⟨c, hc, hm⟩ := List.mem_map.mp (List.min?_mem hmin)
    exact ⟨c, hc, by rw [hmin, Option.getD_some, hm]⟩

/-- An iteration takes a connection, or makes sure that the next one does. -/
private theorem next_left (hne : 0 < st.left) :
    st.next.left + 1 = st.left ∨ (st.next.left = st.left ∧ ¬st.HasNext ∧ st.next.HasNext) := by
  rw [GroupState.next]
  split
  next connection hfind =>
    have hlen := List.length_eraseP_of_mem (List.mem_of_find?_eq_some hfind)
      (List.find?_some hfind)
    have hpos := List.length_pos_of_mem (List.mem_of_find?_eq_some hfind)
    refine Or.inl ?_
    simp only [GroupState.left, hlen]
    omega
  next hwith =>
    split
    next connection hfind =>
      have hlen := List.length_eraseP_of_mem (List.mem_of_find?_eq_some hfind)
        (List.find?_some hfind)
      have hpos := List.length_pos_of_mem (List.mem_of_find?_eq_some hfind)
      refine Or.inl ?_
      simp only [GroupState.left, hlen]
      omega
    next hwithout =>
      refine Or.inr ⟨rfl, ?_, ?_⟩
      · rintro ⟨c, hc, hinput⟩
        rw [List.find?_eq_none] at hwith hwithout
        rcases List.mem_append.mp hc with hc | hc
        · exact hwith c hc (decide_eq_true hinput)
        · exact hwithout c hc (decide_eq_true hinput)
      · refine hasNext_beforeFirstInput (List.ne_nil_of_length_pos ?_)
        rwa [List.length_append]

private theorem exists_groupLoop_eq_ok (fuel : ℕ) (st : GroupState)
    (hfuel : 2 * st.left + 1 < fuel ∨ (2 * st.left < fuel ∧ st.HasNext)) :
    ∃ groups, groupLoop fuel st = .ok groups := by
  induction fuel generalizing st with
  | zero => omega
  | succ fuel ih =>
    rw [groupLoop]
    split
    next hne =>
      refine ih st.next ?_
      have hleft : 0 < st.left := by
        simp only [GroupState.left]
        omega
      rcases next_left hleft with h | ⟨h, hno, hnext⟩
      · left
        omega
      · have hlong := hfuel.resolve_right fun hf => hno hf.2
        exact Or.inr ⟨by omega, hnext⟩
    next => exact ⟨_, rfl⟩

private theorem groupLoop_isGroup {fuel : ℕ} {groups : List SourceConnectionGroup}
    (hst : st.Invariant g node runData pinnedData) (h : groupLoop fuel st = .ok groups) :
    ∀ group ∈ groups, IsGroup g node runData pinnedData group := by
  induction fuel generalizing st with
  | zero => cases h
  | succ fuel ih =>
    rw [groupLoop] at h
    split at h
    next => exact ih hst.next h
    next =>
      obtain rfl := Except.ok.inj h
      intro group hgroup
      rcases List.mem_append.mp hgroup with hgroup | hgroup
      · exact hst.groups group hgroup
      · exact List.mem_singleton.mp hgroup ▸ hst.current

theorem mem_sortConnections {connections : List GraphConnection} {c : GraphConnection} :
    c ∈ sortConnections localeCompare connections ↔ c ∈ connections :=
  (List.perm_insertionSort _ _).mem_iff

theorem mem_getConnectionsTo {c : GraphConnection} :
    c ∈ g.getConnectionsTo node ↔ c ∈ g.getConnections ∧ c.toNode = node := by
  simp [getConnectionsTo]

/-- `getSourceDataGroups` returns, and what it returns are groups. -/
theorem exists_getSourceDataGroups_eq_ok (localeCompare : String → String → ℤ)
    (g : DirectedGraph) (node : INode) (runData : IRunData) (pinnedData : IPinData) :
    ∃ groups, getSourceDataGroups localeCompare g node runData pinnedData = .ok groups ∧
      ∀ group ∈ groups, IsGroup g node runData pinnedData group := by
  rw [getSourceDataGroups]
  split
  next => exact ⟨[], rfl, by simp⟩
  next =>
    set st : GroupState := {
      sortedConnectionsWithData := sortConnections localeCompare
        ((g.getConnectionsTo node).filter (hasData runData pinnedData))
      sortedConnectionsWithoutData := sortConnections localeCompare
        ((g.getConnectionsTo node).filter fun connection =>
          !hasData runData pinnedData connection && connection.type = .main)
      currentInputIndex := _ } with hst
    have hinv : st.Invariant g node runData pinnedData := by
      refine ⟨fun c hc => ?_, fun c hc => ?_, by simp [hst], isGroup_newGroup,
        by simp [hst, newGroup]⟩
      · obtain ⟨hc, hdata⟩ := List.mem_filter.mp (mem_sortConnections.mp hc)
        exact ⟨mem_getConnectionsTo.mp hc, hdata⟩
      · obtain ⟨hc, hdata⟩ := List.mem_filter.mp (mem_sortConnections.mp hc)
        rw [Bool.and_eq_true, Bool.not_eq_true', decide_eq_true_eq] at hdata
        exact ⟨mem_getConnectionsTo.mp hc, hdata⟩
    obtain ⟨groups, hgroups⟩ := exists_groupLoop_eq_ok (2 * st.left + 2) st (by omega)
    exact ⟨groups, hgroups, groupLoop_isGroup hinv hgroups⟩

end DirectedGraph

end N8n
