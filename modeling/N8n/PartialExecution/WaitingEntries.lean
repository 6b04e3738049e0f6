import N8n.PartialExecution.RecreateNodeExecutionStack

/-!
# The waiting entries of a start node

Which entries `recreateNodeExecutionStack` leaves in the waiting area: for each incomplete
group of a start node some of whose connections have data there is one, under consecutive
run indexes, with data in exactly the inputs of these connections. The inputs without data
are holes, not `null`.
-/

namespace N8n

namespace DirectedGraph

/-- The source of the connection has run data on the output. -/
def Carries (runData : IRunData) (c : GraphConnection) : Prop :=
  HasRunData runData c.fromNode.name c.type c.outputIndex

instance (runData : IRunData) (c : GraphConnection) : Decidable (Carries runData c) :=
  inferInstanceAs (Decidable (HasRunData ..))

variable {g : DirectedGraph} {runData : IRunData} {pinData : IPinData} {c : GraphConnection}
  {connections : List GraphConnection}

/-! ### One group -/

/-- The entry has data for the types and inputs of the connections that carry data, and nothing
in it is `null`. -/
structure EntryFor (runData : IRunData) (connections : List GraphConnection)
    (entry : ITaskDataConnections) : Prop where
  type_iff : ∀ type, (entry.get? type).isSome = true ↔
    ∃ c ∈ connections, c.type = type ∧ Carries runData c
  value_iff : ∀ type i,
    (SparseArray.getAt .hole ((entry.get? type).getD []) i).isValue = true ↔
      ∃ c ∈ connections, (c.type = type ∧ c.inputIndex = i) ∧ Carries runData c
  not_null : ∀ type, Slot.null ∉ (entry.get? type).getD []

private theorem entryFor_empty (h : ∀ c ∈ connections, ¬Carries runData c) :
    EntryFor runData connections .empty where
  type_iff := fun type => by
    simp only [InsertionMap.get?_empty, Option.isSome_none, Bool.false_eq_true, false_iff]
    exact fun ⟨c, hc, _, hcarries⟩ => h c hc hcarries
  value_iff := fun type i => by
    simp only [InsertionMap.get?_empty, Option.getD_none, SparseArray.getAt_nil]
    exact iff_of_false (by decide) fun ⟨c, hc, _, hcarries⟩ => h c hc hcarries
  not_null := fun type => List.not_mem_nil

private theorem EntryFor.concat {entry : ITaskDataConnections}
    (h : EntryFor runData connections entry) (hc : ¬Carries runData c) :
    EntryFor runData (connections ++ [c]) entry where
  type_iff := fun type => by
    rw [h.type_iff]
    simp [List.mem_append, or_and_right, exists_or, hc]
  value_iff := fun type i => by
    rw [h.value_iff]
    simp [List.mem_append, or_and_right, exists_or, hc]
  not_null := h.not_null

private theorem EntryFor.set {entry : ITaskDataConnections}
    (h : EntryFor runData connections entry) (hc : Carries runData c)
    (items : List INodeExecutionData) :
    EntryFor runData (connections ++ [c]) (entry.set c.type
      (setSlot ((entry.get? c.type).getD []) c.inputIndex (.value items))) where
  type_iff := fun type => by
    rw [InsertionMap.get?_set]
    by_cases htype : type = c.type
    · subst htype
      simp only [if_true, Option.isSome_some, true_iff]
      exact ⟨c, by simp, rfl, hc⟩
    · rw [if_neg htype, h.type_iff]
      simp [List.mem_append, or_and_right, exists_or, Ne.symm htype]
  value_iff := fun type i => by
    rw [InsertionMap.get?_set]
    by_cases htype : type = c.type
    · subst htype
      rw [if_pos rfl, Option.getD_some, getAt_setSlot]
      by_cases hi : (i : ℤ) = c.inputIndex
      · rw [if_pos hi]
        exact iff_of_true (by simp [Slot.isValue]) ⟨c, by simp, ⟨rfl, hi.symm⟩, hc⟩
      · rw [if_neg hi, h.value_iff]
        simp [List.mem_append, or_and_right, exists_or, Ne.symm hi]
    · rw [if_neg htype, h.value_iff]
      simp [List.mem_append, or_and_right, exists_or, Ne.symm htype]
  not_null := fun type => by
    rw [InsertionMap.get?_set]
    by_cases htype : type = c.type
    · rw [if_pos htype, Option.getD_some]
      intro hmem
      rcases mem_setSlot hmem with hmem | hmem | hmem
      · exact h.not_null c.type hmem
      · cases hmem
      · cases hmem
    · rw [if_neg htype]
      exact h.not_null type

/-- The entries that the planner has made for a node: one for each of the groups. -/
structure EntriesFor (runData : IRunData) (nodeName : String)
    (groups : List (List GraphConnection)) (waitingExecution : IWaitingForExecution) : Prop where
  keys : ((waitingExecution.get? nodeName).getD .empty).keys = List.range groups.length
  entry : ∀ (k : ℕ) connections, groups[k]? = some connections → ∃ entry,
    ((waitingExecution.get? nodeName).getD .empty).get? k = some entry ∧
      EntryFor runData connections entry

/-- A group some of whose connections carry data gets an entry. -/
def withGroup (runData : IRunData) (groups : List (List GraphConnection))
    (connections : List GraphConnection) : List (List GraphConnection) :=
  if ∃ c ∈ connections, Carries runData c then groups ++ [connections] else groups

/-- One connection of a group changes the waiting area when it carries data. -/
private theorem addWaiting_cases {nodeName : String} {runIndex : ℕ}
    {waiting waiting' : IWaitingForExecution × IWaitingForExecutionSource}
    (h : addWaiting runData nodeName runIndex waiting c = .ok waiting') :
    (¬Carries runData c ∧ waiting'.1 = waiting.1) ∨ (Carries runData c ∧ ∃ items,
      waiting'.1 = waiting.1.assign nodeName runIndex c.type c.inputIndex (.value items)) := by
  rw [addWaiting] at h
  rcases hdata : getIncomingDataFromAnyRun runData c.fromNode.name c.type c.outputIndex
    with e | _ | ⟨items, r₀⟩
  · rw [hdata] at h
    cases h
  · rw [hdata] at h
    exact Or.inl ⟨not_hasRunData_of_getIncomingDataFromAnyRun hdata,
      congrArg Prod.fst (Except.ok.inj h).symm⟩
  · rw [hdata] at h
    obtain rfl := Except.ok.inj h
    obtain ⟨run, hrun, hout, hne⟩ := output_of_getIncomingDataFromAnyRun hdata
    exact Or.inr ⟨⟨run, List.mem_of_getElem? hrun, items, hout, hne⟩, items, rfl⟩

/-- An assignment, seen from the entries of its node. -/
private theorem getD_get?_assign (waiting : IWaitingForExecution) (nodeName : String)
    (runIndex : ℕ) (type : NodeConnectionType) (i : ℤ) (slot : Slot (List INodeExecutionData)) :
    ((waiting.assign nodeName runIndex type i slot).get? nodeName).getD .empty =
      let entries := (waiting.get? nodeName).getD .empty
      let entry := (entries.get? runIndex).getD .empty
      entries.set runIndex
        (entry.set type (setSlot ((entry.get? type).getD []) i slot)) := by
  rw [WaitingSlots.assign, InsertionMap.get?_set_self]
  rfl

private theorem get?_assign_of_ne (waiting : IWaitingForExecution) {nodeName nodeName' : String}
    (hne : nodeName' ≠ nodeName) (runIndex : ℕ) (type : NodeConnectionType) (i : ℤ)
    (slot : Slot (List INodeExecutionData)) :
    (waiting.assign nodeName runIndex type i slot).get? nodeName' = waiting.get? nodeName' := by
  rw [WaitingSlots.assign, InsertionMap.get?_set_of_ne _ hne]

variable {nodeName : String} {groups : List (List GraphConnection)}

/-- **Step lemma of a group**, connection by connection. -/
private theorem EntriesFor.addWaiting
    {waiting waiting' : IWaitingForExecution × IWaitingForExecutionSource}
    (h : EntriesFor runData nodeName (withGroup runData groups connections) waiting.1)
    (hadd : addWaiting runData nodeName groups.length waiting c = .ok waiting') :
    EntriesFor runData nodeName (withGroup runData groups (connections ++ [c])) waiting'.1 := by
  by_cases hany : ∃ c ∈ connections, Carries runData c
  · -- the group has an entry already
    have hany' : ∃ c' ∈ connections ++ [c], Carries runData c' := by
      obtain ⟨c', hc', hcarries⟩ := hany
      exact ⟨c', List.mem_append_left _ hc', hcarries⟩
    rw [withGroup, if_pos hany] at h
    rw [withGroup, if_pos hany']
    obtain ⟨entry, hget, hentry⟩ := h.entry groups.length connections (by simp)
    have hold : ∀ k < groups.length, ∀ cs, (groups ++ [connections ++ [c]])[k]? = some cs →
        (groups ++ [connections])[k]? = some cs := by
      intro k hk cs hcs
      rwa [List.getElem?_append_left hk] at hcs ⊢
    have hlast : ∀ k, ¬k < groups.length → ∀ cs, (groups ++ [connections ++ [c]])[k]? = some cs →
        k = groups.length ∧ cs = connections ++ [c] := by
      intro k hk cs hcs
      rw [List.getElem?_append_right (Nat.le_of_not_lt hk), List.getElem?_singleton] at hcs
      split at hcs
      next hzero => exact ⟨by omega, (Option.some.inj hcs).symm⟩
      next => cases hcs
    rcases addWaiting_cases hadd with ⟨hno, heq⟩ | ⟨hcarries, items, heq⟩
    · rw [heq]
      refine ⟨by simpa using h.keys, fun k cs hcs => ?_⟩
      by_cases hk : k < groups.length
      · exact h.entry k cs (hold k hk cs hcs)
      · obtain ⟨rfl, rfl⟩ := hlast k hk cs hcs
        exact ⟨entry, hget, hentry.concat hno⟩
    · rw [heq]
      have hmem : groups.length ∈ ((waiting.1.get? nodeName).getD .empty).keys := by
        rw [h.keys]
        simp
      refine ⟨?_, fun k cs hcs => ?_⟩
      · rw [getD_get?_assign]
        simp only [InsertionMap.keys_set_of_mem hmem, h.keys]
        simp
      · rw [getD_get?_assign]
        simp only [InsertionMap.get?_set]
        by_cases hk : k < groups.length
        · rw [if_neg (Nat.ne_of_lt hk)]
          exact h.entry k cs (hold k hk cs hcs)
        · obtain ⟨rfl, rfl⟩ := hlast k hk cs hcs
          rw [if_pos rfl, hget, Option.getD_some]
          exact ⟨_, rfl, hentry.set hcarries items⟩
  · have hnone : ∀ c ∈ connections, ¬Carries runData c := fun c hc hcarries =>
      hany ⟨c, hc, hcarries⟩
    rw [withGroup, if_neg hany] at h
    rcases addWaiting_cases hadd with ⟨hno, heq⟩ | ⟨hcarries, items, heq⟩
    · have hany' : ¬∃ c' ∈ connections ++ [c], Carries runData c' := by
        rintro ⟨c', hc', hcarries⟩
        rcases List.mem_append.mp hc' with hc' | hc'
        · exact hnone c' hc' hcarries
        · exact hno (List.mem_singleton.mp hc' ▸ hcarries)
      rw [withGroup, if_neg hany', heq]
      exact h
    · -- the first connection with data makes the entry
      have hany' : ∃ c' ∈ connections ++ [c], Carries runData c' := ⟨c, by simp, hcarries⟩
      rw [withGroup, if_pos hany', heq]
      have hnot : groups.length ∉ ((waiting.1.get? nodeName).getD .empty).keys := by
        rw [h.keys]
        simp
      have hget := InsertionMap.get?_eq_none_iff.mpr hnot
      refine ⟨?_, fun k cs hcs => ?_⟩
      · rw [getD_get?_assign]
        simp only [InsertionMap.keys_set_of_not_mem hnot, h.keys]
        simp [List.range_succ]
      · rw [getD_get?_assign]
        simp only [InsertionMap.get?_set]
        by_cases hk : k < groups.length
        · rw [if_neg (Nat.ne_of_lt hk)]
          rw [List.getElem?_append_left hk] at hcs
          exact h.entry k cs hcs
        · rw [List.getElem?_append_right (Nat.le_of_not_lt hk), List.getElem?_singleton] at hcs
          split at hcs
          next hzero =>
            obtain rfl := Option.some.inj hcs
            rw [if_pos (by omega), hget, Option.getD_none]
            exact ⟨_, rfl, (entryFor_empty hnone).set hcarries items⟩
          next => cases hcs

/-! ### The groups of a node -/

/-- All connections of a group. -/
private theorem EntriesFor.foldlM_addWaiting {l : List GraphConnection}
    {waiting waiting' : IWaitingForExecution × IWaitingForExecutionSource}
    (h : EntriesFor runData nodeName groups waiting.1)
    (hfold : l.foldlM (DirectedGraph.addWaiting runData nodeName groups.length) waiting
      = .ok waiting') :
    EntriesFor runData nodeName (withGroup runData groups l) waiting'.1 := by
  induction l using List.reverseRecOn generalizing waiting' with
  | nil =>
    obtain rfl := Except.ok.inj hfold
    rw [withGroup, if_neg (by simp)]
    exact h
  | append_singleton l c ih =>
    obtain ⟨waiting₀, h₀, hc⟩ := ExceptFold.foldlM_concat_eq_ok_iff.mp hfold
    exact (ih h₀).addWaiting hc

private theorem nextRunIndex_of_entriesFor {waitingExecution : IWaitingForExecution}
    (h : EntriesFor runData nodeName groups waitingExecution) :
    nextRunIndex waitingExecution nodeName = groups.length := by
  have hkeys := congrArg List.length h.keys
  rw [List.length_range] at hkeys
  rw [nextRunIndex, ← hkeys]
  rcases waitingExecution.get? nodeName with _ | entries
  · rfl
  · rfl

/-- The groups, one after the other, that get an entry. -/
def groupsThatWait (runData : IRunData) (groups : List (List GraphConnection))
    (sourceData : SourceConnectionGroup) : List (List GraphConnection) :=
  if sourceData.complete then groups else withGroup runData groups sourceData.connections

variable {node : INode} {r r' : RecreatedStack}

private theorem EntriesFor.addGroup {sourceData : SourceConnectionGroup}
    (h : EntriesFor runData node.name groups r.waitingExecution)
    (hadd : DirectedGraph.addGroup runData pinData node r sourceData = .ok r') :
    EntriesFor runData node.name (groupsThatWait runData groups sourceData)
      r'.waitingExecution := by
  rw [DirectedGraph.addGroup] at hadd
  rw [groupsThatWait]
  split at hadd
  next hcomplete =>
    rw [if_pos hcomplete]
    rcases hentry : stackEntry runData pinData node sourceData with e | e
    · rw [hentry] at hadd
      cases hadd
    · rw [hentry] at hadd
      obtain rfl := Except.ok.inj hadd
      exact h
  next hcomplete =>
    rw [if_neg hcomplete]
    rw [nextRunIndex_of_entriesFor h] at hadd
    rcases hfold : sourceData.connections.foldlM (DirectedGraph.addWaiting runData node.name
      groups.length) (r.waitingExecution, r.waitingExecutionSource) with e | waiting
    · rw [hfold] at hadd
      cases hadd
    · rw [hfold] at hadd
      obtain rfl := Except.ok.inj hadd
      have hpair : EntriesFor runData node.name groups
          (r.waitingExecution, r.waitingExecutionSource).1 := h
      exact hpair.foldlM_addWaiting hfold

private theorem EntriesFor.foldlM_addGroup {l : List SourceConnectionGroup}
    (h : EntriesFor runData node.name groups r.waitingExecution)
    (hfold : l.foldlM (DirectedGraph.addGroup runData pinData node) r = .ok r') :
    EntriesFor runData node.name (l.foldl (groupsThatWait runData) groups)
      r'.waitingExecution := by
  induction l using List.reverseRecOn generalizing r' with
  | nil =>
    obtain rfl := Except.ok.inj hfold
    exact h
  | append_singleton l sourceData ih =>
    obtain ⟨r₀, h₀, hlast⟩ := ExceptFold.foldlM_concat_eq_ok_iff.mp hfold
    rw [List.foldl_concat]
    exact (ih h₀).addGroup hlast

private theorem foldl_groupsThatWait (l : List SourceConnectionGroup)
    (groups : List (List GraphConnection)) :
    l.foldl (groupsThatWait runData) groups = groups ++
      (l.filter fun sourceData => !sourceData.complete &&
        decide (∃ c ∈ sourceData.connections, Carries runData c)).map
          SourceConnectionGroup.connections := by
  induction l generalizing groups with
  | nil => simp
  | cons sourceData l ih =>
    rw [List.foldl_cons, ih, groupsThatWait, List.filter_cons]
    rcases sourceData.complete
    · by_cases hany : ∃ c ∈ sourceData.connections, Carries runData c <;> simp [withGroup, hany]
    · simp

/-! ### All start nodes -/

/-- The connections of the incomplete groups of a start node that have some data. -/
def incompleteGroups (localeCompare : String → String → ℤ) (g : DirectedGraph)
    (runData : IRunData) (pinData : IPinData) (node : INode) : List (List GraphConnection) :=
  match getSourceDataGroups localeCompare g node runData pinData with
  | .error _ => []
  | .ok groups =>
    (groups.filter fun sourceData => !sourceData.complete &&
      decide (∃ c ∈ sourceData.connections, Carries runData c)).map
        SourceConnectionGroup.connections

/-- The groups for which a start node waits: those of a node with main parents. -/
def waitingGroups (localeCompare : String → String → ℤ) (g : DirectedGraph)
    (startNodes : List INode) (runData : IRunData) (pinData : IPinData) (nodeName : String) :
    List (List GraphConnection) :=
  match startNodes.find? fun node => node.name = nodeName with
  | none => []
  | some node =>
    if (g.parentConnections node).any fun c => c.type = .main then
      incompleteGroups localeCompare g runData pinData node
    else []

variable {localeCompare : String → String → ℤ} {startNodes : InsertionSet INode}

private theorem get?_addGroup_of_ne {sourceData : SourceConnectionGroup}
    (hne : nodeName ≠ node.name)
    (hadd : addGroup runData pinData node r sourceData = .ok r') :
    r'.waitingExecution.get? nodeName = r.waitingExecution.get? nodeName := by
  rw [addGroup] at hadd
  split at hadd
  next =>
    rcases hentry : stackEntry runData pinData node sourceData with e | e
    · rw [hentry] at hadd
      cases hadd
    · rw [hentry] at hadd
      obtain rfl := Except.ok.inj hadd
      rfl
  next =>
    rcases hfold : sourceData.connections.foldlM (addWaiting runData node.name
      (nextRunIndex r.waitingExecution node.name)) (r.waitingExecution, r.waitingExecutionSource)
      with e | waiting
    · rw [hfold] at hadd
      cases hadd
    · rw [hfold] at hadd
      obtain rfl := Except.ok.inj hadd
      have hstep : ∀ w, ∀ c ∈ sourceData.connections,
          ∀ w' : IWaitingForExecution × IWaitingForExecutionSource,
          w.1.get? nodeName = r.waitingExecution.get? nodeName →
          addWaiting runData node.name (nextRunIndex r.waitingExecution node.name) w c = .ok w' →
          w'.1.get? nodeName = r.waitingExecution.get? nodeName := by
        intro w c _ w' hw hw'
        rcases addWaiting_cases hw' with ⟨-, heq⟩ | ⟨-, items, heq⟩
        · rw [heq, hw]
        · rw [heq, get?_assign_of_ne _ hne, hw]
      exact ExceptFold.foldlM_induct
        (P := fun w => w.1.get? nodeName = r.waitingExecution.get? nodeName) hstep rfl hfold

/-- What a start node adds to the waiting area, seen from a node. -/
private theorem EntriesFor.addStartNode (nodeName : String)
    (hadd : DirectedGraph.addStartNode localeCompare g runData pinData r node = .ok r') :
    node ∈ g.getNodes ∧
      (nodeName ≠ node.name →
        r'.waitingExecution.get? nodeName = r.waitingExecution.get? nodeName) ∧
      (EntriesFor runData node.name [] r.waitingExecution →
        EntriesFor runData node.name
          (waitingGroups localeCompare g [node] runData pinData node.name)
            r'.waitingExecution) := by
  rw [DirectedGraph.addStartNode, getDirectParentConnections] at hadd
  split at hadd
  next hmem =>
    refine ⟨nodeExists_iff.mp hmem, ?_⟩
    simp only [bind, Except.bind] at hadd
    have hgroups : waitingGroups localeCompare g [node] runData pinData node.name =
        if (g.parentConnections node).any fun c => c.type = .main then
          incompleteGroups localeCompare g runData pinData node else [] := by
      simp [waitingGroups]
    rw [hgroups]
    split at hadd
    next hnone =>
      obtain rfl := Except.ok.inj hadd
      refine ⟨fun _ => rfl, fun h => ?_⟩
      rw [if_neg]
      · exact h
      · rw [List.any_eq_true]
        rintro ⟨c, hc, hmain⟩
        have hfilter : c ∈ (g.parentConnections node).filter fun c => c.type = .main :=
          List.mem_filter.mpr ⟨hc, hmain⟩
        rw [List.length_eq_zero_iff.mp hnone] at hfilter
        exact List.not_mem_nil hfilter
    next hsome =>
      have hany : (g.parentConnections node).any (fun c => c.type = .main) = true := by
        obtain ⟨c, hc⟩ := List.exists_mem_of_length_pos (Nat.pos_of_ne_zero hsome)
        obtain ⟨hc, hmain⟩ := List.mem_filter.mp hc
        exact List.any_eq_true.mpr ⟨c, hc, hmain⟩
      rw [if_pos hany, incompleteGroups]
      rcases hdata : getSourceDataGroups localeCompare g node runData pinData with e | groups
      · rw [hdata] at hadd
        cases hadd
      · rw [hdata] at hadd
        refine ⟨fun hne => ?_, fun h => ?_⟩
        · have hstep : ∀ s, ∀ sourceData ∈ groups, ∀ s' : RecreatedStack,
              s.waitingExecution.get? nodeName = r.waitingExecution.get? nodeName →
              DirectedGraph.addGroup runData pinData node s sourceData = .ok s' →
              s'.waitingExecution.get? nodeName = r.waitingExecution.get? nodeName :=
            fun s sourceData _ s' hs hs' => (get?_addGroup_of_ne hne hs').trans hs
          exact ExceptFold.foldlM_induct
            (P := fun s => s.waitingExecution.get? nodeName = r.waitingExecution.get? nodeName)
            hstep rfl hadd
        · have hfold := h.foldlM_addGroup hadd
          rwa [foldl_groupsThatWait, List.nil_append] at hfold
  next => cases hadd

private theorem EntriesFor.congr {waiting waiting' : IWaitingForExecution}
    (h : EntriesFor runData nodeName groups waiting)
    (heq : waiting'.get? nodeName = waiting.get? nodeName) :
    EntriesFor runData nodeName groups waiting' := by
  refine ⟨?_, ?_⟩
  · rw [heq]
    exact h.keys
  · rw [heq]
    exact h.entry

private theorem entriesFor_foldlM {l : List INode} (hnodup : l.Nodup)
    (hfold : l.foldlM (addStartNode localeCompare g runData pinData) {} = .ok r) :
    (∀ n ∈ l, n ∈ g.getNodes) ∧ EntriesFor runData nodeName
      (waitingGroups localeCompare g l runData pinData nodeName) r.waitingExecution := by
  induction l using List.reverseRecOn generalizing r with
  | nil =>
    obtain rfl := Except.ok.inj hfold
    exact ⟨by simp, ⟨rfl, by simp [waitingGroups]⟩⟩
  | append_singleton l node ih =>
    obtain ⟨r₀, h₀, hnode⟩ := ExceptFold.foldlM_concat_eq_ok_iff.mp hfold
    obtain ⟨hl, hne⟩ := List.nodup_append.mp hnodup |>.imp id fun h => h.2
    obtain ⟨hmem, hentries⟩ := ih hl h₀
    obtain ⟨hin, hother, hself⟩ := EntriesFor.addStartNode nodeName hnode
    refine ⟨fun n hn => ?_, ?_⟩
    · rcases List.mem_append.mp hn with hn | hn
      · exact hmem n hn
      · exact List.mem_singleton.mp hn ▸ hin
    · by_cases hname : nodeName = node.name
      · subst hname
        -- no node before it has this name
        have hfirst : l.find? (fun n => n.name = node.name) = none := by
          rw [List.find?_eq_none]
          intro n hn heq
          exact hne n hn node (by simp) (eq_of_name_eq (hmem n hn) hin (of_decide_eq_true heq))
        rw [waitingGroups, hfirst] at hentries
        have hgroups := hself hentries
        rw [waitingGroups] at hgroups ⊢
        rwa [List.find?_append, hfirst, Option.none_or]
      · have hfind : (l ++ [node]).find? (fun n => n.name = nodeName)
            = l.find? fun n => n.name = nodeName := by
          simp [List.find?_append, Ne.symm hname]
        rw [waitingGroups, hfind]
        rw [waitingGroups] at hentries
        exact hentries.congr (hother hname)

/-- **The waiting area of the planner, exactly.** Every node waits with one entry for each of
its incomplete groups that have some data. -/
theorem entriesFor_recreateNodeExecutionStack
    (h : recreateNodeExecutionStack localeCompare g startNodes runData pinData = .ok r)
    (nodeName : String) :
    EntriesFor runData nodeName
      (waitingGroups localeCompare g startNodes.elements runData pinData nodeName)
      r.waitingExecution := by
  rw [recreateNodeExecutionStack] at h
  split at h
  next => cases h
  next => exact (entriesFor_foldlM startNodes.nodup h).2

end DirectedGraph

end N8n
