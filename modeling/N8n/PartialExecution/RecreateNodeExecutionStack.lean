import Mathlib.Data.List.Induction
import N8n.Foundations.InsertionSet
import N8n.PartialExecution.SourceDataGroups

/-!
# Recreating the execution stack

`recreateNodeExecutionStack` makes the execution stack and the waiting area from which a
partial execution starts. A start node without main parents gets an empty item and no
source; for any other start node there is one entry for each group of incoming
connections, on the stack when the group is complete and in the waiting area otherwise.

The data and the source of an entry are two arrays that should correspond
(`AlignedAt`). On the stack they do when each connection of the group contributes data and
the group starts at the first input; in the waiting area, where slots are assigned by input
index, they have the same shape.
-/

namespace N8n

/-! ### The waiting area -/

/-- The slots of one node, run and connection type. -/
def WaitingSlots.slots {α : Type} (waiting : WaitingSlots α) (nodeName : String)
    (runIndex : ℕ) (inputType : NodeConnectionType) : Option (List (Slot α)) :=
  ((waiting.get? nodeName).bind (·.get? runIndex)).bind (·.get? inputType)

/-- Assign a slot of an array. A negative index makes a property that is no element. -/
def setSlot {α : Type} (list : List (Slot α)) (inputIndex : ℤ) (slot : Slot α) : List (Slot α) :=
  if inputIndex < 0 then list else SparseArray.setAt .hole list inputIndex.toNat slot

theorem getAt_setSlot {α : Type} (list : List (Slot α)) (inputIndex : ℤ) (slot : Slot α) (i : ℕ) :
    SparseArray.getAt .hole (setSlot list inputIndex slot) i =
      if i = inputIndex then slot else SparseArray.getAt .hole list i := by
  rw [setSlot]
  split
  next => rw [if_neg (by omega)]
  next =>
    rw [SparseArray.getAt_setAt]
    exact if_congr (by omega) rfl rfl

theorem mem_setSlot {α : Type} {list : List (Slot α)} {inputIndex : ℤ} {slot x : Slot α}
    (h : x ∈ setSlot list inputIndex slot) : x ∈ list ∨ x = .hole ∨ x = slot := by
  rw [setSlot] at h
  split at h
  next => exact .inl h
  next => exact SparseArray.mem_setAt h

/-- Assign one slot, making what is missing on the way to it. -/
def WaitingSlots.assign {α : Type} (waiting : WaitingSlots α) (nodeName : String)
    (runIndex : ℕ) (inputType : NodeConnectionType) (inputIndex : ℤ) (slot : Slot α) :
    WaitingSlots α :=
  let waitingObject := (waiting.get? nodeName).getD .empty
  let taskDataConnections := (waitingObject.get? runIndex).getD .empty
  let list := (taskDataConnections.get? inputType).getD []
  waiting.set nodeName (waitingObject.set runIndex
    (taskDataConnections.set inputType (setSlot list inputIndex slot)))

def addWaitingExecution (waitingExecution : IWaitingForExecution) (nodeName : String)
    (runIndex : ℕ) (inputType : NodeConnectionType) (inputIndex : ℤ)
    (executionData : Option (List INodeExecutionData)) : IWaitingForExecution :=
  waitingExecution.assign nodeName runIndex inputType inputIndex (.ofOption executionData)

def addWaitingExecutionSource (waitingExecutionSource : IWaitingForExecutionSource)
    (nodeName : String) (runIndex : ℕ) (inputType : NodeConnectionType) (inputIndex : ℤ)
    (sourceData : Option ISourceData) : IWaitingForExecutionSource :=
  waitingExecutionSource.assign nodeName runIndex inputType inputIndex (.ofOption sourceData)

/-- Reading the slots after an assignment. -/
theorem WaitingSlots.slots_assign {α : Type} (waiting : WaitingSlots α) (nodeName : String)
    (runIndex : ℕ) (inputType : NodeConnectionType) (inputIndex : ℤ) (slot : Slot α)
    (nodeName' : String) (runIndex' : ℕ) (inputType' : NodeConnectionType) :
    (waiting.assign nodeName runIndex inputType inputIndex slot).slots nodeName' runIndex'
        inputType' =
      if nodeName' = nodeName ∧ runIndex' = runIndex ∧ inputType' = inputType then
        some (setSlot ((waiting.slots nodeName runIndex inputType).getD []) inputIndex slot)
      else waiting.slots nodeName' runIndex' inputType' := by
  simp only [slots, assign, InsertionMap.get?_set]
  by_cases hnode : nodeName' = nodeName
  · subst hnode
    rcases hw : waiting.get? nodeName' with _ | m
    · by_cases hrun : runIndex' = runIndex
      · by_cases htype : inputType' = inputType <;> simp [hrun, htype, InsertionMap.get?_set]
      · simp [hrun, InsertionMap.get?_set]
    · by_cases hrun : runIndex' = runIndex
      · subst hrun
        rcases hm : m.get? runIndex' with _ | conns
        · by_cases htype : inputType' = inputType <;> simp [htype, hm, InsertionMap.get?_set]
        · by_cases htype : inputType' = inputType <;> simp [htype, hm, InsertionMap.get?_set]
      · simp [hrun, InsertionMap.get?_set]
  · simp [hnode]

namespace DirectedGraph

/-! ### The planner -/

/-- What `recreateNodeExecutionStack` returns. -/
structure RecreatedStack where
  nodeExecutionStack : List IExecuteData := []
  waitingExecution : IWaitingForExecution := .empty
  waitingExecutionSource : IWaitingForExecutionSource := .empty

/-- One connection of a complete group: pinned data, or that of the first run with data, and
the source. -/
def addIncoming (runData : IRunData) (pinData : IPinData)
    (incoming : List (Slot (List INodeExecutionData)) × List (Slot ISourceData))
    (incomingConnection : GraphConnection) :
    Except GraphError (List (Slot (List INodeExecutionData)) × List (Slot ISourceData)) :=
  let sourceNode := incomingConnection.fromNode
  let source (runIndex : ℕ) : Slot ISourceData := .value
    { previousNode := sourceNode.name, previousNodeOutput := some incomingConnection.outputIndex,
      previousNodeRun := some runIndex }
  match pinData.get? sourceNode.name with
  | some pinned => .ok (incoming.1 ++ [.value pinned], incoming.2 ++ [source 0])
  | none =>
    if runData.has sourceNode.name then do
      let nodeIncomingData ← getIncomingDataFromAnyRun runData sourceNode.name
        incomingConnection.type incomingConnection.outputIndex
      match nodeIncomingData with
      | some (data, runIndex) => .ok (incoming.1 ++ [.value data], incoming.2 ++ [source runIndex])
      | none => .ok (incoming.1, incoming.2 ++ [source 0])
    else .error .assertion

/-- The stack entry of a complete group. -/
def stackEntry (runData : IRunData) (pinData : IPinData) (startNode : INode)
    (sourceData : SourceConnectionGroup) : Except GraphError IExecuteData := do
  let (incomingData, incomingSourceData) ←
    sourceData.connections.foldlM (addIncoming runData pinData) ([], [])
  return { node := startNode, data := InsertionMap.empty.set .main incomingData,
           source := some (InsertionMap.empty.set .main incomingSourceData) }

/-- The stack entry of a start node without main parents. -/
def emptyEntry (startNode : INode) : IExecuteData where
  node := startNode
  data := InsertionMap.empty.set .main [.value [{}]]
  source := none

/-- One connection of an incomplete group: its data, if it has any, in the slot of its
input. -/
def addWaiting (runData : IRunData) (nodeName : String) (nextRunIndex : ℕ)
    (waiting : IWaitingForExecution × IWaitingForExecutionSource)
    (incomingConnection : GraphConnection) :
    Except GraphError (IWaitingForExecution × IWaitingForExecutionSource) := do
  let maybeNodeIncomingData ← getIncomingDataFromAnyRun runData
    incomingConnection.fromNode.name incomingConnection.type incomingConnection.outputIndex
  match maybeNodeIncomingData with
  | none => return waiting
  | some (nodeIncomingData, _) =>
    let sourceData : ISourceData :=
      { previousNode := incomingConnection.fromNode.name
        previousNodeRun := some nextRunIndex
        previousNodeOutput := some incomingConnection.outputIndex }
    return (addWaitingExecution waiting.1 nodeName nextRunIndex incomingConnection.type
        incomingConnection.inputIndex (some nodeIncomingData),
      addWaitingExecutionSource waiting.2 nodeName nextRunIndex incomingConnection.type
        incomingConnection.inputIndex (some sourceData))

/-- The number of entries of a node in the waiting area. -/
def nextRunIndex (waitingExecution : IWaitingForExecution) (nodeName : String) : ℕ :=
  match waitingExecution.get? nodeName with
  | none => 0
  | some entries => entries.keys.length

def addGroup (runData : IRunData) (pinData : IPinData) (startNode : INode)
    (r : RecreatedStack) (sourceData : SourceConnectionGroup) :
    Except GraphError RecreatedStack :=
  if sourceData.complete then do
    let executeData ← stackEntry runData pinData startNode sourceData
    return { r with nodeExecutionStack := r.nodeExecutionStack ++ [executeData] }
  else do
    let (waitingExecution, waitingExecutionSource) ←
      sourceData.connections.foldlM (addWaiting runData startNode.name
        (nextRunIndex r.waitingExecution startNode.name))
        (r.waitingExecution, r.waitingExecutionSource)
    return { r with waitingExecution, waitingExecutionSource }

variable (localeCompare : String → String → ℤ)

def addStartNode (graph : DirectedGraph) (runData : IRunData) (pinData : IPinData)
    (r : RecreatedStack) (startNode : INode) : Except GraphError RecreatedStack := do
  let parentConnections ← graph.getDirectParentConnections startNode
  let incomingStartNodeConnections := parentConnections.filter fun c => c.type = .main
  if incomingStartNodeConnections.length = 0 then
    return { r with nodeExecutionStack := r.nodeExecutionStack ++ [emptyEntry startNode] }
  else
    let sourceDataSets ← getSourceDataGroups localeCompare graph startNode runData pinData
    sourceDataSets.foldlM (addGroup runData pinData startNode) r

def recreateNodeExecutionStack (graph : DirectedGraph) (startNodes : InsertionSet INode)
    (runData : IRunData) (pinData : IPinData) : Except GraphError RecreatedStack :=
  if graph.getNodes.any INode.isDisabled then .error .assertion
  else startNodes.elements.foldlM (addStartNode localeCompare graph runData pinData) {}

/-! ### Alignment -/

/-- The data that a connection delivers from run `r` of its source: the pinned data of the
source, or else the output of that run. -/
def DataOf (runData : IRunData) (pinData : IPinData) (c : GraphConnection) (r : ℕ)
    (items : List INodeExecutionData) : Prop :=
  match pinData.get? c.fromNode.name with
  | some pinned => items = pinned
  | none => ∃ run, (runData.runs c.fromNode.name)[r]? = some run ∧
      run.output .main c.outputIndex = some items

/-- The source record of a connection and a run. -/
def sourceOf (c : GraphConnection) (r : ℕ) : ISourceData :=
  { previousNode := c.fromNode.name, previousNodeOutput := some c.outputIndex,
    previousNodeRun := some r }

/-- The data and the sources of an entry correspond: both arrays have the same length, and
the data of input `i` came over a main connection into input `i`, which its source names. -/
structure Aligned (g : DirectedGraph) (runData : IRunData) (pinData : IPinData) (node : INode)
    (data : List (Slot (List INodeExecutionData))) (source : List (Slot ISourceData)) : Prop where
  length_eq : data.length = source.length
  input : ∀ (i : ℕ) (items : List INodeExecutionData), data[i]? = some (.value items) →
    ∃ c ∈ g.getConnections, (c.toNode = node ∧ c.type = .main ∧ c.inputIndex = i) ∧
      ∃ r, source[i]? = some (.value (sourceOf c r)) ∧ DataOf runData pinData c r items

/-- A group of main connections that starts at the first input and all of whose sources are
pinned or have data on the output. -/
structure FillsInputs (runData : IRunData) (pinData : IPinData)
    (group : SourceConnectionGroup) : Prop where
  main : ∀ c ∈ group.connections, c.type = .main
  first : ∀ c, group.connections.head? = some c → c.inputIndex = 0
  carries : ∀ c ∈ group.connections, pinData.has c.fromNode.name = true ∨
    HasRunData runData c.fromNode.name c.type c.outputIndex

variable {localeCompare} {g : DirectedGraph} {runData : IRunData} {pinData : IPinData}
  {node : INode} {group : SourceConnectionGroup}

/-- One iteration over a connection that carries data appends its data and its source. -/
private theorem addIncoming_eq_ok {incoming incoming' :
      List (Slot (List INodeExecutionData)) × List (Slot ISourceData)} {c : GraphConnection}
    (h : addIncoming runData pinData incoming c = .ok incoming') (hmain : c.type = .main)
    (hcarries : pinData.has c.fromNode.name = true ∨
      HasRunData runData c.fromNode.name c.type c.outputIndex) :
    ∃ r items, incoming' = (incoming.1 ++ [.value items], incoming.2 ++ [.value (sourceOf c r)]) ∧
      DataOf runData pinData c r items := by
  rw [addIncoming] at h
  rcases hpin : pinData.get? c.fromNode.name with _ | pinned
  · have hrun : HasRunData runData c.fromNode.name c.type c.outputIndex := by
      refine hcarries.resolve_left fun hhas => ?_
      rw [InsertionMap.has, hpin] at hhas
      cases hhas
    simp only [hpin] at h
    split at h
    next =>
      rcases hdata : getIncomingDataFromAnyRun runData c.fromNode.name c.type c.outputIndex
        with e | _ | ⟨data, runIndex⟩
      · simp only [hdata, bind, Except.bind] at h
        cases h
      · exact absurd hrun (not_hasRunData_of_getIncomingDataFromAnyRun hdata)
      · simp only [hdata, bind, Except.bind] at h
        obtain ⟨run, hget, hout, -⟩ := output_of_getIncomingDataFromAnyRun hdata
        refine ⟨runIndex, data, (Except.ok.inj h).symm, ?_⟩
        simp only [DataOf, hpin]
        exact ⟨run, hget, hmain ▸ hout⟩
    next => cases h
  · simp only [hpin] at h
    refine ⟨0, pinned, (Except.ok.inj h).symm, ?_⟩
    simp only [DataOf, hpin]

/-- **Run lemma of a complete group**: when all connections carry data, the arrays have an
element for each of them, at its position in the group. -/
private theorem foldlM_addIncoming {l : List GraphConnection}
    {incoming : List (Slot (List INodeExecutionData)) × List (Slot ISourceData)}
    (h : l.foldlM (addIncoming runData pinData) ([], []) = .ok incoming)
    (hmain : ∀ c ∈ l, c.type = .main)
    (hcarries : ∀ c ∈ l, pinData.has c.fromNode.name = true ∨
      HasRunData runData c.fromNode.name c.type c.outputIndex) :
    (incoming.1.length = l.length ∧ incoming.2.length = l.length) ∧
      ∀ (i : ℕ) c, l[i]? = some c → ∃ r items, incoming.1[i]? = some (.value items) ∧
        incoming.2[i]? = some (.value (sourceOf c r)) ∧ DataOf runData pinData c r items := by
  induction l using List.reverseRecOn generalizing incoming with
  | nil =>
    obtain rfl := Except.ok.inj h
    simp
  | append_singleton l c ih =>
    obtain ⟨incoming₀, h₀, hc⟩ := ExceptFold.foldlM_concat_eq_ok_iff.mp h
    obtain ⟨⟨hdata, hsource⟩, hall⟩ := ih h₀ (fun c hc => hmain c (List.mem_append_left _ hc))
      (fun c hc => hcarries c (List.mem_append_left _ hc))
    obtain ⟨r, items, rfl, hof⟩ := addIncoming_eq_ok hc (hmain c (by simp)) (hcarries c (by simp))
    refine ⟨by simp [hdata, hsource], fun i c' hc' => ?_⟩
    rcases Nat.lt_or_ge i l.length with hi | hi
    · rw [List.getElem?_append_left hi] at hc'
      obtain ⟨r', items', hd, hs, hof'⟩ := hall i c' hc'
      refine ⟨r', items', ?_, ?_, hof'⟩
      · rw [List.getElem?_append_left (hdata ▸ hi), hd]
      · rw [List.getElem?_append_left (hsource ▸ hi), hs]
    · rw [List.getElem?_append_right hi, List.getElem?_singleton] at hc'
      split at hc'
      next hzero =>
        cases hc'
        refine ⟨r, items, ?_, ?_, hof⟩
        · rw [List.getElem?_append_right (hdata ▸ hi), hdata, hzero]
          rfl
        · rw [List.getElem?_append_right (hsource ▸ hi), hsource, hzero]
          rfl
      next => cases hc'

/-- The main data and sources of a stack entry correspond. -/
def AlignedEntry (g : DirectedGraph) (runData : IRunData) (pinData : IPinData)
    (e : IExecuteData) : Prop :=
  ∃ data sources source, e.data.get? .main = some data ∧ e.source = some sources ∧
    sources.get? .main = some source ∧ Aligned g runData pinData e.node data source

private theorem alignedEntry_stackEntry {e : IExecuteData}
    (hgroup : IsGroup g node runData pinData group)
    (h : stackEntry runData pinData node group = .ok e) :
    e.node = node ∧ (FillsInputs runData pinData group → AlignedEntry g runData pinData e) := by
  rw [stackEntry] at h
  rcases hfold : group.connections.foldlM (addIncoming runData pinData) ([], []) with err | incoming
  · rw [hfold] at h
    cases h
  · rw [hfold] at h
    obtain rfl := Except.ok.inj h
    refine ⟨rfl, fun hfills => ⟨incoming.1, _, incoming.2, InsertionMap.get?_set_self _ _ _, rfl,
      InsertionMap.get?_set_self _ _ _, ?_⟩⟩
    obtain ⟨⟨hdata, hsource⟩, hall⟩ := foldlM_addIncoming hfold hfills.main hfills.carries
    obtain ⟨first, hconsecutive⟩ := hgroup.consecutive
    refine ⟨hdata.trans hsource.symm, fun i items hitems => ?_⟩
    have hi : i < group.connections.length := by
      rw [← hdata]
      exact (List.getElem?_eq_some_iff.mp hitems).1
    have hget := List.getElem?_eq_getElem hi
    obtain ⟨r, items', hd, hs, hof⟩ := hall i _ hget
    rw [hd, Option.some.injEq, Slot.value.injEq] at hitems
    -- the first connection is at input 0, and the others follow one by one
    have hfirst : first = 0 := by
      have hpos : 0 < group.connections.length := Nat.zero_lt_of_lt hi
      have hzero := hconsecutive 0 _ (List.getElem?_eq_getElem hpos)
      have hhead := hfills.first _ (by rw [List.head?_eq_getElem?, List.getElem?_eq_getElem hpos])
      rw [hhead] at hzero
      simpa using hzero.symm
    have hindex : group.connections[i].inputIndex = i := by
      have := hconsecutive i _ hget
      omega
    obtain ⟨hc, hto⟩ := hgroup.mem _ (List.getElem_mem hi)
    exact ⟨_, hc, ⟨hto, hfills.main _ (List.getElem_mem hi), hindex⟩, r, hs, hitems ▸ hof⟩

/-! ### The waiting entries -/

/-- The slots of one connection type of a waiting entry: as many data as sources, and the data
of a slot came over a connection of that type into that input. -/
structure WaitingAligned (g : DirectedGraph) (runData : IRunData) (nodeName : String)
    (runIndex : ℕ) (type : NodeConnectionType) (data : List (Slot (List INodeExecutionData)))
    (source : List (Slot ISourceData)) : Prop where
  length_eq : data.length = source.length
  slot : ∀ i, SparseArray.getAt .hole data i = .hole ∨
    ∃ c ∈ g.getConnections, (c.toNode.name = nodeName ∧ c.type = type ∧ c.inputIndex = i) ∧
      SparseArray.getAt .hole source i = .value (sourceOf c runIndex) ∧
      ∃ (r₀ : ℕ) (run : ITaskData) (items : List INodeExecutionData),
        (runData.runs c.fromNode.name)[r₀]? = some run ∧
        run.output type c.outputIndex = some items ∧ items ≠ [] ∧
        SparseArray.getAt .hole data i = .value items
  bound : ∀ i < data.length, ∃ c ∈ g.getConnections,
    (c.toNode.name = nodeName ∧ c.type = type) ∧ i ≤ c.inputIndex

/-- Data and sources of the waiting area correspond. -/
def WaitingPaired (g : DirectedGraph) (runData : IRunData)
    (waiting : IWaitingForExecution × IWaitingForExecutionSource) : Prop :=
  ∀ nodeName runIndex type,
    (waiting.1.slots nodeName runIndex type = none ∧
      waiting.2.slots nodeName runIndex type = none) ∨
    ∃ data source, waiting.1.slots nodeName runIndex type = some data ∧
      waiting.2.slots nodeName runIndex type = some source ∧
      WaitingAligned g runData nodeName runIndex type data source

theorem waitingPaired_empty : WaitingPaired g runData (.empty, .empty) := fun _ _ _ =>
  Or.inl ⟨rfl, rfl⟩

private theorem waitingAligned_nil {nodeName : String} {runIndex : ℕ}
    {type : NodeConnectionType} : WaitingAligned g runData nodeName runIndex type [] [] where
  length_eq := rfl
  slot := fun _ => Or.inl (SparseArray.getAt_nil _)
  bound := by simp

/-- Assigning the data and the source of a connection to its slot. -/
private theorem WaitingAligned.setSlot {nodeName : String} {runIndex r₀ : ℕ}
    {data : List (Slot (List INodeExecutionData))} {source : List (Slot ISourceData)}
    {c : GraphConnection} {run : ITaskData} {items : List INodeExecutionData}
    (h : WaitingAligned g runData nodeName runIndex c.type data source)
    (hc : c ∈ g.getConnections) (hto : c.toNode.name = nodeName)
    (hrun : (runData.runs c.fromNode.name)[r₀]? = some run)
    (hout : run.output c.type c.outputIndex = some items) (hne : items ≠ []) :
    WaitingAligned g runData nodeName runIndex c.type
      (N8n.setSlot data c.inputIndex (.value items))
      (N8n.setSlot source c.inputIndex (.value (sourceOf c runIndex))) := by
  refine ⟨?_, fun i => ?_, fun i hi => ?_⟩
  · rw [N8n.setSlot, N8n.setSlot]
    split
    next => exact h.length_eq
    next => rw [SparseArray.length_setAt, SparseArray.length_setAt, h.length_eq]
  · rw [getAt_setSlot, getAt_setSlot]
    by_cases hi : (i : ℤ) = c.inputIndex
    · rw [if_pos hi, if_pos hi]
      exact Or.inr ⟨c, hc, ⟨hto, rfl, hi.symm⟩, rfl, r₀, run, items, hrun, hout, hne, rfl⟩
    · rw [if_neg hi, if_neg hi]
      exact h.slot i
  · rcases Nat.lt_or_ge i data.length with hlt | hge
    · exact h.bound i hlt
    · rw [N8n.setSlot] at hi
      split at hi
      next => exact absurd hi (Nat.not_lt.mpr hge)
      next =>
        rw [SparseArray.length_setAt] at hi
        exact ⟨c, hc, ⟨hto, rfl⟩, by omega⟩

/-- **Step lemma of the waiting area.** -/
private theorem waitingPaired_addWaiting {nodeName : String} {runIndex : ℕ}
    {waiting waiting' : IWaitingForExecution × IWaitingForExecutionSource} {c : GraphConnection}
    (h : WaitingPaired g runData waiting) (hc : c ∈ g.getConnections)
    (hto : c.toNode.name = nodeName)
    (hadd : addWaiting runData nodeName runIndex waiting c = .ok waiting') :
    WaitingPaired g runData waiting' := by
  rw [addWaiting] at hadd
  rcases hdata : getIncomingDataFromAnyRun runData c.fromNode.name c.type c.outputIndex
    with e | _ | ⟨items, r₀⟩
  · rw [hdata] at hadd
    cases hadd
  · rw [hdata] at hadd
    exact Except.ok.inj hadd ▸ h
  · rw [hdata] at hadd
    obtain rfl := Except.ok.inj hadd
    obtain ⟨run, hrun, hout, hne⟩ := output_of_getIncomingDataFromAnyRun hdata
    intro nodeName' runIndex' type'
    simp only [addWaitingExecution, addWaitingExecutionSource, WaitingSlots.slots_assign]
    by_cases hsame : nodeName' = nodeName ∧ runIndex' = runIndex ∧ type' = c.type
    · obtain ⟨rfl, rfl, rfl⟩ := hsame
      simp only [and_self, if_true]
      refine Or.inr ⟨_, _, rfl, rfl, ?_⟩
      rcases h nodeName' runIndex' c.type with ⟨hd, hs⟩ | ⟨data, source, hd, hs, hal⟩
      · rw [hd, hs]
        exact waitingAligned_nil.setSlot hc hto hrun hout hne
      · rw [hd, hs]
        exact hal.setSlot hc hto hrun hout hne
    · rw [if_neg hsame, if_neg hsame]
      exact h nodeName' runIndex' type'

/-- All the connections of an incomplete group. -/
private theorem waitingPaired_foldlM {nodeName : String} {runIndex : ℕ} {l : List GraphConnection}
    {waiting waiting' : IWaitingForExecution × IWaitingForExecutionSource}
    (h : WaitingPaired g runData waiting)
    (hl : ∀ c ∈ l, c ∈ g.getConnections ∧ c.toNode.name = nodeName)
    (hfold : l.foldlM (addWaiting runData nodeName runIndex) waiting = .ok waiting') :
    WaitingPaired g runData waiting' := by
  have hstep : ∀ w, ∀ c ∈ l, ∀ w', WaitingPaired g runData w →
      addWaiting runData nodeName runIndex w c = .ok w' → WaitingPaired g runData w' :=
    fun w c hc w' hw hadd => waitingPaired_addWaiting hw (hl c hc).1 (hl c hc).2 hadd
  exact ExceptFold.foldlM_induct hstep h hfold

/-! ### The whole run -/

/-- What the entries of the stack are: the empty entry of a node without main parents, or that
of a complete group, aligned when the group fills the inputs. -/
def StackEntryOf (localeCompare : String → String → ℤ) (g : DirectedGraph) (runData : IRunData)
    (pinData : IPinData) (e : IExecuteData) : Prop :=
  (e = emptyEntry e.node ∧ ∀ c ∈ g.getConnections, c.toNode = e.node → c.type ≠ .main) ∨
    ∃ groups, getSourceDataGroups localeCompare g e.node runData pinData = .ok groups ∧
      ∃ group ∈ groups, group.complete = true ∧ stackEntry runData pinData e.node group = .ok e ∧
        (FillsInputs runData pinData group → AlignedEntry g runData pinData e)

/-- What `recreateNodeExecutionStack` has made so far. -/
structure RecreatedStack.Invariant (localeCompare : String → String → ℤ) (g : DirectedGraph)
    (startNodes : InsertionSet INode) (runData : IRunData) (pinData : IPinData)
    (r : RecreatedStack) : Prop where
  stack : ∀ e ∈ r.nodeExecutionStack, e.node ∈ startNodes.elements ∧
    StackEntryOf localeCompare g runData pinData e
  waiting : WaitingPaired g runData (r.waitingExecution, r.waitingExecutionSource)

variable {startNodes : InsertionSet INode} {r r' : RecreatedStack}

/-- **Step lemma of a group.** -/
private theorem RecreatedStack.Invariant.addGroup {groups : List SourceConnectionGroup}
    (h : r.Invariant localeCompare g startNodes runData pinData)
    (hnode : node ∈ startNodes.elements)
    (hgroups : getSourceDataGroups localeCompare g node runData pinData = .ok groups)
    (hmem : group ∈ groups) (hgroup : IsGroup g node runData pinData group)
    (hadd : addGroup runData pinData node r group = .ok r') :
    r'.Invariant localeCompare g startNodes runData pinData := by
  rw [DirectedGraph.addGroup] at hadd
  split at hadd
  next hcomplete =>
    rcases hentry : stackEntry runData pinData node group with e | e
    · rw [hentry] at hadd
      cases hadd
    · rw [hentry] at hadd
      obtain rfl := Except.ok.inj hadd
      obtain ⟨rfl, haligned⟩ := alignedEntry_stackEntry hgroup hentry
      refine ⟨fun e' he' => ?_, h.waiting⟩
      rcases List.mem_append.mp he' with he' | he'
      · exact h.stack e' he'
      · obtain rfl := List.mem_singleton.mp he'
        exact ⟨hnode, Or.inr ⟨groups, hgroups, group, hmem, hcomplete, hentry, haligned⟩⟩
  next =>
    rcases hfold : group.connections.foldlM (addWaiting runData node.name
      (nextRunIndex r.waitingExecution node.name)) (r.waitingExecution, r.waitingExecutionSource)
      with e | waiting
    · rw [hfold] at hadd
      cases hadd
    · rw [hfold] at hadd
      obtain rfl := Except.ok.inj hadd
      exact ⟨h.stack, waitingPaired_foldlM h.waiting
        (fun c hc => ⟨(hgroup.mem c hc).1, congrArg INode.name (hgroup.mem c hc).2⟩) hfold⟩

/-- **Step lemma of a start node.** -/
private theorem RecreatedStack.Invariant.addStartNode
    (h : r.Invariant localeCompare g startNodes runData pinData)
    (hnode : node ∈ startNodes.elements)
    (hadd : addStartNode localeCompare g runData pinData r node = .ok r') :
    r'.Invariant localeCompare g startNodes runData pinData := by
  rw [DirectedGraph.addStartNode, getDirectParentConnections] at hadd
  split at hadd
  next =>
    simp only [bind, Except.bind] at hadd
    split at hadd
    next hnone =>
      obtain rfl := Except.ok.inj hadd
      refine ⟨fun e he => ?_, h.waiting⟩
      rcases List.mem_append.mp he with he | he
      · exact h.stack e he
      · obtain rfl := List.mem_singleton.mp he
        refine ⟨hnode, Or.inl ⟨rfl, fun c hc hto hmain => ?_⟩⟩
        have hfilter : c ∈ (g.parentConnections node).filter fun c => c.type = .main :=
          List.mem_filter.mpr ⟨mem_parentConnections.mpr ⟨hc, hto⟩, decide_eq_true hmain⟩
        rw [List.length_eq_zero_iff.mp hnone] at hfilter
        exact List.not_mem_nil hfilter
    next =>
      obtain ⟨groups, hgroups, hall⟩ :=
        exists_getSourceDataGroups_eq_ok localeCompare g node runData pinData
      rw [hgroups] at hadd
      have hstep : ∀ s, ∀ group ∈ groups, ∀ s',
          RecreatedStack.Invariant localeCompare g startNodes runData pinData s →
          DirectedGraph.addGroup runData pinData node s group = .ok s' →
          RecreatedStack.Invariant localeCompare g startNodes runData pinData s' :=
        fun s group hmem s' hs hs' => hs.addGroup hnode hgroups hmem (hall group hmem) hs'
      exact ExceptFold.foldlM_induct hstep h hadd
  next => cases hadd

/-- **Run lemma of the planner.** -/
private theorem invariant_recreateNodeExecutionStack
    (h : recreateNodeExecutionStack localeCompare g startNodes runData pinData = .ok r) :
    r.Invariant localeCompare g startNodes runData pinData := by
  rw [recreateNodeExecutionStack] at h
  split at h
  next => cases h
  next =>
    have hstep : ∀ s, ∀ node ∈ startNodes.elements, ∀ s',
        RecreatedStack.Invariant localeCompare g startNodes runData pinData s →
        DirectedGraph.addStartNode localeCompare g runData pinData s node = .ok s' →
        RecreatedStack.Invariant localeCompare g startNodes runData pinData s' :=
      fun s node hnode s' hs hs' => hs.addStartNode hnode hs'
    exact ExceptFold.foldlM_induct hstep ⟨by simp, waitingPaired_empty⟩ h

/-- The data and the sources of the waiting area correspond. -/
theorem waitingPaired_recreateNodeExecutionStack
    (h : recreateNodeExecutionStack localeCompare g startNodes runData pinData = .ok r) :
    WaitingPaired g runData (r.waitingExecution, r.waitingExecutionSource) :=
  (invariant_recreateNodeExecutionStack h).waiting

/-! ### The planner returns -/

/-- What the planner expects: no disabled nodes, start nodes of the graph, and runs that have
data under the type of each connection that starts in their node. -/
structure Recreatable (g : DirectedGraph) (startNodes : InsertionSet INode) (runData : IRunData) :
    Prop where
  enabled : ∀ n ∈ g.getNodes, n.isDisabled = false
  startNodes_mem : ∀ n ∈ startNodes.elements, n ∈ g.getNodes
  hasType : ∀ c ∈ g.getConnections, ∀ run ∈ runData.runs c.fromNode.name, run.HasType c.type

private theorem exists_addIncoming_eq_ok {c : GraphConnection}
    (hname : c.fromNode.name ∉ InsertionMap.inheritedKeys)
    (htype : ∀ run ∈ runData.runs c.fromNode.name, run.HasType c.type)
    (hdata : hasData runData pinData c = true)
    (incoming : List (Slot (List INodeExecutionData)) × List (Slot ISourceData)) :
    ∃ incoming', addIncoming runData pinData incoming c = .ok incoming' := by
  rw [addIncoming]
  rcases hpin : pinData.get? c.fromNode.name with _ | pinned
  · have hrun : runData.has c.fromNode.name = true := by
      rw [hasData, Bool.or_eq_true, decide_eq_true_eq, or_iff_left hname, Bool.or_eq_true] at hdata
      refine hdata.resolve_right fun hhas => ?_
      rw [InsertionMap.has, hpin] at hhas
      cases hhas
    obtain ⟨o, ho⟩ := exists_getIncomingDataFromAnyRun_eq_ok htype c.outputIndex
    simp only [hrun, if_true, ho]
    rcases o with _ | ⟨data, runIndex⟩
    · exact ⟨_, rfl⟩
    · exact ⟨_, rfl⟩
  · exact ⟨_, rfl⟩

private theorem exists_addWaiting_eq_ok {c : GraphConnection} {nodeName : String} {runIndex : ℕ}
    (htype : ∀ run ∈ runData.runs c.fromNode.name, run.HasType c.type)
    (waiting : IWaitingForExecution × IWaitingForExecutionSource) :
    ∃ waiting', addWaiting runData nodeName runIndex waiting c = .ok waiting' := by
  obtain ⟨o, ho⟩ := exists_getIncomingDataFromAnyRun_eq_ok htype c.outputIndex
  rw [addWaiting, ho]
  rcases o with _ | ⟨data, r₀⟩
  · exact ⟨_, rfl⟩
  · exact ⟨_, rfl⟩

private theorem exists_addGroup_eq_ok (hnames : g.PlainNames)
    (hgroup : IsGroup g node runData pinData group)
    (htype : ∀ c ∈ g.getConnections, ∀ run ∈ runData.runs c.fromNode.name, run.HasType c.type)
    (r : RecreatedStack) : ∃ r', addGroup runData pinData node r group = .ok r' := by
  rw [addGroup]
  split
  next hcomplete =>
    obtain ⟨incoming, hfold, -⟩ := ExceptFold.foldlM_exists_ok (P := fun _ => True)
      (fun incoming c hc _ => by
        obtain ⟨incoming', h⟩ := exists_addIncoming_eq_ok
          (hnames.source c (hgroup.mem c hc).1) (htype c (hgroup.mem c hc).1)
          (hgroup.complete hcomplete c hc) incoming
        exact ⟨incoming', h, trivial⟩)
      (trivial : (fun _ => True) (([], []) :
        List (Slot (List INodeExecutionData)) × List (Slot ISourceData)))
    rw [stackEntry, hfold]
    exact ⟨_, rfl⟩
  next =>
    obtain ⟨waiting, hfold, -⟩ := ExceptFold.foldlM_exists_ok (P := fun _ => True)
      (f := addWaiting runData node.name (nextRunIndex r.waitingExecution node.name))
      (l := group.connections) (b := (r.waitingExecution, r.waitingExecutionSource))
      (fun waiting c hc _ => by
        obtain ⟨waiting', h⟩ := exists_addWaiting_eq_ok (htype c (hgroup.mem c hc).1) waiting
        exact ⟨waiting', h, trivial⟩) trivial
    rw [hfold]
    exact ⟨_, rfl⟩

private theorem exists_addStartNode_eq_ok (localeCompare : String → String → ℤ)
    (pinData : IPinData) (hnames : g.PlainNames) (hg : Recreatable g startNodes runData)
    (hnode : node ∈ startNodes.elements) (r : RecreatedStack) :
    ∃ r', addStartNode localeCompare g runData pinData r node = .ok r' := by
  rw [addStartNode, getDirectParentConnections_of_mem (hg.startNodes_mem node hnode)]
  simp only [bind, Except.bind]
  split
  next => exact ⟨_, rfl⟩
  next =>
    obtain ⟨groups, hgroups, hall⟩ :=
      exists_getSourceDataGroups_eq_ok localeCompare g node runData pinData
    rw [hgroups]
    obtain ⟨r', hfold, -⟩ := ExceptFold.foldlM_exists_ok (P := fun _ => True)
      (f := addGroup runData pinData node) (l := groups) (b := r) (fun s group hmem _ => by
        obtain ⟨s', h⟩ := exists_addGroup_eq_ok hnames (hall group hmem) hg.hasType s
        exact ⟨s', h, trivial⟩) trivial
    exact ⟨r', hfold⟩

/-- The planner returns for the graphs it is made for. -/
theorem exists_recreateNodeExecutionStack_eq_ok (hnames : g.PlainNames)
    (hg : Recreatable g startNodes runData) :
    ∃ r, recreateNodeExecutionStack localeCompare g startNodes runData pinData = .ok r := by
  rw [recreateNodeExecutionStack, if_neg]
  · obtain ⟨r, hfold, -⟩ := ExceptFold.foldlM_exists_ok (P := fun _ => True)
      (f := addStartNode localeCompare g runData pinData) (l := startNodes.elements)
      (b := ({} : RecreatedStack)) (fun s node hnode _ => by
        obtain ⟨s', h⟩ := exists_addStartNode_eq_ok localeCompare pinData hnames hg hnode s
        exact ⟨s', h, trivial⟩) trivial
    exact ⟨r, hfold⟩
  · rw [List.any_eq_true]
    rintro ⟨n, hn, hdis⟩
    rw [hg.enabled n hn] at hdis
    cases hdis

/-! ### Alignment of what the planner makes -/

/-- The main slots of the waiting area: as many data as sources, and the data of input `i` came
over a main connection into input `i`, which its source names. Unless its node is pinned, the
data is the output of a run of that node. -/
def AlignedWaiting (g : DirectedGraph) (runData : IRunData) (pinData : IPinData)
    (r : RecreatedStack) : Prop :=
  ∀ nodeName runIndex,
    (r.waitingExecution.slots nodeName runIndex .main = none ∧
      r.waitingExecutionSource.slots nodeName runIndex .main = none) ∨
    ∃ data source, r.waitingExecution.slots nodeName runIndex .main = some data ∧
      r.waitingExecutionSource.slots nodeName runIndex .main = some source ∧
      data.length = source.length ∧
      ∀ (i : ℕ) (items : List INodeExecutionData), data[i]? = some (.value items) →
        ∃ c ∈ g.getConnections, (c.toNode.name = nodeName ∧ c.type = .main ∧ c.inputIndex = i) ∧
          ∃ r, source[i]? = some (.value (sourceOf c r)) ∧
            (pinData.has c.fromNode.name = false → ∃ (r₀ : ℕ) (run : ITaskData),
              (runData.runs c.fromNode.name)[r₀]? = some run ∧
              run.output .main c.outputIndex = some items ∧ (r₀ = runIndex → r = r₀))

private theorem alignedWaiting_of_waitingPaired
    (h : WaitingPaired g runData (r.waitingExecution, r.waitingExecutionSource)) :
    AlignedWaiting g runData pinData r := by
  intro nodeName runIndex
  rcases h nodeName runIndex .main with hnone | ⟨data, source, hdata, hsource, hal⟩
  · exact Or.inl hnone
  · refine Or.inr ⟨data, source, hdata, hsource, hal.length_eq, fun i items hi => ?_⟩
    rw [← Slot.getAt_eq_value_iff] at hi
    rcases hal.slot i with hhole | ⟨c, hc, hinto, hsrc, r₀, run, items', hrun, hout, -, hitems⟩
    · rw [hhole] at hi
      cases hi
    · rw [hitems, Slot.value.injEq] at hi
      subst hi
      exact ⟨c, hc, hinto, runIndex, Slot.getAt_eq_value_iff.mp hsrc,
        fun _ => ⟨r₀, run, hrun, hout, fun h => h.symm⟩⟩

/-- **Alignment of the planner.** It returns for the graphs it is made for. Every entry of the
stack is the empty entry of a start node without main parents, or belongs to a complete group,
and is aligned when the group fills the inputs; the waiting area is aligned. -/
theorem recreateNodeExecutionStack_aligned (localeCompare : String → String → ℤ)
    (g : DirectedGraph) (hnames : g.PlainNames) (startNodes : InsertionSet INode)
    (runData : IRunData) (pinData : IPinData) :
    (Recreatable g startNodes runData →
      ∃ r, recreateNodeExecutionStack localeCompare g startNodes runData pinData = .ok r) ∧
    ∀ r, recreateNodeExecutionStack localeCompare g startNodes runData pinData = .ok r →
      (∀ e ∈ r.nodeExecutionStack, e.node ∈ startNodes.elements ∧
        StackEntryOf localeCompare g runData pinData e) ∧
      AlignedWaiting g runData pinData r := by
  refine ⟨exists_recreateNodeExecutionStack_eq_ok hnames, fun r hr => ⟨?_, ?_⟩⟩
  · exact (invariant_recreateNodeExecutionStack hr).stack
  · exact alignedWaiting_of_waitingPaired (waitingPaired_recreateNodeExecutionStack hr)

def source1 : INode := { name := "source1" }

def source2 : INode := { name := "source2" }

def target : INode := { name := "node" }

/-- Two sources on the first two inputs of a node. -/
def pairGraph : DirectedGraph :=
  ((empty.addNodes [source1, source2, target]).setConnection
    { fromNode := source1, toNode := target }).setConnection
    { fromNode := source2, toNode := target, inputIndex := 1 }

/-- A source on the second input of a node, and a tool of the node. -/
def toolGraph : DirectedGraph :=
  ((empty.addNodes [source1, source2, target]).setConnection
    { fromNode := source1, toNode := target, inputIndex := 1 }).setConnection
    { fromNode := source2, toNode := target, type := .aiTool, inputIndex := 1 }

/-- A run with items on its first output. -/
def runWith (items : List INodeExecutionData) : ITaskData :=
  { data := some (InsertionMap.empty.set .main [.value items]) }

/-- The first source ran without output, the second with an item. -/
def emptyOutputRunData : IRunData :=
  (InsertionMap.empty.set "source1" [runWith []]).set "source2" [runWith [{}]]

/-- The first source ran twice and put out an item the second time; the second did not run. -/
def secondRunData : IRunData := InsertionMap.empty.set "source1" [runWith [], runWith [{}]]

/-- The source ran, and the tool did. -/
def toolRunData : IRunData :=
  (InsertionMap.empty.set "source1" [runWith [{}]]).set "source2"
    [{ data := some (InsertionMap.empty.set .aiTool [.value [{}]]) }]

/-- Both sources ran and put out an item. -/
def bothRunData : IRunData :=
  (InsertionMap.empty.set "source1" [runWith [{}]]).set "source2" [runWith [{}]]

/-- The order of code units, as names of ASCII letters compare. -/
def compareNames (a b : String) : ℤ := if a < b then -1 else if a = b then 0 else 1

/-- Both sources ran, and the node is on the stack. -/
theorem recreateNodeExecutionStack_pairGraph :
    ∃ r, recreateNodeExecutionStack compareNames pairGraph (InsertionSet.empty.add target)
        bothRunData .empty = .ok r ∧ r.nodeExecutionStack.length = 1 ∧
      (∀ e ∈ r.nodeExecutionStack, e.node ∈ (InsertionSet.empty.add target).elements ∧
        StackEntryOf compareNames pairGraph bothRunData .empty e) ∧
      AlignedWaiting pairGraph bothRunData .empty r := by
  have hplanner := recreateNodeExecutionStack_aligned compareNames pairGraph
    ⟨by decide, by decide⟩ (InsertionSet.empty.add target) bothRunData .empty
  exact ⟨_, rfl, rfl, hplanner.2 _ rfl⟩

/-- The main data and sources of all entries correspond. -/
structure EntriesAligned (g : DirectedGraph) (runData : IRunData) (pinData : IPinData)
    (r : RecreatedStack) : Prop where
  stack : ∀ e ∈ r.nodeExecutionStack, AlignedEntry g runData pinData e
  waiting : ∀ node ∈ g.getNodes, ∀ runIndex data source,
    r.waitingExecution.slots node.name runIndex .main = some data →
    r.waitingExecutionSource.slots node.name runIndex .main = some source →
    Aligned g runData pinData node data source

/-- No main connection leads into the first input. -/
private theorem not_alignedEntry_toolGraph {e : IExecuteData} {items : List INodeExecutionData}
    (he : e.data.get? .main = some [.value items]) :
    ¬AlignedEntry toolGraph toolRunData .empty e := by
  rintro ⟨data, sources, source, hdata, -, -, hal⟩
  obtain rfl := Option.some.inj (he.symm.trans hdata)
  obtain ⟨c, hc, ⟨-, hmain, hinput⟩, -⟩ := hal.input 0 items rfl
  exact absurd hinput ((by decide : ∀ c ∈ toolGraph.getConnections, c.type = .main →
    c.inputIndex ≠ 0) c hc hmain)

/-- A start node without parents has an item and no source. A source that ran without output
is named although it delivers nothing. Data of the second input, and that of a tool, is in the
place of the first. In the waiting area the run of the source is not the one whose data
waits. -/
theorem not_entriesAligned_pairGraph :
    (∃ r, recreateNodeExecutionStack compareNames pairGraph (InsertionSet.empty.add source1)
      .empty .empty = .ok r ∧ ¬EntriesAligned pairGraph .empty .empty r) ∧
    (∃ r, recreateNodeExecutionStack compareNames pairGraph (InsertionSet.empty.add target)
      emptyOutputRunData .empty = .ok r ∧ ¬EntriesAligned pairGraph emptyOutputRunData .empty r) ∧
    (∃ r, recreateNodeExecutionStack compareNames toolGraph (InsertionSet.empty.add target)
      toolRunData .empty = .ok r ∧ (∃ e, r.nodeExecutionStack[0]? = some e ∧
        ¬AlignedEntry toolGraph toolRunData .empty e) ∧
      ∃ e, r.nodeExecutionStack[1]? = some e ∧ ¬AlignedEntry toolGraph toolRunData .empty e) ∧
    (∃ r, recreateNodeExecutionStack compareNames pairGraph (InsertionSet.empty.add target)
      secondRunData .empty = .ok r ∧ ¬EntriesAligned pairGraph secondRunData .empty r) := by
  refine ⟨⟨_, rfl, fun h => ?_⟩, ⟨_, rfl, fun h => ?_⟩,
    ⟨_, rfl, ⟨_, rfl, fun h => ?_⟩, ⟨_, rfl, fun h => ?_⟩⟩, ⟨_, rfl, fun h => ?_⟩⟩
  · obtain ⟨-, _, -, -, hsource, -⟩ := h.stack _ List.mem_cons_self
    cases hsource
  · obtain ⟨data, sources, source, hdata, hsources, hsource, hal⟩ := h.stack _ List.mem_cons_self
    cases hdata
    cases hsources
    cases hsource
    exact absurd hal.length_eq (by decide)
  · exact not_alignedEntry_toolGraph (by rfl) h
  · exact not_alignedEntry_toolGraph (by rfl) h
  · obtain ⟨c, -, -, r, hsource, hof⟩ :=
      (h.waiting target (by decide) 0 _ _ rfl rfl).input 0 [{}] rfl
    have hsourceOf : sourceOf c r = ⟨"source1", some 0, some 0⟩ :=
      (Slot.value.inj (Option.some.inj hsource)).symm
    simp only [sourceOf, ISourceData.mk.injEq, Option.some.injEq] at hsourceOf
    obtain ⟨hname, hindex, rfl⟩ := hsourceOf
    rw [DataOf, hname, hindex] at hof
    obtain ⟨run, hrun, hout⟩ := hof
    cases hrun
    exact absurd hout (by decide)

end DirectedGraph

end N8n
