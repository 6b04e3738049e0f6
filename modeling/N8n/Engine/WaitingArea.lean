import N8n.Engine.AddNodeToBeExecuted
import N8n.Foundations.JoinBuffer
import N8n.Foundations.Transition

/-!
# The waiting area of a node

What the waiting area is for: the data that arrives at the inputs of a node is joined to
rows with data for every input, and nothing that arrived is lost. The abstract model is
`JoinBuffer`; `deliver_ofBuffer` says that the engine computes exactly that, data and
sources in two maps of the same shape.

The engine inherits the defect of the model: a new entry is kept under the number of
entries, and may overwrite one that still waits. `waitingArea_conserved_iff` says that this
is the only way to lose data.
-/

namespace N8n

namespace WorkflowExecute

open JoinBuffer Transition

/-! ### The waiting area as a buffer -/

/-- What a slot holds: the data of an input, and where it came from. -/
abbrev Cell := List INodeExecutionData × ISourceData

variable {n : ℕ}

/-- The data of a row. -/
def dataEntry (row : Row Cell n) : ITaskDataConnections :=
  InsertionMap.empty.set .main (row.slots.map fun cell => Slot.ofOption (cell.map Prod.fst))

/-- The sources of a row. -/
def sourceEntry (row : Row Cell n) : ITaskDataConnectionsSource :=
  InsertionMap.empty.set .main (row.slots.map fun cell => Slot.ofOption (cell.map Prod.snd))

/-- The waiting entries that represent a buffer. -/
def ofBuffer (b : Buffer Cell n) : NodeWaiting := ⟨b.map dataEntry, b.map sourceEntry⟩

variable {b : Buffer Cell n} {row : Row Cell n} {i k : ℕ}

@[simp] theorem ofBuffer_empty : ofBuffer (InsertionMap.empty : Buffer Cell n) = {} := rfl

private theorem isValue_getAt_map {α : Type} (f : Cell → α) (row : Row Cell n) (i : ℕ) :
    (SparseArray.getAt .hole (row.slots.map fun cell => Slot.ofOption (cell.map f)) i).isValue
      = (row.get i).isSome := by
  rw [SparseArray.getAt, Row.get, List.getD_eq_getElem?_getD, List.getD_eq_getElem?_getD,
    List.getElem?_map]
  rcases row.slots[i]? with _ | _ | cell <;> rfl

theorem findWaitingNodeIndex_ofBuffer (b : Buffer Cell n) (i : ℕ) :
    findWaitingNodeIndex (ofBuffer b).data i = .ok ((b.firstLacking i).map Prod.fst) := by
  rw [findWaitingNodeIndex, ofBuffer, InsertionMap.indexEntries_map, Buffer.firstLacking]
  induction b.indexEntries with
  | nil => rfl
  | cons e l ih =>
    rw [List.map_cons, List.findSomeM?_cons, ih, List.find?_cons]
    simp only [indexIfMissing, dataEntry, InsertionMap.get?_set_self, isValue_getAt_map]
    rcases e.2.get i with _ | cell <;> rfl

private theorem setMain_map {α : Type} (f : Cell → α) (hk : b.get? k = some row) (hi : i < n)
    (cell : Cell) :
    setMain (b.map fun row => InsertionMap.empty.set .main
        (row.slots.map fun cell => Slot.ofOption (cell.map f))) k i (.value (f cell))
      = some ((b.set k (row.put i cell)).map fun row => InsertionMap.empty.set .main
        (row.slots.map fun cell => Slot.ofOption (cell.map f))) := by
  have hlen : i < (row.slots.map fun cell => Slot.ofOption (cell.map f)).length := by
    rw [List.length_map, row.length_eq]
    exact hi
  simp only [setMain, InsertionMap.get?_map, hk, Option.map_some, Option.bind_some,
    InsertionMap.get?_set_self, InsertionMap.set_set, SparseArray.setAt_of_lt hlen,
    InsertionMap.map_set, Row.put, List.map_set]
  rfl

private theorem allDataFound_dataEntry (row : Row Cell n) :
    allDataFound (dataEntry row) = row.isFull := by
  rw [allDataFound, dataEntry, InsertionMap.get?_set_self, Option.getD_some, List.all_map,
    Row.isFull]
  refine List.all_congr rfl fun cell => ?_
  rcases cell with _ | cell <;> rfl

private theorem prepareWaitingToExecution_ofBuffer (b : Buffer Cell n) (k : ℕ) :
    prepareWaitingToExecution n k (ofBuffer b) = ofBuffer (b.set k (Row.empty Cell n)) := by
  have hdata : dataEntry (Row.empty Cell n) = emptyWaitingEntry _ n := by
    rw [dataEntry, Row.empty, List.map_replicate]
    rfl
  have hsource : sourceEntry (Row.empty Cell n) = emptyWaitingEntry _ n := by
    rw [sourceEntry, Row.empty, List.map_replicate]
    rfl
  simp only [prepareWaitingToExecution, ofBuffer, InsertionMap.map_set, hdata, hsource]

/-- What the engine makes of a delivery to a buffer. -/
def ofPut (r : Buffer Cell n × Option (Row Cell n)) (waitingNodeIndex : ℕ) :
    NodeWaiting × Except EngineError DeliveryOutcome :=
  (ofBuffer r.1,
    .ok (match r.2 with
      | some row => .complete (dataEntry row) (sourceEntry row)
      | none => .missing waitingNodeIndex))

/-- The slot is set, and the entry leaves when it is full. -/
private theorem fill_ofBuffer (hk : b.get? k = some row) (hi : i < n) (cell : Cell) :
    (ofBuffer b).fill k i (.value cell.1) (.value cell.2)
      = ofPut (if (row.put i cell).isFull then (b.erase k, some (row.put i cell))
          else (b.set k (row.put i cell), none)) k := by
  have hdata : setMain (ofBuffer b).data k i (.value cell.1)
      = some ((b.set k (row.put i cell)).map dataEntry) := setMain_map Prod.fst hk hi cell
  have hsource : setMain (ofBuffer b).source k i (.value cell.2)
      = some ((b.set k (row.put i cell)).map sourceEntry) := setMain_map Prod.snd hk hi cell
  simp only [NodeWaiting.fill, hdata, hsource, InsertionMap.get?_map, InsertionMap.get?_set_self,
    Option.map_some, Option.getD_some, allDataFound_dataEntry]
  split
  · rw [← InsertionMap.map_erase, ← InsertionMap.map_erase, InsertionMap.erase_set]
    rfl
  · rfl

/-- **The engine computes the join.** A delivery to the waiting entries of a buffer is a
delivery to the buffer. -/
theorem deliver_ofBuffer (b : Buffer Cell n) (hi : i < n) (cell : Cell) :
    (ofBuffer b).deliver n i (.value cell.1) (.value cell.2)
      = ofPut (b.put i cell) (b.target i).1 := by
  rw [NodeWaiting.deliver, findWaitingNodeIndex_ofBuffer]
  rcases hfirst : b.firstLacking i with _ | ⟨k, row⟩
  · have hlen : (ofBuffer b).data.entries.length = b.entries.length := List.length_map ..
    simp only [Option.map_none, hlen, prepareWaitingToExecution_ofBuffer]
    rw [fill_ofBuffer (InsertionMap.get?_set_self _ _ _) hi cell]
    simp only [Buffer.put, Buffer.target, hfirst, Option.getD_none, InsertionMap.erase_set,
      InsertionMap.set_set]
  · simp only [Option.map_some]
    rw [fill_ofBuffer (Buffer.get?_of_firstLacking hfirst).1 hi cell]
    simp only [Buffer.put, Buffer.target, hfirst, Option.getD_some]

/-! ### The waiting entries of the state -/

private theorem keepMain_map {α : Type} (f : Row Cell n → List (Slot α)) (b : Buffer Cell n)
    (k : ℕ) : keepMain (b.map fun row => InsertionMap.empty.set .main (f row)) k
      = b.map fun row => InsertionMap.empty.set .main (f row) := by
  rw [keepMain, InsertionMap.get?_map]
  rcases hk : b.get? k with _ | row
  · rfl
  · refine InsertionMap.set_of_get? ?_
    rw [InsertionMap.get?_map, hk]
    rfl

@[simp] theorem rewrite_ofBuffer (b : Buffer Cell n) (k : ℕ) :
    (ofBuffer b).rewrite k = ofBuffer b := by
  rw [NodeWaiting.rewrite]
  exact congrArg₂ NodeWaiting.mk (keepMain_map _ b k) (keepMain_map _ b k)

variable {w : Workflow} {nodeName : String} {d : Delivery} {st : IRunExecutionData}
  {items : List INodeExecutionData}

private theorem source_of_data (h : d.data = .value items) : d.source = .value d.sourceData := by
  rw [Delivery.data] at h
  rw [Delivery.source]
  rcases hd : d.nodeSuccessData with _ | nodeSuccessData
  · rw [hd] at h
    cases h
  · rfl

private theorem deliverTo_ofBuffer {b : Buffer Cell (numberOfInputs w nodeName)}
    (hst : nodeWaiting st nodeName = ofBuffer b) (hnode : d.connectionData.node = nodeName)
    (hi : d.connectionData.index < numberOfInputs w nodeName) (hdata : d.data = .value items) :
    deliverTo w d st = ofPut (b.put d.connectionData.index (items, d.sourceData))
      (b.target d.connectionData.index).1 := by
  subst hnode
  rw [deliverTo, hst, hdata, source_of_data hdata]
  exact deliver_ofBuffer b hi (items, d.sourceData)

/-- **Refinement.** When the waiting entries of a node represent a buffer, a call that delivers
data to the node does to them what a delivery does to the buffer, and completes the row that
leaves it. -/
theorem addNodeToBeExecuted_ofBuffer {b : Buffer Cell (numberOfInputs w nodeName)}
    (hn : 1 < numberOfInputs w nodeName) (hst : nodeWaiting st nodeName = ofBuffer b)
    (hnode : d.connectionData.node = nodeName)
    (hi : d.connectionData.index < numberOfInputs w nodeName) (hdata : d.data = .value items) :
    nodeWaiting (addNodeToBeExecuted w d st).1 nodeName
        = ofBuffer (b.put d.connectionData.index (items, d.sourceData)).1 ∧
      completedItem w d st
        = (b.put d.connectionData.index (items, d.sourceData)).2.map fun row =>
          { node := workflowNode w nodeName, data := dataEntry row,
            source := some (sourceEntry row) } := by
  have hd := deliverTo_ofBuffer hst hnode hi hdata
  subst hnode
  rcases hput : b.put d.connectionData.index (items, d.sourceData) with ⟨b', row | row⟩
  · rw [hput] at hd
    refine ⟨?_, ?_⟩
    · rcases nodeWaiting_of_missing hn hd with h | h
      · exact h
      · rw [h, rewrite_ofBuffer]
    · rw [completedItem, if_pos hn, hd]
      rfl
  · rw [hput] at hd
    refine ⟨nodeWaiting_of_complete hn hd fun hlen => ?_, ?_⟩
    · have hempty : b' = InsertionMap.empty :=
        InsertionMap.ext (List.length_eq_zero_iff.mp ((List.length_map ..).symm.trans hlen))
      rw [hempty]
      exact ofBuffer_empty
    · rw [completedItem, if_pos hn, hd]
      rfl

/-! ### The node and its deliveries -/

/-- The data and sources in the slots of an entry, with their inputs. -/
def entryCells (data : ITaskDataConnections) (source : ITaskDataConnectionsSource) :
    List (ℕ × Cell) :=
  (((data.get? .main).getD []).zip ((source.get? .main).getD [])).zipIdx.filterMap fun slot =>
    match slot.1 with
    | (.value items, .value sourceData) => some (slot.2, items, sourceData)
    | _ => none

/-- The data and sources that wait for a node. -/
def waitingCells (st : IRunExecutionData) (nodeName : String) : List (ℕ × Cell) :=
  let waiting := nodeWaiting st nodeName
  waiting.data.entries.flatMap fun entry =>
    entryCells entry.2 ((waiting.source.get? entry.1).getD .empty)

/-- The data and sources of a stack entry. -/
def itemCells (item : IExecuteData) : List (ℕ × Cell) :=
  entryCells item.data (item.source.getD .empty)

/-- The entry has data and a source for each of `n` inputs. -/
def HasAllInputs (n : ℕ) (item : IExecuteData) : Prop :=
  ∀ i < n, ∃ cell, (i, cell) ∈ itemCells item

theorem entryCells_row (row : Row Cell n) :
    entryCells (dataEntry row) (sourceEntry row) = row.cells := by
  rw [entryCells, dataEntry, sourceEntry, InsertionMap.get?_set_self, InsertionMap.get?_set_self,
    Option.getD_some, Option.getD_some, List.zip_map', List.zipIdx_map, List.filterMap_map,
    Row.cells]
  refine List.filterMap_congr fun slot _ => ?_
  rcases slot with ⟨_ | cell, i⟩ <;> rfl

theorem waitingCells_ofBuffer (h : nodeWaiting st nodeName = ofBuffer b) :
    waitingCells st nodeName = b.cells := by
  simp only [waitingCells, h, ofBuffer, InsertionMap.entries_map, List.flatMap_map, Buffer.cells]
  refine List.flatMap_congr fun entry hentry => ?_
  have hget := InsertionMap.get?_eq_some_iff.mpr (show (entry.1, entry.2) ∈ b.entries from hentry)
  rw [InsertionMap.get?_map, hget, Option.map_some, Option.getD_some, entryCells_row]

/-- A node, the data that was delivered to it and the items that were moved from its waiting
entries to the stack. -/
structure WaitingSystem where
  engine : IRunExecutionData
  delivered : List (ℕ × Cell) := []
  pushed : List IExecuteData := []

/-- A call that delivers data to the node, or anything else that the engine does. -/
inductive WaitingCall where
  | deliver (d : Delivery)
  | other

namespace WaitingSystem

/-- The state after a call for the node. -/
def afterDelivery (w : Workflow) (d : Delivery) (s : WaitingSystem) : WaitingSystem where
  engine := (addNodeToBeExecuted w d s.engine).1
  delivered := s.delivered ++
    d.data.toOption.toList.map fun items => (d.connectionData.index, items, d.sourceData)
  pushed := s.pushed ++ (completedItem w d s.engine).toList

/-- Data is delivered to an input of the node; what else happens leaves its waiting entries
alone. -/
def step (w : Workflow) (nodeName : String) (s : WaitingSystem) :
    WaitingCall → WaitingSystem → Prop
  | .deliver d, s' => (d.connectionData.node = nodeName ∧
      d.connectionData.index < numberOfInputs w nodeName ∧ d.data.isValue = true) ∧
      s' = s.afterDelivery w d
  | .other, s' => nodeWaiting s'.engine nodeName = nodeWaiting s.engine nodeName ∧
      s'.delivered = s.delivered ∧ s'.pushed = s.pushed

/-- Everything that was delivered is in one slot of a waiting entry or of an item that was
pushed, and nothing else is; and items are pushed with all their inputs. -/
structure Conserved (w : Workflow) (nodeName : String) (s : WaitingSystem) : Prop where
  perm : s.delivered.Perm (waitingCells s.engine nodeName ++ s.pushed.flatMap itemCells)
  full : ∀ item ∈ s.pushed, HasAllInputs (numberOfInputs w nodeName) item

/-- Every waiting entry has data for the input, and one of them is kept under the number of
entries. -/
def Overwrites (st : IRunExecutionData) (nodeName : String) (inputIndex : ℕ) : Prop :=
  (∀ entry ∈ (nodeWaiting st nodeName).data.entries,
    (SparseArray.getAt .hole ((entry.2.get? .main).getD []) inputIndex).isValue = true) ∧
  (nodeWaiting st nodeName).data.entries.length ∈ (nodeWaiting st nodeName).data.keys

instance (st : IRunExecutionData) (nodeName : String) (inputIndex : ℕ) :
    Decidable (Overwrites st nodeName inputIndex) :=
  inferInstanceAs (Decidable (_ ∧ _))

/-- A delivery does not overwrite an entry. -/
def KeepsEntries (nodeName : String) (s : WaitingSystem) : WaitingCall → Prop
  | .deliver d => ¬Overwrites s.engine nodeName d.connectionData.index
  | .other => True

instance (nodeName : String) (s : WaitingSystem) (call : WaitingCall) :
    Decidable (s.KeepsEntries nodeName call) :=
  match call with
  | .deliver d => inferInstanceAs (Decidable (¬Overwrites s.engine nodeName d.connectionData.index))
  | .other => isTrue trivial

variable {s s' : WaitingSystem}

private theorem overwrites_ofBuffer (h : nodeWaiting st nodeName = ofBuffer b) :
    Overwrites st nodeName i ↔ b.Collides i := by
  rw [Overwrites, Buffer.Collides, h, Buffer.firstLacking, List.find?_eq_none]
  simp only [ofBuffer, InsertionMap.keys_map, InsertionMap.entries_map, List.length_map,
    List.forall_mem_map, dataEntry, InsertionMap.get?_set_self, Option.getD_some,
    isValue_getAt_map, InsertionMap.mem_indexEntries]
  refine and_congr_left' (forall₂_congr fun e _ => ?_)
  rcases e.2.get i with _ | cell <;> simp

/-- The waiting entries represent a buffer, with what was delivered and not pushed yet. -/
structure Invariant (w : Workflow) (nodeName : String) (s : WaitingSystem) : Prop where
  buffer : ∃ b : Buffer Cell (numberOfInputs w nodeName),
    nodeWaiting s.engine nodeName = ofBuffer b ∧
      s.delivered.Perm (b.cells ++ s.pushed.flatMap itemCells)
  full : ∀ item ∈ s.pushed, HasAllInputs (numberOfInputs w nodeName) item

private theorem Invariant.conserved (h : s.Invariant w nodeName) : s.Conserved w nodeName := by
  obtain ⟨b, hb, hperm⟩ := h.buffer
  exact ⟨by rwa [waitingCells_ofBuffer hb], h.full⟩

/-- What a delivery adds, and where it goes. -/
private theorem afterDelivery_ofBuffer {b : Buffer Cell (numberOfInputs w nodeName)}
    (hn : 1 < numberOfInputs w nodeName) (hb : nodeWaiting s.engine nodeName = ofBuffer b)
    (hnode : d.connectionData.node = nodeName)
    (hi : d.connectionData.index < numberOfInputs w nodeName) (hdata : d.data = .value items) :
    let r := b.put d.connectionData.index (items, d.sourceData)
    let s' := s.afterDelivery w d
    nodeWaiting s'.engine nodeName = ofBuffer r.1 ∧
      s'.delivered = s.delivered ++ [(d.connectionData.index, items, d.sourceData)] ∧
      s'.pushed.flatMap itemCells = s.pushed.flatMap itemCells ++ r.2.elim [] Row.cells ∧
      ∀ item ∈ s'.pushed, item ∈ s.pushed ∨ HasAllInputs (numberOfInputs w nodeName) item := by
  obtain ⟨hwaiting, hitem⟩ := addNodeToBeExecuted_ofBuffer hn hb hnode hi hdata
  refine ⟨hwaiting, ?_, ?_, ?_⟩
  · simp only [afterDelivery, hdata, Slot.toOption_value, Option.toList_some, List.map_singleton]
  · simp only [afterDelivery, hitem, List.flatMap_append]
    rcases (b.put d.connectionData.index (items, d.sourceData)).2 with _ | row
    · rfl
    · simp [itemCells, entryCells_row]
  · intro item hmem
    rcases List.mem_append.mp hmem with hmem | hmem
    · exact Or.inl hmem
    · rw [hitem, Option.mem_toList, Option.map_eq_some_iff] at hmem
      obtain ⟨row, hrow, rfl⟩ := hmem
      refine Or.inr fun i hi => ?_
      obtain ⟨cell, hcell⟩ :=
        Option.isSome_iff_exists.mp (Row.isFull_iff.mp (Buffer.isFull_of_put hrow) i hi)
      refine ⟨cell, ?_⟩
      rw [itemCells, Option.getD_some, entryCells_row]
      exact Row.mem_cells hcell

/-- **Step lemma.** -/
private theorem Invariant.step (hn : 1 < numberOfInputs w nodeName)
    (h : s.Invariant w nodeName) {call : WaitingCall} (hkeep : s.KeepsEntries nodeName call)
    (hstep : s.step w nodeName call s') : s'.Invariant w nodeName := by
  obtain ⟨b, hb, hperm⟩ := h.buffer
  rcases call with d | _
  · obtain ⟨⟨hnode, hi, hvalue⟩, rfl⟩ := hstep
    obtain ⟨items, hitems⟩ := Option.isSome_iff_exists.mp hvalue
    obtain ⟨hwaiting, hdelivered, hpushed, hfull⟩ :=
      afterDelivery_ofBuffer hn hb hnode hi (Slot.toOption_eq_some_iff.mp hitems)
    -- no collision: the delivery gets a slot of its own, in the buffer or in the row that leaves it
    have hcollide : ¬b.Collides d.connectionData.index :=
      fun hc => hkeep ((overwrites_ofBuffer hb).mpr hc)
    have hcells := Buffer.cells_put_perm hi hcollide (items, d.sourceData)
    refine ⟨⟨_, hwaiting, ?_⟩, fun item hmem => (hfull item hmem).elim (h.full item) id⟩
    rw [hdelivered, hpushed]
    calc s.delivered ++ [(d.connectionData.index, items, d.sourceData)]
      _ |>.Perm ((d.connectionData.index, items, d.sourceData) :: s.delivered) :=
        List.perm_append_singleton _ _
      _ |>.Perm ((d.connectionData.index, items, d.sourceData) :: b.cells ++
          s.pushed.flatMap itemCells) := hperm.cons _
      _ |>.Perm (Buffer.cellsAfter (b.put d.connectionData.index (items, d.sourceData)) ++
          s.pushed.flatMap itemCells) := hcells.symm.append_right _
      _ |>.Perm _ := by
        rw [Buffer.cellsAfter, List.append_assoc]
        exact List.perm_append_comm.append_left _
  · obtain ⟨hwaiting, hdelivered, hpushed⟩ := hstep
    exact ⟨⟨b, hwaiting.trans hb, by rwa [hdelivered, hpushed]⟩, hpushed ▸ h.full⟩

/-- A delivery that overwrites an entry loses data. -/
private theorem Invariant.not_conserved (hn : 1 < numberOfInputs w nodeName)
    (h : s.Invariant w nodeName) {call : WaitingCall} (hkeep : ¬s.KeepsEntries nodeName call)
    (hstep : s.step w nodeName call s') : ¬s'.Conserved w nodeName := by
  obtain ⟨b, hb, hperm⟩ := h.buffer
  rcases call with d | _
  · obtain ⟨⟨hnode, hi, hvalue⟩, rfl⟩ := hstep
    obtain ⟨items, hitems⟩ := Option.isSome_iff_exists.mp hvalue
    obtain ⟨hwaiting, hdelivered, hpushed, -⟩ :=
      afterDelivery_ofBuffer hn hb hnode hi (Slot.toOption_eq_some_iff.mp hitems)
    have hcollide := (overwrites_ofBuffer hb).mp (not_not.mp hkeep)
    have hlost := Buffer.length_cells_put_lt hi hcollide (items, d.sourceData)
    intro hconserved
    have hlen := hconserved.perm.length_eq
    have hbefore := hperm.length_eq
    rw [waitingCells_ofBuffer hwaiting, hdelivered, hpushed] at hlen
    simp only [Buffer.cellsAfter, List.length_append, List.length_singleton] at hlost hlen hbefore
    omega
  · exact absurd trivial hkeep

/-- Two sources on the inputs of a merge node. -/
def mergeWorkflow : Workflow :=
  Workflow.new {
    nodes := [{ name := "A" }, { name := "B" }, { name := "Merge" }]
    connections := (InsertionMap.empty.set "A"
      (InsertionMap.empty.set .main [some [⟨"Merge", .main, 0⟩]])).set "B"
      (InsertionMap.empty.set .main [some [⟨"Merge", .main, 1⟩]])
    executionOrder := some "v1" }

/-- One item from a run of a source to an input of the merge node. -/
def mergeDelivery (parentNodeName : String) (index runIndex : ℕ) : Delivery where
  connectionData := ⟨"Merge", .main, index⟩
  outputIndex := 0
  parentNodeName
  nodeSuccessData := some [.value [{}]]
  runIndex

end WaitingSystem

end WorkflowExecute

end N8n
