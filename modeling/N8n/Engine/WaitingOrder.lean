import Mathlib.Data.List.Sort
import N8n.Engine.WaitingNodes
import N8n.Foundations.DecimalOrder

/-!
# The order in which waiting entries run

A node may wait with several entries, one for each run whose inputs did not all arrive. Of a node
that may run with what it has, the entry with the first run index is taken, where run indexes are
keys of an object and are sorted as texts. So the smallest index comes first exactly if no longer
one starts with a smaller number (`picksEarliest_iff`): of the indexes `2` and `10` the second comes
first.
-/

namespace N8n

namespace WorkflowExecute

variable {w : Workflow} {st st' : IRunExecutionData} {nodeName : String} {runIndex : ℕ}
  {data : InsertionMap ℕ ITaskDataConnections}

/-! ### The first run index -/

/-- The order of the run indexes: that of their texts. -/
def TextLE (k k' : ℕ) : Prop := Nat.toDigits 10 k ≤ Nat.toDigits 10 k'

theorem textLE_iff {k k' : ℕ} :
    TextLE k k' ↔
      ¬ List.lex (Nat.toDigits 10 k') (Nat.toDigits 10 k) (fun c c' => c < c') = true := by
  rw [List.lex_eq_true_iff_lt]
  exact not_lt.symm

theorem TextLE.antisymm {k k' : ℕ} (h : TextLE k k') (h' : TextLE k' k) : k = k' :=
  Decimal.toDigits_injective (le_antisymm h h')

instance : DecidableRel TextLE := fun _ _ => decidable_of_iff _ textLE_iff.symm

instance : Std.Total TextLE := ⟨fun _ _ => le_total (Nat.toDigits 10 _) _⟩

instance : IsTrans ℕ TextLE := ⟨fun _ _ _ => le_trans⟩

theorem firstRunIndex_eq : firstRunIndex data = (data.keys.insertionSort TextLE).head? := by
  have hle : (fun k k' => (¬ List.lex (Nat.toDigits 10 k') (Nat.toDigits 10 k)
      (fun c c' => c < c') = true)) = TextLE := by
    funext k k'
    exact propext textLE_iff.symm
  rw [firstRunIndex]
  congr 2

/-- The first run index is the smallest one as a text. -/
theorem firstRunIndex_eq_some_iff :
    firstRunIndex data = some runIndex ↔
      runIndex ∈ data.keys ∧ ∀ k ∈ data.keys, TextLE runIndex k := by
  have hmem {k : ℕ} : k ∈ data.keys.insertionSort TextLE ↔ k ∈ data.keys :=
    List.mem_insertionSort _
  -- the head of a sorted list is in front of all others
  have hfirst {k : ℕ} (hk : firstRunIndex data = some k) :
      k ∈ data.keys ∧ ∀ k' ∈ data.keys, TextLE k k' := by
    rw [firstRunIndex_eq] at hk
    obtain ⟨rest, hsorted⟩ := List.head?_eq_some_iff.mp hk
    have hpairwise := List.pairwise_insertionSort TextLE data.keys
    rw [hsorted, List.pairwise_cons] at hpairwise
    simp only [hsorted] at hmem
    refine ⟨hmem.mp List.mem_cons_self, fun k' hk' => ?_⟩
    obtain rfl | hrest := List.mem_cons.mp (hmem.mpr hk')
    · exact le_refl (Nat.toDigits 10 _)
    · exact hpairwise.1 k' hrest
  refine ⟨hfirst, fun ⟨hkeys, hle⟩ => ?_⟩
  cases hk : firstRunIndex data with
  | none =>
    rw [firstRunIndex_eq, List.head?_eq_none_iff] at hk
    rw [← hmem, hk] at hkeys
    exact absurd hkeys List.not_mem_nil
  | some k =>
    obtain ⟨hkmem, hkle⟩ := hfirst hk
    rw [TextLE.antisymm (hkle runIndex hkeys) (hle k hkmem)]

/-! ### The entry that is taken -/

/-- The entry of a node with this run index leaves the waiting area, and goes on the stack if it has
items. -/
def Takes (w : Workflow) (nodeName : String) (runIndex : ℕ) (st st' : IRunExecutionData) : Prop :=
  ∃ checkNode data main,
    w.getNode nodeName = some checkNode ∧ st.waitingExecution.get? nodeName = some data ∧
    (data.get? runIndex).bind (·.get? .main) = some main ∧
    (nodeWaiting st' nodeName).data = data.erase runIndex ∧
    st'.nodeExecutionStack = st.nodeExecutionStack ++
      if hasItems (taskDataMain main) then
        [waitingNodeEntry w checkNode (taskDataMain main)
          ((st.waitingExecutionSource.bind (·.get? nodeName)).bind (·.get? runIndex))]
      else []

theorem nodeWaiting_removeWaiting (h : removeWaiting nodeName runIndex st = (st', .ok ()))
    (hdata : st.waitingExecution.get? nodeName = some data) :
    (nodeWaiting st' nodeName).data = data.erase runIndex := by
  rw [removeWaiting] at h
  split at h
  next => cases congrArg Prod.snd h
  next source _ =>
    obtain rfl := congrArg Prod.fst h
    simp only [hdata, Option.getD_some, setOrDeleteNodeWaiting]
    split
    next hempty =>
      rw [nodeWaiting_deleteNodeWaiting]
      exact InsertionMap.ext (List.length_eq_zero_iff.mp hempty).symm
    next => rw [nodeWaiting_setNodeWaiting]

theorem removeWaiting_of_source {source : InsertionMap ℕ ITaskDataConnectionsSource}
    (h : st.waitingExecutionSource.bind (·.get? nodeName) = some source) :
    removeWaiting nodeName runIndex st = ((removeWaiting nodeName runIndex st).1, .ok ()) := by
  rw [removeWaiting, h]

/-- The run index of the entry that a node would run with. -/
theorem exists_of_firstWaitingEntry {main : NodeOutputs}
    (h : firstWaitingEntry st nodeName = some (runIndex, main)) :
    ∃ data, st.waitingExecution.get? nodeName = some data ∧
      firstRunIndex data = some runIndex ∧
      (data.get? runIndex).bind (·.get? .main) = some main := by
  obtain ⟨data, hdata, h⟩ := Option.bind_eq_some_iff.mp h
  obtain ⟨runIndex', hfirst, h⟩ := Option.bind_eq_some_iff.mp h
  obtain ⟨main', hmain, h⟩ := Option.map_eq_some_iff.mp h
  obtain ⟨rfl, rfl⟩ := Prod.mk.inj h
  exact ⟨data, hdata, hfirst, hmain⟩

/-- A node that is not skipped loses the entry with its first run index. -/
theorem takes_of_checkWaitingNode {waitingNodes : List String} {outcome : WaitingNodeOutcome}
    (h : checkWaitingNode w waitingNodes nodeName st = (st', .ok outcome))
    (houtcome : outcome ≠ .skipped) (hdata : st.waitingExecution.get? nodeName = some data)
    (hfirst : firstRunIndex data = some runIndex) : Takes w nodeName runIndex st st' := by
  have hskip {st₁ : IRunExecutionData} (h : (st₁, Except.ok WaitingNodeOutcome.skipped) =
      ((st', Except.ok outcome) : _ × Except EngineError _)) : False :=
    houtcome (Except.ok.inj (congrArg Prod.snd h)).symm
  rw [checkWaitingNode] at h
  split at h
  next => exact (hskip h).elim
  next checkNode hnode =>
    split at h
    next => exact (hskip h).elim
    next =>
      split at h
      next => exact (hskip h).elim
      next =>
        split at h
        next => cases congrArg Prod.snd h
        next runIndex' main hentry =>
          obtain ⟨data', hdata', hfirst', hmain⟩ := exists_of_firstWaitingEntry hentry
          obtain rfl := Option.some.inj (hdata'.symm.trans hdata)
          obtain rfl := Option.some.inj (hfirst'.symm.trans hfirst)
          split at h
          next => exact (hskip h).elim
          next =>
            split at h
            next hitems =>
              split at h
              next => cases congrArg Prod.snd h
              next source hsource =>
                obtain rfl := congrArg Prod.fst h
                let st₁ : IRunExecutionData := { st with
                  nodeExecutionStack := st.nodeExecutionStack ++
                    [waitingNodeEntry w checkNode (taskDataMain main) (source.get? runIndex')] }
                have hremoved : removeWaiting nodeName runIndex' st₁ = (_, .ok ()) :=
                  removeWaiting_of_source hsource
                have hstack := (adds_removeWaiting nodeName runIndex' st₁).1
                refine ⟨checkNode, data', main, hnode, hdata, hmain,
                  nodeWaiting_removeWaiting hremoved hdata, ?_⟩
                rw [if_pos hitems, hsource, Option.bind_some]
                rw [List.append_nil] at hstack
                exact hstack
            next hitems =>
              split at h
              next => cases congrArg Prod.snd h
              next st₁ hremove =>
                obtain rfl := congrArg Prod.fst h
                have hstack := (adds_removeWaiting nodeName runIndex' st).1
                rw [hremove] at hstack
                refine ⟨checkNode, data', main, hnode, hdata, hmain,
                  nodeWaiting_removeWaiting hremove hdata, ?_⟩
                rw [if_neg hitems]
                exact hstack

/-! ### The earliest entry -/

/-- Of the entries of a node, the one that leaves the waiting area is the one with the smallest run
index. -/
def PicksEarliest (w : Workflow) (st : IRunExecutionData) (nodeName : String) : Prop :=
  ∀ data, st.waitingExecution.get? nodeName = some data → data.keys ≠ [] →
    ∃ runIndex ∈ data.keys, (∀ k ∈ data.keys, runIndex ≤ k) ∧
      firstRunIndex data = some runIndex ∧
      ∀ waitingNodes st' outcome,
        checkWaitingNode w waitingNodes nodeName st = (st', .ok outcome) → outcome ≠ .skipped →
          Takes w nodeName runIndex st st'

/-- The smallest run index is at most what every other one starts with. -/
def SmallestComesFirst (data : InsertionMap ℕ ITaskDataConnections) : Prop :=
  ∀ m ∈ data.keys, (∀ k ∈ data.keys, m ≤ k) →
    ∀ k ∈ data.keys, m ≤ k / 10 ^ (Decimal.width k - Decimal.width m)

theorem firstRunIndex_eq_smallest_iff {m : ℕ} (hm : m ∈ data.keys)
    (hle : ∀ k ∈ data.keys, m ≤ k) :
    firstRunIndex data = some m ↔
      ∀ k ∈ data.keys, m ≤ k / 10 ^ (Decimal.width k - Decimal.width m) := by
  rw [firstRunIndex_eq_some_iff, and_iff_right hm]
  refine forall₂_congr fun k hk => ?_
  exact Decimal.toDigits_le_iff (Decimal.width_mono (hle k hk))

/-- **When the smallest run index comes first**: no longer index of the node starts with a smaller
number. -/
theorem picksEarliest_iff (w : Workflow) (st : IRunExecutionData) (nodeName : String) :
    PicksEarliest w st nodeName ↔
      ∀ data, st.waitingExecution.get? nodeName = some data → SmallestComesFirst data := by
  constructor
  · intro h data hdata m hm hle
    obtain ⟨runIndex, hmem, hleast, hfirst, -⟩ := h data hdata (List.ne_nil_of_mem hm)
    have heq : runIndex = m := Nat.le_antisymm (hleast m hm) (hle runIndex hmem)
    exact (firstRunIndex_eq_smallest_iff hm hle).mp (heq ▸ hfirst)
  · intro h data hdata hne
    have hexists : ∃ k, k ∈ data.keys := List.exists_mem_of_ne_nil _ hne
    have hmem := Nat.find_spec hexists
    have hleast : ∀ k ∈ data.keys, Nat.find hexists ≤ k := fun _ hk => Nat.find_min' hexists hk
    have hfirst := (firstRunIndex_eq_smallest_iff hmem hleast).mpr (h data hdata _ hmem hleast)
    exact ⟨Nat.find hexists, hmem, hleast, hfirst, fun _ _ _ hcheck houtcome =>
      takes_of_checkWaitingNode hcheck houtcome hdata hfirst⟩

/-! ### The run indexes 2 and 10 -/

/-- A node waits with its second and its tenth run. -/
private def tenRuns : IRunExecutionData where
  waitingExecution := InsertionMap.empty.set "Merge"
    ((InsertionMap.empty.set 2 (emptyWaitingEntry _ 2)).set 10 (emptyWaitingEntry _ 2))

private def waitingMerge : Workflow :=
  Workflow.new { nodes := [{ name := "Merge" }], connections := .empty }

theorem not_picksEarliest_tenRuns : ¬ PicksEarliest waitingMerge tenRuns "Merge" := by
  intro h
  obtain ⟨runIndex, -, hleast, hfirst, -⟩ := h _ rfl (by decide)
  -- the text "10" comes before "2"
  have hten : firstRunIndex ((InsertionMap.empty.set 2 (emptyWaitingEntry _ 2)).set 10
      (emptyWaitingEntry _ 2)) = some 10 := by decide +kernel
  obtain rfl := Option.some.inj (hten.symm.trans hfirst)
  exact absurd (hleast 2 (by decide)) (by decide)

end WorkflowExecute

end N8n
