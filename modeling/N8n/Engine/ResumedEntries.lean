import N8n.Engine.WaitingArea
import N8n.PartialExecution.RoundTrip
import N8n.PartialExecution.WaitingEntries

/-!
# Resuming the entries of the planner

A partial execution starts with the waiting area that the planner has made. Its entries have
holes where the engine's own have `null`, and the engine takes only `null` for an input that
is still missing: the first delivery to such an entry completes it, whether or not others
are missing. `plannerEntries_complete_iff` says for which groups that is right.
-/

namespace N8n

namespace WorkflowExecute

open Transition DirectedGraph

/-! ### Searching the waiting entries -/

variable {n inputIndex k : ℕ} {data : InsertionMap ℕ ITaskDataConnections}
  {entry : ITaskDataConnections} {main : List (Slot (List INodeExecutionData))}

/-- The entry has main data. -/
def HasMain (data : InsertionMap ℕ ITaskDataConnections) (k : ℕ)
    (main : List (Slot (List INodeExecutionData))) : Prop :=
  (data.get? k).bind (·.get? .main) = some main

/-- Every entry before this one has main data, so that a search gets this far. -/
def Reaches (data : InsertionMap ℕ ITaskDataConnections) (k : ℕ) : Prop :=
  ∀ k' < k, k' ∈ data.keys → ∃ main, HasMain data k' main

/-- The input has no data. -/
def Lacks (main : List (Slot (List INodeExecutionData))) (i : ℕ) : Prop :=
  (SparseArray.getAt .hole main i).isValue = false

private theorem hasMain_of_get? (hget : data.get? k = some entry)
    (hmain : entry.get? .main = some main) : HasMain data k main := by
  rw [HasMain, hget]
  exact hmain

private theorem get?_of_hasMain (h : HasMain data k main) :
    ∃ entry, data.get? k = some entry ∧ entry.get? .main = some main :=
  Option.bind_eq_some_iff.mp h

private theorem split_indexEntries {l₁ l₂ : List (ℕ × ITaskDataConnections)}
    {e : ℕ × ITaskDataConnections} (h : data.indexEntries = l₁ ++ e :: l₂)
    {e' : ℕ × ITaskDataConnections} (he' : e' ∈ data.entries) (hlt : e'.1 < e.1) : e' ∈ l₁ := by
  have hmem := InsertionMap.mem_indexEntries.mpr he'
  have hsorted := data.pairwise_indexEntries
  rw [h] at hmem hsorted
  rcases List.mem_append.mp hmem with hmem | hmem
  · exact hmem
  · rcases List.mem_cons.mp hmem with rfl | hmem
    · exact absurd hlt (Nat.lt_irrefl _)
    · have hle := (List.pairwise_cons.mp (List.pairwise_append.mp hsorted).2.1).1 e' hmem
      omega

private theorem indexIfMissing_eq_ok {e : ℕ × ITaskDataConnections} {o : Option ℕ}
    (h : indexIfMissing inputIndex e = .ok o) : ∃ main, e.2.get? .main = some main ∧
      ((o = none ∧ ¬Lacks main inputIndex) ∨ (o = some e.1 ∧ Lacks main inputIndex)) := by
  rw [indexIfMissing] at h
  rcases hmain : e.2.get? .main with _ | main
  · rw [hmain] at h
    cases h
  · rw [hmain] at h
    refine ⟨main, rfl, ?_⟩
    rw [← Except.ok.inj h, Lacks]
    rcases (SparseArray.getAt .hole main inputIndex).isValue <;> simp

private theorem indexIfMissing_of_lacks {e : ℕ × ITaskDataConnections}
    (hmain : e.2.get? .main = some main) (hlacks : Lacks main inputIndex) :
    indexIfMissing inputIndex e = .ok (some e.1) := by
  rw [Lacks] at hlacks
  rw [indexIfMissing, hmain]
  simp [hlacks]

/-- A search finds the first entry without data for the input. -/
theorem hasMain_of_findWaitingNodeIndex
    (h : findWaitingNodeIndex data inputIndex = .ok (some k)) :
    (∃ main, HasMain data k main ∧ Lacks main inputIndex) ∧ Reaches data k := by
  obtain ⟨l₁, e, l₂, hsplit, he, hbefore⟩ := ExceptFold.findSomeM?_eq_ok_some h
  have hmem : e ∈ data.entries := by
    rw [← InsertionMap.mem_indexEntries, hsplit]
    simp
  obtain ⟨main, hmain, ⟨hnone, -⟩ | ⟨hsome, hlacks⟩⟩ := indexIfMissing_eq_ok he
  · cases hnone
  · obtain rfl := Option.some.inj hsome
    refine ⟨⟨main, hasMain_of_get? (InsertionMap.get?_eq_some_iff.mpr hmem) hmain, hlacks⟩,
      fun k' hk' hkey => ?_⟩
    obtain ⟨entry, hentry⟩ := InsertionMap.mem_keys.mp hkey
    obtain ⟨main', hmain', -⟩ :=
      indexIfMissing_eq_ok (hbefore _ (split_indexEntries hsplit hentry hk'))
    exact ⟨main', hasMain_of_get? (InsertionMap.get?_eq_some_iff.mpr hentry) hmain'⟩

/-- A search that finds nothing has seen all entries. -/
theorem hasMain_of_findWaitingNodeIndex_none
    (h : findWaitingNodeIndex data inputIndex = .ok none) (hk : k ∈ data.keys) :
    ∃ main, HasMain data k main := by
  obtain ⟨entry, hentry⟩ := InsertionMap.mem_keys.mp hk
  rcases ExceptFold.findSomeM?_eq_ok h with ⟨a, -, c, hc, -⟩ | ⟨-, hall⟩
  · cases hc
  · obtain ⟨main, hmain, -⟩ :=
      indexIfMissing_eq_ok (hall _ (InsertionMap.mem_indexEntries.mpr hentry))
    exact ⟨main, hasMain_of_get? (InsertionMap.get?_eq_some_iff.mpr hentry) hmain⟩

/-- A search finds this entry or one before it when it lacks the input and is reached. -/
theorem exists_findWaitingNodeIndex (hmain : HasMain data k main)
    (hlacks : Lacks main inputIndex) (hreaches : Reaches data k) :
    ∃ k' ≤ k, findWaitingNodeIndex data inputIndex = .ok (some k') := by
  obtain ⟨entry, hget, hentry⟩ := get?_of_hasMain hmain
  have hmem : (k, entry) ∈ data.entries := InsertionMap.get?_eq_some_iff.mp hget
  obtain ⟨l₁, l₂, hsplit⟩ := List.append_of_mem (InsertionMap.mem_indexEntries.mpr hmem)
  have hfind : indexIfMissing inputIndex (k, entry) = .ok (some k) :=
    indexIfMissing_of_lacks hentry hlacks
  have hlt : ∀ e ∈ l₁, e.1 < k := by
    intro e he
    have hsorted := data.pairwise_indexEntries
    have hnodup : (data.indexEntries.map Prod.fst).Nodup :=
      (data.indexEntries_perm.map Prod.fst).nodup_iff.mpr data.nodup_keys
    rw [hsplit] at hsorted hnodup
    have hle := (List.pairwise_append.mp hsorted).2.2 e he (k, entry) List.mem_cons_self
    rw [List.map_append] at hnodup
    exact lt_of_le_of_ne hle
      ((List.nodup_append.mp hnodup).2.2 e.1 (List.mem_map_of_mem he) k (by simp))
  have hbefore : ∀ e ∈ l₁, ∃ o, indexIfMissing inputIndex e = .ok o := by
    intro e he
    have hin : (e.1, e.2) ∈ data.entries := by
      rw [← InsertionMap.mem_indexEntries, hsplit]
      exact List.mem_append_left _ he
    obtain ⟨main', hmain'⟩ := hreaches e.1 (hlt e he) (InsertionMap.mem_keys.mpr ⟨e.2, hin⟩)
    obtain ⟨entry', hget', hentry'⟩ := get?_of_hasMain hmain'
    rw [InsertionMap.get?_eq_some_iff.mpr hin] at hget'
    obtain rfl := Option.some.inj hget'
    rw [indexIfMissing, hentry']
    exact ⟨_, rfl⟩
  obtain ⟨k', hk'⟩ : ∃ k', findWaitingNodeIndex data inputIndex = .ok (some k') := by
    rw [findWaitingNodeIndex, hsplit]
    exact ExceptFold.exists_findSomeM?_eq_ok_some hbefore hfind
  refine ⟨k', ?_, hk'⟩
  -- this entry is not among those at which there was nothing
  obtain ⟨m₁, e, m₂, hsplit', he, hnone⟩ := ExceptFold.findSomeM?_eq_ok_some hk'
  obtain ⟨-, -, ⟨hfirst, -⟩ | ⟨hfirst, -⟩⟩ := indexIfMissing_eq_ok he
  · cases hfirst
  · obtain rfl := Option.some.inj hfirst
    by_contra hgt
    have hq := hnone _ (split_indexEntries hsplit' hmem (Nat.lt_of_not_le hgt))
    rw [hfind] at hq
    cases hq

/-! ### Slots that are complete when nothing is `null` -/

/-- The slots of an entry of the engine, which has `null` for a missing input; or those of an
entry without `null` that lacks at most one input. -/
def SoundSlots (n : ℕ) (main : List (Slot (List INodeExecutionData))) : Prop :=
  (main.length = n ∧ Slot.hole ∉ main) ∨
    (Slot.null ∉ main ∧ ∀ i < n, ∀ j < n, Lacks main i → Lacks main j → i = j)

variable {i : ℕ} {items : List INodeExecutionData}

private theorem lacks_setAt : Lacks (SparseArray.setAt .hole main inputIndex (.value items)) i ↔
    i ≠ inputIndex ∧ Lacks main i := by
  rw [Lacks, Lacks, SparseArray.getAt_setAt]
  by_cases hi : i = inputIndex
  · rw [if_pos hi]
    exact iff_of_false (fun h => absurd h (by simp [Slot.isValue])) fun h => h.1 hi
  · rw [if_neg hi]
    exact (and_iff_right hi).symm

/-- A delivery keeps slots sound. -/
private theorem SoundSlots.setAt (h : SoundSlots n main) (hi : inputIndex < n) :
    SoundSlots n (SparseArray.setAt .hole main inputIndex (.value items)) := by
  rcases h with ⟨hlen, hhole⟩ | ⟨hnull, hone⟩
  · left
    rw [SparseArray.setAt_of_lt (hlen.symm ▸ hi)]
    refine ⟨by rw [List.length_set, hlen], fun hmem => ?_⟩
    rcases List.mem_or_eq_of_mem_set hmem with hmem | hmem
    · exact hhole hmem
    · cases hmem
  · right
    refine ⟨fun hmem => ?_, fun i hi j hj hli hlj =>
      hone i hi j hj (lacks_setAt.mp hli).2 (lacks_setAt.mp hlj).2⟩
    rcases SparseArray.mem_setAt hmem with hmem | hmem | hmem
    · exact hnull hmem
    · cases hmem
    · cases hmem

/-- Sound slots without `null` have data for every input after a delivery. -/
private theorem SoundSlots.complete (h : SoundSlots n main) (hi : inputIndex < n)
    (hlacks : Lacks main inputIndex)
    (hnull : Slot.null ∉ SparseArray.setAt .hole main inputIndex (.value items)) :
    ∀ i < n, ¬Lacks (SparseArray.setAt .hole main inputIndex (.value items)) i := by
  intro j hj hlj
  rcases h with ⟨hlen, hhole⟩ | ⟨-, hone⟩
  · have hlt : inputIndex < main.length := hlen.symm ▸ hi
    rw [SparseArray.setAt_of_lt hlt] at hnull hlj
    have hjlen : j < (main.set inputIndex (.value items)).length := by
      rw [List.length_set, hlen]
      exact hj
    rw [Lacks, SparseArray.getAt_of_lt hjlen] at hlj
    have hmem := List.getElem_mem hjlen
    rcases hslot : (main.set inputIndex (.value items))[j] with _ | _ | items'
    · rw [hslot] at hmem
      rcases List.mem_or_eq_of_mem_set hmem with hmem | hmem
      · exact hhole hmem
      · cases hmem
    · exact hnull (hslot ▸ hmem)
    · rw [hslot] at hlj
      cases hlj
  · obtain ⟨hne, hlj⟩ := lacks_setAt.mp hlj
    exact hne (hone j hj inputIndex hi hlj hlacks)

/-- The entries that a search reaches have sound slots. -/
def SoundEntries (n : ℕ) (data : InsertionMap ℕ ITaskDataConnections) : Prop :=
  ∀ k main, HasMain data k main → Reaches data k → SoundSlots n main

/-! ### One delivery -/

variable {waiting waiting' : NodeWaiting} {source : Slot ISourceData}
  {r : Except EngineError DeliveryOutcome}

private theorem hasMain_set {k' : ℕ} {main' : List (Slot (List INodeExecutionData))} :
    HasMain (data.set k entry) k' main' ↔
      (k' = k ∧ entry.get? .main = some main') ∨ (k' ≠ k ∧ HasMain data k' main') := by
  rw [HasMain, HasMain, InsertionMap.get?_set]
  by_cases hk : k' = k <;> simp [hk]

private theorem hasMain_erase {k' : ℕ} {main' : List (Slot (List INodeExecutionData))} :
    HasMain (data.erase k) k' main' ↔ k' ≠ k ∧ HasMain data k' main' := by
  rw [HasMain, HasMain, InsertionMap.get?_erase]
  by_cases hk : k' = k <;> simp [hk]

/-- Filling a slot leaves the entry in place, or takes it out when nothing in it is `null`. -/
private theorem fill_cases (hmain : HasMain waiting.data k main)
    (h : waiting.fill k inputIndex (.value items) source = (waiting', r)) :
    let main' := SparseArray.setAt .hole main inputIndex (.value items)
    (∃ entry, entry.get? .main = some main' ∧ waiting'.data = waiting.data.set k entry ∧
      ∀ data source, r ≠ .ok (.complete data source)) ∨
    (Slot.null ∉ main' ∧ waiting'.data = waiting.data.erase k ∧
      ∃ data source, r = .ok (.complete data source) ∧ data.get? .main = some main') := by
  obtain ⟨entry, hget, hentry⟩ := get?_of_hasMain hmain
  have hset : setMain waiting.data k inputIndex (.value items) = some (waiting.data.set k
      (entry.set .main (SparseArray.setAt .hole main inputIndex (.value items)))) := by
    rw [setMain, hget, Option.bind_some, hentry, Option.map_some]
  simp only [NodeWaiting.fill, hset] at h
  split at h
  next =>
    obtain ⟨rfl, rfl⟩ := Prod.mk.inj h
    exact Or.inl ⟨_, InsertionMap.get?_set_self _ _ _, rfl, fun _ _ h => by cases h⟩
  next source' hsource =>
    simp only [InsertionMap.get?_set_self, Option.getD_some] at h
    split at h
    next hall =>
      obtain ⟨rfl, rfl⟩ := Prod.mk.inj h
      refine Or.inr ⟨fun hmem => ?_, InsertionMap.erase_set _ _ _, _, _, rfl,
        InsertionMap.get?_set_self _ _ _⟩
      rw [allDataFound, InsertionMap.get?_set_self, Option.getD_some, List.all_eq_true] at hall
      exact absurd (hall _ hmem) (by simp)
    next =>
      obtain ⟨rfl, rfl⟩ := Prod.mk.inj h
      exact Or.inl ⟨_, InsertionMap.get?_set_self _ _ _, rfl, fun _ _ h => by cases h⟩

private theorem SoundEntries.set (h : SoundEntries n data) (hk : ∃ main, HasMain data k main)
    (hentry : entry.get? .main = some main) (hmain : SoundSlots n main) :
    SoundEntries n (data.set k entry) := by
  intro k' main' hmain' hreaches
  rcases hasMain_set.mp hmain' with ⟨-, heq⟩ | ⟨-, hold⟩
  · rw [hentry] at heq
    exact Option.some.inj heq ▸ hmain
  · refine h k' main' hold fun k'' hlt hkey => ?_
    obtain ⟨main'', hmain''⟩ := hreaches k'' hlt (InsertionMap.mem_keys_set.mpr (Or.inr hkey))
    rcases hasMain_set.mp hmain'' with ⟨rfl, -⟩ | ⟨-, hold⟩
    · exact hk
    · exact ⟨main'', hold⟩

private theorem SoundEntries.erase (h : SoundEntries n data) (hk : ∃ main, HasMain data k main) :
    SoundEntries n (data.erase k) := by
  intro k' main' hmain' hreaches
  refine h k' main' (hasMain_erase.mp hmain').2 fun k'' hlt hkey => ?_
  by_cases heq : k'' = k
  · exact heq ▸ hk
  · obtain ⟨entry, hentry⟩ := InsertionMap.mem_keys.mp hkey
    obtain ⟨main'', hmain''⟩ := hreaches k'' hlt
      (InsertionMap.mem_keys.mpr ⟨entry, InsertionMap.mem_erase.mpr ⟨hentry, heq⟩⟩)
    exact ⟨main'', (hasMain_erase.mp hmain'').2⟩

private theorem SoundEntries.fill (h : SoundEntries n waiting.data)
    (hmain : HasMain waiting.data k main) (hlacks : Lacks main inputIndex)
    (hreaches : Reaches waiting.data k) (hi : inputIndex < n)
    (hfill : waiting.fill k inputIndex (.value items) source = (waiting', r)) :
    SoundEntries n waiting'.data ∧ ∀ data source, r = .ok (.complete data source) →
      ∃ main, data.get? .main = some main ∧ ∀ i < n, ¬Lacks main i := by
  have hsound := h k main hmain hreaches
  rcases fill_cases hmain hfill with ⟨entry, hentry, hdata, hno⟩ | ⟨hnull, hdata, hpushed⟩
  · rw [hdata]
    exact ⟨h.set ⟨main, hmain⟩ hentry (hsound.setAt hi), fun data source hr =>
      absurd hr (hno data source)⟩
  · rw [hdata]
    refine ⟨h.erase ⟨main, hmain⟩, fun data source hr => ?_⟩
    obtain ⟨data', source', hr', hmain'⟩ := hpushed
    obtain ⟨rfl, rfl⟩ := DeliveryOutcome.complete.inj (Except.ok.inj (hr.symm.trans hr'))
    exact ⟨_, hmain', hsound.complete hi hlacks hnull⟩

/-- **Step lemma of a delivery.** -/
private theorem SoundEntries.deliver (h : SoundEntries n waiting.data) (hi : inputIndex < n)
    (hd : waiting.deliver n inputIndex (.value items) source = (waiting', r)) :
    SoundEntries n waiting'.data ∧ ∀ data source, r = .ok (.complete data source) →
      ∃ main, data.get? .main = some main ∧ ∀ i < n, ¬Lacks main i := by
  rw [NodeWaiting.deliver] at hd
  rcases hfind : findWaitingNodeIndex waiting.data inputIndex with e | _ | k
  · rw [hfind] at hd
    obtain ⟨rfl, rfl⟩ := Prod.mk.inj hd
    exact ⟨h, fun _ _ hr => by cases hr⟩
  · -- a new entry: every entry was seen, and it is one of the engine
    rw [hfind] at hd
    have hall : ∀ k', k' ∈ waiting.data.keys → ∃ main, HasMain waiting.data k' main :=
      fun k' hk' => hasMain_of_findWaitingNodeIndex_none hfind hk'
    have hnew : (emptyWaitingEntry (List INodeExecutionData) n).get? .main
        = some (List.replicate n .null) := InsertionMap.get?_set_self _ _ _
    have hprepared : HasMain (waiting.data.set waiting.data.entries.length
        (emptyWaitingEntry _ n)) waiting.data.entries.length (List.replicate n .null) :=
      hasMain_set.mpr (Or.inl ⟨rfl, hnew⟩)
    have hmains : ∀ k', k' ∈ (waiting.data.set waiting.data.entries.length
        (emptyWaitingEntry _ n)).keys → ∃ main, HasMain (waiting.data.set
          waiting.data.entries.length (emptyWaitingEntry _ n)) k' main := by
      intro k' hk'
      by_cases heq : k' = waiting.data.entries.length
      · exact ⟨_, by rw [heq]; exact hprepared⟩
      · obtain ⟨main, hmain⟩ := hall k' ((InsertionMap.mem_keys_set.mp hk').resolve_left heq)
        exact ⟨main, hasMain_set.mpr (Or.inr ⟨heq, hmain⟩)⟩
    have hsound : SoundEntries n (waiting.data.set waiting.data.entries.length
        (emptyWaitingEntry _ n)) := by
      intro k' main' hmain' hreaches
      rcases hasMain_set.mp hmain' with ⟨-, heq⟩ | ⟨-, hold⟩
      · rw [hnew] at heq
        obtain rfl := Option.some.inj heq
        exact Or.inl ⟨List.length_replicate, fun hmem => by
          cases List.eq_of_mem_replicate hmem⟩
      · exact h k' main' hold fun k'' _ hkey => hall k'' hkey
    have hlacks : Lacks (List.replicate n (Slot.null : Slot (List INodeExecutionData)))
        inputIndex := by
      rw [Lacks, SparseArray.getAt_of_lt (by rwa [List.length_replicate])]
      simp [Slot.isValue]
    have hprepare : SoundEntries n
        (prepareWaitingToExecution n waiting.data.entries.length waiting).data := hsound
    exact hprepare.fill hprepared hlacks (fun k' _ hkey => hmains k' hkey) hi hd
  · rw [hfind] at hd
    obtain ⟨⟨main, hmain, hlacks⟩, hreaches⟩ := hasMain_of_findWaitingNodeIndex hfind
    exact h.fill hmain hlacks hreaches hi hd

/-! ### One call -/

variable {w : Workflow} {nodeName : String} {d : Delivery} {st : IRunExecutionData}

private theorem hasMain_keepMain {k' : ℕ} {main' : List (Slot (List INodeExecutionData))} :
    HasMain (keepMain data k) k' main' ↔ HasMain data k' main' := by
  rw [keepMain]
  rcases hmain : (data.get? k).bind (·.get? .main) with _ | main
  · exact Iff.rfl
  · rw [hasMain_set, InsertionMap.get?_set_self]
    by_cases hk : k' = k
    · subst hk
      simp [HasMain, hmain]
    · simp [hk]

private theorem keys_keepMain : (keepMain data k).keys = data.keys := by
  rw [keepMain]
  rcases hmain : (data.get? k).bind (·.get? .main) with _ | main
  · rfl
  · obtain ⟨entry, hget, -⟩ := get?_of_hasMain hmain
    exact InsertionMap.keys_set_of_mem
      (InsertionMap.mem_keys.mpr ⟨entry, InsertionMap.get?_eq_some_iff.mp hget⟩) _

private theorem SoundEntries.keepMain (h : SoundEntries n data) (k : ℕ) :
    SoundEntries n (keepMain data k) := by
  intro k' main' hmain' hreaches
  refine h k' main' (hasMain_keepMain.mp hmain') fun k'' hlt hkey => ?_
  obtain ⟨main'', hmain''⟩ := hreaches k'' hlt (keys_keepMain.symm ▸ hkey)
  exact ⟨main'', hasMain_keepMain.mp hmain''⟩

/-- The data of the waiting entries after a call. -/
private theorem data_nodeWaiting_addNodeToBeExecuted
    (hn : 1 < numberOfInputs w d.connectionData.node) :
    (nodeWaiting (addNodeToBeExecuted w d st).1 d.connectionData.node).data
        = (deliverTo w d st).1.data ∨
      ∃ k, (nodeWaiting (addNodeToBeExecuted w d st).1 d.connectionData.node).data
        = WorkflowExecute.keepMain (deliverTo w d st).1.data k := by
  rcases hd : deliverTo w d st with ⟨waiting, e | ⟨data, source⟩ | waitingNodeIndex⟩
  · left
    rw [addNodeToBeExecuted, if_pos hn, addToWaiting, hd]
    simp [nodeWaiting]
  · left
    rw [addNodeToBeExecuted, if_pos hn, addToWaiting, hd]
    simp only [setOrDeleteNodeWaiting]
    split
    next hlen =>
      have hempty : waiting.data = InsertionMap.empty :=
        InsertionMap.ext (List.length_eq_zero_iff.mp hlen)
      rw [hempty]
      exact congrArg NodeWaiting.data (nodeWaiting_deleteNodeWaiting d.connectionData.node st)
    next =>
      exact congrArg NodeWaiting.data
        (nodeWaiting_setNodeWaiting d.connectionData.node waiting st)
  · rcases nodeWaiting_of_missing hn hd with h | h
    · exact Or.inl (congrArg NodeWaiting.data h)
    · exact Or.inr ⟨waitingNodeIndex, congrArg NodeWaiting.data h⟩

/-- Without `null`, a delivery completes the entry. -/
private theorem fill_complete {sourceMain : List (Slot ISourceData)}
    (hmain : HasMain waiting.data k main)
    (hsource : (waiting.source.get? k).bind (·.get? .main) = some sourceMain)
    (hnull : Slot.null ∉ main) :
    ∃ data source', waiting.fill k inputIndex (.value items) source
        = (⟨waiting.data.erase k, waiting.source.erase k⟩, .ok (.complete data source')) ∧
      data.get? .main = some (SparseArray.setAt .hole main inputIndex (.value items)) := by
  obtain ⟨entry, hget, hentry⟩ := get?_of_hasMain hmain
  obtain ⟨sourceEntry, hsget, hsentry⟩ := Option.bind_eq_some_iff.mp hsource
  have hset : setMain waiting.data k inputIndex (.value items) = some (waiting.data.set k
      (entry.set .main (SparseArray.setAt .hole main inputIndex (.value items)))) := by
    rw [setMain, hget, Option.bind_some, hentry, Option.map_some]
  have hsset : setMain waiting.source k inputIndex source = some (waiting.source.set k
      (sourceEntry.set .main (SparseArray.setAt .hole sourceMain inputIndex source))) := by
    rw [setMain, hsget, Option.bind_some, hsentry, Option.map_some]
  have hall : allDataFound (entry.set .main
      (SparseArray.setAt .hole main inputIndex (.value items))) = true := by
    rw [allDataFound, InsertionMap.get?_set_self, Option.getD_some, List.all_eq_true]
    intro slot hslot
    rw [decide_eq_true_eq]
    rintro rfl
    rcases SparseArray.mem_setAt hslot with hmem | hmem | hmem
    · exact hnull hmem
    · cases hmem
    · cases hmem
  simp only [NodeWaiting.fill, hset, hsset, InsertionMap.get?_set_self, Option.getD_some, hall,
    if_true, InsertionMap.erase_set]
  exact ⟨_, _, rfl, InsertionMap.get?_set_self _ _ _⟩

namespace WaitingSystem

/-- Every item that was moved from the waiting entries to the stack has data for all inputs of
the node. -/
def PushesComplete (w : Workflow) (nodeName : String) (s : WaitingSystem) : Prop :=
  ∀ item ∈ s.pushed, ∃ main, item.data.get? .main = some main ∧
    ∀ i < numberOfInputs w nodeName, ¬Lacks main i

/-- What holds when the waiting entries are sound. -/
structure SoundInvariant (w : Workflow) (nodeName : String) (s : WaitingSystem) : Prop where
  sound : 1 < numberOfInputs w nodeName →
    SoundEntries (numberOfInputs w nodeName) (nodeWaiting s.engine nodeName).data
  pushes : s.PushesComplete w nodeName

variable {s s' : WaitingSystem} {call : WaitingCall}

/-- **Step lemma.** -/
private theorem SoundInvariant.step (h : s.SoundInvariant w nodeName)
    (hstep : s.step w nodeName call s') : s'.SoundInvariant w nodeName := by
  rcases call with d | _
  · obtain ⟨⟨rfl, hi, hvalue⟩, rfl⟩ := hstep
    obtain ⟨items, hitems⟩ := Option.isSome_iff_exists.mp hvalue
    have hdata := Slot.toOption_eq_some_iff.mp hitems
    by_cases hn : 1 < numberOfInputs w d.connectionData.node
    · rcases hd : deliverTo w d s.engine with ⟨waiting, r⟩
      have hd' := hd
      rw [deliverTo, hdata] at hd'
      obtain ⟨hsound, hcomplete⟩ := (h.sound hn).deliver hi hd'
      refine ⟨fun _ => ?_, fun item hmem => ?_⟩
      · rcases data_nodeWaiting_addNodeToBeExecuted (d := d) hn with heq | ⟨k, heq⟩
        · rw [hd] at heq
          rw [afterDelivery, heq]
          exact hsound
        · rw [hd] at heq
          rw [afterDelivery, heq]
          exact hsound.keepMain k
      · rcases List.mem_append.mp hmem with hmem | hmem
        · exact h.pushes item hmem
        · rw [completedItem, if_pos hn, hd, Option.mem_toList] at hmem
          rcases r with e | ⟨data, source⟩ | waitingNodeIndex
          · cases hmem
          · obtain rfl := Option.some.inj hmem
            exact hcomplete data source rfl
          · cases hmem
    · refine ⟨fun hn' => absurd hn' hn, fun item hmem => ?_⟩
      rw [afterDelivery, completedItem, if_neg hn] at hmem
      exact h.pushes item (by simpa using hmem)
  · obtain ⟨hwaiting, -, hpushed⟩ := hstep
    refine ⟨fun hn => hwaiting ▸ h.sound hn, ?_⟩
    rw [PushesComplete, hpushed]
    exact h.pushes

/-- The entries of the planner: nothing in them is `null`, and each has sources. -/
structure PlannerEntries (waiting : NodeWaiting) : Prop where
  not_null : ∀ k main, HasMain waiting.data k main → Slot.null ∉ main
  source : ∀ k main, HasMain waiting.data k main →
    ∃ sourceMain, (waiting.source.get? k).bind (·.get? .main) = some sourceMain

private theorem PlannerEntries.erase (h : PlannerEntries waiting) (k : ℕ) :
    PlannerEntries ⟨waiting.data.erase k, waiting.source.erase k⟩ where
  not_null := fun k' main hmain => h.not_null k' main (hasMain_erase.mp hmain).2
  source := fun k' main hmain => by
    obtain ⟨hne, hold⟩ := hasMain_erase.mp hmain
    obtain ⟨sourceMain, hsource⟩ := h.source k' main hold
    exact ⟨sourceMain, by rwa [InsertionMap.get?_erase, if_neg hne]⟩

/-- One item for an input of the node. -/
def itemFor (nodeName : String) (inputIndex : ℕ) : Delivery where
  connectionData := ⟨nodeName, .main, inputIndex⟩
  outputIndex := 0
  parentNodeName := ""
  nodeSuccessData := some [.value [{}]]
  runIndex := 0

/-- Deliveries to one input complete the entries that lack it, one after the other, up to one
that lacks another input, too. -/
private theorem exists_run_not_pushesComplete (hn : 1 < numberOfInputs w nodeName) {j : ℕ}
    (hi : i < numberOfInputs w nodeName) (hj : j < numberOfInputs w nodeName) (hij : i ≠ j)
    (hli : Lacks main i) (hlj : Lacks main j) (m : ℕ) (s : WaitingSystem)
    (hm : (nodeWaiting s.engine nodeName).data.entries.length ≤ m)
    (hplanner : PlannerEntries (nodeWaiting s.engine nodeName))
    (hmain : HasMain (nodeWaiting s.engine nodeName).data k main)
    (hreaches : Reaches (nodeWaiting s.engine nodeName).data k) :
    ∃ s', ∃ _ : Run (step w nodeName) s s', ¬s'.PushesComplete w nodeName := by
  induction m generalizing s with
  | zero =>
    obtain ⟨entry, hget, -⟩ := get?_of_hasMain hmain
    have hmem := InsertionMap.get?_eq_some_iff.mp hget
    rw [List.length_eq_zero_iff.mp (Nat.le_zero.mp hm)] at hmem
    exact absurd hmem List.not_mem_nil
  | succ m ih =>
    obtain ⟨k', hle, hfind⟩ := exists_findWaitingNodeIndex hmain hlj hreaches
    obtain ⟨⟨main', hmain', hlacks'⟩, -⟩ := hasMain_of_findWaitingNodeIndex hfind
    obtain ⟨sourceMain, hsource⟩ := hplanner.source k' main' hmain'
    obtain ⟨data, source', hfill, hdata⟩ : ∃ data source',
        (nodeWaiting s.engine nodeName).fill k' j (.value [{}]) (itemFor nodeName j).source
          = (⟨(nodeWaiting s.engine nodeName).data.erase k',
            (nodeWaiting s.engine nodeName).source.erase k'⟩, .ok (.complete data source')) ∧
        data.get? .main = some (SparseArray.setAt .hole main' j (.value [{}])) :=
      fill_complete hmain' hsource (hplanner.not_null k' main' hmain')
    have hd : deliverTo w (itemFor nodeName j) s.engine = (⟨(nodeWaiting s.engine
        nodeName).data.erase k', (nodeWaiting s.engine nodeName).source.erase k'⟩,
          .ok (.complete data source')) := by
      rw [deliverTo, NodeWaiting.deliver]
      simp only [itemFor, hfind]
      exact hfill
    have hstep : s.step w nodeName (.deliver (itemFor nodeName j))
        (s.afterDelivery w (itemFor nodeName j)) := ⟨⟨rfl, hj, rfl⟩, rfl⟩
    have hcompleted : completedItem w (itemFor nodeName j) s.engine
        = some { node := workflowNode w nodeName, data, source := some source' } := by
      have hnode : 1 < numberOfInputs w (itemFor nodeName j).connectionData.node := hn
      rw [completedItem, if_pos hnode, hd]
      rfl
    have hpushed : { node := workflowNode w nodeName, data, source := some source' }
        ∈ (s.afterDelivery w (itemFor nodeName j)).pushed := by
      rw [afterDelivery, hcompleted]
      exact List.mem_append_right _ (List.mem_singleton.mpr rfl)
    by_cases hk : k' = k
    · subst hk
      refine ⟨s.afterDelivery w (itemFor nodeName j),
        .head (.deliver (itemFor nodeName j)) hstep (.refl _), fun hall => ?_⟩
      obtain ⟨main₁, hmain₁, hfull⟩ := hall _ hpushed
      rw [hdata] at hmain₁
      obtain rfl := Option.some.inj hmain₁
      have hsame : main' = main := Option.some.inj (hmain'.symm.trans hmain)
      exact hfull i hi (lacks_setAt.mpr ⟨hij, hsame ▸ hli⟩)
    · have hmain'' : HasMain ((nodeWaiting s.engine nodeName).data.erase k') k main :=
        hasMain_erase.mpr ⟨Ne.symm hk, hmain⟩
      have hlen : ((nodeWaiting s.engine nodeName).data.erase k').entries.length ≠ 0 := by
        obtain ⟨entry, hget, -⟩ := get?_of_hasMain hmain''
        exact (List.length_pos_of_mem (InsertionMap.get?_eq_some_iff.mp hget)).ne'
      have hwaiting := nodeWaiting_of_complete (d := itemFor nodeName j) hn hd
        fun h => absurd h hlen
      obtain ⟨entry', hget', -⟩ := get?_of_hasMain hmain'
      have hshorter := (InsertionMap.entries_perm_of_get? hget').length_eq
      rw [List.length_cons] at hshorter
      have hless : ((nodeWaiting s.engine nodeName).data.erase k').entries.length ≤ m := by omega
      have hreaches' : Reaches ((nodeWaiting s.engine nodeName).data.erase k') k := by
        intro k'' hlt hkey
        obtain ⟨entry, hentry⟩ := InsertionMap.mem_keys.mp hkey
        obtain ⟨hentry, hne⟩ := InsertionMap.mem_erase.mp hentry
        obtain ⟨main'', hm''⟩ := hreaches k'' hlt (InsertionMap.mem_keys.mpr ⟨entry, hentry⟩)
        exact ⟨main'', hasMain_erase.mpr ⟨hne, hm''⟩⟩
      have hnext : nodeWaiting (s.afterDelivery w (itemFor nodeName j)).engine nodeName
          = ⟨(nodeWaiting s.engine nodeName).data.erase k',
            (nodeWaiting s.engine nodeName).source.erase k'⟩ := hwaiting
      obtain ⟨s', r, hbad⟩ := ih (s.afterDelivery w (itemFor nodeName j))
        (by rw [hnext]; exact hless) (by rw [hnext]; exact hplanner.erase k')
        (by rw [hnext]; exact hmain'') (by rw [hnext]; exact hreaches')
      exact ⟨s', .head (.deliver (itemFor nodeName j)) hstep r, hbad⟩

/-! ### The entries of the planner -/

/-- The state in which a partial execution starts. -/
def resume (r : RecreatedStack) (runData : IRunData) (pinData : IPinData) : IRunExecutionData where
  nodeExecutionStack := r.nodeExecutionStack
  waitingExecution := r.waitingExecution
  waitingExecutionSource := some r.waitingExecutionSource
  runData
  pinData := some pinData

/-- Some main connection of the group carries data. -/
def HasMainData (runData : IRunData) (connections : List GraphConnection) : Prop :=
  ∃ c ∈ connections, c.type = .main ∧ Carries runData c

/-- A main connection of the group carries data into the input. -/
def Fills (runData : IRunData) (connections : List GraphConnection) (i : ℕ) : Prop :=
  ∃ c ∈ connections, (c.type = .main ∧ c.inputIndex = i) ∧ Carries runData c

instance (runData : IRunData) (connections : List GraphConnection) :
    Decidable (HasMainData runData connections) :=
  inferInstanceAs (Decidable (∃ c ∈ connections, _))

instance (runData : IRunData) (connections : List GraphConnection) (i : ℕ) :
    Decidable (Fills runData connections i) :=
  inferInstanceAs (Decidable (∃ c ∈ connections, _))

/-- At most one of `n` inputs is not filled. -/
def LacksAtMostOne (runData : IRunData) (n : ℕ) (connections : List GraphConnection) : Prop :=
  ∀ i < n, ∀ j < n, ¬Fills runData connections i → ¬Fills runData connections j → i = j

instance (runData : IRunData) (n : ℕ) (connections : List GraphConnection) :
    Decidable (LacksAtMostOne runData n connections) :=
  inferInstanceAs (Decidable (∀ i < n, ∀ j < n, _))

/-- Every group with main data, up to the first without, lacks at most one of `n` inputs. -/
def GroupsFill (runData : IRunData) (n : ℕ) (groups : List (List GraphConnection)) : Prop :=
  ∀ k < groups.length, HasMainData runData (groups.getD k []) →
    (∀ k' < k, HasMainData runData (groups.getD k' [])) →
      LacksAtMostOne runData n (groups.getD k [])

instance (runData : IRunData) (n : ℕ) (groups : List (List GraphConnection)) :
    Decidable (GroupsFill runData n groups) :=
  inferInstanceAs (Decidable (∀ k < groups.length, _))

variable {localeCompare : String → String → ℤ} {g : DirectedGraph}
  {startNodes : InsertionSet INode} {runData : IRunData} {pinData : IPinData} {r : RecreatedStack}
  {groups : List (List GraphConnection)}

private theorem data_nodeWaiting_resume (r : RecreatedStack) (runData : IRunData)
    (pinData : IPinData) (nodeName : String) :
    (nodeWaiting (resume r runData pinData) nodeName).data
      = (r.waitingExecution.get? nodeName).getD .empty := by
  simp only [nodeWaiting, resume]
  rcases r.waitingExecution.get? nodeName with _ | entries
  · rfl
  · rfl

/-- What an entry of the planner has, in terms of its group. -/
private theorem hasMain_iff_of_entriesFor
    (h : EntriesFor runData nodeName groups r.waitingExecution) :
    (∃ main, HasMain (nodeWaiting (resume r runData pinData) nodeName).data k main) ↔
      k < groups.length ∧ HasMainData runData (groups.getD k []) := by
  rw [data_nodeWaiting_resume]
  constructor
  · rintro ⟨main, hmain⟩
    obtain ⟨entry, hget, hentry⟩ := get?_of_hasMain hmain
    have hk : k ∈ ((r.waitingExecution.get? nodeName).getD .empty).keys :=
      InsertionMap.mem_keys.mpr ⟨entry, InsertionMap.get?_eq_some_iff.mp hget⟩
    rw [h.keys, List.mem_range] at hk
    refine ⟨hk, ?_⟩
    obtain ⟨entry', hget', hfor⟩ := h.entry k _ (List.getElem?_eq_getElem hk)
    obtain rfl := Option.some.inj (hget.symm.trans hget')
    rw [List.getD_eq_getElem _ _ hk]
    exact (hfor.type_iff .main).mp (by rw [hentry]; rfl)
  · rintro ⟨hk, hdata⟩
    rw [List.getD_eq_getElem _ _ hk] at hdata
    obtain ⟨entry, hget, hfor⟩ := h.entry k _ (List.getElem?_eq_getElem hk)
    obtain ⟨main, hmain⟩ := Option.isSome_iff_exists.mp ((hfor.type_iff .main).mpr hdata)
    exact ⟨main, hasMain_of_get? hget hmain⟩

private theorem lacks_iff_of_entriesFor
    (h : EntriesFor runData nodeName groups r.waitingExecution)
    (hmain : HasMain (nodeWaiting (resume r runData pinData) nodeName).data k main) :
    (∀ i, Lacks main i ↔ ¬Fills runData (groups.getD k []) i) ∧ Slot.null ∉ main := by
  have hk := ((hasMain_iff_of_entriesFor h).mp ⟨main, hmain⟩).1
  rw [data_nodeWaiting_resume] at hmain
  obtain ⟨entry, hget, hentry⟩ := get?_of_hasMain hmain
  obtain ⟨entry', hget', hfor⟩ := h.entry k _ (List.getElem?_eq_getElem hk)
  obtain rfl := Option.some.inj (hget.symm.trans hget')
  rw [List.getD_eq_getElem _ _ hk]
  refine ⟨fun i => ?_, ?_⟩
  · have hvalue := hfor.value_iff .main i
    rw [hentry, Option.getD_some] at hvalue
    rw [Lacks, ← Bool.not_eq_true, hvalue]
    rfl
  · have hnull := hfor.not_null .main
    rwa [hentry, Option.getD_some] at hnull

private theorem reaches_iff_of_entriesFor
    (h : EntriesFor runData nodeName groups r.waitingExecution) (hk : k < groups.length) :
    Reaches (nodeWaiting (resume r runData pinData) nodeName).data k ↔
      ∀ k' < k, HasMainData runData (groups.getD k' []) := by
  refine forall₂_congr fun k' hlt => ?_
  have hk' : k' < groups.length := hlt.trans hk
  rw [hasMain_iff_of_entriesFor h, data_nodeWaiting_resume, h.keys, List.mem_range]
  exact ⟨fun hin => (hin hk').2, fun hdata _ => ⟨hk', hdata⟩⟩

private theorem soundEntries_resume (h : EntriesFor runData nodeName groups r.waitingExecution)
    (hfill : GroupsFill runData n groups) :
    SoundEntries n (nodeWaiting (resume r runData pinData) nodeName).data := by
  intro k main hmain hreaches
  obtain ⟨hk, hdata⟩ := (hasMain_iff_of_entriesFor h).mp ⟨main, hmain⟩
  obtain ⟨hlacks, hnull⟩ := lacks_iff_of_entriesFor h hmain
  refine Or.inr ⟨hnull, fun i hi j hj hli hlj => ?_⟩
  exact hfill k hk hdata ((reaches_iff_of_entriesFor h hk).mp hreaches) i hi j hj
    ((hlacks i).mp hli) ((hlacks j).mp hlj)

private theorem plannerEntries_resume (h : EntriesFor runData nodeName groups r.waitingExecution)
    (hpaired : WaitingPaired g runData (r.waitingExecution, r.waitingExecutionSource)) :
    PlannerEntries (nodeWaiting (resume r runData pinData) nodeName) where
  not_null := fun k main hmain => (lacks_iff_of_entriesFor h hmain).2
  source := fun k main hmain => by
    rcases hwaiting : r.waitingExecution.get? nodeName with _ | entries
    · rw [data_nodeWaiting_resume, hwaiting] at hmain
      cases hmain
    · rw [data_nodeWaiting_resume, hwaiting] at hmain
      rcases hpaired nodeName k .main with ⟨hnone, -⟩ | ⟨-, source, -, hsource, -⟩
      · rw [WaitingSlots.slots, hwaiting] at hnone
        exact absurd (hnone.symm.trans hmain) (by simp)
      · refine ⟨source, ?_⟩
        simp only [nodeWaiting, resume, hwaiting, Option.getD_some]
        rw [WaitingSlots.slots] at hsource
        rcases hs : r.waitingExecutionSource.get? nodeName with _ | sources
        · rw [hs] at hsource
          cases hsource
        · rw [hs] at hsource
          exact hsource

/-- Three sources on the inputs of a node. -/
def tripleGraph : DirectedGraph :=
  ((((DirectedGraph.empty.addNodes [source1, source2, { name := "source3" }, target]).setConnection
    { fromNode := source1, toNode := target }).setConnection
    { fromNode := source2, toNode := target, inputIndex := 1 })).setConnection
    { fromNode := { name := "source3" }, toNode := target, inputIndex := 2 }

/-- The first source ran. -/
def firstRunData : IRunData := InsertionMap.empty.set "source1" [runWith [{}]]

/-- The settings of a workflow, in the order `v1`. -/
def v1Parameters : WorkflowParameters :=
  { nodes := [], connections := .empty, executionOrder := some "v1" }

/-- The item of the second source. -/
def secondDelivery : Delivery where
  connectionData := ⟨"node", .main, 1⟩
  outputIndex := 0
  parentNodeName := "source2"
  nodeSuccessData := some [.value [{}]]
  runIndex := 0

end WaitingSystem

end WorkflowExecute

end N8n
