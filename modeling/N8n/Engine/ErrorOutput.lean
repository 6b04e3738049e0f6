import N8n.Engine.NodeOutput

/-!
# Where the items of a node go

`handleNodeErrorOutput` divides the items of the regular outputs of a node: those without an error
stay, and those with one are collected for the last main output, the error output. It then assigns
them to the error output, so an item that was there already is lost; and it throws where the item
that an item with an error is linked to cannot be looked up, which loses the items that it had taken
out until then. In every other case all items are kept (`conservesItems_iff`).
-/

namespace N8n

namespace WorkflowExecute

open RequestsResponse

variable {env : NodeFunctions} {st : IRunExecutionData} {executionData : IExecuteData}
  {runIndex : ℕ} {nodeSuccessData outputs : NodeOutputs}

/-- The items of an output. -/
def itemsAt (nodeSuccessData : NodeOutputs) (outputIndex : ℕ) : List INodeExecutionData :=
  ((SparseArray.getAt .hole nodeSuccessData outputIndex).toOption).getD []

/-- The items with an error of some outputs. -/
def errorItemsAt (nodeSuccessData : NodeOutputs) (outputIndexes : List ℕ) :
    List INodeExecutionData :=
  outputIndexes.flatMap fun outputIndex => (itemsAt nodeSuccessData outputIndex).filter hasErrorData

/-- An item as it is in the error output: it may have fields of the item it is linked to beneath its
own. -/
def IsRebuilt (item item' : INodeExecutionData) : Prop :=
  item' = item ∨ ∃ json, item' = { item with json := JsonValue.spread json item.json }

/-- Every item is in one output afterwards: items without an error where they were, in their order,
and those with an error in the error output, beside the items that were there. -/
structure ConservesItems (env : NodeFunctions) (st : IRunExecutionData)
    (executionData : IExecuteData) (nodeSuccessData : NodeOutputs) (runIndex : ℕ)
    (outputs : NodeOutputs) : Prop where
  regular : ∀ outputIndex, outputIndex + 1 < env.mainOutputs executionData.node →
    itemsAt outputs outputIndex =
      (itemsAt nodeSuccessData outputIndex).filter fun item => !hasErrorData item
  error : 0 < env.mainOutputs executionData.node → ∃ rebuilt,
    List.Forall₂ IsRebuilt
      (errorItemsAt nodeSuccessData (List.range (env.mainOutputs executionData.node - 1)))
      rebuilt ∧
    (itemsAt outputs (env.mainOutputs executionData.node - 1)).Perm
      (itemsAt nodeSuccessData (env.mainOutputs executionData.node - 1) ++ rebuilt)
  beyond : ∀ outputIndex, env.mainOutputs executionData.node ≤ outputIndex →
    itemsAt outputs outputIndex = itemsAt nodeSuccessData outputIndex

/-! ### The item that an item is linked to -/

/-- The source of the item that an item is linked to is known, and the item can be looked up there.
An entry without a source, and an item without a link, need none. -/
def FindsSource (env : NodeFunctions) (st : IRunExecutionData) (executionData : IExecuteData)
    (runIndex : ℕ) (item : INodeExecutionData) : Prop :=
  ∀ source, executionData.source = some source → ∀ data, pairedItemData item = some data →
    ∃ main sourceData found, source.get? .main = some main ∧
      SparseArray.getAt .hole main (data.input.getD 0) = .value sourceData ∧
      env.getPairedItem st executionData runIndex sourceData data = .ok found

/-- What comes of an item with an error when the slot of its source is read. -/
theorem errorItem_eq {item : INodeExecutionData} {source : ITaskDataConnectionsSource}
    {data : IPairedItemData} {main : List (Slot ISourceData)}
    (hsource : executionData.source = some source) (hdata : pairedItemData item = some data)
    (hmain : source.get? .main = some main) :
    errorItem env st executionData runIndex item =
      match SparseArray.getAt .hole main (data.input.getD 0) with
      | .value sourceData =>
        (env.getPairedItem st executionData runIndex sourceData data).map fun constPairedItem =>
          match constPairedItem with
          | none => item
          | some constPairedItem =>
            { item with json := JsonValue.spread constPairedItem.json item.json }
      | _ => .error typeError := by
  rw [errorItem, hsource, hdata]
  dsimp only
  rw [hmain]
  dsimp only
  cases SparseArray.getAt .hole main (data.input.getD 0) with
  | hole => rfl
  | null => rfl
  | value sourceData =>
    cases hfound : env.getPairedItem st executionData runIndex sourceData data with
    | error e =>
      dsimp only
      rw [hfound]
      rfl
    | ok constPairedItem =>
      dsimp only
      rw [hfound]
      cases constPairedItem with
      | none => rfl
      | some constPairedItem => rfl

theorem errorItem_ok_iff {item : INodeExecutionData} :
    (∃ item', errorItem env st executionData runIndex item = .ok item') ↔
      FindsSource env st executionData runIndex item := by
  rw [FindsSource]
  cases hsource : executionData.source with
  | none =>
    rw [errorItem, hsource]
    exact iff_of_true ⟨_, rfl⟩ nofun
  | some source =>
    cases hdata : pairedItemData item with
    | none =>
      rw [errorItem, hsource, hdata]
      exact iff_of_true ⟨_, rfl⟩ fun _ _ => nofun
    | some data =>
      simp only [Option.some.injEq, forall_eq']
      cases hmain : source.get? .main with
      | none =>
        rw [errorItem, hsource, hdata]
        dsimp only
        rw [hmain]
        simp only [reduceCtorEq, exists_false, false_and]
      | some main =>
        rw [errorItem_eq hsource hdata hmain]
        simp only [Option.some.injEq, exists_and_left, exists_eq_left']
        cases SparseArray.getAt .hole main (data.input.getD 0) with
        | hole => simp only [reduceCtorEq, exists_false, false_and]
        | null => simp only [reduceCtorEq, exists_false, false_and]
        | value sourceData =>
          simp only [Slot.value.injEq, exists_eq_left']
          cases env.getPairedItem st executionData runIndex sourceData data with
          | error e => simp only [Except.map, reduceCtorEq, exists_false]
          | ok constPairedItem => exact iff_of_true ⟨_, rfl⟩ ⟨_, rfl⟩

theorem isRebuilt_of_errorItem {item item' : INodeExecutionData}
    (h : errorItem env st executionData runIndex item = .ok item') : IsRebuilt item item' := by
  cases hsource : executionData.source with
  | none =>
    rw [errorItem, hsource] at h
    exact .inl (Except.ok.inj h).symm
  | some source =>
    cases hdata : pairedItemData item with
    | none =>
      rw [errorItem, hsource, hdata] at h
      exact .inl (Except.ok.inj h).symm
    | some data =>
      obtain ⟨main, sourceData, found, hmain, hslot, hfound⟩ :=
        errorItem_ok_iff.mp ⟨item', h⟩ source hsource data hdata
      rw [errorItem_eq hsource hdata hmain, hslot] at h
      dsimp only at h
      rw [hfound] at h
      cases found with
      | none => exact .inl (Except.ok.inj h).symm
      | some constPairedItem => exact .inr ⟨constPairedItem.json, (Except.ok.inj h).symm⟩

/-! ### One output -/

/-- Items whose sources are found are divided; both parts keep their order. -/
theorem divideItems_ok {rebuild : INodeExecutionData → Except ExecutionError INodeExecutionData}
    (items successItems errorItems : List INodeExecutionData)
    (h : ∀ item ∈ items.filter hasErrorData, ∃ item', rebuild item = .ok item') :
    ∃ rebuilt, divideItems rebuild items successItems errorItems =
        .ok (successItems ++ items.filter (fun item => !hasErrorData item), errorItems ++ rebuilt) ∧
      List.Forall₂ (fun item item' => rebuild item = .ok item') (items.filter hasErrorData)
        rebuilt := by
  induction items generalizing successItems errorItems with
  | nil => exact ⟨[], by simp [divideItems], .nil⟩
  | cons item items ih =>
    rw [divideItems]
    by_cases herror : hasErrorData item = true
    · rw [List.filter_cons_of_pos herror, List.forall_mem_cons] at h
      obtain ⟨⟨item', hitem⟩, hrest⟩ := h
      obtain ⟨rebuilt, hdivide, hforall⟩ := ih successItems (errorItems ++ [item']) hrest
      refine ⟨item' :: rebuilt, ?_, ?_⟩
      · rw [if_pos herror, hitem, List.filter_cons_of_neg (by simp [herror])]
        dsimp only
        rw [hdivide, List.append_assoc, List.singleton_append]
      · rw [List.filter_cons_of_pos herror]
        exact .cons hitem hforall
    · rw [List.filter_cons_of_neg herror] at h ⊢
      obtain ⟨rebuilt, hdivide, hforall⟩ := ih (successItems ++ [item]) errorItems h
      refine ⟨rebuilt, ?_, hforall⟩
      rw [if_neg herror, hdivide, List.filter_cons_of_pos (by simp [herror]), List.append_assoc,
        List.singleton_append]

/-- An item whose source is not found ends it. -/
theorem divideItems_error {rebuild : INodeExecutionData → Except ExecutionError INodeExecutionData}
    (items successItems errorItems : List INodeExecutionData)
    (h : ¬ ∀ item ∈ items.filter hasErrorData, ∃ item', rebuild item = .ok item') :
    ∃ r, divideItems rebuild items successItems errorItems = .error r := by
  induction items generalizing successItems errorItems with
  | nil => exact absurd (fun _ hitem => absurd hitem List.not_mem_nil) h
  | cons item items ih =>
    rw [divideItems]
    by_cases herror : hasErrorData item = true
    · rw [List.filter_cons_of_pos herror, List.forall_mem_cons, not_and] at h
      rw [if_pos herror]
      cases hitem : rebuild item with
      | error e => exact ⟨_, rfl⟩
      | ok item' => exact ih _ _ (h ⟨item', hitem⟩)
    · rw [List.filter_cons_of_neg herror] at h
      rw [if_neg herror]
      exact ih _ _ h

/-! ### All outputs -/

theorem itemsAt_setAt (nodeSuccessData : NodeOutputs) (i j : ℕ) (items : List INodeExecutionData) :
    itemsAt (SparseArray.setAt .hole nodeSuccessData i (.value items)) j =
      if j = i then items else itemsAt nodeSuccessData j := by
  rw [itemsAt, SparseArray.getAt_setAt]
  split_ifs
  · rfl
  · rfl

theorem divideOutputs_cons
    (rebuild : INodeExecutionData → Except ExecutionError INodeExecutionData) (a : ℕ)
    (outputIndexes : List ℕ) (nodeSuccessData : NodeOutputs)
    (errorItems : List INodeExecutionData) :
    divideOutputs rebuild (a :: outputIndexes) nodeSuccessData errorItems =
      match divideItems rebuild (itemsAt nodeSuccessData a) [] errorItems with
      | .error (e, items) => (SparseArray.setAt .hole nodeSuccessData a (.value items), .error e)
      | .ok (successItems, errorItems) =>
        divideOutputs rebuild outputIndexes
          (SparseArray.setAt .hole nodeSuccessData a (.value successItems)) errorItems := rfl

/-- Outputs that are not written keep their items with an error. -/
theorem errorItemsAt_setAt {a : ℕ} {outputIndexes : List ℕ} (hnot : a ∉ outputIndexes)
    (nodeSuccessData : NodeOutputs) (items : List INodeExecutionData) :
    errorItemsAt (SparseArray.setAt .hole nodeSuccessData a (.value items)) outputIndexes =
      errorItemsAt nodeSuccessData outputIndexes := by
  refine List.flatMap_congr fun i hi => ?_
  rw [itemsAt_setAt, if_neg (ne_of_mem_of_not_mem hi hnot)]

/-- The outputs that are gone through keep their items without an error. -/
theorem divideOutputs_ok {rebuild : INodeExecutionData → Except ExecutionError INodeExecutionData}
    {outputIndexes : List ℕ} (hnodup : outputIndexes.Nodup) (nodeSuccessData : NodeOutputs)
    (errorItems : List INodeExecutionData)
    (h : ∀ item ∈ errorItemsAt nodeSuccessData outputIndexes,
      ∃ item', rebuild item = .ok item') :
    ∃ outputs rebuilt, divideOutputs rebuild outputIndexes nodeSuccessData errorItems =
        (outputs, .ok (errorItems ++ rebuilt)) ∧
      List.Forall₂ (fun item item' => rebuild item = .ok item')
        (errorItemsAt nodeSuccessData outputIndexes) rebuilt ∧
      (∀ i ∈ outputIndexes, itemsAt outputs i =
        (itemsAt nodeSuccessData i).filter fun item => !hasErrorData item) ∧
      ∀ i ∉ outputIndexes, itemsAt outputs i = itemsAt nodeSuccessData i := by
  induction outputIndexes generalizing nodeSuccessData errorItems with
  | nil => exact ⟨nodeSuccessData, [], by simp [divideOutputs], .nil, List.forall_mem_nil _,
      fun _ _ => rfl⟩
  | cons a outputIndexes ih =>
    obtain ⟨hnot, hnodup⟩ := List.nodup_cons.mp hnodup
    rw [errorItemsAt, List.flatMap_cons, List.forall_mem_append] at h
    obtain ⟨ha, hrest⟩ := h
    obtain ⟨rebuilt, hdivide, hforall⟩ := divideItems_ok _ [] errorItems ha
    rw [List.nil_append] at hdivide
    let remaining := SparseArray.setAt .hole nodeSuccessData a
      (.value ((itemsAt nodeSuccessData a).filter fun item => !hasErrorData item))
    have herrors : errorItemsAt remaining outputIndexes =
        errorItemsAt nodeSuccessData outputIndexes := errorItemsAt_setAt hnot _ _
    obtain ⟨outputs, rebuilt', heq, hforall', hmem, hother⟩ :=
      ih hnodup remaining (errorItems ++ rebuilt) (herrors ▸ hrest)
    refine ⟨outputs, rebuilt ++ rebuilt', ?_, ?_, ?_, ?_⟩
    · rw [divideOutputs_cons, hdivide, ← List.append_assoc]
      exact heq
    · rw [herrors] at hforall'
      exact List.rel_append hforall hforall'
    · refine List.forall_mem_cons.mpr ⟨?_, fun i hi => ?_⟩
      · rw [hother a hnot, itemsAt_setAt, if_pos rfl]
      · rw [hmem i hi, itemsAt_setAt, if_neg (ne_of_mem_of_not_mem hi hnot)]
    · intro i hi
      rw [List.mem_cons, not_or] at hi
      rw [hother i hi.2, itemsAt_setAt, if_neg hi.1]

/-- When a source is not found, the outputs that are not gone through are as they were. -/
theorem divideOutputs_error
    {rebuild : INodeExecutionData → Except ExecutionError INodeExecutionData}
    {outputIndexes : List ℕ} (hnodup : outputIndexes.Nodup) (nodeSuccessData : NodeOutputs)
    (errorItems : List INodeExecutionData)
    (h : ¬ ∀ item ∈ errorItemsAt nodeSuccessData outputIndexes,
      ∃ item', rebuild item = .ok item') :
    ∃ outputs e, divideOutputs rebuild outputIndexes nodeSuccessData errorItems =
        (outputs, .error e) ∧
      ∀ i ∉ outputIndexes, itemsAt outputs i = itemsAt nodeSuccessData i := by
  induction outputIndexes generalizing nodeSuccessData errorItems with
  | nil => exact absurd (fun _ hitem => absurd hitem List.not_mem_nil) h
  | cons a outputIndexes ih =>
    obtain ⟨hnot, hnodup⟩ := List.nodup_cons.mp hnodup
    rw [errorItemsAt, List.flatMap_cons, List.forall_mem_append, not_and] at h
    by_cases ha : ∀ item ∈ (itemsAt nodeSuccessData a).filter hasErrorData,
        ∃ item', rebuild item = .ok item'
    · obtain ⟨rebuilt, hdivide, -⟩ := divideItems_ok _ [] errorItems ha
      let remaining := SparseArray.setAt .hole nodeSuccessData a
        (.value ((itemsAt nodeSuccessData a).filter fun item => !hasErrorData item))
      have herrors : errorItemsAt remaining outputIndexes =
          errorItemsAt nodeSuccessData outputIndexes := errorItemsAt_setAt hnot _ _
      obtain ⟨outputs, e, heq, hother⟩ :=
        ih hnodup remaining (errorItems ++ rebuilt) (herrors ▸ h ha)
      refine ⟨outputs, e, ?_, fun i hi => ?_⟩
      · rw [divideOutputs_cons, hdivide]
        exact heq
      · rw [List.mem_cons, not_or] at hi
        rw [hother i hi.2, itemsAt_setAt, if_neg hi.1]
    · obtain ⟨⟨e, items⟩, hdivide⟩ := divideItems_error _ [] errorItems ha
      refine ⟨SparseArray.setAt .hole nodeSuccessData a (.value items), e, ?_, fun i hi => ?_⟩
      · rw [divideOutputs_cons, hdivide]
      · rw [List.mem_cons, not_or] at hi
        rw [itemsAt_setAt, if_neg hi.1]

/-! ### The error output -/

/-- What becomes of the outputs when all sources are found. -/
theorem handleNodeErrorOutput_ok (hnode : 0 < env.mainOutputs executionData.node)
    (h : ∀ item ∈ errorItemsAt nodeSuccessData
        (List.range (env.mainOutputs executionData.node - 1)),
      FindsSource env st executionData runIndex item) :
    ∃ outputs rebuilt,
      handleNodeErrorOutput env st executionData nodeSuccessData runIndex = (outputs, .ok ()) ∧
      List.Forall₂ IsRebuilt (errorItemsAt nodeSuccessData
        (List.range (env.mainOutputs executionData.node - 1))) rebuilt ∧
      ∀ i, itemsAt outputs i =
        if i = env.mainOutputs executionData.node - 1 then rebuilt
        else if i < env.mainOutputs executionData.node then
          (itemsAt nodeSuccessData i).filter fun item => !hasErrorData item
        else itemsAt nodeSuccessData i := by
  obtain ⟨outputs, rebuilt, heq, hforall, hmem, hother⟩ := divideOutputs_ok List.nodup_range
    nodeSuccessData [] fun item hitem => errorItem_ok_iff.mpr (h item hitem)
  refine ⟨SparseArray.setAt .hole outputs (env.mainOutputs executionData.node - 1)
    (.value rebuilt), rebuilt, ?_, hforall.imp fun _ _ => isRebuilt_of_errorItem, fun i => ?_⟩
  · rw [handleNodeErrorOutput, heq]
    dsimp only
    rw [if_neg hnode.ne', List.nil_append]
  · rw [itemsAt_setAt]
    split_ifs with hi hlt
    · rfl
    · exact hmem i (List.mem_range.mpr (by omega))
    · exact hother i fun hmem => hlt (by
        have := List.mem_range.mp hmem
        omega)

/-- When a source is not found, the error output is not written. -/
theorem handleNodeErrorOutput_error
    (h : ¬ ∀ item ∈ errorItemsAt nodeSuccessData
        (List.range (env.mainOutputs executionData.node - 1)),
      FindsSource env st executionData runIndex item) :
    ∃ outputs e,
      handleNodeErrorOutput env st executionData nodeSuccessData runIndex = (outputs, .error e) ∧
      itemsAt outputs (env.mainOutputs executionData.node - 1) =
        itemsAt nodeSuccessData (env.mainOutputs executionData.node - 1) := by
  simp only [← errorItem_ok_iff] at h
  obtain ⟨outputs, e, heq, hother⟩ := divideOutputs_error List.nodup_range nodeSuccessData [] h
  refine ⟨outputs, e, ?_, hother _ fun hmem => Nat.lt_irrefl _ (List.mem_range.mp hmem)⟩
  rw [handleNodeErrorOutput, heq]

theorem forall_errorItemsAt_iff {p : INodeExecutionData → Prop} {n : ℕ} :
    (∀ item ∈ errorItemsAt nodeSuccessData (List.range (n - 1)), p item) ↔
      ∀ outputIndex, outputIndex + 1 < n →
        ∀ item ∈ itemsAt nodeSuccessData outputIndex, hasErrorData item = true → p item := by
  simp only [errorItemsAt, List.mem_flatMap, List.mem_range, List.mem_filter]
  constructor
  · intro h outputIndex hlt item hitem herror
    exact h item ⟨outputIndex, by omega, hitem, herror⟩
  · rintro h item ⟨outputIndex, hlt, hitem, herror⟩
    exact h outputIndex (by omega) item hitem herror

/-- **When no item is lost**: the error output held none before, and the source of every item with
an error in another output is found. -/
theorem conservesItems_iff (env : NodeFunctions) (st : IRunExecutionData)
    (executionData : IExecuteData) (nodeSuccessData : NodeOutputs) (runIndex : ℕ) :
    ConservesItems env st executionData nodeSuccessData runIndex
        (handleNodeErrorOutput env st executionData nodeSuccessData runIndex).1 ↔
      (0 < env.mainOutputs executionData.node →
        itemsAt nodeSuccessData (env.mainOutputs executionData.node - 1) = []) ∧
      ∀ outputIndex, outputIndex + 1 < env.mainOutputs executionData.node →
        ∀ item ∈ itemsAt nodeSuccessData outputIndex, hasErrorData item = true →
          FindsSource env st executionData runIndex item := by
  rw [← forall_errorItemsAt_iff]
  obtain hzero | hpos := Nat.eq_zero_or_pos (env.mainOutputs executionData.node)
  · -- without main outputs nothing moves
    have hsame : (handleNodeErrorOutput env st executionData nodeSuccessData runIndex).1 =
        nodeSuccessData := by
      rw [handleNodeErrorOutput, hzero]
      rfl
    rw [hsame, hzero]
    refine iff_of_true ⟨?_, ?_, fun _ _ => rfl⟩ ⟨nofun, nofun⟩
    · rw [hzero]
      exact nofun
    · rw [hzero]
      exact nofun
  · simp only [hpos, true_imp_iff]
    by_cases hfinds : ∀ item ∈ errorItemsAt nodeSuccessData
        (List.range (env.mainOutputs executionData.node - 1)),
        FindsSource env st executionData runIndex item
    · obtain ⟨outputs, rebuilt, heq, hforall, hitems⟩ := handleNodeErrorOutput_ok hpos hfinds
      rw [heq, and_iff_left hfinds]
      constructor
      · intro h
        obtain ⟨rebuilt', hforall', hperm⟩ := h.error hpos
        rw [hitems, if_pos rfl] at hperm
        have hlength := hperm.length_eq
        rw [List.length_append, ← hforall.length_eq, hforall'.length_eq] at hlength
        exact List.length_eq_zero_iff.mp (by omega)
      · intro hempty
        refine ⟨fun i hi => ?_, fun _ => ⟨rebuilt, hforall, ?_⟩, fun i hi => ?_⟩
        · rw [hitems, if_neg (by omega), if_pos (by omega)]
        · rw [hitems, if_pos rfl, hempty, List.nil_append]
        · rw [hitems, if_neg (by omega), if_neg (by omega)]
    · obtain ⟨outputs, e, heq, hsame⟩ := handleNodeErrorOutput_error hfinds
      rw [heq]
      refine iff_of_false (fun h => ?_) fun h => hfinds h.2
      -- the error output has as many items as before, but there is an item for it
      obtain ⟨rebuilt, hforall, hperm⟩ := h.error hpos
      rw [hsame] at hperm
      have hlength := hperm.length_eq
      rw [List.length_append, ← hforall.length_eq] at hlength
      have hnil : errorItemsAt nodeSuccessData
          (List.range (env.mainOutputs executionData.node - 1)) = [] :=
        List.length_eq_zero_iff.mp (by omega)
      exact hfinds (hnil ▸ nofun)

/-! ### An error output with an item -/

private def twoOutputs : NodeFunctions := ⟨fun _ => 2, fun _ _ _ _ _ => .ok none⟩

private def errorOutputEntry : IExecuteData where
  node := { name := "Node", onError := some .continueErrorOutput }
  data := .empty
  source := none

theorem not_conservesItems_errorOutput :
    ¬ ConservesItems twoOutputs {} errorOutputEntry [.value [], .value [{}]] 0
      (handleNodeErrorOutput twoOutputs {} errorOutputEntry [.value [], .value [{}]] 0).1 := by
  intro h
  obtain ⟨rebuilt, -, hperm⟩ := h.error (by decide)
  have hempty : itemsAt (handleNodeErrorOutput twoOutputs {} errorOutputEntry
      [.value [], .value [{}]] 0).1 1 = [] := by decide
  have hlength := hperm.length_eq
  have hone : itemsAt [.value [], .value [{}]] 1 = [{}] := by decide
  rw [List.length_append] at hlength
  change (itemsAt _ 1).length = (itemsAt _ 1).length + _ at hlength
  rw [hempty, hone] at hlength
  simp only [List.length_nil, List.length_singleton] at hlength
  omega

end WorkflowExecute

end N8n
