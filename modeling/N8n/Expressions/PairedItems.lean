import Mathlib.Data.Set.Finite.List
import N8n.Foundations.Convergence
import N8n.Foundations.Ranking
import N8n.Workflow.Interfaces

/-!
# Paired items

`$getPairedItem` finds the item of a node that an item comes from. Each item has links to items of
the inputs of its node, and the links are followed back until the node is met.

Items are objects, and two of them are compared as objects: `α` is the type of references to items,
and a run gives the links of each. Of the errors the model has what they are made from, not the
texts.
-/

namespace N8n

namespace PairedItems

universe u

/-- A link in the form in which an item has it. -/
inductive Link where
  | number (item : ℕ)
  | data (data : IPairedItemData)
  deriving DecidableEq, Repr

/-- The `pairedItem` of an item. -/
inductive Links where
  | one (link : Link)
  | many (links : List Link)
  deriving DecidableEq, Repr

/-- What the run of a node has left, as far as it is read here. -/
structure TaskData (α : Type u) where
  /-- `data?.main`, by the index of the output. -/
  main : Option (List (Option (List α)))
  source : List (Option ISourceData)

structure Execution (α : Type u) where
  runData : InsertionMap String (List (TaskData α))
  pinData : InsertionMap String (List α)
  /-- The mode is `manual`. -/
  manual : Bool
  pairedItem : α → Option Links

inductive PairedItemError where
  | pairedItemNotFound (destNode : String) (cause : Option String)
  | missingOutput (outputIndex : ℕ) (node : String) (cause : Option String)
  | missingPairedItem (cause methodName : String)
  | multipleItemsFound (destNode : String) (itemIndex : ℕ)
  | noConnection (cause : String)
  | branchNotFound (node : String) (item : ℕ) (cause : Option String)
  /-- A property of `undefined` is read. -/
  | typeError
  deriving DecidableEq, Repr

/-- `error.context.type`. -/
def PairedItemError.type : PairedItemError → Option String
  | pairedItemNotFound .. | missingPairedItem .. => some "paired_item_no_info"
  | missingOutput .. => some "internal"
  | multipleItemsFound .. => some "paired_item_multiple_matches"
  | noConnection _ => some "paired_item_no_connection"
  | branchNotFound .. => some "paired_item_invalid_info"
  | typeError => none

section Execution

variable {α : Type u} (run : Execution α)

def getPinDataIfManualExecution (nodeName : String) : Option (List α) :=
  if run.manual then run.pinData.get? nodeName else none

def pinDataToTask (pinData : List α) : TaskData α where
  main := some [some pinData]
  source := []

def getTaskData (source : ISourceData) : Option (TaskData α) :=
  ((run.runData.get? source.previousNode).bind fun runs => runs[source.previousNodeRun.getD 0]?) <|>
    (getPinDataIfManualExecution run source.previousNode).map pinDataToTask

/-- `taskData?.data?.main?.[outputIndex]`. -/
def output? (taskData : Option (TaskData α)) (source : ISourceData) : Option (List α) :=
  taskData.bind fun taskData => taskData.main.bind fun main =>
    (main[source.previousNodeOutput.getD 0]?).join

def getNodeOutput (taskData : Option (TaskData α)) (source : ISourceData)
    (nodeCause : Option String) : Except PairedItemError (List α) :=
  match output? taskData source with
  | none =>
    .error (.missingOutput (source.previousNodeOutput.getD 0) source.previousNode nodeCause)
  | some outputs => .ok outputs

def Link.normalize : Link → IPairedItemData
  | .number item => { item }
  | .data link => link

def normalizePairedItem : Option Links → List IPairedItemData
  | none => []
  | some (.one link) => [link.normalize]
  | some (.many links) => links.map Link.normalize

/-- The arguments of a call of `getPairedItem` that change from call to call. -/
structure Call where
  incomingSourceData : Option ISourceData
  initialPairedItem : IPairedItemData
  nodeBeforeLast : Option String := none
  deriving DecidableEq, Repr

/-- `pairedItem.sourceOverwrite || sourceData`. -/
def Call.sourceData (call : Call) : Option ISourceData :=
  call.initialPairedItem.sourceOverwrite <|> call.incomingSourceData

/-- `nextPairedItem.sourceOverwrite ?? sourceArray[inputIndex]`. -/
def nextSource (sourceArray : List (Option ISourceData)) (nextPairedItem : IPairedItemData) :
    Option ISourceData :=
  nextPairedItem.sourceOverwrite <|> (sourceArray[nextPairedItem.input.getD 0]?).join

def nextCall (source : ISourceData) (sourceArray : List (Option ISourceData))
    (nextPairedItem : IPairedItemData) : Call where
  incomingSourceData := nextSource sourceArray nextPairedItem
  initialPairedItem := { nextPairedItem with input := some (nextPairedItem.input.getD 0) }
  nodeBeforeLast := some source.previousNode

/-- The input of a link is one that the node has. -/
def hasInput (sourceArray : List (Option ISourceData)) (nextPairedItem : IPairedItemData) : Bool :=
  nextPairedItem.input.getD 0 < sourceArray.length

variable [DecidableEq α] (destinationNodeName usedMethodName : String)

/-- What `getPairedItem` makes of the results of the links. -/
def conclude (call : Call) (source : ISourceData) (sourceArray : List (Option ISourceData))
    (results : List (Except PairedItemError α)) : Except PairedItemError α :=
  if results.all fun result => !result.isOk then
    match results with
    | .error e :: _ => .error e
    -- `results[0].error` when there are none
    | _ => .error .typeError
  else
    match results.filterMap Except.toOption with
    | [] =>
      if sourceArray.isEmpty then .error (.noConnection destinationNodeName)
      else .error (.branchNotFound source.previousNode call.initialPairedItem.item
        call.nodeBeforeLast)
    | first :: rest =>
      if rest.any (· ≠ first) then
        .error (.multipleItemsFound destinationNodeName call.initialPairedItem.item)
      else .ok first

/-- `getPairedItem`, with a bound on the depth of the recursion. -/
def getPairedItem : ℕ → Call → Option (Except PairedItemError α)
  | 0, _ => none
  | fuel + 1, call =>
    match call.sourceData with
    | none => some (.error (.pairedItemNotFound destinationNodeName call.nodeBeforeLast))
    | some source =>
      let taskData := getTaskData run source
      let sourceArray := (taskData.map TaskData.source).getD []
      match getNodeOutput taskData source call.nodeBeforeLast with
      | .error e => some (.error e)
      | .ok outputData =>
        let item := outputData[call.initialPairedItem.item]?
        if source.previousNode = destinationNodeName then
          match item with
          | none => some (.error (.missingPairedItem source.previousNode usedMethodName))
          | some item => some (.ok item)
        else
          match item with
          | none => some (.error .typeError)
          | some item =>
            let nextPairedItems := normalizePairedItem (run.pairedItem item)
            if nextPairedItems.isEmpty then
              some (.error (.missingPairedItem source.previousNode usedMethodName))
            else do
              let results ← ((nextPairedItems.filter (hasInput sourceArray)).map
                (nextCall source sourceArray)).mapM (getPairedItem fuel)
              some (conclude destinationNodeName call source sourceArray results)

/-! ### What the links lead to -/

/-- The item that a source and an index stand for. -/
def itemAt (source : ISourceData) (item : ℕ) : Option α :=
  (output? (getTaskData run source) source).bind fun outputs => outputs[item]?

/-- The links of the item that a source and an index stand for. -/
def linksAt (source : ISourceData) (item : ℕ) : List IPairedItemData :=
  match itemAt run source item with
  | none => []
  | some x => normalizePairedItem (run.pairedItem x)

/-- Where the data of the node of a source came from, by its inputs. -/
def sourcesOf (source : ISourceData) : List (Option ISourceData) :=
  ((getTaskData run source).map TaskData.source).getD []

/-- The items of the destination that one gets to from the item of a source, along all links, until
the destination is met. -/
inductive Reaches : Option ISourceData → ℕ → α → Prop
  | here {source : ISourceData} {item : ℕ} {x : α} (hd : source.previousNode = destinationNodeName)
      (hx : itemAt run source item = some x) : Reaches (some source) item x
  | link {source : ISourceData} {item : ℕ} {x : α} {next : IPairedItemData}
      (hd : source.previousNode ≠ destinationNodeName) (hnext : next ∈ linksAt run source item)
      (hx : Reaches (nextSource (sourcesOf run source) next) next.item x) :
      Reaches (some source) item x

def ReachesOnly (source : Option ISourceData) (item : ℕ) (x : α) : Prop :=
  ∀ y, Reaches run destinationNodeName source item y ↔ y = x

def ReachesSeveral (source : Option ISourceData) (item : ℕ) : Prop :=
  ∃ x y, Reaches run destinationNodeName source item x ∧
    Reaches run destinationNodeName source item y ∧ x ≠ y

/-- One item links to another, both given by their source and index. -/
def linked (position : ISourceData × ℕ) : List (ISourceData × ℕ) :=
  (linksAt run position.1 position.2).filterMap fun next =>
    (nextSource (sourcesOf run position.1) next).map (·, next.item)

/-- No item leads back to itself. -/
def Acyclic : Prop :=
  ∀ position, ¬Relation.TransGen (fun p q => q ∈ linked run p) position position

/-- The resolution of a paired item is exact. -/
def ExactFor (call : Call) : Prop :=
  ∃ result, (∃ fuel, getPairedItem run destinationNodeName usedMethodName fuel call = some result) ∧
    (∀ x, result = .ok x ↔
      ReachesOnly run destinationNodeName call.sourceData call.initialPairedItem.item x) ∧
    (ReachesSeveral run destinationNodeName call.sourceData call.initialPairedItem.item →
      ∃ itemIndex, result = .error (.multipleItemsFound destinationNodeName itemIndex))

/-- A call asks for another one. -/
def Asks (call next : Call) : Prop :=
  ∃ source link, call.sourceData = some source ∧ source.previousNode ≠ destinationNodeName ∧
    link ∈ linksAt run source call.initialPairedItem.item ∧
    hasInput (sourcesOf run source) link = true ∧ next = nextCall source (sourcesOf run source) link

/-- The links of an item whose input is one that its node has. -/
def followedAt (source : ISourceData) (item : ℕ) : List IPairedItemData :=
  (linksAt run source item).filter (hasInput (sourcesOf run source))

/-- The links of an item do not hide what they lead to: one item that they lead to is met along a
link with an input of the node; and if they lead to several, then two such links lead to one item
each, not the same, or none of them leads to one item and the first leads to several. -/
structure HidesNothing (source : ISourceData) (item : ℕ) : Prop where
  only : ∀ x, ReachesOnly run destinationNodeName (some source) item x →
    ∃ next ∈ followedAt run source item,
      Reaches run destinationNodeName (nextSource (sourcesOf run source) next) next.item x
  several : ReachesSeveral run destinationNodeName (some source) item →
    (∃ next ∈ followedAt run source item, ∃ next' ∈ followedAt run source item, ∃ x y,
      ReachesOnly run destinationNodeName (nextSource (sourcesOf run source) next) next.item x ∧
      ReachesOnly run destinationNodeName (nextSource (sourcesOf run source) next') next'.item y ∧
      x ≠ y) ∨
    (∀ next ∈ followedAt run source item, ∀ x, ¬ ReachesOnly run destinationNodeName
      (nextSource (sourcesOf run source) next) next.item x) ∧
    ∃ next rest, followedAt run source item = next :: rest ∧
      ReachesSeveral run destinationNodeName (nextSource (sourcesOf run source) next) next.item

/-! ### One call -/

open Convergence

/-- A call of `getPairedItem` before its recursion. -/
def view (call : Call) : View Call α PairedItemError :=
  match call.sourceData with
  | none => .fails (.pairedItemNotFound destinationNodeName call.nodeBeforeLast)
  | some source =>
    match output? (getTaskData run source) source with
    | none => .fails (.missingOutput (source.previousNodeOutput.getD 0) source.previousNode
        call.nodeBeforeLast)
    | some outputs =>
      match outputs[call.initialPairedItem.item]? with
      | none =>
        if source.previousNode = destinationNodeName then
          .fails (.missingPairedItem source.previousNode usedMethodName)
        else .fails .typeError
      | some item =>
        if source.previousNode = destinationNodeName then .found item
        else if (linksAt run source call.initialPairedItem.item).isEmpty then
          .fails (.missingPairedItem source.previousNode usedMethodName)
        else .goesOn
          ((linksAt run source call.initialPairedItem.item).map
            (nextCall source (sourcesOf run source)))
          ((followedAt run source call.initialPairedItem.item).map
            (nextCall source (sourcesOf run source)))

variable {run destinationNodeName usedMethodName}

/-- The error of a resolution with several results. -/
def IsMultiple (destinationNodeName : String) (e : PairedItemError) : Prop :=
  ∃ itemIndex, e = .multipleItemsFound destinationNodeName itemIndex

theorem concludes_conclude (call : Call) (source : ISourceData)
    (sourceArray : List (Option ISourceData)) (results : List (Except PairedItemError α)) :
    Concludes (IsMultiple destinationNodeName) results
      (conclude destinationNodeName call source sourceArray results) := by
  have hok : ∀ x, x ∈ results.filterMap Except.toOption ↔ .ok x ∈ results := by
    intro x
    rw [List.mem_filterMap]
    constructor
    · intro ⟨result, hmem, hx⟩
      cases result with
      | error => cases hx
      | ok y =>
        cases hx
        exact hmem
    · intro hmem
      exact ⟨_, hmem, rfl⟩
  unfold conclude
  by_cases hall : results.all fun result => !result.isOk
  · rw [if_pos hall]
    have hnone : ∀ x, .ok x ∉ results := by
      intro x hx
      have := List.all_eq_true.mp hall _ hx
      cases this
    cases results with
    | nil =>
      refine .nothing fun h => ?_
      obtain ⟨itemIndex, h⟩ := h
      cases h
    | cons result rest =>
      cases result with
      | error e => exact .first hnone
      | ok x => exact absurd List.mem_cons_self (hnone x)
  · rw [if_neg hall]
    generalize results.filterMap Except.toOption = matched at hok
    cases matched with
    | nil =>
      refine absurd (List.all_eq_true.mpr fun result hresult => ?_) hall
      cases result with
      | error => rfl
      | ok x => exact absurd ((hok x).mpr hresult) List.not_mem_nil
    | cons first rest =>
      have hfirst : .ok first ∈ results := (hok first).mp List.mem_cons_self
      simp only
      split_ifs with hany
      · obtain ⟨y, hy, hne⟩ := List.any_eq_true.mp hany
        refine .differ ((hok y).mp (List.mem_cons_of_mem _ hy)) hfirst (of_decide_eq_true hne)
          ⟨_, rfl⟩
      · refine .agree hfirst fun y hy => ?_
        obtain rfl | hrest := List.mem_cons.mp ((hok y).mpr hy)
        · rfl
        · by_contra hne
          exact hany (List.any_eq_true.mpr ⟨y, hrest, decide_eq_true hne⟩)

omit [DecidableEq α] in
theorem view_eq_goesOn {call : Call} {links followed : List Call}
    (h : view run destinationNodeName usedMethodName call = .goesOn links followed) :
    ∃ source, call.sourceData = some source ∧ source.previousNode ≠ destinationNodeName ∧
      links = (linksAt run source call.initialPairedItem.item).map
        (nextCall source (sourcesOf run source)) ∧
      followed = (followedAt run source call.initialPairedItem.item).map
        (nextCall source (sourcesOf run source)) := by
  unfold view at h
  split at h
  · cases h
  · rename_i source hsource
    split at h
    · cases h
    · split at h
      · split at h <;> cases h
      · split_ifs at h with hd
        cases h
        exact ⟨source, hsource, hd, rfl, rfl⟩

omit [DecidableEq α] in
/-- A node that is not the destination is left along the links of its item. -/
theorem view_of_links {call : Call} {source : ISourceData} (hsource : call.sourceData = some source)
    (hd : source.previousNode ≠ destinationNodeName)
    (hlinks : linksAt run source call.initialPairedItem.item ≠ []) :
    view run destinationNodeName usedMethodName call = .goesOn
      ((linksAt run source call.initialPairedItem.item).map
        (nextCall source (sourcesOf run source)))
      ((followedAt run source call.initialPairedItem.item).map
        (nextCall source (sourcesOf run source))) := by
  unfold view
  cases houtputs : output? (getTaskData run source) source with
  | none => exact absurd (by simp [linksAt, itemAt, houtputs]) hlinks
  | some outputs =>
    cases hitem : outputs[call.initialPairedItem.item]? with
    | none => exact absurd (by simp [linksAt, itemAt, houtputs, hitem]) hlinks
    | some item => simp [hsource, houtputs, hitem, hd, hlinks]

omit [DecidableEq α] in
theorem view_eq_found_iff {call : Call} {x : α} :
    view run destinationNodeName usedMethodName call = .found x ↔ ∃ source,
      call.sourceData = some source ∧ source.previousNode = destinationNodeName ∧
        itemAt run source call.initialPairedItem.item = some x := by
  unfold view
  constructor
  · intro h
    split at h
    · cases h
    · rename_i source hsource
      split at h
      · cases h
      · rename_i outputs houtputs
        split at h
        · split at h <;> cases h
        · rename_i item hitem
          split_ifs at h with hd
          cases h
          refine ⟨source, hsource, hd, ?_⟩
          rw [itemAt, houtputs]
          exact hitem
  · intro ⟨source, hsource, hd, hitem⟩
    obtain ⟨outputs, houtputs, hx⟩ := Option.bind_eq_some_iff.mp hitem
    simp [hsource, houtputs, hx, hd]

theorem getPairedItem_succ (fuel : ℕ) (call : Call) :
    getPairedItem run destinationNodeName usedMethodName (fuel + 1) call =
      match view run destinationNodeName usedMethodName call, call.sourceData with
      | .found item, _ => some (.ok item)
      | .fails e, _ => some (.error e)
      | .goesOn _ followed, some source =>
        (followed.mapM (getPairedItem run destinationNodeName usedMethodName fuel)).map
          (conclude destinationNodeName call source (sourcesOf run source))
      | .goesOn _ _, none => none := by
  rw [getPairedItem]
  unfold view getNodeOutput
  cases call.sourceData with
  | none => rfl
  | some source =>
    cases houtputs : output? (getTaskData run source) source with
    | none => simp only [houtputs]
    | some outputs =>
      cases hitem : outputs[call.initialPairedItem.item]? with
      | none =>
        simp only [houtputs, hitem]
        split_ifs <;> rfl
      | some item =>
        have hlinks : linksAt run source call.initialPairedItem.item =
            normalizePairedItem (run.pairedItem item) := by
          simp [linksAt, itemAt, houtputs, hitem]
        simp only [houtputs, hitem, followedAt, hlinks]
        split_ifs
        · rfl
        · rfl
        · exact Option.map_eq_bind.symm

/-! ### Enough fuel -/

omit [DecidableEq α] in
theorem eq_map_of_mapM {f : Call → Option (Except PairedItemError α)}
    {answer : Call → Except PairedItemError α} {calls : List Call}
    {results : List (Except PairedItemError α)}
    (h : ∀ call result, f call = some result → result = answer call)
    (hf : calls.mapM f = some results) : results = calls.map answer := by
  induction calls generalizing results with
  | nil =>
    cases hf
    rfl
  | cons call calls ih =>
    simp only [List.mapM_cons, Option.bind_eq_bind, Option.bind_eq_some_iff] at hf
    obtain ⟨result, hresult, rest, hrest, hresults⟩ := hf
    cases hresults
    rw [List.map_cons, h call result hresult, ih hrest]

omit [DecidableEq α] in
theorem mapM_mono {f g : Call → Option (Except PairedItemError α)} {calls : List Call}
    (h : ∀ call result, f call = some result → g call = some result)
    {results : List (Except PairedItemError α)} (hf : calls.mapM f = some results) :
    calls.mapM g = some results := by
  induction calls generalizing results with
  | nil => exact hf
  | cons call calls ih =>
    simp only [List.mapM_cons, Option.bind_eq_bind, Option.bind_eq_some_iff] at hf ⊢
    obtain ⟨result, hresult, rest, hrest, hresults⟩ := hf
    exact ⟨result, h call result hresult, rest, ih hrest, hresults⟩

/-- More fuel gives the same result. -/
theorem getPairedItem_mono {fuel : ℕ} {call : Call} {result : Except PairedItemError α}
    (h : getPairedItem run destinationNodeName usedMethodName fuel call = some result) :
    getPairedItem run destinationNodeName usedMethodName (fuel + 1) call = some result := by
  induction fuel generalizing call result with
  | zero => cases h
  | succ fuel ih =>
    rw [getPairedItem_succ] at h ⊢
    split at h
    · exact h
    · exact h
    · rename_i source hsource
      rw [Option.map_eq_some_iff] at h ⊢
      obtain ⟨results, hresults, rfl⟩ := h
      exact ⟨results, mapM_mono (fun _ _ => ih) hresults, rfl⟩
    · cases h

theorem getPairedItem_of_le {fuel fuel' : ℕ} {call : Call} {result : Except PairedItemError α}
    (h : getPairedItem run destinationNodeName usedMethodName fuel call = some result)
    (hle : fuel ≤ fuel') :
    getPairedItem run destinationNodeName usedMethodName fuel' call = some result := by
  induction fuel', hle using Nat.le_induction with
  | base => exact h
  | succ fuel' _ ih => exact getPairedItem_mono ih

theorem getPairedItem_unique {fuel fuel' : ℕ} {call : Call}
    {result result' : Except PairedItemError α}
    (h : getPairedItem run destinationNodeName usedMethodName fuel call = some result)
    (h' : getPairedItem run destinationNodeName usedMethodName fuel' call = some result') :
    result = result' := by
  obtain hle | hle := Nat.le_total fuel fuel'
  · exact Option.some.inj ((getPairedItem_of_le h hle).symm.trans h')
  · exact Option.some.inj (h.symm.trans (getPairedItem_of_le h' hle))

/-- Without circles every call returns. -/
theorem exists_getPairedItem
    (hwf : WellFounded (IsLink (view run destinationNodeName usedMethodName))) (call : Call) :
    ∃ result fuel,
      getPairedItem run destinationNodeName usedMethodName fuel call = some result := by
  induction call using hwf.induction with
  | _ call ih =>
    cases hview : view run destinationNodeName usedMethodName call with
    | found item => exact ⟨.ok item, 1, by rw [getPairedItem_succ, hview]⟩
    | fails e => exact ⟨.error e, 1, by rw [getPairedItem_succ, hview]⟩
    | goesOn links followed =>
      obtain ⟨source, hsource, -, hlinks, hfollowed⟩ := view_eq_goesOn hview
      have hsub : ∀ c ∈ followed, c ∈ links := by
        rw [hlinks, hfollowed]
        intro c hc
        obtain ⟨next, hnext, rfl⟩ := List.mem_map.mp hc
        exact List.mem_map.mpr ⟨next, List.mem_of_mem_filter hnext, rfl⟩
      have hcalls : ∀ calls : List Call, (∀ c ∈ calls, c ∈ links) → ∃ results fuel,
          calls.mapM (getPairedItem run destinationNodeName usedMethodName fuel) =
            some results := by
        intro calls hcalls
        induction calls with
        | nil => exact ⟨[], 0, rfl⟩
        | cons c calls ihCalls =>
          obtain ⟨result, fuel, hresult⟩ := ih c ⟨_, _, hview, hcalls c List.mem_cons_self⟩
          obtain ⟨results, fuel', hresults⟩ :=
            ihCalls fun c hc => hcalls c (List.mem_cons_of_mem _ hc)
          refine ⟨result :: results, max fuel fuel', ?_⟩
          rw [List.mapM_cons, getPairedItem_of_le hresult (Nat.le_max_left _ _),
            mapM_mono (fun _ _ h => getPairedItem_of_le h (Nat.le_max_right fuel fuel')) hresults]
          rfl
      obtain ⟨results, fuel, hresults⟩ := hcalls followed hsub
      refine ⟨conclude destinationNodeName call source (sourcesOf run source) results, fuel + 1, ?_⟩
      rw [getPairedItem_succ, hview, hsource]
      simp only [hresults, Option.map_some]

/-! ### Acyclic runs -/

omit [DecidableEq α] in
@[simp] theorem sourceData_nextCall (source : ISourceData) (sourceArray : List (Option ISourceData))
    (next : IPairedItemData) :
    (nextCall source sourceArray next).sourceData = nextSource sourceArray next := by
  unfold Call.sourceData nextCall nextSource
  cases next.sourceOverwrite <;> rfl

omit [DecidableEq α] in
@[simp] theorem item_nextCall (source : ISourceData) (sourceArray : List (Option ISourceData))
    (next : IPairedItemData) :
    (nextCall source sourceArray next).initialPairedItem.item = next.item := rfl

omit [DecidableEq α] in
/-- What a call leads to is what its source and item reach. -/
theorem leads_iff {call : Call} {x : α} :
    Leads (view run destinationNodeName usedMethodName) call x ↔
      Reaches run destinationNodeName call.sourceData call.initialPairedItem.item x := by
  constructor
  · intro h
    induction h with
    | found hview =>
      obtain ⟨source, hsource, hd, hx⟩ := view_eq_found_iff.mp hview
      rw [hsource]
      exact .here hd hx
    | link hview hq _ ih =>
      obtain ⟨source, hsource, hd, rfl, -⟩ := view_eq_goesOn hview
      obtain ⟨next, hnext, rfl⟩ := List.mem_map.mp hq
      rw [hsource]
      rw [sourceData_nextCall, item_nextCall] at ih
      exact .link hd hnext ih
  · intro h
    generalize hsource : call.sourceData = source at h
    generalize hitem : call.initialPairedItem.item = item at h
    induction h generalizing call with
    | here hd hx =>
      subst hitem
      exact .found (view_eq_found_iff.mpr ⟨_, hsource, hd, hx⟩)
    | link hd hnext _ ih =>
      subst hitem
      refine .link (view_of_links hsource hd (List.ne_nil_of_mem hnext))
        (List.mem_map_of_mem hnext) (ih ?_ rfl)
      exact sourceData_nextCall ..

omit [DecidableEq α] in
/-- There are finitely many tasks in a run. -/
theorem finite_tasks : {task | ∃ source, getTaskData run source = some task}.Finite := by
  have hruns : {task | task ∈ run.runData.values.flatten}.Finite :=
    List.finite_toSet _
  have hpinned : {task | task ∈ run.pinData.values.map pinDataToTask}.Finite :=
    List.finite_toSet _
  refine (hruns.union hpinned).subset ?_
  intro task ⟨source, h⟩
  unfold getTaskData at h
  rw [Option.orElse_eq_orElse, Option.orElse_eq_or] at h
  obtain hrun | ⟨-, hpin⟩ := Option.or_eq_some_iff.mp h
  · obtain ⟨runs, hruns, htask⟩ := Option.bind_eq_some_iff.mp hrun
    refine .inl (List.mem_flatten.mpr ⟨runs, ?_, List.mem_of_getElem? htask⟩)
    exact InsertionMap.mem_values.mpr ⟨_, InsertionMap.get?_eq_some_iff.mp hruns⟩
  · obtain ⟨pins, hpins, rfl⟩ := Option.map_eq_some_iff.mp hpin
    unfold getPinDataIfManualExecution at hpins
    obtain ⟨-, hget⟩ := Option.ite_none_right_eq_some.mp hpins
    refine .inr (List.mem_map_of_mem ?_)
    exact InsertionMap.mem_values.mpr ⟨_, InsertionMap.get?_eq_some_iff.mp hget⟩

/-- All that the items of a task link to. -/
def TaskData.linked (run : Execution α) (task : TaskData α) : List (ISourceData × ℕ) :=
  (((task.main.getD []).flatMap fun output => output.getD []).flatMap fun item =>
    normalizePairedItem (run.pairedItem item)).filterMap fun next =>
      (nextSource task.source next).map (·, next.item)

omit [DecidableEq α] in
theorem linked_subset {position next : ISourceData × ℕ} (h : next ∈ linked run position) :
    ∃ task, getTaskData run position.1 = some task ∧ next ∈ task.linked run := by
  obtain ⟨source, index⟩ := position
  unfold linked linksAt at h
  cases hitem : itemAt run source index with
  | none =>
    simp only [hitem] at h
    cases h
  | some item =>
    simp only [hitem] at h
    obtain ⟨outputs, houtputs, hindex⟩ := Option.bind_eq_some_iff.mp hitem
    obtain ⟨task, htask, hmain⟩ := Option.bind_eq_some_iff.mp houtputs
    obtain ⟨main, hsome, hjoin⟩ := Option.bind_eq_some_iff.mp hmain
    refine ⟨task, htask, ?_⟩
    have hsources : sourcesOf run source = task.source := by
      rw [sourcesOf, htask]
      rfl
    rw [hsources] at h
    obtain ⟨link, hlink, hnext⟩ := List.mem_filterMap.mp h
    refine List.mem_filterMap.mpr ⟨link, List.mem_flatMap.mpr ⟨item, ?_, hlink⟩, hnext⟩
    refine List.mem_flatMap.mpr ⟨some outputs, ?_, List.mem_of_getElem? hindex⟩
    rw [hsome]
    exact List.mem_of_getElem? (Option.join_eq_some_iff.mp hjoin)

omit [DecidableEq α] in
theorem wellFounded_linked (hacyclic : Acyclic run) :
    WellFounded fun next position => next ∈ linked run position := by
  refine Ranking.wellFounded_of_acyclic_of_finite ?_ hacyclic
  have htasks : {task | ∃ source, getTaskData run source = some task}.Finite := finite_tasks
  refine (htasks.biUnion fun task _ => List.finite_toSet (task.linked run)).subset ?_
  intro next ⟨position, hnext⟩
  obtain ⟨task, htask, hmem⟩ := linked_subset hnext
  exact Set.mem_biUnion ⟨position.1, htask⟩ hmem

omit [DecidableEq α] in
theorem wellFounded_isLink (hacyclic : Acyclic run) :
    WellFounded (IsLink (view run destinationNodeName usedMethodName)) := by
  have hacc : ∀ position : ISourceData × ℕ, ∀ call : Call,
      call.sourceData = some position.1 → call.initialPairedItem.item = position.2 →
        Acc (IsLink (view run destinationNodeName usedMethodName)) call := by
    intro position
    induction position using (wellFounded_linked hacyclic).induction with
    | _ position ih =>
      intro call hcall hitem
      constructor
      intro next ⟨links, followed, hview, hnext⟩
      obtain ⟨source, hsource, -, rfl, -⟩ := view_eq_goesOn hview
      obtain ⟨link, hlink, rfl⟩ := List.mem_map.mp hnext
      obtain rfl : source = position.1 := Option.some.inj (hsource.symm.trans hcall)
      rw [hitem] at hlink
      cases hto : nextSource (sourcesOf run position.1) link with
      | none =>
        -- a link without a source leads nowhere
        constructor
        intro _ ⟨_, _, hview', _⟩
        obtain ⟨_, hsource', -⟩ := view_eq_goesOn hview'
        rw [sourceData_nextCall, hto] at hsource'
        cases hsource'
      | some target =>
        refine ih (target, link.item) ?_ _ ((sourceData_nextCall ..).trans hto) rfl
        refine List.mem_filterMap.mpr ⟨link, hlink, ?_⟩
        rw [hto]
        rfl
  constructor
  intro call
  constructor
  intro next ⟨_, _, hview, hnext⟩
  obtain ⟨source, hsource, -⟩ := view_eq_goesOn hview
  exact (hacc (source, _) call hsource rfl).inv ⟨_, _, hview, hnext⟩

omit [DecidableEq α] in
/-- Without links nothing is reached. -/
theorem hidesNothing_of_no_links {source : ISourceData} {item : ℕ}
    (hd : source.previousNode ≠ destinationNodeName) (hlinks : linksAt run source item = []) :
    HidesNothing run destinationNodeName source item := by
  have hnone : ∀ x, ¬ Reaches run destinationNodeName (some source) item x := by
    intro x hx
    cases hx with
    | here hd' => exact hd hd'
    | link _ hnext =>
      rw [hlinks] at hnext
      cases hnext
  constructor
  · intro x hx
    exact absurd ((hx x).mpr rfl) (hnone x)
  · intro ⟨x, _, hx, _⟩
    exact absurd hx (hnone x)

/-! ### Exactness -/

/-- The answers are those of a search along the links. -/
theorem answers {answer : Call → Except PairedItemError α}
    (hanswer : ∀ call, ∃ fuel,
      getPairedItem run destinationNodeName usedMethodName fuel call = some (answer call)) :
    Answers (view run destinationNodeName usedMethodName) (IsMultiple destinationNodeName)
      answer := by
  have hsucc : ∀ call, ∃ fuel,
      getPairedItem run destinationNodeName usedMethodName (fuel + 1) call =
        some (answer call) := by
    intro call
    obtain ⟨fuel, h⟩ := hanswer call
    exact ⟨fuel, getPairedItem_mono h⟩
  constructor
  · intro call x hview
    obtain ⟨fuel, h⟩ := hsucc call
    rw [getPairedItem_succ, hview] at h
    exact (Option.some.inj h).symm
  · intro call e hview
    obtain ⟨fuel, h⟩ := hsucc call
    rw [getPairedItem_succ, hview] at h
    refine ⟨(Option.some.inj h).symm, ?_⟩
    intro ⟨itemIndex, he⟩
    subst he
    unfold view at hview
    split at hview
    · cases hview
    · split at hview
      · cases hview
      · split at hview
        · split at hview <;> cases hview
        · split_ifs at hview
          cases hview
  · intro call links followed hview
    obtain ⟨source, hsource, -, hlinks, hfollowed⟩ := view_eq_goesOn hview
    constructor
    · intro next hnext
      rw [hfollowed] at hnext
      obtain ⟨link, hlink, rfl⟩ := List.mem_map.mp hnext
      rw [hlinks]
      exact List.mem_map_of_mem (List.mem_of_mem_filter hlink)
    · obtain ⟨fuel, h⟩ := hsucc call
      rw [getPairedItem_succ, hview, hsource] at h
      obtain ⟨results, hresults, hconclude⟩ := Option.map_eq_some_iff.mp h
      have hmap : results = followed.map answer := by
        refine eq_map_of_mapM (fun next result hnext => ?_) hresults
        obtain ⟨fuel', h'⟩ := hanswer next
        exact getPairedItem_unique hnext h'
      rw [← hconclude, hmap]
      exact concludes_conclude ..

omit [DecidableEq α] in
theorem leadsOnly_iff {call : Call} {x : α} :
    LeadsOnly (view run destinationNodeName usedMethodName) call x ↔
      ReachesOnly run destinationNodeName call.sourceData call.initialPairedItem.item x :=
  forall_congr' fun _ => iff_congr leads_iff Iff.rfl

omit [DecidableEq α] in
theorem ambiguous_iff {call : Call} :
    Ambiguous (view run destinationNodeName usedMethodName) call ↔
      ReachesSeveral run destinationNodeName call.sourceData call.initialPairedItem.item :=
  exists_congr fun _ => exists_congr fun _ => and_congr leads_iff (and_congr leads_iff Iff.rfl)

theorem exactFor_iff {answer : Call → Except PairedItemError α}
    (hanswer : ∀ call, ∃ fuel,
      getPairedItem run destinationNodeName usedMethodName fuel call = some (answer call))
    {call : Call} : ExactFor run destinationNodeName usedMethodName call ↔
      Exact (view run destinationNodeName usedMethodName) (IsMultiple destinationNodeName) call
        (answer call) := by
  constructor
  · intro ⟨result, ⟨fuel, hresult⟩, hok, hseveral⟩
    obtain ⟨fuel', h'⟩ := hanswer call
    obtain rfl : result = answer call := getPairedItem_unique hresult h'
    constructor
    · intro x
      rw [leadsOnly_iff]
      exact hok x
    · intro hambiguous
      obtain ⟨itemIndex, herror⟩ := hseveral (ambiguous_iff.mp hambiguous)
      exact ⟨_, herror, itemIndex, rfl⟩
  · intro hexact
    refine ⟨answer call, hanswer call, fun x => ?_, fun hseveral => ?_⟩
    · rw [← leadsOnly_iff]
      exact hexact.ok_iff x
    · obtain ⟨e, herror, itemIndex, rfl⟩ := hexact.ambiguous (ambiguous_iff.mpr hseveral)
      exact ⟨itemIndex, herror⟩

omit [DecidableEq α] in
theorem follows_iff_asks {call next : Call} :
    Follows (view run destinationNodeName usedMethodName) call next ↔
      Asks run destinationNodeName call next := by
  constructor
  · intro ⟨links, followed, hview, hnext⟩
    obtain ⟨source, hsource, hd, -, rfl⟩ := view_eq_goesOn hview
    obtain ⟨link, hlink, rfl⟩ := List.mem_map.mp hnext
    obtain ⟨hmem, hinput⟩ := List.mem_filter.mp hlink
    exact ⟨source, link, hsource, hd, hmem, hinput, rfl⟩
  · intro ⟨source, link, hsource, hd, hmem, hinput, hnext⟩
    subst hnext
    refine ⟨_, _, view_of_links hsource hd (List.ne_nil_of_mem hmem), ?_⟩
    exact List.mem_map_of_mem (List.mem_filter.mpr ⟨hmem, hinput⟩)

omit [DecidableEq α] in
theorem surfaces_iff {call : Call} {source : ISourceData} (hsource : call.sourceData = some source)
    (links : List Call) :
    Surfaces (view run destinationNodeName usedMethodName) links
        ((followedAt run source call.initialPairedItem.item).map
          (nextCall source (sourcesOf run source))) call ↔
      HidesNothing run destinationNodeName source call.initialPairedItem.item := by
  rw [surfaces_map_iff]
  simp only [leadsOnly_iff, ambiguous_iff, leads_iff, sourceData_nextCall, item_nextCall, hsource]
  constructor
  · intro ⟨honly, hseveral⟩
    exact ⟨honly, hseveral⟩
  · intro ⟨honly, hseveral⟩
    exact ⟨honly, hseveral⟩

omit [DecidableEq α] in
/-- Links that lower a rank have no circles. -/
theorem acyclic_of_rank (rank : ISourceData × ℕ → ℕ)
    (h : ∀ position, ∀ next ∈ linked run position, rank next < rank position) : Acyclic run := by
  have hlt : ∀ p q, Relation.TransGen (fun p q => q ∈ linked run p) p q → rank q < rank p := by
    intro p q hpq
    induction hpq with
    | single hq => exact h _ _ hq
    | tail _ hq ih => exact (h _ _ hq).trans ih
  intro position hcircle
  exact absurd (hlt _ _ hcircle) (lt_irrefl _)

end Execution

/-- The first input of `Merge` has an item that comes from two items of `Start`, the second has one
that comes from one of them. -/
def divergingRun : Execution ℕ where
  runData := ⟨[("Start", [⟨some [some [0, 1]], []⟩]),
    ("Left", [⟨some [some [2]], [some { previousNode := "Start" }]⟩]),
    ("Right", [⟨some [some [3]], [some { previousNode := "Start" }]⟩]),
    ("Merge", [⟨some [some [4]],
      [some { previousNode := "Left" }, some { previousNode := "Right" }]⟩])], by decide⟩
  pinData := .empty
  manual := false
  pairedItem
    | 2 => some (.many [.number 0, .number 1])
    | 3 => some (.one (.number 0))
    | 4 => some (.many [.data { item := 0, input := some 0 }, .data { item := 0, input := some 1 }])
    | _ => none

/-- The item of `Merge`. -/
def mergedCall : Call where
  incomingSourceData := some { previousNode := "Merge" }
  initialPairedItem := { item := 0 }

theorem acyclic_divergingRun : Acyclic divergingRun := by
  let rank : ISourceData × ℕ → ℕ := fun position =>
    if position.1.previousNode = "Merge" then 2
    else if position.1.previousNode = "Start" then 0 else 1
  have hranks : ∀ entry ∈ divergingRun.runData.entries, ∀ task ∈ entry.2,
      ∀ next ∈ task.linked divergingRun,
        rank next < rank ({ previousNode := entry.1 }, 0) := by
    decide +kernel
  refine acyclic_of_rank rank fun position next hnext => ?_
  obtain ⟨task, htask, hmem⟩ := linked_subset hnext
  unfold getTaskData at htask
  rw [Option.orElse_eq_orElse, Option.orElse_eq_or] at htask
  obtain hrun | ⟨-, hpin⟩ := Option.or_eq_some_iff.mp htask
  · obtain ⟨runs, hruns, htask⟩ := Option.bind_eq_some_iff.mp hrun
    exact hranks _ (InsertionMap.get?_eq_some_iff.mp hruns) task (List.mem_of_getElem? htask) _ hmem
  · cases hpin

theorem not_exactFor_mergedCall :
    ¬ ExactFor divergingRun "Start" "$getPairedItem" mergedCall := by
  intro ⟨result, ⟨fuel, hresult⟩, _, hseveral⟩
  have hok : getPairedItem divergingRun "Start" "$getPairedItem" 3 mergedCall = some (.ok 0) := by
    decide +kernel
  have hmerge : { item := 0, input := some 0 } ∈
      linksAt divergingRun { previousNode := "Merge" } 0 := by
    decide +kernel
  have hleft : ∀ item ∈ [0, 1],
      Reaches divergingRun "Start" (some { previousNode := "Merge" }) 0 item := by
    intro item hitem
    have hlink : { item } ∈ linksAt divergingRun { previousNode := "Left" } 0 := by
      revert item
      decide +kernel
    have hstart : itemAt divergingRun { previousNode := "Start" } item = some item := by
      revert item
      decide +kernel
    exact .link (by decide) hmerge (.link (by decide) hlink (.here rfl hstart))
  obtain ⟨itemIndex, herror⟩ :=
    hseveral ⟨0, 1, hleft 0 (by decide), hleft 1 (by decide), by decide⟩
  subst herror
  cases getPairedItem_unique hresult hok

end PairedItems

end N8n
