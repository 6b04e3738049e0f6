import N8n.Expressions.PairedItems
import N8n.Foundations.CallTree

/-!
# The errors of paired items

What `getPairedItem` does with run data of any shape. The indexes of links are any integers here, so
that an index may also lie before the items or the inputs, and what is returned may be `undefined`.

An item that does not exist is read like one that does, and where all links point beyond the inputs
of their node the first of no results is read. Where a call and those that it asks for do neither,
and stop, all errors are those that `getPairedItem` defines (`proper_asked_iff`).
-/

namespace N8n

namespace PairedItemErrors

open PairedItems (Execution TaskData getTaskData output?)

universe u

/-! ### Links and errors -/

/-- `IPairedItemData`. -/
structure ItemLink where
  item : ℤ
  input : Option ℤ := none
  sourceOverwrite : Option ISourceData := none
  deriving DecidableEq, Repr

/-- A link in the form in which an item has it. -/
inductive Link where
  | number (item : ℤ)
  | data (link : ItemLink)
  deriving DecidableEq, Repr

/-- The `pairedItem` of an item. -/
inductive Links where
  | one (link : Link)
  | many (links : List Link)
  deriving DecidableEq, Repr

def Link.normalize : Link → ItemLink
  | .number item => { item }
  | .data link => link

def normalizePairedItem : Option Links → List ItemLink
  | none => []
  | some (.one link) => [link.normalize]
  | some (.many links) => links.map Link.normalize

/-- The errors that `getPairedItem` defines, with what they are made from. -/
inductive ExpressionError where
  | pairedItemNotFound (destNode : String) (cause : Option String)
  | missingOutput (outputIndex : ℕ) (node : String) (cause : Option String)
  | missingPairedItem (cause methodName : String)
  | multipleItemsFound (destNode : String) (itemIndex : ℤ)
  | noConnection (cause : String)
  | branchNotFound (node : String) (item : ℤ) (cause : Option String)
  deriving DecidableEq, Repr

inductive Failure where
  | expression (error : ExpressionError)
  /-- A property of `undefined` is read. -/
  | typeError
  deriving DecidableEq, Repr

/-- The element of an array at an index, if there is one. -/
def readAt {β : Type*} (l : List β) (index : ℤ) : Option β :=
  if index < 0 then none else l[index.toNat]?

/-! ### Calls -/

/-- The arguments of a call of `getPairedItem` that change from call to call. -/
structure Call where
  incomingSourceData : Option ISourceData
  initialPairedItem : ItemLink
  nodeBeforeLast : Option String := none
  deriving DecidableEq, Repr

/-- `pairedItem.sourceOverwrite || sourceData`. -/
def Call.sourceData (call : Call) : Option ISourceData :=
  call.initialPairedItem.sourceOverwrite <|> call.incomingSourceData

/-- `nextPairedItem.sourceOverwrite ?? sourceArray[inputIndex]`. -/
def nextSource (sourceArray : List (Option ISourceData)) (nextPairedItem : ItemLink) :
    Option ISourceData :=
  nextPairedItem.sourceOverwrite <|> (readAt sourceArray (nextPairedItem.input.getD 0)).join

def nextCall (source : ISourceData) (sourceArray : List (Option ISourceData))
    (nextPairedItem : ItemLink) : Call where
  incomingSourceData := nextSource sourceArray nextPairedItem
  initialPairedItem := { nextPairedItem with input := some (nextPairedItem.input.getD 0) }
  nodeBeforeLast := some source.previousNode

/-- The input of a link is not beyond the sources. -/
def hasInput (sourceArray : List (Option ISourceData)) (nextPairedItem : ItemLink) : Bool :=
  nextPairedItem.input.getD 0 < sourceArray.length

section Search

variable {α : Type u} [DecidableEq α] (run : Execution α) (pairedItem : α → Option Links)
  (destinationNodeName usedMethodName : String)

/-- What `getPairedItem` makes of the results of the links. -/
def conclude (call : Call) (source : ISourceData) (sourceArray : List (Option ISourceData))
    (results : List (Except Failure (Option α))) : Except Failure (Option α) :=
  if results.all fun result => !result.isOk then
    match results with
    | .error e :: _ => .error e
    -- `results[0].error` when there are none
    | _ => .error .typeError
  else
    match results.filterMap Except.toOption with
    | [] =>
      if sourceArray.isEmpty then .error (.expression (.noConnection destinationNodeName))
      else .error (.expression (.branchNotFound source.previousNode call.initialPairedItem.item
        call.nodeBeforeLast))
    | first :: rest =>
      if rest.any (· ≠ first) then
        .error (.expression
          (.multipleItemsFound destinationNodeName call.initialPairedItem.item))
      else .ok first

/-- A call of `getPairedItem`, up to the calls that it asks for. The links of items are given apart
from the run. -/
def callStep (call : Call) : CallTree.Step Call (Except Failure (Option α)) :=
  match call.sourceData with
  | none => .done (.error (.expression
      (.pairedItemNotFound destinationNodeName call.nodeBeforeLast)))
  | some source =>
    let taskData := getTaskData run source
    let sourceArray := (taskData.map TaskData.source).getD []
    match output? taskData source with
    | none => .done (.error (.expression (.missingOutput (source.previousNodeOutput.getD 0)
        source.previousNode call.nodeBeforeLast)))
    | some outputData =>
      let item := readAt outputData call.initialPairedItem.item
      if source.previousNode = destinationNodeName then
        if outputData.length ≤ call.initialPairedItem.item then
          .done (.error (.expression (.missingPairedItem source.previousNode usedMethodName)))
        else .done (.ok item)
      else
        match item with
        | none => .done (.error .typeError)
        | some item =>
          let nextPairedItems := normalizePairedItem (pairedItem item)
          if nextPairedItems.isEmpty then
            .done (.error (.expression (.missingPairedItem source.previousNode usedMethodName)))
          else
            .asks ((nextPairedItems.filter (hasInput sourceArray)).map
                (nextCall source sourceArray))
              (conclude destinationNodeName call source sourceArray)

def getPairedItem : ℕ → Call → Option (Except Failure (Option α)) :=
  CallTree.eval (callStep run pairedItem destinationNodeName usedMethodName)

/-! ### The property -/

/-- The sources that the run of a node has recorded. -/
def sourcesOf (source : ISourceData) : List (Option ISourceData) :=
  ((getTaskData run source).map TaskData.source).getD []

/-- The links of the item that a source and an index stand for. -/
def linksAt (source : ISourceData) (item : ℤ) : List ItemLink :=
  match (output? (getTaskData run source) source).bind fun outputs => readAt outputs item with
  | none => []
  | some x => normalizePairedItem (pairedItem x)

/-- A call asks for another one. -/
def Asks (call next : Call) : Prop :=
  ∃ source link, call.sourceData = some source ∧ source.previousNode ≠ destinationNodeName ∧
    link ∈ linksAt run pairedItem source call.initialPairedItem.item ∧
    hasInput (sourcesOf run source) link = true ∧ next = nextCall source (sourcesOf run source) link

/-- The links of an item point only beyond the recorded sources. -/
structure PointsBeyond (call : Call) (source : ISourceData) : Prop where
  sourceData : call.sourceData = some source
  onTheWay : source.previousNode ≠ destinationNodeName
  linked : linksAt run pairedItem source call.initialPairedItem.item ≠ []
  beyond : ∀ link ∈ linksAt run pairedItem source call.initialPairedItem.item,
    hasInput (sourcesOf run source) link = false

/-- A result is an item, or one of the errors, and the right one where the links point beyond. -/
structure Proper (call : Call) (result : Except Failure (Option α)) : Prop where
  isItem : result ≠ .ok none
  isExpressionError : result ≠ .error .typeError
  beyond : ∀ source, PointsBeyond run pairedItem destinationNodeName call source →
    result = .error (.expression
      (if (sourcesOf run source).isEmpty then .noConnection destinationNodeName
      else .branchNotFound source.previousNode call.initialPairedItem.item call.nodeBeforeLast))

/-- The data that a call reads has a shape that it expects. -/
def Regular (call : Call) : Prop :=
  ∀ source outputs, call.sourceData = some source →
    output? (getTaskData run source) source = some outputs →
      0 ≤ call.initialPairedItem.item ∧ (source.previousNode ≠ destinationNodeName →
        call.initialPairedItem.item < outputs.length ∧
          (linksAt run pairedItem source call.initialPairedItem.item = [] ∨
            ∃ link ∈ linksAt run pairedItem source call.initialPairedItem.item,
              hasInput (sourcesOf run source) link = true))

/-! ### One call -/

variable {run pairedItem destinationNodeName usedMethodName}

omit [DecidableEq α] in
/-- A call that does not point beyond is proper when it is an item or an expression error. -/
theorem Proper.of_not_pointsBeyond {call : Call} {result : Except Failure (Option α)}
    (hitem : result ≠ .ok none) (herror : result ≠ .error .typeError)
    (hnot : ∀ source, ¬ PointsBeyond run pairedItem destinationNodeName call source) :
    Proper run pairedItem destinationNodeName call result :=
  ⟨hitem, herror, fun source hbeyond => absurd hbeyond (hnot source)⟩

/-- What is made of proper results is proper, if there are any. -/
theorem conclude_proper {call : Call} {source : ISourceData}
    {sourceArray : List (Option ISourceData)} {results : List (Except Failure (Option α))}
    (hne : results ≠ []) (h : ∀ result ∈ results, result ≠ .ok none ∧ result ≠ .error .typeError) :
    conclude destinationNodeName call source sourceArray results ≠ .ok none ∧
      conclude destinationNodeName call source sourceArray results ≠ .error .typeError := by
  unfold conclude
  by_cases hall : results.all fun result => !result.isOk
  · rw [if_pos hall]
    cases results with
    | nil => exact absurd rfl hne
    | cons result rest =>
      obtain ⟨-, herror⟩ := h result List.mem_cons_self
      cases result with
      | error e =>
        refine ⟨fun heq => ?_, fun heq => herror heq⟩
        cases heq
      | ok x =>
        have hok := List.all_eq_true.mp hall (.ok x) List.mem_cons_self
        cases hok
  · rw [if_neg hall]
    have hmatched : none ∉ results.filterMap Except.toOption := by
      intro hmem
      obtain ⟨result, hresult, heq⟩ := List.mem_filterMap.mp hmem
      cases result with
      | error e => cases heq
      | ok x =>
        obtain rfl := Option.some.inj heq
        exact (h _ hresult).1 rfl
    generalize results.filterMap Except.toOption = matched at hmatched
    cases matched with
    | nil => split_ifs <;> exact ⟨fun heq => (nomatch heq), fun heq => (nomatch heq)⟩
    | cons first rest =>
      simp only
      split_ifs
      · exact ⟨fun heq => (nomatch heq), fun heq => (nomatch heq)⟩
      · refine ⟨fun heq => hmatched ?_, fun heq => (nomatch heq)⟩
        rw [Except.ok.inj heq]
        exact List.mem_cons_self

omit [DecidableEq α] in
theorem readAt_eq_none_iff {l : List α} {index : ℤ} :
    readAt l index = none ↔ index < 0 ∨ l.length ≤ index := by
  unfold readAt
  split_ifs with hneg
  · exact iff_of_true rfl (.inl hneg)
  · rw [List.getElem?_eq_none_iff, or_iff_right hneg]
    omega

omit [DecidableEq α] in
/-- Where the links of an item are not read, a call is proper unless it is `undefined` or a
`TypeError`. -/
theorem Proper.of_linksAt {call : Call} {source : ISourceData}
    {result : Except Failure (Option α)} (hsource : call.sourceData = some source)
    (hlinks : linksAt run pairedItem source call.initialPairedItem.item = [] ∨
      source.previousNode = destinationNodeName)
    (hitem : result ≠ .ok none) (herror : result ≠ .error .typeError) :
    Proper run pairedItem destinationNodeName call result := by
  refine .of_not_pointsBeyond hitem herror fun source' hbeyond => ?_
  obtain rfl := Option.some.inj (hsource.symm.trans hbeyond.sourceData)
  obtain hnil | hd := hlinks
  · exact hbeyond.linked hnil
  · exact hbeyond.onTheWay hd

/-- A call that asks for others. -/
theorem proper_iff_regular_of_asks {call : Call} {source : ISourceData} {outputs : List α}
    {results : List (Except Failure (Option α))} (hsource : call.sourceData = some source)
    (hd : source.previousNode ≠ destinationNodeName)
    (houtputs : output? (getTaskData run source) source = some outputs)
    (hrange : 0 ≤ call.initialPairedItem.item ∧ call.initialPairedItem.item < outputs.length)
    (hlinks : linksAt run pairedItem source call.initialPairedItem.item ≠ [])
    (hresults : results.length = ((linksAt run pairedItem source call.initialPairedItem.item).filter
      (hasInput (sourcesOf run source))).length)
    (hproper : ∀ result ∈ results, result ≠ .ok none ∧ result ≠ .error .typeError) :
    Proper run pairedItem destinationNodeName call
        (conclude destinationNodeName call source (sourcesOf run source) results) ↔
      Regular run pairedItem destinationNodeName call := by
  have hregular : Regular run pairedItem destinationNodeName call ↔
      ∃ link ∈ linksAt run pairedItem source call.initialPairedItem.item,
        hasInput (sourcesOf run source) link = true := by
    constructor
    · intro hregular
      obtain ⟨-, hway⟩ := hregular source outputs hsource houtputs
      exact (hway hd).2.resolve_left hlinks
    · intro hinput source' outputs' hsource' houtputs'
      obtain rfl := Option.some.inj (hsource.symm.trans hsource')
      obtain rfl := Option.some.inj (houtputs.symm.trans houtputs')
      exact ⟨hrange.1, fun _ => ⟨hrange.2, .inr hinput⟩⟩
  rw [hregular]
  by_cases hinput : ∃ link ∈ linksAt run pairedItem source call.initialPairedItem.item,
      hasInput (sourcesOf run source) link = true
  · refine iff_of_true ?_ hinput
    obtain ⟨link, hlink, hhas⟩ := hinput
    have hne : results ≠ [] := by
      rintro rfl
      have hnil := List.length_eq_zero_iff.mp hresults.symm
      exact List.not_mem_nil (hnil ▸ List.mem_filter.mpr ⟨hlink, hhas⟩)
    have hconclude :
        conclude destinationNodeName call source (sourcesOf run source) results ≠ .ok none ∧
          conclude destinationNodeName call source (sourcesOf run source) results ≠
            .error .typeError := conclude_proper hne hproper
    obtain ⟨hitem, herror⟩ := hconclude
    refine .of_not_pointsBeyond hitem herror fun source' hbeyond => ?_
    obtain rfl := Option.some.inj (hsource.symm.trans hbeyond.sourceData)
    rw [hbeyond.beyond link hlink] at hhas
    cases hhas
  · refine iff_of_false (fun hproper => ?_) hinput
    -- no link is followed, and there is no first result
    have hnil : results = [] := by
      refine List.length_eq_zero_iff.mp (hresults.trans (List.length_eq_zero_iff.mpr ?_))
      refine List.filter_eq_nil_iff.mpr fun link hlink hhas => hinput ⟨link, hlink, hhas⟩
    rw [hnil] at hproper
    exact hproper.isExpressionError rfl

omit [DecidableEq α] in
/-- The links of an item that is there. -/
theorem linksAt_of_readAt {source : ISourceData} {outputs : List α} {index : ℤ} {item : α}
    (houtputs : output? (getTaskData run source) source = some outputs)
    (hitem : readAt outputs index = some item) :
    linksAt run pairedItem source index = normalizePairedItem (pairedItem item) := by
  simp [linksAt, houtputs, hitem]

/-- What a call asks for when it gets to an item with links. -/
theorem callStep_of_links {call : Call} {source : ISourceData}
    (hsource : call.sourceData = some source) (hd : source.previousNode ≠ destinationNodeName)
    (hlinks : linksAt run pairedItem source call.initialPairedItem.item ≠ []) :
    callStep run pairedItem destinationNodeName usedMethodName call =
      .asks (((linksAt run pairedItem source call.initialPairedItem.item).filter
          (hasInput (sourcesOf run source))).map (nextCall source (sourcesOf run source)))
        (conclude destinationNodeName call source (sourcesOf run source)) := by
  cases houtputs : output? (getTaskData run source) source with
  | none => simp [linksAt, houtputs] at hlinks
  | some outputs =>
    cases hitem : readAt outputs call.initialPairedItem.item with
    | none => simp [linksAt, houtputs, hitem] at hlinks
    | some item =>
      rw [linksAt_of_readAt houtputs hitem] at hlinks ⊢
      simp only [callStep, hsource, houtputs, if_neg hd, hitem, sourcesOf, List.isEmpty_iff,
        if_neg hlinks]

theorem asks_eq : CallTree.Asks (callStep run pairedItem destinationNodeName usedMethodName) =
    Asks run pairedItem destinationNodeName := by
  funext call next
  refine propext ⟨?_, ?_⟩
  · rintro ⟨calls, combine, hstep, hmem⟩
    unfold callStep at hstep
    split at hstep
    · cases hstep
    · rename_i source hsource
      dsimp only at hstep
      split at hstep
      · cases hstep
      · rename_i outputs houtputs
        split_ifs at hstep with hd
        split at hstep
        · cases hstep
        · rename_i item hitem
          split_ifs at hstep with hempty
          obtain ⟨rfl, -⟩ := CallTree.Step.asks.inj hstep
          obtain ⟨link, hlink, rfl⟩ := List.mem_map.mp hmem
          obtain ⟨hlink, hinput⟩ := List.mem_filter.mp hlink
          refine ⟨source, link, hsource, hd, ?_, hinput, rfl⟩
          rwa [linksAt_of_readAt houtputs hitem]
  · rintro ⟨source, link, hsource, hd, hlink, hinput, rfl⟩
    refine ⟨_, _, callStep_of_links hsource hd (List.ne_nil_of_mem hlink), ?_⟩
    exact List.mem_map_of_mem (List.mem_filter.mpr ⟨hlink, hinput⟩)

/-- **One call.** When the calls that it asks for end properly, a call does exactly when the data
that it reads is regular. -/
theorem proper_iff_regular {call : Call} {result : Except Failure (Option α)}
    (hreturns : CallTree.Returns
      (callStep run pairedItem destinationNodeName usedMethodName) call result)
    (hasked : ∀ next, Asks run pairedItem destinationNodeName call next →
      ∀ result', CallTree.Returns (callStep run pairedItem destinationNodeName usedMethodName) next
        result' → Proper run pairedItem destinationNodeName next result') :
    Proper run pairedItem destinationNodeName call result ↔
      Regular run pairedItem destinationNodeName call := by
  have hdone : ∀ result', callStep run pairedItem destinationNodeName usedMethodName call =
      .done result' → result = result' := fun result' hstep =>
    hreturns.unique (CallTree.returns_of_done hstep)
  cases hsource : call.sourceData with
  | none =>
    rw [callStep, hsource] at hdone
    obtain rfl := hdone _ rfl
    refine iff_of_true (.of_not_pointsBeyond (fun heq => (nomatch heq)) (fun heq => (nomatch heq))
      ?_) ?_
    · intro source hbeyond
      cases hsource.symm.trans hbeyond.sourceData
    · intro source outputs hsome
      cases hsource.symm.trans hsome
  | some source =>
    cases houtputs : output? (getTaskData run source) source with
    | none =>
      simp only [callStep, hsource, houtputs] at hdone
      obtain rfl := hdone _ rfl
      have hlinks : linksAt run pairedItem source call.initialPairedItem.item = [] := by
        simp [linksAt, houtputs]
      refine iff_of_true (.of_linksAt hsource (.inl hlinks) (fun heq => (nomatch heq))
        (fun heq => (nomatch heq))) fun source' outputs' hsource' houtputs' => ?_
      obtain rfl := Option.some.inj (hsource.symm.trans hsource')
      cases houtputs.symm.trans houtputs'
    | some outputs =>
      have hregular : Regular run pairedItem destinationNodeName call ↔
          0 ≤ call.initialPairedItem.item ∧ (source.previousNode ≠ destinationNodeName →
            call.initialPairedItem.item < outputs.length ∧
              (linksAt run pairedItem source call.initialPairedItem.item = [] ∨
                ∃ link ∈ linksAt run pairedItem source call.initialPairedItem.item,
                  hasInput (sourcesOf run source) link = true)) := by
        constructor
        · intro h
          exact h source outputs hsource houtputs
        · intro h source' outputs' hsource' houtputs'
          obtain rfl := Option.some.inj (hsource.symm.trans hsource')
          obtain rfl := Option.some.inj (houtputs.symm.trans houtputs')
          exact h
      by_cases hd : source.previousNode = destinationNodeName
      · rw [hregular, and_iff_left fun hnot => absurd hd hnot]
        by_cases hlength : outputs.length ≤ call.initialPairedItem.item
        · simp only [callStep, hsource, houtputs, if_pos hd, if_pos hlength] at hdone
          obtain rfl := hdone _ rfl
          refine iff_of_true (.of_linksAt hsource (.inr hd) (fun heq => (nomatch heq))
            (fun heq => (nomatch heq))) ?_
          omega
        · simp only [callStep, hsource, houtputs, if_pos hd, if_neg hlength] at hdone
          obtain rfl := hdone _ rfl
          cases hitem : readAt outputs call.initialPairedItem.item with
          | none =>
            -- a negative index is not beyond the items, and nothing is there
            refine iff_of_false (fun hproper => hproper.isItem rfl) ?_
            have hout := readAt_eq_none_iff.mp hitem
            omega
          | some x =>
            refine iff_of_true (.of_linksAt hsource (.inr hd) (fun heq => (nomatch heq))
              (fun heq => (nomatch heq))) ?_
            by_contra hneg
            rw [readAt_eq_none_iff.mpr (.inl (by omega))] at hitem
            cases hitem
      · cases hitem : readAt outputs call.initialPairedItem.item with
        | none =>
          simp only [callStep, hsource, houtputs, if_neg hd, hitem] at hdone
          obtain rfl := hdone _ rfl
          refine iff_of_false (fun hproper => hproper.isExpressionError rfl) fun hregular' => ?_
          obtain ⟨hnonneg, hway⟩ := hregular.mp hregular'
          obtain hneg | hlength := readAt_eq_none_iff.mp hitem
          · omega
          · exact absurd (hway hd).1 (by omega)
        | some item =>
          have hrange : 0 ≤ call.initialPairedItem.item ∧
              call.initialPairedItem.item < outputs.length := by
            by_contra hnot
            rw [readAt_eq_none_iff.mpr (by omega)] at hitem
            cases hitem
          have hlinks : linksAt run pairedItem source call.initialPairedItem.item =
              normalizePairedItem (pairedItem item) := linksAt_of_readAt houtputs hitem
          by_cases hempty : normalizePairedItem (pairedItem item) = []
          · simp only [callStep, hsource, houtputs, if_neg hd, hitem, hempty, List.isEmpty_nil,
              if_true] at hdone
            obtain rfl := hdone _ rfl
            refine iff_of_true (.of_linksAt hsource (.inl (hlinks.trans hempty))
              (fun heq => (nomatch heq)) (fun heq => (nomatch heq))) (hregular.mpr ?_)
            exact ⟨hrange.1, fun _ => ⟨hrange.2, .inl (hlinks.trans hempty)⟩⟩
          · have hstep : callStep run pairedItem destinationNodeName usedMethodName call = _ :=
              callStep_of_links hsource hd (hlinks ▸ hempty)
            obtain ⟨results, hall, rfl⟩ := (CallTree.returns_asks_iff hstep).mp hreturns
            refine proper_iff_regular_of_asks hsource hd houtputs hrange (hlinks ▸ hempty) ?_ ?_
            · rw [← hall.length_eq, List.length_map]
            · intro result hresult
              obtain ⟨next, hnext, hreturns'⟩ :=
                CallTree.exists_of_forall₂_left hall.flip hresult
              have hasks : CallTree.Asks
                  (callStep run pairedItem destinationNodeName usedMethodName) call next :=
                ⟨_, _, hstep, hnext⟩
              rw [asks_eq] at hasks
              have hproper := hasked next hasks result hreturns'
              exact ⟨hproper.isItem, hproper.isExpressionError⟩

end Search

/-! ### Natural indexes -/

section Natural

def ItemLink.ofNatural (link : IPairedItemData) : ItemLink where
  item := link.item
  input := link.input.map Nat.cast
  sourceOverwrite := link.sourceOverwrite

def Link.ofNatural : PairedItems.Link → Link
  | .number item => .number item
  | .data link => .data (.ofNatural link)

def Links.ofNatural : PairedItems.Links → Links
  | .one link => .one (.ofNatural link)
  | .many links => .many (links.map .ofNatural)

def Call.ofNatural (call : PairedItems.Call) : Call where
  incomingSourceData := call.incomingSourceData
  initialPairedItem := .ofNatural call.initialPairedItem
  nodeBeforeLast := call.nodeBeforeLast

def Failure.ofNatural : PairedItems.PairedItemError → Failure
  | .pairedItemNotFound destNode cause => .expression (.pairedItemNotFound destNode cause)
  | .missingOutput outputIndex node cause => .expression (.missingOutput outputIndex node cause)
  | .missingPairedItem cause methodName => .expression (.missingPairedItem cause methodName)
  | .multipleItemsFound destNode itemIndex => .expression (.multipleItemsFound destNode itemIndex)
  | .noConnection cause => .expression (.noConnection cause)
  | .branchNotFound node item cause => .expression (.branchNotFound node item cause)
  | .typeError => .typeError

variable {α : Type u}

def resultOfNatural : Except PairedItems.PairedItemError α → Except Failure (Option α)
  | .ok item => .ok (some item)
  | .error e => .error (.ofNatural e)

theorem readAt_natCast {β : Type*} (l : List β) (index : ℕ) : readAt l index = l[index]? := by
  rw [readAt, if_neg (by omega), Int.toNat_natCast]

theorem normalizePairedItem_ofNatural (links : Option PairedItems.Links) :
    normalizePairedItem (links.map .ofNatural) =
      (PairedItems.normalizePairedItem links).map .ofNatural := by
  have hlink : ∀ link, (Link.ofNatural link).normalize = .ofNatural link.normalize := by
    intro link
    cases link <;> rfl
  match links with
  | none => rfl
  | some (.one link) => simp [normalizePairedItem, PairedItems.normalizePairedItem,
      Links.ofNatural, hlink]
  | some (.many links) => simp [normalizePairedItem, PairedItems.normalizePairedItem,
      Links.ofNatural, hlink]

theorem hasInput_ofNatural (sourceArray : List (Option ISourceData)) (link : IPairedItemData) :
    hasInput sourceArray (.ofNatural link) = PairedItems.hasInput sourceArray link := by
  unfold hasInput PairedItems.hasInput ItemLink.ofNatural
  cases link.input <;> simp

theorem nextCall_ofNatural (source : ISourceData) (sourceArray : List (Option ISourceData))
    (link : IPairedItemData) : nextCall source sourceArray (.ofNatural link) =
      .ofNatural (PairedItems.nextCall source sourceArray link) := by
  have hinput : (ItemLink.ofNatural link).input.getD 0 = ((link.input.getD 0 : ℕ) : ℤ) := by
    unfold ItemLink.ofNatural
    cases link.input <;> rfl
  simp only [nextCall, nextSource, hinput, readAt_natCast]
  rfl

variable [DecidableEq α]

theorem conclude_ofNatural (destinationNodeName : String) (call : PairedItems.Call)
    (source : ISourceData) (sourceArray : List (Option ISourceData))
    (results : List (Except PairedItems.PairedItemError α)) :
    conclude destinationNodeName (.ofNatural call) source sourceArray
        (results.map resultOfNatural) =
      resultOfNatural
        (PairedItems.conclude destinationNodeName call source sourceArray results) := by
  have hisOk : ∀ result : Except PairedItems.PairedItemError α,
      (resultOfNatural result).isOk = result.isOk := by
    intro result
    cases result <;> rfl
  have hmatched : (results.map resultOfNatural).filterMap Except.toOption =
      (results.filterMap Except.toOption).map some := by
    rw [List.filterMap_map, List.map_filterMap]
    congr 1
    funext result
    cases result <;> rfl
  unfold conclude PairedItems.conclude
  simp only [List.all_map, Function.comp_def, hisOk, hmatched]
  by_cases hall : results.all fun result => !result.isOk
  · simp only [if_pos hall]
    rcases results with _ | ⟨e | x, rest⟩
    · rfl
    · rfl
    · cases (List.all_eq_true.mp hall (.ok x) List.mem_cons_self)
  · simp only [if_neg hall]
    cases results.filterMap Except.toOption with
    | nil => cases sourceArray <;> rfl
    | cons first rest =>
      have hany : (rest.map some).any (fun x => decide (x ≠ some first)) =
          rest.any fun x => decide (x ≠ first) := by
        rw [List.any_map]
        congr 1
        funext x
        simp
      simp only [List.map_cons, hany]
      split_ifs <;> rfl

/-- On natural indexes this is the resolution of paired items. -/
theorem getPairedItem_ofNatural (run : Execution α) (destinationNodeName usedMethodName : String)
    (depth : ℕ) (call : PairedItems.Call) :
    getPairedItem run (fun item => (run.pairedItem item).map .ofNatural) destinationNodeName
        usedMethodName depth (.ofNatural call) =
      (PairedItems.getPairedItem run destinationNodeName usedMethodName depth call).map
        resultOfNatural := by
  have hmapM : ∀ {f : Call → Option (Except Failure (Option α))}
      {g : PairedItems.Call → Option (Except PairedItems.PairedItemError α)}
      (calls : List PairedItems.Call), (∀ c, f (.ofNatural c) = (g c).map resultOfNatural) →
      (calls.map Call.ofNatural).mapM f = (calls.mapM g).map (List.map resultOfNatural) := by
    intro f g calls hfg
    induction calls with
    | nil => rfl
    | cons c calls ih =>
      simp only [List.map_cons, List.mapM_cons, hfg, ih]
      cases g c with
      | none => rfl
      | some result => cases calls.mapM g <;> rfl
  unfold getPairedItem
  induction depth generalizing call with
  | zero => rfl
  | succ depth ih =>
    have hsource : (Call.ofNatural call).sourceData = call.sourceData := rfl
    have hindex : (Call.ofNatural call).initialPairedItem.item = call.initialPairedItem.item := rfl
    rw [CallTree.eval, PairedItems.getPairedItem, callStep, hsource]
    unfold PairedItems.getNodeOutput
    cases call.sourceData with
    | none => rfl
    | some source =>
      simp only
      cases houtputs : output? (getTaskData run source) source with
      | none => rfl
      | some outputs =>
        simp only [hindex, readAt_natCast, Int.ofNat_le]
        by_cases hd : source.previousNode = destinationNodeName
        · simp only [if_pos hd]
          by_cases hlength : outputs.length ≤ call.initialPairedItem.item
          · simp only [if_pos hlength, List.getElem?_eq_none hlength]
            rfl
          · simp only [if_neg hlength, List.getElem?_eq_getElem (Nat.not_le.mp hlength)]
            rfl
        · simp only [if_neg hd]
          cases outputs[call.initialPairedItem.item]? with
          | none => rfl
          | some item =>
            simp only [normalizePairedItem_ofNatural, List.isEmpty_map]
            by_cases hempty : (PairedItems.normalizePairedItem (run.pairedItem item)).isEmpty
            · simp only [if_pos hempty]
              rfl
            · simp only [if_neg hempty]
              have hcalls : ∀ (links : List IPairedItemData) (sources : List (Option ISourceData)),
                  ((links.map ItemLink.ofNatural).filter (hasInput sources)).map
                      (nextCall source sources) =
                    ((links.filter (PairedItems.hasInput sources)).map
                      (PairedItems.nextCall source sources)).map .ofNatural := by
                intro links sources
                simp only [List.filter_map, List.map_map, Function.comp_def, hasInput_ofNatural,
                  nextCall_ofNatural]
              rw [hcalls, hmapM _ ih]
              generalize List.mapM
                (PairedItems.getPairedItem run destinationNodeName usedMethodName depth) _ = answers
              cases answers with
              | none => rfl
              | some results => exact congrArg some (conclude_ofNatural ..)

end Natural

/-! ### Malformed run data -/

/-- The item of `Set` has a link to an input that its node does not have. -/
def malformedRun : Execution ℕ where
  runData := ⟨[("Start", [⟨some [some [0]], []⟩]),
    ("Set", [⟨some [some [1]], [some { previousNode := "Start" }]⟩])], by decide⟩
  pinData := .empty
  manual := false
  pairedItem _ := none

def malformedLinks : ℕ → Option Links
  | 1 => some (.one (.data { item := 0, input := some 1 }))
  | _ => none

/-- The call for an item of `Set`. -/
def malformedCall (index : ℤ) : Call where
  incomingSourceData := some { previousNode := "Set" }
  initialPairedItem := { item := index }

private theorem not_proper_malformedCall {index : ℤ}
    (htypeError : getPairedItem malformedRun malformedLinks "Start" "$getPairedItem" 1
      (malformedCall index) = some (.error .typeError)) :
    ¬ ∃ result, (∃ depth, getPairedItem malformedRun malformedLinks "Start" "$getPairedItem" depth
        (malformedCall index) = some result) ∧
      Proper malformedRun malformedLinks "Start" (malformedCall index) result := by
  rintro ⟨result, hreturns, hproper⟩
  exact hproper.isExpressionError (CallTree.Returns.unique hreturns ⟨1, htypeError⟩)

end PairedItemErrors

end N8n
