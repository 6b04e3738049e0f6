import N8n.Engine.RequestsResponse

/-!
# The items of a node

What the engine does to the items that go into a node and to those that come out of it: the
links between them (`pairedItem`), the output for items with an error, and the item that stands
for no items at all.
-/

namespace N8n

/-- The items of every output of a node: `INodeExecutionData[][]`. -/
abbrev NodeOutputs := List (Slot (List INodeExecutionData))

/-- What the engine is told by node types and by the data proxy: the number of main outputs of a
node, and the item of another node that an item is linked to. -/
structure NodeFunctions where
  mainOutputs : INode → ℕ
  getPairedItem : IRunExecutionData → IExecuteData → ℕ → ISourceData → IPairedItemData →
    Except ExecutionError (Option INodeExecutionData)

namespace WorkflowExecute

open RequestsResponse

/-! ### Before a node runs -/

/-- The source of an item that a tool keeps. -/
def resolveSourceOverwrite (item : INodeExecutionData) (executionData : IExecuteData) :
    Option ISourceData :=
  match executionData.metadata with
  | none => none
  | some metadata =>
    if metadata.preserveSourceOverwrite = some true then
      match metadata.preservedSourceOverwrite, item.pairedItem with
      | some source, _ => some source
      | none, some (.single data) => data.sourceOverwrite
      | none, _ => none
    else none

/-- Link the items of an input to themselves. -/
def pairInput (executionData : IExecuteData) (inputIndex : ℕ) :
    Slot (List INodeExecutionData) → Slot (List INodeExecutionData)
  | .hole => .hole
  | .null => .null
  | .value input => .value (input.zipIdx.map fun (item, itemIndex) =>
      { item with
        pairedItem := some (.single {
          item := itemIndex
          input := if inputIndex = 0 then none else some inputIndex
          sourceOverwrite := resolveSourceOverwrite item executionData }) })

/-- Update the `pairedItem` information on the items of an entry. -/
def updatePairedItems (executionData : IExecuteData) : IExecuteData :=
  { executionData with
    data := executionData.data.map fun inputs =>
      inputs.zipIdx.map fun input => pairInput executionData input.2 input.1 }

/-! ### The error output -/

/-- The value of a field is given and counts as true. -/
def fieldIsTruthy (json : IDataObject) (key : String) : Bool :=
  (json.lookup key).any JsonValue.truthy

/-- An item reports an error: in its `error`, or in its JSON alone or with a message. -/
def hasErrorData (item : INodeExecutionData) : Bool :=
  item.error.isSome ∨ (fieldIsTruthy item.json "error" ∧ item.json.length = 1) ∨
    (fieldIsTruthy item.json "error" ∧ fieldIsTruthy item.json "message" ∧ item.json.length = 2)

/-- The link of an item, the first one of several. -/
def pairedItemData (item : INodeExecutionData) : Option IPairedItemData :=
  match item.pairedItem with
  | some (.single data) => some data
  | some (.many data) => data.head?
  | _ => none

/-- The item for the error output, with the data of the item it is linked to. -/
def errorItem (env : NodeFunctions) (st : IRunExecutionData) (executionData : IExecuteData)
    (runIndex : ℕ) (item : INodeExecutionData) : Except ExecutionError INodeExecutionData :=
  match executionData.source, pairedItemData item with
  | none, _ => .ok item
  | some _, none => .ok item
  | some source, some pairedItemData =>
    match source.get? .main with
    | none => .error typeError
    | some main =>
      match SparseArray.getAt .hole main (pairedItemData.input.getD 0) with
      | .value sourceData => do
        match ← env.getPairedItem st executionData runIndex sourceData pairedItemData with
        | none => return item
        | some constPairedItem =>
          return { item with json := JsonValue.spread constPairedItem.json item.json }
      | _ => .error typeError

/-- Divide the items of an output into those without an error, in front, and those with one.
When it throws, the items behind the one it threw at are left. -/
def divideItems (errorItem : INodeExecutionData → Except ExecutionError INodeExecutionData) :
    List INodeExecutionData → List INodeExecutionData → List INodeExecutionData →
      Except (ExecutionError × List INodeExecutionData)
        (List INodeExecutionData × List INodeExecutionData)
  | [], successItems, errorItems => .ok (successItems, errorItems)
  | item :: items, successItems, errorItems =>
    if hasErrorData item then
      match errorItem item with
      | .error e => .error (e, items)
      | .ok item => divideItems errorItem items successItems (errorItems ++ [item])
    else divideItems errorItem items (successItems ++ [item]) errorItems

/-- Go through outputs and collect the items with an error. -/
def divideOutputs (errorItem : INodeExecutionData → Except ExecutionError INodeExecutionData) :
    List ℕ → NodeOutputs → List INodeExecutionData →
      NodeOutputs × Except ExecutionError (List INodeExecutionData)
  | [], nodeSuccessData, errorItems => (nodeSuccessData, .ok errorItems)
  | outputIndex :: outputIndexes, nodeSuccessData, errorItems =>
    let items := ((SparseArray.getAt .hole nodeSuccessData outputIndex).toOption).getD []
    match divideItems errorItem items [] errorItems with
    | .error (e, items) =>
      (SparseArray.setAt .hole nodeSuccessData outputIndex (.value items), .error e)
    | .ok (successItems, errorItems) =>
      divideOutputs errorItem outputIndexes
        (SparseArray.setAt .hole nodeSuccessData outputIndex (.value successItems)) errorItems

/-- Move the items with an error to the last main output. A node without main outputs assigns
them to the index `-1`, which no array has. -/
def handleNodeErrorOutput (env : NodeFunctions) (st : IRunExecutionData)
    (executionData : IExecuteData) (nodeSuccessData : NodeOutputs) (runIndex : ℕ) :
    NodeOutputs × Except ExecutionError Unit :=
  let mainOutputs := env.mainOutputs executionData.node
  match divideOutputs (errorItem env st executionData runIndex) (List.range (mainOutputs - 1))
      nodeSuccessData [] with
  | (nodeSuccessData, .error e) => (nodeSuccessData, .error e)
  | (nodeSuccessData, .ok errorItems) =>
    (if mainOutputs = 0 then nodeSuccessData
      else SparseArray.setAt .hole nodeSuccessData (mainOutputs - 1) (.value errorItems), .ok ())

/-! ### After a node ran -/

/-- Link the items without a link, by their index in the output; where that cannot be told, the
first item without a link ends it. -/
def pairOutputs (pairedItem : Option (ℕ → ℕ)) : NodeOutputs → Except ExecutionError NodeOutputs
  | [] => .ok []
  | .hole :: _ => .error typeError
  | .null :: outputs => do return .null :: (← pairOutputs pairedItem outputs)
  | .value items :: outputs =>
    match pairedItem with
    | none =>
      if items.any (·.pairedItem.isNone) then .ok (.value items :: outputs)
      else do return .value items :: (← pairOutputs none outputs)
    | some pairedItem => do
      let items := items.zipIdx.map fun (item, index) =>
        if item.pairedItem.isNone then
          { item with pairedItem := some (.single { item := pairedItem index }) }
        else item
      return .value items :: (← pairOutputs (some pairedItem) outputs)

/-- The input item that an output item comes from, when it can be told from the number of
items. -/
def pairedItemOf (main nodeSuccessData : NodeOutputs) : Except ExecutionError (Option (ℕ → ℕ)) :=
  let inputLength := (SparseArray.getAt .hole main 0).toOption.map List.length
  let outputLength := (SparseArray.getAt .hole nodeSuccessData 0).toOption.map List.length
  let isSingleInputAndOutput := main.length = 1 ∧ inputLength = some 1
  if nodeSuccessData.length = 1 ∧ main.length = 1 ∧ outputLength = none then .error typeError
  else
    let isSameNumberOfItems :=
      nodeSuccessData.length = 1 ∧ main.length = 1 ∧ inputLength = outputLength
    let isSingleOutput :=
      nodeSuccessData.length = 1 ∧ outputLength = some 1 ∧ main.length = 1 ∧
        inputLength.getD 0 > 1
    if isSingleInputAndOutput then .ok (some fun _ => 0)
    else if isSameNumberOfItems then .ok (some id)
    else if isSingleOutput then .ok (some fun _ => 0)
    else .ok none

def assignPairedItems (nodeSuccessData : Option NodeOutputs) (executionData : IExecuteData) :
    Except ExecutionError (Option NodeOutputs) :=
  match nodeSuccessData with
  | none => .ok none
  | some nodeSuccessData =>
    if nodeSuccessData.length = 0 then .ok (some nodeSuccessData)
    else
      match executionData.data.get? .main with
      | none => .error typeError
      | some main => do return some (← pairOutputs (← pairedItemOf main nodeSuccessData)
          nodeSuccessData)

/-- `nodeSuccessData?.[0]?.[0]`. -/
def firstItem (nodeSuccessData : Option NodeOutputs) : Option INodeExecutionData :=
  (SparseArray.getAt .hole (nodeSuccessData.getD []) 0).toOption.bind List.head?

/-- The links of an item to all input items. -/
def allInputItems (main : NodeOutputs) : List IPairedItemData :=
  main.zipIdx.flatMap fun (inputData, inputIndex) =>
    (inputData.toOption.getD []).zipIdx.map fun (_, itemIndex) =>
      { item := itemIndex, input := some inputIndex }

/-- A node that always outputs data has an empty item in its first output when there is none. -/
def alwaysOutputData (nodeSuccessData : Option NodeOutputs) (executionData : IExecuteData) :
    Except ExecutionError (Option NodeOutputs) :=
  if (firstItem nodeSuccessData).isNone ∧ executionData.node.alwaysOutputData = some true then
    match executionData.data.get? .main with
    | none => .error typeError
    | some main =>
      .ok (some (SparseArray.setAt .hole (nodeSuccessData.getD []) 0
        (.value [{ pairedItem := some (.many (allInputItems main)) }])))
  else .ok nodeSuccessData

/-- The error that a field reports. Other errors than objects with a text as their message are
not modelled. -/
def ofErrorField : JsonValue → ExecutionError
  | .obj fields =>
    match fields.lookup "message" with
    | some (.str message) => ⟨message⟩
    | _ => ⟨""⟩
  | _ => ⟨""⟩

/-- Merge the error information of an item to its JSON. -/
def mergeError (item : INodeExecutionData) : Except EngineError INodeExecutionData :=
  match item.json.lookup "$error", item.json.lookup "$json" with
  | some .null, some _ => .error .typeError
  | some error, some _ =>
    .ok { item with
      error := some (ofErrorField error)
      json := [("error", .str (ofErrorField error).message)] }
  | _, _ =>
    match item.error with
    | some error => .ok { item with json := [("error", .str error.message)] }
    | none => .ok item

/-- Merge the error information of all items. An output that is not an array throws, and so does
the output of a node that has none. -/
def mergeErrors (nodeSuccessData : Option NodeOutputs) : Except EngineError NodeOutputs :=
  match nodeSuccessData with
  | none => .error .typeError
  | some nodeSuccessData => nodeSuccessData.mapM fun
    | .value execution => do return .value (← execution.mapM mergeError)
    | _ => .error .typeError

end WorkflowExecute

end N8n
