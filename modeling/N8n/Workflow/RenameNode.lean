import N8n.Workflow.Workflow

/-!
# Renaming a node

`renameNode` changes the name of a node in place: in the node and the key it is stored under, in
the parameters of all nodes, and in the connections by source node. The object it works on stores
the connections by destination node, too, which `setConnections` computes.

What a reference to a node looks like inside a text, and how it is rewritten, is a parameter
(`applyAccessPatterns`).
-/

namespace N8n

/-- A node with its parameters. -/
structure ParameterNode extends INode where
  parameters : JsonValue
  deriving DecidableEq

/-- The fields of a workflow that `renameNode` reads and writes. -/
structure WorkflowObject where
  nodes : InsertionMap String ParameterNode
  nodes_name : ∀ k n, (k, n) ∈ nodes.entries → n.name = k
  connectionsBySourceNode : IConnections
  connectionsByDestinationNode : IConnections

structure UserError where
  message : String
  description : String
  deriving DecidableEq, Repr

namespace WorkflowObject

def setConnections (connections : IConnections) (w : WorkflowObject) : WorkflowObject :=
  { w with
    connectionsBySourceNode := connections
    connectionsByDestinationNode := groupByDestination connections }

/-! ### Parameters -/

section Parameters

variable (applyAccessPatterns : String → String → String → String) (currentName newName : String)

/-- `renameNodeInParameterValue`: expressions are rewritten, and all texts where the content is
renamable. The items of an array are not counted as renamable content. To set `__proto__` of the new
object adds no field. -/
def renameNodeInParameterValue (hasRenamableContent : Bool) : JsonValue → JsonValue
  | .str s =>
    if s.toList.head? = some '=' ∨ hasRenamableContent then
      .str (applyAccessPatterns s currentName newName)
    else .str s
  | .arr items => .arr (items.map (renameNodeInParameterValue false))
  | .obj fields => .obj ((fields.map fun field =>
      (field.1, renameNodeInParameterValue hasRenamableContent field.2)).filter (·.1 ≠ "__proto__"))
  -- `null` is an object without keys
  | .null => .obj []
  | .bool b => .bool b
  | .num n => .num n
termination_by value => value
decreasing_by
  · simp only [JsonValue.arr.sizeOf_spec]
    exact Nat.lt_add_left 1 (List.sizeOf_lt_of_mem ‹_›)
  · exact JsonValue.sizeOf_field_lt ‹_›

end Parameters

/-- Change the value of a key of an object, if there is one. -/
def modifyField (key : String) (f : JsonValue → JsonValue) : JsonValue → JsonValue
  | .obj fields => .obj (fields.map fun field =>
      (field.1, if field.1 = key then f field.2 else field.2))
  | value => value

/-- `renameFormFields`. -/
def renameFormFields (renameField : JsonValue → JsonValue) : JsonValue → JsonValue :=
  modifyField "formFields" (modifyField "values" fun
    | .arr values => .arr (values.map fun
      | .obj fields =>
        if ("fieldType", JsonValue.str "html") ∈ fields then
          modifyField "html" renameField (.obj fields)
        else .obj fields
      | value => value)
    | value => value)

def NODES_WITH_RENAMABLE_CONTENT : List String :=
  ["n8n-nodes-base.code", "n8n-nodes-base.function", "n8n-nodes-base.functionItem",
    "n8n-nodes-base.aiTransform"]

def NODES_WITH_RENAMABLE_FORM_HTML_CONTENT : List String := ["n8n-nodes-base.form"]

def NODES_WITH_RENAMEABLE_TOPLEVEL_HTML_CONTENT : List String :=
  ["n8n-nodes-base.mailgun", "n8n-nodes-base.html"]

/-- The parameters of a node of a given type, with references to one name turned into the other. -/
def renameInParameters (applyAccessPatterns : String → String → String → String)
    (currentName newName : String) (type : String) (parameters : JsonValue) : JsonValue :=
  let rename := renameNodeInParameterValue applyAccessPatterns currentName newName
  let parameters := rename false parameters
  let parameters :=
    if type ∈ NODES_WITH_RENAMABLE_CONTENT then modifyField "jsCode" (rename true) parameters
    else parameters
  let parameters :=
    if type ∈ NODES_WITH_RENAMEABLE_TOPLEVEL_HTML_CONTENT then
      modifyField "html" (rename true) parameters
    else parameters
  if type ∈ NODES_WITH_RENAMABLE_FORM_HTML_CONTENT then renameFormFields (rename true) parameters
  else parameters

/-! ### Names -/

def restrictedKeys : List String :=
  ["hasOwnProperty", "isPrototypeOf", "propertyIsEnumerable", "toLocaleString", "toString",
    "valueOf", "constructor", "prototype", "__proto__", "__defineGetter__", "__defineSetter__",
    "__lookupGetter__", "__lookupSetter__"]

/-- `toLowerCase`, as far as it gives ASCII letters: those of the upper case, and the Kelvin
sign. -/
def toLowerCase (s : String) : String :=
  .ofList (s.toList.map fun c => if c.toNat = 0x212a then 'k' else c.toLower)

def isRestricted (newName : String) : Bool :=
  decide (toLowerCase newName ∈ restrictedKeys.map toLowerCase)

/-- The renamed node is stored under its new name, and what is stored under the old one goes. -/
def renameKey {α : Type*} (f : α → α) (currentName newName : String) (m : InsertionMap String α) :
    InsertionMap String α :=
  match m.get? currentName with
  | some a => (m.set newName (f a)).erase currentName
  | none => m

def renameTarget (currentName newName : String) (connectionData : IConnection) : IConnection :=
  if connectionData.node = currentName then { connectionData with node := newName }
  else connectionData

/-- The destinations of the connections of one node. -/
def renameTargets (currentName newName : String) (connections : INodeConnections) :
    INodeConnections :=
  connections.map (List.map (Option.map (List.map (renameTarget currentName newName))))

theorem name_of_renameKey {nodes : InsertionMap String ParameterNode}
    (h : ∀ k n, (k, n) ∈ nodes.entries → n.name = k) (currentName newName : String) (k : String)
    (n : ParameterNode) (hmem : (k, n) ∈
      (renameKey (fun node => { node with name := newName }) currentName newName nodes).entries) :
    n.name = k := by
  rw [renameKey] at hmem
  split at hmem
  · obtain ⟨hmem, -⟩ := InsertionMap.mem_erase.mp hmem
    obtain ⟨rfl, rfl⟩ | ⟨-, hmem⟩ := InsertionMap.mem_set.mp hmem
    · rfl
    · exact h k n hmem
  · exact h k n hmem

def renameNode (applyAccessPatterns : String → String → String → String)
    (currentName newName : String) (w : WorkflowObject) : Except UserError WorkflowObject :=
  if isRestricted newName then
    .error {
      message := "Node name \"" ++ newName ++ "\" is a restricted name."
      description := "Node names cannot be any of the following: " ++
        ", ".intercalate restrictedKeys }
  else
    .ok {
      w with
      nodes := (renameKey (fun node => { node with name := newName }) currentName newName
        w.nodes).map fun node => { node with
          parameters := renameInParameters applyAccessPatterns currentName newName node.type
            node.parameters }
      nodes_name := by
        intro k n hmem
        rw [InsertionMap.entries_map] at hmem
        obtain ⟨e, he, heq⟩ := List.mem_map.mp hmem
        obtain ⟨rfl, rfl⟩ := Prod.mk.inj heq
        exact name_of_renameKey w.nodes_name currentName newName e.1 e.2 he
      connectionsBySourceNode := (renameKey id currentName newName w.connectionsBySourceNode).map
        (renameTargets currentName newName) }

end WorkflowObject

end N8n
