import N8n.Workflow.Interfaces

/-!
# Nodes of the SDK

The JSON of a node that the SDK reads and writes. A number is represented by its canonical decimal
text, which is what the SDK makes of it when it writes a version.
-/

namespace N8n

namespace WorkflowSdk

/-- A number, by the text that `String` gives for it. -/
structure JsNumber where
  text : String
  deriving DecidableEq, Inhabited, Repr

/-- Some workflows store the version as a text. -/
inductive TypeVersion where
  | number (n : JsNumber)
  | text (s : String)
  deriving DecidableEq, Repr

instance : Inhabited TypeVersion := ⟨.number ⟨"1"⟩⟩

structure NodeJson where
  id : String
  name : Option String := none
  type : String
  typeVersion : TypeVersion := default
  position : ℤ × ℤ := (0, 0)
  parameters : Option (InsertionMap String JsonValue) := none
  credentials : Option JsonValue := none
  webhookId : Option String := none
  disabled : Option Bool := none
  notes : Option String := none
  notesInFlow : Option Bool := none
  executeOnce : Option Bool := none
  retryOnFail : Option Bool := none
  maxTries : Option ℤ := none
  waitBetweenTries : Option ℤ := none
  alwaysOutputData : Option Bool := none
  onError : Option OnError := none
  extendsCredential : Option String := none
  deriving DecidableEq, Inhabited

end WorkflowSdk

end N8n
