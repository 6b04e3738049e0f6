import N8n.Foundations.Advances
import N8n.Foundations.PlainObject

/-!
# Values, objects and property access

What the interpreter of SDK code needs of the language it is written in: values, objects with
prototypes and accessors, reading and writing a property, and the functions that exist before a run
(the SDK functions, their methods and the built-in functions). Objects that exist before a run are
`shared` by all runs; those that a run creates are its `own`.

The behaviour of the shared functions, the conversions of objects to primitive values and the
operators on primitive values are a parameter, `Host`. A shared function may do anything to any
object.
-/

namespace N8n

namespace SdkCode

open Effect

/-- The values without identity. A number is given by its 64 bits. -/
inductive Prim where
  | undefined
  | null
  | boolean (b : Bool)
  | number (bits : UInt64)
  | bigint (n : ℤ)
  | string (s : String)
  deriving DecidableEq, Repr

inductive Ref where
  | shared (index : ℕ)
  | own (index : ℕ)
  deriving DecidableEq, Repr

inductive Value where
  | prim (p : Prim)
  | ref (r : Ref)
  deriving DecidableEq, Repr

abbrev Value.undefined : Value := .prim .undefined

abbrev Value.string (s : String) : Value := .prim (.string s)

abbrev Value.boolean (b : Bool) : Value := .prim (.boolean b)

/-- A property of an object. -/
inductive Slot where
  | data (value : Value) (writable enumerable : Bool)
  | accessor (getter setter : Option Ref) (enumerable : Bool)
  deriving DecidableEq, Repr

def Slot.enumerable : Slot → Bool
  | data _ _ e => e
  | accessor _ _ e => e

inductive ObjectKind where
  | ordinary
  | array (length : ℕ)
  | function
  deriving DecidableEq, Repr

structure Obj where
  kind : ObjectKind
  proto : Option Ref
  slots : InsertionMap String Slot
  extensible : Bool
  deriving DecidableEq

/-- What an expression of the interpreter can throw. The message of an `InterpreterError` has the
code frame of its location behind it, which is left out. -/
inductive Err where
  | interpreter (message : String)
  | unsupportedNode (nodeType : String)
  | security (pattern : String)
  | unknownIdentifier (name : String)
  /-- Thrown by the language itself. -/
  | typeError
  | rangeError
  /-- Thrown by a shared function. -/
  | thrown (value : Value)
  deriving DecidableEq, Repr

/-- The language and its library, as far as they are not spelled out here. -/
structure Host where
  objectPrototype : Ref
  arrayPrototype : Ref
  /-- `String.prototype` for strings, and so on; `undefined` and `null` have none. -/
  prototypeOf : Prim → Option Ref
  /-- The built-in functions that the interpreter itself uses. -/
  functionApply : Ref
  jsonStringify : Ref
  stringRepeat : Ref
  stringTrim : Ref
  /-- A shared function called with its `this`, on the shared objects and those of the run. -/
  call : Ref → Value → List Value → List Obj → List Obj → Except Value Value × List Obj × List Obj
  /-- The conversion of an object to a primitive value, with the hint. It may call functions. -/
  toPrimitive : String → Ref → List Obj → List Obj → Except Value Prim × List Obj × List Obj
  /-- `String(p)`. -/
  text : Prim → String
  /-- The number `n`. -/
  number : ℕ → Prim
  /-- The length that the value makes an array have. -/
  arrayLength : Value → Option ℕ
  /-- A character or the length of a string. -/
  stringProperty : String → String → Option Prim
  /-- `-p` and `+p`. -/
  unary : String → Prim → Except Err Prim
  /-- The arithmetic and relational operators and the equalities on primitive values. -/
  binary : String → Prim → Prim → Except Err Prim
  /-- `JSON.stringify` and `String` of the value of a literal. -/
  quote : Value → String
  literalText : Value → String

/-- How the interpreter came to a function that it calls. -/
inductive CallWay where
  /-- `name(…)` with an SDK function. -/
  | sdkFunction (name : String)
  /-- `name(…)` with a variable. -/
  | ofVariable (name : String)
  /-- `JSON.method(…)`. -/
  | safeJson (method : String)
  /-- `text.method(…)`. -/
  | safeString (method : String)
  /-- `object.method(…)`, with the objects that there were when the method was read. -/
  | method (object : Value) (method : String) (shared own : List Obj)
  /-- The property `apply` of the function is not the built-in one and is called instead. -/
  | ownApply (f : Value)
  deriving DecidableEq

/-- The history of a run. -/
inductive Event where
  /-- A declaration stored the value of its variable under a name. -/
  | declared (name storedAs : String) (value : Value)
  /-- An identifier was evaluated. -/
  | identifier (name : String) (value : Value)
  /-- An identifier was looked up to be called. -/
  | callee (name : String) (value : Value)
  | called (way : CallWay) (f : Value)
  /-- An assignment wrote to a property of a value. -/
  | assigned (target : Value)
  /-- A shared function ran (for a call, an accessor or a conversion): the shared objects before
  and after it. -/
  | ran (before after : List Obj)
  deriving DecidableEq

structure World where
  shared : List Obj
  own : List Obj
  events : List Event

abbrev Run := Effect Err World

variable (H : Host)

/-! ### Objects -/

def World.obj? (w : World) : Ref → Option Obj
  | .shared i => w.shared[i]?
  | .own i => w.own[i]?

def World.putObj (w : World) (r : Ref) (o : Obj) : World :=
  match r with
  | .shared i => { w with shared := w.shared.set i o }
  | .own i => { w with own := w.own.set i o }

def emit (e : Event) : Run PUnit := modify fun w => { w with events := w.events ++ [e] }

/-- A new object of the run. -/
def alloc (o : Obj) : Run Ref := do
  let w ← get
  set { w with own := w.own ++ [o] }
  return .own w.own.length

def newObject : Run Ref :=
  alloc { kind := .ordinary, proto := some H.objectPrototype, slots := .empty, extensible := true }

/-- The property of the object itself. -/
def Obj.slot? (o : Obj) (key : String) : Option Slot :=
  match o.kind with
  | .array length =>
    if key = "length" then some (.data (.prim (H.number length)) true false) else o.slots.get? key
  | _ => o.slots.get? key

/-- The property of the object or the next one in its chain of prototypes. A chain is no longer
than there are objects. -/
def World.findSlot (w : World) (key : String) : ℕ → Ref → Option Slot
  | 0, _ => none
  | fuel + 1, r =>
    match w.obj? r with
    | none => none
    | some o =>
      match o.slot? H key with
      | some slot => some slot
      | none => o.proto.bind (w.findSlot key fuel)

/-- The property of a value. -/
def World.slot? (w : World) (v : Value) (key : String) : Option Slot :=
  let fuel := w.shared.length + w.own.length
  match v with
  | .ref r => w.findSlot H key fuel r
  | .prim (.string s) =>
    match H.stringProperty s key with
    | some p => some (.data (.prim p) false true)
    | none => (H.prototypeOf (.string s)).bind (w.findSlot H key fuel)
  | .prim p => (H.prototypeOf p).bind (w.findSlot H key fuel)

/-- Write an own property: `Obj` with the property, or nothing when the object does not allow it.
The elements and the length of an array go together. -/
def Obj.put (o : Obj) (key : String) (value : Value) : Option Obj :=
  let slot : Slot := match o.slots.get? key with
    | some s => .data value true s.enumerable
    | none => .data value true true
  if !o.extensible && !o.slots.has key then none
  else
    match o.kind with
    | .array length =>
      if key = "length" then
        (H.arrayLength value).map fun n =>
          { o with
            kind := .array n
            slots := o.slots.filter fun k _ => (InsertionMap.arrayIndex? k).all (· < n) }
      else
        match InsertionMap.arrayIndex? key with
        | some i =>
          some { o with kind := .array (max length (i + 1)), slots := o.slots.set key slot }
        | none => some { o with slots := o.slots.set key slot }
    | _ => some { o with slots := o.slots.set key slot }

def World.isFunction (w : World) : Value → Bool
  | .ref r => (w.obj? r).any fun o => o.kind = .function
  | .prim _ => false

/-- `typeof v === 'object'`, `null` included. -/
def World.isObject (w : World) : Value → Bool
  | .ref r => !w.isFunction (.ref r)
  | .prim p => p = .null

/-! ### Functions, properties and conversions -/

/-- A shared function runs. -/
def runShared {α : Type} (f : List Obj → List Obj → Except Value α × List Obj × List Obj) :
    Run α := do
  let w ← get
  let (outcome, shared, own) := f w.shared w.own
  set { shared := shared, own := own, events := w.events ++ [.ran w.shared shared] : World }
  match outcome with
  | .ok a => return a
  | .error e => throw (.thrown e)

/-- Call a value. -/
def callValue (f thisArg : Value) (args : List Value) : Run Value := do
  let w ← get
  match f with
  | .ref r => if w.isFunction f then runShared (H.call r thisArg args) else throw .typeError
  | .prim _ => throw .typeError

/-- `obj[key]`. -/
def getProperty (obj : Value) (key : String) : Run Value := do
  let w ← get
  match obj with
  | .prim .undefined => throw .typeError
  | .prim .null => throw .typeError
  | _ =>
    match w.slot? H obj key with
    | none => return .undefined
    | some (.data value _ _) => return value
    | some (.accessor (some getter) _ _) => callValue H (.ref getter) obj []
    | some (.accessor none _ _) => return .undefined

/-- `obj[key] = value`, in strict code. -/
def setProperty (obj : Value) (key : String) (value : Value) : Run PUnit := do
  let w ← get
  match w.slot? H obj key with
  | some (.accessor _ (some setter) _) =>
    let _ ← callValue H (.ref setter) obj [value]
    return ⟨⟩
  | some (.accessor _ none _) => throw .typeError
  | some (.data _ false _) => throw .typeError
  | _ =>
    match obj with
    | .prim _ => throw .typeError
    | .ref r =>
      match (w.obj? r).bind fun o => o.put H key value with
      | some o => set (w.putObj r o)
      | none => throw .typeError

/-- The conversion to a primitive value. -/
def toPrimitive (hint : String) : Value → Run Prim
  | .prim p => return p
  | .ref r => runShared (H.toPrimitive hint r)

/-- `String(v)`. -/
def toText (v : Value) : Run String := do
  let p ← toPrimitive H "string" v
  return H.text p

/-- Only `false`, both zeros, `NaN`, `0n`, the empty string, `null` and `undefined` are not. -/
def truthy : Value → Bool
  | .prim .undefined => false
  | .prim .null => false
  | .prim (.boolean b) => b
  | .prim (.number bits) =>
    -- without the sign, the bits of infinity are the largest of a number
    let magnitude := bits.toNat % 2 ^ 63
    magnitude ≠ 0 && magnitude ≤ 0x7FF0000000000000
  | .prim (.bigint n) => n ≠ 0
  | .prim (.string s) => s ≠ ""
  | .ref _ => true

/-- `Object.assign(target, source)` for the enumerable properties of the source itself. -/
def objectAssign (target source : Value) : List String → Run PUnit
  | [] => return ⟨⟩
  | key :: keys => do
    let value ← getProperty H source key
    setProperty H target key value
    objectAssign target source keys

def World.enumerableKeys (w : World) : Value → List String
  | .ref r =>
    match w.obj? r with
    | some o => (o.slots.filter fun _ slot => slot.enumerable).ownKeys
    | none => []
  | .prim _ => []

/-- The length of an array. -/
def World.arrayLength? (w : World) : Value → Option ℕ
  | .ref r =>
    match (w.obj? r).map Obj.kind with
    | some (.array length) => some length
    | _ => none
  | .prim _ => none

/-- The elements of an array at the given indices. -/
def arrayItems (source : Value) : List ℕ → Run (List Value)
  | [] => return []
  | i :: rest => do
    let item ← getProperty H source (toString i)
    let items ← arrayItems source rest
    return item :: items

def arrayOf (items : List Value) : Obj where
  kind := .array items.length
  proto := some H.arrayPrototype
  slots := (items.zipIdx.foldl
    (fun m e => m.set (toString e.2) (.data e.1 true true)) InsertionMap.empty)
  extensible := true

/-! ### A small host -/

/-- The prototypes of objects, of arrays and of functions, `apply`, and a function that returns
`undefined`. -/
def Host.minimalObjects : List Obj :=
  [⟨.ordinary, none, .empty, true⟩,
    ⟨.ordinary, some (.shared 0), .empty, true⟩,
    ⟨.function, some (.shared 0),
      InsertionMap.empty.set "apply" (.data (.ref (.shared 3)) true false), true⟩,
    ⟨.function, some (.shared 2), .empty, true⟩,
    ⟨.function, some (.shared 2), .empty, true⟩]

/-- A host for `minimalObjects` with strings, whose functions return `undefined`. -/
def Host.minimal : Host where
  objectPrototype := .shared 0
  arrayPrototype := .shared 1
  prototypeOf
    | .undefined => none
    | .null => none
    | _ => some (.shared 0)
  functionApply := .shared 3
  jsonStringify := .shared 4
  stringRepeat := .shared 4
  stringTrim := .shared 4
  call _ _ _ shared own := (.ok .undefined, shared, own)
  toPrimitive _ _ shared own := (.ok (.string "[object Object]"), shared, own)
  text
    | .string s => s
    | _ => ""
  number n := .number (UInt64.ofNat n)
  arrayLength _ := none
  stringProperty _ _ := none
  unary _ _ := .error .typeError
  binary _ _ _ := .error .typeError
  quote _ := ""
  literalText _ := ""

end SdkCode

end N8n
