import N8n.Foundations.Decimal
import N8n.Foundations.Dialogue
import N8n.Foundations.PlainObject

/-!
# The lazy view of workflow data

Expressions run in an isolate and see the workflow data through proxies, which ask the host for what
is read and keep it on their target. The host answers with primitive values, and for objects and
arrays with records of their keys and lengths.

The data have no functions, so that the callbacks do not fail. A key is either own or one of those
that each object or each array of the language has (`inheritedKeys`, `arrayKeys`); of the latter
the values are not told apart.
-/

namespace N8n

namespace LazyProxy

open InsertionMap

universe u

/-- The keys of an object are in the order of `Object.keys`; `π` are the primitive values other than
`null`. -/
inductive WorkflowData (π : Type u) where
  | null
  | primitive (value : π)
  | array (items : List (WorkflowData π))
  | object (fields : List (String × WorkflowData π))

/-- `Object.getOwnPropertyNames(Array.prototype)`, without `length`. -/
def arrayPrototype : List String :=
  ["at", "concat", "constructor", "copyWithin", "entries", "every", "fill", "filter", "find",
    "findIndex", "findLast", "findLastIndex", "flat", "flatMap", "forEach", "includes", "indexOf",
    "join", "keys", "lastIndexOf", "map", "pop", "push", "reduce", "reduceRight", "reverse",
    "shift", "slice", "some", "sort", "splice", "toLocaleString", "toReversed", "toSorted",
    "toSpliced", "toString", "unshift", "values", "with"]

/-- The keys that every array inherits. -/
def arrayKeys : List String := arrayPrototype ++ inheritedKeys

/-- `isInArrayBounds`: the index below `length` of which `prop` is the canonical form. -/
def isInArrayBounds (length : ℕ) (prop : String) : Option ℕ :=
  (List.range length).find? fun idx => toString idx = prop

/-- What a value has under a key. -/
inductive Member (π : Type u) where
  | own (value : WorkflowData π)
  | length (n : ℕ)
  | inherited
  | absent

variable {π : Type u}

/-- Reading a property. Only objects and arrays are read. -/
def member : WorkflowData π → String → Member π
  | .object fields, key =>
    match fields.lookup key with
    | some value => .own value
    | none => if key ∈ inheritedKeys then .inherited else .absent
  | .array items, key =>
    if key = "length" then .length items.length
    else
      match (isInArrayBounds items.length key).bind (items[·]?) with
      | some value => .own value
      | none => if key ∈ arrayKeys then .inherited else .absent
  | .null, _ => .absent
  | .primitive _, _ => .absent

/-! ### The host -/

/-- The records that stand for arrays and objects. -/
inductive Metadata where
  | array (length : ℕ)
  | object (keys : List String)

/-- What a callback returns. -/
inductive Transferred (π : Type u) where
  | undefined
  | null
  | primitive (value : π)
  | number (n : ℕ)
  | metadata (metadata : Metadata)

/-- The loop along a path. What is behind an inherited member is not followed, as no proxy has such
a path. -/
def navigate : WorkflowData π → List String → Member π
  | value, [] => .own value
  | value, key :: path =>
    match member value key with
    | .own .null => .own .null
    | .own next => navigate next path
    | other => if path.isEmpty then other else .absent

def transfer : WorkflowData π → Transferred π
  | .null => .null
  | .primitive value => .primitive value
  | .array items => .metadata (.array items.length)
  | .object fields => .metadata (.object (fields.map Prod.fst))

def getValueAtPath (data : WorkflowData π) (path : List String) : Transferred π :=
  match navigate data path with
  | .own value => transfer value
  | .length n => .number n
  -- native functions are blocked; `__proto__` is on every target, and is not asked for
  | .inherited => .undefined
  | .absent => .undefined

def getArrayElement (data : WorkflowData π) (path : List String) (index : ℕ) : Transferred π :=
  match navigate data path with
  | .own (.array arr) =>
    match arr[index]? with
    | some element => transfer element
    | none => .undefined
  | _ => .undefined

/-! ### The proxies -/

inductive ProxyMeta where
  | object (keys : Option (List String))
  | array (length : ℕ)

/-- A value in the isolate. Proxies are numbered in the order in which they are made. -/
inductive GuestValue (π : Type u) where
  | undefined
  | null
  | primitive (value : π)
  | number (n : ℕ)
  | proxy (id : ℕ)

structure Proxy (π : Type u) where
  basePath : List String
  proxyMeta : Option ProxyMeta
  fetchedKeys : Option (List String) := none
  /-- The own properties of the target, the `length` of an array apart. -/
  target : InsertionMap String (GuestValue π) := .empty

namespace Proxy

variable (proxy : Proxy π)

def arrayLength? : Option ℕ :=
  match proxy.proxyMeta with
  | some (.array length) => some length
  | _ => none

def objectKeys : Option (List String) :=
  match proxy.proxyMeta with
  | some (.object keys) => keys
  | _ => none

/-- What the target inherits. -/
def prototypeKeys : List String :=
  if proxy.arrayLength?.isSome then arrayKeys else inheritedKeys

end Proxy

/-- What a read of a property finds. -/
inductive Found (π : Type u) where
  | value (value : GuestValue π)
  | inherited

section Guest

variable (data : WorkflowData π) (proxies : List (Proxy π))

/-- The value for what a callback returned, and the proxies with the new one for a record. -/
def materializeChild (basePath : List String) (prop : String) :
    Transferred π → List (Proxy π) × GuestValue π
  | .undefined => (proxies, .undefined)
  | .null => (proxies, .null)
  | .primitive value => (proxies, .primitive value)
  | .number n => (proxies, .number n)
  | .metadata (.array length) =>
    (proxies ++ [{ basePath := basePath ++ [prop], proxyMeta := some (.array length) }],
      .proxy proxies.length)
  | .metadata (.object keys) =>
    (proxies ++ [{ basePath := basePath ++ [prop], proxyMeta := some (.object (some keys)) }],
      .proxy proxies.length)

/-- `targetObj[prop] = value`. -/
def setTarget (id : ℕ) (prop : String) (value : GuestValue π) : List (Proxy π) :=
  proxies.modify id fun proxy => { proxy with target := proxy.target.set prop value }

/-- `targetObj[prop] = materializeChild(basePath, prop, value)`. -/
def storeChild (id : ℕ) (basePath : List String) (prop : String) (value : Transferred π) :
    List (Proxy π) × Found π :=
  let (proxies, child) := materializeChild proxies basePath prop value
  (setTarget proxies id prop child, .value child)

/-- The trap `get` for a string. -/
def get (id : ℕ) (proxy : Proxy π) (prop : String) : List (Proxy π) × Found π :=
  match proxy.arrayLength? with
  | some arrayLength =>
    if prop = "length" then (proxies, .value (.number arrayLength))
    else
      match proxy.target.get? prop with
      | some value => (proxies, .value value)
      | none =>
        if prop ∈ proxy.prototypeKeys then (proxies, .inherited)
        else
          match isInArrayBounds arrayLength prop with
          | none => (proxies, .value .undefined)
          | some idx =>
            storeChild proxies id proxy.basePath prop (getArrayElement data proxy.basePath idx)
  | none =>
    match proxy.target.get? prop with
    | some value => (proxies, .value value)
    | none =>
      if prop ∈ proxy.prototypeKeys then (proxies, .inherited)
      else
        storeChild proxies id proxy.basePath prop (getValueAtPath data (proxy.basePath ++ [prop]))

/-- The trap `has` for a string. -/
def has (proxy : Proxy π) (prop : String) : Bool :=
  match proxy.arrayLength? with
  | some arrayLength =>
    prop = "length" || (proxy.target.has prop || prop ∈ proxy.prototypeKeys) ||
      (isInArrayBounds arrayLength prop).isSome
  | none =>
    (proxy.target.has prop || prop ∈ proxy.prototypeKeys) ||
      match getValueAtPath data (proxy.basePath ++ [prop]) with
      | .undefined => false
      | _ => true

def resolveObjectKeys (id : ℕ) (proxy : Proxy π) : List (Proxy π) × List String :=
  match proxy.objectKeys with
  | some keys => (proxies, keys)
  | none =>
    match proxy.fetchedKeys with
    | some keys => (proxies, keys)
    | none =>
      match getValueAtPath data proxy.basePath with
      | .metadata (.object keys) =>
        (proxies.modify id fun proxy => { proxy with fetchedKeys := some keys }, keys)
      | _ => (proxies, [])

/-- The trap `ownKeys`. -/
def ownKeys (id : ℕ) (proxy : Proxy π) : List (Proxy π) × List String :=
  match proxy.arrayLength? with
  | some arrayLength => (proxies, (List.range arrayLength).map toString ++ ["length"])
  | none => resolveObjectKeys data proxies id proxy

/-- The trap `getOwnPropertyDescriptor` for a string: whether the property is enumerable. -/
def getOwnPropertyDescriptor (id : ℕ) (proxy : Proxy π) (prop : String) :
    List (Proxy π) × Option Bool :=
  match proxy.arrayLength? with
  | some arrayLength =>
    if prop = "length" then (proxies, some false)
    else if (isInArrayBounds arrayLength prop).isSome then
      -- the value in the descriptor
      ((get data proxies id proxy prop).1, some true)
    else (proxies, none)
  | none =>
    let (proxies, keys) := resolveObjectKeys data proxies id proxy
    (proxies, if prop ∈ keys then some true else none)

end Guest

/-! ### Reading -/

/-- The reads of expression code. The first object is the one that it is given, and each object that
a read gives comes after those before. -/
inductive Read where
  | get (object : ℕ) (key : String)
  | has (object : ℕ) (key : String)
  | ownKeys (object : ℕ)
  /-- Whether the key is own, and then whether it is enumerable. -/
  | descriptor (object : ℕ) (key : String)
  /-- The key `Symbol.iterator`. -/
  | iterator (object : ℕ)

/-- A value that a read gives. -/
inductive Seen (π : Type u) where
  | undefined
  | null
  | primitive (value : π)
  | number (n : ℕ)
  /-- What the language gives to every object or array under the key. -/
  | inherited
  | array
  | object

inductive Observed (π : Type u) where
  | value (value : Seen π)
  | present (present : Bool)
  | keys (keys : List String)
  | descriptor (enumerable : Option Bool)

/-- The expression code: finitely many reads, each chosen with the results of those before. -/
abbrev ExpressionCode (π : Type u) := Dialogue Read (Observed π)

/-- The elements of an array as its iterator gives them, which reads the length before each. -/
def iterate (object : ℕ) : ℕ → ℕ → ExpressionCode π → ExpressionCode π
  | _, 0, next => .ask (.get object "length") fun _ => next
  | index, count + 1, next =>
    .ask (.get object "length") fun _ =>
      .ask (.get object (toString index)) fun _ => iterate object (index + 1) count next

/-- The enumerable own properties, as `{ ...object }` reads them. -/
def spread (object : ℕ) (next : ExpressionCode π) : ExpressionCode π :=
  .ask (.ownKeys object) fun
    | .keys keys => keys.foldr (fun key next =>
        .ask (.descriptor object key) fun
          | .descriptor (some true) => .ask (.get object key) fun _ => next
          | _ => next) next
    | _ => next

/-- Reading on the data themselves. -/
structure DataState (π : Type u) where
  /-- The objects that were given, with where they are. -/
  objects : List (List String × WorkflowData π)
  /-- The keys that were asked of objects which do not have them. -/
  missed : List (List String × String) := []

namespace DataState

/-- What is seen of a member, and the state with it. -/
def give (s : DataState π) (path : List String) (key : String) :
    Member π → DataState π × Observed π
  | .own .null => (s, .value .null)
  | .own (.primitive value) => (s, .value (.primitive value))
  | .own (.array items) =>
    ({ s with objects := s.objects ++ [(path ++ [key], .array items)] }, .value .array)
  | .own (.object fields) =>
    ({ s with objects := s.objects ++ [(path ++ [key], .object fields)] }, .value .object)
  | .length n => (s, .value (.number n))
  | .inherited => (s, .value .inherited)
  | .absent => ({ s with missed := (path, key) :: s.missed }, .value .undefined)

def ownKeys : WorkflowData π → List String
  | .object fields => fields.map Prod.fst
  | .array items => (List.range items.length).map toString ++ ["length"]
  | _ => []

def descriptor (value : WorkflowData π) (key : String) : Option Bool :=
  match value with
  | .object fields => if key ∈ fields.map Prod.fst then some true else none
  | .array items =>
    if key = "length" then some false
    else if (isInArrayBounds items.length key).isSome then some true else none
  | _ => none

def isArray : WorkflowData π → Bool
  | .array _ => true
  | _ => false

/-- A read of an object. -/
def readAt (s : DataState π) (path : List String) (value : WorkflowData π) :
    Read → DataState π × Observed π
  | .get _ key => s.give path key (member value key)
  | .has _ key =>
    (s, .present (match member value key with | .absent => false | _ => true))
  | .ownKeys _ => (s, .keys (ownKeys value))
  | .descriptor _ key => (s, .descriptor (descriptor value key))
  | .iterator _ => (s, .value (if isArray value then .inherited else .undefined))

end DataState

/-- The object that is read. -/
def Read.object : Read → ℕ
  | .get object _ | .has object _ | .ownKeys object | .descriptor object _ | .iterator object =>
    object

def readData (s : DataState π) (read : Read) : DataState π × Observed π :=
  match s.objects[read.object]? with
  | none => (s, .value .undefined)
  | some (path, value) => s.readAt path value read

/-- Reading through the proxies. -/
structure ViewState (π : Type u) where
  proxies : List (Proxy π)
  /-- The proxies that were given. -/
  objects : List ℕ

namespace ViewState

def give (v : ViewState π) (result : List (Proxy π) × Found π) : ViewState π × Observed π :=
  match result with
  | (proxies, .inherited) => ({ v with proxies }, .value .inherited)
  | (proxies, .value .undefined) => ({ v with proxies }, .value .undefined)
  | (proxies, .value .null) => ({ v with proxies }, .value .null)
  | (proxies, .value (.primitive value)) => ({ v with proxies }, .value (.primitive value))
  | (proxies, .value (.number n)) => ({ v with proxies }, .value (.number n))
  | (proxies, .value (.proxy id)) =>
    ({ proxies, objects := v.objects ++ [id] },
      .value (if ((proxies[id]?).bind Proxy.arrayLength?).isSome then .array else .object))

def readAt (data : WorkflowData π) (v : ViewState π) (id : ℕ) (proxy : Proxy π) :
    Read → ViewState π × Observed π
  | .get _ key => v.give (get data v.proxies id proxy key)
  | .has _ key => (v, .present (has data proxy key))
  | .ownKeys _ =>
    let (proxies, keys) := ownKeys data v.proxies id proxy
    ({ v with proxies }, .keys keys)
  | .descriptor _ key =>
    let (proxies, enumerable) := getOwnPropertyDescriptor data v.proxies id proxy key
    ({ v with proxies }, .descriptor enumerable)
  | .iterator _ =>
    (v, .value (if proxy.arrayLength?.isSome then .inherited else .undefined))

end ViewState

def readView (data : WorkflowData π) (v : ViewState π) (read : Read) : ViewState π × Observed π :=
  match (v.objects[read.object]?).bind fun id => (v.proxies[id]?).map fun proxy => (id, proxy) with
  | none => (v, .value .undefined)
  | some (id, proxy) => v.readAt data id proxy read

end LazyProxy

end N8n
