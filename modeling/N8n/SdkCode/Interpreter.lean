import N8n.SdkCode.Validators

/-!
# The interpreter of SDK code

`interpretSDKCode` walks the syntax tree of a program. The state of the interpreter is a `Scope`:
the SDK functions, the variables, and the names under which renamed variables are stored. Only
declarations change it, so expressions are evaluated in a scope that is given. The depth of the
evaluation is a parameter too: it is what `evalDepth` is when a node is entered.
-/

namespace N8n

namespace SdkCode

open Effect

structure Scope where
  sdkFunctions : InsertionMap String Value
  variableValues : InsertionMap String Value
  renamedVariables : InsertionMap String String

def Scope.resolvedName (scope : Scope) (name : String) : String :=
  (scope.renamedVariables.get? name).getD name

def liftExcept {α : Type} : Except Err α → Run α
  | .ok a => pure a
  | .error e => throw e

variable (H : Host)

/-! ### Identifiers -/

/-- `visitIdentifier`. -/
def Scope.lookup (scope : Scope) (name : String) : Except Err Value :=
  match scope.variableValues.get? (scope.resolvedName name) with
  | some value => return value
  | none => do
    validateIdentifier name
    match scope.sdkFunctions.get? name with
    | some f => return f
    | none =>
      if name = "undefined" then return .undefined
      else if name = "null" then return .prim .null
      else if name = "true" then return .boolean true
      else if name = "false" then return .boolean false
      else if name = "NaN" then return .prim (.number 0x7FF8000000000000)
      else if name = "Infinity" then return .prim (.number 0x7FF0000000000000)
      else throw (.unknownIdentifier name)

def visitIdentifier (scope : Scope) (name : String) : Run Value := do
  let value ← liftExcept (scope.lookup name)
  emit (.identifier name value)
  return value

/-- The function of a direct call, and how it was found. -/
def Scope.lookupCallee (scope : Scope) (name : String) : Except Err (CallWay × Value) :=
  match scope.sdkFunctions.get? name with
  | some f => return (.sdkFunction name, f)
  | none =>
    -- variables, including renamed ones
    match scope.variableValues.get? (scope.resolvedName name) with
    | some f => return (.ofVariable name, f)
    | none => throw (.unknownIdentifier name)

/-! ### Calls -/

/-- `func.apply(thisArg, args)`. -/
def applyFunction (way : CallWay) (f thisArg : Value) (args : List Value) : Run Value := do
  let apply ← getProperty H f "apply"
  if apply = .ref H.functionApply then
    emit (.called way f)
    callValue H f thisArg args
  else
    emit (.called (.ownApply f) apply)
    let array ← alloc (arrayOf H args)
    callValue H apply f [thisArg, .ref array]

/-- `SAFE_JSON_METHODS` and `SAFE_STRING_METHODS`. -/
def safeJsonMethods : List String := ["stringify"]

def safeStringMethods : List String := ["repeat", "trim"]

/-- A member of a table of methods that is not one of its own. -/
def inheritedMember (methodName : String) : Run (Option Value) := do
  let value ← getProperty H (.ref H.objectPrototype) methodName
  return if truthy value then some value else none

/-- `getSafeJSONMethod` for the object `JSON`. -/
def getSafeJSONMethod (methodName : String) : Run (Option Value) :=
  if methodName ∈ safeJsonMethods then return some (.ref H.jsonStringify)
  else inheritedMember H methodName

/-- The wrapper of `JSON.stringify` takes three arguments; another member gets them all. -/
def callSafeJSON (methodName : String) (f : Value) (args : List Value) : Run Value := do
  emit (.called (.safeJson methodName) f)
  callValue H f .undefined (if methodName ∈ safeJsonMethods then args.take 3 else args)

/-- `getSafeStringMethod` for a string. -/
def getSafeStringMethod (methodName : String) : Run (Option Value) :=
  if methodName = "repeat" then return some (.ref H.stringRepeat)
  else if methodName = "trim" then return some (.ref H.stringTrim)
  else inheritedMember H methodName

def callSafeString (methodName s : String) (f : Value) (args : List Value) : Run Value := do
  emit (.called (.safeString methodName) f)
  if methodName = "repeat" then callValue H f (.string s) [args.headD .undefined]
  else if methodName = "trim" then callValue H f (.string s) []
  else callValue H f .undefined (.string s :: args)

/-- The arguments are evaluated once there is a function to call. -/
def callFunction (way : CallWay) (func thisArg : Value) (evaluateArgs : Run (List Value)) :
    Run Value := do
  let w ← get
  if w.isFunction func then
    let args ← evaluateArgs
    applyFunction H way func thisArg args
  else throw (.interpreter "Cannot call non-function")

/-- Call an allowed method of an object. -/
def callAllowedMethod (method : String) (thisArg : Value) (evaluateArgs : Run (List Value)) :
    Run Value := do
  let w ← get
  if !isAllowedMethod method then
    throw (.security ("Method '" ++ method ++ "' is not an allowed SDK method"))
  else if truthy thisArg && w.isObject thisArg then
    let func ← getProperty H thisArg method
    callFunction H (.method thisArg method w.shared w.own) func thisArg evaluateArgs
  else throw (.interpreter "Cannot call non-function")

def callMethodOf (method : String) (thisArg : Value) (evaluateArgs : Run (List Value)) :
    Run Value :=
  match thisArg with
  | .prim (.string s) => do
    match ← getSafeStringMethod H method with
    | some f =>
      let args ← evaluateArgs
      callSafeString H method s f args
    | none => callAllowedMethod H method thisArg evaluateArgs
  | _ => callAllowedMethod H method thisArg evaluateArgs

/-- A call of a method. The safe methods come before the object is evaluated when it is the
identifier `JSON`, since the global itself is blocked. -/
def callMember (isJSON : Bool) (method : String) (evaluateObject : Run Value)
    (evaluateArgs : Run (List Value)) : Run Value := do
  let safeMethod ← if isJSON then getSafeJSONMethod H method else pure none
  match safeMethod with
  | some f =>
    let args ← evaluateArgs
    callSafeJSON H method f args
  | none =>
    let thisArg ← evaluateObject
    callMethodOf H method thisArg evaluateArgs

/-- `typeof`. -/
def typeOf (v : Value) : Run String := do
  let w ← get
  return match v with
  | .prim .undefined => "undefined"
  | .prim .null => "object"
  | .prim (.boolean _) => "boolean"
  | .prim (.number _) => "number"
  | .prim (.bigint _) => "bigint"
  | .prim (.string _) => "string"
  | .ref r => if w.isFunction (.ref r) then "function" else "object"

/-! ### Operators -/

def arithmeticOperators : List String := ["-", "*", "/", "%", "**"]

def relationalOperators : List String := ["<", "<=", ">", ">="]

def primitiveOperator (operator hint : String) (left right : Value) : Run Value := do
  let p ← toPrimitive H hint left
  let q ← toPrimitive H hint right
  return .prim (← liftExcept (H.binary operator p q))

def negation (v : Value) : Value := .boolean !truthy v

def looselyEqual (left right : Value) : Run Value :=
  match left, right with
  | .ref r, .ref r' => return .boolean (r = r')
  | .ref _, .prim .undefined | .ref _, .prim .null => return .boolean false
  | .prim .undefined, .ref _ | .prim .null, .ref _ => return .boolean false
  | _, _ => primitiveOperator H "==" "default" left right

def strictlyEqual (left right : Value) : Run Value :=
  match left, right with
  | .prim _, .prim _ => primitiveOperator H "===" "default" left right
  | _, _ => return .boolean (left = right)

def isText : Value → Bool
  | .prim (.string _) => true
  | _ => false

def binaryOperator (operator : String) (left right : Value) : Run Value :=
  if operator = "+" then
    if isText left || isText right then do
      let s ← toText H left
      let t ← toText H right
      return .string (s ++ t)
    else primitiveOperator H operator "default" left right
  else if operator ∈ arithmeticOperators || operator ∈ relationalOperators then
    primitiveOperator H operator "number" left right
  else if operator = "==" then looselyEqual H left right
  else if operator = "!=" then do return negation (← looselyEqual H left right)
  else if operator = "===" then strictlyEqual H left right
  else if operator = "!==" then do return negation (← strictlyEqual H left right)
  else throw (.unsupportedNode ("Binary operator " ++ operator))

def unaryOperator (operator : String) (arg : Value) : Run Value :=
  if operator = "-" || operator = "+" then do
    let p ← toPrimitive H "number" arg
    return .prim (← liftExcept (H.unary operator p))
  else if operator = "!" then return negation arg
  else if operator = "typeof" then do return .string (← typeOf arg)
  else if operator = "void" then return .undefined
  else throw (.unsupportedNode ("Unary operator " ++ operator))

/-! ### Runtime variables in templates -/

def startsWithDollar (name : String) : Bool := name.toList.head? = some '$'

def isN8nRuntimeVariable : Expr → Bool
  | .identifier name => startsWithDollar name
  | .member object _ _ => isN8nRuntimeVariable object
  | .call (.identifier name) _ => startsWithDollar name
  | .call (.member object _ _) _ => isN8nRuntimeVariable object
  | _ => false

mutual

/-- `source` is the source code of an expression that is in one line of the program. -/
def expressionToString (source : Expr → String) : Expr → String
  | .identifier name => name
  | .member object property computed =>
    let obj := expressionToString source object
    if computed then
      match property with
      | .literal value => obj ++ "[" ++ H.quote value ++ "]"
      | _ => obj ++ "[" ++ expressionToString source property ++ "]"
    else
      match property with
      | .identifier name => obj ++ "." ++ name
      | _ => obj ++ "."
  | .call callee args =>
    expressionToString source callee ++ "(" ++
      ", ".intercalate (argumentsToString source args) ++ ")"
  | .literal value =>
    match value with
    | .prim (.string _) => H.quote value
    | _ => H.literalText value
  | .binary operator left right | .logical operator left right =>
    expressionToString source left ++ " " ++ operator ++ " " ++ expressionToString source right
  | .conditional test consequent alternate =>
    expressionToString source test ++ " ? " ++ expressionToString source consequent ++ " : " ++
      expressionToString source alternate
  | .unary operator argument => operator ++ expressionToString source argument
  | e => source e

def argumentsToString (source : Expr → String) : List Expr → List String
  | [] => []
  | .spread argument :: args =>
    ("..." ++ expressionToString source argument) :: argumentsToString source args
  | e :: args => expressionToString source e :: argumentsToString source args

end

/-! ### Expressions -/

def maxEvalDepth : ℕ := 500

/-- The key of a property access: the name in `object.name`, or the value of a literal. -/
def propertyKey (what : String) (property : Expr) (computed : Bool) : Run String :=
  match property with
  | .identifier name => if computed then throw (.unsupportedNode what) else return name
  | .literal value => toText H value
  | _ => throw (.unsupportedNode what)

def superNotSupported : Err := .unsupportedNode "super keyword is not supported in SDK code"

def isSuper : Expr → Bool
  | .other type => type = "Super"
  | _ => false

/-- `null` and `undefined`, with their text. -/
def nullish : Value → Option String
  | .prim .null => some "null"
  | .prim .undefined => some "undefined"
  | _ => none

/-- The name of a method that is called. -/
def methodName (property : Expr) : Except Err String :=
  match property with
  | .identifier name => return name
  | .literal (.prim (.string s)) => return s
  | _ => throw (.unsupportedNode "Dynamic method name")

/-- The key of a member of an object expression. -/
def memberKey : Expr → Except Err String
  | .identifier name => return name
  | .literal (.prim (.string s)) => return s
  | .literal (.prim (.number bits)) => return H.text (.number bits)
  | node => throw (.unsupportedNode ("Object key type " ++ node.type))

variable (source : Expr → String) (scope : Scope)

mutual

/-- `evaluate`, with `evaluateNode` and the visitors of expressions. -/
def evaluate (depth : ℕ) (node : Expr) : Run Value :=
  if maxEvalDepth ≤ depth then
    throw (.interpreter "Expression nesting too deep (possible cycle in method chain)")
  else
    match node with
    | .call callee args => do
      liftExcept (validateCallExpression callee)
      match callee with
      | .identifier name =>
        let found ← liftExcept (scope.lookupCallee name)
        emit (.callee name found.2)
        callFunction H found.1 found.2 .undefined (evaluateAll (depth + 1) args)
      | .member object property computed =>
        liftExcept (validateMemberExpression property computed)
        if isSuper object then throw superNotSupported
        else
          let method ← liftExcept (methodName property)
          callMember H (object.isIdentifier "JSON") method (evaluate (depth + 1) object)
            (evaluateAll (depth + 1) args)
      | _ => throw (.unsupportedNode ("Callee type " ++ callee.type))
    | .member object property computed => do
      liftExcept (validateMemberExpression property computed)
      if isSuper object then throw superNotSupported
      else
        let obj ← evaluate (depth + 1) object
        match nullish obj with
        | some text => throw (.interpreter ("Cannot access property on " ++ text))
        | none =>
          let key ← propertyKey H "Dynamic property access" property computed
          getProperty H obj key
    | .object properties => do
      let result ← newObject H
      visitMembers (depth + 1) (.ref result) properties
      return .ref result
    | .array elements => do
      let items ← visitElements (depth + 1) elements
      return .ref (← alloc (arrayOf H items))
    | .identifier name => visitIdentifier scope name
    | .literal value => return value
    | .template quasis expressions => do
      return .string (← visitQuasis (depth + 1) quasis expressions)
    | .spread argument => evaluate (depth + 1) argument
    | .unary operator argument => do
      let arg ← evaluate (depth + 1) argument
      unaryOperator H operator arg
    | .binary operator left right => do
      let left ← evaluate (depth + 1) left
      let right ← evaluate (depth + 1) right
      binaryOperator H operator left right
    | .logical operator left right => do
      let value ← evaluate (depth + 1) left
      if operator = "&&" then
        if truthy value then evaluate (depth + 1) right else return value
      else if operator = "||" then
        if truthy value then return value else evaluate (depth + 1) right
      else if operator = "??" then
        if (nullish value).isSome then evaluate (depth + 1) right else return value
      else throw (.unsupportedNode ("Logical operator " ++ operator))
    | .conditional test consequent alternate => do
      let value ← evaluate (depth + 1) test
      if truthy value then evaluate (depth + 1) consequent else evaluate (depth + 1) alternate
    | .assignment operator left right =>
      if operator ≠ "=" then
        throw (.unsupportedNode ("Assignment operator '" ++ operator ++
          "' is not allowed. Only '=' is permitted."))
      else
        match left with
        | .member object property computed => do
          liftExcept (validateMemberExpression property computed)
          if isSuper object then throw superNotSupported
          else
            let obj ← evaluate (depth + 1) object
            match nullish obj with
            | some text => throw (.interpreter ("Cannot assign property on " ++ text))
            | none =>
              match property, computed with
              | .identifier _, true =>
                throw (.unsupportedNode "Dynamic property assignment")
              | .identifier _, false | .literal _, _ =>
                let value ← evaluate (depth + 1) right
                let key ← propertyKey H "Dynamic property assignment" property computed
                emit (.assigned obj)
                setProperty H obj key value
                return value
              | _, _ => throw (.unsupportedNode "Dynamic property assignment")
        | _ => throw (.unsupportedNode ("Only property assignment (e.g., obj.prop = value) is" ++
            " allowed. Variable reassignment is not permitted."))
    | .other type => throw (unsupportedNode type)

def evaluateAll (depth : ℕ) : List Expr → Run (List Value)
  | [] => return []
  | node :: nodes => do
    let value ← evaluate depth node
    let values ← evaluateAll depth nodes
    return value :: values

/-- The members of an object expression are written to the new object. -/
def visitMembers (depth : ℕ) (result : Value) : List ObjectMember → Run PUnit
  | [] => return ⟨⟩
  | .spread argument :: members => do
    let spreadValue ← evaluate depth argument
    let w ← get
    if truthy spreadValue && w.isObject spreadValue then
      objectAssign H result spreadValue (w.enumerableKeys spreadValue)
      visitMembers depth result members
    else visitMembers depth result members
  | .property key value :: members => do
    let key ← liftExcept (memberKey H key)
    let value ← evaluate depth value
    setProperty H result key value
    visitMembers depth result members

def visitElements (depth : ℕ) : List ArrayElement → Run (List Value)
  | [] => return []
  | .hole :: elements => do
    let items ← visitElements depth elements
    return .undefined :: items
  | .spread argument :: elements => do
    let spreadValue ← evaluate depth argument
    match (← get).arrayLength? spreadValue with
    | some length =>
      let spreadItems ← arrayItems H spreadValue (List.range length)
      let items ← visitElements depth elements
      return spreadItems ++ items
    | none => visitElements depth elements
  | .element value :: elements => do
    let item ← evaluate depth value
    let items ← visitElements depth elements
    return item :: items

/-- The text of a template. Runtime variables stay as they are written. -/
def visitQuasis (depth : ℕ) : List String → List Expr → Run String
  | [], _ => return ""
  | quasis, [] => return String.join quasis
  | quasi :: quasis, expression :: expressions => do
    let text ←
      if isN8nRuntimeVariable expression then
        pure ("$\x7b" ++ expressionToString H source expression ++ "\x7d")
      else do toText H (← evaluate depth expression)
    let rest ← visitQuasis depth quasis expressions
    return quasi ++ text ++ rest

end

/-! ### Statements -/

/-- The first of `base`, `base1`, `base2`, … from the counter on that is not taken. There are at
most `fuel` names that are. -/
def freeName (taken : String → Bool) (base : String) : ℕ → String → ℕ → String
  | 0, candidate, _ => candidate
  | fuel + 1, candidate, counter =>
    if taken candidate then freeName taken base fuel (base ++ toString counter) (counter + 1)
    else candidate

def Scope.generateSafeName (scope : Scope) (name : String) : String :=
  let base := "my" ++ name.capitalize
  freeName (fun candidate => scope.variableValues.has candidate || scope.sdkFunctions.has candidate)
    base (scope.variableValues.size + scope.sdkFunctions.size) base 1

/-- The variable is stored under its own name. -/
def Scope.declare (scope : Scope) (name : String) (value : Value) : Scope :=
  { scope with variableValues := scope.variableValues.set name value }

/-- The variable is stored under another name. -/
def Scope.declareRenamed (scope : Scope) (name safeName : String) (value : Value) : Scope :=
  { scope with
    renamedVariables := scope.renamedVariables.set name safeName
    variableValues := scope.variableValues.set safeName value }

def reservedName (name : String) : Err :=
  .security ("'" ++ name ++ "' is a reserved SDK function name and cannot be used as a variable" ++
    " name. Use a different name like 'my" ++ name.capitalize ++ "'.")

def evaluateInit (init : Option Expr) : Run Value :=
  match init with
  | some node => evaluate H source scope 0 node
  | none => return .undefined

/-- One declarator of a declaration: the scope after it. -/
def visitDeclarator (declarator : Declarator) : Run Scope :=
  match declarator.id with
  | none => throw (.unsupportedNode "Destructuring in variable declaration")
  | some name =>
    if isAllowedSDKFunction name then
      if isAutoRenameableSDKFunction name then do
        let safeName := scope.generateSafeName name
        let value ← evaluateInit H source scope declarator.init
        emit (.declared name safeName value)
        return scope.declareRenamed name safeName value
      else throw (reservedName name)
    else do
      let value ← evaluateInit H source scope declarator.init
      emit (.declared name name value)
      return scope.declare name value

def visitDeclarators (scope : Scope) : List Declarator → Run Scope
  | [] => return scope
  | declarator :: declarators => do
    let scope ← visitDeclarator H source scope declarator
    visitDeclarators scope declarators

def visitVariableDeclaration (kind : String) (declarations : List Declarator) : Run Scope :=
  if kind ≠ "const" then
    throw (.security ("'" ++ kind ++ "' declarations are not allowed. Use 'const' only."))
  else visitDeclarators H source scope declarations

def interpret (scope : Scope) (result : Value) : Program → Run Value
  | [] => return result
  | .variableDeclaration kind declarations :: body => do
    let scope ← visitVariableDeclaration H source scope kind declarations
    interpret scope result body
  | .expression expression :: body => do
    let result ← evaluate H source scope 0 expression
    interpret scope result body
  | .exportDefault declaration :: _ => evaluate H source scope 0 declaration
  | .other type :: _ => throw (unsupportedNode type)

/-- A run of the interpreter on a program that was parsed. The parser made the objects `parsed`. -/
def interpretSDKCode (sdkFunctions : InsertionMap String Value) (ast : Program)
    (parsed shared : List Obj) : Except Err Value × World :=
  exec (interpret H source ⟨sdkFunctions, .empty, .empty⟩ .undefined ast) ⟨shared, parsed, []⟩

end SdkCode

end N8n
