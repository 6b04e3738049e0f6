import N8n.SdkCode.JsRuntime

/-!
# The syntax of SDK code, and its validators

The nodes of the syntax tree that the interpreter distinguishes; every other node is given by its
type. `validateNodeType` looks up the type of a node in two lists, so the nodes that it lets
through are those with a constructor of their own, apart from some that no visitor handles.
-/

namespace N8n

namespace SdkCode

mutual

inductive Expr where
  | call (callee : Expr) (arguments : List Expr)
  | member (object property : Expr) (computed : Bool)
  | object (properties : List ObjectMember)
  | array (elements : List ArrayElement)
  | identifier (name : String)
  /-- The parser makes an object of a regular expression. -/
  | literal (value : Value)
  /-- The text of each quasi is its cooked value, or the raw one. -/
  | template (quasis : List String) (expressions : List Expr)
  | spread (argument : Expr)
  | unary (operator : String) (argument : Expr)
  | binary (operator : String) (left right : Expr)
  | logical (operator : String) (left right : Expr)
  | conditional (test consequent alternate : Expr)
  | assignment (operator : String) (left right : Expr)
  | other (type : String)

inductive ObjectMember where
  | spread (argument : Expr)
  | property (key value : Expr)

inductive ArrayElement where
  | hole
  | spread (argument : Expr)
  | element (value : Expr)

end

/-- The type of a node. -/
def Expr.type : Expr → String
  | .call .. => "CallExpression"
  | .member .. => "MemberExpression"
  | .object _ => "ObjectExpression"
  | .array _ => "ArrayExpression"
  | .identifier _ => "Identifier"
  | .literal _ => "Literal"
  | .template .. => "TemplateLiteral"
  | .spread _ => "SpreadElement"
  | .unary .. => "UnaryExpression"
  | .binary .. => "BinaryExpression"
  | .logical .. => "LogicalExpression"
  | .conditional .. => "ConditionalExpression"
  | .assignment .. => "AssignmentExpression"
  | .other type => type

def Expr.isIdentifier (node : Expr) (name : String) : Bool :=
  match node with
  | .identifier n => n = name
  | _ => false

/-- A declarator with an identifier, or with a pattern. -/
structure Declarator where
  id : Option String
  init : Option Expr

inductive Statement where
  | variableDeclaration (kind : String) (declarations : List Declarator)
  | expression (expression : Expr)
  | exportDefault (declaration : Expr)
  | other (type : String)

abbrev Program := List Statement

def allowedSdkFunctions : List String :=
  ["workflow", "node", "trigger", "sticky", "placeholder", "newCredential", "ifElse", "switchCase",
    "merge", "splitInBatches", "nextBatch", "languageModel", "memory", "tool", "outputParser",
    "embedding", "embeddings", "vectorStore", "retriever", "documentLoader", "textSplitter",
    "reranker", "fromAi", "nodeJson"]

def autoRenameableSdkFunctions : List String :=
  ["languageModel", "memory", "tool", "outputParser", "embedding", "embeddings", "vectorStore",
    "retriever", "documentLoader", "textSplitter", "reranker"]

def isAllowedSDKFunction (name : String) : Bool := name ∈ allowedSdkFunctions

def isAutoRenameableSDKFunction (name : String) : Bool := name ∈ autoRenameableSdkFunctions

def allowedMethods : List String :=
  ["add", "to", "input", "output", "onError", "onTrue", "onFalse", "onCase", "onEachBatch",
    "onDone", "connect", "toJSON", "validate"]

def isAllowedMethod (name : String) : Bool := name ∈ allowedMethods

def dangerousGlobals : List String :=
  ["eval", "Function", "require", "import", "process", "global", "globalThis", "window",
    "document", "setTimeout", "setInterval", "setImmediate", "clearTimeout", "clearInterval",
    "clearImmediate", "__dirname", "__filename", "module", "exports", "Buffer", "Reflect", "Proxy",
    "Object", "Array", "String", "Number", "Boolean", "Symbol", "BigInt", "JSON", "Math", "Date",
    "RegExp", "Promise", "WeakRef", "WeakMap", "WeakSet", "Map", "Set", "ArrayBuffer",
    "SharedArrayBuffer", "DataView", "Atomics", "WebAssembly", "fetch", "XMLHttpRequest",
    "queueMicrotask", "structuredClone", "Error", "TypeError", "RangeError", "console"]

/-- The types of node with a message of their own. -/
def forbiddenNodeTypes : List (String × String) :=
  [("ArrowFunctionExpression", "Arrow functions are not allowed. Use fromAi() directly instead" ++
      " of ($) => $.fromAi()"),
    ("FunctionExpression", "Function expressions are not allowed in SDK code"),
    ("FunctionDeclaration", "Function declarations are not allowed in SDK code"),
    ("ClassDeclaration", "Class declarations are not allowed in SDK code"),
    ("ClassExpression", "Class expressions are not allowed in SDK code"),
    ("ForStatement", "For loops are not allowed in SDK code"),
    ("ForInStatement", "For-in loops are not allowed in SDK code"),
    ("ForOfStatement", "For-of loops are not allowed in SDK code"),
    ("WhileStatement", "While loops are not allowed in SDK code"),
    ("DoWhileStatement", "Do-while loops are not allowed in SDK code"),
    ("TryStatement", "Try-catch is not allowed in SDK code"),
    ("ThrowStatement", "Throw statements are not allowed in SDK code"),
    ("WithStatement", "With statements are not allowed in SDK code"),
    ("UpdateExpression", "Update expressions (++, --) are not allowed in SDK code"),
    ("NewExpression", "new expressions are not allowed. Use SDK factory functions instead."),
    ("ImportDeclaration", "Import declarations are not allowed in SDK code"),
    ("ImportExpression", "Dynamic imports are not allowed in SDK code"),
    ("ExportNamedDeclaration", "Named exports are not allowed. Use export default only."),
    ("ExportAllDeclaration", "Re-exports are not allowed in SDK code"),
    ("AwaitExpression", "Await expressions are not allowed in SDK code"),
    ("YieldExpression", "Yield expressions are not allowed in SDK code")]

/-- What `validateNodeType` throws for a node without a constructor of its own; where it does not
(`Program`, `VariableDeclarator`, `TemplateElement`, `Property`), the visitors throw the same for
the type alone. -/
def unsupportedNode (type : String) : Err :=
  match forbiddenNodeTypes.lookup type with
  | some message => .unsupportedNode (type ++ ": " ++ message)
  | none => .unsupportedNode type

/-- `validateIdentifier`. -/
def validateIdentifier (name : String) : Except Err PUnit :=
  if name ∈ dangerousGlobals then throw (.security name) else return ⟨⟩

def validateCallExpression (callee : Expr) : Except Err PUnit :=
  match callee with
  | .identifier name =>
    if name = "eval" then throw (.security "eval()")
    else if name = "Function" then throw (.security "Function()")
    else if name = "require" then throw (.security "require()")
    else return ⟨⟩
  | .member _ (.identifier name) _ =>
    if name = "constructor" then throw (.security "constructor access") else return ⟨⟩
  | _ => return ⟨⟩

/-- The name that a property node has for `validateMemberExpression`. -/
def staticName : Expr → Option String
  | .identifier name => some name
  | .literal (.prim (.string s)) => some s
  | _ => none

def isLiteral : Expr → Bool
  | .literal _ => true
  | _ => false

def dangerousProperties : List String := ["__proto__", "prototype", "constructor"]

def validateMemberExpression (property : Expr) (computed : Bool) : Except Err PUnit :=
  if computed && !isLiteral property then
    throw (.security "Dynamic property access is not allowed. Use static property names.")
  else
    match staticName property with
    | some propName =>
      if propName ∈ dangerousProperties then throw (.security propName) else return ⟨⟩
    | none => return ⟨⟩

end SdkCode

end N8n
