import Mathlib
import N8n.Foundations.Decimal
import N8n.Foundations.InsertionSet
import N8n.Foundations.SetAll

/-!
# Variable names of generated code

The code generator names the variable of a node after the node (`toVarName`). Different nodes may
have the same name by this rule, so that the name is made unique by a counter when it is registered
(`getUniqueVarName`).

The names are identifiers and different. `toVarName` avoids the words of `reservedKeywords`. Some of
the reserved words and of the functions that the interpreter provides, and some names that the code
cannot declare, are not among them, and a node that is named after one of these gives it to its
variable (`namesUsable_iff`).
-/

namespace N8n

namespace WorkflowSdk

/-! ### Names -/

def reservedKeywords : List String :=
  [ -- JavaScript reserved words
    "break", "case", "catch", "class", "const", "continue", "debugger", "default", "delete", "do",
    "else", "export", "extends", "finally", "for", "function", "if", "import", "in", "instanceof",
    "let", "new", "return", "static", "super", "switch", "this", "throw", "try", "typeof", "var",
    "void", "while", "with", "yield",
    -- JavaScript literals
    "null", "true", "false", "undefined",
    -- SDK functions
    "workflow", "trigger", "node", "merge", "ifElse", "switchCase", "splitInBatches", "sticky",
    "languageModel", "tool", "memory", "outputParser", "textSplitter", "embeddings",
    "vectorStore", "retriever", "document",
    -- dangerous globals
    "eval", "Function", "require", "process", "global", "globalThis", "window", "setTimeout",
    "setInterval", "setImmediate", "clearTimeout", "clearInterval", "clearImmediate", "module",
    "exports", "Buffer", "Reflect", "Proxy"]

/-- The UTF-16 code units of a character. -/
def codeUnits (c : Char) : List ℕ :=
  if c.toNat < 0x10000 then [c.toNat]
  else [0xD800 + (c.toNat - 0x10000) / 0x400, 0xDC00 + (c.toNat - 0x10000) % 0x400]

/-- A number in base 36. -/
def toBase36 (n : ℕ) : String :=
  let digits := "0123456789abcdefghijklmnopqrstuvwxyz".toList
  if n = 0 then "0" else String.ofList ((Nat.digits 36 n).reverse.map fun d => digits.getD d '0')

/-- A name made of a hash of the code units, in 32-bit arithmetic. -/
def hashFallbackName (nodeName : String) : String :=
  let hash := (nodeName.toList.flatMap codeUnits).foldl (fun (hash : ℤ) (unit : ℕ) =>
    ((hash * 2 ^ 5).bmod (2 ^ 32) - hash + unit).bmod (2 ^ 32)) 0
  "node_" ++ toBase36 hash.natAbs

/-- Replace runs of underscores by one. -/
def collapseUnderscores : List Char → List Char
  | [] => []
  | c :: rest =>
    if c = '_' ∧ (collapseUnderscores rest).head? = some '_' then collapseUnderscores rest
    else c :: collapseUnderscores rest

/-- The letters and digits of a name, and one underscore for what stands between them. -/
def withUnderscores (nodeName : List Char) : List Char :=
  collapseUnderscores (nodeName.map fun c => if c.isAlphanum then c else '_')

def trimUnderscore (varName : List Char) : List Char :=
  if varName.getLast? = some '_' then varName.dropLast else varName

def lowerFirst : List Char → List Char
  | [] => []
  | c :: rest => (if c.isUpper then c.toLower else c) :: rest

def varNameChars (nodeName : String) : List Char :=
  lowerFirst (trimUnderscore (withUnderscores nodeName.toList))

/-- No underscore stands before a leading letter. -/
def dropUnderscore : List Char → List Char
  | '_' :: c :: rest => if c.isAlpha then c :: rest else '_' :: c :: rest
  | varName => varName

/-- An underscore stands before a leading digit, and not before a leading letter. -/
def withLegalStart (varName : List Char) : List Char :=
  dropUnderscore (if varName.head?.any Char.isDigit then '_' :: varName else varName)

def toVarName (nodeName : String) : String :=
  let varName := varNameChars nodeName
  if varName = [] ∨ varName = ['_'] then hashFallbackName nodeName
  else
    let name := String.ofList (withLegalStart varName)
    if name ∈ reservedKeywords then name ++ "_node" else name

example : ["HTTP Request", "2nd Set", "If", "Switch", "Get_Analysis"].map toVarName =
    ["hTTP_Request", "_2nd_Set", "if_node", "switch_node", "get_Analysis"] := by decide

/-! ### Unique names -/

structure VarNameContext where
  nodeNameToVarName : InsertionMap String String := .empty
  usedVarNames : InsertionSet String := .empty
  deriving DecidableEq

def getVarName (nodeName : String) (ctx : VarNameContext) : String :=
  (ctx.nodeNameToVarName.get? nodeName).getD (toVarName nodeName)

/-- The names that are tried: the name itself, and then the name with a counter. -/
def varNameCandidate (baseVarName : String) : ℕ → String
  | 0 => baseVarName
  | counter + 1 => baseVarName ++ toString (counter + 1)

/-- The first candidate that is not used. With `fuel` used names left to meet, the search has found
one. -/
def unusedVarName (baseVarName : String) (used : InsertionSet String) : ℕ → ℕ → String
  | 0, counter => varNameCandidate baseVarName counter
  | fuel + 1, counter =>
    if varNameCandidate baseVarName counter ∈ used then
      unusedVarName baseVarName used fuel (counter + 1)
    else varNameCandidate baseVarName counter

def getUniqueVarName (nodeName : String) (ctx : VarNameContext) : String × VarNameContext :=
  match ctx.nodeNameToVarName.get? nodeName with
  | some varName => (varName, ctx)
  | none =>
    let varName := unusedVarName (toVarName nodeName) ctx.usedVarNames
      ctx.usedVarNames.elements.length 0
    (varName, {
      nodeNameToVarName := ctx.nodeNameToVarName.set nodeName varName
      usedVarNames := ctx.usedVarNames.add varName })

/-- Register names, one after the other. -/
def registerVarNames (nodeNames : List String) : VarNameContext :=
  nodeNames.foldl (fun ctx nodeName => (getUniqueVarName nodeName ctx).2) {}

theorem varNameCandidate_injective (baseVarName : String) :
    Function.Injective (varNameCandidate baseVarName) := by
  have hcounter : ∀ counter : ℕ, baseVarName ≠ baseVarName ++ toString (counter + 1) := by
    intro counter h
    have hlist := congrArg String.toList h
    rw [String.toList_append, List.self_eq_append_right] at hlist
    exact Decimal.toString_toList_ne_nil _ hlist
  intro i j h
  cases i with
  | zero =>
    cases j with
    | zero => rfl
    | succ j => exact absurd h (hcounter j)
  | succ i =>
    cases j with
    | zero => exact absurd h.symm (hcounter i)
    | succ j =>
      have hlist := congrArg String.toList h
      simp only [varNameCandidate, String.toList_append, List.append_cancel_left_eq] at hlist
      exact Decimal.toString_injective (String.toList_inj.mp hlist)

theorem exists_unusedVarName_eq (baseVarName : String) (used : InsertionSet String)
    (fuel counter : ℕ) : ∃ k, unusedVarName baseVarName used fuel counter =
      varNameCandidate baseVarName k := by
  induction fuel generalizing counter with
  | zero => exact ⟨counter, rfl⟩
  | succ fuel ih =>
    rw [unusedVarName]
    split
    · exact ih (counter + 1)
    · exact ⟨counter, rfl⟩

private theorem unusedVarName_free {baseVarName : String} {used : InsertionSet String}
    (fuel counter k : ℕ) (hk : k ≤ fuel)
    (hfree : varNameCandidate baseVarName (counter + k) ∉ used) :
    unusedVarName baseVarName used fuel counter ∉ used := by
  induction fuel generalizing counter k with
  | zero =>
    obtain rfl : k = 0 := Nat.le_zero.mp hk
    exact hfree
  | succ fuel ih =>
    rw [unusedVarName]
    split
    · next htaken =>
      cases k with
      | zero => exact absurd htaken hfree
      | succ k =>
        have hnext : counter + (k + 1) = counter + 1 + k := by omega
        rw [hnext] at hfree
        exact ih (counter + 1) k (by omega) hfree
    · next hnew => exact hnew

/-- The search ends at a name that is not used. -/
theorem unusedVarName_notMem (baseVarName : String) (used : InsertionSet String) :
    unusedVarName baseVarName used used.elements.length 0 ∉ used := by
  obtain ⟨k, hk, hnew⟩ := InsertionSet.exists_le_length_notMem
    (varNameCandidate_injective baseVarName) used.elements
  rw [← Nat.zero_add k] at hnew
  exact unusedVarName_free _ 0 k hk hnew

/-- A name that is not used is taken without a counter. -/
theorem unusedVarName_of_notMem {baseVarName : String} {used : InsertionSet String} (fuel : ℕ)
    (h : baseVarName ∉ used) : unusedVarName baseVarName used fuel 0 = baseVarName := by
  cases fuel with
  | zero => rfl
  | succ fuel => exact if_neg h

/-! ### Registered names -/

/-- What holds of a context after the names of a list have been registered. -/
structure Registered (nodeNames : List String) (ctx : VarNameContext) : Prop where
  keys : ∀ n, n ∈ ctx.nodeNameToVarName.keys ↔ n ∈ nodeNames
  used : ∀ v, v ∈ ctx.usedVarNames ↔ ∃ n, ctx.nodeNameToVarName.get? n = some v
  injective : ∀ m n v, ctx.nodeNameToVarName.get? m = some v →
    ctx.nodeNameToVarName.get? n = some v → m = n
  candidate : ∀ n v, ctx.nodeNameToVarName.get? n = some v →
    ∃ k, v = varNameCandidate (toVarName n) k
  first : ∀ name, (∀ base k, varNameCandidate base (k + 1) ≠ name) → ∀ n,
    ctx.nodeNameToVarName.get? n = some name ↔
      nodeNames.find? (fun n => toVarName n = name) = some n

namespace Registered

theorem empty : Registered [] {} where
  keys := fun _ => Iff.rfl
  used := fun _ => ⟨fun h => absurd h (InsertionSet.notMem_empty _), fun ⟨_, h⟩ => nomatch h⟩
  injective := fun _ _ _ h => nomatch h
  candidate := fun _ _ h => nomatch h
  first := fun _ _ _ => ⟨nofun, nofun⟩

theorem step {nodeNames : List String} {ctx : VarNameContext} (h : Registered nodeNames ctx)
    (nodeName : String) :
    Registered (nodeNames ++ [nodeName]) (getUniqueVarName nodeName ctx).2 := by
  have hfind : ∀ name, (nodeNames ++ [nodeName]).find? (fun n => toVarName n = name) =
      (nodeNames.find? fun n => toVarName n = name).or
        (if toVarName nodeName = name then some nodeName else none) := by
    intro name
    rw [List.find?_append, List.find?_singleton]
    simp only [decide_eq_true_eq]
  rw [getUniqueVarName]
  cases hget : ctx.nodeNameToVarName.get? nodeName with
  | some varName =>
    -- the name is registered already
    have hmem : nodeName ∈ nodeNames := (h.keys nodeName).mp
      (InsertionMap.mem_keys.mpr ⟨varName, InsertionMap.get?_eq_some_iff.mp hget⟩)
    refine ⟨fun n => ?_, h.used, h.injective, h.candidate, fun name hname n => ?_⟩
    · rw [h.keys n, List.mem_append, List.mem_singleton]
      exact ⟨Or.inl, fun hn => hn.elim id fun heq => heq ▸ hmem⟩
    · rw [h.first name hname n, hfind]
      cases hfound : nodeNames.find? fun n => toVarName n = name with
      | some _ => rfl
      | none =>
        have hne := of_decide_eq_false (Bool.eq_false_iff.mpr
          (List.find?_eq_none.mp hfound nodeName hmem))
        rw [if_neg hne]
        rfl
  | none =>
    let varName := unusedVarName (toVarName nodeName) ctx.usedVarNames
      ctx.usedVarNames.elements.length 0
    have hnew : varName ∉ ctx.usedVarNames := unusedVarName_notMem _ _
    have hnone : ∀ n, ctx.nodeNameToVarName.get? n ≠ some varName :=
      fun n hn => hnew ((h.used varName).mpr ⟨n, hn⟩)
    have hset : ∀ n v, (ctx.nodeNameToVarName.set nodeName varName).get? n = some v ↔
        n = nodeName ∧ varName = v ∨ n ≠ nodeName ∧ ctx.nodeNameToVarName.get? n = some v := by
      intro n v
      by_cases hn : n = nodeName
      · subst hn
        rw [InsertionMap.get?_set_self]
        simp
      · rw [InsertionMap.get?_set_of_ne _ hn]
        simp [hn]
    have hcandidate := exists_unusedVarName_eq (toVarName nodeName) ctx.usedVarNames
      ctx.usedVarNames.elements.length 0
    refine ⟨fun n => ?_, fun v => ?_, fun m n v hm hn => ?_, fun n v hn => ?_,
      fun name hname n => ?_⟩
    · rw [InsertionMap.mem_keys_set, h.keys n, List.mem_append, List.mem_singleton, or_comm]
    · rw [InsertionSet.mem_add, h.used v]
      constructor
      · rintro (rfl | ⟨n, hn⟩)
        · exact ⟨nodeName, (hset _ _).mpr (Or.inl ⟨rfl, rfl⟩)⟩
        · refine ⟨n, (hset _ _).mpr (Or.inr ⟨?_, hn⟩)⟩
          rintro rfl
          exact absurd (hget.symm.trans hn) (by simp)
      · rintro ⟨n, hn⟩
        obtain ⟨-, rfl⟩ | ⟨-, hn⟩ := (hset _ _).mp hn
        · exact Or.inl rfl
        · exact Or.inr ⟨n, hn⟩
    · obtain ⟨rfl, rfl⟩ | ⟨-, hm⟩ := (hset _ _).mp hm
      · obtain ⟨rfl, -⟩ | ⟨-, hn⟩ := (hset _ _).mp hn
        · rfl
        · exact absurd hn (hnone n)
      · obtain ⟨-, rfl⟩ | ⟨-, hn⟩ := (hset _ _).mp hn
        · exact absurd hm (hnone m)
        · exact h.injective m n v hm hn
    · obtain ⟨rfl, rfl⟩ | ⟨-, hn⟩ := (hset _ _).mp hn
      · exact hcandidate
      · exact h.candidate n v hn
    · rw [hset, h.first name hname n, hfind]
      cases hfound : nodeNames.find? fun n => toVarName n = name with
      | some m =>
        -- the name is taken, so that the new node gets another one
        have hm := (h.first name hname m).mpr hfound
        have hne : varName ≠ name := fun heq => hnone m (heq ▸ hm)
        simp only [Option.some_or, Option.some.injEq]
        constructor
        · rintro (⟨-, heq⟩ | ⟨-, heq⟩)
          · exact absurd heq hne
          · exact heq
        · rintro rfl
          refine Or.inr ⟨?_, rfl⟩
          rintro rfl
          exact absurd (hget.symm.trans hm) (by simp)
      | none =>
        rw [Option.none_or]
        have hunused : name ∉ ctx.usedVarNames := by
          rw [h.used name]
          rintro ⟨m, hm⟩
          exact absurd (hfound.symm.trans ((h.first name hname m).mp hm)) (by simp)
        constructor
        · rintro (⟨rfl, heq⟩ | ⟨-, hnone⟩)
          · obtain ⟨k, hk⟩ := hcandidate
            cases k with
            | zero =>
              have hbase : toVarName n = name := hk.symm.trans heq
              rw [if_pos hbase]
            | succ k => exact absurd (hk.symm.trans heq) (hname _ k)
          · exact absurd hnone (by simp)
        · intro hsome
          split at hsome
          · next hbase =>
            obtain rfl := Option.some.inj hsome
            refine Or.inl ⟨rfl, ?_⟩
            rw [← hbase] at hunused
            exact (unusedVarName_of_notMem _ hunused).trans hbase
          · exact absurd hsome (by simp)

theorem registerVarNames (nodeNames : List String) :
    Registered nodeNames (registerVarNames nodeNames) := by
  have hloop : ∀ (l done : List String) (ctx : VarNameContext), Registered done ctx →
      Registered (done ++ l)
        (l.foldl (fun ctx nodeName => (getUniqueVarName nodeName ctx).2) ctx) := by
    intro l
    induction l with
    | nil => exact fun done ctx h => by rwa [List.append_nil]
    | cons nodeName l ih =>
      intro done ctx h
      have hrest := ih _ _ (h.step nodeName)
      rwa [List.append_assoc] at hrest
  exact hloop nodeNames [] {} empty

variable {nodeNames : List String} {ctx : VarNameContext} (h : Registered nodeNames ctx)

include h

/-- A registered name has its variable name. -/
theorem get? {n : String} (hn : n ∈ nodeNames) :
    ctx.nodeNameToVarName.get? n = some (getVarName n ctx) := by
  obtain ⟨v, hv⟩ := InsertionMap.mem_keys.mp ((h.keys n).mpr hn)
  have hget := InsertionMap.get?_eq_some_iff.mpr hv
  rw [getVarName, hget]
  rfl

/-- Different nodes have different variable names. -/
theorem getVarName_inj {m n : String} (hm : m ∈ nodeNames) (hn : n ∈ nodeNames)
    (heq : getVarName m ctx = getVarName n ctx) : m = n :=
  h.injective m n _ (h.get? hm) (heq ▸ h.get? hn)

end Registered

/-! ### The claim -/

/-- The reserved words of module code. -/
def reservedWords : List String :=
  ["await", "break", "case", "catch", "class", "const", "continue", "debugger", "default", "delete",
    "do", "else", "enum", "export", "extends", "false", "finally", "for", "function", "if",
    "import", "in", "instanceof", "new", "null", "return", "super", "switch", "this", "throw",
    "true", "try", "typeof", "var", "void", "while", "with", "yield",
    -- of strict code
    "implements", "interface", "let", "package", "private", "protected", "public", "static"]

/-- The functions that `parseWorkflowCode` gives the interpreter. -/
def sdkFunctions : List String :=
  ["workflow", "node", "trigger", "sticky", "placeholder", "newCredential", "ifElse", "switchCase",
    "merge", "splitInBatches", "nextBatch", "languageModel", "memory", "tool", "outputParser",
    "embedding", "embeddings", "vectorStore", "retriever", "documentLoader", "textSplitter",
    "reranker", "fromAi", "expr", "nodeJson"]

/-- Names that are no reserved words and still cannot be declared in generated code: module code
does not bind the first two, and the third one is the variable of the workflow itself. -/
def undeclarableNames : List String := ["arguments", "eval", "wf"]

/-- An identifier, of ASCII characters. -/
def IsIdentifier (name : String) : Prop :=
  ∃ c rest, name.toList = c :: rest ∧ (c.isAlpha ∨ c = '_') ∧
    ∀ d ∈ rest, d.isAlphanum ∨ d = '_'

/-- The variables of the nodes have different names, and the code that declares them is parsed. -/
structure NamesUsable (nodeNames : List String) : Prop where
  distinct : ∀ m ∈ nodeNames, ∀ n ∈ nodeNames,
    getVarName m (registerVarNames nodeNames) = getVarName n (registerVarNames nodeNames) → m = n
  valid : ∀ n ∈ nodeNames, IsIdentifier (getVarName n (registerVarNames nodeNames))
  free : ∀ n ∈ nodeNames,
    getVarName n (registerVarNames nodeNames) ∉ reservedWords ++ sdkFunctions
  declarable : ∀ n ∈ nodeNames,
    getVarName n (registerVarNames nodeNames) ∉ undeclarableNames

/-! ### The condition -/

/-- The words that `reservedKeywords` lacks. -/
def missingWords : List String :=
  (reservedWords ++ sdkFunctions ++ undeclarableNames).filter (· ∉ reservedKeywords)

/-- The name is the word between other characters than letters and digits; or nothing stands before
the word, whose first letter may be a capital one then. -/
def NamedAfter (nodeName word : String) : Prop :=
  ∃ before middle after, nodeName.toList = before ++ middle ++ after ∧
    (∀ c ∈ before ++ after, ¬c.isAlphanum) ∧
      (middle = word.toList ∨ before = [] ∧ lowerFirst middle = word.toList)

/-! ### From a name to the word -/

/-- A lowercase letter, and letters. -/
def IsWord (word : List Char) : Prop :=
  ∃ c rest, word = c :: rest ∧ c.isLower ∧ ∀ d ∈ rest, d.isAlpha

instance (word : List Char) : Decidable (IsWord word) :=
  match word with
  | [] => isFalse fun ⟨_, _, h, _⟩ => nomatch h
  | c :: rest => decidable_of_iff (c.isLower ∧ rest.all Char.isAlpha)
      ⟨fun h => ⟨c, rest, rfl, h.1, List.all_eq_true.mp h.2⟩, fun ⟨_, _, heq, h⟩ => by
        obtain ⟨rfl, rfl⟩ := List.cons.inj heq
        exact ⟨h.1, List.all_eq_true.mpr h.2⟩⟩

theorem isWord_of_mem {word : String}
    (h : word ∈ reservedWords ++ sdkFunctions ++ undeclarableNames) : IsWord word.toList := by
  have hall : ∀ word ∈ reservedWords ++ sdkFunctions ++ undeclarableNames,
      IsWord word.toList := by decide +kernel
  exact hall word h

theorem not_isAlphanum_underscore : ¬('_').isAlphanum := by decide

theorem ne_underscore_of_isAlphanum {c : Char} (h : c.isAlphanum) : c ≠ '_' := by
  rintro rfl
  exact not_isAlphanum_underscore h

section Underscores

variable {c : Char} {l u rest : List Char}

/-- A letter or digit is kept. -/
theorem withUnderscores_cons (hc : c.isAlphanum) :
    withUnderscores (c :: rest) = c :: withUnderscores rest := by
  rw [withUnderscores, List.map_cons, if_pos hc, collapseUnderscores, if_neg, withUnderscores]
  exact fun h => ne_underscore_of_isAlphanum hc h.1

/-- Another character becomes an underscore, if there is none. -/
theorem withUnderscores_cons_of_not (hc : ¬c.isAlphanum) :
    withUnderscores (c :: rest) =
      if (withUnderscores rest).head? = some '_' then withUnderscores rest
      else '_' :: withUnderscores rest := by
  rw [withUnderscores, List.map_cons, if_neg hc, collapseUnderscores, withUnderscores]
  exact if_congr (and_iff_right rfl) rfl rfl

/-- Letters and digits in front are read back. -/
theorem withUnderscores_eq_append_iff {word t : List Char} (hword : ∀ d ∈ word, d.isAlphanum) :
    withUnderscores l = word ++ t ↔ ∃ after, l = word ++ after ∧ withUnderscores after = t := by
  induction word generalizing l with
  | nil => simp
  | cons d word ih =>
    obtain ⟨hd, hrest⟩ := List.forall_mem_cons.mp hword
    constructor
    · intro h
      cases l with
      | nil => contradiction
      | cons c l =>
        by_cases hc : c.isAlphanum
        · rw [withUnderscores_cons hc, List.cons_append] at h
          obtain ⟨rfl, htail⟩ := List.cons.inj h
          obtain ⟨after, rfl, hafter⟩ := (ih hrest).mp htail
          exact ⟨after, rfl, hafter⟩
        · rw [withUnderscores_cons_of_not hc] at h
          -- another character leaves an underscore in front, which is no letter or digit
          have hhead : (d :: word ++ t).head? = some '_' := by
            rw [← h]
            split_ifs with hunderscore
            · exact hunderscore
            · rfl
          exact absurd (Option.some.inj hhead) (ne_underscore_of_isAlphanum hd)
    · rintro ⟨after, rfl, rfl⟩
      rw [List.cons_append, withUnderscores_cons hd, (ih hrest).mpr ⟨after, rfl, rfl⟩,
        List.cons_append]

/-- An underscore in front stands for other characters. -/
theorem withUnderscores_eq_underscore_iff (hu : u.head? ≠ some '_') :
    withUnderscores l = '_' :: u ↔ ∃ before after, before ≠ [] ∧ l = before ++ after ∧
      (∀ c ∈ before, ¬c.isAlphanum) ∧ withUnderscores after = u := by
  constructor
  · intro h
    induction l with
    | nil => contradiction
    | cons c l ih =>
      by_cases hc : c.isAlphanum
      · rw [withUnderscores_cons hc] at h
        exact absurd (List.cons.inj h).1 (ne_underscore_of_isAlphanum hc)
      · rw [withUnderscores_cons_of_not hc] at h
        split_ifs at h with hhead
        -- the underscore of the character behind is its own too
        · obtain ⟨before, after, -, rfl, hbefore, hafter⟩ := ih h
          exact ⟨c :: before, after, List.cons_ne_nil _ _, rfl,
            List.forall_mem_cons.mpr ⟨hc, hbefore⟩, hafter⟩
        · exact ⟨[c], l, List.cons_ne_nil _ _, rfl, by simpa using hc, (List.cons.inj h).2⟩
  · rintro ⟨before, after, hne, rfl, hbefore, rfl⟩
    induction before with
    | nil => exact absurd rfl hne
    | cons c before ih =>
      obtain ⟨hc, hbefore⟩ := List.forall_mem_cons.mp hbefore
      rw [List.cons_append, withUnderscores_cons_of_not hc]
      cases before with
      | nil => rw [List.nil_append, if_neg hu]
      | cons d before => rw [ih (List.cons_ne_nil _ _) hbefore, List.head?_cons, if_pos rfl]

/-- What is left when the underscores have been trimmed. -/
theorem trimUnderscore_eq_iff (hu : u.getLast? ≠ some '_') :
    trimUnderscore l = u ↔ l = u ∨ l = u ++ ['_'] := by
  rw [trimUnderscore]
  split_ifs with hl
  · rw [or_iff_right]
    · constructor
      · rintro rfl
        exact (List.dropLast_append_getLast? _ hl).symm
      · rintro rfl
        exact List.dropLast_concat
    · rintro rfl
      exact hu hl
  · rw [or_iff_left]
    rintro rfl
    exact hl List.getLast?_concat

end Underscores

section Words

variable {word middle nodeName : List Char}

theorem withUnderscores_eq_nil_iff : withUnderscores nodeName = [] ↔ nodeName = [] := by
  cases nodeName with
  | nil => exact iff_of_true rfl rfl
  | cons c rest =>
    refine iff_of_false ?_ (List.cons_ne_nil _ _)
    by_cases hc : c.isAlphanum
    · rw [withUnderscores_cons hc]
      exact List.cons_ne_nil _ _
    · rw [withUnderscores_cons_of_not hc]
      split_ifs with hhead
      · intro hnil
        rw [hnil] at hhead
        contradiction
      · exact not_false

/-- Nothing, or one underscore, is left of other characters. -/
theorem withUnderscores_eq_nil_or_iff {n : List Char} :
    withUnderscores n = [] ∨ withUnderscores n = ['_'] ↔ ∀ c ∈ n, ¬c.isAlphanum := by
  rw [withUnderscores_eq_underscore_iff (by simp), withUnderscores_eq_nil_iff]
  constructor
  · rintro (rfl | ⟨before, after, -, rfl, hbefore, hafter⟩)
    · exact fun c hc => absurd hc List.not_mem_nil
    · rwa [withUnderscores_eq_nil_iff.mp hafter, List.append_nil]
  · intro h
    by_cases hnil : n = []
    · exact Or.inl hnil
    · exact Or.inr ⟨n, [], hnil, (List.append_nil _).symm, h, rfl⟩

theorem getLast?_ne_underscore (hmiddle : ∀ c ∈ middle, c.isAlphanum) :
    middle.getLast? ≠ some '_' :=
  fun h => not_isAlphanum_underscore (hmiddle '_' (List.mem_of_getLast? h))

/-- Nothing stands before the letters and digits. -/
theorem trimUnderscore_eq_middle_iff (hmiddle : ∀ c ∈ middle, c.isAlphanum) :
    trimUnderscore (withUnderscores nodeName) = middle ↔
      ∃ after, nodeName = middle ++ after ∧ ∀ c ∈ after, ¬c.isAlphanum := by
  have hnil := withUnderscores_eq_append_iff (l := nodeName) (t := []) hmiddle
  rw [List.append_nil] at hnil
  rw [trimUnderscore_eq_iff (getLast?_ne_underscore hmiddle), hnil,
    withUnderscores_eq_append_iff hmiddle, ← exists_or]
  refine exists_congr fun after => ?_
  rw [← and_or_left, withUnderscores_eq_nil_or_iff]

/-- Something stands before them. -/
theorem trimUnderscore_eq_underscore_iff (hmiddle : ∀ c ∈ middle, c.isAlphanum)
    (hne : middle ≠ []) :
    trimUnderscore (withUnderscores nodeName) = '_' :: middle ↔
      ∃ before after, before ≠ [] ∧ nodeName = before ++ middle ++ after ∧
        ∀ c ∈ before ++ after, ¬c.isAlphanum := by
  obtain ⟨c, rest, rfl⟩ := List.exists_cons_of_ne_nil hne
  have hc := ne_underscore_of_isAlphanum (hmiddle c List.mem_cons_self)
  have hhead (t : List Char) : (c :: rest ++ t).head? ≠ some '_' := by simpa using hc
  have hlast : ('_' :: c :: rest).getLast? ≠ some '_' := by
    rw [List.getLast?_cons_cons]
    exact getLast?_ne_underscore hmiddle
  have hread (t : List Char) : withUnderscores nodeName = '_' :: (c :: rest ++ t) ↔
      ∃ before after, before ≠ [] ∧ nodeName = before ++ (c :: rest) ++ after ∧
        (∀ c ∈ before, ¬c.isAlphanum) ∧ withUnderscores after = t := by
    rw [withUnderscores_eq_underscore_iff (hhead t)]
    constructor
    · rintro ⟨before, after, hbefore, rfl, hall, h⟩
      obtain ⟨after, rfl, ht⟩ := (withUnderscores_eq_append_iff hmiddle).mp h
      exact ⟨before, after, hbefore, (List.append_assoc ..).symm, hall, ht⟩
    · rintro ⟨before, after, hbefore, rfl, hall, ht⟩
      exact ⟨before, c :: rest ++ after, hbefore, List.append_assoc .., hall,
        (withUnderscores_eq_append_iff hmiddle).mpr ⟨after, rfl, ht⟩⟩
  have hnil := hread []
  rw [List.append_nil] at hnil
  rw [trimUnderscore_eq_iff hlast, hnil, List.cons_append, hread ['_'], ← exists_or]
  refine exists_congr fun before => ?_
  rw [← exists_or]
  refine exists_congr fun after => ?_
  have hafter := withUnderscores_eq_nil_or_iff (n := after)
  rw [List.forall_mem_append, ← hafter]
  tauto

theorem isLower_toLower {c : Char} (hc : c.isUpper) : c.toLower.isLower := by
  have hall : ∀ n < 91, 65 ≤ n → (Char.ofNat n).toLower.isLower := by decide
  have hbounds : 65 ≤ c.toNat ∧ c.toNat < 91 := by
    simp only [Char.isUpper, ge_iff_le, decide_eq_true_eq, UInt32.le_iff_toNat_le] at hc
    have h65 : 65 ≤ c.toNat := hc.1
    have h90 : c.toNat ≤ 90 := hc.2
    omega
  rw [← Char.ofNat_toNat c]
  exact hall c.toNat hbounds.2 hbounds.1

theorem not_isUpper_of_isLower {c : Char} (hc : c.isLower) : ¬c.isUpper := by
  simp only [Char.isUpper, Char.isLower, ge_iff_le, Bool.and_eq_true, decide_eq_true_eq,
    UInt32.le_iff_toNat_le] at hc ⊢
  exact fun h => absurd (hc.1.trans h.2) (by decide)

theorem lowerFirst_eq_underscore_iff :
    lowerFirst nodeName = '_' :: middle ↔ nodeName = '_' :: middle := by
  cases nodeName with
  | nil => exact iff_of_false (List.cons_ne_nil _ _).symm (List.cons_ne_nil _ _).symm
  | cons c rest =>
    rw [lowerFirst]
    split_ifs with hc
    · refine iff_of_false (fun h => ?_) fun h => ?_
      · have hlower := isLower_toLower hc
        rw [(List.cons.inj h).1] at hlower
        exact absurd hlower (by decide)
      · rw [(List.cons.inj h).1] at hc
        exact absurd hc (by decide)
    · rfl

theorem not_isAlpha_of_isDigit {c : Char} (hc : c.isDigit) : ¬c.isAlpha := by
  simp only [Char.isDigit, Char.isAlpha, Char.isUpper, Char.isLower, ge_iff_le, Bool.and_eq_true,
    Bool.or_eq_true, decide_eq_true_eq, UInt32.le_iff_toNat_le] at hc ⊢
  have h57 : c.val.toNat ≤ 57 := hc.2
  rintro (⟨h65, -⟩ | ⟨h97, -⟩)
  · exact absurd (h65.trans h57) (by decide)
  · exact absurd (h97.trans h57) (by decide)

theorem withLegalStart_eq_iff (hword : IsWord word) :
    withLegalStart nodeName = word ↔ nodeName = word ∨ nodeName = '_' :: word := by
  obtain ⟨w, ws, rfl, hw, -⟩ := hword
  have hne : '_' ≠ w := by
    rintro rfl
    exact absurd hw (by decide)
  have halpha : w.isAlpha := by rw [Char.isAlpha, hw, Bool.or_true]
  have hdigit : ¬w.isDigit := fun h => not_isAlpha_of_isDigit h halpha
  rw [withLegalStart]
  constructor
  · intro h
    split_ifs at h with hhead
    · cases nodeName with
      | nil => contradiction
      | cons c rest =>
        rw [dropUnderscore, if_neg (not_isAlpha_of_isDigit hhead)] at h
        exact absurd (List.cons.inj h).1 hne
    · rw [dropUnderscore.eq_def] at h
      split at h
      · split_ifs at h
        · exact Or.inr (congrArg ('_' :: ·) h)
        · exact absurd (List.cons.inj h).1 hne
      · exact Or.inl h
  · rintro (rfl | rfl)
    · rw [if_neg (by simpa using hdigit), dropUnderscore.eq_def]
      split
      · next heq => exact absurd (List.cons.inj heq).1.symm hne
      · rfl
    · have hfirst : ¬('_' :: w :: ws).head?.any Char.isDigit := by
        rw [List.head?_cons, Option.any_some]
        decide
      rw [if_neg hfirst, dropUnderscore, if_pos halpha]

theorem isAlphanum_of_lowerFirst (hword : IsWord word) (h : lowerFirst middle = word) :
    ∀ c ∈ middle, c.isAlphanum := by
  obtain ⟨w, ws, rfl, hw, hws⟩ := hword
  cases middle with
  | nil => contradiction
  | cons c rest =>
    rw [lowerFirst] at h
    obtain ⟨hc, rfl⟩ := List.cons.inj h
    refine List.forall_mem_cons.mpr
      ⟨?_, fun d hd => by rw [Char.isAlphanum, hws d hd, Bool.true_or]⟩
    rw [Char.isAlphanum, Char.isAlpha]
    split_ifs at hc with hupper
    · rw [hupper, Bool.true_or, Bool.true_or]
    · rw [hc, hw, Bool.or_true, Bool.true_or]

theorem isAlpha_of_isWord (hword : IsWord word) : ∀ c ∈ word, c.isAlpha := by
  obtain ⟨w, ws, rfl, hw, hws⟩ := hword
  exact List.forall_mem_cons.mpr ⟨by rw [Char.isAlpha, hw, Bool.or_true], hws⟩

theorem isAlphanum_of_isWord (hword : IsWord word) : ∀ c ∈ word, c.isAlphanum :=
  fun c hc => by rw [Char.isAlphanum, isAlpha_of_isWord hword c hc, Bool.true_or]

theorem lowerFirst_of_isWord (hword : IsWord word) : lowerFirst word = word := by
  obtain ⟨w, ws, rfl, hw, -⟩ := hword
  rw [lowerFirst, if_neg (not_isUpper_of_isLower hw)]

/-- **Which names are named after a word.** -/
theorem withLegalStart_varNameChars_eq_iff {nodeName word : String} (hword : IsWord word.toList) :
    withLegalStart (varNameChars nodeName) = word.toList ↔ NamedAfter nodeName word := by
  have hne : word.toList ≠ [] := by
    obtain ⟨w, ws, heq, -⟩ := hword
    exact heq ▸ List.cons_ne_nil w ws
  rw [withLegalStart_eq_iff hword, varNameChars, lowerFirst_eq_underscore_iff,
    trimUnderscore_eq_underscore_iff (isAlphanum_of_isWord hword) hne]
  constructor
  · rintro (h | ⟨before, after, -, heq, hother⟩)
    · have hmiddle := isAlphanum_of_lowerFirst hword h
      obtain ⟨after, heq, hother⟩ := (trimUnderscore_eq_middle_iff hmiddle).mp rfl
      exact ⟨[], _, after, heq, hother, Or.inr ⟨rfl, h⟩⟩
    · exact ⟨before, _, after, heq, hother, Or.inl rfl⟩
  · rintro ⟨before, middle, after, heq, hother, hmiddle⟩
    by_cases hbefore : before = []
    · subst hbefore
      have hlower : lowerFirst middle = word.toList := by
        rcases hmiddle with rfl | ⟨-, h⟩
        · exact lowerFirst_of_isWord hword
        · exact h
      refine Or.inl ?_
      rw [(trimUnderscore_eq_middle_iff (isAlphanum_of_lowerFirst hword hlower)).mpr
        ⟨after, heq, hother⟩, hlower]
    · rcases hmiddle with rfl | ⟨h, -⟩
      · exact Or.inr ⟨before, after, hbefore, heq, hother⟩
      · exact absurd h hbefore

end Words

/-! ### Reserved names -/

theorem isAlpha_of_mem_reservedKeywords : ∀ word ∈ reservedKeywords, ∀ c ∈ word.toList,
    c.isAlpha := by
  have hall : ∀ word ∈ reservedKeywords, word.toList.all Char.isAlpha := by decide +kernel
  exact fun word hword => List.all_eq_true.mp (hall word hword)

/-- A word has no underscore. -/
theorem underscore_notMem {word : List Char} (h : ∀ c ∈ word, c.isAlpha) : '_' ∉ word :=
  fun hmem => absurd (h '_' hmem) (by decide)

theorem underscore_mem_hashFallbackName (nodeName : String) :
    '_' ∈ (hashFallbackName nodeName).toList := by
  rw [hashFallbackName, String.toList_append]
  exact List.mem_append_left _ (by decide)

theorem underscore_mem_append_node (name : String) : '_' ∈ (name ++ "_node").toList := by
  rw [String.toList_append]
  exact List.mem_append_right _ (by decide)

theorem toVarName_notMem_reservedKeywords (nodeName : String) :
    toVarName nodeName ∉ reservedKeywords := by
  have hword {name : String} (h : '_' ∈ name.toList) : name ∉ reservedKeywords :=
    fun hmem => underscore_notMem (isAlpha_of_mem_reservedKeywords name hmem) h
  rw [toVarName]
  dsimp only
  split_ifs with hfallback hreserved
  · exact hword (underscore_mem_hashFallbackName nodeName)
  · exact hword (underscore_mem_append_node _)
  · exact hreserved

/-- A node is given a word that the reserved keywords lack if and only if it is named after it. -/
theorem toVarName_eq_iff {nodeName word : String} (hmem : word ∈ missingWords) :
    toVarName nodeName = word ↔ NamedAfter nodeName word := by
  obtain ⟨hmem, hreserved⟩ := List.mem_filter.mp hmem
  have hword := isWord_of_mem hmem
  have hunderscore : '_' ∉ word.toList :=
    fun h => not_isAlphanum_underscore (isAlphanum_of_isWord hword '_' h)
  rw [← withLegalStart_varNameChars_eq_iff hword, toVarName]
  dsimp only
  split_ifs with hfallback htaken
  · refine iff_of_false (fun h => ?_) fun h => ?_
    · exact hunderscore (h ▸ underscore_mem_hashFallbackName nodeName)
    · have hchars := (withLegalStart_eq_iff hword).mp h
      obtain ⟨w, ws, heq, hw, -⟩ := hword
      rw [heq] at hchars
      rcases hfallback with hnil | hunder
      · rw [hnil] at hchars
        exact hchars.elim (by simp) (by simp)
      · rw [hunder] at hchars
        rcases hchars with hchars | hchars
        · exact hunderscore (heq ▸ hchars ▸ List.mem_singleton_self '_')
        · exact absurd (List.cons.inj hchars).2.symm (List.cons_ne_nil _ _)
  · refine iff_of_false (fun h => ?_) fun h => ?_
    · exact hunderscore (h ▸ underscore_mem_append_node _)
    · rw [h, String.ofList_toList] at htaken
      exact absurd htaken (of_decide_eq_true hreserved)
  · rw [← String.toList_inj, String.toList_ofList]

/-! ### Identifiers -/

section Identifiers

variable {l : List Char}

/-- Letters, digits and underscores. -/
def IsName (l : List Char) : Prop := ∀ c ∈ l, c.isAlphanum ∨ c = '_'

instance (l : List Char) : Decidable (IsName l) :=
  decidable_of_iff (l.all fun c => c.isAlphanum || c = '_') (by simp [IsName])

theorem isName_withUnderscores (l : List Char) : IsName (withUnderscores l) := by
  induction l with
  | nil => exact fun c hc => absurd hc List.not_mem_nil
  | cons c rest ih =>
    by_cases hc : c.isAlphanum
    · rw [withUnderscores_cons hc]
      exact List.forall_mem_cons.mpr ⟨Or.inl hc, ih⟩
    · rw [withUnderscores_cons_of_not hc]
      split_ifs
      · exact ih
      · exact List.forall_mem_cons.mpr ⟨Or.inr rfl, ih⟩

theorem isName_varNameChars (nodeName : String) : IsName (varNameChars nodeName) := by
  have htrim : IsName (trimUnderscore (withUnderscores nodeName.toList)) := by
    rw [trimUnderscore]
    split_ifs
    · exact fun c hc => isName_withUnderscores _ c (List.dropLast_subset _ hc)
    · exact isName_withUnderscores _
  rw [varNameChars]
  generalize trimUnderscore (withUnderscores nodeName.toList) = trimmed at *
  cases trimmed with
  | nil => exact htrim
  | cons c rest =>
    obtain ⟨hc, hrest⟩ := List.forall_mem_cons.mp htrim
    refine List.forall_mem_cons.mpr ⟨?_, hrest⟩
    split_ifs with hupper
    · rw [Char.isAlphanum, Char.isAlpha, isLower_toLower hupper, Bool.or_true, Bool.true_or]
      exact Or.inl rfl
    · exact hc

/-- Nothing but a digit in front could be wrong. -/
theorem isIdentifier_withLegalStart (hname : IsName l) (hne : l ≠ []) :
    ∃ c rest, withLegalStart l = c :: rest ∧ (c.isAlpha ∨ c = '_') ∧
      ∀ d ∈ rest, d.isAlphanum ∨ d = '_' := by
  obtain ⟨c, rest, rfl⟩ := List.exists_cons_of_ne_nil hne
  obtain ⟨hc, hrest⟩ := List.forall_mem_cons.mp hname
  rw [withLegalStart, List.head?_cons, Option.any_some]
  split_ifs with hdigit
  · rw [dropUnderscore, if_neg (not_isAlpha_of_isDigit hdigit)]
    exact ⟨'_', c :: rest, rfl, Or.inr rfl, hname⟩
  · have hstart : c.isAlpha ∨ c = '_' := by
      rw [Char.isAlphanum, Bool.or_eq_true] at hc
      exact hc.imp_left fun h => h.resolve_right hdigit
    rw [dropUnderscore.eq_def]
    split
    · next d ds heq =>
      obtain ⟨rfl, rfl⟩ := List.cons.inj heq
      split_ifs with hd
      · exact ⟨d, ds, rfl, Or.inl hd, fun e he => hrest e (List.mem_cons_of_mem _ he)⟩
      · exact ⟨'_', d :: ds, rfl, Or.inr rfl, hrest⟩
    · exact ⟨c, rest, rfl, hstart, hrest⟩

theorem isIdentifier_append {name t : String} (hname : IsIdentifier name) (ht : IsName t.toList) :
    IsIdentifier (name ++ t) := by
  obtain ⟨c, rest, heq, hc, hrest⟩ := hname
  refine ⟨c, rest ++ t.toList, ?_, hc, List.forall_mem_append.mpr ⟨hrest, ht⟩⟩
  rw [String.toList_append, heq, List.cons_append]

theorem isName_toBase36 (n : ℕ) : IsName (toBase36 n).toList := by
  rw [toBase36]
  split_ifs
  · decide
  · rw [String.toList_ofList]
    intro c hc
    obtain ⟨d, -, rfl⟩ := List.mem_map.mp hc
    have hdigits : "0123456789abcdefghijklmnopqrstuvwxyz".toList.all Char.isAlphanum := by decide
    rcases Nat.lt_or_ge d "0123456789abcdefghijklmnopqrstuvwxyz".toList.length with hd | hd
    · rw [List.getD_eq_getElem _ _ hd]
      exact Or.inl (List.all_eq_true.mp hdigits _ (List.getElem_mem hd))
    · rw [List.getD_eq_default _ _ hd]
      exact Or.inl (by decide)

theorem isIdentifier_toVarName (nodeName : String) : IsIdentifier (toVarName nodeName) := by
  rw [toVarName]
  dsimp only
  have hidentifier : varNameChars nodeName ≠ [] →
      IsIdentifier (String.ofList (withLegalStart (varNameChars nodeName))) := by
    intro hne
    rw [IsIdentifier, String.toList_ofList]
    exact isIdentifier_withLegalStart (isName_varNameChars nodeName) hne
  split_ifs with hfallback hreserved
  · have hname : IsName "ode_".toList := by decide
    rw [hashFallbackName]
    exact isIdentifier_append ⟨'n', _, rfl, by decide, hname⟩ (isName_toBase36 _)
  · exact isIdentifier_append (hidentifier (not_or.mp hfallback).1) (by decide)
  · exact hidentifier (not_or.mp hfallback).1

theorem isIdentifier_varNameCandidate {name : String} (h : IsIdentifier name) (counter : ℕ) :
    IsIdentifier (varNameCandidate name counter) := by
  cases counter with
  | zero => exact h
  | succ counter =>
    refine isIdentifier_append h fun c hc => Or.inl ?_
    rw [Char.isAlphanum, Decimal.isDigit_of_mem_toString hc, Bool.or_true]

end Identifiers

/-! ### The names of a sequence of nodes -/

/-- A name with a counter is no word. -/
theorem varNameCandidate_ne_word {word : String} (hword : IsWord word.toList) (name : String)
    (counter : ℕ) : varNameCandidate name (counter + 1) ≠ word := by
  intro h
  obtain ⟨c, hc⟩ := List.exists_mem_of_ne_nil _ (Decimal.toString_toList_ne_nil (counter + 1))
  refine not_isAlpha_of_isDigit (Decimal.isDigit_of_mem_toString hc) ?_
  refine isAlpha_of_isWord hword c ?_
  rw [← h, varNameCandidate, String.toList_append]
  exact List.mem_append_right _ hc

/-- **When the names are usable**: no node is named after a word that the reserved keywords
lack. -/
theorem namesUsable_iff (nodeNames : List String) :
    NamesUsable nodeNames ↔
      ∀ nodeName ∈ nodeNames, ∀ word ∈ missingWords, ¬NamedAfter nodeName word := by
  have hregistered := Registered.registerVarNames nodeNames
  constructor
  · intro h nodeName hmem word hword hnamed
    have hwords := (List.mem_filter.mp hword).1
    have hname := (toVarName_eq_iff hword).mpr hnamed
    -- the first node that is named after the word gets it
    obtain ⟨first, hfirst⟩ : ∃ first,
        nodeNames.find? (fun n => toVarName n = word) = some first := by
      rw [← Option.isSome_iff_exists, List.find?_isSome]
      exact ⟨nodeName, hmem, decide_eq_true hname⟩
    have hget := (hregistered.first word
      (fun base k => varNameCandidate_ne_word (isWord_of_mem hwords) base k) first).mpr hfirst
    have hmem := List.mem_of_find?_eq_some hfirst
    have hfree := h.free first hmem
    have hdeclarable := h.declarable first hmem
    rw [getVarName, hget] at hfree hdeclarable
    exact (List.mem_append.mp hwords).elim hfree hdeclarable
  · intro h
    have hwords (n : String) (hn : n ∈ nodeNames) :
        getVarName n (registerVarNames nodeNames) ∉
          reservedWords ++ sdkFunctions ++ undeclarableNames := by
      intro hwords
      obtain ⟨k, hk⟩ := hregistered.candidate n _ (hregistered.get? hn)
      cases k with
      | zero =>
        rw [hk] at hwords
        replace hwords : toVarName n ∈ reservedWords ++ sdkFunctions ++ undeclarableNames := hwords
        have hmissing : toVarName n ∈ missingWords :=
          List.mem_filter.mpr ⟨hwords, decide_eq_true (toVarName_notMem_reservedKeywords n)⟩
        exact h n hn _ hmissing ((toVarName_eq_iff hmissing).mp rfl)
      | succ k => exact varNameCandidate_ne_word (isWord_of_mem hwords) _ k hk.symm
    refine ⟨fun m hm n hn => hregistered.getVarName_inj hm hn, fun n hn => ?_,
      fun n hn hfree => hwords n hn (List.mem_append_left _ hfree),
      fun n hn hdeclarable => hwords n hn (List.mem_append_right _ hdeclarable)⟩
    obtain ⟨k, hk⟩ := hregistered.candidate n _ (hregistered.get? hn)
    rw [hk]
    exact isIdentifier_varNameCandidate (isIdentifier_toVarName n) k

/-- A node with the name `Enum` gets the variable `enum`. -/
theorem not_namesUsable_enum : ¬NamesUsable ["Enum"] := by
  intro h
  exact absurd (h.free "Enum" (List.mem_singleton_self _)) (by decide +kernel)

end WorkflowSdk

end N8n
