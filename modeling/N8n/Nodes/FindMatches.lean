import N8n.Foundations.NestedLoopJoin
import N8n.Foundations.PlainObject

/-!
# Matching the items of two inputs by fields

`findMatches` of the Merge node compares the items of two inputs on pairs of fields. For each item
of the first input it puts the values to look for in an object, under the names of the fields of
the second input, and looks the object up in the second input.

So of two pairs with one field of the second input the later one overwrites the earlier, and a
pair for the field `__proto__` is lost: `findMatches` is the join on the pairs that are kept
(`findMatches_eq_join`), which is the join on all pairs exactly when the other pairs exclude no
match (`matchesAllPairs_iff`).
-/

namespace N8n.FindMatches

open NestedLoopJoin

universe u v

/-- A value of the language, with numbers of `ν`. A member of `Object.prototype` is known by its
name. -/
inductive Value (ν : Type u)
  | undefined
  | null
  | bool (value : Bool)
  | number (value : ν)
  | string (value : String)
  | array (items : List (Value ν))
  | object (fields : List (String × Value ν))
  | native (name : String)

/-- What the comparison and the reading of fields use of lodash, of `jsonParse` and of numbers. -/
structure Library (ν : Type u) where
  isEqual : Value ν → Value ν → Bool
  get : List (String × Value ν) → String → Value ν
  jsonParse : String → Option (Value ν)
  toText : ν → String
  isZero : ν → Bool
  isOne : ν → Bool
  toLocaleLowerCase : String → String

namespace Value

variable {ν : Type u}

def isUndefined : Value ν → Bool
  | undefined => true
  | _ => false

def isNull : Value ν → Bool
  | null => true
  | _ => false

def typeOf : Value ν → String
  | undefined => "undefined"
  | null => "object"
  | bool _ => "boolean"
  | number _ => "number"
  | string _ => "string"
  | array _ => "object"
  | object _ => "object"
  | native name => if name = "__proto__" then "object" else "function"

def isFalsy : Value ν → Bool
  | null => true
  | string value => value = ""
  | array items => items.isEmpty
  | _ => false

end Value

section Compare

variable {ν : Type u} (lib : Library ν)

def parseStringAndCompareToObject (text : String) (value : Value ν) : Bool :=
  (lib.jsonParse text).any fun parsed => lib.isEqual parsed value

/-- Null, 0 and "0", which the second version of the comparison takes for equal to null. -/
def isNullOrZero : Value ν → Bool
  | .null => true
  | .number n => lib.isZero n
  | .string text => text = "0"
  | _ => false

/-- A boolean and a text or number for it. -/
def standsFor (b : Bool) : Value ν → Bool
  | .string text => lib.toLocaleLowerCase text = (if b then "true" else "false") ||
      text = (if b then "1" else "0")
  | .number n => if b then lib.isOne n else lib.isZero n
  | _ => false

/-- The comparison of values of different types, behind the cases for null and missing values. -/
def compareAcrossTypes (item1 item2 : Value ν) : Bool :=
  match item1, item2 with
  | .number n, .string text => lib.toText n = text
  | .string text, .number n => text = lib.toText n
  | .bool b, item2 => standsFor lib b item2 || lib.isEqual item1 item2
  | item1, .bool b => standsFor lib b item1 || lib.isEqual item1 item2
  | item1, .string text =>
    if item1.typeOf = "object" ∧ !item1.isNull then parseStringAndCompareToObject lib text item1
    else lib.isEqual item1 item2
  | .string text, item2 =>
    if item2.typeOf = "object" ∧ !item2.isNull then parseStringAndCompareToObject lib text item2
    else lib.isEqual item1 item2
  | _, _ => lib.isEqual item1 item2

def fuzzyCompare (useFuzzyCompare : Bool) (compareVersion : ℕ) (item1 item2 : Value ν) : Bool :=
  if !useFuzzyCompare then lib.isEqual item1 item2
  else if !item1.isNull ∧ !item2.isNull ∧ item1.typeOf = item2.typeOf then lib.isEqual item1 item2
  else if 2 ≤ compareVersion ∧ (item1.isNull ∧ isNullOrZero lib item2 ∨
      item2.isNull ∧ isNullOrZero lib item1) then true
  else if item1.isFalsy ∧ item2.isFalsy then true
  else if item1.isFalsy ∧ item2.isUndefined then true
  else if item1.isUndefined ∧ item2.isFalsy then true
  else compareAcrossTypes lib item1 item2

end Compare

/-! ## The source -/

/-- An item, with whatever it has beside its JSON. -/
structure INodeExecutionData (ν : Type u) (ρ : Type v) where
  json : List (String × Value ν)
  rest : ρ

structure PairToMatch where
  field1 : String
  field2 : String
  deriving DecidableEq, Repr

inductive MatchFieldsJoinMode
  | keepEverything | keepMatches | keepNonMatches | enrichInput1 | enrichInput2
  deriving DecidableEq, Repr

inductive MatchFieldsOutput
  | both | input1 | input2
  deriving DecidableEq, Repr

inductive MultipleMatches
  | all | first
  deriving DecidableEq, Repr

structure MatchFieldsOptions where
  joinMode : Option MatchFieldsJoinMode := none
  outputDataFrom : Option MatchFieldsOutput := none
  multipleMatches : Option MultipleMatches := none
  disableDotNotation : Bool := false
  fuzzyCompare : Bool := false
  deriving DecidableEq, Repr

section Source

variable {ν : Type u} {ρ : Type v} (lib : Library ν) (options : MatchFieldsOptions)

/-- `json[key]`. -/
def property (json : List (String × Value ν)) (key : String) : Value ν :=
  (json.lookup key).getD (if key ∈ InsertionMap.inheritedKeys then .native key else .undefined)

def fieldValue (item : INodeExecutionData ν ρ) (field : String) : Value ν :=
  if options.disableDotNotation then property item.json field else lib.get item.json field

def isEntriesEqual (item1 item2 : Value ν) : Bool :=
  fuzzyCompare lib options.fuzzyCompare 1 item1 item2

/-- An assignment to a property of a plain object: one to `__proto__` makes no entry. -/
def setProperty (lookup : InsertionMap String (Value ν)) (key : String) (value : Value ν) :
    InsertionMap String (Value ν) :=
  if key = "__proto__" then lookup else lookup.set key value

def buildLookup (fieldsToMatch : List PairToMatch) (entry1 : INodeExecutionData ν ρ) :
    InsertionMap String (Value ν) :=
  fieldsToMatch.foldl (fun lookup matchCase =>
    setProperty lookup matchCase.field2 (fieldValue lib options entry1 matchCase.field1)) .empty

def isMatch (lookup : InsertionMap String (Value ν)) (entry2 : INodeExecutionData ν ρ) : Bool :=
  lookup.ownEntries.all fun entry =>
    isEntriesEqual lib options entry.2 (fieldValue lib options entry2 entry.1)

def findAllMatches (data : List (INodeExecutionData ν ρ))
    (lookup : InsertionMap String (Value ν)) : List (INodeExecutionData ν ρ × ℕ) :=
  data.zipIdx.filter fun entry => isMatch lib options lookup entry.1

def findFirstMatch (data : List (INodeExecutionData ν ρ))
    (lookup : InsertionMap String (Value ν)) : List (INodeExecutionData ν ρ × ℕ) :=
  (data.zipIdx.find? fun entry => isMatch lib options lookup entry.1).toList

/-- Each match is listed on its own. -/
def oncePerMatch : Bool :=
  options.outputDataFrom = some .both || options.joinMode = some .enrichInput1 ||
    options.joinMode = some .enrichInput2

/-- What the loop over the first input has filled. -/
structure Progress (ν : Type u) (ρ : Type v) where
  matched : List (INodeExecutionData ν ρ × List (INodeExecutionData ν ρ)) := []
  unmatched1 : List (INodeExecutionData ν ρ) := []
  matchedInInput2 : List ℕ := []

def matchEntry (fieldsToMatch : List PairToMatch) (data2 : List (INodeExecutionData ν ρ))
    (acc : Progress ν ρ) (entry1 : INodeExecutionData ν ρ) : Progress ν ρ :=
  let lookup := buildLookup lib options fieldsToMatch entry1
  if lookup.ownValues.any Value.isUndefined then
    { acc with unmatched1 := acc.unmatched1 ++ [entry1] }
  else
    let foundedMatches :=
      if options.multipleMatches.getD .all = .all then findAllMatches lib options data2 lookup
      else findFirstMatch lib options data2 lookup
    let matchList := foundedMatches.map Prod.fst
    let acc := { acc with matchedInInput2 := acc.matchedInInput2 ++ foundedMatches.map Prod.snd }
    if matchList.isEmpty then { acc with unmatched1 := acc.unmatched1 ++ [entry1] }
    else if oncePerMatch options then
      { acc with matched := acc.matched ++ matchList.map fun entry2 => (entry1, [entry2]) }
    else { acc with matched := acc.matched ++ [(entry1, matchList)] }

def findMatches (input1 input2 : List (INodeExecutionData ν ρ))
    (fieldsToMatch : List PairToMatch) :
    Joined (INodeExecutionData ν ρ) (INodeExecutionData ν ρ) :=
  let acc := input1.foldl (matchEntry lib options fieldsToMatch input2) {}
  { matched := acc.matched
    unmatched1 := acc.unmatched1
    matched2 := (input2.zipIdx.filter fun entry => entry.2 ∈ acc.matchedInInput2).map Prod.fst
    unmatched2 := (input2.zipIdx.filter fun entry => entry.2 ∉ acc.matchedInInput2).map Prod.fst }

/-! ## Matching on all pairs -/

/-- For every pair the first field is defined and compares equal to the second. -/
def satisfies (pairs : List PairToMatch) (entry1 entry2 : INodeExecutionData ν ρ) : Bool :=
  pairs.all fun pair => !(fieldValue lib options entry1 pair.field1).isUndefined &&
    isEntriesEqual lib options (fieldValue lib options entry1 pair.field1)
      (fieldValue lib options entry2 pair.field2)

def firstOnly : Bool := options.multipleMatches.getD .all ≠ .all

/-- The matching is the join on all pairs. -/
def MatchesAllPairs (input1 input2 : List (INodeExecutionData ν ρ))
    (fieldsToMatch : List PairToMatch) : Prop :=
  findMatches lib options input1 input2 fieldsToMatch =
    join (satisfies lib options fieldsToMatch) (firstOnly options) (oncePerMatch options)
      input1 input2

/-- The pairs that reach the lookup: the last for each field of the second input. -/
def keptPairs : List PairToMatch → List PairToMatch
  | [] => []
  | pair :: pairs =>
    if pair.field2 = "__proto__" ∨ pair.field2 ∈ pairs.map PairToMatch.field2 then keptPairs pairs
    else pair :: keptPairs pairs

/-- What matches an item of the first input on the pairs that are kept, or is the first to do so
where only that counts, satisfies all pairs. -/
def Condition (input1 input2 : List (INodeExecutionData ν ρ))
    (fieldsToMatch : List PairToMatch) : Prop :=
  ∀ entry1 ∈ input1,
    FindsNoMore (satisfies lib options fieldsToMatch)
      (satisfies lib options (keptPairs fieldsToMatch)) (firstOnly options) input2 entry1

end Source

/-! ## The lookup holds the pairs that are kept -/

section Lookup

variable {ν : Type u} {ρ : Type v} {lib : Library ν} {options : MatchFieldsOptions}
  {pairs : List PairToMatch} {key : String} {value : Value ν}

theorem keptPairs_subset (pairs : List PairToMatch) : keptPairs pairs ⊆ pairs := by
  induction pairs with
  | nil => exact List.Subset.refl _
  | cons pair pairs ih =>
    rw [keptPairs]
    split
    · exact List.subset_cons_of_subset _ ih
    · exact List.cons_subset_cons _ ih

theorem exists_keptPairs (hmem : key ∈ pairs.map PairToMatch.field2) (hproto : key ≠ "__proto__") :
    ∃ pair ∈ keptPairs pairs, pair.field2 = key := by
  induction pairs with
  | nil => exact absurd hmem List.not_mem_nil
  | cons pair pairs ih =>
    rw [keptPairs]
    by_cases hrest : key ∈ pairs.map PairToMatch.field2
    · obtain ⟨kept, hkept, hkey⟩ := ih hrest
      split
      · exact ⟨kept, hkept, hkey⟩
      · exact ⟨kept, List.mem_cons_of_mem _ hkept, hkey⟩
    · have hkey : key = pair.field2 := (List.mem_cons.mp hmem).resolve_right hrest
      rw [if_neg (not_or.mpr ⟨hkey ▸ hproto, hkey ▸ hrest⟩)]
      exact ⟨pair, List.mem_cons_self, hkey.symm⟩

/-- The lookup has, for each key, what the pair that is kept for it puts there. -/
theorem get?_foldl_setProperty (valueOf : String → Value ν) (pairs : List PairToMatch)
    (lookup : InsertionMap String (Value ν)) :
    (pairs.foldl (fun lookup pair => setProperty lookup pair.field2 (valueOf pair.field1))
        lookup).get? key = some value ↔
      (∃ pair ∈ keptPairs pairs, pair.field2 = key ∧ valueOf pair.field1 = value) ∨
        (∀ pair ∈ keptPairs pairs, pair.field2 ≠ key) ∧ lookup.get? key = some value := by
  induction pairs generalizing lookup with
  | nil => simp only [keptPairs, List.foldl_nil, List.not_mem_nil, false_and, exists_false,
      false_or, false_implies, implies_true, true_and]
  | cons pair pairs ih =>
    rw [List.foldl_cons, ih, keptPairs]
    by_cases hproto : pair.field2 = "__proto__"
    · rw [if_pos (Or.inl hproto), setProperty, if_pos hproto]
    rw [setProperty, if_neg hproto, InsertionMap.get?_set]
    by_cases hlater : pair.field2 ∈ pairs.map PairToMatch.field2
    · rw [if_pos (Or.inr hlater)]
      refine or_congr Iff.rfl (and_congr_right fun hnone => ?_)
      obtain ⟨kept, hkept, hfield⟩ := exists_keptPairs hlater hproto
      rw [if_neg fun hkey => hnone kept hkept (hfield.trans hkey.symm)]
    · rw [if_neg (not_or.mpr ⟨hproto, hlater⟩)]
      have hnone : ∀ kept ∈ keptPairs pairs, kept.field2 ≠ pair.field2 := fun kept hkept heq =>
        hlater (List.mem_map.mpr ⟨kept, keptPairs_subset pairs hkept, heq⟩)
      by_cases hkey : key = pair.field2
      · subst hkey
        rw [if_pos rfl, Option.some_inj]
        constructor
        · rintro (⟨kept, hkept, heq, -⟩ | ⟨-, hvalue⟩)
          · exact absurd heq (hnone kept hkept)
          · exact Or.inl ⟨pair, List.mem_cons_self, rfl, hvalue⟩
        · rintro (⟨kept, hmem, heq, hvalue⟩ | ⟨hall, -⟩)
          · rcases List.mem_cons.mp hmem with rfl | hkept
            · exact Or.inr ⟨hnone, hvalue⟩
            · exact absurd heq (hnone kept hkept)
          · exact absurd rfl (hall pair List.mem_cons_self)
      · rw [if_neg hkey]
        simp only [List.mem_cons, exists_eq_or_imp, forall_eq_or_imp, Ne.symm hkey, false_and,
          false_or, ne_eq, not_false_eq_true, true_and]

variable {entry1 entry2 : INodeExecutionData ν ρ}

/-- The entries of the lookup are the pairs that are kept. -/
theorem all_ownEntries (test : String × Value ν → Bool) :
    (buildLookup lib options pairs entry1).ownEntries.all test =
      (keptPairs pairs).all fun pair =>
        test (pair.field2, fieldValue lib options entry1 pair.field1) := by
  have hget (key : String) (value : Value ν) :
      (key, value) ∈ (buildLookup lib options pairs entry1).entries ↔
        ∃ pair ∈ keptPairs pairs, pair.field2 = key ∧
          fieldValue lib options entry1 pair.field1 = value := by
    rw [← InsertionMap.get?_eq_some_iff, buildLookup, get?_foldl_setProperty,
      InsertionMap.get?_empty]
    exact or_iff_left fun h => nomatch h.2
  rw [Bool.eq_iff_iff, List.all_eq_true, List.all_eq_true]
  constructor
  · intro h pair hmem
    exact h _ (InsertionMap.mem_ownEntries.mpr ((hget _ _).mpr ⟨pair, hmem, rfl, rfl⟩))
  · rintro h ⟨key, value⟩ hmem
    obtain ⟨pair, hpair, rfl, rfl⟩ := (hget _ _).mp (InsertionMap.mem_ownEntries.mp hmem)
    exact h pair hpair

/-- An item satisfies the pairs that are kept when the lookup has no undefined value and the item
matches it. -/
theorem satisfies_keptPairs :
    satisfies lib options (keptPairs pairs) entry1 entry2 =
      (!(buildLookup lib options pairs entry1).ownValues.any Value.isUndefined &&
        isMatch lib options (buildLookup lib options pairs entry1) entry2) := by
  have hdefined : (!(buildLookup lib options pairs entry1).ownValues.any Value.isUndefined) =
      (buildLookup lib options pairs entry1).ownEntries.all fun entry => !entry.2.isUndefined := by
    rw [InsertionMap.ownValues, List.any_map, List.not_any_eq_all_not]
    rfl
  rw [hdefined, isMatch, all_ownEntries, all_ownEntries, satisfies, Bool.eq_iff_iff,
    Bool.and_eq_true, List.all_eq_true, List.all_eq_true, List.all_eq_true]
  simp only [Bool.and_eq_true]
  exact forall₂_and

/-! ## The loops -/

variable (lib options pairs)

/-- What an item of the first input keeps. -/
def kept (input2 : List (INodeExecutionData ν ρ)) (entry1 : INodeExecutionData ν ρ) :
    List (INodeExecutionData ν ρ × ℕ) :=
  found (satisfies lib options (keptPairs pairs)) (firstOnly options) input2 entry1

theorem kept_eq (input2 : List (INodeExecutionData ν ρ)) (entry1 : INodeExecutionData ν ρ) :
    kept lib options pairs input2 entry1 =
      if (buildLookup lib options pairs entry1).ownValues.any Value.isUndefined then []
      else if options.multipleMatches.getD .all = .all then
        findAllMatches lib options input2 (buildLookup lib options pairs entry1)
      else findFirstMatch lib options input2 (buildLookup lib options pairs entry1) := by
  rw [kept, found, findAllMatches, findFirstMatch, firstOnly]
  simp only [satisfies_keptPairs]
  cases (buildLookup lib options pairs entry1).ownValues.any Value.isUndefined with
  | true => simp
  | false => by_cases hall : options.multipleMatches.getD .all = .all <;> simp [hall]

/-- One turn of the loop files an item with what it keeps. -/
theorem matchEntry_eq (input2 : List (INodeExecutionData ν ρ)) (acc : Progress ν ρ)
    (entry1 : INodeExecutionData ν ρ) :
    matchEntry lib options pairs input2 acc entry1 =
      { matched := acc.matched ++ listed (oncePerMatch options) entry1
          ((kept lib options pairs input2 entry1).map Prod.fst)
        unmatched1 := acc.unmatched1 ++
          if (kept lib options pairs input2 entry1).isEmpty then [entry1] else []
        matchedInInput2 := acc.matchedInInput2 ++
          (kept lib options pairs input2 entry1).map Prod.snd } := by
  rw [kept_eq, matchEntry]
  split
  · simp [listed]
  · generalize (if options.multipleMatches.getD .all = .all then _ else _) = founded
    cases founded with
    | nil => simp [listed]
    | cons first rest => by_cases honce : oncePerMatch options <;> simp [listed, honce]

theorem foldl_matchEntry (input1 input2 : List (INodeExecutionData ν ρ)) (acc : Progress ν ρ) :
    input1.foldl (matchEntry lib options pairs input2) acc =
      { matched := acc.matched ++ input1.flatMap fun entry1 =>
          listed (oncePerMatch options) entry1
            ((kept lib options pairs input2 entry1).map Prod.fst)
        unmatched1 := acc.unmatched1 ++ input1.filter fun entry1 =>
          (kept lib options pairs input2 entry1).isEmpty
        matchedInInput2 := acc.matchedInInput2 ++ input1.flatMap fun entry1 =>
          (kept lib options pairs input2 entry1).map Prod.snd } := by
  induction input1 generalizing acc with
  | nil => simp only [List.foldl_nil, List.flatMap_nil, List.filter_nil, List.append_nil]
  | cons entry1 input1 ih =>
    rw [List.foldl_cons, ih, matchEntry_eq]
    simp only [List.flatMap_cons, List.append_assoc, List.filter_cons, Progress.mk.injEq, true_and,
      and_true, List.append_cancel_left_eq]
    split
    · rfl
    · rfl

/-- **The matching is the join on the pairs that are kept.** -/
theorem findMatches_eq_join (input1 input2 : List (INodeExecutionData ν ρ)) :
    findMatches lib options input1 input2 pairs =
      join (satisfies lib options (keptPairs pairs)) (firstOnly options) (oncePerMatch options)
        input1 input2 := by
  simp only [findMatches, foldl_matchEntry, List.nil_append]
  rfl

theorem satisfies_of_subset {pairs' : List PairToMatch} (hsub : pairs' ⊆ pairs)
    (entry1 entry2 : INodeExecutionData ν ρ) (h : satisfies lib options pairs entry1 entry2) :
    satisfies lib options pairs' entry1 entry2 :=
  List.all_eq_true.mpr fun pair hmem => List.all_eq_true.mp h pair (hsub hmem)

/-- **The matching is the join on all pairs exactly when the pairs that are not kept exclude no
match.** -/
theorem matchesAllPairs_iff (input1 input2 : List (INodeExecutionData ν ρ)) :
    MatchesAllPairs lib options input1 input2 pairs ↔
      Condition lib options input1 input2 pairs := by
  rw [MatchesAllPairs, findMatches_eq_join]
  exact join_eq_iff (satisfies_of_subset lib options pairs (keptPairs_subset pairs))
    (firstOnly options) (oncePerMatch options) input1 input2

end Lookup

/-! ## Two pairs with one field of the second input -/

/-- A library that knows booleans only. -/
def booleans : Library Unit where
  isEqual
    | .bool a, .bool b => a = b
    | _, _ => false
  get fields key := (fields.lookup key).getD .undefined
  jsonParse _ := none
  toText _ := ""
  isZero _ := false
  isOne _ := false
  toLocaleLowerCase text := text

/-- The pairs `a`, `x` and `b`, `x`: an item matches although its `a` is not the other's `x`. -/
theorem not_matchesAllPairs_repeated :
    ¬∀ (options : MatchFieldsOptions) (input1 input2 : List (INodeExecutionData Unit Unit))
      (fieldsToMatch : List PairToMatch),
      MatchesAllPairs booleans options input1 input2 fieldsToMatch := by
  intro hclaim
  have hmeets := hclaim {} [⟨[("a", .bool false), ("b", .bool true)], ()⟩]
    [⟨[("x", .bool true)], ()⟩] [⟨"a", "x"⟩, ⟨"b", "x"⟩]
  have hlength := congrArg (fun joined => joined.matched.length) hmeets
  exact absurd hlength (by decide)

end N8n.FindMatches
