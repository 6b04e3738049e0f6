import Mathlib.Data.Int.Notation
import Mathlib.Tactic.Common

/-!
# JSON values

The values a JSON document denotes, with numbers kept to integers. Objects are lists of
fields in document order; nothing here forbids a repeated key, the parsers and the
programs that build objects do.
-/

/-- A JSON value. -/
inductive JsonValue where
  | null
  | bool (b : Bool)
  | num (n : ℤ)
  | str (s : String)
  | arr (items : List JsonValue)
  | obj (fields : List (String × JsonValue))
  deriving Inhabited, Repr

namespace JsonValue

mutual

/-- Equality of values is decided by structural recursion, so that it also evaluates in
proofs. -/
def decEq : (a b : JsonValue) → Decidable (a = b)
  | .null, b => match b with
    | .null => isTrue rfl
    | .bool _ | .num _ | .str _ | .arr _ | .obj _ => isFalse nofun
  | .bool a, b => match b with
    | .bool b => decidable_of_iff (a = b) (by simp)
    | .null | .num _ | .str _ | .arr _ | .obj _ => isFalse nofun
  | .num a, b => match b with
    | .num b => decidable_of_iff (a = b) (by simp)
    | .null | .bool _ | .str _ | .arr _ | .obj _ => isFalse nofun
  | .str a, b => match b with
    | .str b => decidable_of_iff (a = b) (by simp)
    | .null | .bool _ | .num _ | .arr _ | .obj _ => isFalse nofun
  | .arr a, b => match b with
    | .arr b => @decidable_of_iff _ (a = b) (by simp) (decEqItems a b)
    | .null | .bool _ | .num _ | .str _ | .obj _ => isFalse nofun
  | .obj a, b => match b with
    | .obj b => @decidable_of_iff _ (a = b) (by simp) (decEqFields a b)
    | .null | .bool _ | .num _ | .str _ | .arr _ => isFalse nofun

def decEqItems : (a b : List JsonValue) → Decidable (a = b)
  | [], b => match b with
    | [] => isTrue rfl
    | _ :: _ => isFalse nofun
  | x :: a, b => match b with
    | [] => isFalse nofun
    | y :: b =>
      @decidable_of_iff _ (x = y ∧ a = b) (by simp)
        (@instDecidableAnd _ _ (decEq x y) (decEqItems a b))

def decEqFields : (a b : List (String × JsonValue)) → Decidable (a = b)
  | [], b => match b with
    | [] => isTrue rfl
    | _ :: _ => isFalse nofun
  | (k, x) :: a, b => match b with
    | [] => isFalse nofun
    | (k', y) :: b =>
      @decidable_of_iff _ ((k = k' ∧ x = y) ∧ a = b) (by simp)
        (@instDecidableAnd _ _
          (@instDecidableAnd _ _ (inferInstanceAs (Decidable (k = k'))) (decEq x y))
          (decEqFields a b))

end

instance : DecidableEq JsonValue := decEq

/-- Induction over a value: the items of an array and the fields of an object come first. -/
theorem induct {P : JsonValue → Prop} (null : P .null) (bool : ∀ b, P (.bool b))
    (num : ∀ n, P (.num n)) (str : ∀ s, P (.str s))
    (arr : ∀ items, (∀ item ∈ items, P item) → P (.arr items))
    (obj : ∀ fields, (∀ field ∈ fields, P field.2) → P (.obj fields)) (v : JsonValue) : P v :=
  @JsonValue.rec P (fun items => ∀ item ∈ items, P item) (fun fields => ∀ field ∈ fields, P field.2)
    (fun field => P field.2) null bool num str arr obj
    (fun _ h => absurd h List.not_mem_nil) (fun _ _ h h' => List.forall_mem_cons.mpr ⟨h, h'⟩)
    (fun _ h => absurd h List.not_mem_nil) (fun _ _ h h' => List.forall_mem_cons.mpr ⟨h, h'⟩)
    (fun _ _ h => h) v

/-! ### Texts -/

theorem sizeOf_field_lt {fields : List (String × JsonValue)} {field : String × JsonValue}
    (h : field ∈ fields) : sizeOf field.2 < sizeOf (JsonValue.obj fields) := by
  have hmem := List.sizeOf_lt_of_mem h
  obtain ⟨key, value⟩ := field
  simp only [Prod.mk.sizeOf_spec, JsonValue.obj.sizeOf_spec] at hmem ⊢
  omega

/-- The value with its texts left empty. -/
def shape : JsonValue → JsonValue
  | .str _ => .str ""
  | .arr items => .arr (items.map shape)
  | .obj fields => .obj (fields.map fun field => (field.1, shape field.2))
  | v => v
decreasing_by
  · simp only [JsonValue.arr.sizeOf_spec]
    exact Nat.lt_add_left 1 (List.sizeOf_lt_of_mem ‹_›)
  · exact sizeOf_field_lt ‹_›

/-- The texts of the value, in document order. -/
def texts : JsonValue → List String
  | .str s => [s]
  | .arr items => items.flatMap texts
  | .obj fields => fields.flatMap fun field => texts field.2
  | _ => []
decreasing_by
  · simp only [JsonValue.arr.sizeOf_spec]
    exact Nat.lt_add_left 1 (List.sizeOf_lt_of_mem ‹_›)
  · exact sizeOf_field_lt ‹_›

/-- What a condition of the language takes a value for. -/
def truthy : JsonValue → Bool
  | .null => false
  | .bool b => b
  | .num n => n ≠ 0
  | .str s => s ≠ ""
  | .arr _ | .obj _ => true

/-! ### Fields of an object -/

/-- Assign to a field: its value changes in its place, and a new field comes last. -/
def setField (fields : List (String × JsonValue)) (key : String) (value : JsonValue) :
    List (String × JsonValue) :=
  if (fields.lookup key).isSome then
    fields.map fun field => if field.1 = key then (key, value) else field
  else fields ++ [(key, value)]

/-- `{ ...fields, ...others }`. -/
def spread (fields others : List (String × JsonValue)) : List (String × JsonValue) :=
  others.foldl (fun fields field => setField fields field.1 field.2) fields

example : arr [null, obj [("a", num 1)]] ≠ arr [null, obj [("a", num 2)]] := by decide

end JsonValue
