import N8n.Foundations.Decimal
import Mathlib.Data.List.Sublists
import Mathlib.Logic.Relation

/-!
# Additive changes of parameters

`parametersAreSuperset` tells whether the parameters of a later version of a node have lost nothing
of those of an earlier one: a string may only have grown, the rest has to be the same.

The loop of `stringContainsParts` takes the first match of every character and gives up early when
too many characters did not match. Neither loses anything, so it decides whether the one string is
a subsequence of the other (`stringContainsParts_iff`). The comparison of the parameters is then a
preorder. An array stands out: it has the own keys of its indexes, and an own `length` that
`Object.keys` does not list, so an object can pass for an array, but not the other way round.

Strings are lists of UTF-16 code units. Numbers are the values of a type whose equality is that of
`===`, which has no `NaN` in JSON.
-/

namespace N8n.WorkflowDiff

/-! ### Strings -/

section Strings

variable {α : Type} [DecidableEq α]

/-- The loop of `stringContainsParts` from the index `i` on, with the characters from there. -/
def containsPartsLoop (substr : List α) (diffSize : ℕ) : (i marker : ℕ) → List α → Bool
  | _, marker, [] => marker ≥ substr.length
  | i, marker, c :: s =>
    let marker := if substr[marker]? = some c then marker + 1 else marker
    if (i : ℤ) - marker > diffSize then false
    else containsPartsLoop substr diffSize (i + 1) marker s

/-- `s` contains all characters of `substr` in order. -/
def stringContainsParts (s substr : List α) : Bool :=
  if substr.length > s.length then false
  else containsPartsLoop substr (s.length - substr.length) 0 0 s

/-- A round of the loop: the character is the next one that is looked for, or it is skipped. -/
theorem drop_sublist_cons_iff (substr s : List α) (marker : ℕ) (c : α) :
    (substr.drop marker).Sublist (c :: s) ↔
      (substr.drop (if substr[marker]? = some c then marker + 1 else marker)).Sublist s := by
  split_ifs with hc
  · obtain ⟨hlt, rfl⟩ := List.getElem?_eq_some_iff.mp hc
    rw [List.drop_eq_getElem_cons hlt, List.cons_sublist_cons]
  · obtain hlt | hle := Nat.lt_or_ge marker substr.length
    · have hne : substr[marker] ≠ c := fun heq => hc (heq ▸ List.getElem?_eq_getElem hlt)
      rw [List.drop_eq_getElem_cons hlt, List.cons_sublist_cons']
      exact or_iff_left fun h => hne h.1
    · rw [List.drop_eq_nil_of_le hle]
      exact iff_of_true (List.nil_sublist _) (List.nil_sublist _)

/-- The loop decides whether what is left of the one string is a subsequence of what is left of the
other. It gives up only when fewer characters are left than are looked for. -/
theorem containsPartsLoop_iff {substr s : List α} {diffSize i marker : ℕ}
    (hmarker : marker ≤ substr.length) (hlength : substr.length + diffSize = i + s.length) :
    containsPartsLoop substr diffSize i marker s = true ↔ (substr.drop marker).Sublist s := by
  induction s generalizing i marker with
  | nil =>
    rw [containsPartsLoop, decide_eq_true_eq, List.sublist_nil, List.drop_eq_nil_iff]
  | cons c s ih =>
    rw [containsPartsLoop, drop_sublist_cons_iff]
    have hnext : (if substr[marker]? = some c then marker + 1 else marker) ≤ substr.length := by
      split_ifs with hc
      · have hlt := (List.getElem?_eq_some_iff.mp hc).1
        omega
      · exact hmarker
    set next := if substr[marker]? = some c then marker + 1 else marker
    rw [List.length_cons] at hlength
    split_ifs with hgiveUp
    · refine iff_of_false not_false fun hsub => ?_
      have hle := hsub.length_le
      rw [List.length_drop] at hle
      omega
    · exact ih hnext (by omega)

/-- **The characters in order**: `substr` is a subsequence of `s`. -/
theorem stringContainsParts_iff {s substr : List α} :
    stringContainsParts s substr = true ↔ substr.Sublist s := by
  rw [stringContainsParts]
  split_ifs with hlong
  · refine iff_of_false not_false fun hsub => ?_
    have hle := hsub.length_le
    omega
  · rw [containsPartsLoop_iff (Nat.zero_le _) (by omega), List.drop_zero]

end Strings

/-! ### Parameters -/

abbrev CodeUnits := List UInt16

/-- A JSON value. -/
inductive ParameterValue (ν : Type) where
  | null
  | bool (b : Bool)
  | num (n : ν)
  | str (s : CodeUnits)
  | arr (items : List (ParameterValue ν))
  | obj (fields : List (CodeUnits × ParameterValue ν))

inductive Typeof where
  | object
  | boolean
  | number
  | string
  deriving DecidableEq, Repr

namespace ParameterValue

variable {ν : Type}

/-- `typeof`. -/
def typeof : ParameterValue ν → Typeof
  | null => .object
  | bool _ => .boolean
  | num _ => .number
  | str _ => .string
  | arr _ => .object
  | obj _ => .object

/-- The property key of an index. -/
def indexKey (i : ℕ) : CodeUnits := (Nat.toDigits 10 i).map fun c => c.toNat.toUInt16

/-- The code units of `length`. -/
def lengthKey : CodeUnits := "length".toList.map fun c => c.toNat.toUInt16

/-- `Object.keys`. -/
def keys : ParameterValue ν → List CodeUnits
  | arr items => (List.range items.length).map indexKey
  | obj fields => fields.map Prod.fst
  | _ => []

variable [NatCast ν]

/-- An own property: `hasOwnProperty` tells whether there is one. -/
def ownProperty? : ParameterValue ν → CodeUnits → Option (ParameterValue ν)
  | arr items, key =>
    if key = lengthKey then some (num items.length)
    else ((List.range items.length).find? (indexKey · = key)).bind (items[·]?)
  | obj fields, key => (fields.find? (·.1 = key)).map Prod.snd
  | _, _ => none

variable [DecidableEq ν]

/-- `prev === next`, for primitive values. -/
def strictEquals : ParameterValue ν → ParameterValue ν → Bool
  | null, null => true
  | bool b, bool b' => b = b'
  | num n, num n' => n = n'
  | _, _ => false

mutual

def parametersAreSuperset (prev next : ParameterValue ν) : Bool :=
  if prev.typeof ≠ next.typeof then false
  else
    match prev with
    | null => strictEquals null next
    | bool b => strictEquals (bool b) next
    | num n => strictEquals (num n) next
    | str prev =>
      match next with
      | str next => stringContainsParts next prev
      | _ => false
    | arr prev =>
      match next with
      | arr next => prev.length = next.length && itemsAreSuperset prev next
      | _ => false
    | obj fields =>
      match next with
      -- `!next`, and `prev === next` is false
      | null => false
      | next =>
        let params := (obj fields).keys
        params.length = next.keys.length &&
          !params.any (fun key => (next.ownProperty? key).isNone) &&
          fieldsAreSuperset fields next

/-- `prev.every((v, i) => parametersAreSuperset(v, next[i]))`. -/
def itemsAreSuperset : List (ParameterValue ν) → List (ParameterValue ν) → Bool
  | [], _ => true
  | v :: prev, next =>
    (match next[0]? with
      | some item => parametersAreSuperset v item
      | none => false) && itemsAreSuperset prev next.tail

/-- `params.every((key) => parametersAreSuperset(prev[key], next[key]))`. -/
def fieldsAreSuperset : List (CodeUnits × ParameterValue ν) → ParameterValue ν → Bool
  | [], _ => true
  | (key, v) :: fields, next =>
    (match next.ownProperty? key with
      | some value => parametersAreSuperset v value
      | none => false) && fieldsAreSuperset fields next

end

/-! ### One value and another -/

variable {next : ParameterValue ν}

attribute [local simp] parametersAreSuperset itemsAreSuperset fieldsAreSuperset typeof strictEquals

theorem null_superset_iff : parametersAreSuperset null next = true ↔ next = null := by
  cases next <;> simp

theorem bool_superset_iff {b : Bool} :
    parametersAreSuperset (bool b) next = true ↔ next = bool b := by
  cases next <;> simp [eq_comm]

theorem num_superset_iff {n : ν} :
    parametersAreSuperset (num n) next = true ↔ next = num n := by
  cases next <;> simp [eq_comm]

theorem str_superset_iff {substr : CodeUnits} :
    parametersAreSuperset (str substr) next = true ↔ ∃ s, next = str s ∧ substr.Sublist s := by
  cases next <;> simp [stringContainsParts_iff]

theorem itemsAreSuperset_iff {items items' : List (ParameterValue ν)}
    (hlength : items.length = items'.length) :
    itemsAreSuperset items items' = true ↔
      List.Forall₂ (fun v v' => parametersAreSuperset v v' = true) items items' := by
  induction items generalizing items' with
  | nil =>
    obtain rfl := List.length_eq_zero_iff.mp hlength.symm
    simp
  | cons v items ih =>
    cases items' with
    | nil => exact nomatch hlength
    | cons v' items' =>
      rw [itemsAreSuperset, Bool.and_eq_true, List.forall₂_cons, List.tail_cons,
        ih (Nat.succ.inj hlength)]
      rfl

theorem arr_superset_iff {items : List (ParameterValue ν)} :
    parametersAreSuperset (arr items) next = true ↔
      ∃ items', next = arr items' ∧
        List.Forall₂ (fun v v' => parametersAreSuperset v v' = true) items items' := by
  cases next with
  | arr items' =>
    rw [parametersAreSuperset]
    simp only [typeof, ne_eq, not_true_eq_false, if_false, Bool.and_eq_true, decide_eq_true_eq,
      arr.injEq, exists_eq_left']
    constructor
    · rintro ⟨hlength, h⟩
      exact (itemsAreSuperset_iff hlength).mp h
    · intro h
      exact ⟨h.length_eq, (itemsAreSuperset_iff h.length_eq).mpr h⟩
  | _ => simp

theorem fieldsAreSuperset_iff {fields : List (CodeUnits × ParameterValue ν)} :
    fieldsAreSuperset fields next = true ↔
      ∀ field ∈ fields, ∃ value, next.ownProperty? field.1 = some value ∧
        parametersAreSuperset field.2 value = true := by
  induction fields with
  | nil => simp
  | cons field fields ih =>
    rw [fieldsAreSuperset, Bool.and_eq_true, List.forall_mem_cons, ih]
    refine and_congr_left fun _ => ?_
    cases next.ownProperty? field.1 with
    | none => simp
    | some value => simp

/-- A value of the type `object` that is not `null`. -/
def IsObject : ParameterValue ν → Prop
  | arr _ | obj _ => True
  | _ => False

theorem obj_superset_iff {fields : List (CodeUnits × ParameterValue ν)} :
    parametersAreSuperset (obj fields) next = true ↔
      next.IsObject ∧ fields.length = next.keys.length ∧
        ∀ field ∈ fields, ∃ value, next.ownProperty? field.1 = some value ∧
          parametersAreSuperset field.2 value = true := by
  have hown (h : ∀ field ∈ fields, ∃ value, next.ownProperty? field.1 = some value ∧
      parametersAreSuperset field.2 value = true) :
      ∀ field ∈ fields, (next.ownProperty? field.1).isNone = false := by
    intro field hfield
    obtain ⟨value, hvalue, -⟩ := h field hfield
    rw [hvalue, Option.isNone_some]
  have hkeys : (obj fields).keys = fields.map Prod.fst := rfl
  have hcheck : (decide ((obj fields).keys.length = next.keys.length) &&
      !(obj fields).keys.any (fun key => (next.ownProperty? key).isNone) &&
        fieldsAreSuperset fields next) = true ↔
      fields.length = next.keys.length ∧
        ∀ field ∈ fields, ∃ value, next.ownProperty? field.1 = some value ∧
          parametersAreSuperset field.2 value = true := by
    rw [Bool.and_eq_true, Bool.and_eq_true, fieldsAreSuperset_iff, and_assoc, decide_eq_true_eq,
      hkeys, List.length_map]
    refine and_congr_right fun _ => and_iff_right_of_imp fun h => ?_
    rw [Bool.not_eq_true', List.any_map, List.any_eq_false]
    exact fun field hfield => by simp [hown h field hfield]
  cases next with
  | arr items => simpa [IsObject] using hcheck
  | obj fields' => simpa [IsObject] using hcheck
  | _ => simp [IsObject]

/-! ### What a superset has kept -/

variable {prev : ParameterValue ν}

theorem isObject_of_superset (h : parametersAreSuperset prev next = true) (hprev : prev.IsObject) :
    next.IsObject := by
  cases prev with
  | arr items =>
    obtain ⟨items', rfl, -⟩ := arr_superset_iff.mp h
    exact trivial
  | obj fields => exact (obj_superset_iff.mp h).1
  | _ => exact hprev.elim

theorem length_keys_of_superset (h : parametersAreSuperset prev next = true)
    (hprev : prev.IsObject) : prev.keys.length = next.keys.length := by
  cases prev with
  | arr items =>
    obtain ⟨items', rfl, hitems⟩ := arr_superset_iff.mp h
    simp [keys, hitems.length_eq]
  | obj fields =>
    obtain ⟨-, hlength, -⟩ := obj_superset_iff.mp h
    rw [← hlength, keys, List.length_map]
  | _ => exact hprev.elim

/-- An own property is kept, with a value that has lost nothing. -/
theorem exists_ownProperty?_of_superset (h : parametersAreSuperset prev next = true)
    {key : CodeUnits} {value : ParameterValue ν} (hvalue : prev.ownProperty? key = some value) :
    ∃ value', next.ownProperty? key = some value' ∧ parametersAreSuperset value value' = true := by
  cases prev with
  | arr items =>
    obtain ⟨items', rfl, hitems⟩ := arr_superset_iff.mp h
    rw [ownProperty?, hitems.length_eq] at hvalue
    rw [ownProperty?]
    split_ifs at hvalue ⊢ with hkey
    · -- the key is `length`
      obtain rfl := Option.some.inj hvalue
      exact ⟨_, rfl, num_superset_iff.mpr rfl⟩
    · obtain ⟨i, hi, hget⟩ := Option.bind_eq_some_iff.mp hvalue
      obtain ⟨hlt, rfl⟩ := List.getElem?_eq_some_iff.mp hget
      have hlt' : i < items'.length := hitems.length_eq ▸ hlt
      refine ⟨items'[i], ?_, hitems.get hlt hlt'⟩
      rw [hi, Option.bind_some, List.getElem?_eq_getElem hlt']
  | obj fields =>
    obtain ⟨field, hfind, rfl⟩ := Option.map_eq_some_iff.mp hvalue
    have hkey : field.1 = key := by simpa using List.find?_some hfind
    have hkept := (obj_superset_iff.mp h).2.2 field (List.mem_of_find?_eq_some hfind)
    rwa [hkey] at hkept
  | _ => exact nomatch hvalue

/-! ### A preorder -/

/-- No object has a key twice. -/
inductive WellFormed : ParameterValue ν → Prop
  | null : WellFormed null
  | bool (b : Bool) : WellFormed (bool b)
  | num (n : ν) : WellFormed (num n)
  | str (s : CodeUnits) : WellFormed (str s)
  | arr {items : List (ParameterValue ν)} (hitems : ∀ v ∈ items, WellFormed v) :
    WellFormed (arr items)
  | obj {fields : List (CodeUnits × ParameterValue ν)} (hnodup : (fields.map Prod.fst).Nodup)
    (hfields : ∀ field ∈ fields, WellFormed field.2) : WellFormed (obj fields)

omit [DecidableEq ν] in
theorem ownProperty?_of_mem {fields : List (CodeUnits × ParameterValue ν)}
    (hnodup : (fields.map Prod.fst).Nodup) {field : CodeUnits × ParameterValue ν}
    (hfield : field ∈ fields) : (obj fields).ownProperty? field.1 = some field.2 := by
  rw [ownProperty?]
  induction fields with
  | nil => exact absurd hfield List.not_mem_nil
  | cons first fields ih =>
    obtain ⟨hfirst, hrest⟩ := List.nodup_cons.mp hnodup
    obtain rfl | hfield := List.mem_cons.mp hfield
    · simp
    · have hne : first.1 ≠ field.1 := fun heq => hfirst (heq ▸ List.mem_map_of_mem hfield)
      rw [List.find?_cons_of_neg (by simpa using hne)]
      exact ih hrest hfield

theorem WellFormed.superset_refl {v : ParameterValue ν} (h : v.WellFormed) :
    parametersAreSuperset v v = true := by
  induction h with
  | null => exact null_superset_iff.mpr rfl
  | bool b => exact bool_superset_iff.mpr rfl
  | num n => exact num_superset_iff.mpr rfl
  | str s => exact str_superset_iff.mpr ⟨s, rfl, List.Sublist.refl s⟩
  | arr hitems ih => exact arr_superset_iff.mpr ⟨_, rfl, List.forall₂_same.mpr ih⟩
  | obj hnodup hfields ih =>
    refine obj_superset_iff.mpr ⟨trivial, (List.length_map _).symm, fun field hfield => ?_⟩
    exact ⟨field.2, ownProperty?_of_mem hnodup hfield, ih field hfield⟩

theorem forall₂_trans_of_mem {α : Type} {R : α → α → Prop} {l l' l'' : List α}
    (h : ∀ a ∈ l, ∀ b c, R a b → R b c → R a c) (hl : List.Forall₂ R l l')
    (hl' : List.Forall₂ R l' l'') : List.Forall₂ R l l'' := by
  induction hl generalizing l'' with
  | nil => exact hl'
  | cons hab hrest ih =>
    obtain ⟨c, l'', hbc, hrest', rfl⟩ := List.forall₂_cons_left_iff.mp hl'
    refine .cons (h _ List.mem_cons_self _ _ hab hbc) (ih ?_ hrest')
    exact fun a ha => h a (List.mem_cons_of_mem _ ha)

theorem WellFormed.superset_trans {a b c : ParameterValue ν} (h : a.WellFormed)
    (hab : parametersAreSuperset a b = true) (hbc : parametersAreSuperset b c = true) :
    parametersAreSuperset a c = true := by
  induction h generalizing b c with
  | null => rwa [null_superset_iff.mp hab] at hbc
  | bool _ => rwa [bool_superset_iff.mp hab] at hbc
  | num _ => rwa [num_superset_iff.mp hab] at hbc
  | str s =>
    obtain ⟨s', rfl, hs⟩ := str_superset_iff.mp hab
    obtain ⟨s'', rfl, hs'⟩ := str_superset_iff.mp hbc
    exact str_superset_iff.mpr ⟨s'', rfl, hs.trans hs'⟩
  | arr _ ih =>
    obtain ⟨items', rfl, hitems⟩ := arr_superset_iff.mp hab
    obtain ⟨items'', rfl, hitems'⟩ := arr_superset_iff.mp hbc
    refine arr_superset_iff.mpr ⟨items'', rfl, forall₂_trans_of_mem ?_ hitems hitems'⟩
    exact fun v hv _ _ => ih v hv
  | obj _ _ ih =>
    obtain ⟨hobject, hlength, hfields⟩ := obj_superset_iff.mp hab
    refine obj_superset_iff.mpr ⟨isObject_of_superset hbc hobject,
      hlength.trans (length_keys_of_superset hbc hobject), fun field hfield => ?_⟩
    obtain ⟨value, hvalue, hsub⟩ := hfields field hfield
    obtain ⟨value', hvalue', hsub'⟩ := exists_ownProperty?_of_superset hbc hvalue
    exact ⟨value', hvalue', ih field hfield hsub hsub'⟩

end ParameterValue

open ParameterValue Relation

/-- The parameters of a node: a value in which no object has a key twice. -/
structure Parameters (ν : Type) where
  value : ParameterValue ν
  wellFormed : value.WellFormed

/-- The later parameters have lost nothing. -/
def Parameters.IsAdditive {ν : Type} [NatCast ν] [DecidableEq ν] (prev next : Parameters ν) :
    Prop :=
  parametersAreSuperset prev.value next.value = true

/-- An object has as many keys as before, and its own properties with values that have lost
nothing. -/
structure ParameterValue.KeepsProperties {ν : Type} [NatCast ν] [DecidableEq ν]
    (prev next : ParameterValue ν) : Prop where
  keys : prev.IsObject → next.IsObject ∧ prev.keys.length = next.keys.length
  properties : ∀ key value, prev.ownProperty? key = some value →
    ∃ value', next.ownProperty? key = some value' ∧ parametersAreSuperset value value' = true

theorem Parameters.IsAdditive.keepsProperties {ν : Type} [NatCast ν] [DecidableEq ν]
    {prev next : Parameters ν} (h : prev.IsAdditive next) :
    prev.value.KeepsProperties next.value where
  keys hprev := ⟨isObject_of_superset h hprev, length_keys_of_superset h hprev⟩
  properties _ _ hvalue := exists_ownProperty?_of_superset h hvalue

/-- **Additive changes are a preorder**: strings grow around a subsequence, nothing is lost when
nothing changes, and nothing is lost over a chain of versions of which none loses anything: the
properties of the first one are in the last one. -/
theorem isAdditive_preorder (ν : Type) [NatCast ν] [DecidableEq ν] :
    (∀ s substr : CodeUnits, stringContainsParts s substr = true ↔ substr.Sublist s) ∧
    (∀ p : Parameters ν, p.IsAdditive p) ∧
    (∀ p q r : Parameters ν, p.IsAdditive q → q.IsAdditive r → p.IsAdditive r) ∧
    ∀ p q : Parameters ν, ReflTransGen Parameters.IsAdditive p q →
      p.IsAdditive q ∧ p.value.KeepsProperties q.value := by
  have hrefl (p : Parameters ν) : p.IsAdditive p := p.wellFormed.superset_refl
  have htrans (p q r : Parameters ν) (hpq : p.IsAdditive q) (hqr : q.IsAdditive r) :
      p.IsAdditive r := p.wellFormed.superset_trans hpq hqr
  refine ⟨fun s substr => stringContainsParts_iff, hrefl, htrans, fun p q hchain => ?_⟩
  have hadditive : p.IsAdditive q := by
    induction hchain with
    | refl => exact hrefl p
    | tail _ hstep ih => exact htrans _ _ _ ih hstep
  exact ⟨hadditive, hadditive.keepsProperties⟩

/-- An object with an own `length` passes for an array. -/
example : parametersAreSuperset (ν := ℤ) (.obj [(lengthKey, .num 1)]) (.arr [.null]) = true := by
  decide +kernel

end N8n.WorkflowDiff
