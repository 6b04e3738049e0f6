import Mathlib.Data.List.Basic
import Mathlib.Data.List.Infix
import Mathlib.Tactic.Common

/-!
# Reading and writing at a path of a CRDT structure

A structure is made of maps, arrays and primitives. `getNestedValue` reads at a path through maps
and arrays; `setNestedValue` walks to the container of the last key, creating maps on the way, and
writes there. An array has a `get`, so the walk takes it for a map, but it has no `set`: where the
walk would write to an array, the call throws.

How an array takes the text of a path for an index is up to the CRDT library, and may depend on
how the array is stored: an array carries its `layout`, and `YArrays` says which index a layout
finds. The laws of reading and writing hold exactly under `Condition` (`lawsHold_iff`).
-/

namespace N8n.NestedValues

universe u v

variable {π : Type u} {L : Type v}

/-- A JSON value, with the strings, numbers and booleans of `π`. -/
inductive Json (π : Type u)
  | null
  | scalar (value : π)
  | arr (items : List (Json π))
  | obj (fields : List (String × Json π))

mutual

/-- No object of the value has a key twice. -/
def Json.Distinct : Json π → Prop
  | .null | .scalar _ => True
  | .arr items => DistinctItems items
  | .obj fields => (fields.map Prod.fst).Nodup ∧ DistinctFields fields

def DistinctItems : List (Json π) → Prop
  | [] => True
  | item :: items => item.Distinct ∧ DistinctItems items

def DistinctFields : List (String × Json π) → Prop
  | [] => True
  | (_, value) :: fields => value.Distinct ∧ DistinctFields fields

end

/-- A value as JSON texts denote it. -/
structure JsonInput (π : Type u) where
  value : Json π
  distinct : value.Distinct

/-- A map, an array or a primitive. -/
inductive Crdt (π : Type u) (L : Type v)
  | null
  | scalar (value : π)
  | array (layout : L) (items : List (Crdt π L))
  | map (entries : List (String × Crdt π L))

/-- What the arrays of the CRDT library do with a text for an index, and how an array is stored
after its items were pushed. -/
structure YArrays (π : Type u) (L : Type v) where
  index : L → String → Option ℕ
  pushed : List (Crdt π L) → L

/-- `set` of a map. -/
def setEntry (key : String) (value : Crdt π L) :
    List (String × Crdt π L) → List (String × Crdt π L)
  | [] => [(key, value)]
  | (k, x) :: entries =>
    if k = key then (key, value) :: entries else (k, x) :: setEntry key value entries

section Source

variable (y : YArrays π L)

mutual

def seedValueDeep : Json π → Crdt π L
  | .null => .null
  | .scalar value => .scalar value
  | .arr items => .array (y.pushed (seedItems items)) (seedItems items)
  | .obj fields => .map (seedFields fields [])

def seedItems : List (Json π) → List (Crdt π L)
  | [] => []
  | item :: items => seedValueDeep item :: seedItems items

def seedFields : List (String × Json π) → List (String × Crdt π L) → List (String × Crdt π L)
  | [], entries => entries
  | (key, value) :: fields, entries =>
    seedFields fields (setEntry key (seedValueDeep value) entries)

end

mutual

def toJSON : Crdt π L → Json π
  | .null => .null
  | .scalar value => .scalar value
  | .array _ items => .arr (itemsToJSON items)
  | .map entries => .obj (entriesToJSON entries)

def itemsToJSON : List (Crdt π L) → List (Json π)
  | [] => []
  | item :: items => toJSON item :: itemsToJSON items

def entriesToJSON : List (String × Crdt π L) → List (String × Json π)
  | [] => []
  | (key, value) :: entries => (key, toJSON value) :: entriesToJSON entries

end

/-- `get` of a container. Nothing else has one. -/
def child : Crdt π L → String → Option (Crdt π L)
  | .map entries, key => entries.lookup key
  | .array layout items, key => (y.index layout key).bind (items[·]?)
  | _, _ => none

def getNestedValue : Crdt π L → List String → Option (Crdt π L)
  | current, [] => some current
  | current, key :: path => (child y current key).bind (getNestedValue · path)

/-- A container after its child at a key was changed in place. -/
def replaceChild (key : String) (value : Crdt π L) : Crdt π L → Crdt π L
  | .map entries => .map (setEntry key value entries)
  | .array layout items =>
    match y.index layout key with
    | some i => .array layout (items.set i value)
    | none => .array layout items
  | current => current

/-- `current.set(key, value)`, and whether it throws: only a map has a `set`. -/
def setKey (key : String) (value : Crdt π L) : Crdt π L → Crdt π L × Bool
  | .map entries => (.map (setEntry key value entries), false)
  | current => (current, true)

/-- The walk of `setNestedValue` from a container: what becomes of it, and whether the call
throws. -/
def write (seeded : Crdt π L) : Crdt π L → List String → Crdt π L × Bool
  | current, [] => (current, false)
  | current, [key] => setKey key seeded current
  | current, key :: next :: path =>
    match child y current key with
    | none | some .null =>
      -- a fresh map is put in the container, then the walk goes on in it
      let (fresh, thrown) := write seeded (.map []) (next :: path)
      match setKey key fresh current with
      | (written, false) => (written, thrown)
      | (unchanged, true) => (unchanged, true)
    | some (.scalar _) => (current, false)
    | some container =>
      let (written, thrown) := write seeded container (next :: path)
      (replaceChild y key written current, thrown)

def setNestedValue (root : List (String × Crdt π L)) (path : List String) (value : Json π) :
    Crdt π L × Bool :=
  write y (seedValueDeep y value) (.map root) path

/-! ## The laws -/

/-- What is read at a path, as JSON. -/
def read (current : Crdt π L) (path : List String) : Option (Json π) :=
  (getNestedValue y current path).map toJSON

def Incomparable (path other : List String) : Prop := ¬path <+: other ∧ ¬other <+: path

/-- A primitive other than null stands before the end of the path. -/
def Blocked : List String → Crdt π L → Prop
  | [], _ => False
  | key :: path, current =>
    (∃ value, current = .scalar value) ∨ ∃ next ∈ child y current key, Blocked path next

structure LawsHold (root : List (String × Crdt π L)) (path : List String) (value : Json π) :
    Prop where
  returns : (setNestedValue y root path value).2 = false
  laws : (read y (setNestedValue y root path value).1 path = some value ∧
      ∀ other, Incomparable path other →
        read y (setNestedValue y root path value).1 other = read y (.map root) other) ∨
    Blocked y path (.map root) ∧ (setNestedValue y root path value).1 = .map root

/-! ## The condition -/

def IsArray (current : Crdt π L) : Prop := ∃ layout items, current = .array layout items

/-- Nothing or null. -/
def Absent (value : Option (Crdt π L)) : Prop := value = none ∨ value = some .null

/-- The walk has to write to an array: the last key is one of an array, or an earlier one for
which an array has nothing. -/
def Stuck : List String → Crdt π L → Prop
  | [], _ => False
  | key :: path, current =>
    (IsArray current ∧ (path = [] ∨ Absent (child y current key))) ∨
      ∃ next ∈ child y current key, Stuck path next

/-- An array finds one element for both texts. -/
def SameElement (current : Crdt π L) (key other : String) : Prop :=
  ∃ layout items i, current = .array layout items ∧ i < items.length ∧
    y.index layout key = some i ∧ y.index layout other = some i

/-- An array on the path finds the same element for another text. -/
def Aliased : List String → Crdt π L → Prop
  | [], _ => False
  | key :: path, current =>
    (∃ other, other ≠ key ∧ SameElement y current key other) ∨
      ∃ next ∈ child y current key, Aliased path next

/-- Two structures that read the same at every path. -/
def Alike (a b : Crdt π L) : Prop := ∀ path, read y a path = read y b path

/-- The value is there already, for every reader. -/
def There (seeded current : Crdt π L) (path : List String) : Prop :=
  ∃ old ∈ getNestedValue y current path, Alike y old seeded

def Condition (root : List (String × Crdt π L)) (path : List String) (value : Json π) : Prop :=
  (path = [] → toJSON (.map root) = value) ∧ ¬Stuck y path (.map root) ∧
    (Aliased y path (.map root) →
      Blocked y path (.map root) ∨ There y (seedValueDeep y value) (.map root) path)

end Source

/-! ## Entries -/

section Entries

variable {key other : String} {x old : Crdt π L}

theorem lookup_setEntry_self (entries : List (String × Crdt π L)) :
    (setEntry key x entries).lookup key = some x := by
  induction entries with
  | nil => exact List.lookup_cons_self
  | cons entry entries ih =>
    rw [setEntry]
    split
    · exact List.lookup_cons_self
    · rename_i hne
      rw [List.lookup_cons, beq_eq_false_iff_ne.mpr (Ne.symm hne)]
      exact ih

theorem lookup_setEntry_of_ne (hne : other ≠ key) (entries : List (String × Crdt π L)) :
    (setEntry key x entries).lookup other = entries.lookup other := by
  induction entries with
  | nil => rw [setEntry, List.lookup_cons, beq_eq_false_iff_ne.mpr hne]
  | cons entry entries ih =>
    rw [setEntry]
    split
    · rename_i hkey
      rw [List.lookup_cons, List.lookup_cons, hkey, beq_eq_false_iff_ne.mpr hne]
    · rw [List.lookup_cons, List.lookup_cons, ih]

/-- A value that reads the same leaves the JSON of the map as it is. -/
theorem entriesToJSON_setEntry {entries : List (String × Crdt π L)}
    (hold : entries.lookup key = some old) (hsame : toJSON x = toJSON old) :
    entriesToJSON (setEntry key x entries) = entriesToJSON entries := by
  induction entries with
  | nil => cases hold
  | cons entry entries ih =>
    rw [setEntry]
    split
    · rename_i hkey
      rw [List.lookup_cons, hkey, beq_self_eq_true] at hold
      rw [entriesToJSON, entriesToJSON, hsame, hkey, Option.some.inj hold]
    · rename_i hne
      rw [List.lookup_cons, beq_eq_false_iff_ne.mpr (Ne.symm hne)] at hold
      rw [entriesToJSON, entriesToJSON, ih hold]

theorem itemsToJSON_set {items : List (Crdt π L)} {i : ℕ} (hold : items[i]? = some old)
    (hsame : toJSON x = toJSON old) : itemsToJSON (items.set i x) = itemsToJSON items := by
  induction items generalizing i with
  | nil => cases hold
  | cons item items ih =>
    cases i with
    | zero =>
      rw [List.set_cons_zero, itemsToJSON, itemsToJSON, hsame, ← Option.some.inj hold]
    | succ i => rw [List.set_cons_succ, itemsToJSON, itemsToJSON, ih hold]

theorem setEntry_of_notMem {entries : List (String × Crdt π L)}
    (h : key ∉ entries.map Prod.fst) : setEntry key x entries = entries ++ [(key, x)] := by
  induction entries with
  | nil => rfl
  | cons entry entries ih =>
    rw [List.map_cons, List.mem_cons, not_or] at h
    rw [setEntry, if_neg (Ne.symm h.1), ih h.2]
    rfl

theorem entriesToJSON_append (entries entries' : List (String × Crdt π L)) :
    entriesToJSON (entries ++ entries') = entriesToJSON entries ++ entriesToJSON entries' := by
  induction entries with
  | nil => rfl
  | cons entry entries ih => rw [List.cons_append, entriesToJSON, ih]; rfl

end Entries

/-! ## What is seeded reads as the value -/

section Seed

variable (y : YArrays π L)

mutual

theorem toJSON_seedValueDeep : (value : Json π) → value.Distinct →
    toJSON (seedValueDeep y value) = value
  | .null, _ => rfl
  | .scalar _, _ => rfl
  | .arr items, h => congrArg Json.arr (itemsToJSON_seedItems items h)
  | .obj fields, h =>
    congrArg Json.obj (entriesToJSON_seedFields fields [] h.2 (by simpa using h.1))

theorem itemsToJSON_seedItems : (items : List (Json π)) → DistinctItems items →
    itemsToJSON (seedItems y items) = items
  | [], _ => rfl
  | item :: items, h =>
    congrArg₂ List.cons (toJSON_seedValueDeep item h.1) (itemsToJSON_seedItems items h.2)

theorem entriesToJSON_seedFields : (fields : List (String × Json π)) →
    (entries : List (String × Crdt π L)) → DistinctFields fields →
    (entries.map Prod.fst ++ fields.map Prod.fst).Nodup →
    entriesToJSON (seedFields y fields entries) = entriesToJSON entries ++ fields
  | [], entries, _, _ => (List.append_nil _).symm
  | (key, value) :: fields, entries, h, hnodup => by
    have hnew : key ∉ entries.map Prod.fst := fun hmem =>
      (List.nodup_append.mp hnodup).2.2 key hmem key List.mem_cons_self rfl
    have hrest : ((entries ++ [(key, seedValueDeep y value)]).map Prod.fst ++
        fields.map Prod.fst).Nodup := by
      rw [List.map_append, List.append_assoc]
      exact hnodup
    rw [seedFields, setEntry_of_notMem hnew, entriesToJSON_seedFields fields _ h.2 hrest,
      entriesToJSON_append, List.append_assoc, entriesToJSON, toJSON_seedValueDeep value h.1]
    rfl

end

end Seed

/-! ## A container whose child changes -/

section Child

variable {y : YArrays π L} {current x next seeded : Crdt π L} {key other : String}
  {path : List String}

theorem child_replaceChild_self (hnext : child y current key = some next) :
    child y (replaceChild y key x current) key = some x := by
  cases current with
  | null => cases hnext
  | scalar value => cases hnext
  | map entries => exact lookup_setEntry_self entries
  | array layout items =>
    cases hindex : y.index layout key with
    | none =>
      rw [child, hindex] at hnext
      cases hnext
    | some i =>
      rw [child, hindex] at hnext
      obtain ⟨hlt, -⟩ := List.getElem?_eq_some_iff.mp hnext
      simp only [replaceChild, hindex, child, Option.bind_some, List.getElem?_set_self hlt]

/-- Another key finds what it found, unless it finds the element that changed. -/
theorem child_replaceChild_of_ne (hnext : child y current key = some next) (hne : other ≠ key) :
    child y (replaceChild y key x current) other = child y current other ∨
      SameElement y current key other ∧ child y current other = some next ∧
        child y (replaceChild y key x current) other = some x := by
  cases current with
  | null => cases hnext
  | scalar value => cases hnext
  | map entries => exact Or.inl (lookup_setEntry_of_ne hne entries)
  | array layout items =>
    cases hindex : y.index layout key with
    | none =>
      rw [child, hindex] at hnext
      cases hnext
    | some i =>
      have hitem : items[i]? = some next := by
        rw [child, hindex] at hnext
        exact hnext
      obtain ⟨hlt, -⟩ := List.getElem?_eq_some_iff.mp hitem
      cases hother : y.index layout other with
      | none => simp only [replaceChild, hindex, child, hother, Option.bind_none, true_or]
      | some j =>
        by_cases heq : j = i
        · subst heq
          refine Or.inr ⟨⟨layout, items, j, rfl, hlt, hindex, hother⟩, ?_, ?_⟩
          · rw [child, hother]
            exact hitem
          · simp only [replaceChild, hindex, child, hother, Option.bind_some,
              List.getElem?_set_self hlt]
        · refine Or.inl ?_
          simp only [replaceChild, hindex, child, hother, Option.bind_some,
            List.getElem?_set_ne (Ne.symm heq)]

theorem child_of_sameElement (hsame : SameElement y current key other)
    (hnext : child y current key = some next) :
    child y current other = some next ∧ child y (replaceChild y key x current) other = some x := by
  obtain ⟨layout, items, i, rfl, hlt, hkey, hother⟩ := hsame
  have hitem : items[i]? = some next := by
    rw [child, hkey] at hnext
    exact hnext
  refine ⟨?_, ?_⟩
  · rw [child, hother]
    exact hitem
  · simp only [replaceChild, hkey, child, hother, Option.bind_some, List.getElem?_set_self hlt]

theorem read_nil (current : Crdt π L) : read y current [] = some (toJSON current) :=
  rfl

theorem read_cons (current : Crdt π L) (key : String) (path : List String) :
    read y current (key :: path) = (child y current key).bind (read y · path) := by
  rw [read, getNestedValue, Option.map_bind]
  rfl

theorem getNestedValue_append (current : Crdt π L) (path path' : List String) :
    getNestedValue y current (path ++ path') =
      (getNestedValue y current path).bind (getNestedValue y · path') := by
  induction path generalizing current with
  | nil => rfl
  | cons key path ih =>
    rw [List.cons_append, getNestedValue, getNestedValue, Option.bind_assoc]
    exact congrArg _ (funext ih)

theorem read_append (current : Crdt π L) (path path' : List String) :
    read y current (path ++ path') = (getNestedValue y current path).bind (read y · path') := by
  rw [read, getNestedValue_append, Option.map_bind]
  rfl

theorem toJSON_replaceChild (hnext : child y current key = some next)
    (hsame : toJSON x = toJSON next) : toJSON (replaceChild y key x current) = toJSON current := by
  cases current with
  | null => cases hnext
  | scalar value => cases hnext
  | map entries => exact congrArg Json.obj (entriesToJSON_setEntry hnext hsame)
  | array layout items =>
    cases hindex : y.index layout key with
    | none =>
      rw [child, hindex] at hnext
      cases hnext
    | some i =>
      rw [child, hindex] at hnext
      simp only [replaceChild, hindex]
      exact congrArg Json.arr (itemsToJSON_set hnext hsame)

/-- A child that reads the same makes its container read the same. -/
theorem Alike.replaceChild (h : Alike y next x) (hnext : child y current key = some next) :
    Alike y current (replaceChild y key x current) := by
  intro path
  cases path with
  | nil =>
    have hsame : toJSON x = toJSON next := Option.some.inj (h []).symm
    rw [read_nil, read_nil, toJSON_replaceChild hnext hsame]
  | cons other path =>
    rw [read_cons, read_cons]
    by_cases heq : other = key
    · rw [heq, hnext, child_replaceChild_self hnext]
      exact h path
    · rcases child_replaceChild_of_ne (x := x) hnext heq with hchild | ⟨-, hbefore, hafter⟩
      · rw [hchild]
      · rw [hbefore, hafter]
        exact h path

/-- A structure that reads as one with the value at the path has the value there. -/
theorem Alike.there {after : Crdt π L} (h : Alike y current after)
    (hget : getNestedValue y after path = some seeded) : There y seeded current path := by
  have hread (path' : List String) :
      (getNestedValue y current path).bind (read y · path') = read y seeded path' := by
    rw [← read_append, h, read_append, hget]
    rfl
  cases hold : getNestedValue y current path with
  | none =>
    have hnil := hread []
    rw [hold] at hnil
    cases hnil
  | some old =>
    refine ⟨old, hold, fun path' => ?_⟩
    rw [← hread path', hold]
    rfl

end Child

/-! ## The walk -/

/-- What a walk that reaches its end does. -/
structure Written (y : YArrays π L) (seeded current after : Crdt π L) (path : List String) :
    Prop where
  get : getNestedValue y after path = some seeded
  alike : There y seeded current path → Alike y current after
  frame : (∀ other, Incomparable path other → read y after other = read y current other) ↔
    (Aliased y path current → There y seeded current path)

section Walk

variable {y : YArrays π L} {current next seeded after : Crdt π L} {key other : String}
  {path path' : List String} {entries : List (String × Crdt π L)}

theorem incomparable_cons_iff :
    Incomparable (key :: path) (key :: path') ↔ Incomparable path path' := by
  simp only [Incomparable, List.cons_prefix_cons, true_and]

theorem incomparable_of_ne (h : other ≠ key) : Incomparable (key :: path) (other :: path') :=
  ⟨fun hprefix => h (List.cons_prefix_cons.mp hprefix).1.symm,
    fun hprefix => h (List.cons_prefix_cons.mp hprefix).1⟩

theorem not_incomparable_nil (path : List String) : ¬Incomparable path [] :=
  fun h => h.2 List.nil_prefix

theorem not_sameElement_map : ¬SameElement y (.map entries) key other :=
  fun ⟨_, _, _, hmap, _⟩ => nomatch hmap

/-- Nothing is found in a value without children. -/
theorem getNestedValue_of_childless (h : ∀ key, child y current key = none) (key : String)
    (path : List String) : getNestedValue y current (key :: path) = none := by
  rw [getNestedValue, h]
  rfl

theorem not_aliased_of_childless (hchild : ∀ key, child y current key = none)
    (hcurrent : ¬IsArray current) (path : List String) : ¬Aliased y path current := by
  cases path with
  | nil => exact not_false
  | cons key path =>
    rintro (⟨other, -, layout, items, i, rfl, -⟩ | ⟨next, hnext, -⟩)
    · exact hcurrent ⟨layout, items, rfl⟩
    · exact nomatch (hchild key).symm.trans hnext

theorem not_stuck_of_childless (hchild : ∀ key, child y current key = none)
    (hcurrent : ¬IsArray current) (path : List String) : ¬Stuck y path current := by
  cases path with
  | nil => exact not_false
  | cons key path =>
    rintro (⟨harray, -⟩ | ⟨next, hnext, -⟩)
    · exact hcurrent harray
    · exact nomatch (hchild key).symm.trans hnext

theorem child_map_nil (key : String) : child y (.map [] : Crdt π L) key = none :=
  rfl

theorem child_null (key : String) : child y (.null : Crdt π L) key = none :=
  rfl

theorem not_isArray_map : ¬IsArray (.map entries : Crdt π L) :=
  fun ⟨_, _, hmap⟩ => nomatch hmap

theorem not_isArray_null : ¬IsArray (.null : Crdt π L) :=
  fun ⟨_, _, hnull⟩ => nomatch hnull

/-- The last key is set in a map. -/
theorem Written.last (seeded : Crdt π L) (entries : List (String × Crdt π L)) (key : String) :
    Written y seeded (.map entries) (.map (setEntry key seeded entries)) [key] := by
  refine ⟨?_, ?_, iff_of_true ?_ ?_⟩
  · rw [getNestedValue, child, lookup_setEntry_self]
    rfl
  · rintro ⟨old, hold, halike⟩
    rw [getNestedValue, child] at hold
    obtain ⟨next, hnext, hsame⟩ := Option.bind_eq_some_iff.mp hold
    cases hsame
    have hmap : Alike y (.map entries) (replaceChild y key seeded (.map entries)) :=
      halike.replaceChild hnext
    exact hmap
  · intro path' hpath
    cases path' with
    | nil => exact absurd hpath (not_incomparable_nil _)
    | cons other path' =>
      by_cases heq : other = key
      · rw [heq] at hpath
        exact absurd (incomparable_cons_iff.mp hpath).1 (not_not.mpr List.nil_prefix)
      · rw [read_cons, read_cons, child, child, lookup_setEntry_of_ne heq]
  · rintro (⟨other, -, hsame⟩ | ⟨next, -, haliased⟩)
    · exact absurd hsame not_sameElement_map
    · exact absurd haliased not_false

/-- The walk goes on in a fresh map. -/
theorem Written.fresh (habsent : Absent (child y (.map entries) key)) {fresh : Crdt π L}
    {first : String} (h : Written y seeded (.map []) fresh (first :: path)) :
    Written y seeded (.map entries) (.map (setEntry key fresh entries)) (key :: first :: path) := by
  have hnothing (k : String) (p : List String) :
      getNestedValue y (.map entries) (key :: k :: p) = none := by
    rw [getNestedValue]
    rcases habsent with hnone | hnull
    · rw [hnone]
      rfl
    · rw [hnull]
      exact getNestedValue_of_childless (y := y) child_null k p
  refine ⟨?_, ?_, iff_of_true ?_ ?_⟩
  · rw [getNestedValue, child, lookup_setEntry_self]
    exact h.get
  · rintro ⟨old, hold, -⟩
    exact nomatch (hnothing first path).symm.trans hold
  · intro path' hpath
    cases path' with
    | nil => exact absurd hpath (not_incomparable_nil _)
    | cons other path' =>
      by_cases heq : other = key
      · rw [heq] at hpath ⊢
        have hrest := incomparable_cons_iff.mp hpath
        cases path' with
        | nil => exact absurd hrest (not_incomparable_nil _)
        | cons k path' =>
          have hframe := h.frame.mpr (fun haliased => absurd haliased
            (not_aliased_of_childless child_map_nil not_isArray_map _)) _ hrest
          rw [read_cons, child, lookup_setEntry_self, Option.bind_some, hframe, read, read,
            hnothing, getNestedValue_of_childless child_map_nil]
      · rw [read_cons, read_cons, child, child, lookup_setEntry_of_ne heq]
  · rintro (⟨other, -, hsame⟩ | ⟨next, hnext, haliased⟩)
    · exact absurd hsame not_sameElement_map
    · rcases habsent with hnone | hnull
      · exact nomatch hnone.symm.trans hnext
      · cases hnull.symm.trans hnext
        exact absurd haliased (not_aliased_of_childless child_null not_isArray_null _)

theorem there_cons_iff (hnext : child y current key = some next) :
    There y seeded current (key :: path) ↔ There y seeded next path := by
  rw [There, getNestedValue, hnext]
  exact Iff.rfl

/-- The walk goes on in a container that is there. -/
theorem Written.inside (hnext : child y current key = some next)
    (h : Written y seeded next after path) :
    Written y seeded current (replaceChild y key after current) (key :: path) := by
  refine ⟨?_, fun hthere => ?_, fun hframe haliased => ?_, fun hthere path' hpath => ?_⟩
  · rw [getNestedValue, child_replaceChild_self hnext]
    exact h.get
  · exact (h.alike ((there_cons_iff hnext).mp hthere)).replaceChild hnext
  · rw [there_cons_iff hnext]
    rcases haliased with ⟨other, hne, hsame⟩ | ⟨next', hnext', haliased⟩
    · obtain ⟨hbefore, hafter⟩ := child_of_sameElement (x := after) hsame hnext
      have halike : Alike y next after := fun path' => by
        have hread := hframe (other :: path') (incomparable_of_ne hne)
        rw [read_cons, read_cons, hbefore, hafter] at hread
        exact hread.symm
      exact halike.there h.get
    · cases hnext.symm.trans hnext'
      refine h.frame.mp (fun path' hpath => ?_) haliased
      have hread := hframe (key :: path') (incomparable_cons_iff.mpr hpath)
      rwa [read_cons, read_cons, child_replaceChild_self hnext, hnext] at hread
  · have hinner (haliased : Aliased y path next) : There y seeded next path :=
      (there_cons_iff hnext).mp (hthere (Or.inr ⟨next, hnext, haliased⟩))
    cases path' with
    | nil => exact absurd hpath (not_incomparable_nil _)
    | cons other path' =>
      rw [read_cons, read_cons]
      by_cases heq : other = key
      · rw [heq] at hpath ⊢
        rw [child_replaceChild_self hnext, hnext]
        exact h.frame.mpr hinner path' (incomparable_cons_iff.mp hpath)
      · rcases child_replaceChild_of_ne (x := after) hnext heq with
          hchild | ⟨hsame, hbefore, hafter⟩
        · rw [hchild]
        · rw [hbefore, hafter]
          have hthere' := (there_cons_iff hnext).mp (hthere (Or.inl ⟨other, heq, hsame⟩))
          exact (h.alike hthere' path').symm

/-- A child that is put back changes nothing. -/
theorem replaceChild_self (hnext : child y current key = some next) :
    replaceChild y key next current = current := by
  cases current with
  | null => cases hnext
  | scalar value => cases hnext
  | map entries =>
    refine congrArg Crdt.map ?_
    change entries.lookup key = some next at hnext
    induction entries with
    | nil => cases hnext
    | cons entry entries ih =>
      rw [setEntry]
      split
      · rename_i hkey
        rw [List.lookup_cons, hkey, beq_self_eq_true] at hnext
        rw [← Option.some.inj hnext, ← hkey]
      · rename_i hne
        rw [List.lookup_cons, beq_eq_false_iff_ne.mpr (Ne.symm hne)] at hnext
        rw [ih hnext]
  | array layout items =>
    cases hindex : y.index layout key with
    | none =>
      rw [child, hindex] at hnext
      cases hnext
    | some i =>
      rw [child, hindex] at hnext
      obtain ⟨hlt, hitem⟩ := List.getElem?_eq_some_iff.mp hnext
      simp only [replaceChild, hindex]
      rw [← hitem, List.set_getElem_self]

def IsContainer (current : Crdt π L) : Prop := (∃ entries, current = .map entries) ∨ IsArray current

/-- What the walk from a container comes to. -/
structure WalkSpec (y : YArrays π L) (seeded current : Crdt π L) (path : List String) : Prop where
  stuck : Stuck y path current → (write y seeded current path).2 = true
  blocked : ¬Stuck y path current → Blocked y path current →
    write y seeded current path = (current, false)
  written : ¬Stuck y path current → ¬Blocked y path current →
    (write y seeded current path).2 = false ∧
      Written y seeded current (write y seeded current path).1 path

theorem WalkSpec.last (hcurrent : IsContainer current) : WalkSpec y seeded current [key] := by
  have hblocked : ¬Blocked y [key] current := by
    rintro (⟨value, rfl⟩ | ⟨next, -, hnil⟩)
    · exact hcurrent.elim (fun ⟨_, hmap⟩ => nomatch hmap) fun ⟨_, _, harray⟩ => nomatch harray
    · exact hnil
  rcases hcurrent with ⟨entries, rfl⟩ | harray
  · refine ⟨?_, fun _ hblock => absurd hblock hblocked, fun _ _ => ⟨rfl, .last seeded entries key⟩⟩
    rintro (⟨harray, -⟩ | ⟨next, -, hnil⟩)
    · exact absurd harray not_isArray_map
    · exact absurd hnil not_false
  · have hstuck : Stuck y [key] current := Or.inl ⟨harray, Or.inl rfl⟩
    refine ⟨fun _ => ?_, fun hnot => absurd hstuck hnot, fun hnot => absurd hstuck hnot⟩
    obtain ⟨layout, items, rfl⟩ := harray
    rfl

/-- Nothing is there for the next key. -/
theorem WalkSpec.absent (hcurrent : IsContainer current) {first : String}
    (habsent : Absent (child y current key))
    (h : WalkSpec y seeded (.map []) (first :: path)) :
    WalkSpec y seeded current (key :: first :: path) := by
  have hwrite : write y seeded current (key :: first :: path) =
      match setKey key (write y seeded (.map []) (first :: path)).1 current with
      | (written, false) => (written, (write y seeded (.map []) (first :: path)).2)
      | (unchanged, true) => (unchanged, true) := by
    rw [write]
    rcases habsent with hnone | hnull
    · rw [hnone]
    · rw [hnull]
  rcases hcurrent with ⟨entries, rfl⟩ | harray
  · have hstuck : ¬Stuck y (first :: path) (.map [] : Crdt π L) :=
      not_stuck_of_childless child_map_nil not_isArray_map _
    have hblocked : ¬Blocked y (first :: path) (.map [] : Crdt π L) := by
      rintro (⟨value, hvalue⟩ | ⟨next, hnext, -⟩)
      · exact nomatch hvalue
      · exact nomatch hnext
    obtain ⟨hreturns, hwritten⟩ := h.written hstuck hblocked
    refine ⟨?_, fun _ => ?_, fun _ _ => ?_⟩
    · rintro (⟨harray, -⟩ | ⟨next, hnext, hinner⟩)
      · exact absurd harray not_isArray_map
      · rcases habsent with hnone | hnull
        · exact nomatch hnone.symm.trans hnext
        · cases hnull.symm.trans hnext
          exact absurd hinner (not_stuck_of_childless child_null not_isArray_null _)
    · rintro (⟨value, hvalue⟩ | ⟨next, hnext, hinner⟩)
      · exact nomatch hvalue
      · rcases habsent with hnone | hnull
        · exact nomatch hnone.symm.trans hnext
        · cases hnull.symm.trans hnext
          rcases hinner with ⟨value, hvalue⟩ | ⟨next, hnext', -⟩
          · exact nomatch hvalue
          · exact nomatch hnext'
    · rw [hwrite, setKey]
      exact ⟨hreturns, hwritten.fresh habsent⟩
  · have hstuck : Stuck y (key :: first :: path) current := Or.inl ⟨harray, Or.inr habsent⟩
    refine ⟨fun _ => ?_, fun hnot => absurd hstuck hnot, fun hnot => absurd hstuck hnot⟩
    rw [hwrite]
    obtain ⟨layout, items, rfl⟩ := harray
    rfl

/-- A primitive is there for the next key. -/
theorem WalkSpec.scalar {first : String} {value : π}
    (hnext : child y current key = some (.scalar value)) :
    WalkSpec y seeded current (key :: first :: path) := by
  have hblocked : Blocked y (key :: first :: path) current :=
    Or.inr ⟨_, hnext, Or.inl ⟨value, rfl⟩⟩
  refine ⟨?_, fun _ _ => ?_, fun _ hnot => absurd hblocked hnot⟩
  · rintro (⟨-, hnil | hnone | hnull⟩ | ⟨next, hnext', hinner⟩)
    · cases hnil
    · exact nomatch hnext.symm.trans hnone
    · exact nomatch hnext.symm.trans hnull
    · cases hnext.symm.trans hnext'
      exact absurd hinner (not_stuck_of_childless (fun _ => rfl) (fun ⟨_, _, h⟩ => nomatch h) _)
  · rw [write, hnext]

/-- A container is there for the next key. -/
theorem WalkSpec.container (hcurrent : IsContainer current) {first : String}
    (hnext : child y current key = some next) (hcontainer : IsContainer next)
    (h : WalkSpec y seeded next (first :: path)) :
    WalkSpec y seeded current (key :: first :: path) := by
  have hwrite : write y seeded current (key :: first :: path) =
      (replaceChild y key (write y seeded next (first :: path)).1 current,
        (write y seeded next (first :: path)).2) := by
    rw [write, hnext]
    rcases hcontainer with ⟨entries, rfl⟩ | ⟨layout, items, rfl⟩
    · rfl
    · rfl
  have hstuck : Stuck y (key :: first :: path) current ↔ Stuck y (first :: path) next := by
    constructor
    · rintro (⟨-, hnil | hnone | hnull⟩ | ⟨next', hnext', hinner⟩)
      · cases hnil
      · exact nomatch hnext.symm.trans hnone
      · cases hnext.symm.trans hnull
        exact hcontainer.elim (fun ⟨_, hmap⟩ => nomatch hmap) fun ⟨_, _, harray⟩ => nomatch harray
      · cases hnext.symm.trans hnext'
        exact hinner
    · exact fun hinner => Or.inr ⟨next, hnext, hinner⟩
  have hblocked : Blocked y (key :: first :: path) current ↔ Blocked y (first :: path) next := by
    constructor
    · rintro (⟨value, rfl⟩ | ⟨next', hnext', hinner⟩)
      · exact hcurrent.elim (fun ⟨_, hmap⟩ => nomatch hmap) fun ⟨_, _, harray⟩ => nomatch harray
      · cases hnext.symm.trans hnext'
        exact hinner
    · exact fun hinner => Or.inr ⟨next, hnext, hinner⟩
  refine ⟨fun hs => ?_, fun hs hb => ?_, fun hs hb => ?_⟩
  · rw [hwrite]
    exact h.stuck (hstuck.mp hs)
  · rw [hwrite, h.blocked (mt hstuck.mpr hs) (hblocked.mp hb), replaceChild_self hnext]
  · rw [hwrite]
    obtain ⟨hreturns, hwritten⟩ := h.written (mt hstuck.mpr hs) (mt hblocked.mpr hb)
    exact ⟨hreturns, hwritten.inside hnext⟩

/-- **What the walk comes to**, by induction on the path. -/
theorem walkSpec (seeded : Crdt π L) (path : List String) (key : String)
    (hcurrent : IsContainer current) : WalkSpec y seeded current (key :: path) := by
  induction path generalizing current key with
  | nil => exact .last hcurrent
  | cons first path ih =>
    cases hnext : child y current key with
    | none => exact .absent hcurrent (Or.inl hnext) (ih first (Or.inl ⟨[], rfl⟩))
    | some next =>
      cases next with
      | null => exact .absent hcurrent (Or.inr hnext) (ih first (Or.inl ⟨[], rfl⟩))
      | scalar value => exact .scalar hnext
      | map entries =>
        exact .container hcurrent hnext (Or.inl ⟨entries, rfl⟩) (ih first (Or.inl ⟨entries, rfl⟩))
      | array layout items =>
        exact .container hcurrent hnext (Or.inr ⟨layout, items, rfl⟩)
          (ih first (Or.inr ⟨layout, items, rfl⟩))

/-- The laws on a path that is neither stuck nor blocked. -/
theorem lawsHold_iff_of_written {root : List (String × Crdt π L)} (value : JsonInput π)
    (hblocked : ¬Blocked y path (.map root))
    (hreturns : (setNestedValue y root path value.value).2 = false)
    (hwritten : Written y (seedValueDeep y value.value) (.map root)
      (setNestedValue y root path value.value).1 path) :
    LawsHold y root path value.value ↔
      (Aliased y path (.map root) → There y (seedValueDeep y value.value) (.map root) path) := by
  rw [← hwritten.frame]
  constructor
  · rintro ⟨-, ⟨-, hframe⟩ | ⟨hblock, -⟩⟩
    · exact hframe
    · exact absurd hblock hblocked
  · intro hframe
    refine ⟨hreturns, Or.inl ⟨?_, hframe⟩⟩
    rw [read, hwritten.get, Option.map_some, toJSON_seedValueDeep y _ value.distinct]

/-- **The laws hold exactly when the root reads as the value if the path is empty, the walk has
not to write to an array, and no other text finds an element on the path, unless a primitive
blocks the path or the value is there already.** -/
theorem lawsHold_iff (y : YArrays π L) (root : List (String × Crdt π L)) (path : List String)
    (value : JsonInput π) :
    LawsHold y root path value.value ↔ Condition y root path value.value := by
  cases path with
  | nil =>
    constructor
    · rintro ⟨-, ⟨hread, -⟩ | ⟨hblock, -⟩⟩
      · exact ⟨fun _ => Option.some.inj hread, not_false, fun haliased => absurd haliased not_false⟩
      · exact absurd hblock not_false
    · rintro ⟨hroot, -, -⟩
      exact ⟨rfl, Or.inl ⟨congrArg some (hroot rfl), fun _ _ => rfl⟩⟩
  | cons key path =>
    have hspec : WalkSpec y (seedValueDeep y value.value) (.map root) (key :: path) :=
      walkSpec _ path key (Or.inl ⟨root, rfl⟩)
    by_cases hstuck : Stuck y (key :: path) (.map root)
    · refine iff_of_false (fun h => ?_) fun h => h.2.1 hstuck
      exact Bool.false_ne_true (h.returns.symm.trans (hspec.stuck hstuck))
    by_cases hblocked : Blocked y (key :: path) (.map root)
    · have hwrite := hspec.blocked hstuck hblocked
      refine iff_of_true ⟨congrArg Prod.snd hwrite, Or.inr ⟨hblocked, congrArg Prod.fst hwrite⟩⟩ ?_
      exact ⟨nofun, hstuck, fun _ => Or.inl hblocked⟩
    · obtain ⟨hreturns, hwritten⟩ := hspec.written hstuck hblocked
      rw [lawsHold_iff_of_written value hblocked hreturns hwritten]
      exact ⟨fun h => ⟨nofun, hstuck, fun haliased => Or.inr (h haliased)⟩,
        fun h haliased => (h.2.2 haliased).resolve_left hblocked⟩

end Walk

/-! ## A write to an array -/

/-- An array that takes the text `0` for its first index. -/
def firstOnly : YArrays Unit Unit where
  index _ text := if text = "0" then some 0 else none
  pushed _ := ()

/-- The path `list`, `0` of a map with a list of one item: the call throws. -/
theorem not_lawsHold_array :
    ¬∀ (y : YArrays Unit Unit) (root : List (String × Crdt Unit Unit)) (path : List String)
      (value : JsonInput Unit), LawsHold y root path value.value := by
  intro hclaim
  have hmeets := hclaim firstOnly [("list", .array () [.scalar ()])] ["list", "0"]
    ⟨.null, trivial⟩
  exact Bool.false_ne_true hmeets.returns.symm

end N8n.NestedValues
