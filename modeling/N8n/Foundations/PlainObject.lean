import Mathlib.Data.List.Sort
import N8n.Foundations.InsertionMap

/-!
# String-keyed plain objects

A JavaScript object literal used as a dictionary is an `InsertionMap` with string keys,
with two differences that a program can observe. It is enumerated with the keys that are
array indices first, in ascending order, and only then the other keys in insertion order
(`ownEntries`). And reading a key that was never set can still find something: the members
of `Object.prototype` (`inheritedKeys`). An object that is keyed by numbers only is an
`InsertionMap` with numbers as keys, enumerated in ascending order (`indexEntries`).
-/

namespace InsertionMap

universe v

variable {α : Type v}

/-- The array index that a property key denotes: the number whose canonical decimal form
the key is. -/
def arrayIndex? (key : String) : Option ℕ :=
  let n := key.toList.foldl (fun n c => 10 * n + (c.toNat - '0'.toNat)) 0
  if key = toString n ∧ n < 2 ^ 32 - 1 then some n else none

/-- The entries with an array index as key, with that index. -/
private def indexed (l : List (String × α)) : List (ℕ × String × α) :=
  l.filterMap fun e => (arrayIndex? e.1).map fun n => (n, e)

/-- The entries in the order in which `Object.entries` lists them. -/
def ownEntries (m : InsertionMap String α) : List (String × α) :=
  ((indexed m.entries).insertionSort fun e e' => e.1 ≤ e'.1).map Prod.snd ++
    m.entries.filter fun e => (arrayIndex? e.1).isNone

/-- `Object.keys`. -/
def ownKeys (m : InsertionMap String α) : List String := m.ownEntries.map Prod.fst

/-- `Object.values`. -/
def ownValues (m : InsertionMap String α) : List α := m.ownEntries.map Prod.snd

private theorem map_snd_indexed (l : List (String × α)) :
    (indexed l).map Prod.snd = l.filter fun e => (arrayIndex? e.1).isSome := by
  induction l with
  | nil => rfl
  | cons e l ih =>
    simp only [indexed, List.filterMap_cons, List.filter_cons] at ih ⊢
    rcases arrayIndex? e.1 with _ | n <;> simp [ih]

/-- Enumeration only reorders. -/
theorem ownEntries_perm (m : InsertionMap String α) : m.ownEntries.Perm m.entries := by
  have hsort := (List.perm_insertionSort (fun e e' : ℕ × String × α => e.1 ≤ e'.1)
    (indexed m.entries)).map Prod.snd
  rw [map_snd_indexed] at hsort
  refine (hsort.append_right _).trans ?_
  simpa only [Option.not_isSome] using
    List.filter_append_perm (fun e : String × α => (arrayIndex? e.1).isSome) m.entries

@[simp] theorem mem_ownEntries {m : InsertionMap String α} {e : String × α} :
    e ∈ m.ownEntries ↔ e ∈ m.entries := m.ownEntries_perm.mem_iff

@[simp] theorem mem_ownKeys {m : InsertionMap String α} {k : String} :
    k ∈ m.ownKeys ↔ k ∈ m.keys := (m.ownEntries_perm.map Prod.fst).mem_iff

@[simp] theorem mem_ownValues {m : InsertionMap String α} {a : α} :
    a ∈ m.ownValues ↔ a ∈ m.values := (m.ownEntries_perm.map Prod.snd).mem_iff

theorem ownKeys_nodup (m : InsertionMap String α) : m.ownKeys.Nodup :=
  (m.ownEntries_perm.map Prod.fst).nodup_iff.mpr m.keys_nodup

/-- Mapping the values keeps the order. -/
theorem ownEntries_map {β : Type*} (f : α → β) (m : InsertionMap String α) :
    (m.map f).ownEntries = m.ownEntries.map fun e => (e.1, f e.2) := by
  have hindexed : indexed (m.map f).entries =
      (indexed m.entries).map fun e => (e.1, e.2.1, f e.2.2) := by
    simp only [indexed, entries_map, List.filterMap_map, List.map_filterMap]
    refine List.filterMap_congr fun e _ => ?_
    simp [Option.map_map, Function.comp_def]
  have hsort := List.map_insertionSort (fun e e' : ℕ × String × α => e.1 ≤ e'.1)
    (fun e e' : ℕ × String × β => e.1 ≤ e'.1) (fun e => (e.1, e.2.1, f e.2.2))
    (indexed m.entries) fun _ _ _ _ => Iff.rfl
  rw [ownEntries, ownEntries, hindexed, ← hsort, List.map_map, List.map_append, List.map_map,
    entries_map, List.filter_map]
  rfl

private theorem filter_orderedInsert {β : Type*} {r : β → β → Prop} [DecidableRel r]
    (htrans : ∀ a b c, r a b → r b c → r a c) (p : β → Bool) (a : β) {l : List β}
    (hl : l.Pairwise r) : (l.orderedInsert r a).filter p =
      if p a then (l.filter p).orderedInsert r a else l.filter p := by
  induction l with
  | nil => by_cases ha : p a = true <;> simp [ha]
  | cons b l ih =>
    obtain ⟨hb, hl⟩ := List.pairwise_cons.mp hl
    rw [List.orderedInsert_cons]
    split
    next hab =>
      by_cases ha : p a = true
      · rw [if_pos ha, List.filter_cons_of_pos ha]
        have hle : ∀ x ∈ (b :: l).filter p, r a x := by
          intro x hx
          obtain rfl | hx := List.mem_cons.mp (List.mem_filter.mp hx).1
          · exact hab
          · exact htrans a b x hab (hb x hx)
        cases hrest : (b :: l).filter p with
        | nil => rfl
        | cons x rest =>
          rw [List.orderedInsert_cons, if_pos (hle x (hrest ▸ List.mem_cons_self))]
      · rw [if_neg ha, List.filter_cons_of_neg ha]
    next hab =>
      rw [List.filter_cons, ih hl]
      by_cases ha : p a = true
      · by_cases hb' : p b = true
        · simp [ha, hb', hab]
        · simp [ha, hb']
      · simp [ha, List.filter_cons]

private theorem filter_insertionSort {β : Type*} {r : β → β → Prop} [DecidableRel r]
    [Std.Total r] [IsTrans β r] (p : β → Bool) (l : List β) :
    (l.insertionSort r).filter p = (l.filter p).insertionSort r := by
  induction l with
  | nil => rfl
  | cons a l ih =>
    have hstep := filter_orderedInsert (fun _ _ _ => IsTrans.trans _ _ _) p a
      (List.pairwise_insertionSort r l)
    rw [List.insertionSort_cons, hstep, ih, List.filter_cons]
    split <;> rfl

/-- Two objects with the same relevant entries, in the same order, list them in the same order. -/
theorem flatMap_ownEntries_congr {β : Type*} {f : String × α → List β} {p : String × α → Bool}
    {m m' : InsertionMap String α} (h : m.entries.filter p = m'.entries.filter p)
    (hf : ∀ e, p e = false → f e = []) : m.ownEntries.flatMap f = m'.ownEntries.flatMap f := by
  have hrelevant : ∀ l : List (String × α), l.flatMap f = (l.filter p).flatMap f := by
    intro l
    induction l with
    | nil => rfl
    | cons e l ih =>
      rw [List.flatMap_cons, ih, List.filter_cons]
      by_cases he : p e = true
      · rw [if_pos he, List.flatMap_cons]
      · rw [if_neg he, hf e (Bool.eq_false_iff.mpr he), List.nil_append]
  have hown : ∀ m : InsertionMap String α, m.ownEntries.filter p =
      ((indexed (m.entries.filter p)).insertionSort fun e e' => e.1 ≤ e'.1).map Prod.snd ++
        (m.entries.filter p).filter fun e => (arrayIndex? e.1).isNone := by
    intro m
    have hindexed : (indexed m.entries).filter (p ∘ Prod.snd) = indexed (m.entries.filter p) := by
      rw [indexed, indexed, List.filter_filterMap, List.filterMap_filter]
      refine List.filterMap_congr fun e _ => ?_
      cases hn : arrayIndex? e.1 <;> cases hp : p e <;> simp [hp]
    rw [ownEntries, List.filter_append, List.filter_map, filter_insertionSort, hindexed,
      List.filter_comm]
  rw [hrelevant m.ownEntries, hrelevant m'.ownEntries, hown, hown, h]

/-! ### The keys of objects -/

/-- The keys under which every plain object finds a member of `Object.prototype`. -/
def inheritedKeys : List String :=
  ["constructor", "__defineGetter__", "__defineSetter__", "hasOwnProperty",
    "__lookupGetter__", "__lookupSetter__", "isPrototypeOf", "propertyIsEnumerable",
    "toString", "valueOf", "__proto__", "toLocaleString"]

example : (((empty.set "b" 0).set "10" 1).set "9" 2).ownKeys = ["9", "10", "b"] := by
  decide

/-! ### Numeric keys -/

/-- The entries of an object whose keys are array indices: in ascending order. -/
def indexEntries (m : InsertionMap ℕ α) : List (ℕ × α) :=
  m.entries.insertionSort fun e e' => e.1 ≤ e'.1

def indexKeys (m : InsertionMap ℕ α) : List ℕ := m.indexEntries.map Prod.fst

theorem indexEntries_perm (m : InsertionMap ℕ α) : m.indexEntries.Perm m.entries :=
  List.perm_insertionSort _ _

@[simp] theorem mem_indexEntries {m : InsertionMap ℕ α} {e : ℕ × α} :
    e ∈ m.indexEntries ↔ e ∈ m.entries := m.indexEntries_perm.mem_iff

/-- Mapping the values keeps the order. -/
theorem indexEntries_map {β : Type*} (f : α → β) (m : InsertionMap ℕ α) :
    (m.map f).indexEntries = m.indexEntries.map fun e => (e.1, f e.2) :=
  (List.map_insertionSort (fun e e' : ℕ × α => e.1 ≤ e'.1) (fun e e' : ℕ × β => e.1 ≤ e'.1)
    (fun e => (e.1, f e.2)) m.entries fun _ _ _ _ => Iff.rfl).symm

/-- The keys of the enumeration ascend. -/
theorem pairwise_indexEntries (m : InsertionMap ℕ α) :
    m.indexEntries.Pairwise fun e e' => e.1 ≤ e'.1 :=
  List.pairwise_insertionSort (fun e e' : ℕ × α => e.1 ≤ e'.1) m.entries

end InsertionMap
