import Mathlib.Algebra.BigOperators.Group.List.Basic
import Mathlib.Algebra.GroupWithZero.Nat
import Mathlib.Data.List.Nodup
import Mathlib.Data.List.Perm.Basic
import Mathlib.Tactic.Common

/-!
# Maps that remember the order of insertion

`InsertionMap κ α` is a finite map whose entries are kept in the order in which their
keys were first set, as the `Map` and the string-keyed objects of JavaScript keep them:
setting a key that is present replaces its value in place, setting a new one appends it,
and erasing keeps the order of the rest. The list of entries carries the proof that no key
occurs twice, so that an entry is found by its key alone.
-/

universe u v w

/-- A finite map with distinct keys, in insertion order. -/
structure InsertionMap (κ : Type u) (α : Type v) where
  entries : List (κ × α)
  nodup_keys : (entries.map Prod.fst).Nodup

namespace InsertionMap

variable {κ : Type u} {α : Type v}

@[ext]
theorem ext : ∀ {m m' : InsertionMap κ α}, m.entries = m'.entries → m = m'
  | ⟨_, _⟩, ⟨_, _⟩, rfl => rfl

instance [DecidableEq κ] [DecidableEq α] : DecidableEq (InsertionMap κ α) := fun m m' =>
  decidable_of_iff (m.entries = m'.entries) ⟨ext, congrArg entries⟩

instance [Repr κ] [Repr α] : Repr (InsertionMap κ α) := ⟨fun m => reprPrec m.entries⟩

/-- The map without entries. -/
def empty : InsertionMap κ α := ⟨[], List.nodup_nil⟩

instance : Inhabited (InsertionMap κ α) := ⟨empty⟩

/-- The keys, in insertion order. -/
def keys (m : InsertionMap κ α) : List κ := m.entries.map Prod.fst

/-- The values, in insertion order of their keys. -/
def values (m : InsertionMap κ α) : List α := m.entries.map Prod.snd

/-- The number of entries. -/
def size (m : InsertionMap κ α) : ℕ := m.entries.length

@[simp] theorem entries_empty : (empty : InsertionMap κ α).entries = [] := rfl

@[simp] theorem values_empty : (empty : InsertionMap κ α).values = [] := rfl

theorem keys_nodup (m : InsertionMap κ α) : m.keys.Nodup := m.nodup_keys

theorem entries_nodup (m : InsertionMap κ α) : m.entries.Nodup := m.nodup_keys.of_map _

theorem mem_keys {m : InsertionMap κ α} {k : κ} : k ∈ m.keys ↔ ∃ a, (k, a) ∈ m.entries := by
  simp [keys]

theorem mem_values {m : InsertionMap κ α} {a : α} : a ∈ m.values ↔ ∃ k, (k, a) ∈ m.entries := by
  simp [values]

/-- Two entries with one key are one entry. -/
theorem eq_of_mem {m : InsertionMap κ α} {k : κ} {a b : α} (ha : (k, a) ∈ m.entries)
    (hb : (k, b) ∈ m.entries) : a = b :=
  congrArg Prod.snd (List.inj_on_of_nodup_map m.nodup_keys ha hb rfl)

/-- Keep the entries that satisfy a test. -/
def filter (p : κ → α → Bool) (m : InsertionMap κ α) : InsertionMap κ α :=
  ⟨m.entries.filter fun e => p e.1 e.2, m.nodup_keys.sublist (List.filter_sublist.map _)⟩

@[simp] theorem mem_filter {p : κ → α → Bool} {m : InsertionMap κ α} {k : κ} {a : α} :
    (k, a) ∈ (m.filter p).entries ↔ (k, a) ∈ m.entries ∧ p k a = true :=
  List.mem_filter

variable [DecidableEq κ]

/-- The value of a key, if it has one. -/
def get? (m : InsertionMap κ α) (k : κ) : Option α :=
  (m.entries.find? fun e => e.1 = k).map Prod.snd

/-- Whether the key has a value. -/
def has (m : InsertionMap κ α) (k : κ) : Bool := (m.get? k).isSome

@[simp] theorem get?_empty (k : κ) : (empty : InsertionMap κ α).get? k = none := rfl

theorem get?_eq_some_iff {m : InsertionMap κ α} {k : κ} {a : α} :
    m.get? k = some a ↔ (k, a) ∈ m.entries := by
  simp only [get?, Option.map_eq_some_iff]
  constructor
  · rintro ⟨⟨k', a'⟩, hfind, rfl⟩
    have hk : k' = k := by simpa using List.find?_some hfind
    exact hk ▸ List.mem_of_find?_eq_some hfind
  · intro hmem
    have hsome : (m.entries.find? fun e => e.1 = k).isSome :=
      List.find?_isSome.mpr ⟨(k, a), hmem, by simp⟩
    obtain ⟨⟨k', a'⟩, hfind⟩ := Option.isSome_iff_exists.mp hsome
    have hk : k' = k := by simpa using List.find?_some hfind
    subst hk
    exact ⟨_, hfind, eq_of_mem (List.mem_of_find?_eq_some hfind) hmem⟩

theorem get?_eq_none_iff {m : InsertionMap κ α} {k : κ} : m.get? k = none ↔ k ∉ m.keys := by
  rw [mem_keys, not_exists, Option.eq_none_iff_forall_not_mem]
  exact forall_congr' fun a => not_congr get?_eq_some_iff

theorem has_eq_true_iff {m : InsertionMap κ α} {k : κ} : m.has k = true ↔ k ∈ m.keys := by
  rw [has, Option.isSome_iff_ne_none, Ne, get?_eq_none_iff, not_not]

/-- Replace the value of a key in place. -/
private def replace (k : κ) (a : α) (l : List (κ × α)) : List (κ × α) :=
  l.map fun e => if e.1 = k then (k, a) else e

private theorem map_fst_replace (k : κ) (a : α) (l : List (κ × α)) :
    (replace k a l).map Prod.fst = l.map Prod.fst := by
  rw [replace, List.map_map]
  refine List.map_congr_left fun e _ => ?_
  by_cases h : e.1 = k <;> simp [h]

/-- Set the value of a key: in place when the key is present, at the end when it is new. -/
def set (m : InsertionMap κ α) (k : κ) (a : α) : InsertionMap κ α :=
  if h : k ∈ m.keys then
    ⟨replace k a m.entries, (map_fst_replace k a m.entries).symm ▸ m.nodup_keys⟩
  else
    ⟨m.entries ++ [(k, a)], by
      rw [List.map_append]
      exact List.Nodup.append m.nodup_keys (List.nodup_singleton _)
        (List.disjoint_singleton.mpr h)⟩

theorem entries_set_of_not_mem {m : InsertionMap κ α} {k : κ} (h : k ∉ m.keys) (a : α) :
    (m.set k a).entries = m.entries ++ [(k, a)] := by
  rw [set, dif_neg h]

private theorem entries_set_of_mem {m : InsertionMap κ α} {k : κ} (h : k ∈ m.keys) (a : α) :
    (m.set k a).entries = replace k a m.entries := by
  rw [set, dif_pos h]

theorem keys_set_of_mem {m : InsertionMap κ α} {k : κ} (h : k ∈ m.keys) (a : α) :
    (m.set k a).keys = m.keys := by
  rw [set, dif_pos h]
  exact map_fst_replace k a m.entries

theorem keys_set_of_not_mem {m : InsertionMap κ α} {k : κ} (h : k ∉ m.keys) (a : α) :
    (m.set k a).keys = m.keys ++ [k] := by
  simp only [keys, entries_set_of_not_mem h, List.map_append, List.map_cons, List.map_nil]

/-- What an entry of the map after `set` is: the new one, or an old one of another key. -/
@[simp] theorem mem_set {m : InsertionMap κ α} {k k' : κ} {a b : α} :
    (k', b) ∈ (m.set k a).entries ↔
      (k' = k ∧ b = a) ∨ (k' ≠ k ∧ (k', b) ∈ m.entries) := by
  by_cases h : k ∈ m.keys
  · obtain ⟨a₀, h₀⟩ := mem_keys.mp h
    have hent : (m.set k a).entries = replace k a m.entries := by rw [set, dif_pos h]
    rw [hent, replace, List.mem_map]
    constructor
    · rintro ⟨⟨k'', b''⟩, hmem, heq⟩
      by_cases hk : k'' = k
      · rw [if_pos hk, Prod.mk.injEq] at heq
        exact Or.inl ⟨heq.1.symm, heq.2.symm⟩
      · rw [if_neg hk, Prod.mk.injEq] at heq
        obtain ⟨rfl, rfl⟩ := heq
        exact Or.inr ⟨hk, hmem⟩
    · rintro (⟨rfl, rfl⟩ | ⟨hk, hmem⟩)
      · exact ⟨(k', a₀), h₀, if_pos rfl⟩
      · exact ⟨(k', b), hmem, if_neg hk⟩
  · rw [entries_set_of_not_mem h, List.mem_append, List.mem_singleton, Prod.mk.injEq]
    constructor
    · rintro (hmem | ⟨rfl, rfl⟩)
      · exact Or.inr ⟨fun hk => h (hk ▸ mem_keys.mpr ⟨b, hmem⟩), hmem⟩
      · exact Or.inl ⟨rfl, rfl⟩
    · rintro (⟨rfl, rfl⟩ | ⟨-, hmem⟩)
      · exact Or.inr ⟨rfl, rfl⟩
      · exact Or.inl hmem

@[simp] theorem get?_set_self (m : InsertionMap κ α) (k : κ) (a : α) :
    (m.set k a).get? k = some a :=
  get?_eq_some_iff.mpr (mem_set.mpr (Or.inl ⟨rfl, rfl⟩))

theorem get?_set_of_ne (m : InsertionMap κ α) {k k' : κ} (h : k' ≠ k) (a : α) :
    (m.set k a).get? k' = m.get? k' :=
  Option.ext fun b => by
    rw [get?_eq_some_iff, get?_eq_some_iff, mem_set]
    simp [h]

theorem get?_set (m : InsertionMap κ α) (k k' : κ) (a : α) :
    (m.set k a).get? k' = if k' = k then some a else m.get? k' := by
  by_cases h : k' = k
  · rw [if_pos h, h, get?_set_self]
  · rw [if_neg h, get?_set_of_ne m h]

theorem mem_keys_set {m : InsertionMap κ α} {k k' : κ} {a : α} :
    k' ∈ (m.set k a).keys ↔ k' = k ∨ k' ∈ m.keys := by
  by_cases h : k ∈ m.keys
  · rw [keys_set_of_mem h]
    exact ⟨Or.inr, fun hk => hk.elim (fun heq => heq ▸ h) id⟩
  · rw [keys_set_of_not_mem h, List.mem_append, List.mem_singleton, or_comm]

/-- Remove a key. -/
def erase (m : InsertionMap κ α) (k : κ) : InsertionMap κ α := m.filter fun k' _ => k' ≠ k

@[simp] theorem mem_erase {m : InsertionMap κ α} {k k' : κ} {b : α} :
    (k', b) ∈ (m.erase k).entries ↔ (k', b) ∈ m.entries ∧ k' ≠ k := by
  rw [erase, mem_filter, decide_eq_true_eq]

theorem mem_keys_erase {m : InsertionMap κ α} {k k' : κ} :
    k' ∈ (m.erase k).keys ↔ k' ∈ m.keys ∧ k' ≠ k := by
  simp only [mem_keys, mem_erase, exists_and_right]

theorem get?_erase (m : InsertionMap κ α) (k k' : κ) :
    (m.erase k).get? k' = if k' = k then none else m.get? k' :=
  Option.ext fun b => by
    rw [get?_eq_some_iff, mem_erase]
    by_cases h : k' = k
    · simp [h]
    · simp [h, get?_eq_some_iff]

theorem size_set_of_mem {m : InsertionMap κ α} {k : κ} (h : k ∈ m.keys) (a : α) :
    (m.set k a).size = m.size := by
  have hlength := congrArg List.length (keys_set_of_mem h a)
  rwa [keys, keys, List.length_map, List.length_map] at hlength

theorem size_set_of_not_mem {m : InsertionMap κ α} {k : κ} (h : k ∉ m.keys) (a : α) :
    (m.set k a).size = m.size + 1 := by
  rw [size, entries_set_of_not_mem h, List.length_append, List.length_singleton, size]

theorem size_set_le (m : InsertionMap κ α) (k : κ) (a : α) : (m.set k a).size ≤ m.size + 1 := by
  by_cases h : k ∈ m.keys
  · exact Nat.le_succ_of_le (Nat.le_of_eq (size_set_of_mem h a))
  · exact Nat.le_of_eq (size_set_of_not_mem h a)

theorem size_erase_le (m : InsertionMap κ α) (k : κ) : (m.erase k).size ≤ m.size :=
  List.length_filter_le _ _

/-- A present key splits the entries into its own and those of the other keys. -/
theorem entries_perm_of_get? {m : InsertionMap κ α} {k : κ} {a : α} (h : m.get? k = some a) :
    m.entries.Perm ((k, a) :: (m.erase k).entries) := by
  refine (List.perm_ext_iff_of_nodup m.entries_nodup ?_).mpr fun e => ?_
  · refine List.nodup_cons.mpr ⟨fun hmem => ?_, (m.erase k).entries_nodup⟩
    exact (mem_erase.mp hmem).2 rfl
  · obtain ⟨k', b⟩ := e
    rw [List.mem_cons, mem_erase, Prod.mk.injEq]
    constructor
    · intro hmem
      by_cases hk : k' = k
      · subst hk
        exact Or.inl ⟨rfl, eq_of_mem hmem (get?_eq_some_iff.mp h)⟩
      · exact Or.inr ⟨hmem, hk⟩
    · rintro (⟨rfl, rfl⟩ | ⟨hmem, -⟩)
      · exact get?_eq_some_iff.mp h
      · exact hmem

private theorem filter_replace (k : κ) (a : α) (l : List (κ × α)) :
    (replace k a l).filter (fun e => e.1 ≠ k) = l.filter fun e => e.1 ≠ k := by
  induction l with
  | nil => rfl
  | cons e l ih =>
    rw [replace, List.map_cons, ← replace, List.filter_cons, List.filter_cons, ih]
    by_cases h : e.1 = k <;> simp [h]

@[simp] theorem erase_set (m : InsertionMap κ α) (k : κ) (a : α) :
    (m.set k a).erase k = m.erase k := by
  refine ext ?_
  by_cases h : k ∈ m.keys
  · rw [set, dif_pos h]
    exact filter_replace k a m.entries
  · simp only [erase, filter, entries_set_of_not_mem h, List.filter_append]
    simp

theorem mem_keys_set_self (m : InsertionMap κ α) (k : κ) (a : α) : k ∈ (m.set k a).keys :=
  mem_keys.mpr ⟨a, mem_set.mpr (Or.inl ⟨rfl, rfl⟩)⟩

/-- The last value set counts. -/
@[simp] theorem set_set (m : InsertionMap κ α) (k : κ) (a b : α) :
    (m.set k a).set k b = m.set k b := by
  refine ext ?_
  rw [entries_set_of_mem (mem_keys_set_self m k a)]
  by_cases h : k ∈ m.keys
  · rw [entries_set_of_mem h, entries_set_of_mem h, replace, replace, replace, List.map_map]
    refine List.map_congr_left fun e _ => ?_
    by_cases hk : e.1 = k <;> simp [hk]
  · rw [entries_set_of_not_mem h, entries_set_of_not_mem h, replace, List.map_append,
      List.map_singleton, if_pos rfl]
    refine congrArg (· ++ _) ((List.map_congr_left fun e he => ?_).trans (List.map_id _))
    exact if_neg fun hk : e.1 = k => h (mem_keys.mpr ⟨e.2, hk ▸ he⟩)

/-- Setting the value a key has changes nothing. -/
theorem set_of_get? {m : InsertionMap κ α} {k : κ} {a : α} (h : m.get? k = some a) :
    m.set k a = m := by
  have hmem := get?_eq_some_iff.mp h
  refine ext ?_
  rw [entries_set_of_mem (mem_keys.mpr ⟨a, hmem⟩), replace]
  refine (List.map_congr_left fun e he => ?_).trans (List.map_id _)
  by_cases hk : e.1 = k
  · rw [if_pos hk, id]
    exact Prod.ext hk.symm (eq_of_mem hmem (hk ▸ he))
  · exact if_neg hk

theorem entries_perm_set (m : InsertionMap κ α) (k : κ) (a : α) :
    (m.set k a).entries.Perm ((k, a) :: (m.erase k).entries) :=
  erase_set m k a ▸ entries_perm_of_get? (get?_set_self m k a)

theorem erase_of_get?_eq_none {m : InsertionMap κ α} {k : κ} (h : m.get? k = none) :
    m.erase k = m := by
  refine ext (List.filter_eq_self.mpr ?_)
  rintro ⟨k', b⟩ hmem
  rw [decide_eq_true_eq]
  rintro rfl
  exact get?_eq_none_iff.mp h (mem_keys.mpr ⟨b, hmem⟩)

theorem has_set (m : InsertionMap κ α) (k k' : κ) (a : α) :
    (m.set k a).has k' = (decide (k' = k) || m.has k') := by
  rw [has, has, get?_set]
  by_cases h : k' = k
  · rw [if_pos h, decide_eq_true h]
    rfl
  · rw [if_neg h, decide_eq_false h, Bool.false_or]

/-- The sum of a measure of the entries. -/
def sumOf (f : κ → α → ℕ) (m : InsertionMap κ α) : ℕ := (m.entries.map fun e => f e.1 e.2).sum

theorem sumOf_of_get? {f : κ → α → ℕ} {m : InsertionMap κ α} {k : κ} {a : α}
    (h : m.get? k = some a) : m.sumOf f = f k a + (m.erase k).sumOf f := by
  rw [sumOf, ((entries_perm_of_get? h).map _).sum_eq]
  rfl

theorem sumOf_set (f : κ → α → ℕ) (m : InsertionMap κ α) (k : κ) (a : α) :
    (m.set k a).sumOf f = f k a + (m.erase k).sumOf f := by
  rw [sumOf, ((entries_perm_set m k a).map _).sum_eq]
  rfl

/-- Erasing the keys of some elements, one after the other. -/
theorem get?_foldl_erase {β : Type w} {p : β → Prop} [DecidablePred p] {f : β → κ} (l : List β)
    (m : InsertionMap κ α) {k : κ} {a : α} :
    (l.foldl (fun m b => if p b then m.erase (f b) else m) m).get? k = some a ↔
      m.get? k = some a ∧ ∀ b ∈ l, p b → f b ≠ k := by
  induction l generalizing m with
  | nil => simp
  | cons b l ih =>
    rw [List.foldl_cons, ih, List.forall_mem_cons]
    by_cases hb : p b
    · rw [if_pos hb, get?_erase]
      by_cases hk : k = f b
      · simp [hb, hk]
      · simp [hb, hk, Ne.symm hk]
    · simp [hb]

/-- Erasing the entries with certain values, when the values know their keys. -/
theorem get?_foldl_erase_values {p : α → Prop} [DecidablePred p] {f : α → κ}
    (m : InsertionMap κ α) (hf : ∀ k a, m.get? k = some a → f a = k) {k : κ} {a : α} :
    (m.values.foldl (fun m b => if p b then m.erase (f b) else m) m).get? k = some a ↔
      m.get? k = some a ∧ ¬p a := by
  rw [get?_foldl_erase]
  refine and_congr_right fun ha => ⟨fun h hp => ?_, fun hp b hb hpb heq => hp ?_⟩
  · exact h a (mem_values.mpr ⟨k, get?_eq_some_iff.mp ha⟩) hp (hf k a ha)
  · obtain ⟨k', hk'⟩ := mem_values.mp hb
    obtain rfl := (hf k' b (get?_eq_some_iff.mpr hk')).symm.trans heq
    exact eq_of_mem hk' (get?_eq_some_iff.mp ha) ▸ hpb

/-- Setting values under distinct new keys, one after the other, appends them. -/
theorem entries_foldl_set {f : α → κ} (l : List α) (m : InsertionMap κ α)
    (hl : (l.map f).Nodup) (hm : ∀ a ∈ l, f a ∉ m.keys) :
    (l.foldl (fun m a => m.set (f a) a) m).entries = m.entries ++ l.map fun a => (f a, a) := by
  induction l generalizing m with
  | nil => simp
  | cons a l ih =>
    rw [List.map_cons, List.nodup_cons] at hl
    have ha : f a ∉ m.keys := hm a List.mem_cons_self
    rw [List.foldl_cons, ih _ hl.2, entries_set_of_not_mem ha]
    · simp
    · intro b hb hmem
      rcases mem_keys_set.mp hmem with heq | hk
      · exact hl.1 (heq ▸ List.mem_map_of_mem hb)
      · exact hm b (List.mem_cons_of_mem _ hb) hk

/-- A map whose values know their keys is rebuilt from its values. -/
theorem foldl_set_values {f : α → κ} (m : InsertionMap κ α)
    (hf : ∀ k a, (k, a) ∈ m.entries → f a = k) :
    m.values.foldl (fun m a => m.set (f a) a) empty = m := by
  have hmap : m.values.map (fun a => (f a, a)) = m.entries := by
    rw [values, List.map_map]
    refine (List.map_congr_left fun e he => ?_).trans (List.map_id _)
    exact Prod.ext (hf e.1 e.2 he) rfl
  have hkeys : m.values.map f = m.keys := by
    rw [keys, ← hmap, List.map_map]
    rfl
  refine ext ?_
  rw [entries_foldl_set _ _ (hkeys ▸ m.keys_nodup) fun _ _ hk => List.not_mem_nil hk, hmap]
  rfl

/-! ### Mapping the values -/

section Map

universe z

variable {β : Type z} (f : α → β)

omit [DecidableEq κ] in
private theorem map_fst_map (l : List (κ × α)) :
    (l.map fun e => (e.1, f e.2)).map Prod.fst = l.map Prod.fst := by
  rw [List.map_map]
  rfl

/-- Apply a function to every value. -/
def map (m : InsertionMap κ α) : InsertionMap κ β :=
  ⟨m.entries.map fun e => (e.1, f e.2), (map_fst_map f m.entries).symm ▸ m.nodup_keys⟩

omit [DecidableEq κ] in
theorem entries_map (m : InsertionMap κ α) :
    (m.map f).entries = m.entries.map fun e => (e.1, f e.2) := rfl

omit [DecidableEq κ] in
@[simp] theorem keys_map (m : InsertionMap κ α) : (m.map f).keys = m.keys :=
  map_fst_map f m.entries

omit [DecidableEq κ] in
@[simp] theorem map_empty : (empty : InsertionMap κ α).map f = empty := rfl

@[simp] theorem get?_map (m : InsertionMap κ α) (k : κ) :
    (m.map f).get? k = (m.get? k).map f := by
  rw [get?, get?, map, List.find?_map, Option.map_map, Option.map_map]
  rfl

theorem map_set (m : InsertionMap κ α) (k : κ) (a : α) :
    (m.set k a).map f = (m.map f).set k (f a) := by
  refine ext ?_
  by_cases h : k ∈ m.keys
  · rw [set, dif_pos h, set, dif_pos ((keys_map f m).symm ▸ h)]
    simp only [map, replace, List.map_map]
    refine List.map_congr_left fun e _ => ?_
    by_cases hk : e.1 = k <;> simp [hk]
  · rw [entries_set_of_not_mem ((keys_map f m).symm ▸ h), entries_map, entries_map,
      entries_set_of_not_mem h, List.map_append]
    rfl

theorem map_erase (m : InsertionMap κ α) (k : κ) : (m.erase k).map f = (m.map f).erase k := by
  refine ext ?_
  simp only [erase, filter, map, List.filter_map]
  rfl

end Map

end InsertionMap
