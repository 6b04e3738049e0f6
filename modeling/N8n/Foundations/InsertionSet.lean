import Mathlib.Data.List.Nodup
import Mathlib.Data.List.Perm.Subperm
import Mathlib.Tactic.Common

/-!
# Sets that remember the order of insertion

`InsertionSet α` is a finite set that enumerates its elements in the order in which they
were first added, as the `Set` of JavaScript does. The list of elements carries the proof
that no element occurs twice.
-/

universe u v

/-- A finite set, in insertion order. -/
structure InsertionSet (α : Type u) where
  elements : List α
  nodup : elements.Nodup

namespace InsertionSet

variable {α : Type u}

@[ext]
theorem ext : ∀ {s s' : InsertionSet α}, s.elements = s'.elements → s = s'
  | ⟨_, _⟩, ⟨_, _⟩, rfl => rfl

instance [DecidableEq α] : DecidableEq (InsertionSet α) := fun s s' =>
  decidable_of_iff (s.elements = s'.elements) ⟨ext, congrArg elements⟩

instance [Repr α] : Repr (InsertionSet α) := ⟨fun s => reprPrec s.elements⟩

instance : Membership α (InsertionSet α) := ⟨fun s a => a ∈ s.elements⟩

theorem mem_def {s : InsertionSet α} {a : α} : a ∈ s ↔ a ∈ s.elements := Iff.rfl

/-- The set without elements. -/
def empty : InsertionSet α := ⟨[], List.nodup_nil⟩

@[simp] theorem notMem_empty (a : α) : a ∉ (empty : InsertionSet α) := List.not_mem_nil

@[simp] theorem elements_empty : (empty : InsertionSet α).elements = [] := rfl

theorem elements_eq_nil_iff {s : InsertionSet α} : s.elements = [] ↔ ∀ a, a ∉ s :=
  List.eq_nil_iff_forall_not_mem

theorem elements_eq_singleton_iff {s : InsertionSet α} {a : α} :
    s.elements = [a] ↔ ∀ b, b ∈ s ↔ b = a := by
  constructor
  · intro h b
    rw [mem_def, h, List.mem_singleton]
  · intro h
    refine List.perm_singleton.mp ((List.perm_ext_iff_of_nodup s.nodup
      (List.nodup_singleton a)).mpr fun b => ?_)
    rw [List.mem_singleton]
    exact h b

/-- A set of elements of a list is not longer than the list. -/
theorem length_le_of_subset {s : InsertionSet α} {l : List α} (h : ∀ a ∈ s, a ∈ l) :
    s.elements.length ≤ l.length :=
  (List.subperm_of_subset s.nodup h).length_le

/-- Of a sequence of different elements, one is not in a list, and not later than the list is
long. -/
theorem exists_le_length_notMem {f : ℕ → α} (hf : Function.Injective f) (l : List α) :
    ∃ k ≤ l.length, f k ∉ l := by
  by_contra hall
  push Not at hall
  have hnodup : ((List.range (l.length + 1)).map f).Nodup := List.nodup_range.map hf
  have hsub : (List.range (l.length + 1)).map f ⊆ l := by
    intro a ha
    obtain ⟨k, hk, rfl⟩ := List.mem_map.mp ha
    exact hall k (Nat.lt_succ_iff.mp (List.mem_range.mp hk))
  have hlength := (List.subperm_of_subset hnodup hsub).length_le
  rw [List.length_map, List.length_range] at hlength
  omega

variable [DecidableEq α]

instance (a : α) (s : InsertionSet α) : Decidable (a ∈ s) :=
  inferInstanceAs (Decidable (a ∈ s.elements))

/-- Add an element, at the end when it is new. -/
def add (s : InsertionSet α) (a : α) : InsertionSet α :=
  if h : a ∈ s.elements then s
  else ⟨s.elements ++ [a],
    List.Nodup.append s.nodup (List.nodup_singleton a) (List.disjoint_singleton.mpr h)⟩

@[simp] theorem mem_add {s : InsertionSet α} {a b : α} : b ∈ s.add a ↔ b = a ∨ b ∈ s := by
  by_cases h : a ∈ s.elements
  · rw [add, dif_pos h]
    exact ⟨Or.inr, fun hb => hb.elim (fun heq => heq ▸ h) id⟩
  · rw [add, dif_neg h, mem_def, List.mem_append, List.mem_singleton, or_comm]
    exact Iff.rfl

theorem length_add_of_notMem {s : InsertionSet α} {a : α} (h : a ∉ s) :
    (s.add a).elements.length = s.elements.length + 1 := by
  rw [add, dif_neg (mem_def.not.mp h), List.length_append, List.length_singleton]

/-- Adding what some elements give, one after the other. -/
theorem mem_foldl_add {β : Type v} {p : β → Prop} [DecidablePred p] {f : β → α} (l : List β)
    (s : InsertionSet α) {a : α} :
    a ∈ l.foldl (fun s b => if p b then s.add (f b) else s) s ↔
      a ∈ s ∨ ∃ b ∈ l, p b ∧ f b = a := by
  induction l generalizing s with
  | nil => simp
  | cons b l ih =>
    rw [List.foldl_cons, ih]
    by_cases hb : p b
    · rw [if_pos hb, mem_add, or_assoc, or_left_comm]
      simp [hb, eq_comm]
    · simp [hb]

/-- Remove an element. -/
def erase (s : InsertionSet α) (a : α) : InsertionSet α :=
  ⟨s.elements.filter (· ≠ a), s.nodup.filter _⟩

@[simp] theorem mem_erase {s : InsertionSet α} {a b : α} : b ∈ s.erase a ↔ b ∈ s ∧ b ≠ a := by
  rw [mem_def, erase, List.mem_filter, decide_eq_true_eq]
  exact Iff.rfl

/-- The set of the elements of a list. -/
def ofList (l : List α) : InsertionSet α := l.foldl (fun s a => s.add a) .empty

@[simp] theorem mem_ofList {l : List α} {a : α} : a ∈ ofList l ↔ a ∈ l := by
  have h := mem_foldl_add (p := fun _ => True) (f := id) l (.empty : InsertionSet α) (a := a)
  simpa [ofList] using h

theorem elements_add_of_notMem {s : InsertionSet α} {a : α} (h : a ∉ s) :
    (s.add a).elements = s.elements ++ [a] := by
  rw [add, dif_neg (mem_def.not.mp h)]

/-- The elements that satisfy `p`. -/
def filter (p : α → Bool) (s : InsertionSet α) : InsertionSet α :=
  ⟨s.elements.filter p, s.nodup.filter _⟩

omit [DecidableEq α] in
@[simp] theorem mem_filter {p : α → Bool} {s : InsertionSet α} {a : α} :
    a ∈ s.filter p ↔ a ∈ s ∧ p a = true := List.mem_filter

def union (s s' : InsertionSet α) : InsertionSet α :=
  s'.elements.foldl (fun s a => s.add a) s

@[simp] theorem mem_union {s s' : InsertionSet α} {a : α} : a ∈ s.union s' ↔ a ∈ s ∨ a ∈ s' := by
  have h := mem_foldl_add (p := fun _ => True) (f := id) s'.elements s (a := a)
  simpa [union, mem_def] using h

end InsertionSet
