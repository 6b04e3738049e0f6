import Mathlib.Data.List.GetD
import Mathlib.Tactic.Common

/-!
# Arrays that grow by assignment

Assigning to an index beyond the end of a JavaScript array makes the array longer and
leaves holes in between; reading a hole, or beyond the end, yields `undefined`. `setAt`
and `getAt` are assignment and reading over lists whose elements have a value `hole` that
stands for both. `Slot` is the element type of arrays that also hold `null`, which is not
the same as a hole.
-/

universe u

namespace SparseArray

variable {α : Type u} {hole : α}

/-- Read an index. -/
def getAt (hole : α) (l : List α) (i : ℕ) : α := l.getD i hole

/-- Assign to an index, growing the array with holes where needed. -/
def setAt (hole : α) (l : List α) (i : ℕ) (a : α) : List α :=
  if i < l.length then l.set i a else l ++ List.replicate (i - l.length) hole ++ [a]

theorem setAt_of_lt {l : List α} {i : ℕ} (h : i < l.length) (a : α) :
    setAt hole l i a = l.set i a := if_pos h

theorem setAt_of_le {l : List α} {i : ℕ} (h : l.length ≤ i) (a : α) :
    setAt hole l i a = l ++ List.replicate (i - l.length) hole ++ [a] :=
  if_neg (Nat.not_lt.mpr h)

theorem length_setAt (l : List α) (i : ℕ) (a : α) :
    (setAt hole l i a).length = max l.length (i + 1) := by
  rcases Nat.lt_or_ge i l.length with h | h
  · rw [setAt_of_lt h, List.length_set]
    omega
  · rw [setAt_of_le h]
    simp only [List.length_append, List.length_replicate, List.length_singleton]
    omega

@[simp] theorem getAt_nil (i : ℕ) : getAt hole [] i = hole := List.getD_nil ..

theorem getAt_of_le {l : List α} {i : ℕ} (h : l.length ≤ i) : getAt hole l i = hole :=
  List.getD_eq_default _ _ h

theorem getAt_of_lt {l : List α} {i : ℕ} (h : i < l.length) : getAt hole l i = l[i] :=
  List.getD_eq_getElem _ _ h

/-- Reading after an assignment. -/
theorem getAt_setAt (l : List α) (i j : ℕ) (a : α) :
    getAt hole (setAt hole l i a) j = if j = i then a else getAt hole l j := by
  rcases Nat.lt_or_ge i l.length with h | h
  · rw [setAt_of_lt h]
    simp only [getAt, List.getD_eq_getElem?_getD, List.getElem?_set]
    by_cases hij : i = j
    · subst hij
      simp [h]
    · simp [hij, Ne.symm hij]
  · rw [setAt_of_le h, List.append_assoc]
    by_cases hjl : j < l.length
    · have hji : j ≠ i := by omega
      rw [if_neg hji, getAt, getAt, List.getD_append _ _ _ _ hjl]
    · have hjl' : l.length ≤ j := Nat.le_of_not_lt hjl
      rw [getAt, List.getD_append_right _ _ _ _ hjl', getAt_of_le hjl']
      by_cases hji : j = i
      · subst hji
        rw [if_pos rfl, List.getD_append_right _ _ _ _ (by simp)]
        simp
      · rw [if_neg hji]
        rcases Nat.lt_or_ge j i with hlt | hge
        · rw [List.getD_append _ _ _ _ (by simp; omega)]
          simp only [List.getD_eq_getElem?_getD, List.getElem?_replicate]
          split_ifs <;> rfl
        · rw [List.getD_eq_default _ _ (by simp; omega)]

theorem mem_setAt {l : List α} {i : ℕ} {a x : α} (h : x ∈ setAt hole l i a) :
    x ∈ l ∨ x = hole ∨ x = a := by
  rcases Nat.lt_or_ge i l.length with hi | hi
  · rw [setAt_of_lt hi] at h
    exact (List.mem_or_eq_of_mem_set h).imp_right Or.inr
  · rw [setAt_of_le hi, List.mem_append, List.mem_append, List.mem_singleton] at h
    rcases h with (h | h) | h
    · exact Or.inl h
    · exact Or.inr (Or.inl (List.eq_of_mem_replicate h))
    · exact Or.inr (Or.inr h)

end SparseArray

/-- An element of an array that can hold `null`: a hole (or `undefined`), `null`, or a
value. -/
inductive Slot (α : Type u) where
  | hole
  | null
  | value (a : α)
  deriving DecidableEq, Inhabited, Repr

namespace Slot

variable {α : Type u}

/-- The value of a slot, if it has one. -/
def toOption : Slot α → Option α
  | hole => none
  | null => none
  | value a => some a

/-- A value or `null`. -/
def ofOption : Option α → Slot α
  | none => null
  | some a => value a

/-- Whether the slot holds a value. -/
def isValue (s : Slot α) : Bool := s.toOption.isSome

@[simp] theorem toOption_hole : (hole : Slot α).toOption = none := rfl

@[simp] theorem toOption_null : (null : Slot α).toOption = none := rfl

@[simp] theorem toOption_value (a : α) : (value a).toOption = some a := rfl

theorem toOption_eq_some_iff {s : Slot α} {a : α} : s.toOption = some a ↔ s = value a := by
  rcases s with _ | _ | b <;> simp

/-- A value is read where it stands. -/
theorem getAt_eq_value_iff {l : List (Slot α)} {i : ℕ} {a : α} :
    SparseArray.getAt hole l i = value a ↔ l[i]? = some (value a) := by
  rw [SparseArray.getAt, List.getD_eq_getElem?_getD]
  rcases l[i]? with _ | s <;> simp

end Slot
