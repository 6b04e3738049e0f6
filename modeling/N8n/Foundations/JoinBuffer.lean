import Mathlib.Data.List.GetD
import N8n.Foundations.PlainObject

/-!
# Joining inputs by rows

A `Buffer` collects values that arrive at `n` inputs into rows with one value for each
input. A value goes into the first row that lacks its input, and into a new row when there
is none; a row that is full leaves the buffer.

A new row is kept under the *number* of rows as its key. As full rows are taken out of the
middle, this may be the key of a row that is still there (`Collides`), which is then lost
(`length_cells_put_lt`). As long as it is not, no value is lost or duplicated
(`cells_put_perm`).
-/

universe u

namespace JoinBuffer

/-- A slot for each of `n` inputs. -/
structure Row (α : Type u) (n : ℕ) where
  slots : List (Option α)
  length_eq : slots.length = n

namespace Row

variable {α : Type u} {n : ℕ}

/-- The row without values. -/
def empty (α : Type u) (n : ℕ) : Row α n := ⟨List.replicate n none, List.length_replicate⟩

/-- The value of an input, if it has one. -/
def get (row : Row α n) (i : ℕ) : Option α := row.slots.getD i none

/-- Set the value of an input. -/
def put (row : Row α n) (i : ℕ) (a : α) : Row α n :=
  ⟨row.slots.set i (some a), (List.length_set ..).trans row.length_eq⟩

/-- Whether every input has a value. -/
def isFull (row : Row α n) : Bool := row.slots.all Option.isSome

/-- The values of the row, with their inputs. -/
def cells (row : Row α n) : List (ℕ × α) :=
  row.slots.zipIdx.filterMap fun s => s.1.map fun a => (s.2, a)

/-- A value in a slot that had none. -/
theorem cells_put_perm {row : Row α n} {i : ℕ} (hi : i < n) (h : row.get i = none) (a : α) :
    (row.put i a).cells.Perm ((i, a) :: row.cells) := by
  have hi' : i < row.slots.length := row.length_eq.symm ▸ hi
  have hget : row.slots[i] = none := by rw [← h, get, List.getD_eq_getElem _ _ hi']
  have hlen : (row.slots.take i).length = i := List.length_take_of_le hi'.le
  have hsplit : row.slots = row.slots.take i ++ none :: row.slots.drop (i + 1) := by
    rw [← hget, ← List.drop_eq_getElem_cons hi', List.take_append_drop]
  have hput : (row.put i a).slots = row.slots.take i ++ some a :: row.slots.drop (i + 1) :=
    List.set_eq_take_append_cons_drop.trans (if_pos hi')
  have hcells : row.cells = (row.slots.take i ++ none :: row.slots.drop (i + 1)).zipIdx.filterMap
      fun s => s.1.map fun a => (s.2, a) := by rw [← hsplit, cells]
  rw [hcells, cells, hput]
  simp only [List.zipIdx_append, List.zipIdx_cons, hlen, List.filterMap_append,
    List.filterMap_cons, Option.map_some, Option.map_none, Nat.zero_add]
  exact List.perm_middle

theorem mem_cells {row : Row α n} {i : ℕ} {a : α} (h : row.get i = some a) :
    (i, a) ∈ row.cells := by
  have hi : row.slots[i]? = some (some a) := by
    rw [get, List.getD_eq_getElem?_getD] at h
    rcases hs : row.slots[i]? with _ | s
    · rw [hs] at h
      cases h
    · rw [hs] at h
      exact congrArg some h
  rw [cells, List.mem_filterMap]
  exact ⟨(some a, i), List.mem_zipIdx_iff_getElem?.mpr hi, rfl⟩

theorem get_empty (i : ℕ) : (empty α n).get i = none := by
  rw [get, empty, List.getD_eq_getElem?_getD, List.getElem?_replicate]
  split <;> rfl

theorem cells_empty : (empty α n).cells = [] := by
  refine List.filterMap_eq_nil_iff.mpr fun s hs => ?_
  have hmem := List.mem_of_getElem? (List.mem_zipIdx_iff_getElem?.mp hs)
  rw [List.eq_of_mem_replicate hmem]
  rfl

theorem isFull_iff {row : Row α n} : row.isFull = true ↔ ∀ i < n, (row.get i).isSome = true := by
  rw [isFull, List.all_eq_true]
  constructor
  · intro h i hi
    have hi' : i < row.slots.length := row.length_eq.symm ▸ hi
    rw [get, List.getD_eq_getElem _ _ hi']
    exact h _ (List.getElem_mem hi')
  · intro h s hs
    obtain ⟨i, hi, rfl⟩ := List.getElem_of_mem hs
    have := h i (row.length_eq ▸ hi)
    rwa [get, List.getD_eq_getElem _ _ hi] at this

end Row

/-! ### Buffers -/

/-- The rows that are not full yet. -/
abbrev Buffer (α : Type u) (n : ℕ) := InsertionMap ℕ (Row α n)

namespace Buffer

variable {α : Type u} {n : ℕ} {b : Buffer α n} {i k : ℕ} {row : Row α n}

/-- The first row, by ascending keys, that lacks an input. -/
def firstLacking (b : Buffer α n) (i : ℕ) : Option (ℕ × Row α n) :=
  b.indexEntries.find? fun e => (e.2.get i).isNone

/-- The row a value goes into, with its key. -/
def target (b : Buffer α n) (i : ℕ) : ℕ × Row α n :=
  (b.firstLacking i).getD (b.entries.length, Row.empty α n)

/-- Put a value into a row. The row leaves the buffer when it is full. -/
def put (b : Buffer α n) (i : ℕ) (a : α) : Buffer α n × Option (Row α n) :=
  let e := b.target i
  let row := e.2.put i a
  if row.isFull then (b.erase e.1, some row) else (b.set e.1 row, none)

/-- All values, with their inputs. -/
def cells (b : Buffer α n) : List (ℕ × α) := b.entries.flatMap fun e => e.2.cells

/-- A new row is needed and its key is that of a row. -/
def Collides (b : Buffer α n) (i : ℕ) : Prop :=
  b.firstLacking i = none ∧ b.entries.length ∈ b.keys

/-- A row splits the values into its own and those of the other rows. -/
theorem cells_perm_of_get? (h : b.get? k = some row) :
    b.cells.Perm (row.cells ++ cells (b.erase k)) :=
  (InsertionMap.entries_perm_of_get? h).flatMap_right _

theorem cells_set_perm (b : Buffer α n) (k : ℕ) (row : Row α n) :
    (cells (b.set k row)).Perm (row.cells ++ cells (b.erase k)) :=
  (b.entries_perm_set k row).flatMap_right _

theorem get?_of_firstLacking (h : b.firstLacking i = some (k, row)) :
    b.get? k = some row ∧ row.get i = none :=
  ⟨InsertionMap.get?_eq_some_iff.mpr
      (InsertionMap.mem_indexEntries.mp (List.mem_of_find?_eq_some h)),
    Option.isNone_iff_eq_none.mp
      (List.find?_some (p := fun e : ℕ × Row α n => (e.2.get i).isNone) h)⟩

theorem get_of_firstLacking_eq_none (h : b.firstLacking i = none) (hk : b.get? k = some row) :
    ∃ a, row.get i = some a := by
  have hall := List.find?_eq_none.mp h (k, row)
    (InsertionMap.mem_indexEntries.mpr (InsertionMap.get?_eq_some_iff.mp hk))
  rw [Option.isNone_iff_eq_none] at hall
  exact Option.ne_none_iff_exists'.mp hall

/-- What the row that a value goes into holds, and the other rows, are what was there. -/
private theorem cells_target (h : ¬b.Collides i) :
    b.cells.Perm ((b.target i).2.cells ++ cells (b.erase (b.target i).1)) ∧
      (b.target i).2.get i = none := by
  rw [target]
  rcases hfirst : b.firstLacking i with _ | ⟨k, row⟩
  · have hnew : b.get? b.entries.length = none :=
      InsertionMap.get?_eq_none_iff.mpr fun hmem => h ⟨hfirst, hmem⟩
    refine ⟨?_, Row.get_empty i⟩
    rw [Option.getD_none, Row.cells_empty, InsertionMap.erase_of_get?_eq_none hnew]
    exact List.Perm.refl _
  · obtain ⟨hget, hlacks⟩ := get?_of_firstLacking hfirst
    exact ⟨cells_perm_of_get? hget, hlacks⟩

/-- The row that leaves is full. -/
theorem isFull_of_put {a : α} (h : (b.put i a).2 = some row) : row.isFull = true := by
  simp only [put] at h
  split at h
  next hfull => exact Option.some.inj h ▸ hfull
  next => cases h

/-- The values of the buffer and of the row that left it. -/
def cellsAfter (r : Buffer α n × Option (Row α n)) : List (ℕ × α) :=
  r.1.cells ++ r.2.elim [] Row.cells

private theorem cellsAfter_put_perm (b : Buffer α n) (i : ℕ) (a : α) :
    (cellsAfter (b.put i a)).Perm
      (((b.target i).2.put i a).cells ++ cells (b.erase (b.target i).1)) := by
  simp only [cellsAfter, put]
  split
  · exact List.perm_append_comm
  · rw [Option.elim_none, List.append_nil]
    exact cells_set_perm _ _ _

/-- **Conservation.** Without a collision, the values after a delivery are those before it and
the one delivered. -/
theorem cells_put_perm (hi : i < n) (h : ¬b.Collides i) (a : α) :
    (cellsAfter (b.put i a)).Perm ((i, a) :: b.cells) := by
  obtain ⟨hcells, hlacks⟩ := cells_target h
  calc cellsAfter (b.put i a)
    _ |>.Perm (((b.target i).2.put i a).cells ++ cells (b.erase (b.target i).1)) :=
      cellsAfter_put_perm b i a
    _ |>.Perm ((i, a) :: ((b.target i).2.cells ++ cells (b.erase (b.target i).1))) :=
      (Row.cells_put_perm hi hlacks a).append_right _
    _ |>.Perm ((i, a) :: b.cells) := hcells.symm.cons _

/-- **Loss.** With a collision there are fewer. -/
theorem length_cells_put_lt (hi : i < n) (h : b.Collides i) (a : α) :
    (cellsAfter (b.put i a)).length < b.cells.length + 1 := by
  obtain ⟨row, hrow⟩ := Option.ne_none_iff_exists'.mp fun hnone =>
    InsertionMap.get?_eq_none_iff.mp hnone h.2
  obtain ⟨a', ha'⟩ := get_of_firstLacking_eq_none h.1 hrow
  have hpos := List.length_pos_of_mem (Row.mem_cells ha')
  have hnew := (Row.cells_put_perm hi (Row.get_empty (α := α) (n := n) i) a).length_eq
  have hold := (cells_perm_of_get? hrow).length_eq
  have hafter := (cellsAfter_put_perm b i a).length_eq
  simp only [target, h.1, Option.getD_none, Row.cells_empty, List.length_append, List.length_cons,
    List.length_nil] at hnew hold hafter
  omega

end Buffer

end JoinBuffer
