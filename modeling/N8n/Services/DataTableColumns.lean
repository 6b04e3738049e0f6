import Mathlib.Algebra.Order.Ring.Cast
import Mathlib.Algebra.Order.Ring.Rat
import Mathlib.Data.Int.CharZero
import N8n.Foundations.InsertionMap
import N8n.Foundations.Transition

/-!
# The positions of the columns of a data table

A column has the `index` of its position. To move or to delete a column, the service looks the
column up first, and then changes the indexes in a transaction, from the index that it found. Other
transactions may come in between, so that the index is out of date by then.

That does no harm when the column has come down in the meantime and no other column stands between
its index and the one that was found; and a column that is gone can be deleted again, if no column
has the index that was found or a larger one. In all other cases the indexes get a gap or meet
(`staysConsecutive_iff`). A column is added in one transaction, but its index may be any number, and
a database that keeps fractions (SQLite does) puts it between two others.

The statements are restricted to one data table, whose columns are modelled, by their ids. Whether
the database takes a transaction or refuses it, which also depends on the table of the rows, is an
input of the model.
-/

namespace N8n.DataTables

/-! ### Columns -/

structure DataTableColumn where
  name : String
  index : ℚ
  deriving DecidableEq, Repr

/-- The columns of a data table, by their ids. -/
abbrev Columns := InsertionMap String DataTableColumn

/-- A column as a lookup found it. -/
structure FoundColumn extends DataTableColumn where
  id : String
  deriving DecidableEq, Repr

inductive DataTableError where
  | systemColumnName (name : String) (type : String)
  | columnNameConflict (name : String)
  | validation (message : String)
  /-- The database refuses a statement, and the transaction is rolled back. -/
  | database
  deriving DecidableEq, Repr

def systemColumns : List String := ["id", "createdAt", "updatedAt"]

def systemTestingColumn : String := "dryRunState"

def validateNotSystemColumn (columnName : String) : Except DataTableError Unit :=
  if columnName ∈ systemColumns then .error (.systemColumnName columnName "system")
  else if columnName = systemTestingColumn then .error (.systemColumnName columnName "testing")
  else .ok ()

def validateUniqueColumnName (columns : Columns) (columnName : String) :
    Except DataTableError Unit :=
  if columnName ∈ columns.values.map (·.name) then .error (.columnNameConflict columnName)
  else .ok ()

/-- Insertion index must be in `[0, currentColumnCount]`. -/
def normalizeAddColumnIndex (index : Option ℚ) (currentColumnCount : ℕ) :
    Except DataTableError ℚ :=
  match index with
  | none => .ok currentColumnCount
  | some index =>
    if index > currentColumnCount then .ok currentColumnCount
    else if index < 0 then .error (.validation "tried to add column at a negative index")
    else .ok index

def shiftColumn (lowestIndex : ℚ) (delta : ℤ) (column : DataTableColumn) : DataTableColumn :=
  if lowestIndex ≤ column.index then { column with index := column.index + delta } else column

/-- Add `delta` to the indexes from `lowestIndex` on. -/
def shiftColumns (columns : Columns) (lowestIndex : ℚ) (delta : ℤ) : Columns :=
  columns.map (shiftColumn lowestIndex delta)

/-- `em.update(DataTableColumn, { id }, { index })`. -/
def updateIndex (columns : Columns) (id : String) (index : ℚ) : Columns :=
  match columns.get? id with
  | none => columns
  | some column => columns.set id { column with index }

/-! ### Transactions -/

structure CreateColumnSchema where
  name : String
  index : Option ℚ := none

/-- A new column gets a new id. -/
def addColumn (columns : Columns) (id : String) (schema : CreateColumnSchema) (accepted : Bool) :
    Except DataTableError Columns := do
  validateNotSystemColumn schema.name
  validateUniqueColumnName columns schema.name
  let columnCount := columns.size
  let index ← normalizeAddColumnIndex schema.index columnCount
  let columns := if index < columnCount then shiftColumns columns index 1 else columns
  if !accepted then .error .database
  else return columns.set id { name := schema.name, index }

def deleteColumn (columns : Columns) (column : FoundColumn) (accepted : Bool) :
    Except DataTableError Columns :=
  let columns := columns.erase column.id
  if !accepted then .error .database
  else .ok (shiftColumns columns column.index (-1))

def moveColumn (columns : Columns) (column : FoundColumn) (targetIndex : ℤ) (accepted : Bool) :
    Except DataTableError Columns :=
  let columnCount := columns.size
  if targetIndex < 0 then .error (.validation "tried to move column to negative index")
  else if targetIndex ≥ columnCount then
    .error (.validation "tried to move column to an index larger than column count")
  else if !accepted then .error .database
  else
    let columns := shiftColumns columns column.index (-1)
    let columns := shiftColumns columns targetIndex 1
    .ok (updateIndex columns column.id targetIndex)

/-! ### Calls of the service -/

structure State where
  columns : Columns
  /-- What the lookups of the calls have found. -/
  lookups : List FoundColumn

inductive Event where
  /-- `validateColumnExists`, of a move or a deletion. -/
  | lookup (columnId : String)
  | addColumn (id : String) (schema : CreateColumnSchema) (accepted : Bool)
  | deleteColumn (column : FoundColumn) (accepted : Bool)
  /-- `targetIndex` is a natural number, as the request is admitted. -/
  | moveColumn (column : FoundColumn) (targetIndex : ℕ) (accepted : Bool)

/-- What a transaction makes of the columns. -/
def State.transaction (st : State) : Event → Except DataTableError Columns
  | .lookup _ => .ok st.columns
  | .addColumn id schema accepted => DataTables.addColumn st.columns id schema accepted
  | .deleteColumn column accepted => DataTables.deleteColumn st.columns column accepted
  | .moveColumn column targetIndex accepted =>
    DataTables.moveColumn st.columns column targetIndex accepted

/-- Only a lookup finds a column, and a lookup of a column that does not exist ends the call. -/
def State.lookupsAfter (st : State) : Event → List FoundColumn
  | .lookup columnId =>
    match st.columns.get? columnId with
    | none => st.lookups
    | some column => { column with id := columnId } :: st.lookups
  | _ => st.lookups

/-- A move or a deletion is of a column that was looked up, and a new column has a new id. -/
def State.Admits (st : State) : Event → Prop
  | .lookup _ => True
  | .addColumn id _ _ => st.columns.get? id = none
  | .deleteColumn column _ => column ∈ st.lookups
  | .moveColumn column _ _ => column ∈ st.lookups

/-- One step. A transaction that fails leaves the columns as they were. -/
def State.Step (st : State) (e : Event) (st' : State) : Prop :=
  st.Admits e ∧
    st' = { columns := (st.transaction e).toOption.getD st.columns, lookups := st.lookupsAfter e }

/-! ### Consecutive positions -/

/-- The indexes are exactly `0`, …, `n - 1`. -/
def Consecutive (columns : Columns) : Prop :=
  (columns.values.map (·.index)).Perm ((List.range columns.size).map (↑))

/-- A table whose columns are in order. -/
structure Table where
  columns : Columns
  consecutive : Consecutive columns

/-- The table before any call. -/
def Table.state (table : Table) : State where
  columns := table.columns
  lookups := []

/-- The column with the id has the index, if one is asked for, and the others stand as before. -/
structure Places (id : String) (index : Option ℚ) (columns columns' : Columns) : Prop where
  placed : ∀ i, index = some i → ∃ column, columns'.get? id = some column ∧ column.index = i
  ordered : ∀ a b, a ≠ id → b ≠ id → ∀ columnA columnB columnA' columnB',
    columns.get? a = some columnA → columns.get? b = some columnB →
    columns'.get? a = some columnA' → columns'.get? b = some columnB' →
      (columnA.index < columnB.index ↔ columnA'.index < columnB'.index)

/-- The index that is asked for: at the end when it is too large. -/
def requestedIndex (columns : Columns) (schema : CreateColumnSchema) : ℚ :=
  match schema.index with
  | none => columns.size
  | some index => min index columns.size

/-- A transaction that succeeds does what was asked for. -/
def StepOk (st : State) (e : Event) : Prop :=
  ∀ columns', st.transaction e = .ok columns' →
    match e with
    | .lookup _ => True
    | .addColumn id schema _ =>
      Places id (some (requestedIndex st.columns schema)) st.columns columns'
    | .deleteColumn column _ => Places column.id none st.columns columns'
    | .moveColumn column targetIndex _ => Places column.id (some targetIndex) st.columns columns'

/-- The column has not moved up, and no other one stands between its index and the one that was
found. -/
def StillServes (columns : Columns) (column : FoundColumn) (current : DataTableColumn) : Prop :=
  current.index ≤ column.index ∧
    ∀ other ∈ columns.values, ¬ (current.index < other.index ∧ other.index < column.index)

/-- A move or a deletion finds that its index still serves, and a new column gets a whole number. A
deletion of a column that is gone may only have an index behind all others. -/
def Condition (st : State) : Event → Prop
  | .lookup _ => True
  | .addColumn _ schema accepted =>
    accepted = true → validateNotSystemColumn schema.name = .ok () →
      validateUniqueColumnName st.columns schema.name = .ok () →
        ∀ index, schema.index = some index → 0 < index → index < st.columns.size →
          ∃ k : ℤ, index = k
  | .deleteColumn column accepted =>
    accepted = true →
      match st.columns.get? column.id with
      | some current => StillServes st.columns column current
      | none => ∀ other ∈ st.columns.values, other.index < column.index
  | .moveColumn column targetIndex accepted =>
    accepted = true → targetIndex < st.columns.size →
      ∃ current, st.columns.get? column.id = some current ∧ StillServes st.columns column current

/-! ### The indexes of consecutive columns -/

variable {columns columns' : Columns} {a b id : String} {column columnA columnB : DataTableColumn}
  {k m l : ℤ}

theorem mem_values_iff : column ∈ columns.values ↔ ∃ a, columns.get? a = some column := by
  simp only [InsertionMap.mem_values, InsertionMap.get?_eq_some_iff]

/-- An index is a number from `0` to `n - 1`. -/
theorem Consecutive.index (h : Consecutive columns) (ha : columns.get? a = some column) :
    ∃ k : ℤ, 0 ≤ k ∧ k < columns.size ∧ column.index = k := by
  have hmem : column.index ∈ columns.values.map (·.index) :=
    List.mem_map_of_mem (mem_values_iff.mpr ⟨a, ha⟩)
  obtain ⟨k, hk, hindex⟩ := List.mem_map.mp (h.subset hmem)
  have hlt := List.mem_range.mp hk
  exact ⟨k, by omega, by omega, by rw [← hindex]; norm_cast⟩

/-- Every number is an index. -/
theorem Consecutive.exists_index (h : Consecutive columns) (hk : 0 ≤ k) (hlt : k < columns.size) :
    ∃ a column, columns.get? a = some column ∧ column.index = k := by
  have hmem : (k : ℚ) ∈ (List.range columns.size).map ((↑) : ℕ → ℚ) := by
    refine List.mem_map.mpr ⟨k.toNat, List.mem_range.mpr (by omega), ?_⟩
    have hcast : ((k.toNat : ℤ) : ℚ) = k := by rw [Int.toNat_of_nonneg hk]
    exact_mod_cast hcast
  obtain ⟨column, hcolumn, hindex⟩ := List.mem_map.mp (h.symm.subset hmem)
  obtain ⟨a, ha⟩ := mem_values_iff.mp hcolumn
  exact ⟨a, column, ha, hindex⟩

/-- The indexes of two columns differ. -/
theorem Consecutive.inj (h : Consecutive columns) (ha : columns.get? a = some columnA)
    (hb : columns.get? b = some columnB) (hindex : columnA.index = columnB.index) : a = b := by
  have hnodup : (columns.values.map (·.index)).Nodup := by
    refine h.nodup_iff.mpr (List.nodup_range.map ?_)
    exact fun i j hij => by exact_mod_cast hij
  rw [InsertionMap.values, List.map_map] at hnodup
  have heq := List.inj_on_of_nodup_map hnodup (InsertionMap.get?_eq_some_iff.mp ha)
    (InsertionMap.get?_eq_some_iff.mp hb) hindex
  exact congrArg Prod.fst heq

/-- Distinct numbers from `0` to `n - 1` are consecutive. -/
theorem Consecutive.of_index
    (hindex : ∀ a column, columns.get? a = some column →
      ∃ k : ℤ, 0 ≤ k ∧ k < columns.size ∧ column.index = k)
    (hinj : ∀ a b columnA columnB, columns.get? a = some columnA → columns.get? b = some columnB →
      columnA.index = columnB.index → a = b) : Consecutive columns := by
  have hnodup : (columns.values.map (·.index)).Nodup := by
    rw [InsertionMap.values, List.map_map]
    refine (columns.entries_nodup).map_on fun e he e' he' heq => ?_
    have hfst := hinj e.1 e'.1 e.2 e'.2 (InsertionMap.get?_eq_some_iff.mpr he)
      (InsertionMap.get?_eq_some_iff.mpr he') heq
    exact Prod.ext hfst (InsertionMap.eq_of_mem (hfst ▸ he) he')
  have hsubset : columns.values.map (·.index) ⊆ (List.range columns.size).map (↑) := by
    intro x hx
    obtain ⟨column, hcolumn, rfl⟩ := List.mem_map.mp hx
    obtain ⟨a, ha⟩ := mem_values_iff.mp hcolumn
    obtain ⟨k, hk, hlt, hcast⟩ := hindex a column ha
    refine List.mem_map.mpr ⟨k.toNat, List.mem_range.mpr (by omega), ?_⟩
    have hnat : ((k.toNat : ℤ) : ℚ) = k := by rw [Int.toNat_of_nonneg hk]
    rw [hcast, ← hnat]
    norm_cast
  refine (List.subperm_of_subset hnodup hsubset).perm_of_length_le ?_
  simp [InsertionMap.size, InsertionMap.values]

/-! ### Shifts -/

/-- What a shift from `l` on makes of a whole number. -/
def shifted (l delta k : ℤ) : ℤ := if l ≤ k then k + delta else k

theorem index_shiftColumn {lowestIndex : ℚ} {delta : ℤ} (hlowest : lowestIndex = l)
    (hindex : column.index = k) :
    (shiftColumn lowestIndex delta column).index = shifted l delta k := by
  rw [shiftColumn, shifted, hlowest, hindex]
  by_cases hle : l ≤ k
  · rw [if_pos (by exact_mod_cast hle), if_pos hle]
    push_cast
    rfl
  · rw [if_neg (by exact_mod_cast hle), if_neg hle, hindex]

theorem get?_shiftColumns (columns : Columns) (lowestIndex : ℚ) (delta : ℤ) (a : String) :
    (shiftColumns columns lowestIndex delta).get? a =
      (columns.get? a).map (shiftColumn lowestIndex delta) :=
  InsertionMap.get?_map _ _ _

theorem size_shiftColumns (columns : Columns) (lowestIndex : ℚ) (delta : ℤ) :
    (shiftColumns columns lowestIndex delta).size = columns.size := by
  simp [shiftColumns, InsertionMap.size, InsertionMap.entries_map]

/-- What a transaction does to all columns but one: their indexes, whole numbers, change by `f`. -/
def Moves (f : ℤ → ℤ) (id : String) (columns columns' : Columns) : Prop :=
  ∀ a, a ≠ id → ∀ column, columns.get? a = some column → ∀ k : ℤ, column.index = k →
    ∃ column', columns'.get? a = some column' ∧ column'.index = f k

/-- If `f` keeps the order of the indexes of the other columns, these stand as before. -/
theorem Moves.ordered {f : ℤ → ℤ} (h : Moves f id columns columns') (hcons : Consecutive columns)
    (hf : ∀ k m : ℤ, (∃ a, a ≠ id ∧ ∃ column, columns.get? a = some column ∧ column.index = k) →
      (∃ b, b ≠ id ∧ ∃ column, columns.get? b = some column ∧ column.index = m) →
        (k < m ↔ f k < f m))
    (a b : String) (ha : a ≠ id) (hb : b ≠ id)
    (columnA columnB columnA' columnB' : DataTableColumn) (hA : columns.get? a = some columnA)
    (hB : columns.get? b = some columnB) (hA' : columns'.get? a = some columnA')
    (hB' : columns'.get? b = some columnB') :
    columnA.index < columnB.index ↔ columnA'.index < columnB'.index := by
  obtain ⟨k, -, -, hk⟩ := hcons.index hA
  obtain ⟨m, -, -, hm⟩ := hcons.index hB
  obtain ⟨columnA'', hA'', hk'⟩ := h a ha columnA hA k hk
  obtain ⟨columnB'', hB'', hm'⟩ := h b hb columnB hB m hm
  obtain rfl := Option.some.inj (hA'.symm.trans hA'')
  obtain rfl := Option.some.inj (hB'.symm.trans hB'')
  rw [hk, hm, hk', hm', Int.cast_lt, Int.cast_lt]
  exact hf k m ⟨a, ha, columnA, hA, hk⟩ ⟨b, hb, columnB, hB, hm⟩

/-- The indexes stay consecutive when `f` keeps the order and leaves one number free, which is that
of the column itself, if it is there. -/
theorem Moves.consecutive {f : ℤ → ℤ} (h : Moves f id columns columns')
    (hcons : Consecutive columns)
    (hf : ∀ k m : ℤ, (∃ a, a ≠ id ∧ ∃ column, columns.get? a = some column ∧ column.index = k) →
      (∃ b, b ≠ id ∧ ∃ column, columns.get? b = some column ∧ column.index = m) →
        (k < m ↔ f k < f m))
    (hback : ∀ a, a ≠ id → columns'.get? a ≠ none → columns.get? a ≠ none)
    (hrange : ∀ k : ℤ, (∃ a, a ≠ id ∧ ∃ column, columns.get? a = some column ∧ column.index = k) →
      0 ≤ f k ∧ f k < columns'.size ∧
        ∀ column, columns'.get? id = some column → column.index ≠ (f k : ℚ))
    (hself : ∀ column, columns'.get? id = some column →
      ∃ k : ℤ, 0 ≤ k ∧ k < columns'.size ∧ column.index = k) : Consecutive columns' := by
  -- an index of another column is that of before, moved
  have hother {a : String} {column : DataTableColumn} (ha : a ≠ id)
      (hcolumn : columns'.get? a = some column) :
      ∃ k : ℤ, (∃ b, b ≠ id ∧ ∃ column, columns.get? b = some column ∧ column.index = k) ∧
        (∃ column, columns.get? a = some column ∧ column.index = k) ∧ column.index = f k := by
    obtain ⟨before, hbefore⟩ := Option.ne_none_iff_exists'.mp
      (hback a ha (hcolumn ▸ Option.some_ne_none _))
    obtain ⟨k, -, -, hk⟩ := hcons.index hbefore
    obtain ⟨column', hcolumn', hindex⟩ := h a ha before hbefore k hk
    obtain rfl := Option.some.inj (hcolumn.symm.trans hcolumn')
    exact ⟨k, ⟨a, ha, before, hbefore, hk⟩, ⟨before, hbefore, hk⟩, hindex⟩
  refine .of_index (fun a column hcolumn => ?_) fun a b columnA columnB hA hB heq => ?_
  · obtain rfl | ha := eq_or_ne a id
    · exact hself column hcolumn
    · obtain ⟨k, hk, -, hindex⟩ := hother ha hcolumn
      obtain ⟨h0, hlt, -⟩ := hrange k hk
      exact ⟨f k, h0, hlt, hindex⟩
  · obtain rfl | ha := eq_or_ne a id
    · obtain rfl | hb := eq_or_ne b a
      · rfl
      · obtain ⟨m, hm, -, hindex⟩ := hother hb hB
        exact absurd (heq.trans hindex) ((hrange m hm).2.2 columnA hA)
    · obtain ⟨k, hk, ⟨before, hbefore, hkbefore⟩, hindexA⟩ := hother ha hA
      obtain rfl | hb := eq_or_ne b id
      · exact absurd (heq.symm.trans hindexA) ((hrange k hk).2.2 columnB hB)
      · obtain ⟨m, hm, ⟨before', hbefore', hmbefore⟩, hindexB⟩ := hother hb hB
        refine hcons.inj hbefore hbefore' ?_
        rw [hindexA, hindexB, Int.cast_inj] at heq
        have hkm := hf k m hk hm
        have hmk := hf m k hm hk
        have hsame : k = m := by omega
        rw [hkbefore, hmbefore, hsame]

/-- No two columns may be moved to one index, nor below `0` or behind the last one. -/
theorem Moves.not_consecutive_of_meet {f : ℤ → ℤ} (h : Moves f id columns columns')
    (hA : columns.get? a = some columnA) (hB : columns.get? b = some columnB) (ha : a ≠ id)
    (hb : b ≠ id) (hk : columnA.index = k) (hm : columnB.index = m) (hne : k ≠ m)
    (hmeet : f k = f m) : ¬ Consecutive columns' := by
  intro hcons
  obtain ⟨columnA', hA', hk'⟩ := h a ha columnA hA k hk
  obtain ⟨columnB', hB', hm'⟩ := h b hb columnB hB m hm
  obtain rfl := hcons.inj hA' hB' (by rw [hk', hm', hmeet])
  obtain rfl := Option.some.inj (hA.symm.trans hB)
  rw [hk, Int.cast_inj] at hm
  exact hne hm

theorem Moves.not_consecutive_of_range {f : ℤ → ℤ} (h : Moves f id columns columns')
    (hA : columns.get? a = some columnA) (ha : a ≠ id) (hk : columnA.index = k)
    (hrange : f k < 0 ∨ columns'.size ≤ f k) : ¬ Consecutive columns' := by
  intro hcons
  obtain ⟨columnA', hA', hk'⟩ := h a ha columnA hA k hk
  obtain ⟨m, h0, hlt, hm⟩ := hcons.index hA'
  rw [hk', Int.cast_inj] at hm
  omega

/-! ### An index that is out of date -/

/-- Another column has the index, if the column itself has a different one. -/
theorem Consecutive.exists_other (h : Consecutive columns) (hk : 0 ≤ k) (hlt : k < columns.size)
    (hself : ∀ current, columns.get? id = some current → current.index ≠ (k : ℚ)) :
    ∃ a, a ≠ id ∧ ∃ column, columns.get? a = some column ∧ column.index = k := by
  obtain ⟨a, column, ha, hindex⟩ := h.exists_index hk hlt
  refine ⟨a, ?_, column, ha, hindex⟩
  rintro rfl
  exact hself column ha hindex

/-- Other columns have the index that was found and the one before it: they meet, or the first one
gets an index below `0`. -/
theorem Moves.not_consecutive_of_lt {f : ℤ → ℤ}
    (h : Moves (fun k => f (shifted l (-1) k)) id columns columns') (hcons : Consecutive columns)
    (h0 : 0 ≤ l) (hlt : l < columns.size) (hneg : f (-1) < 0)
    (hself : ∀ current, columns.get? id = some current →
      current.index ≠ (l : ℚ) ∧ current.index ≠ ((l - 1 : ℤ) : ℚ)) : ¬ Consecutive columns' := by
  obtain ⟨a, ha, columnA, hA, hk⟩ := hcons.exists_other h0 hlt fun current hcurrent =>
    (hself current hcurrent).1
  have hdown : shifted l (-1) l = l - 1 := by rw [shifted, if_pos le_rfl]; rfl
  obtain hzero | hpos := h0.eq_or_lt
  · refine h.not_consecutive_of_range hA ha hk (.inl ?_)
    simp only [hdown]
    rwa [← hzero]
  · obtain ⟨b, hb, columnB, hB, hm⟩ := hcons.exists_other (k := l - 1) (by omega) (by omega)
      fun current hcurrent => (hself current hcurrent).2
    have hstay : shifted l (-1) (l - 1) = l - 1 := if_neg (by omega)
    refine h.not_consecutive_of_meet hA hB ha hb hk hm (by omega) ?_
    simp only [hdown, hstay]

/-- The index that was found is behind all columns, and the last column is another one: nothing
fills the gap. -/
theorem Moves.not_consecutive_of_le {f : ℤ → ℤ}
    (h : Moves (fun k => f (shifted l (-1) k)) id columns columns') (hcons : Consecutive columns)
    (hle : columns.size ≤ l) (hpos : 0 < columns.size)
    (hlast : (columns'.size : ℤ) ≤ f (columns.size - 1))
    (hself : ∀ current, columns.get? id = some current →
      current.index ≠ ((columns.size - 1 : ℤ) : ℚ)) : ¬ Consecutive columns' := by
  obtain ⟨a, ha, columnA, hA, hk⟩ := hcons.exists_other (k := columns.size - 1) (by omega)
    (by omega) hself
  have hstay : shifted l (-1) (columns.size - 1) = columns.size - 1 := if_neg (by omega)
  refine h.not_consecutive_of_range hA ha hk (.inr ?_)
  simpa only [hstay] using hlast

/-- **An index that no longer serves.** Wherever the others are moved afterwards. -/
theorem Moves.not_consecutive {f : ℤ → ℤ} {found : FoundColumn} {current : DataTableColumn}
    (h : Moves (fun k => f (shifted l (-1) k)) id columns columns') (hcons : Consecutive columns)
    (h0 : 0 ≤ l) (hfound : found.index = l) (hneg : f (-1) < 0)
    (hlast : (columns'.size : ℤ) ≤ f (columns.size - 1))
    (hcurrent : columns.get? id = some current) (hstale : ¬ StillServes columns found current) :
    ¬ Consecutive columns' := by
  obtain ⟨i, hi, hlt, hindex⟩ := hcons.index hcurrent
  have hself {x : ℤ} (hx : i ≠ x) (current' : DataTableColumn)
      (hcurrent' : columns.get? id = some current') : current'.index ≠ (x : ℚ) := by
    obtain rfl := Option.some.inj (hcurrent.symm.trans hcurrent')
    rw [hindex, ne_eq, Int.cast_inj]
    exact hx
  rw [StillServes, not_and_or] at hstale
  obtain hmoved | hbetween := hstale
  · -- the column has moved up
    rw [hindex, hfound, Int.cast_le] at hmoved
    exact h.not_consecutive_of_lt hcons h0 (by omega) hneg fun current' hcurrent' =>
      ⟨hself (by omega) current' hcurrent', hself (by omega) current' hcurrent'⟩
  · push Not at hbetween
    obtain ⟨other, hother, habove, hbelow⟩ := hbetween
    obtain ⟨a, ha⟩ := mem_values_iff.mp hother
    obtain ⟨k, -, hkn, hk⟩ := hcons.index ha
    rw [hindex, hk, Int.cast_lt] at habove
    rw [hfound, hk, Int.cast_lt] at hbelow
    obtain hln | hnl := lt_or_ge l (columns.size : ℤ)
    · exact h.not_consecutive_of_lt hcons h0 hln hneg fun current' hcurrent' =>
        ⟨hself (by omega) current' hcurrent', hself (by omega) current' hcurrent'⟩
    · exact h.not_consecutive_of_le hcons hnl (by omega) hlast (hself (by omega))

/-! ### An index that still serves -/

/-- The indexes of the other columns are below both the index of the column and the one that was
found, or above. -/
theorem StillServes.splits {found : FoundColumn} {current : DataTableColumn} {i : ℤ}
    (h : StillServes columns found current) (hcons : Consecutive columns)
    (hcurrent : columns.get? id = some current) (hindex : current.index = i)
    (hfound : found.index = l)
    (hk : ∃ a, a ≠ id ∧ ∃ column, columns.get? a = some column ∧ column.index = k) :
    (k < i ∧ k < l) ∨ (i < k ∧ l ≤ k) := by
  obtain ⟨a, ha, column, hcolumn, hk⟩ := hk
  obtain ⟨hle, hbetween⟩ := h
  have hne : k ≠ i := by
    rintro rfl
    exact ha (hcons.inj hcolumn hcurrent (hk.trans hindex.symm))
  have hnot := hbetween column (mem_values_iff.mpr ⟨a, hcolumn⟩)
  rw [hindex, hfound, Int.cast_le] at hle
  rw [hindex, hfound, hk, Int.cast_lt, Int.cast_lt] at hnot
  omega

/-! ### Deletions -/

theorem moves_delete (columns : Columns) {found : FoundColumn} (hfound : found.index = l) :
    Moves (fun k => shifted l (-1) k) found.id columns
      (shiftColumns (columns.erase found.id) found.index (-1)) := by
  intro a ha column hcolumn k hk
  refine ⟨_, ?_, index_shiftColumn hfound hk⟩
  rw [get?_shiftColumns, InsertionMap.get?_erase, if_neg ha, hcolumn, Option.map_some]

theorem get?_delete_self (columns : Columns) (found : FoundColumn) :
    (shiftColumns (columns.erase found.id) found.index (-1)).get? found.id = none := by
  rw [get?_shiftColumns, InsertionMap.get?_erase, if_pos rfl, Option.map_none]

theorem get?_of_get?_delete {found : FoundColumn} (ha : a ≠ found.id)
    (h : (shiftColumns (columns.erase found.id) found.index (-1)).get? a ≠ none) :
    columns.get? a ≠ none := by
  rw [get?_shiftColumns, InsertionMap.get?_erase, if_neg ha] at h
  exact fun hnone => h (by rw [hnone, Option.map_none])

theorem size_erase (columns : Columns) (id : String) :
    (columns.erase id).size =
      if columns.get? id = none then columns.size else columns.size - 1 := by
  split_ifs with hnone
  · rw [InsertionMap.erase_of_get?_eq_none hnone]
  · obtain ⟨column, hcolumn⟩ := Option.ne_none_iff_exists'.mp hnone
    have hlength := (InsertionMap.entries_perm_of_get? hcolumn).length_eq
    rw [List.length_cons] at hlength
    simp only [InsertionMap.size]
    omega

/-- A deletion closes the gap that it leaves. -/
theorem consecutive_delete (hcons : Consecutive columns) {found : FoundColumn}
    (hfound : found.index = l) {i : ℤ} (hi : 0 ≤ i)
    (hsize : i ≤ (shiftColumns (columns.erase found.id) found.index (-1)).size)
    (hother : ∀ k : ℤ, (∃ a, a ≠ found.id ∧
      ∃ column, columns.get? a = some column ∧ column.index = k) →
        ((k < i ∧ k < l) ∨ (i < k ∧ l ≤ k)) ∧
          k ≤ (shiftColumns (columns.erase found.id) found.index (-1)).size) :
    Consecutive (shiftColumns (columns.erase found.id) found.index (-1)) ∧
      Places found.id none columns
        (shiftColumns (columns.erase found.id) found.index (-1)) := by
  have hmoves := moves_delete columns hfound
  have hmono : ∀ k m : ℤ,
      (∃ a, a ≠ found.id ∧ ∃ column, columns.get? a = some column ∧ column.index = k) →
      (∃ b, b ≠ found.id ∧ ∃ column, columns.get? b = some column ∧ column.index = m) →
        (k < m ↔ shifted l (-1) k < shifted l (-1) m) := by
    intro k m hk hm
    have hkside := (hother k hk).1
    have hmside := (hother m hm).1
    rw [shifted, shifted]
    split_ifs <;> omega
  refine ⟨hmoves.consecutive hcons hmono (fun a ha => get?_of_get?_delete ha) (fun k hk => ?_) ?_,
    fun i hi => (nomatch hi), hmoves.ordered hcons hmono⟩
  · obtain ⟨hside, hle⟩ := hother k hk
    obtain ⟨a, -, column, hcolumn, hindex⟩ := hk
    obtain ⟨m, h0, -, hm⟩ := hcons.index hcolumn
    rw [hindex, Int.cast_inj] at hm
    refine ⟨?_, ?_, fun column hcolumn => ?_⟩
    · rw [shifted]
      split_ifs <;> omega
    · rw [shifted]
      split_ifs <;> omega
    · exact nomatch (get?_delete_self columns found).symm.trans hcolumn
  · exact fun column hcolumn => nomatch (get?_delete_self columns found).symm.trans hcolumn

/-! ### Moves -/

theorem get?_updateIndex (columns : Columns) (id : String) (index : ℚ) (a : String) :
    (updateIndex columns id index).get? a =
      if a = id then (columns.get? id).map fun column => { column with index }
      else columns.get? a := by
  rw [updateIndex]
  cases hid : columns.get? id with
  | none =>
    split_ifs with ha
    · rw [ha, hid, Option.map_none]
    · rfl
  | some column => rw [InsertionMap.get?_set, Option.map_some]

theorem size_updateIndex (columns : Columns) (id : String) (index : ℚ) :
    (updateIndex columns id index).size = columns.size := by
  rw [updateIndex]
  cases hid : columns.get? id with
  | none => rfl
  | some column =>
    refine InsertionMap.size_set_of_mem ?_ _
    by_contra hnot
    exact nomatch hid.symm.trans (InsertionMap.get?_eq_none_iff.mpr hnot)

/-- The columns after a move that the database takes. -/
def movedColumns (columns : Columns) (found : FoundColumn) (target : ℤ) : Columns :=
  updateIndex (shiftColumns (shiftColumns columns found.index (-1)) target 1) found.id target

theorem size_movedColumns (columns : Columns) (found : FoundColumn) (target : ℤ) :
    (movedColumns columns found target).size = columns.size := by
  rw [movedColumns, size_updateIndex, size_shiftColumns, size_shiftColumns]

theorem moves_move (columns : Columns) {found : FoundColumn} (hfound : found.index = l)
    (target : ℤ) :
    Moves (fun k => shifted target 1 (shifted l (-1) k)) found.id columns
      (movedColumns columns found target) := by
  intro a ha column hcolumn k hk
  refine ⟨_, ?_, index_shiftColumn rfl (index_shiftColumn hfound hk)⟩
  rw [movedColumns, get?_updateIndex, if_neg ha, get?_shiftColumns, get?_shiftColumns, hcolumn,
    Option.map_some, Option.map_some]

/-- A move closes the gap that it leaves, and makes the one that it fills. -/
theorem consecutive_move (hcons : Consecutive columns) {found : FoundColumn}
    (hfound : found.index = l) {current : DataTableColumn}
    (hcurrent : columns.get? found.id = some current) {i target : ℤ} (hi : 0 ≤ i)
    (hin : i < columns.size) (htarget : 0 ≤ target) (hlt : target < columns.size)
    (hother : ∀ k : ℤ, (∃ a, a ≠ found.id ∧
      ∃ column, columns.get? a = some column ∧ column.index = k) →
        (k < i ∧ k < l) ∨ (i < k ∧ l ≤ k)) :
    Consecutive (movedColumns columns found target) ∧
      Places found.id (some target) columns (movedColumns columns found target) := by
  have hmoves := moves_move columns hfound target
  have hself : (movedColumns columns found target).get? found.id =
      some { current with index := target } := by
    rw [movedColumns, get?_updateIndex, if_pos rfl, get?_shiftColumns, get?_shiftColumns, hcurrent]
    have hname (c : DataTableColumn) (i : ℚ) (d : ℤ) : (shiftColumn i d c).name = c.name := by
      rw [shiftColumn]
      split_ifs <;> rfl
    simp [hname]
  have hmono : ∀ k m : ℤ,
      (∃ a, a ≠ found.id ∧ ∃ column, columns.get? a = some column ∧ column.index = k) →
      (∃ b, b ≠ found.id ∧ ∃ column, columns.get? b = some column ∧ column.index = m) →
        (k < m ↔ shifted target 1 (shifted l (-1) k) < shifted target 1 (shifted l (-1) m)) := by
    intro k m hk hm
    have hkside := hother k hk
    have hmside := hother m hm
    simp only [shifted]
    split_ifs <;> omega
  have hplaced : ∀ j, some (target : ℚ) = some j → ∃ column,
      (movedColumns columns found target).get? found.id = some column ∧ column.index = j := by
    rintro j hj
    obtain rfl := Option.some.inj hj
    exact ⟨_, hself, rfl⟩
  refine ⟨hmoves.consecutive hcons hmono (fun a ha hne hnone => hne ?_) (fun k hk => ?_) ?_,
    hplaced, hmoves.ordered hcons hmono⟩
  · rw [movedColumns, get?_updateIndex, if_neg ha, get?_shiftColumns, get?_shiftColumns, hnone]
    rfl
  · have hside := hother k hk
    obtain ⟨a, -, column, hcolumn, hindex⟩ := hk
    obtain ⟨m, h0, hmn, hm⟩ := hcons.index hcolumn
    rw [hindex, Int.cast_inj] at hm
    rw [size_movedColumns]
    have hne : shifted target 1 (shifted l (-1) k) ≠ target := by
      simp only [shifted]
      split_ifs <;> omega
    refine ⟨?_, ?_, fun column hcolumn => ?_⟩
    · simp only [shifted]
      split_ifs <;> omega
    · simp only [shifted]
      split_ifs <;> omega
    · obtain rfl := Option.some.inj (hself.symm.trans hcolumn)
      simp only [ne_eq, Int.cast_inj]
      exact hne.symm
  · intro column hcolumn
    obtain rfl := Option.some.inj (hself.symm.trans hcolumn)
    exact ⟨target, htarget, by rwa [size_movedColumns], rfl⟩

/-! ### Additions -/

/-- The columns with a new one at an index. -/
def addedColumns (columns : Columns) (id name : String) (index : ℚ) : Columns :=
  (if index < columns.size then shiftColumns columns index 1 else columns).set id { name, index }

theorem addColumn_eq_ok {schema : CreateColumnSchema} {accepted : Bool} :
    addColumn columns id schema accepted = .ok columns' ↔
      accepted = true ∧ validateNotSystemColumn schema.name = .ok () ∧
        validateUniqueColumnName columns schema.name = .ok () ∧
          ∃ index, normalizeAddColumnIndex schema.index columns.size = .ok index ∧
            addedColumns columns id schema.name index = columns' := by
  simp only [addColumn]
  cases validateNotSystemColumn schema.name with
  | error e => simp [bind, Except.bind]
  | ok =>
    cases validateUniqueColumnName columns schema.name with
    | error e => simp [bind, Except.bind]
    | ok =>
      cases normalizeAddColumnIndex schema.index columns.size with
      | error e => simp [bind, Except.bind]
      | ok index => cases accepted <;> simp [bind, Except.bind, pure, Except.pure, addedColumns]

/-- The index of a new column is the one that is asked for, or behind the last column. -/
theorem normalizeAddColumnIndex_eq_ok {schema : CreateColumnSchema} {index : ℚ} :
    normalizeAddColumnIndex schema.index columns.size = .ok index ↔
      index = requestedIndex columns schema ∧ 0 ≤ index := by
  have hsize : (0 : ℚ) ≤ columns.size := by exact_mod_cast Nat.zero_le _
  rw [requestedIndex]
  cases schema.index with
  | none =>
    rw [normalizeAddColumnIndex, Except.ok.injEq]
    constructor
    · rintro rfl
      exact ⟨rfl, hsize⟩
    · exact fun h => h.1.symm
  | some requested =>
    change _ ↔ index = min requested columns.size ∧ 0 ≤ index
    rw [normalizeAddColumnIndex]
    split_ifs with hlarge hneg
    · rw [min_eq_right hlarge.le, Except.ok.injEq]
      constructor
      · rintro rfl
        exact ⟨rfl, hsize⟩
      · exact fun h => h.1.symm
    · rw [min_eq_left (not_lt.mp hlarge)]
      refine iff_of_false nofun ?_
      rintro ⟨rfl, hnonneg⟩
      exact absurd hneg (not_lt.mpr hnonneg)
    · rw [min_eq_left (not_lt.mp hlarge), Except.ok.injEq]
      constructor
      · rintro rfl
        exact ⟨rfl, not_lt.mp hneg⟩
      · exact fun h => h.1.symm

theorem get?_addedColumns_self (columns : Columns) (id name : String) (index : ℚ) :
    (addedColumns columns id name index).get? id = some { name, index } :=
  InsertionMap.get?_set_self _ _ _

theorem size_addedColumns {name : String} {index : ℚ} (hnew : columns.get? id = none) :
    (addedColumns columns id name index).size = columns.size + 1 := by
  rw [addedColumns, InsertionMap.size_set_of_not_mem]
  · split_ifs
    · rw [size_shiftColumns]
    · rfl
  · refine InsertionMap.get?_eq_none_iff.mp ?_
    split_ifs
    · rw [get?_shiftColumns, hnew, Option.map_none]
    · exact hnew

theorem get?_addedColumns_of_ne {name : String} {index : ℚ} (ha : a ≠ id) :
    (addedColumns columns id name index).get? a =
      if index < columns.size then (columns.get? a).map (shiftColumn index 1)
      else columns.get? a := by
  rw [addedColumns, InsertionMap.get?_set_of_ne _ ha]
  split_ifs
  · exact get?_shiftColumns _ _ _ _
  · rfl

/-- An addition makes the gap that it fills. -/
theorem consecutive_add (hcons : Consecutive columns) (hnew : columns.get? id = none)
    (name : String) {index : ℚ} (hindex : index = l) (h0 : 0 ≤ l) (hle : l ≤ columns.size) :
    Consecutive (addedColumns columns id name index) ∧
      Places id (some index) columns (addedColumns columns id name index) := by
  have hmoves : Moves (shifted l 1) id columns (addedColumns columns id name index) := by
    intro a ha column hcolumn k hk
    rw [get?_addedColumns_of_ne ha, hcolumn]
    split_ifs with hlt
    · exact ⟨_, rfl, index_shiftColumn hindex hk⟩
    · -- the column is appended, and no index is shifted
      obtain ⟨m, -, hmn, hm⟩ := hcons.index hcolumn
      rw [hk, Int.cast_inj] at hm
      have hge : (columns.size : ℤ) ≤ l := by
        rw [hindex, not_lt] at hlt
        exact_mod_cast hlt
      exact ⟨column, rfl, by rw [hk, shifted, if_neg (by omega)]⟩
  have hmono : ∀ k m : ℤ,
      (∃ a, a ≠ id ∧ ∃ column, columns.get? a = some column ∧ column.index = k) →
      (∃ b, b ≠ id ∧ ∃ column, columns.get? b = some column ∧ column.index = m) →
        (k < m ↔ shifted l 1 k < shifted l 1 m) := by
    intro k m _ _
    rw [shifted, shifted]
    split_ifs <;> omega
  have hself := get?_addedColumns_self columns id name index
  have hplaced : ∀ j, some index = some j → ∃ column,
      (addedColumns columns id name index).get? id = some column ∧ column.index = j := by
    rintro j hj
    obtain rfl := Option.some.inj hj
    exact ⟨_, hself, rfl⟩
  refine ⟨hmoves.consecutive hcons hmono (fun a ha hne hnone => hne ?_) (fun k hk => ?_) ?_,
    hplaced, hmoves.ordered hcons hmono⟩
  · rw [get?_addedColumns_of_ne ha, hnone]
    split_ifs <;> rfl
  · obtain ⟨a, -, column, hcolumn, hk⟩ := hk
    obtain ⟨m, hm0, hmn, hm⟩ := hcons.index hcolumn
    rw [hk, Int.cast_inj] at hm
    rw [size_addedColumns hnew]
    refine ⟨?_, ?_, fun column hcolumn => ?_⟩
    · rw [shifted]
      split_ifs <;> omega
    · rw [shifted]
      push_cast
      split_ifs <;> omega
    · obtain rfl := Option.some.inj (hself.symm.trans hcolumn)
      simp only [hindex, ne_eq, Int.cast_inj]
      rw [shifted]
      split_ifs <;> omega
  · intro column hcolumn
    obtain rfl := Option.some.inj (hself.symm.trans hcolumn)
    rw [size_addedColumns hnew]
    exact ⟨l, h0, by push_cast; omega, hindex⟩

/-! ### Runs -/

/-- The columns are in order, and the lookups have found whole numbers. -/
structure Sound (st : State) : Prop where
  consecutive : Consecutive st.columns
  found : ∀ column ∈ st.lookups, ∃ l : ℤ, 0 ≤ l ∧ column.index = l

variable {st st' : State} {e : Event}

theorem requestedIndex_le (columns : Columns) (schema : CreateColumnSchema) :
    requestedIndex columns schema ≤ columns.size := by
  rw [requestedIndex]
  cases schema.index with
  | none => exact le_rfl
  | some index => exact min_le_right _ _

/-- A fraction is only asked for between two columns. -/
theorem exists_int_of_condition {schema : CreateColumnSchema} {index : ℚ}
    (hrequested : index = requestedIndex columns schema) (hnonneg : 0 ≤ index)
    (hwhole : ∀ i, schema.index = some i → 0 < i → i < columns.size → ∃ k : ℤ, i = k) :
    ∃ l : ℤ, index = l := by
  rw [requestedIndex] at hrequested
  cases hschema : schema.index with
  | none =>
    rw [hschema] at hrequested
    exact ⟨columns.size, by rw [hrequested]; norm_cast⟩
  | some i =>
    rw [hschema] at hrequested
    simp only at hrequested
    obtain hlarge | hlt := le_or_gt (columns.size : ℚ) i
    · rw [min_eq_right hlarge] at hrequested
      exact ⟨columns.size, by rw [hrequested]; norm_cast⟩
    · rw [min_eq_left hlt.le] at hrequested
      obtain hzero | hpos := hnonneg.eq_or_lt
      · exact ⟨0, by rw [← hzero]; norm_cast⟩
      · obtain ⟨k, hk⟩ := hwhole i hschema (hrequested ▸ hpos) hlt
        exact ⟨k, hrequested.trans hk⟩

theorem deleteColumn_eq_ok {found : FoundColumn} {accepted : Bool} :
    deleteColumn columns found accepted = .ok columns' ↔
      accepted = true ∧ shiftColumns (columns.erase found.id) found.index (-1) = columns' := by
  cases accepted <;> simp [deleteColumn]

theorem moveColumn_eq_ok {found : FoundColumn} {target : ℕ} {accepted : Bool} :
    moveColumn columns found target accepted = .ok columns' ↔
      accepted = true ∧ target < columns.size ∧ movedColumns columns found target = columns' := by
  rw [moveColumn, if_neg (by omega)]
  by_cases hlt : target < columns.size
  · rw [if_neg (by omega)]
    cases accepted <;> simp [movedColumns, hlt]
  · rw [if_pos (by omega)]
    simp [hlt]

/-- A deletion that meets the condition. -/
theorem Sound.delete (h : Sound st) {found : FoundColumn} (hfound : found ∈ st.lookups)
    (hcond : Condition st (.deleteColumn found true)) :
    Consecutive (shiftColumns (st.columns.erase found.id) found.index (-1)) ∧
      Places found.id none st.columns
        (shiftColumns (st.columns.erase found.id) found.index (-1)) := by
  obtain ⟨l, h0, hl⟩ := h.found found hfound
  have hserves := hcond rfl
  have hsize := size_erase st.columns found.id
  cases hcurrent : st.columns.get? found.id with
  | none =>
    rw [hcurrent, if_pos rfl] at hsize
    simp only [hcurrent] at hserves
    -- nothing is shifted, as if the column had stood behind all others
    refine consecutive_delete h.consecutive hl (i := st.columns.size) (by omega) ?_ ?_
    · rw [size_shiftColumns, hsize]
    · rintro k ⟨a, ha, column, hcolumn, hk⟩
      obtain ⟨m, -, hmn, hm⟩ := h.consecutive.index hcolumn
      have hlt := hserves column (mem_values_iff.mpr ⟨a, hcolumn⟩)
      rw [hk, Int.cast_inj] at hm
      rw [hk, hl, Int.cast_lt] at hlt
      rw [size_shiftColumns, hsize]
      omega
  | some current =>
    rw [hcurrent, if_neg (Option.some_ne_none _)] at hsize
    simp only [hcurrent] at hserves
    obtain ⟨i, hi, hin, hindex⟩ := h.consecutive.index hcurrent
    refine consecutive_delete h.consecutive hl hi ?_ fun k hk => ?_
    · rw [size_shiftColumns, hsize]
      omega
    · refine ⟨hserves.splits h.consecutive hcurrent hindex hl hk, ?_⟩
      obtain ⟨a, -, column, hcolumn, hk⟩ := hk
      obtain ⟨m, -, hmn, hm⟩ := h.consecutive.index hcolumn
      rw [hk, Int.cast_inj] at hm
      rw [size_shiftColumns, hsize]
      omega

/-- A deletion that misses it. -/
theorem Sound.not_consecutive_delete (h : Sound st) {found : FoundColumn}
    (hfound : found ∈ st.lookups) (hnot : ¬ Condition st (.deleteColumn found true)) :
    ¬ Consecutive (shiftColumns (st.columns.erase found.id) found.index (-1)) := by
  obtain ⟨l, h0, hl⟩ := h.found found hfound
  have hmoves : Moves (fun k => id (shifted l (-1) k)) found.id st.columns
      (shiftColumns (st.columns.erase found.id) found.index (-1)) := moves_delete st.columns hl
  have hsize := size_erase st.columns found.id
  simp only [Condition, true_implies] at hnot
  cases hcurrent : st.columns.get? found.id with
  | none =>
    simp only [hcurrent, not_forall, not_lt] at hnot
    obtain ⟨other, hother, hle⟩ := hnot
    obtain ⟨a, ha⟩ := mem_values_iff.mp hother
    obtain ⟨k, -, hkn, hk⟩ := h.consecutive.index ha
    rw [hl, hk, Int.cast_le] at hle
    refine hmoves.not_consecutive_of_lt h.consecutive h0 (by omega) (by decide) ?_
    exact fun current hsome => nomatch hcurrent.symm.trans hsome
  | some current =>
    simp only [hcurrent] at hnot
    rw [hcurrent, if_neg (Option.some_ne_none _)] at hsize
    obtain ⟨i, hi, hin, -⟩ := h.consecutive.index hcurrent
    refine hmoves.not_consecutive h.consecutive h0 hl (by decide) ?_ hcurrent hnot
    rw [size_shiftColumns, hsize]
    simp only [id]
    omega

/-- A move that misses it. -/
theorem Sound.not_consecutive_move (h : Sound st) {found : FoundColumn} {target : ℕ}
    (hfound : found ∈ st.lookups) (hlt : target < st.columns.size)
    (hnot : ¬ ∃ current, st.columns.get? found.id = some current ∧
      StillServes st.columns found current) :
    ¬ Consecutive (movedColumns st.columns found target) := by
  obtain ⟨l, h0, hl⟩ := h.found found hfound
  have hmoves := moves_move st.columns hl target
  have hneg : shifted target 1 (-1) < 0 := by
    rw [shifted, if_neg (by omega)]
    decide
  have hlast : ((movedColumns st.columns found target).size : ℤ) ≤
      shifted target 1 (st.columns.size - 1) := by
    rw [size_movedColumns, shifted, if_pos (by omega)]
    omega
  cases hcurrent : st.columns.get? found.id with
  | none =>
    have hself (current : DataTableColumn) (hsome : st.columns.get? found.id = some current) :
        False := nomatch hcurrent.symm.trans hsome
    obtain hln | hnl := lt_or_ge l (st.columns.size : ℤ)
    · exact hmoves.not_consecutive_of_lt h.consecutive h0 hln hneg fun current hsome =>
        (hself current hsome).elim
    · exact hmoves.not_consecutive_of_le h.consecutive hnl (by omega) hlast fun current hsome =>
        (hself current hsome).elim
  | some current =>
    exact hmoves.not_consecutive h.consecutive h0 hl hneg hlast hcurrent
      fun hserves => hnot ⟨current, hcurrent, hserves⟩

/-- **A transaction that succeeds.** It keeps the columns in order and does what was asked for, if
it meets the condition, and else breaks their order. -/
theorem Sound.transaction (h : Sound st) (hadmits : st.Admits e)
    (hok : st.transaction e = .ok columns') :
    (Condition st e → Consecutive columns' ∧ StepOk st e) ∧
      (¬ Condition st e → ¬ Consecutive columns') := by
  cases e with
  | lookup columnId =>
    obtain rfl := Except.ok.inj hok
    exact ⟨fun _ => ⟨h.consecutive, fun _ _ => trivial⟩, fun hnot => absurd trivial hnot⟩
  | addColumn id schema accepted =>
    obtain ⟨haccepted, hsystem, hunique, index, hindex, rfl⟩ := addColumn_eq_ok.mp hok
    obtain ⟨hrequested, hnonneg⟩ := normalizeAddColumnIndex_eq_ok.mp hindex
    refine ⟨fun hcond => ?_, fun hnot hcons => hnot fun _ _ _ requested hsome hpos hlt => ?_⟩
    · obtain ⟨l, hl⟩ := exists_int_of_condition hrequested hnonneg
        (hcond haccepted hsystem hunique)
      have hle : index ≤ st.columns.size := hrequested ▸ requestedIndex_le st.columns schema
      rw [hl] at hnonneg hle
      obtain ⟨hcons, hplaces⟩ := consecutive_add h.consecutive hadmits schema.name hl
        (by exact_mod_cast hnonneg) (by exact_mod_cast hle)
      refine ⟨hcons, fun columns'' hok' => ?_⟩
      obtain rfl := Except.ok.inj (hok.symm.trans hok')
      simp only
      rwa [← hrequested]
    · -- the new column has the number that was asked for
      obtain ⟨k, -, -, hk⟩ := hcons.index (get?_addedColumns_self _ _ _ _)
      have hmin : requestedIndex st.columns schema = min requested st.columns.size := by
        rw [requestedIndex, hsome]
      rw [hmin, min_eq_left hlt.le] at hrequested
      exact ⟨k, hrequested ▸ hk⟩
  | deleteColumn found accepted =>
    obtain ⟨rfl, rfl⟩ := deleteColumn_eq_ok.mp hok
    refine ⟨fun hcond => ?_, fun hnot => h.not_consecutive_delete hadmits hnot⟩
    obtain ⟨hcons, hplaces⟩ := h.delete hadmits hcond
    refine ⟨hcons, fun columns'' hok' => ?_⟩
    obtain rfl := Except.ok.inj (hok.symm.trans hok')
    exact hplaces
  | moveColumn found target accepted =>
    obtain ⟨rfl, hlt, rfl⟩ := moveColumn_eq_ok.mp hok
    refine ⟨fun hcond => ?_, fun hnot => h.not_consecutive_move hadmits hlt fun hserves =>
      hnot fun _ _ => hserves⟩
    obtain ⟨current, hcurrent, hserves⟩ := hcond rfl hlt
    obtain ⟨l, h0, hl⟩ := h.found found hadmits
    obtain ⟨i, hi, hin, hindex⟩ := h.consecutive.index hcurrent
    have htarget : (target : ℤ) < st.columns.size := by omega
    obtain ⟨hcons, hplaces⟩ := consecutive_move h.consecutive hl hcurrent hi hin
      (Int.natCast_nonneg target) htarget fun k hk =>
        hserves.splits h.consecutive hcurrent hindex hl hk
    refine ⟨hcons, fun columns'' hok' => ?_⟩
    obtain rfl := Except.ok.inj (hok.symm.trans hok')
    exact_mod_cast hplaces

/-- What the lookups have found stays, and the next one finds a column in order. -/
theorem Sound.found_lookupsAfter (h : Sound st) (e : Event) :
    ∀ column ∈ st.lookupsAfter e, ∃ l : ℤ, 0 ≤ l ∧ column.index = l := by
  cases e with
  | lookup columnId =>
    rw [State.lookupsAfter]
    cases hcolumn : st.columns.get? columnId with
    | none => exact h.found
    | some current =>
      intro column hmem
      obtain rfl | hmem := List.mem_cons.mp hmem
      · obtain ⟨k, h0, -, hk⟩ := h.consecutive.index hcolumn
        exact ⟨k, h0, hk⟩
      · exact h.found column hmem
  | _ => exact h.found

theorem Sound.step (h : Sound st) (hcond : Condition st e) (hstep : st.Step e st') :
    Sound st' := by
  obtain ⟨hadmits, rfl⟩ := hstep
  refine ⟨?_, h.found_lookupsAfter e⟩
  cases htransaction : st.transaction e with
  | error error => exact h.consecutive
  | ok columns' => exact ((h.transaction hadmits htransaction).1 hcond).1

theorem Sound.stepOk (h : Sound st) (hadmits : st.Admits e) (hcond : Condition st e) :
    StepOk st e := by
  intro columns' hok
  exact ((h.transaction hadmits hok).1 hcond).2 columns' hok

/-- A transaction that fails meets the condition. -/
theorem condition_of_error {error : DataTableError} (herror : st.transaction e = .error error) :
    Condition st e := by
  cases e with
  | lookup columnId => trivial
  | addColumn id schema accepted =>
    intro haccepted hsystem hunique requested hsome hpos hlt
    have hmin : requestedIndex st.columns schema = min requested st.columns.size := by
      rw [requestedIndex, hsome]
    have hindex : normalizeAddColumnIndex schema.index st.columns.size = .ok requested := by
      refine normalizeAddColumnIndex_eq_ok.mpr ⟨?_, hpos.le⟩
      rw [hmin, min_eq_left hlt.le]
    have hok := addColumn_eq_ok.mpr
      ⟨haccepted, hsystem, hunique, requested, hindex, (rfl : addedColumns _ id _ _ = _)⟩
    exact nomatch herror.symm.trans hok
  | deleteColumn found accepted =>
    intro haccepted
    exact nomatch herror.symm.trans (deleteColumn_eq_ok.mpr ⟨haccepted, rfl⟩)
  | moveColumn found target accepted =>
    intro haccepted hlt
    exact nomatch herror.symm.trans (moveColumn_eq_ok.mpr ⟨haccepted, hlt, rfl⟩)

theorem Sound.not_consecutive_of_step (h : Sound st) (hnot : ¬ Condition st e)
    (hstep : st.Step e st') : ¬ Consecutive st'.columns := by
  obtain ⟨hadmits, rfl⟩ := hstep
  cases htransaction : st.transaction e with
  | error error => exact absurd (condition_of_error htransaction) hnot
  | ok columns' => exact (h.transaction hadmits htransaction).2 hnot

/-- **When the columns stay in order.** In every run from a table in order, the columns have the
positions `0`, …, `n - 1` in every state, and every transaction that succeeds puts its column where
it was asked to and leaves the others in their order, if and only if every move and every deletion
finds that its index still serves and every new column gets a whole number. -/
theorem staysConsecutive_iff (table : Table) {st : State}
    (run : Transition.Run State.Step table.state st) :
    run.Visits (fun st => Consecutive st.columns) ∧ run.Takes StepOk ↔ run.Takes Condition := by
  have hstart : Sound table.state :=
    ⟨table.consecutive, fun _ hcolumn => absurd hcolumn List.not_mem_nil⟩
  have hexact : run.Visits (fun st => Consecutive st.columns) ↔ run.Takes Condition :=
    Transition.Run.visits_iff_takes (I := Sound) (fun _ h => h.consecutive)
      (fun _ _ _ h hcond hstep => h.step hcond hstep)
      (fun _ _ _ h hnot hstep => h.not_consecutive_of_step hnot hstep) hstart run
  refine ⟨fun h => hexact.mp h.1, fun h => ⟨hexact.mpr h, ?_⟩⟩
  have hsound : run.Visits Sound := Transition.Run.visits_of_takes
    (fun _ _ _ h hcond hstep => h.step hcond hstep) hstart run h
  have hboth := (Transition.Run.takes_of_visits (C := fun st _ => Sound st) (fun _ _ h => h)
    hsound).and h
  have hstepOk : run.Takes fun st e => (Sound st ∧ Condition st e) ∧ StepOk st e :=
    (Transition.Run.takes_congr fun _ _ _ hstep =>
      (and_iff_left_of_imp fun h => h.1.stepOk hstep.1 h.2).symm).mp hboth
  exact hstepOk.mono fun _ _ h => h.2

/-! ### Two moves of one column -/

/-- Three columns in order. -/
private def threeColumns : Table where
  columns := ((InsertionMap.empty.set "a" ⟨"A", 0⟩).set "b" ⟨"B", 1⟩).set "c" ⟨"C", 2⟩
  consecutive := .of_eq (by decide +kernel)

/-- The last column, as both moves find it. -/
private def lastColumn : FoundColumn where
  id := "c"
  name := "C"
  index := 2

/-- Both calls move the last column to the front, and both have looked it up before. The second one
leaves the other two columns at one index. -/
theorem not_staysConsecutive_twoMoves :
    ∃ (st : State) (run : Transition.Run State.Step threeColumns.state st),
      run.labels = [.lookup "c", .lookup "c", .moveColumn lastColumn 0 true,
        .moveColumn lastColumn 0 true] ∧ ¬ run.Visits fun st => Consecutive st.columns := by
  have hfound : lastColumn ∈ [lastColumn, lastColumn] := List.mem_cons_self
  refine ⟨_, .head (.lookup "c") ⟨trivial, rfl⟩ (.head (.lookup "c") ⟨trivial, rfl⟩
    (.head (.moveColumn lastColumn 0 true) ⟨hfound, rfl⟩
      (.head (.moveColumn lastColumn 0 true) ⟨hfound, rfl⟩ (.refl _)))), rfl, fun h => ?_⟩
  let columns := movedColumns (movedColumns threeColumns.columns lastColumn 0) lastColumn 0
  have hlast : Consecutive columns := h.last
  have ha : columns.get? "a" = some ⟨"A", 2⟩ := by decide +kernel
  have hb : columns.get? "b" = some ⟨"B", 2⟩ := by decide +kernel
  have heq : "a" = "b" := hlast.inj ha hb rfl
  exact absurd heq (by decide)

end N8n.DataTables
