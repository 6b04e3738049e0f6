import Mathlib.Algebra.Group.Nat.Defs
import Mathlib.Data.List.Lex
import Mathlib.Data.List.Sort
import N8n.Foundations.JsonParse

/-!
# The text that a workflow checksum is made of

`calculateWorkflowChecksum` hashes the JSON text of some fields of a workflow, with the keys of each
object in order. The object with its keys in order is made by assignments, so that an entry with the
key `__proto__` gets lost: it sets the prototype.

Up to this the text is canonical (`serializedPayload_eq_iff`); `isCanonical_iff` says for which two
snapshots it tells exactly whether they are equal up to the order of keys.
-/

namespace N8n

namespace WorkflowChecksum

open JsonTree (parse_text)

variable {ν : Type*}

/-! ### The order of keys -/

def utf16 (c : Char) : List ℕ :=
  if c.toNat < 0x10000 then [c.toNat]
  else [0xd800 + (c.toNat - 0x10000) / 0x400, 0xdc00 + (c.toNat - 0x10000) % 0x400]

/-- The code units of a string, by which strings are compared. -/
def codeUnits (s : List Char) : List ℕ := s.flatMap utf16

def keyLe (a b : List Char × JsonTree ν) : Bool := codeUnits a.1 ≤ codeUnits b.1

/-- A key that is the decimal number of an element. -/
def isArrayIndex (key : List Char) : Bool :=
  key ≠ [] && key.all Char.isDigit && (key = ['0'] || key.head? ≠ some '0') &&
    Nat.ofDigitChars 10 key 0 < 2 ^ 32 - 1

/-- The entries of an object, in the order in which they are listed: those at array indexes first,
the other ones as they were assigned. -/
def listed (assigned : List (List Char × JsonTree ν)) : List (List Char × JsonTree ν) :=
  (assigned.filter fun field => isArrayIndex field.1).mergeSort
      (fun a b => Nat.ofDigitChars 10 a.1 0 ≤ Nat.ofDigitChars 10 b.1 0) ++
    assigned.filter fun field => !isArrayIndex field.1

/-- The entries that an object gets by assignment: the prototype is none of them. -/
def ownFields (fields : List (List Char × JsonTree ν)) : List (List Char × JsonTree ν) :=
  fields.filter fun field => field.1 ≠ "__proto__".toList

mutual

def sortObjectKeys : JsonTree ν → JsonTree ν
  | .arr items => .arr (sortItems items)
  | .obj fields => .obj (listed ((ownFields (sortFields fields)).mergeSort keyLe))
  | value => value

def sortItems : List (JsonTree ν) → List (JsonTree ν)
  | [] => []
  | item :: items => sortObjectKeys item :: sortItems items

def sortFields : List (List Char × JsonTree ν) → List (List Char × JsonTree ν)
  | [] => []
  | (key, value) :: fields => (key, sortObjectKeys value) :: sortFields fields

end

/-! ### Snapshots -/

inductive ChecksumField where
  | name | description | nodes | connections | settings | metadata | pinData | isArchived
  | activeVersionId | nodeGroups
  deriving DecidableEq

def ChecksumField.text : ChecksumField → List Char
  | name => "name".toList
  | description => "description".toList
  | nodes => "nodes".toList
  | connections => "connections".toList
  | settings => "settings".toList
  | metadata => "meta".toList
  | pinData => "pinData".toList
  | isArchived => "isArchived".toList
  | activeVersionId => "activeVersionId".toList
  | nodeGroups => "nodeGroups".toList

def workflowChecksumFields : List ChecksumField :=
  [.name, .description, .nodes, .connections, .settings, .metadata, .pinData, .isArchived,
    .activeVersionId, .nodeGroups]

variable (N : Numerals ν)

/-- The fields of a workflow that count, with values of JSON where they are not undefined. -/
abbrev WorkflowSnapshot := ChecksumField → Option { value : JsonTree ν // value.IsJson N }

variable {N}

/-- The fields that are not undefined. -/
def payloadFields (workflow : ChecksumField → Option (JsonTree ν)) :
    List (List Char × JsonTree ν) :=
  workflowChecksumFields.filterMap fun field =>
    (workflow field).map fun value => (field.text, value)

def checksumPayload (workflow : WorkflowSnapshot N) : JsonTree ν :=
  .obj (payloadFields fun field => (workflow field).map Subtype.val)

/-- The text that `calculateWorkflowChecksum` hashes. -/
def serializedPayload (workflow : WorkflowSnapshot N) : List Char :=
  (sortObjectKeys (checksumPayload workflow)).text N

/-! ### Equality up to the order of keys -/

mutual

/-- The values are equal up to the order of keys. -/
def Same : JsonTree ν → JsonTree ν → Prop
  | .null, .null => True
  | .bool b, .bool b' => b = b'
  | .num n, .num n' => n = n'
  | .str s, .str s' => s = s'
  | .arr items, .arr items' => SameItems items items'
  | .obj fields, .obj fields' =>
    SameFields fields fields' ∧ ∀ key ∈ fields'.map Prod.fst, key ∈ fields.map Prod.fst
  | _, _ => False

def SameItems : List (JsonTree ν) → List (JsonTree ν) → Prop
  | [], [] => True
  | item :: items, item' :: items' => Same item item' ∧ SameItems items items'
  | _, _ => False

/-- The entries are among the other ones. -/
def SameFields : List (List Char × JsonTree ν) → List (List Char × JsonTree ν) → Prop
  | [], _ => True
  | (key, value) :: fields, fields' =>
    (∃ value', (key, value') ∈ fields' ∧ Same value value') ∧ SameFields fields fields'

end

mutual

/-- The value without the entries that have the key `__proto__`. -/
def withoutProto : JsonTree ν → JsonTree ν
  | .arr items => .arr (itemsWithoutProto items)
  | .obj fields => .obj (ownFields (fieldsWithoutProto fields))
  | value => value

def itemsWithoutProto : List (JsonTree ν) → List (JsonTree ν)
  | [] => []
  | item :: items => withoutProto item :: itemsWithoutProto items

def fieldsWithoutProto :
    List (List Char × JsonTree ν) → List (List Char × JsonTree ν)
  | [] => []
  | (key, value) :: fields => (key, withoutProto value) :: fieldsWithoutProto fields

end

/-- Two fields are both undefined, or equal up to the order of keys. -/
def SameField : Option (JsonTree ν) → Option (JsonTree ν) → Prop
  | none, none => True
  | some value, some value' => Same value value'
  | _, _ => False

/-- The text tells whether the fields that count are equal up to the order of keys. -/
def IsCanonical (workflow workflow' : WorkflowSnapshot N) : Prop :=
  serializedPayload workflow = serializedPayload workflow' ↔
    ∀ field, SameField ((workflow field).map Subtype.val) ((workflow' field).map Subtype.val)

/-! ### Code units -/

theorem codeUnits_injective : Function.Injective codeUnits := by
  have hvalid (c : Char) : c.toNat < 0xd800 ∨ 0xdfff < c.toNat ∧ c.toNat < 0x110000 := c.valid
  intro s t h
  induction s generalizing t with
  | nil =>
    cases t with
    | nil => rfl
    | cons d t =>
      rw [codeUnits, codeUnits, List.flatMap_nil, List.flatMap_cons, utf16] at h
      split_ifs at h <;> exact nomatch h
  | cons c s ih =>
    cases t with
    | nil =>
      rw [codeUnits, codeUnits, List.flatMap_nil, List.flatMap_cons, utf16] at h
      split_ifs at h <;> exact nomatch h
    | cons d t =>
      have hc := hvalid c
      have hd := hvalid d
      rw [codeUnits, codeUnits, List.flatMap_cons, List.flatMap_cons, utf16, utf16] at h
      -- the first unit says whether the character takes one unit or two
      split_ifs at h with hc' hd' hd'
      · obtain ⟨hhead, htail⟩ := List.cons.inj h
        rw [Char.toNat_inj.mp hhead, ih htail]
      · have hhead := (List.cons.inj h).1
        omega
      · have hhead := (List.cons.inj h).1
        omega
      · obtain ⟨hhigh, h⟩ := List.cons.inj h
        obtain ⟨hlow, htail⟩ := List.cons.inj h
        have hchar : c.toNat = d.toNat := by omega
        rw [Char.toNat_inj.mp hchar, ih htail]

/-! ### Values as lists of values -/

theorem sortItems_eq_map (items : List (JsonTree ν)) :
    sortItems items = items.map sortObjectKeys := by
  induction items with
  | nil => rfl
  | cons item items ih => rw [sortItems, ih, List.map_cons]

theorem sortFields_eq_map (fields : List (List Char × JsonTree ν)) :
    sortFields fields = fields.map (Prod.map id sortObjectKeys) := by
  induction fields with
  | nil => rfl
  | cons field fields ih => rw [sortFields, ih, List.map_cons, Prod.map_apply, id]

theorem itemsWithoutProto_eq_map (items : List (JsonTree ν)) :
    itemsWithoutProto items = items.map withoutProto := by
  induction items with
  | nil => rfl
  | cons item items ih => rw [itemsWithoutProto, ih, List.map_cons]

theorem fieldsWithoutProto_eq_map (fields : List (List Char × JsonTree ν)) :
    fieldsWithoutProto fields = fields.map (Prod.map id withoutProto) := by
  induction fields with
  | nil => rfl
  | cons field fields ih => rw [fieldsWithoutProto, ih, List.map_cons, Prod.map_apply, id]

theorem sameItems_iff (items items' : List (JsonTree ν)) :
    SameItems items items' ↔ List.Forall₂ Same items items' := by
  induction items generalizing items' with
  | nil => cases items' <;> simp [SameItems]
  | cons item items ih => cases items' <;> simp [SameItems, ih]

theorem sameFields_iff (fields fields' : List (List Char × JsonTree ν)) :
    SameFields fields fields' ↔
      ∀ key value, (key, value) ∈ fields →
        ∃ value', (key, value') ∈ fields' ∧ Same value value' := by
  induction fields with
  | nil => exact iff_of_true trivial nofun
  | cons field fields ih =>
    rw [SameFields, ih]
    constructor
    · rintro ⟨hfield, hfields⟩ key value hmem
      obtain rfl | hmem := List.mem_cons.mp hmem
      · exact hfield
      · exact hfields key value hmem
    · exact fun h => ⟨h _ _ List.mem_cons_self,
        fun key value hmem => h key value (List.mem_cons_of_mem _ hmem)⟩

theorem itemsAreJson_iff (items : List (JsonTree ν)) :
    JsonTree.ItemsAreJson N items ↔ ∀ item ∈ items, item.IsJson N := by
  induction items with
  | nil => exact iff_of_true trivial nofun
  | cons item items ih => rw [JsonTree.ItemsAreJson, ih, List.forall_mem_cons]

theorem fieldsAreJson_iff (fields : List (List Char × JsonTree ν)) :
    JsonTree.FieldsAreJson N fields ↔ ∀ key value, (key, value) ∈ fields → value.IsJson N := by
  induction fields with
  | nil => exact iff_of_true trivial nofun
  | cons field fields ih =>
    rw [JsonTree.FieldsAreJson, ih]
    constructor
    · rintro ⟨hfield, hfields⟩ key value hmem
      obtain rfl | hmem := List.mem_cons.mp hmem
      · exact hfield
      · exact hfields key value hmem
    · exact fun h => ⟨h _ _ List.mem_cons_self,
        fun key value hmem => h key value (List.mem_cons_of_mem _ hmem)⟩

/-- Induction over the values of JSON. -/
theorem induction {P : JsonTree ν → Prop} (null : P .null) (bool : ∀ b, P (.bool b))
    (num : ∀ n, P (.num n)) (str : ∀ s, P (.str s))
    (arr : ∀ items, (∀ item ∈ items, P item) → P (.arr items))
    (obj : ∀ fields, (∀ key value, (key, value) ∈ fields → P value) → P (.obj fields)) :
    ∀ value, P value
  | .null => null
  | .bool b => bool b
  | .num n => num n
  | .str s => str s
  | .arr items => arr items fun item _ => induction null bool num str arr obj item
  | .obj fields => obj fields fun key value hmem => by
    have hlt : sizeOf value < sizeOf fields := by
      have hpair := List.sizeOf_lt_of_mem hmem
      rw [Prod.mk.sizeOf_spec] at hpair
      omega
    exact induction null bool num str arr obj value
decreasing_by
  · have hlt := List.sizeOf_lt_of_mem ‹_›
    rw [JsonTree.arr.sizeOf_spec]
    omega
  · rw [JsonTree.obj.sizeOf_spec]
    omega

/-! ### Entries in order -/

/-- The entries that are left, in order. -/
def arranged (fields : List (List Char × JsonTree ν)) : List (List Char × JsonTree ν) :=
  listed (fields.mergeSort keyLe)

theorem arranged_perm (fields : List (List Char × JsonTree ν)) : (arranged fields).Perm fields := by
  rw [arranged, listed]
  refine List.Perm.trans ?_ (List.mergeSort_perm fields keyLe)
  refine ((List.mergeSort_perm _ _).append_right _).trans ?_
  exact List.filter_append_perm (fun field : List Char × JsonTree ν => isArrayIndex field.1) _

/-- Entries with different keys are put in the same order, whatever order they had. -/
theorem arranged_eq_iff {fields fields' : List (List Char × JsonTree ν)}
    (h : (fields.map Prod.fst).Nodup) :
    arranged fields = arranged fields' ↔ fields.Perm fields' := by
  constructor
  · intro heq
    exact (arranged_perm fields).symm.trans (heq ▸ arranged_perm fields')
  · intro hperm
    have htrans (a b c : List Char × JsonTree ν) : keyLe a b → keyLe b c → keyLe a c := by
      simp only [keyLe, decide_eq_true_eq]
      exact fun hab hbc => le_trans hab hbc
    have htotal (a b : List Char × JsonTree ν) : keyLe a b || keyLe b a := by
      simp only [keyLe, Bool.or_eq_true, decide_eq_true_eq]
      exact le_total _ _
    have hsorted : fields.mergeSort keyLe = fields'.mergeSort keyLe := by
      refine List.Perm.eq_of_pairwise (fun a b ha hb hab hba => ?_)
        (List.pairwise_mergeSort htrans htotal fields)
        (List.pairwise_mergeSort htrans htotal fields')
        ((List.mergeSort_perm fields keyLe).trans
          (hperm.trans (List.mergeSort_perm fields' keyLe).symm))
      have hkey : a.1 = b.1 :=
        codeUnits_injective (le_antisymm (of_decide_eq_true hab) (of_decide_eq_true hba))
      exact List.inj_on_of_nodup_map h (List.mem_mergeSort.mp ha)
        (hperm.mem_iff.mpr (List.mem_mergeSort.mp hb)) hkey
    rw [arranged, hsorted, arranged]

theorem mem_ownFields {fields : List (List Char × JsonTree ν)} {field : List Char × JsonTree ν} :
    field ∈ ownFields fields ↔ field ∈ fields ∧ field.1 ≠ "__proto__".toList := by
  rw [ownFields, List.mem_filter, decide_eq_true_eq]

theorem mem_ownFields_map {f : JsonTree ν → JsonTree ν} {fields : List (List Char × JsonTree ν)}
    {key : List Char} {value : JsonTree ν} :
    (key, value) ∈ ownFields (fields.map (Prod.map id f)) ↔
      key ≠ "__proto__".toList ∧ ∃ value', (key, value') ∈ fields ∧ f value' = value := by
  rw [mem_ownFields, List.mem_map, and_comm]
  refine and_congr_right fun _ => ⟨?_, ?_⟩
  · rintro ⟨⟨key', value'⟩, hmem, heq⟩
    obtain ⟨rfl, rfl⟩ := Prod.mk.inj heq
    exact ⟨value', hmem, rfl⟩
  · rintro ⟨value', hmem, rfl⟩
    exact ⟨(key, value'), hmem, rfl⟩

theorem nodup_ownFields_map {f : JsonTree ν → JsonTree ν} {fields : List (List Char × JsonTree ν)}
    (h : (fields.map Prod.fst).Nodup) :
    ((ownFields (fields.map (Prod.map id f))).map Prod.fst).Nodup := by
  have hkeys : (fields.map (Prod.map id f)).map Prod.fst = fields.map Prod.fst := by
    rw [List.map_map]
    rfl
  exact (hkeys ▸ h).sublist (List.filter_sublist.map Prod.fst)

/-! ### Canonical values -/

theorem isJson_sortObjectKeys {value : JsonTree ν} (h : value.IsJson N) :
    (sortObjectKeys value).IsJson N := by
  induction value using induction with
  | null | bool | num | str => exact h
  | arr items ih =>
    rw [JsonTree.IsJson, itemsAreJson_iff] at h
    rw [sortObjectKeys, JsonTree.IsJson, itemsAreJson_iff, sortItems_eq_map]
    intro item hitem
    obtain ⟨item, hmem, rfl⟩ := List.mem_map.mp hitem
    exact ih item hmem (h item hmem)
  | obj fields ih =>
    rw [JsonTree.IsJson, fieldsAreJson_iff] at h
    rw [sortObjectKeys, JsonTree.IsJson, fieldsAreJson_iff, sortFields_eq_map, ← arranged]
    have hperm := arranged_perm (ownFields (fields.map (Prod.map id sortObjectKeys)))
    refine ⟨(hperm.map Prod.fst).nodup_iff.mpr (nodup_ownFields_map h.1), fun key value hmem => ?_⟩
    obtain ⟨-, value', hmem', rfl⟩ := mem_ownFields_map.mp (hperm.mem_iff.mp hmem)
    exact ih key value' hmem' (h.2 key value' hmem')

theorem forall₂_congr {α β : Type*} {R R' : α → β → Prop} {l : List α} {l' : List β}
    (h : ∀ a ∈ l, ∀ b ∈ l', R a b ↔ R' a b) : List.Forall₂ R l l' ↔ List.Forall₂ R' l l' := by
  induction l generalizing l' with
  | nil => cases l' <;> simp
  | cons a l ih =>
    cases l' with
    | nil => simp
    | cons b l' =>
      rw [List.forall₂_cons, List.forall₂_cons, h a List.mem_cons_self b List.mem_cons_self,
        ih fun a ha b hb => h a (List.mem_cons_of_mem _ ha) b (List.mem_cons_of_mem _ hb)]

/-- **Canonicity**: values in order are equal exactly when the values are equal up to the order of
keys, but for entries with the key `__proto__`. -/
theorem sortObjectKeys_eq_iff {value value' : JsonTree ν} (h : value.IsJson N)
    (h' : value'.IsJson N) : sortObjectKeys value = sortObjectKeys value' ↔
      Same (withoutProto value) (withoutProto value') := by
  induction value using induction generalizing value' with
  | null => cases value' <;> simp [sortObjectKeys, withoutProto, Same]
  | bool b => cases value' <;> simp [sortObjectKeys, withoutProto, Same]
  | num n => cases value' <;> simp [sortObjectKeys, withoutProto, Same]
  | str s => cases value' <;> simp [sortObjectKeys, withoutProto, Same]
  | arr items ih =>
    cases value' with
    | arr items' =>
      rw [JsonTree.IsJson, itemsAreJson_iff] at h h'
      have hitems : List.Forall₂ (fun a b => sortObjectKeys a = sortObjectKeys b) items items' ↔
          List.Forall₂ (fun a b => Same (withoutProto a) (withoutProto b)) items items' :=
        forall₂_congr fun a ha b hb => ih a ha (h a ha) (h' b hb)
      rw [sortObjectKeys, sortObjectKeys, withoutProto, withoutProto, Same, sameItems_iff,
        JsonTree.arr.injEq, sortItems_eq_map, sortItems_eq_map, itemsWithoutProto_eq_map,
        itemsWithoutProto_eq_map, List.forall₂_map_left_iff, List.forall₂_map_right_iff, ← hitems,
        ← List.forall₂_eq_eq_eq, List.forall₂_map_left_iff, List.forall₂_map_right_iff]
    | _ => simp [sortObjectKeys, withoutProto, Same]
  | obj fields ih =>
    cases value' with
    | obj fields' =>
      rw [JsonTree.IsJson, fieldsAreJson_iff] at h h'
      have hnodup := nodup_ownFields_map (f := sortObjectKeys) h.1
      have hnodup' := nodup_ownFields_map (f := sortObjectKeys) h'.1
      rw [sortObjectKeys, sortObjectKeys, withoutProto, withoutProto, Same, sameFields_iff,
        JsonTree.obj.injEq, sortFields_eq_map, sortFields_eq_map, fieldsWithoutProto_eq_map,
        fieldsWithoutProto_eq_map, ← arranged, ← arranged, arranged_eq_iff hnodup,
        List.perm_ext_iff_of_nodup (List.Nodup.of_map _ hnodup) (List.Nodup.of_map _ hnodup')]
      constructor
      · intro hsame
        refine ⟨fun key value hmem => ?_, fun key hkey => ?_⟩
        · obtain ⟨hne, v, hv, rfl⟩ := mem_ownFields_map.mp hmem
          obtain ⟨-, w, hw, heq⟩ := mem_ownFields_map.mp
            ((hsame (key, sortObjectKeys v)).mp (mem_ownFields_map.mpr ⟨hne, v, hv, rfl⟩))
          exact ⟨withoutProto w, mem_ownFields_map.mpr ⟨hne, w, hw, rfl⟩,
            (ih key v hv (h.2 key v hv) (h'.2 key w hw)).mp heq.symm⟩
        · obtain ⟨⟨key, value⟩, hmem, rfl⟩ := List.mem_map.mp hkey
          obtain ⟨hne, w, hw, -⟩ := mem_ownFields_map.mp hmem
          obtain ⟨-, v, hv, -⟩ := mem_ownFields_map.mp
            ((hsame (key, sortObjectKeys w)).mpr (mem_ownFields_map.mpr ⟨hne, w, hw, rfl⟩))
          exact List.mem_map.mpr ⟨_, mem_ownFields_map.mpr ⟨hne, v, hv, rfl⟩, rfl⟩
      · -- each entry of the first object is one of the second
        rintro ⟨hfields, hkeys⟩ ⟨key, value⟩
        have hentry {v : JsonTree ν} (hne : key ≠ "__proto__".toList) (hv : (key, v) ∈ fields) :
            ∃ w, (key, w) ∈ fields' ∧ sortObjectKeys v = sortObjectKeys w := by
          obtain ⟨value', hmem, hsame⟩ :=
            hfields key (withoutProto v) (mem_ownFields_map.mpr ⟨hne, v, hv, rfl⟩)
          obtain ⟨-, w, hw, rfl⟩ := mem_ownFields_map.mp hmem
          exact ⟨w, hw, (ih key v hv (h.2 key v hv) (h'.2 key w hw)).mpr hsame⟩
        rw [mem_ownFields_map, mem_ownFields_map]
        refine and_congr_right fun hne => ⟨?_, ?_⟩
        · rintro ⟨v, hv, rfl⟩
          obtain ⟨w, hw, heq⟩ := hentry hne hv
          exact ⟨w, hw, heq.symm⟩
        · rintro ⟨w, hw, rfl⟩
          obtain ⟨⟨key', value'⟩, hmem, rfl⟩ := List.mem_map.mp (hkeys key
            (List.mem_map.mpr ⟨_, mem_ownFields_map.mpr ⟨hne, w, hw, rfl⟩, rfl⟩))
          obtain ⟨-, v, hv, -⟩ := mem_ownFields_map.mp hmem
          obtain ⟨w', hw', heq⟩ := hentry hne hv
          have hkey : w' = w := by
            have hpair := List.inj_on_of_nodup_map h'.1 hw' hw rfl
            exact (Prod.mk.inj hpair).2
          exact ⟨v, hv, hkey ▸ heq⟩
    | _ => simp [sortObjectKeys, withoutProto, Same]

/-! ### Snapshots -/

theorem mem_workflowChecksumFields (field : ChecksumField) : field ∈ workflowChecksumFields := by
  cases field <;> decide

theorem nodup_fieldNames : (workflowChecksumFields.map ChecksumField.text).Nodup := by decide

theorem mem_payloadFields {workflow : ChecksumField → Option (JsonTree ν)} {key : List Char}
    {value : JsonTree ν} : (key, value) ∈ payloadFields workflow ↔
      ∃ field : ChecksumField, field.text = key ∧ workflow field = some value := by
  rw [payloadFields, List.mem_filterMap]
  constructor
  · rintro ⟨field, -, h⟩
    obtain ⟨v, hv, heq⟩ := Option.map_eq_some_iff.mp h
    obtain ⟨rfl, rfl⟩ := Prod.mk.inj heq
    exact ⟨field, rfl, hv⟩
  · rintro ⟨field, rfl, h⟩
    exact ⟨field, mem_workflowChecksumFields field, by rw [h]; rfl⟩

theorem nodup_payloadFields (workflow : ChecksumField → Option (JsonTree ν)) :
    ((payloadFields workflow).map Prod.fst).Nodup := by
  have hsublist (l : List ChecksumField) : ((l.filterMap fun field =>
      (workflow field).map fun value => (field.text, value)).map Prod.fst).Sublist
        (l.map ChecksumField.text) := by
    induction l with
    | nil => exact List.Sublist.refl _
    | cons field l ih =>
      cases h : workflow field with
      | none =>
        rw [List.filterMap_cons_none (by rw [h]; rfl), List.map_cons]
        exact ih.cons _
      | some value =>
        rw [List.filterMap_cons_some (by rw [h]; rfl), List.map_cons, List.map_cons]
        exact ih.cons_cons _
  exact nodup_fieldNames.sublist (hsublist workflowChecksumFields)

theorem isJson_checksumPayload (workflow : WorkflowSnapshot N) :
    (checksumPayload workflow).IsJson N := by
  rw [checksumPayload, JsonTree.IsJson, fieldsAreJson_iff]
  refine ⟨nodup_payloadFields _, fun key value hmem => ?_⟩
  obtain ⟨field, -, h⟩ := mem_payloadFields.mp hmem
  obtain ⟨v, -, rfl⟩ := Option.map_eq_some_iff.mp h
  exact v.2

theorem same_payloadFields_iff (workflow workflow' : ChecksumField → Option (JsonTree ν)) :
    Same (.obj (payloadFields workflow)) (.obj (payloadFields workflow')) ↔
      ∀ field, SameField (workflow field) (workflow' field) := by
  have hinj {f g : ChecksumField} (h : f.text = g.text) : f = g :=
    List.inj_on_of_nodup_map nodup_fieldNames (mem_workflowChecksumFields f)
      (mem_workflowChecksumFields g) h
  rw [Same, sameFields_iff]
  constructor
  · rintro ⟨hfields, hkeys⟩ field
    cases h : workflow field with
    | some v =>
      obtain ⟨v', hmem, hsame⟩ := hfields field.text v (mem_payloadFields.mpr ⟨field, rfl, h⟩)
      obtain ⟨field', htext, h'⟩ := mem_payloadFields.mp hmem
      rw [← hinj htext, h']
      exact hsame
    | none =>
      cases h' : workflow' field with
      | none => trivial
      | some v' =>
        obtain ⟨⟨key, v⟩, hmem, hkey⟩ := List.mem_map.mp (hkeys field.text
          (List.mem_map.mpr ⟨_, mem_payloadFields.mpr ⟨field, rfl, h'⟩, rfl⟩))
        obtain ⟨field', htext, hv⟩ := mem_payloadFields.mp hmem
        rw [hinj (htext.trans hkey), h] at hv
        exact nomatch hv
  · intro hall
    refine ⟨fun key value hmem => ?_, fun key hkey => ?_⟩
    · obtain ⟨field, rfl, h⟩ := mem_payloadFields.mp hmem
      have hfield := hall field
      rw [h] at hfield
      cases h' : workflow' field with
      | none =>
        rw [h'] at hfield
        exact hfield.elim
      | some v' =>
        rw [h'] at hfield
        exact ⟨v', mem_payloadFields.mpr ⟨field, rfl, h'⟩, hfield⟩
    · obtain ⟨⟨key, v'⟩, hmem, rfl⟩ := List.mem_map.mp hkey
      obtain ⟨field, rfl, h'⟩ := mem_payloadFields.mp hmem
      have hfield := hall field
      rw [h'] at hfield
      cases h : workflow field with
      | none =>
        rw [h] at hfield
        exact hfield.elim
      | some v =>
        exact List.mem_map.mpr ⟨_, mem_payloadFields.mpr ⟨field, rfl, h⟩, rfl⟩

theorem withoutProto_checksumPayload (workflow : WorkflowSnapshot N) :
    withoutProto (checksumPayload workflow) =
      .obj (payloadFields fun field => (workflow field).map fun value => withoutProto value.1) := by
  rw [checksumPayload, withoutProto, fieldsWithoutProto_eq_map, JsonTree.obj.injEq, ownFields,
    payloadFields, payloadFields, List.map_filterMap]
  refine (List.filter_eq_self.mpr fun field hmem => ?_).trans ?_
  · have hnames : workflowChecksumFields.all
        (fun field => field.text ≠ "__proto__".toList) = true := by decide
    obtain ⟨f, hf, h⟩ := List.mem_filterMap.mp hmem
    obtain ⟨value, -, rfl⟩ := Option.map_eq_some_iff.mp ((Option.map_map _ _ _).symm.trans h)
    exact List.all_eq_true.mp hnames f hf
  · congr 1
    funext field
    cases workflow field <;> rfl

/-- **What the text tells**: whether the fields are equal up to the order of keys, but for entries
with the key `__proto__`. -/
theorem serializedPayload_eq_iff (workflow workflow' : WorkflowSnapshot N) :
    serializedPayload workflow = serializedPayload workflow' ↔
      ∀ field, SameField ((workflow field).map fun value => withoutProto value.1)
        ((workflow' field).map fun value => withoutProto value.1) := by
  rw [← same_payloadFields_iff, ← withoutProto_checksumPayload, ← withoutProto_checksumPayload,
    ← sortObjectKeys_eq_iff (isJson_checksumPayload workflow) (isJson_checksumPayload workflow'),
    serializedPayload, serializedPayload]
  refine ⟨fun h => Option.some.inj ?_, congrArg _⟩
  rw [← parse_text (isJson_sortObjectKeys (isJson_checksumPayload workflow)), h,
    parse_text (isJson_sortObjectKeys (isJson_checksumPayload workflow'))]

theorem Same.withoutProto {value value' : JsonTree ν} (h : Same value value') :
    Same (withoutProto value) (withoutProto value') := by
  induction value using induction generalizing value' with
  | null | bool | num | str => cases value' <;> exact h
  | arr items ih =>
    cases value' with
    | arr items' =>
      rw [Same, sameItems_iff] at h
      rw [WorkflowChecksum.withoutProto, WorkflowChecksum.withoutProto, Same, sameItems_iff,
        itemsWithoutProto_eq_map, itemsWithoutProto_eq_map, List.forall₂_map_left_iff,
        List.forall₂_map_right_iff]
      have hboth : List.Forall₂ (fun a b => a ∈ items ∧ Same a b) items items' :=
        (List.forall₂_and_left items items').mpr ⟨fun a ha => ha, h⟩
      exact hboth.imp fun a b hab => ih a hab.1 hab.2
    | _ => exact h.elim
  | obj fields ih =>
    cases value' with
    | obj fields' =>
      rw [Same, sameFields_iff] at h
      rw [WorkflowChecksum.withoutProto, WorkflowChecksum.withoutProto, Same, sameFields_iff,
        fieldsWithoutProto_eq_map, fieldsWithoutProto_eq_map]
      refine ⟨fun key value hmem => ?_, fun key hkey => ?_⟩
      · obtain ⟨hne, v, hv, rfl⟩ := mem_ownFields_map.mp hmem
        obtain ⟨w, hw, hsame⟩ := h.1 key v hv
        exact ⟨_, mem_ownFields_map.mpr ⟨hne, w, hw, rfl⟩, ih key v hv hsame⟩
      · obtain ⟨⟨key, value⟩, hmem, rfl⟩ := List.mem_map.mp hkey
        obtain ⟨hne, w, hw, -⟩ := mem_ownFields_map.mp hmem
        obtain ⟨⟨key', v⟩, hv, heq⟩ := List.mem_map.mp (h.2 key (List.mem_map.mpr ⟨_, hw, rfl⟩))
        obtain rfl : key' = key := heq
        exact List.mem_map.mpr ⟨_, mem_ownFields_map.mpr ⟨hne, v, hv, rfl⟩, rfl⟩
    | _ => exact h.elim

/-- **For which snapshots the text is canonical**: those that do not differ only in entries with the
key `__proto__`. -/
theorem isCanonical_iff (workflow workflow' : WorkflowSnapshot N) :
    IsCanonical workflow workflow' ↔
      ((∀ field, SameField ((workflow field).map fun value => withoutProto value.1)
          ((workflow' field).map fun value => withoutProto value.1)) →
        ∀ field, SameField ((workflow field).map Subtype.val)
          ((workflow' field).map Subtype.val)) := by
  have hstrip : ∀ value? value'? : Option { value : JsonTree ν // value.IsJson N },
      SameField (value?.map Subtype.val) (value'?.map Subtype.val) →
        SameField (value?.map fun value => withoutProto value.1)
          (value'?.map fun value => withoutProto value.1) := by
    rintro (_ | value) (_ | value') h
    · exact h
    · exact h
    · exact h
    · exact Same.withoutProto h
  rw [IsCanonical, serializedPayload_eq_iff]
  exact ⟨Iff.mp, fun h => ⟨h, fun hall field => hstrip _ _ (hall field)⟩⟩

/-- A snapshot with an entry `__proto__` in its metadata. -/
def protoSnapshot (N : Numerals ν) : WorkflowSnapshot N := fun field =>
  if field = .metadata then
    some ⟨.obj [("__proto__".toList, .null)], by
      exact ⟨List.nodup_singleton "__proto__".toList, trivial, trivial⟩⟩
  else none

def emptySnapshot (N : Numerals ν) : WorkflowSnapshot N := fun field =>
  if field = .metadata then some ⟨.obj [], ⟨List.nodup_nil, trivial⟩⟩ else none

/-- The two have the same text. -/
theorem not_isCanonical_proto :
    ¬ IsCanonical (protoSnapshot Numerals.decimals) (emptySnapshot Numerals.decimals) := by
  intro h
  have hsame : Same (.obj [("__proto__".toList, (.null : JsonTree ℕ))]) (.obj []) :=
    (h.mp rfl) .metadata
  obtain ⟨⟨⟨value, hmem, -⟩, -⟩, -⟩ := hsame
  exact List.not_mem_nil hmem

end WorkflowChecksum

end N8n
