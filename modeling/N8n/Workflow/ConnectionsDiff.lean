import N8n.Foundations.InsertionSet
import N8n.Foundations.JsonText
import N8n.Workflow.Interfaces

/-!
# The differences between the connections of two versions

`compareConnections` lists the connections that were added and those that were removed, slot by
slot. It tells connections apart by their JSON text, which depends on the order in which the
properties of a connection were set. So the same connection can be listed as added and as removed,
and `exactDiff_iff` says when this happens. The lists are plain objects under the names of the
nodes: the changes at a node with the name of a member of `Object.prototype` are written to that
member instead.
-/

namespace N8n

namespace ConnectionsDiff

/-! ### Connections as objects -/

inductive ConnectionProperty where
  | node
  | type
  | index
  deriving DecidableEq, Repr

/-- A connection as an object, with its properties in the order in which they were set. -/
structure ConnectionObject where
  connection : IConnection
  properties : List ConnectionProperty
  properties_perm : properties.Perm [.node, .type, .index]
  deriving DecidableEq

/-- A property with its value. -/
def field (connection : IConnection) : ConnectionProperty → String × JsonValue
  | .node => ("node", .str connection.node)
  | .type => ("type", .str connection.type.toString)
  | .index => ("index", .num connection.index)

/-- `JSON.stringify` of a connection. -/
def ConnectionObject.stringify (o : ConnectionObject) : List Char :=
  (JsonValue.obj (o.properties.map (field o.connection))).text

theorem eq_of_field_eq {a b : IConnection} (h : ∀ p, field a p = field b p) : a = b := by
  obtain ⟨node, type, index⟩ := a
  obtain ⟨node', type', index'⟩ := b
  have hnode := h .node
  have htype := h .type
  have hindex := h .index
  simp only [field, Prod.mk.injEq, JsonValue.str.injEq, JsonValue.num.injEq, true_and]
    at hnode htype hindex
  rw [hnode, NodeConnectionType.toString_injective htype, Int.ofNat_inj.mp hindex]

/-- Objects with the same text are the same. -/
theorem stringify_injective : Function.Injective ConnectionObject.stringify := by
  intro a b h
  have hfields := JsonValue.obj.inj (JsonValue.text_injective h)
  have hkey (connection : IConnection) (p : ConnectionProperty) : (field connection p).1 =
      match p with | .node => "node" | .type => "type" | .index => "index" := by
    cases p <;> rfl
  have hkeys := congrArg (List.map Prod.fst) hfields
  simp only [List.map_map, Function.comp_def, hkey] at hkeys
  have hinjective : Function.Injective fun p : ConnectionProperty =>
      match p with | .node => "node" | .type => "type" | .index => "index" := by
    intro p q hpq
    cases p <;> cases q <;> first | rfl | exact absurd hpq (by decide)
  have hproperties := hinjective.list_map hkeys
  rw [← hproperties] at hfields
  have hconnection : a.connection = b.connection := by
    refine eq_of_field_eq fun p => List.map_inj_left.mp hfields p ?_
    refine a.properties_perm.mem_iff.mpr ?_
    cases p <;> decide
  obtain ⟨connection, properties, hperm⟩ := a
  obtain rfl : connection = b.connection := hconnection
  obtain rfl : properties = b.properties := hproperties
  rfl

/-! ### The function -/

/-- The connections of a workflow, with their objects. -/
abbrev ObjectConnections :=
  InsertionMap String (InsertionMap NodeConnectionType (List (Option (List ConnectionObject))))

/-- The `value` of an entry. -/
structure IndexedConnection where
  index : ℕ
  connection : ConnectionObject
  deriving DecidableEq

structure ConnectionEntry where
  sourceIndex : ℕ
  value : IndexedConnection
  deriving DecidableEq

abbrev INodeConnectionsDiff := InsertionMap NodeConnectionType (List ConnectionEntry)

abbrev Changes := InsertionMap String INodeConnectionsDiff

end ConnectionsDiff

open ConnectionsDiff

structure ConnectionsDiff where
  added : Changes
  removed : Changes
  deriving DecidableEq

namespace ConnectionsDiff

/-- `connections[nodeName] ?? {}`, of which the members of `Object.prototype` have nothing to show
either. -/
def connectionsOf (connections : ObjectConnections) (nodeName : String) :
    InsertionMap NodeConnectionType (List (Option (List ConnectionObject))) :=
  (connections.get? nodeName).getD .empty

/-- The connections of one output, none where any level is missing. -/
def slot (connections : ObjectConnections) (nodeName : String) (inputName : NodeConnectionType)
    (sourceIndex : ℕ) : List ConnectionObject :=
  (((connectionsOf connections nodeName).get? inputName).getD [])[sourceIndex]?.join.getD []

/-- The connections of a slot under their texts; the last one of a text counts. -/
def textMap (connections : List ConnectionObject) : InsertionMap (List Char) IndexedConnection :=
  connections.zipIdx.foldl (fun m e => m.set e.1.stringify ⟨e.2, e.1⟩) .empty

/-- Push an entry, in objects and arrays that are made where they are missing. A member of
`Object.prototype` is never missing, and takes the entry. -/
def push (nodeName : String) (inputName : NodeConnectionType) (changes : Changes)
    (entry : ConnectionEntry) : Changes :=
  if nodeName ∈ InsertionMap.inheritedKeys then changes
  else
    let byInput := (changes.get? nodeName).getD .empty
    changes.set nodeName (byInput.set inputName ((byInput.get? inputName).getD [] ++ [entry]))

/-- Push the connections of one map whose texts the other one does not have. -/
def pushMissing (nodeName : String) (inputName : NodeConnectionType) (sourceIndex : ℕ)
    (map other : InsertionMap (List Char) IndexedConnection) (changes : Changes) : Changes :=
  map.entries.foldl (fun changes e =>
    if other.has e.1 then changes else push nodeName inputName changes ⟨sourceIndex, e.2⟩) changes

/-- One output of one node. -/
def compareSlot (prev next : ObjectConnections) (diff : ConnectionsDiff)
    (place : String × NodeConnectionType × ℕ) : ConnectionsDiff :=
  let (nodeName, inputName, sourceIndex) := place
  let prevMap := textMap (slot prev nodeName inputName sourceIndex)
  let nextMap := textMap (slot next nodeName inputName sourceIndex)
  { added := pushMissing nodeName inputName sourceIndex nextMap prevMap diff.added
    removed := pushMissing nodeName inputName sourceIndex prevMap nextMap diff.removed }

/-- The outputs in the order of the loops over the nodes, the types and the indexes. -/
def places (prev next : ObjectConnections) : List (String × NodeConnectionType × ℕ) :=
  (InsertionSet.ofList (prev.ownKeys ++ next.ownKeys)).elements.flatMap fun nodeName =>
    let prevNodeConnections := connectionsOf prev nodeName
    let nextNodeConnections := connectionsOf next nodeName
    (InsertionSet.ofList (prevNodeConnections.keys ++ nextNodeConnections.keys)).elements.flatMap
      fun inputName =>
        let prevInputConnections := (prevNodeConnections.get? inputName).getD []
        let nextInputConnections := (nextNodeConnections.get? inputName).getD []
        (List.range (max prevInputConnections.length nextInputConnections.length)).map
          fun sourceIndex => (nodeName, inputName, sourceIndex)

end ConnectionsDiff

def compareConnections (prev next : ObjectConnections) : ConnectionsDiff :=
  (places prev next).foldl (compareSlot prev next) ⟨.empty, .empty⟩

namespace ConnectionsDiff

variable {prev next : ObjectConnections} {changes : Changes} {n nodeName : String}
  {t inputName : NodeConnectionType} {i : ℕ} {entry e : ConnectionEntry}

/-! ### What is pushed -/

/-- The entry is listed at the node and type. -/
def Lists (changes : Changes) (n : String) (t : NodeConnectionType) (e : ConnectionEntry) : Prop :=
  e ∈ (((changes.get? n).getD .empty).get? t).getD []

theorem not_lists_empty : ¬ Lists .empty n t e := List.not_mem_nil

theorem lists_push : Lists (push nodeName inputName changes entry) n t e ↔
    Lists changes n t e ∨
      nodeName ∉ InsertionMap.inheritedKeys ∧ n = nodeName ∧ t = inputName ∧ e = entry := by
  rw [push]
  split_ifs with hinherited
  · simp only [hinherited, not_true_eq_false, false_and, or_false]
  · dsimp only
    rw [Lists, InsertionMap.get?_set]
    by_cases hn : n = nodeName
    · subst hn
      rw [if_pos rfl, Option.getD_some, InsertionMap.get?_set]
      by_cases ht : t = inputName
      · subst ht
        rw [if_pos rfl, Option.getD_some, List.mem_append, List.mem_singleton]
        simp only [hinherited, not_false_eq_true, true_and]
        exact Iff.rfl
      · rw [if_neg ht]
        simp only [ht, false_and, and_false, or_false]
        exact Iff.rfl
    · rw [if_neg hn]
      simp only [hn, false_and, and_false, or_false]
      exact Iff.rfl

/-- An entry is pushed for what the one map has and the other does not. -/
theorem lists_pushMissing {map other : InsertionMap (List Char) IndexedConnection} :
    Lists (pushMissing nodeName inputName i map other changes) n t e ↔
      Lists changes n t e ∨
        (nodeName ∉ InsertionMap.inheritedKeys ∧ n = nodeName ∧ t = inputName ∧
          e.sourceIndex = i) ∧ ∃ key, (key, e.value) ∈ map.entries ∧ key ∉ other.keys := by
  have hfold : ∀ (l : List (List Char × IndexedConnection)) (changes : Changes),
      Lists (l.foldl (fun changes e => if other.has e.1 then changes else
        push nodeName inputName changes ⟨i, e.2⟩) changes) n t e ↔
      Lists changes n t e ∨
        (nodeName ∉ InsertionMap.inheritedKeys ∧ n = nodeName ∧ t = inputName ∧
          e.sourceIndex = i) ∧ ∃ key, (key, e.value) ∈ l ∧ key ∉ other.keys := by
    intro l
    induction l with
    | nil => simp
    | cons a l ih =>
      intro changes
      obtain ⟨key, value⟩ := a
      rw [List.foldl_cons, ih]
      by_cases hkey : other.has key = true
      · have hmem := InsertionMap.has_eq_true_iff.mp hkey
        rw [if_pos hkey]
        refine or_congr_right (and_congr_right fun _ => exists_congr fun k => ?_)
        rw [List.mem_cons, Prod.mk.injEq]
        refine ⟨fun h => ⟨.inr h.1, h.2⟩, fun h => ⟨h.1.resolve_left ?_, h.2⟩⟩
        rintro ⟨rfl, -⟩
        exact h.2 hmem
      · have hmem : key ∉ other.keys := fun h => hkey (InsertionMap.has_eq_true_iff.mpr h)
        rw [if_neg hkey, lists_push, or_assoc]
        refine or_congr_right ?_
        obtain ⟨sourceIndex, value'⟩ := e
        simp only [List.mem_cons, Prod.mk.injEq, ConnectionEntry.mk.injEq]
        constructor
        · rintro (⟨hplain, hn, ht, hi, rfl⟩ | ⟨hplace, k, hk, hnot⟩)
          · exact ⟨⟨hplain, hn, ht, hi⟩, key, .inl ⟨rfl, rfl⟩, hmem⟩
          · exact ⟨hplace, k, .inr hk, hnot⟩
        · rintro ⟨⟨hplain, hn, ht, hi⟩, k, ⟨rfl, rfl⟩ | hk, hnot⟩
          · exact .inl ⟨hplain, hn, ht, hi, rfl⟩
          · exact .inr ⟨⟨hplain, hn, ht, hi⟩, k, hk, hnot⟩
  exact hfold map.entries changes

/-! ### The texts of a slot -/

theorem mem_textMap {connections : List ConnectionObject} {key : List Char}
    {value : IndexedConnection} (h : (key, value) ∈ (textMap connections).entries) :
    value.connection ∈ connections ∧ value.connection.stringify = key := by
  have hfold : ∀ (l : List (ConnectionObject × ℕ))
      (m : InsertionMap (List Char) IndexedConnection),
      (∀ key value, (key, value) ∈ m.entries →
        value.connection ∈ connections ∧ value.connection.stringify = key) →
      (∀ e ∈ l, e.1 ∈ connections) →
      ∀ key value, (key, value) ∈
          (l.foldl (fun m e => m.set e.1.stringify ⟨e.2, e.1⟩) m).entries →
        value.connection ∈ connections ∧ value.connection.stringify = key := by
    intro l
    induction l with
    | nil => exact fun m hm _ => hm
    | cons a l ih =>
      intro m hm hl
      obtain ⟨ha, hl⟩ := List.forall_mem_cons.mp hl
      refine ih _ (fun key value hmem => ?_) hl
      obtain ⟨rfl, rfl⟩ | ⟨-, hmem⟩ := InsertionMap.mem_set.mp hmem
      · exact ⟨ha, rfl⟩
      · exact hm key value hmem
  refine hfold _ .empty (fun _ _ hmem => absurd hmem List.not_mem_nil) (fun e he => ?_) key value h
  exact List.fst_mem_of_mem_zipIdx he

theorem mem_keys_textMap {connections : List ConnectionObject} {key : List Char} :
    key ∈ (textMap connections).keys ↔ ∃ o ∈ connections, o.stringify = key := by
  have hfold : ∀ (l : List (ConnectionObject × ℕ))
      (m : InsertionMap (List Char) IndexedConnection),
      key ∈ (l.foldl (fun m e => m.set e.1.stringify ⟨e.2, e.1⟩) m).keys ↔
        key ∈ m.keys ∨ ∃ o ∈ l.map Prod.fst, o.stringify = key := by
    intro l
    induction l with
    | nil => simp
    | cons a l ih =>
      intro m
      rw [List.foldl_cons, ih, InsertionMap.mem_keys_set, List.map_cons, List.exists_mem_cons_iff,
        ← or_assoc, or_comm (a := key = _), eq_comm (a := key)]
  rw [textMap, hfold, List.zipIdx_map_fst]
  exact or_iff_right List.not_mem_nil

/-- An object is listed under its text, and with no other object. -/
theorem exists_mem_textMap_iff {connections : List ConnectionObject} {o : ConnectionObject} :
    o ∈ connections ↔ ∃ index, (o.stringify, ⟨index, o⟩) ∈ (textMap connections).entries := by
  constructor
  · intro ho
    obtain ⟨⟨index, o'⟩, hmem⟩ := InsertionMap.mem_keys.mp (mem_keys_textMap.mpr ⟨o, ho, rfl⟩)
    have ho' : o' = o := stringify_injective (mem_textMap hmem).2
    exact ⟨index, ho' ▸ hmem⟩
  · rintro ⟨index, hmem⟩
    exact (mem_textMap hmem).1

/-! ### What is listed -/

/-- The entry is listed for an object that the one slot has and the other does not. -/
def Differs (base target : ObjectConnections) (n : String) (t : NodeConnectionType)
    (e : ConnectionEntry) : Prop :=
  n ∉ InsertionMap.inheritedKeys ∧ e.value.connection ∉ slot base n t e.sourceIndex ∧
    ∃ key, (key, e.value) ∈ (textMap (slot target n t e.sourceIndex)).entries

theorem differs_iff {base target : ObjectConnections} :
    Differs base target n t e ↔ n ∉ InsertionMap.inheritedKeys ∧
      ∃ key, (key, e.value) ∈ (textMap (slot target n t e.sourceIndex)).entries ∧
        key ∉ (textMap (slot base n t e.sourceIndex)).keys := by
  refine and_congr_right fun _ => ?_
  constructor
  · rintro ⟨hnot, key, hmem⟩
    refine ⟨key, hmem, fun hkey => ?_⟩
    obtain ⟨o, ho, htext⟩ := mem_keys_textMap.mp hkey
    have heq := stringify_injective (htext.trans (mem_textMap hmem).2.symm)
    exact hnot (heq ▸ ho)
  · rintro ⟨key, hmem, hnot⟩
    refine ⟨fun ho => hnot (mem_keys_textMap.mpr ⟨_, ho, (mem_textMap hmem).2⟩), key, hmem⟩

theorem mem_places_of_slot_ne_nil (h : slot prev n t i ≠ [] ∨ slot next n t i ≠ []) :
    (n, t, i) ∈ places prev next := by
  have hlevels {connections : ObjectConnections} (h : slot connections n t i ≠ []) :
      n ∈ connections.keys ∧ t ∈ (connectionsOf connections n).keys ∧
        i < (((connectionsOf connections n).get? t).getD []).length := by
    refine ⟨?_, ?_, ?_⟩
    · by_contra hnot
      rw [slot, connectionsOf, InsertionMap.get?_eq_none_iff.mpr hnot] at h
      exact h rfl
    · by_contra hnot
      rw [slot, InsertionMap.get?_eq_none_iff.mpr hnot] at h
      exact h rfl
    · by_contra hnot
      rw [slot, List.getElem?_eq_none (Nat.not_lt.mp hnot)] at h
      exact h rfl
  have hany : (n ∈ prev.keys ∨ n ∈ next.keys) ∧
      (t ∈ (connectionsOf prev n).keys ∨ t ∈ (connectionsOf next n).keys) ∧
      (i < (((connectionsOf prev n).get? t).getD []).length ∨
        i < (((connectionsOf next n).get? t).getD []).length) := by
    obtain h | h := h
    · exact ⟨.inl (hlevels h).1, .inl (hlevels h).2.1, .inl (hlevels h).2.2⟩
    · exact ⟨.inr (hlevels h).1, .inr (hlevels h).2.1, .inr (hlevels h).2.2⟩
  obtain ⟨hn, ht, hi⟩ := hany
  refine List.mem_flatMap.mpr ⟨n, ?_, List.mem_flatMap.mpr ⟨t, ?_, List.mem_map.mpr ⟨i, ?_, rfl⟩⟩⟩
  · rw [← InsertionSet.mem_def, InsertionSet.mem_ofList, List.mem_append]
    exact hn.imp InsertionMap.mem_ownKeys.mpr InsertionMap.mem_ownKeys.mpr
  · rw [← InsertionSet.mem_def, InsertionSet.mem_ofList, List.mem_append]
    exact ht
  · rw [List.mem_range]
    omega

/-- **What `compareConnections` lists** as added and as removed. -/
theorem lists_compareConnections :
    (Lists (compareConnections prev next).added n t e ↔ Differs prev next n t e) ∧
      (Lists (compareConnections prev next).removed n t e ↔ Differs next prev n t e) := by
  have hfold : ∀ (l : List (String × NodeConnectionType × ℕ)) (diff : ConnectionsDiff),
      (Lists (l.foldl (compareSlot prev next) diff).added n t e ↔
        Lists diff.added n t e ∨ (n, t, e.sourceIndex) ∈ l ∧ Differs prev next n t e) ∧
      (Lists (l.foldl (compareSlot prev next) diff).removed n t e ↔
        Lists diff.removed n t e ∨ (n, t, e.sourceIndex) ∈ l ∧ Differs next prev n t e) := by
    intro l
    induction l with
    | nil => simp
    | cons place l ih =>
      intro diff
      obtain ⟨nodeName, inputName, sourceIndex⟩ := place
      have hstep {base target : ObjectConnections} {changes : Changes} :
          Lists (pushMissing nodeName inputName sourceIndex
              (textMap (slot target nodeName inputName sourceIndex))
              (textMap (slot base nodeName inputName sourceIndex)) changes) n t e ↔
            Lists changes n t e ∨ (n, t, e.sourceIndex) = (nodeName, inputName, sourceIndex) ∧
              Differs base target n t e := by
        rw [lists_pushMissing, differs_iff, Prod.mk.injEq, Prod.mk.injEq]
        refine or_congr_right ?_
        constructor
        · rintro ⟨⟨hplain, rfl, rfl, rfl⟩, hkey⟩
          exact ⟨⟨rfl, rfl, rfl⟩, hplain, hkey⟩
        · rintro ⟨⟨rfl, rfl, rfl⟩, hplain, hkey⟩
          exact ⟨⟨hplain, rfl, rfl, rfl⟩, hkey⟩
      rw [List.foldl_cons, List.mem_cons]
      refine ⟨(ih _).1.trans ?_, (ih _).2.trans ?_⟩
      · rw [compareSlot, hstep, or_assoc, ← or_and_right]
      · rw [compareSlot, hstep, or_assoc, ← or_and_right]
  have hplace {base target : ObjectConnections} (h : Differs base target n t e) :
      slot target n t e.sourceIndex ≠ [] := by
    obtain ⟨-, -, key, hmem⟩ := h
    exact List.ne_nil_of_mem (mem_textMap hmem).1
  obtain ⟨hadded, hremoved⟩ := hfold (places prev next) ⟨.empty, .empty⟩
  constructor
  · refine hadded.trans ((or_iff_right not_lists_empty).trans (and_iff_right_of_imp fun h => ?_))
    exact mem_places_of_slot_ne_nil (.inr (hplace h))
  · refine hremoved.trans ((or_iff_right not_lists_empty).trans (and_iff_right_of_imp fun h => ?_))
    exact mem_places_of_slot_ne_nil (.inl (hplace h))

/-- Every node that the changes name has an entry. -/
def HasEntries (changes : Changes) : Prop := ∀ n ∈ changes.keys, ∃ t e, Lists changes n t e

theorem hasEntries_push (h : HasEntries changes) :
    HasEntries (push nodeName inputName changes entry) := by
  intro n hn
  by_cases hinherited : nodeName ∈ InsertionMap.inheritedKeys
  · rw [push, if_pos hinherited] at hn ⊢
    exact h n hn
  · by_cases hname : n = nodeName
    · exact ⟨inputName, entry, lists_push.mpr (.inr ⟨hinherited, hname, rfl, rfl⟩)⟩
    · rw [push, if_neg hinherited] at hn
      obtain ⟨t, e, hlists⟩ := h n ((InsertionMap.mem_keys_set.mp hn).resolve_left hname)
      exact ⟨t, e, lists_push.mpr (.inl hlists)⟩

theorem hasEntries_pushMissing {map other : InsertionMap (List Char) IndexedConnection}
    (h : HasEntries changes) :
    HasEntries (pushMissing nodeName inputName i map other changes) := by
  rw [pushMissing]
  generalize map.entries = l
  induction l generalizing changes with
  | nil => exact h
  | cons a l ih =>
    rw [List.foldl_cons]
    split_ifs
    · exact ih h
    · exact ih (hasEntries_push h)

theorem hasEntries_compareConnections :
    HasEntries (compareConnections prev next).added ∧
      HasEntries (compareConnections prev next).removed := by
  have hempty : HasEntries .empty := fun n hn => absurd hn List.not_mem_nil
  have hfold : ∀ (l : List (String × NodeConnectionType × ℕ)) (diff : ConnectionsDiff),
      HasEntries diff.added ∧ HasEntries diff.removed →
      HasEntries (l.foldl (compareSlot prev next) diff).added ∧
        HasEntries (l.foldl (compareSlot prev next) diff).removed := by
    intro l
    induction l with
    | nil => exact fun diff h => h
    | cons place l ih =>
      exact fun diff h => ih _ ⟨hasEntries_pushMissing h.1, hasEntries_pushMissing h.2⟩
  exact hfold (places prev next) ⟨.empty, .empty⟩ ⟨hempty, hempty⟩

/-- Changes are empty exactly if they list nothing. -/
theorem HasEntries.eq_empty_iff (h : HasEntries changes) :
    changes = .empty ↔ ∀ n t e, ¬ Lists changes n t e := by
  constructor
  · rintro rfl n t e
    exact not_lists_empty
  · intro hnone
    refine InsertionMap.ext (List.eq_nil_iff_forall_not_mem.mpr fun a ha => ?_)
    obtain ⟨t, e, hlists⟩ := h a.1 (InsertionMap.mem_keys.mpr ⟨a.2, ha⟩)
    exact hnone a.1 t e hlists

/-! ### Exact differences -/

/-- The slot has the connection, whatever the order of its properties. -/
def HasConnection (connections : ObjectConnections) (n : String) (t : NodeConnectionType) (i : ℕ)
    (c : IConnection) : Prop :=
  ∃ o ∈ slot connections n t i, o.connection = c

/-- The changes have the connection at the slot. -/
def ChangesConnection (changes : Changes) (n : String) (t : NodeConnectionType) (i : ℕ)
    (c : IConnection) : Prop :=
  ∃ e, Lists changes n t e ∧ e.sourceIndex = i ∧ e.value.connection.connection = c

def SameConnections (prev next : ObjectConnections) : Prop :=
  ∀ n t i c, HasConnection prev n t i c ↔ HasConnection next n t i c

/-- The changes lead from the one set of connections to the other, no connection is both added and
removed, there are none exactly if both sets are the same, and the changes back are the opposite
ones. -/
structure ExactDiff (prev next : ObjectConnections) : Prop where
  restores : ∀ n t i c, HasConnection next n t i c ↔
    (HasConnection prev n t i c ∧
      ¬ ChangesConnection (compareConnections prev next).removed n t i c) ∨
    ChangesConnection (compareConnections prev next).added n t i c
  disjoint : ∀ n t i c, ¬ (ChangesConnection (compareConnections prev next).added n t i c ∧
    ChangesConnection (compareConnections prev next).removed n t i c)
  empty_iff : (compareConnections prev next).added = .empty ∧
    (compareConnections prev next).removed = .empty ↔ SameConnections prev next
  swap : ∀ n t e, (Lists (compareConnections next prev).added n t e ↔
      Lists (compareConnections prev next).removed n t e) ∧
    (Lists (compareConnections next prev).removed n t e ↔
      Lists (compareConnections prev next).added n t e)

/-- No change is at a node with the name of a member of `Object.prototype`, and no connection stands
in one version with its properties in an order in which it does not stand in the other. The latter
matters for the connections that `next` has only where `next` has the same ones. -/
structure WrittenAlike (prev next : ObjectConnections) : Prop where
  inherited : ∀ n ∈ InsertionMap.inheritedKeys, ∀ t i c,
    HasConnection prev n t i c ↔ HasConnection next n t i c
  kept : ∀ n ∉ InsertionMap.inheritedKeys, ∀ t i, ∀ o ∈ slot prev n t i,
    HasConnection next n t i o.connection → o ∈ slot next n t i
  same : SameConnections prev next → ∀ n ∉ InsertionMap.inheritedKeys, ∀ t i,
    ∀ o ∈ slot next n t i, o ∈ slot prev n t i

/-- A connection is listed when it has an object in the one slot that is not in the other. -/
theorem exists_differs_iff {base target : ObjectConnections} {c : IConnection} :
    (∃ e, Differs base target n t e ∧ e.sourceIndex = i ∧ e.value.connection.connection = c) ↔
      n ∉ InsertionMap.inheritedKeys ∧
        ∃ o ∈ slot target n t i, o ∉ slot base n t i ∧ o.connection = c := by
  constructor
  · rintro ⟨e, ⟨hplain, hnot, key, hmem⟩, rfl, rfl⟩
    exact ⟨hplain, e.value.connection, (mem_textMap hmem).1, hnot, rfl⟩
  · rintro ⟨hplain, o, ho, hnot, rfl⟩
    obtain ⟨index, hmem⟩ := exists_mem_textMap_iff.mp ho
    exact ⟨⟨i, index, o⟩, ⟨hplain, hnot, o.stringify, hmem⟩, rfl, rfl⟩

theorem changesConnection_added {c : IConnection} :
    ChangesConnection (compareConnections prev next).added n t i c ↔
      n ∉ InsertionMap.inheritedKeys ∧
        ∃ o ∈ slot next n t i, o ∉ slot prev n t i ∧ o.connection = c := by
  simp only [ChangesConnection, lists_compareConnections.1, exists_differs_iff]

theorem changesConnection_removed {c : IConnection} :
    ChangesConnection (compareConnections prev next).removed n t i c ↔
      n ∉ InsertionMap.inheritedKeys ∧
        ∃ o ∈ slot prev n t i, o ∉ slot next n t i ∧ o.connection = c := by
  simp only [ChangesConnection, lists_compareConnections.2, exists_differs_iff]

/-- The lists are both empty exactly if the slots have the same objects. -/
theorem compareConnections_eq_empty_iff :
    (compareConnections prev next).added = .empty ∧
        (compareConnections prev next).removed = .empty ↔
      ∀ n ∉ InsertionMap.inheritedKeys, ∀ t i o, o ∈ slot prev n t i ↔ o ∈ slot next n t i := by
  have hnone {base target : ObjectConnections} : (∀ n t e, ¬ Differs base target n t e) ↔
      ∀ n ∉ InsertionMap.inheritedKeys, ∀ t i, ∀ o ∈ slot target n t i, o ∈ slot base n t i := by
    constructor
    · intro h n hplain t i o ho
      by_contra hnot
      obtain ⟨e, hdiffers, -⟩ := exists_differs_iff.mpr ⟨hplain, o, ho, hnot, rfl⟩
      exact h n t e hdiffers
    · rintro h n t e ⟨hplain, hnot, key, hmem⟩
      exact hnot (h n hplain t e.sourceIndex _ (mem_textMap hmem).1)
  rw [hasEntries_compareConnections.1.eq_empty_iff, hasEntries_compareConnections.2.eq_empty_iff]
  simp only [lists_compareConnections.1, lists_compareConnections.2]
  rw [hnone, hnone]
  constructor
  · exact fun h n hplain t i o => ⟨h.2 n hplain t i o, h.1 n hplain t i o⟩
  · intro h
    exact ⟨fun n hplain t i o ho => (h n hplain t i o).mpr ho,
      fun n hplain t i o ho => (h n hplain t i o).mp ho⟩

/-- **The differences are exact** for two versions that write their connections alike. -/
theorem exactDiff_iff : ExactDiff prev next ↔ WrittenAlike prev next := by
  constructor
  · rintro ⟨hrestores, hdisjoint, hempty, -⟩
    refine ⟨fun n hn t i c => ?_, fun n hn t i o ho hnext => ?_, fun hsame n hn t i o ho => ?_⟩
    · have h := hrestores n t i c
      rw [changesConnection_added, changesConnection_removed] at h
      simpa only [hn, not_true_eq_false, false_and, not_false_eq_true, and_true, or_false]
        using h.symm
    · -- the object would be listed as removed, and so the connection would have to be added
      by_contra hnot
      have hremoved : ChangesConnection (compareConnections prev next).removed n t i
          o.connection := changesConnection_removed.mpr ⟨hn, o, ho, hnot, rfl⟩
      obtain ⟨-, hkept⟩ | hadded := (hrestores n t i o.connection).mp hnext
      · exact hkept hremoved
      · exact hdisjoint n t i o.connection ⟨hadded, hremoved⟩
    · exact (compareConnections_eq_empty_iff.mp (hempty.mpr hsame) n hn t i o).mpr ho
  · intro halike
    refine ⟨fun n t i c => ?_, fun n t i c => ?_, ?_, fun n t e => ?_⟩
    · rw [changesConnection_added, changesConnection_removed]
      by_cases hn : n ∈ InsertionMap.inheritedKeys
      · simpa only [hn, not_true_eq_false, false_and, not_false_eq_true, and_true, or_false]
          using (halike.inherited n hn t i c).symm
      · constructor
        · rintro ⟨o, ho, rfl⟩
          by_cases hprev : o ∈ slot prev n t i
          · refine .inl ⟨⟨o, hprev, rfl⟩, ?_⟩
            rintro ⟨-, o', ho', hnot, heq⟩
            exact hnot (halike.kept n hn t i o' ho' ⟨o, ho, heq.symm⟩)
          · exact .inr ⟨hn, o, ho, hprev, rfl⟩
        · rintro (⟨⟨o, ho, rfl⟩, hkept⟩ | ⟨-, o, ho, -, rfl⟩)
          · refine ⟨o, ?_, rfl⟩
            by_contra hnot
            exact hkept ⟨hn, o, ho, hnot, rfl⟩
          · exact ⟨o, ho, rfl⟩
    · rw [changesConnection_added, changesConnection_removed]
      rintro ⟨⟨hn, o, ho, -, rfl⟩, -, o', ho', hnot, heq⟩
      exact hnot (halike.kept n hn t i o' ho' ⟨o, ho, heq.symm⟩)
    · rw [compareConnections_eq_empty_iff]
      constructor
      · intro h n t i c
        by_cases hn : n ∈ InsertionMap.inheritedKeys
        · exact halike.inherited n hn t i c
        · exact exists_congr fun o => and_congr_left fun _ => h n hn t i o
      · intro hsame n hn t i o
        refine ⟨fun ho => ?_, fun ho => halike.same hsame n hn t i o ho⟩
        exact halike.kept n hn t i o ho ((hsame n t i o.connection).mp ⟨o, ho, rfl⟩)
    · exact ⟨lists_compareConnections.1.trans lists_compareConnections.2.symm,
        lists_compareConnections.2.trans lists_compareConnections.1.symm⟩

/-- One connection from the first output of `A`. -/
private def single (o : ConnectionObject) : ObjectConnections :=
  InsertionMap.empty.set "A" (InsertionMap.empty.set .main [some [o]])

/-- The same connection, its index set last and first, is both added and removed. -/
theorem not_exactDiff_reordered : ∃ prev next, ¬ ExactDiff prev next := by
  let last : ConnectionObject := ⟨⟨"B", .main, 0⟩, [.node, .type, .index], .refl _⟩
  let first : ConnectionObject := ⟨⟨"B", .main, 0⟩, [.index, .node, .type], by decide⟩
  refine ⟨single last, single first, fun h => ?_⟩
  refine h.disjoint "A" .main 0 ⟨"B", .main, 0⟩ ⟨?_, ?_⟩
  · exact changesConnection_added.mpr ⟨by decide, first, by decide, by decide, rfl⟩
  · exact changesConnection_removed.mpr ⟨by decide, last, by decide, by decide, rfl⟩

end ConnectionsDiff

end N8n
