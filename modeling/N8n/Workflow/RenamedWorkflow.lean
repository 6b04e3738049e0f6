import N8n.Workflow.ConnectionIndex
import N8n.Workflow.RenameNode

/-!
# What renaming a node leaves behind

The nodes and the connections by source node are those from before under the new name, and of the
parameters of the nodes only texts are rewritten, unless they hold `null` or a field `__proto__`.
The connections by destination node stay as they were: they are still those of the workflow only if
no connection starts or ends at the node. And renaming a node to the name it has removes it.
-/

namespace N8n.WorkflowObject

variable {applyAccessPatterns : String → String → String → String} {currentName newName : String}
variable {w w' : WorkflowObject}

/-- The name that a node has afterwards. -/
def renamed (currentName newName name : String) : String :=
  if name = currentName then newName else name

/-! ### Parameters -/

/-- The values differ in their texts only, which are related one by one. -/
structure SameButTexts (R : String → String → Prop) (v v' : JsonValue) : Prop where
  shape : v'.shape = v.shape
  texts : List.Forall₂ R v.texts v'.texts

def IsExpression (s : String) : Prop := s.toList.head? = some '='

/-- A text was rewritten any number of times. -/
def IsIterate (rewrite : String → String) (s t : String) : Prop := ∃ n, t = rewrite^[n] s

/-- An expression was rewritten at least once, and another text only where the texts of the node may
hold references. -/
def IsRewritten (rewrite : String → String) (renamable : Prop) (s t : String) : Prop :=
  ∃ n, t = rewrite^[n] s ∧ (IsExpression s → 0 < n) ∧ (0 < n → IsExpression s ∨ renamable)

/-- There is no `null` and no field `__proto__`. -/
def isPlain : JsonValue → Bool
  | .null => false
  | .arr items => (items.map isPlain).all id
  | .obj fields =>
    fields.all (·.1 ≠ "__proto__") && (fields.map fun field => isPlain field.2).all id
  | _ => true
decreasing_by
  · simp only [JsonValue.arr.sizeOf_spec]
    exact Nat.lt_add_left 1 (List.sizeOf_lt_of_mem ‹_›)
  · exact JsonValue.sizeOf_field_lt ‹_›

@[simp]
theorem isPlain_arr {items : List JsonValue} :
    isPlain (.arr items) = true ↔ ∀ item ∈ items, isPlain item = true := by
  simp [isPlain]

@[simp]
theorem isPlain_obj {fields : List (String × JsonValue)} : isPlain (.obj fields) = true ↔
    ∀ field ∈ fields, field.1 ≠ "__proto__" ∧ isPlain field.2 = true := by
  simp only [isPlain, Bool.and_eq_true, List.all_eq_true, List.mem_map, id_eq, decide_eq_true_eq,
    forall_exists_index, and_imp, forall_apply_eq_imp_iff₂]
  exact ⟨fun h field hfield => ⟨h.1 field hfield, h.2 field hfield⟩,
    fun h => ⟨fun field hfield => (h field hfield).1, fun field hfield => (h field hfield).2⟩⟩

section Texts

variable {R R' R'' : String → String → Prop} {rewrite : String → String} {v v' v'' : JsonValue}

theorem SameButTexts.of_refl (h : ∀ s, R s s) (v : JsonValue) : SameButTexts R v v :=
  ⟨rfl, List.forall₂_same.mpr fun s _ => h s⟩

theorem SameButTexts.trans (hR : ∀ s t u, R s t → R' t u → R'' s u) (h : SameButTexts R v v')
    (h' : SameButTexts R' v' v'') : SameButTexts R'' v v'' := by
  refine ⟨h'.shape.trans h.shape, ?_⟩
  have hlists : ∀ {l l' l'' : List String}, List.Forall₂ R l l' → List.Forall₂ R' l' l'' →
      List.Forall₂ R'' l l'' := by
    intro l l' l'' hl
    induction hl generalizing l'' with
    | nil =>
      rintro ⟨⟩
      exact .nil
    | cons hs _ ih =>
      rintro (_ | ⟨ht, hl'⟩)
      exact .cons (hR _ _ _ hs ht) (ih hl')
  exact hlists h.texts h'.texts

theorem forall₂_flatMap {α : Type*} {l : List α} {f g : α → List String}
    (h : ∀ a ∈ l, List.Forall₂ R (f a) (g a)) : List.Forall₂ R (l.flatMap f) (l.flatMap g) := by
  induction l with
  | nil => exact .nil
  | cons a l ih =>
    obtain ⟨ha, hl⟩ := List.forall_mem_cons.mp h
    exact List.rel_append ha (ih hl)

theorem SameButTexts.arr {items : List JsonValue} {g : JsonValue → JsonValue}
    (h : ∀ item ∈ items, SameButTexts R item (g item)) :
    SameButTexts R (.arr items) (.arr (items.map g)) := by
  constructor
  · simpa [JsonValue.shape] using fun item hitem => (h item hitem).shape
  · rw [JsonValue.texts, JsonValue.texts, List.flatMap_map]
    exact forall₂_flatMap fun item hitem => (h item hitem).texts

theorem SameButTexts.obj {fields : List (String × JsonValue)} {g : String × JsonValue → JsonValue}
    (h : ∀ field ∈ fields, SameButTexts R field.2 (g field)) :
    SameButTexts R (.obj fields) (.obj (fields.map fun field => (field.1, g field))) := by
  constructor
  · simpa [JsonValue.shape] using fun key value hfield => (h (key, value) hfield).shape
  · rw [JsonValue.texts, JsonValue.texts, List.flatMap_map]
    exact forall₂_flatMap fun field hfield => (h field hfield).texts

theorem isPlain_shape (v : JsonValue) : isPlain v.shape = true ↔ isPlain v = true := by
  induction v using JsonValue.induct with
  | arr items ih =>
    rw [JsonValue.shape, isPlain_arr, isPlain_arr, List.forall_mem_map]
    exact forall₂_congr ih
  | obj fields ih =>
    rw [JsonValue.shape, isPlain_obj, isPlain_obj, List.forall_mem_map]
    exact forall₂_congr fun field hfield => and_congr_right' (ih field hfield)
  | _ => simp [JsonValue.shape, isPlain]

theorem SameButTexts.isPlain_iff (h : SameButTexts R v v') :
    isPlain v' = true ↔ isPlain v = true := by
  rw [← isPlain_shape, h.shape, isPlain_shape]

/-- What is built anew holds no `null`, and no `__proto__` was set as a field. -/
theorem isPlain_rename (hasRenamableContent : Bool) (v : JsonValue) :
    isPlain (renameNodeInParameterValue applyAccessPatterns currentName newName
      hasRenamableContent v) = true := by
  induction v using JsonValue.induct generalizing hasRenamableContent with
  | arr items ih =>
    rw [renameNodeInParameterValue, isPlain_arr, List.forall_mem_map]
    exact fun item hitem => ih item hitem false
  | obj fields ih =>
    rw [renameNodeInParameterValue, isPlain_obj]
    intro field hfield
    obtain ⟨hfield, hkey⟩ := List.mem_filter.mp hfield
    obtain ⟨old, hold, rfl⟩ := List.mem_map.mp hfield
    exact ⟨of_decide_eq_true hkey, ih old hold hasRenamableContent⟩
  | str s =>
    rw [renameNodeInParameterValue]
    split <;> simp [isPlain]
  | _ => simp [renameNodeInParameterValue, isPlain]

/-- One rewriting of a plain value. -/
theorem sameButTexts_rename {hasRenamableContent : Bool} (hplain : isPlain v = true) :
    SameButTexts (IsRewritten (applyAccessPatterns · currentName newName)
        (hasRenamableContent = true)) v
      (renameNodeInParameterValue applyAccessPatterns currentName newName hasRenamableContent
        v) := by
  induction v using JsonValue.induct generalizing hasRenamableContent with
  | null => exact absurd hplain (by simp [isPlain])
  | arr items ih =>
    rw [renameNodeInParameterValue]
    refine .arr fun item hitem => ?_
    -- the items of an array are rewritten without the flag, as the call in the source leaves it out
    have hitem := @ih item hitem false (isPlain_arr.mp hplain item hitem)
    refine ⟨hitem.shape, hitem.texts.imp fun s t hst => ?_⟩
    obtain ⟨n, ht, hexpression, hn⟩ := hst
    exact ⟨n, ht, hexpression, fun hpos => Or.inl ((hn hpos).resolve_right Bool.false_ne_true)⟩
  | obj fields ih =>
    have hfields := isPlain_obj.mp hplain
    rw [renameNodeInParameterValue, List.filter_eq_self.mpr]
    · exact .obj fun field hfield => ih field hfield (hfields field hfield).2
    · rw [List.forall_mem_map]
      exact fun field hfield => decide_eq_true (hfields field hfield).1
  | str s =>
    rw [renameNodeInParameterValue]
    refine ⟨by split <;> simp [JsonValue.shape], ?_⟩
    split
    next h =>
      simp only [JsonValue.texts]
      exact .cons ⟨1, rfl, fun _ => Nat.one_pos, fun _ => h⟩ .nil
    next h =>
      simp only [JsonValue.texts]
      exact .cons ⟨0, rfl, fun hexpression => absurd (Or.inl hexpression) h,
        fun hpos => absurd hpos (Nat.lt_irrefl 0)⟩ .nil
  | bool b =>
    rw [renameNodeInParameterValue]
    exact ⟨rfl, by simp [JsonValue.texts]⟩
  | num n =>
    rw [renameNodeInParameterValue]
    exact ⟨rfl, by simp [JsonValue.texts]⟩

/-- A rewriting below one field, where there is no `null` and no `__proto__`. -/
theorem sameButTexts_modifyField (key : String) {f : JsonValue → JsonValue}
    (hf : ∀ v, isPlain v = true → SameButTexts (IsIterate rewrite) v (f v))
    (hplain : isPlain v = true) : SameButTexts (IsIterate rewrite) v (modifyField key f v) := by
  have hrefl := SameButTexts.of_refl (R := IsIterate rewrite) fun s => ⟨0, rfl⟩
  unfold modifyField
  split
  next fields =>
    refine .obj fun field hfield => ?_
    split
    · exact hf field.2 (isPlain_obj.mp hplain field hfield).2
    · exact hrefl field.2
  next => exact hrefl v

theorem sameButTexts_renameFormFields {f : JsonValue → JsonValue}
    (hf : ∀ v, isPlain v = true → SameButTexts (IsIterate rewrite) v (f v))
    (hplain : isPlain v = true) : SameButTexts (IsIterate rewrite) v (renameFormFields f v) := by
  have hrefl := SameButTexts.of_refl (R := IsIterate rewrite) fun s => ⟨0, rfl⟩
  refine sameButTexts_modifyField _ (fun v => sameButTexts_modifyField _ fun v hplain => ?_) hplain
  split
  next values =>
    refine .arr fun value hvalue => ?_
    have hplain := isPlain_arr.mp hplain value hvalue
    split
    next fields =>
      split
      · exact sameButTexts_modifyField _ hf hplain
      · exact hrefl _
    next => exact hrefl value
  next => exact hrefl v

end Texts

/-- The references in the texts of a node of this type are renamed, too. -/
def HasRenamableTexts (type : String) : Prop :=
  type ∈ NODES_WITH_RENAMABLE_CONTENT ∨ type ∈ NODES_WITH_RENAMEABLE_TOPLEVEL_HTML_CONTENT ∨
    type ∈ NODES_WITH_RENAMABLE_FORM_HTML_CONTENT

/-- The parameters keep all but their texts if there is no `null` and no `__proto__` among them. -/
theorem sameButTexts_renameInParameters_iff {type : String} {parameters : JsonValue} :
    SameButTexts (IsRewritten (applyAccessPatterns · currentName newName) (HasRenamableTexts type))
        parameters
        (renameInParameters applyAccessPatterns currentName newName type parameters) ↔
      isPlain parameters = true := by
  let rewrite := (applyAccessPatterns · currentName newName)
  let rename := renameNodeInParameterValue applyAccessPatterns currentName newName
  have hfirst : isPlain (rename false parameters) = true := isPlain_rename false parameters
  have hrename : ∀ v, isPlain v = true → SameButTexts (IsIterate rewrite) v (rename true v) := by
    intro v hv
    have h := @sameButTexts_rename applyAccessPatterns currentName newName v true hv
    exact ⟨h.shape, h.texts.imp fun s t ⟨n, ht, _⟩ => ⟨n, ht⟩⟩
  -- a further rewriting takes place in a node with renamable texts only
  have hstep : ∀ {P : Prop} [Decidable P] {v : JsonValue} {f : JsonValue → JsonValue},
      (P → HasRenamableTexts type) →
      (∀ v, isPlain v = true → SameButTexts (IsIterate rewrite) v (f v)) → isPlain v = true →
      (SameButTexts (IsRewritten rewrite (HasRenamableTexts type)) parameters v →
        SameButTexts (IsRewritten rewrite (HasRenamableTexts type)) parameters
          (if P then f v else v)) ∧ isPlain (if P then f v else v) = true := by
    intro P _ v f hP hf hv
    split
    next h =>
      refine ⟨fun hsame => hsame.trans ?_ (hf v hv), (hf v hv).isPlain_iff.mpr hv⟩
      rintro s t u ⟨n, rfl, hexpression, -⟩ ⟨m, rfl⟩
      exact ⟨m + n, (Function.iterate_add_apply _ m n s).symm,
        fun h => Nat.add_pos_right m (hexpression h), fun _ => Or.inr (hP h)⟩
    next => exact ⟨id, hv⟩
  have hcode := @hstep (type ∈ NODES_WITH_RENAMABLE_CONTENT) _ _ _ Or.inl
    (fun v hv => sameButTexts_modifyField "jsCode" hrename hv) hfirst
  have hhtml := @hstep (type ∈ NODES_WITH_RENAMEABLE_TOPLEVEL_HTML_CONTENT) _ _ _
    (fun h => Or.inr (Or.inl h))
    (fun v hv => sameButTexts_modifyField "html" hrename hv) hcode.2
  have hform := @hstep (type ∈ NODES_WITH_RENAMABLE_FORM_HTML_CONTENT) _ _ _
    (fun h => Or.inr (Or.inr h)) (fun v hv => sameButTexts_renameFormFields hrename hv) hhtml.2
  constructor
  · exact fun h => h.isPlain_iff.mp hform.2
  · intro hplain
    refine hform.1 (hhtml.1 (hcode.1 ?_))
    have h := @sameButTexts_rename applyAccessPatterns currentName newName parameters false hplain
    refine ⟨h.shape, h.texts.imp fun s t ⟨n, ht, hexpression, hn⟩ => ?_⟩
    exact ⟨n, ht, hexpression, fun hpos => Or.inl ((hn hpos).resolve_right Bool.false_ne_true)⟩

/-! ### Consistency -/

/-- A node afterwards: its name is the new one, and its parameters keep all but their texts, in
which the references are rewritten. -/
structure RenamedNode (applyAccessPatterns : String → String → String → String)
    (currentName newName : String) (old node : ParameterNode) : Prop where
  iNode : node.toINode = { old.toINode with name := renamed currentName newName old.name }
  parameters : SameButTexts
    (IsRewritten (applyAccessPatterns · currentName newName) (HasRenamableTexts old.type))
    old.parameters node.parameters

/-- The nodes and the connections are the old ones with the one name replaced by the other, in the
keys as in the values, and the connections by destination node are those of the connections by
source node. -/
structure Renamed (applyAccessPatterns : String → String → String → String)
    (currentName newName : String) (w w' : WorkflowObject) : Prop where
  keys : ∀ name, name ∈ w'.nodes.keys ↔
    ∃ oldName ∈ w.nodes.keys, name = renamed currentName newName oldName
  nodes : ∀ oldName old, (oldName, old) ∈ w.nodes.entries →
    ∃ node, (renamed currentName newName oldName, node) ∈ w'.nodes.entries ∧
      RenamedNode applyAccessPatterns currentName newName old node
  connectionsBySource : ∀ name connections,
    (name, connections) ∈ w'.connectionsBySourceNode.entries ↔
      ∃ oldName old, (oldName, old) ∈ w.connectionsBySourceNode.entries ∧
        name = renamed currentName newName oldName ∧
          connections = renameTargets currentName newName old
  connectionsByDestination : mapConnectionsByDestination w'.connectionsBySourceNode =
    some w'.connectionsByDestinationNode

/-- The name is that of a node, or of an entry of the connections. -/
def InUse (w : WorkflowObject) (name : String) : Prop :=
  name ∈ w.nodes.keys ∨ name ∈ w.connectionsBySourceNode.keys

/-- No connection starts or ends at the node. -/
def Unconnected (w : WorkflowObject) (name : String) : Prop :=
  ∀ e ∈ connectionEntries w.connectionsBySourceNode,
    e.sourceNode ≠ name ∧ e.destinationNode ≠ name

/-! ### Keys -/

section RenameKey

variable {α : Type*} {f : α → α} {m : InsertionMap String α}

theorem renameKey_self (h : currentName ∈ m.keys) :
    renameKey f currentName currentName m = m.erase currentName := by
  obtain ⟨a, ha⟩ := InsertionMap.mem_keys.mp h
  rw [renameKey, InsertionMap.get?_eq_some_iff.mpr ha]
  exact InsertionMap.erase_set m currentName (f a)

theorem renameKey_of_notMem (h : currentName ∉ m.keys) : renameKey f currentName newName m = m := by
  rw [renameKey, InsertionMap.get?_eq_none_iff.mpr h]

theorem mem_renameKey (hne : newName ≠ currentName) (hfresh : newName ∉ m.keys) {name : String}
    {a : α} : (name, a) ∈ (renameKey f currentName newName m).entries ↔
      ∃ oldName old, (oldName, old) ∈ m.entries ∧ name = renamed currentName newName oldName ∧
        a = if oldName = currentName then f old else old := by
  cases hget : m.get? currentName with
  | none =>
    have hnot := InsertionMap.get?_eq_none_iff.mp hget
    have hother : ∀ oldName old, (oldName, old) ∈ m.entries → oldName ≠ currentName :=
      fun oldName old hmem heq => hnot (InsertionMap.mem_keys.mpr ⟨old, heq ▸ hmem⟩)
    rw [renameKey_of_notMem hnot]
    constructor
    · intro hmem
      have hold := hother name a hmem
      exact ⟨name, a, hmem, (if_neg hold).symm, (if_neg hold).symm⟩
    · rintro ⟨oldName, old, hmem, rfl, rfl⟩
      have hold := hother oldName old hmem
      rw [renamed, if_neg hold, if_neg hold]
      exact hmem
  | some current =>
    have hcurrent := InsertionMap.get?_eq_some_iff.mp hget
    rw [renameKey, hget]
    refine InsertionMap.mem_erase.trans ?_
    rw [InsertionMap.mem_set]
    constructor
    · rintro ⟨⟨rfl, rfl⟩ | ⟨-, hmem⟩, hname⟩
      · exact ⟨currentName, current, hcurrent, (if_pos rfl).symm, (if_pos rfl).symm⟩
      · exact ⟨name, a, hmem, (if_neg hname).symm, (if_neg hname).symm⟩
    · rintro ⟨oldName, old, hmem, rfl, rfl⟩
      by_cases hold : oldName = currentName
      · subst hold
        obtain rfl := InsertionMap.eq_of_mem hmem hcurrent
        rw [renamed, if_pos rfl, if_pos rfl]
        exact ⟨Or.inl ⟨rfl, rfl⟩, hne⟩
      · rw [renamed, if_neg hold, if_neg hold]
        refine ⟨Or.inr ⟨fun heq => ?_, hmem⟩, hold⟩
        exact hfresh (InsertionMap.mem_keys.mpr ⟨old, heq ▸ hmem⟩)

theorem notMem_keys_renameKey (hne : newName ≠ currentName) (hfresh : newName ∉ m.keys) :
    currentName ∉ (renameKey f currentName newName m).keys := by
  intro hmem
  obtain ⟨a, ha⟩ := InsertionMap.mem_keys.mp hmem
  obtain ⟨oldName, old, -, hname, -⟩ := (mem_renameKey hne hfresh).mp ha
  rw [renamed] at hname
  split at hname
  · exact hne hname.symm
  next hold => exact hold hname.symm

/-- The other entries stay where they are. -/
theorem filter_renameKey {p : String × α → Bool} (hcurrent : ∀ a, (currentName, a) ∈ m.entries →
      p (currentName, a) = false ∧ p (newName, f a) = false) (hfresh : newName ∉ m.keys) :
    (renameKey f currentName newName m).entries.filter p = m.entries.filter p := by
  cases hget : m.get? currentName with
  | none => rw [renameKey_of_notMem (InsertionMap.get?_eq_none_iff.mp hget)]
  | some current =>
    have hfalse := hcurrent current (InsertionMap.get?_eq_some_iff.mp hget)
    have hentries : ((m.entries ++ [(newName, f current)]).filter fun e =>
        decide (e.1 ≠ currentName)).filter p = m.entries.filter p := by
      -- the entry that is moved is in neither list
      have hkept : (m.entries.filter fun e => decide (e.1 ≠ currentName)).filter p =
          m.entries.filter p := by
        rw [List.filter_filter]
        refine List.filter_congr fun e he => ?_
        by_cases hname : e.1 = currentName
        · have hnot : p e = false := by
            rw [← Prod.mk.eta (p := e), hname]
            exact (hcurrent e.2 (hname ▸ he)).1
          rw [hnot, Bool.false_and]
        · simp [hname]
      rw [List.filter_append, List.filter_append, hkept]
      by_cases hname : newName = currentName
      · simp [hname]
      · simp [hname, hfalse.2]
    rw [renameKey, hget]
    refine Eq.trans ?_ hentries
    rw [← InsertionMap.entries_set_of_not_mem hfresh]
    rfl

end RenameKey

/-! ### Connections -/

/-- A connection afterwards, when its source has the new name already. -/
def renameDestination (currentName newName : String) (e : ConnectionEntry) : ConnectionEntry :=
  { e with destinationNode := renamed currentName newName e.destinationNode }

theorem outputEntries_renameTarget (sourceNode : String) (type : NodeConnectionType)
    (output : Option (List IConnection) × ℕ) :
    outputEntries sourceNode type
        (output.1.map (List.map (renameTarget currentName newName)), output.2) =
      (outputEntries sourceNode type output).map (renameDestination currentName newName) := by
  obtain ⟨connections, index⟩ := output
  cases connections with
  | none => rfl
  | some connections =>
    simp only [outputEntries, Option.map_some, Option.getD_some, List.map_map]
    refine List.map_congr_left fun connection _ => ?_
    by_cases hnode : connection.node = currentName
    · simp [renameTarget, renameDestination, renamed, hnode]
    · simp [renameTarget, renameDestination, renamed, hnode]

theorem typeEntries_renameTarget (sourceNode : String)
    (outputs : NodeConnectionType × NodeInputConnections) :
    typeEntries sourceNode (outputs.1, outputs.2.map
        (Option.map (List.map (renameTarget currentName newName)))) =
      (typeEntries sourceNode outputs).map (renameDestination currentName newName) := by
  rw [typeEntries, typeEntries, List.zipIdx_map, List.flatMap_map, List.map_flatMap]
  exact List.flatMap_congr fun output _ => outputEntries_renameTarget sourceNode outputs.1 output

theorem nodeEntries_renameTargets (node : String × INodeConnections) :
    nodeEntries (node.1, renameTargets currentName newName node.2) =
      (nodeEntries node).map (renameDestination currentName newName) := by
  rw [nodeEntries, nodeEntries, renameTargets, InsertionMap.entries_map, List.flatMap_map,
    List.map_flatMap]
  exact List.flatMap_congr fun outputs _ => typeEntries_renameTarget node.1 outputs

theorem connectionEntries_renameTargets (connections : IConnections) :
    connectionEntries (connections.map (renameTargets currentName newName)) =
      (connectionEntries connections).map (renameDestination currentName newName) := by
  rw [connectionEntries, connectionEntries, InsertionMap.ownEntries_map, List.flatMap_map,
    List.map_flatMap]
  exact List.flatMap_congr fun node _ => nodeEntries_renameTargets node

/-- The connections of a node that none starts at. -/
theorem nodeEntries_eq_nil {connections : IConnections} {name : String}
    {byType : INodeConnections} (hmem : (name, byType) ∈ connections.entries)
    (h : ∀ e ∈ connectionEntries connections, e.sourceNode ≠ name) :
    nodeEntries (name, byType) = [] := by
  refine List.eq_nil_iff_forall_not_mem.mpr fun e he => ?_
  have hsource : e.sourceNode = name := by
    obtain ⟨outputs, -, he⟩ := List.mem_flatMap.mp he
    obtain ⟨output, -, he⟩ := List.mem_flatMap.mp he
    obtain ⟨connection, -, rfl⟩ := List.mem_map.mp he
    rfl
  refine h e (List.mem_flatMap.mpr ⟨(name, byType), ?_, he⟩) hsource
  exact InsertionMap.mem_ownEntries.mpr hmem

theorem nodeEntries_of_name (name name' : String) (byType : INodeConnections) :
    nodeEntries (name', byType) =
      (nodeEntries (name, byType)).map fun e => { e with sourceNode := name' } := by
  rw [nodeEntries, nodeEntries, List.map_flatMap]
  refine List.flatMap_congr fun outputs _ => ?_
  rw [typeEntries, typeEntries, List.map_flatMap]
  refine List.flatMap_congr fun output _ => ?_
  rw [outputEntries, outputEntries, List.map_map]
  rfl

/-- Moving an entry without connections to another key changes no connection. -/
theorem connectionEntries_renameKey {connections : IConnections}
    (hfresh : newName ∉ connections.keys)
    (h : ∀ e ∈ connectionEntries connections, e.sourceNode ≠ currentName) :
    connectionEntries (renameKey id currentName newName connections) =
      connectionEntries connections := by
  refine InsertionMap.flatMap_ownEntries_congr (p := fun node => !(nodeEntries node).isEmpty) ?_ ?_
  · refine filter_renameKey (fun byType hmem => ?_) hfresh
    have hnil := nodeEntries_eq_nil hmem h
    have hnew : nodeEntries (newName, byType) = [] := by
      rw [nodeEntries_of_name currentName newName, hnil]
      rfl
    constructor
    · rw [hnil]
      rfl
    · rw [id, hnew]
      rfl
  · intro node hnode
    exact List.isEmpty_iff.mp (by simpa using hnode)

/-! ### The result -/

theorem renameNode_of_not_isRestricted (h : isRestricted newName = false) :
    ∃ w', renameNode applyAccessPatterns currentName newName w = .ok w' ∧
      w'.nodes = (renameKey (fun node => { node with name := newName }) currentName newName
        w.nodes).map (fun node => { node with
          parameters := renameInParameters applyAccessPatterns currentName newName node.type
            node.parameters }) ∧
      w'.connectionsBySourceNode = (renameKey id currentName newName
        w.connectionsBySourceNode).map (renameTargets currentName newName) ∧
      w'.connectionsByDestinationNode = w.connectionsByDestinationNode := by
  rw [renameNode, h]
  exact ⟨_, rfl, rfl, rfl, rfl⟩

theorem mem_entries_map {α β : Type*} {f : α → β} {m : InsertionMap String α} {name : String}
    {b : β} : (name, b) ∈ (m.map f).entries ↔ ∃ a, (name, a) ∈ m.entries ∧ b = f a := by
  rw [InsertionMap.entries_map, List.mem_map]
  constructor
  · rintro ⟨⟨_, a⟩, hmem, heq⟩
    obtain ⟨rfl, rfl⟩ := Prod.mk.inj heq
    exact ⟨a, hmem, rfl⟩
  · rintro ⟨a, hmem, rfl⟩
    exact ⟨(name, a), hmem, rfl⟩

/-- The nodes under another name, with their parameters rewritten. -/
theorem mem_renamed_nodes (hne : newName ≠ currentName) (hfresh : newName ∉ w.nodes.keys)
    {name : String} {node : ParameterNode} :
    (name, node) ∈ ((renameKey (fun node => { node with name := newName }) currentName newName
        w.nodes).map (fun node => { node with
          parameters := renameInParameters applyAccessPatterns currentName newName node.type
            node.parameters })).entries ↔
      ∃ oldName old, (oldName, old) ∈ w.nodes.entries ∧
        name = renamed currentName newName oldName ∧ node = { old with
          name := renamed currentName newName old.name
          parameters := renameInParameters applyAccessPatterns currentName newName old.type
            old.parameters } := by
  have hvalue : ∀ oldName old, (oldName, old) ∈ w.nodes.entries →
      (if oldName = currentName then { old with name := newName } else old : ParameterNode) =
        { old with name := renamed currentName newName old.name } := by
    intro oldName old hmem
    obtain rfl := w.nodes_name oldName old hmem
    rw [renamed]
    split <;> rfl
  rw [mem_entries_map]
  constructor
  · rintro ⟨moved, hmoved, rfl⟩
    obtain ⟨oldName, old, hmem, hname, rfl⟩ := (mem_renameKey hne hfresh).mp hmoved
    refine ⟨oldName, old, hmem, hname, ?_⟩
    rw [hvalue oldName old hmem]
  · rintro ⟨oldName, old, hmem, rfl, rfl⟩
    refine ⟨_, (mem_renameKey hne hfresh).mpr ⟨oldName, old, hmem, rfl, rfl⟩, ?_⟩
    rw [hvalue oldName old hmem]

theorem connectionsBySource_renamed {connections : IConnections} (hne : newName ≠ currentName)
    (hfresh : newName ∉ connections.keys) (name : String) (byType : INodeConnections) :
    (name, byType) ∈ ((renameKey id currentName newName connections).map
        (renameTargets currentName newName)).entries ↔
      ∃ oldName old, (oldName, old) ∈ connections.entries ∧
        name = renamed currentName newName oldName ∧
          byType = renameTargets currentName newName old := by
  rw [mem_entries_map]
  constructor
  · rintro ⟨moved, hmoved, rfl⟩
    obtain ⟨oldName, old, hmem, hname, rfl⟩ := (mem_renameKey hne hfresh).mp hmoved
    refine ⟨oldName, old, hmem, hname, ?_⟩
    rw [id, ite_self]
  · rintro ⟨oldName, old, hmem, rfl, rfl⟩
    refine ⟨old, (mem_renameKey hne hfresh).mpr ⟨oldName, old, hmem, rfl, ?_⟩, rfl⟩
    rw [id, ite_self]

/-- The index is the old one, and the connections of the workflow are, too. -/
theorem destination_of_unconnected {connections : IConnections}
    (hfresh : newName ∉ connections.keys)
    (h : ∀ e ∈ connectionEntries connections,
      e.sourceNode ≠ currentName ∧ e.destinationNode ≠ currentName) :
    groupByDestination ((renameKey id currentName newName connections).map
        (renameTargets currentName newName)) = groupByDestination connections := by
  have hentries : connectionEntries ((renameKey id currentName newName connections).map
      (renameTargets currentName newName)) = connectionEntries connections := by
    rw [connectionEntries_renameTargets,
      connectionEntries_renameKey hfresh fun e he => (h e he).1]
    refine (List.map_congr_left fun e he => ?_).trans (List.map_id _)
    rw [renameDestination, renamed, if_neg (h e he).2]
    rfl
  rw [groupByDestination, hentries, groupByDestination]

/-- After the renaming no connection has the old name at either end. -/
theorem ne_of_mem_renamed {connections : IConnections} (hne : newName ≠ currentName)
    (hfresh : newName ∉ connections.keys) {e : ConnectionEntry}
    (h : e ∈ connectionEntries ((renameKey id currentName newName connections).map
      (renameTargets currentName newName))) :
    e.sourceNode ≠ currentName ∧ e.destinationNode ≠ currentName := by
  constructor
  · intro hsource
    have hkey := sourceNode_mem_keys h
    rw [hsource, InsertionMap.keys_map] at hkey
    exact notMem_keys_renameKey hne hfresh hkey
  · rw [connectionEntries_renameTargets] at h
    obtain ⟨e, -, rfl⟩ := List.mem_map.mp h
    rw [renameDestination, renamed]
    split
    · exact hne
    next hdestination => exact hdestination

/-- What the index lists starts and ends at connections of the workflow. -/
theorem unconnected_of_index {connections connections' : IConnections}
    (hindex : groupByDestination connections = groupByDestination connections')
    (h : ∀ e ∈ connectionEntries connections',
      e.sourceNode ≠ currentName ∧ e.destinationNode ≠ currentName) :
    ∀ e ∈ connectionEntries connections,
      e.sourceNode ≠ currentName ∧ e.destinationNode ≠ currentName := by
  intro e he
  have hlisted := source_mem_sourcesAt he
  rw [hindex] at hlisted
  obtain ⟨e', he', hsource, hdestination⟩ := exists_of_mem_sourcesAt hlisted
  have hname : e'.sourceNode = e.sourceNode := congrArg IConnection.node hsource
  rw [← hname, ← hdestination]
  exact h e' he'

theorem ordinaryNames_renamed {connections : IConnections} (h : OrdinaryNames connections)
    (hallowed : isRestricted newName = false) (hne : newName ≠ currentName)
    (hfresh : newName ∉ connections.keys) :
    OrdinaryNames ((renameKey id currentName newName connections).map
      (renameTargets currentName newName)) := by
  have hproto : newName ≠ "__proto__" := by
    rintro rfl
    exact absurd hallowed (by decide)
  have hown : newName ≠ "hasOwnProperty" := by
    rintro rfl
    exact absurd hallowed (by decide)
  constructor
  · rw [InsertionMap.keys_map]
    intro hkey
    obtain ⟨byType, hmem⟩ := InsertionMap.mem_keys.mp hkey
    obtain ⟨oldName, old, hmem, hname, -⟩ := (mem_renameKey hne hfresh).mp hmem
    rw [renamed] at hname
    split at hname
    · exact hown hname.symm
    · exact h.keys (hname ▸ InsertionMap.mem_keys.mpr ⟨old, hmem⟩)
  · intro e he
    rw [connectionEntries_renameTargets] at he
    obtain ⟨moved, hmoved, rfl⟩ := List.mem_map.mp he
    simp only [renameDestination, renamed]
    split
    · exact ⟨hown, hproto⟩
    · -- the destinations are those of the old entries
      obtain ⟨node, hnode, he⟩ := List.mem_flatMap.mp hmoved
      obtain ⟨oldName, old, hmem, -, hold⟩ :=
        (mem_renameKey hne hfresh).mp (InsertionMap.mem_ownEntries.mp hnode)
      rw [id, ite_self] at hold
      have hentries := nodeEntries_of_name oldName node.1 node.2
      rw [Prod.mk.eta] at hentries
      rw [hentries, hold] at he
      obtain ⟨e, hfrom, rfl⟩ := List.mem_map.mp he
      refine h.destinations e (List.mem_flatMap.mpr ⟨(oldName, old), ?_, hfrom⟩)
      exact InsertionMap.mem_ownEntries.mpr hmem

/-- A trigger that leads to a node `Set`, and a node that refers to itself, in a workflow as
`setConnections` makes it. -/
def triggerAndSet : WorkflowObject :=
  setConnections (InsertionMap.empty.set "Trigger" (InsertionMap.empty.set .main
    [some [⟨"Set", .main, 0⟩]]))
    { nodes := ((InsertionMap.empty.set "Trigger" { name := "Trigger", parameters := .obj [] }).set
        "Set" { name := "Set", parameters := .obj [] }).set
        "Loop" { name := "Loop", parameters := .obj [("text", .str "=Loop")] }
      nodes_name := by
        intro k n hmem
        obtain ⟨rfl, rfl⟩ | ⟨-, hmem⟩ := InsertionMap.mem_set.mp hmem
        · rfl
        · obtain ⟨rfl, rfl⟩ | ⟨-, hmem⟩ := InsertionMap.mem_set.mp hmem
          · rfl
          · obtain ⟨rfl, rfl⟩ | ⟨-, hmem⟩ := InsertionMap.mem_set.mp hmem
            · rfl
            · exact absurd hmem List.not_mem_nil
      connectionsBySourceNode := .empty
      connectionsByDestinationNode := .empty }

end N8n.WorkflowObject
