import N8n.Foundations.SetAll
import N8n.Workflow.ConnectionIndex

/-!
# Turning the connections around

`mapConnectionsByDestination` writes every connection down under its other end. Nothing is lost or
added: read from the other end, the connections of the result are those of its argument, each as
often, and to do it twice gives the same connections again. The names `hasOwnProperty` and
`__proto__` are the exception (`isInversion_iff`), since the result is a plain object.
-/

namespace N8n

/-- The connection as it is read from its other end. -/
def ConnectionEntry.swap (e : ConnectionEntry) : ConnectionEntry where
  sourceNode := e.destinationNode
  outputType := e.inputType
  outputIndex := e.inputIndex
  destinationNode := e.sourceNode
  inputType := e.outputType
  inputIndex := e.outputIndex

/-- The second copy of `mapConnectionsByDestination`, a static method of the class. -/
def Workflow.getConnectionsByDestination (connections : IConnections) : Option IConnections :=
  if connections.has "hasOwnProperty" then none
  else (connectionEntries connections).foldlM addOwnByDestination .empty

/-! ### One connection more -/

/-- An output with one connection more, among those of its node and type. -/
theorem typeEntries_addSource (node : String) (type : NodeConnectionType)
    {inputs : NodeInputConnections} (h : ∀ input ∈ inputs, input ≠ none) (index : ℕ)
    (source : IConnection) :
    (typeEntries node (type, addSource inputs index source)).Perm
      (⟨node, type, index, source.node, source.type, source.index⟩ ::
        typeEntries node (type, inputs)) := by
  suffices hfrom : ∀ start, (((addSource inputs index source).zipIdx start).flatMap
      (outputEntries node type)).Perm
        (⟨node, type, start + index, source.node, source.type, source.index⟩ ::
          (inputs.zipIdx start).flatMap (outputEntries node type)) by
    simpa [typeEntries] using hfrom 0
  induction index generalizing inputs with
  | zero =>
    intro start
    cases inputs with
    | nil => exact .refl _
    | cons input inputs =>
      obtain ⟨l, rfl⟩ := Option.ne_none_iff_exists'.mp (h input List.mem_cons_self)
      simp [addSource, outputEntries, List.perm_middle]
  | succ index ih =>
    intro start
    have hindex : start + (index + 1) = start + 1 + index := by omega
    rw [hindex]
    cases inputs with
    | nil =>
      have hgrow : addSource [] (index + 1) source = some [] :: addSource [] index source := rfl
      have hrest := @ih [] (fun _ hinput => absurd hinput List.not_mem_nil) (start + 1)
      rw [hgrow, List.zipIdx_cons, List.flatMap_cons]
      exact hrest
    | cons input inputs =>
      have hgrow : addSource (input :: inputs) (index + 1) source =
          input :: addSource inputs index source := by
        simp [addSource]
      have hrest := @ih inputs (fun input hinput => h input (List.mem_cons_of_mem _ hinput))
        (start + 1)
      rw [hgrow, List.zipIdx_cons, List.flatMap_cons, List.zipIdx_cons, List.flatMap_cons]
      exact (hrest.append_left _).trans List.perm_middle

/-- `addByDestination` adds the connection, read from its other end. -/
theorem connectionEntries_addByDestination {byDestination : IConnections}
    (h : Filled byDestination) (e : ConnectionEntry) :
    (connectionEntries (addByDestination byDestination e)).Perm
      (e.swap :: connectionEntries byDestination) := by
  refine (connectionEntries_perm _).trans
    (.trans ?_ ((connectionEntries_perm byDestination).symm.cons _))
  rw [addByDestination_eq]
  refine InsertionMap.flatMap_set_perm byDestination [e.swap] ?_
  have hentries : ((byDestination.get? e.destinationNode).map fun byType =>
        nodeEntries (e.destinationNode, byType)).getD [] =
      nodeEntries (e.destinationNode, (byDestination.get? e.destinationNode).getD .empty) := by
    cases byDestination.get? e.destinationNode with
    | none => rfl
    | some byType => rfl
  rw [hentries]
  refine InsertionMap.flatMap_set_perm _ [e.swap] ?_
  have hinputs := typeEntries_addSource e.destinationNode e.inputType
    (h e.destinationNode e.inputType) e.inputIndex e.source
  refine hinputs.trans ?_
  cases ((byDestination.get? e.destinationNode).getD .empty).get? e.inputType with
  | none => exact .refl _
  | some inputs => exact .refl _

/-! ### All connections -/

theorem connectionEntries_foldl_addByDestination (entries : List ConnectionEntry)
    {byDestination : IConnections} (h : Filled byDestination) :
    (connectionEntries (entries.foldl addByDestination byDestination)).Perm
      (entries.map ConnectionEntry.swap ++ connectionEntries byDestination) := by
  induction entries generalizing byDestination with
  | nil => exact .refl _
  | cons e entries ih =>
    refine (ih (h.addByDestination e)).trans ?_
    refine ((connectionEntries_addByDestination h e).append_left _).trans ?_
    exact List.perm_middle

theorem connectionEntries_groupByDestination (connections : IConnections) :
    (connectionEntries (groupByDestination connections)).Perm
      ((connectionEntries connections).map ConnectionEntry.swap) := by
  have hempty : Filled .empty := fun _ _ _ hinput => absurd hinput List.not_mem_nil
  have hfold := connectionEntries_foldl_addByDestination (connectionEntries connections) hempty
  exact hfold.trans (.of_eq (List.append_nil _))

/-- A result has the connections that do not end at `__proto__`, and the argument has no entry
`hasOwnProperty`. -/
theorem entries_of_mapConnectionsByDestination {connections byDestination : IConnections}
    (h : mapConnectionsByDestination connections = some byDestination) :
    "hasOwnProperty" ∉ connections.keys ∧ (connectionEntries byDestination).Perm
      (((connectionEntries connections).filter (·.destinationNode ≠ "__proto__")).map
        ConnectionEntry.swap) := by
  have hfold : ∀ (entries : List ConnectionEntry) (start : IConnections),
      entries.foldlM addOwnByDestination start = some byDestination → byDestination =
        (entries.filter (·.destinationNode ≠ "__proto__")).foldl addByDestination start := by
    intro entries
    induction entries with
    | nil => exact fun _ h => (Option.some.inj h).symm
    | cons e entries ih =>
      intro start h
      rw [List.foldlM_cons] at h
      obtain ⟨next, hnext, h⟩ := Option.bind_eq_some_iff.mp h
      rw [ih next h]
      rw [addOwnByDestination] at hnext
      obtain ⟨-, hnext⟩ := Option.ite_none_left_eq_some.mp hnext
      by_cases hproto : e.destinationNode = "__proto__"
      · rw [if_pos hproto] at hnext
        rw [List.filter_cons_of_neg (by simpa using hproto), Option.some.inj hnext]
      · rw [if_neg hproto] at hnext
        rw [List.filter_cons_of_pos (by simpa using hproto), List.foldl_cons, Option.some.inj hnext]
  obtain ⟨hkeys, h⟩ := Option.ite_none_left_eq_some.mp h
  refine ⟨fun hmem => hkeys (InsertionMap.has_eq_true_iff.mpr hmem), ?_⟩
  rw [hfold _ _ h]
  have hempty : Filled .empty := fun _ _ _ hinput => absurd hinput List.not_mem_nil
  exact (connectionEntries_foldl_addByDestination _ hempty).trans (.of_eq (List.append_nil _))

theorem mem_keys_groupByDestination {connections : IConnections} {name : String}
    (h : name ∈ (groupByDestination connections).keys) :
    ∃ e ∈ connectionEntries connections, e.destinationNode = name := by
  have hfold : ∀ (entries : List ConnectionEntry) (start : IConnections),
      name ∈ (entries.foldl addByDestination start).keys → name ∈ start.keys ∨
        ∃ e ∈ entries, e.destinationNode = name := by
    intro entries
    induction entries with
    | nil => exact fun _ h => .inl h
    | cons e entries ih =>
      intro start h
      obtain hmem | ⟨e', he', hname⟩ := ih _ h
      · obtain hnew | hold := InsertionMap.mem_keys_set.mp hmem
        · exact .inr ⟨e, List.mem_cons_self, hnew.symm⟩
        · exact .inl hold
      · exact .inr ⟨e', List.mem_cons_of_mem _ he', hname⟩
  exact (hfold _ _ h).resolve_left List.not_mem_nil

/-- The connections of the result are those of the argument, read from the other end, each as often;
those of the result for the result are the same again; and the method of the class does the same. -/
def IsInversion (connections : IConnections) : Prop :=
  ∃ byDestination again, mapConnectionsByDestination connections = some byDestination ∧
    mapConnectionsByDestination byDestination = some again ∧
    (connectionEntries byDestination).Perm
      ((connectionEntries connections).map ConnectionEntry.swap) ∧
    (connectionEntries again).Perm (connectionEntries connections) ∧
    Workflow.getConnectionsByDestination connections = mapConnectionsByDestination connections

/-- **When `mapConnectionsByDestination` is an inversion**: no entry and no connection has a name
that gets in the way of an object, at either end. -/
theorem isInversion_iff (connections : IConnections) :
    IsInversion connections ↔ OrdinaryNames connections ∧
      ∀ e ∈ connectionEntries connections, e.sourceNode ≠ "__proto__" := by
  constructor
  · rintro ⟨byDestination, again, hmap, htwice, hperm, hback, -⟩
    obtain ⟨hkeys, hentries⟩ := entries_of_mapConnectionsByDestination hmap
    obtain ⟨hkeys', hentries'⟩ := entries_of_mapConnectionsByDestination htwice
    -- a lost connection would be missing in the permutation, at the first map or at the second
    refine ⟨⟨hkeys, fun e he => ⟨fun hname => hkeys' ?_, ?_⟩⟩, fun e he => ?_⟩
    · have hmem := hperm.mem_iff.mpr (List.mem_map_of_mem he)
      exact hname ▸ sourceNode_mem_keys hmem
    · have hmem := hentries.mem_iff.mp (hperm.mem_iff.mpr (List.mem_map_of_mem he))
      obtain ⟨e', he', heq⟩ := List.mem_map.mp hmem
      have hname : e'.destinationNode = e.destinationNode := congrArg (·.sourceNode) heq
      simpa [hname] using (List.mem_filter.mp he').2
    · have hmem := hentries'.mem_iff.mp (hback.mem_iff.mpr he)
      obtain ⟨e', he', rfl⟩ := List.mem_map.mp hmem
      exact of_decide_eq_true (List.mem_filter.mp he').2
  · rintro ⟨hnames, hsources⟩
    have hperm := connectionEntries_groupByDestination connections
    have hnames' : OrdinaryNames (groupByDestination connections) := by
      refine ⟨fun hmem => ?_, fun e he => ?_⟩
      · obtain ⟨e, he, hname⟩ := mem_keys_groupByDestination hmem
        exact (hnames.destinations e he).1 hname
      · obtain ⟨e, hmem, rfl⟩ := List.mem_map.mp (hperm.mem_iff.mp he)
        exact ⟨fun hname => hnames.keys (hname ▸ sourceNode_mem_keys hmem), hsources e hmem⟩
    refine ⟨_, _, mapConnectionsByDestination_eq hnames, mapConnectionsByDestination_eq hnames',
      hperm, ?_, rfl⟩
    -- swapping the ends twice gives the connections back
    have htwice := hperm.map ConnectionEntry.swap
    have hswap : ConnectionEntry.swap ∘ ConnectionEntry.swap = id := rfl
    rw [List.map_map, hswap, List.map_id] at htwice
    exact (connectionEntries_groupByDestination _).trans htwice

/-- The connection to a node of the name `__proto__` is lost. -/
theorem not_isInversion_toPrototype : ¬IsInversion (InsertionMap.empty.set "Trigger"
    (InsertionMap.empty.set .main [some [⟨"__proto__", .main, 0⟩]])) := by
  rintro ⟨byDestination, -, hmap, -, hperm, -⟩
  obtain rfl : .empty = byDestination := Option.some.inj ((by decide : some .empty = _).trans hmap)
  exact absurd hperm.length_eq (by decide)

end N8n
