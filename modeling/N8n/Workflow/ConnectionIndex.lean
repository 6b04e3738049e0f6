import N8n.Workflow.Workflow

/-!
# The connections of a workflow by destination

What `mapConnectionsByDestination` makes of connections with ordinary names: every input of every
node lists the sources of the connections that end there, in the order in which the connections are
visited.
-/

namespace N8n

variable {connections : IConnections}

/-- The sources that are listed for one input of a node. -/
def sourcesAt (byDestination : IConnections) (node : String) (type : NodeConnectionType)
    (index : ℕ) : List IConnection :=
  ((((byDestination.get? node).getD .empty).get? type).getD [])[index]?.join.getD []

/-- The connection ends at an input of a node. -/
def ConnectionEntry.EndsAt (node : String) (type : NodeConnectionType) (index : ℕ)
    (e : ConnectionEntry) : Prop :=
  e.destinationNode = node ∧ e.inputType = type ∧ e.inputIndex = index

instance (node : String) (type : NodeConnectionType) (index : ℕ) (e : ConnectionEntry) :
    Decidable (e.EndsAt node type index) :=
  inferInstanceAs (Decidable (_ ∧ _ ∧ _))

/-- The source end of a connection. -/
def ConnectionEntry.source (e : ConnectionEntry) : IConnection :=
  ⟨e.sourceNode, e.outputType, e.outputIndex⟩

/-- No input is `null`. -/
def Filled (byDestination : IConnections) : Prop :=
  ∀ node type, ∀ input ∈ (((byDestination.get? node).getD .empty).get? type).getD [],
    input ≠ none

/-- The inputs of a node and type with a connection added: grown as far as needed, with one more
source in its place. -/
def addSource (inputs : NodeInputConnections) (index : ℕ) (source : IConnection) :
    NodeInputConnections :=
  (inputs ++ List.replicate (index + 1 - inputs.length) (some [])).modify index
    (Option.map (· ++ [source]))

theorem getElem?_grown (inputs : NodeInputConnections) (index i : ℕ) :
    (inputs ++ List.replicate (index + 1 - inputs.length) (some []))[i]?.join.getD [] =
      inputs[i]?.join.getD [] := by
  rw [List.getElem?_append]
  split
  · rfl
  next hi =>
    rw [List.getElem?_eq_none (Nat.le_of_not_lt hi), List.getElem?_replicate]
    split <;> rfl

theorem ne_none_of_mem_grown {inputs : NodeInputConnections} (h : ∀ input ∈ inputs, input ≠ none)
    (index : ℕ) : ∀ input ∈ inputs ++ List.replicate (index + 1 - inputs.length) (some []),
      input ≠ none := by
  intro input hinput
  obtain hold | hnew := List.mem_append.mp hinput
  · exact h input hold
  · rw [List.eq_of_mem_replicate hnew]
    exact Option.some_ne_none []

theorem getElem?_addSource {inputs : NodeInputConnections} (h : ∀ input ∈ inputs, input ≠ none)
    (index i : ℕ) (source : IConnection) :
    (addSource inputs index source)[i]?.join.getD [] =
      if i = index then inputs[i]?.join.getD [] ++ [source] else inputs[i]?.join.getD [] := by
  have hgrown := getElem?_grown inputs index i
  rw [addSource, List.getElem?_modify]
  by_cases hi : index = i
  · subst hi
    simp only [if_true]
    rw [← hgrown]
    -- the input is there by now
    have hlt : index < (inputs ++ List.replicate (index + 1 - inputs.length) (some [])).length := by
      rw [List.length_append, List.length_replicate]
      omega
    rw [List.getElem?_eq_getElem hlt]
    have hne := ne_none_of_mem_grown h index _ (List.getElem_mem hlt)
    obtain ⟨l, hl⟩ := Option.ne_none_iff_exists'.mp hne
    rw [hl]
    rfl
  · have hne : ¬i = index := fun heq => hi heq.symm
    simp only [hi, hne, if_false]
    rw [← hgrown]
    simp

theorem ne_none_of_mem_addSource {inputs : NodeInputConnections}
    (h : ∀ input ∈ inputs, input ≠ none) (index : ℕ) (source : IConnection) :
    ∀ input ∈ addSource inputs index source, input ≠ none := by
  intro input hinput
  obtain ⟨i, hi⟩ := List.mem_iff_getElem?.mp hinput
  rw [addSource, List.getElem?_modify] at hi
  obtain ⟨old, hold, rfl⟩ := Option.map_eq_some_iff.mp hi
  have hne := ne_none_of_mem_grown h index old (List.mem_of_getElem? hold)
  split
  · exact fun hnone => hne (Option.map_eq_none_iff.mp hnone)
  · exact hne

theorem addByDestination_eq (byDestination : IConnections) (e : ConnectionEntry) :
    addByDestination byDestination e = byDestination.set e.destinationNode
      (((byDestination.get? e.destinationNode).getD .empty).set e.inputType
        (addSource ((((byDestination.get? e.destinationNode).getD .empty).get? e.inputType).getD [])
          e.inputIndex e.source)) := rfl

/-- The inputs of a node and type after one more connection. -/
theorem inputs_addByDestination (byDestination : IConnections) (e : ConnectionEntry)
    (node : String) (type : NodeConnectionType) :
    ((((addByDestination byDestination e).get? node).getD .empty).get? type).getD [] =
      if node = e.destinationNode ∧ type = e.inputType then
        addSource ((((byDestination.get? node).getD .empty).get? type).getD []) e.inputIndex
          e.source
      else (((byDestination.get? node).getD .empty).get? type).getD [] := by
  rw [addByDestination_eq, InsertionMap.get?_set]
  by_cases hnode : node = e.destinationNode
  · subst hnode
    rw [if_pos rfl, Option.getD_some, InsertionMap.get?_set]
    by_cases htype : type = e.inputType
    · subst htype
      rw [if_pos rfl, if_pos ⟨rfl, rfl⟩]
      rfl
    · rw [if_neg htype, if_neg fun h => htype h.2]
  · rw [if_neg hnode, if_neg fun h => hnode h.1]

theorem Filled.addByDestination {byDestination : IConnections} (h : Filled byDestination)
    (e : ConnectionEntry) : Filled (addByDestination byDestination e) := by
  intro node type
  rw [inputs_addByDestination]
  split
  · exact ne_none_of_mem_addSource (h node type) _ _
  · exact h node type

theorem sourcesAt_addByDestination {byDestination : IConnections} (h : Filled byDestination)
    (e : ConnectionEntry) (node : String) (type : NodeConnectionType) (index : ℕ) :
    sourcesAt (addByDestination byDestination e) node type index =
      sourcesAt byDestination node type index ++
        if e.EndsAt node type index then [e.source] else [] := by
  rw [sourcesAt, sourcesAt, inputs_addByDestination]
  by_cases hhere : node = e.destinationNode ∧ type = e.inputType
  · rw [if_pos hhere, getElem?_addSource (h node type)]
    by_cases hindex : index = e.inputIndex
    · rw [if_pos hindex, if_pos ⟨hhere.1.symm, hhere.2.symm, hindex.symm⟩]
    · rw [if_neg hindex, if_neg fun hends => hindex hends.2.2.symm, List.append_nil]
  · rw [if_neg hhere, if_neg fun hends => hhere ⟨hends.1.symm, hends.2.1.symm⟩, List.append_nil]

/-- **The index by destination**: an input lists the sources of the connections that end there. -/
theorem sourcesAt_groupByDestination (connections : IConnections) (node : String)
    (type : NodeConnectionType) (index : ℕ) :
    sourcesAt (groupByDestination connections) node type index =
      ((connectionEntries connections).filter (·.EndsAt node type index)).map
        ConnectionEntry.source := by
  have hfold : ∀ (entries : List ConnectionEntry) (byDestination : IConnections),
      Filled byDestination →
        sourcesAt (entries.foldl addByDestination byDestination) node type index =
          sourcesAt byDestination node type index ++
            (entries.filter (·.EndsAt node type index)).map ConnectionEntry.source := by
    intro entries
    induction entries with
    | nil => exact fun byDestination _ => (List.append_nil _).symm
    | cons e entries ih =>
      intro byDestination hfilled
      rw [List.foldl_cons, ih _ (hfilled.addByDestination e), sourcesAt_addByDestination hfilled,
        List.append_assoc, List.filter_cons]
      by_cases hends : e.EndsAt node type index
      · rw [if_pos hends, if_pos (decide_eq_true hends)]
        rfl
      · rw [if_neg hends, if_neg (by simpa using hends)]
        rfl
  refine (hfold _ .empty ?_).trans (List.nil_append _)
  exact fun _ _ _ hinput => absurd hinput List.not_mem_nil

/-- A connection is listed with its source where it ends. -/
theorem source_mem_sourcesAt {e : ConnectionEntry} (h : e ∈ connectionEntries connections) :
    e.source ∈ sourcesAt (groupByDestination connections) e.destinationNode e.inputType
      e.inputIndex := by
  rw [sourcesAt_groupByDestination]
  exact List.mem_map_of_mem (List.mem_filter.mpr ⟨h, decide_eq_true ⟨rfl, rfl, rfl⟩⟩)

/-- What is listed comes from a connection. -/
theorem exists_of_mem_sourcesAt {node : String} {type : NodeConnectionType} {index : ℕ}
    {source : IConnection}
    (h : source ∈ sourcesAt (groupByDestination connections) node type index) :
    ∃ e ∈ connectionEntries connections, e.source = source ∧ e.destinationNode = node := by
  rw [sourcesAt_groupByDestination] at h
  obtain ⟨e, he, rfl⟩ := List.mem_map.mp h
  obtain ⟨he, hends⟩ := List.mem_filter.mp he
  exact ⟨e, he, rfl, (of_decide_eq_true hends).1⟩

/-! ### The connections of a workflow -/

/-- A connection starts in the node under whose name it is stored. -/
theorem sourceNode_mem_keys {e : ConnectionEntry} (h : e ∈ connectionEntries connections) :
    e.sourceNode ∈ connections.keys := by
  obtain ⟨⟨node, byType⟩, hnode, he⟩ := List.mem_flatMap.mp h
  obtain ⟨outputs, -, he⟩ := List.mem_flatMap.mp he
  obtain ⟨output, -, he⟩ := List.mem_flatMap.mp he
  obtain ⟨connection, -, rfl⟩ := List.mem_map.mp he
  exact InsertionMap.mem_keys.mpr ⟨byType, InsertionMap.mem_ownEntries.mp hnode⟩

end N8n
