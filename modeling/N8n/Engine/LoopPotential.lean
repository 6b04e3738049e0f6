import Mathlib.Algebra.Order.BigOperators.Group.List
import Mathlib.Algebra.Order.Group.Nat
import N8n.Engine.LoopRuns
import N8n.Foundations.Ranking

/-!
# The potential of an execution

What is on the stack and in the waiting area of an acyclic workflow can only cause a bounded
number of runs. Every entry has a weight: one, while its node has no run, and else more than all
that the node may hand on when it runs. The sum of the weights is the potential of the execution
(`potential`). A node that hands its output on spends less than its weight
(`spends_addChildren`), and a waiting node that is put on the stack spends nothing
(`spends_addWaitingNode`).

An entry that the legacy order adds for an input weighs one, as its node has no run yet.
-/

namespace N8n

namespace WorkflowExecute

/-! ### Weights -/

/-- The number of connections to the inputs of a node. -/
def inputCount (w : Workflow) (nodeName : String) : ℕ :=
  (((mainInputs w nodeName).getD []).flatMap (·.getD [])).length

/-- What a node may hand on over a connection: an entry of the node there, in the waiting area
or not, and an entry for each of its inputs. -/
def deliveryCost (w : Workflow) (weight : String → ℕ) (nodeName : String) : ℕ :=
  weight nodeName + (inputCount w nodeName + 1)

/-- Every node weighs more than what it may hand on. -/
def Weighs (w : Workflow) (weight : String → ℕ) : Prop :=
  ∀ nodeName, ((outputConnections w nodeName).map fun output =>
    deliveryCost w weight output.2.node).sum < weight nodeName

theorem exists_weighs {w : Workflow} (hw : IsAcyclic w) : ∃ weight, Weighs w weight := by
  let successors : String → List String := fun nodeName =>
    (outputConnections w nodeName).map fun output => output.2.node
  have hleads : ∀ nodeName child, child ∈ successors nodeName → LeadsTo w nodeName child :=
    fun _ _ hchild => List.mem_map.mp hchild
  have hfinite : {nodeName | successors nodeName ≠ []}.Finite := by
    refine (List.finite_toSet w.connectionsBySourceNode.keys).subset fun nodeName hne => ?_
    obtain ⟨child, hchild⟩ := List.exists_mem_of_ne_nil _ hne
    exact mem_keys_of_leadsTo (hleads nodeName child hchild)
  have hacyclic : ∀ nodeName, ¬Relation.TransGen (fun nodeName child =>
      child ∈ successors nodeName) nodeName nodeName := fun nodeName hcycle =>
    hw nodeName (Relation.TransGen.mono hleads _ _ hcycle)
  obtain ⟨weight, hweight⟩ := Ranking.exists_weight hfinite hacyclic fun child =>
    inputCount w child + 1
  refine ⟨weight, fun nodeName => ?_⟩
  have hsum := hweight nodeName
  rw [List.map_map] at hsum
  exact hsum

/-- The weight of a node: one as long as it has no run. -/
def nodeWeight (weight : String → ℕ) (runData : IRunData) (nodeName : String) : ℕ :=
  if runData.has nodeName then weight nodeName else 1

/-- The weight of an entry. One of an undefined node ends the loop. -/
def entryWeight (weight : String → ℕ) (runData : IRunData) (executionData : IExecuteData) : ℕ :=
  if executionData.node = default then 1 else nodeWeight weight runData executionData.node.name

/-- The weight of the waiting entries of a node; each weighs more than it does on the stack. -/
def waitingWeight (weight : String → ℕ) (runData : IRunData) (nodeName : String)
    (data : InsertionMap ℕ ITaskDataConnections) : ℕ :=
  data.entries.length * (nodeWeight weight runData nodeName + 1)

/-- The potential of an execution. -/
def potential (weight : String → ℕ) (st : IRunExecutionData) : ℕ :=
  (st.nodeExecutionStack.map (entryWeight weight st.runData)).sum +
    st.waitingExecution.sumOf (waitingWeight weight st.runData)

/-- The entry is of an undefined node or of one of the workflow. -/
def IsWorkflowEntry (w : Workflow) (executionData : IExecuteData) : Prop :=
  executionData.node = default ∨ executionData.node.name ∈ w.nodes.keys

/-- The potential is raised by the cost at most. The runs stay, and all that comes on the stack
is of the workflow. -/
structure Spends (w : Workflow) (weight : String → ℕ) (st st' : IRunExecutionData) (cost : ℕ) :
    Prop where
  runs : st'.runData = st.runData
  stack : ∀ e ∈ st'.nodeExecutionStack, e ∈ st.nodeExecutionStack ∨ IsWorkflowEntry w e
  potential : potential weight st' ≤ potential weight st + cost

variable {w : Workflow} {weight : String → ℕ} {st st' st'' : IRunExecutionData} {d : Delivery}
  {cost cost' : ℕ} {nodeName : String} {runData : IRunData} {executionData : IExecuteData}

theorem Spends.refl (st : IRunExecutionData) : Spends w weight st st 0 :=
  ⟨rfl, fun _ he => .inl he, le_rfl⟩

theorem Spends.trans (h : Spends w weight st st' cost) (h' : Spends w weight st' st'' cost') :
    Spends w weight st st'' (cost + cost') := by
  refine ⟨h'.runs.trans h.runs, fun e he => ?_, ?_⟩
  · obtain he | he := h'.stack e he
    · exact h.stack e he
    · exact .inr he
  · have hfirst := h.potential
    have hsecond := h'.potential
    omega

theorem Spends.mono (h : Spends w weight st st' cost) (hle : cost ≤ cost') :
    Spends w weight st st' cost' :=
  ⟨h.runs, h.stack, h.potential.trans (Nat.add_le_add_left hle _)⟩

/-- What goes through a list spends what it spends for each of its elements. -/
theorem spends_foldUntilError {α : Type} {f : IRunExecutionData → α →
      IRunExecutionData × Except EngineError Unit} (l : List α) (costOf : α → ℕ)
    (h : ∀ a ∈ l, ∀ st, Spends w weight st (f st a).1 (costOf a)) (st : IRunExecutionData) :
    Spends w weight st (ExceptFold.foldUntilError f st l).1 (l.map costOf).sum := by
  induction l generalizing st with
  | nil => exact Spends.refl st
  | cons a l ih =>
    obtain ⟨ha, hl⟩ := List.forall_mem_cons.mp h
    have hfirst := ha st
    rw [ExceptFold.foldUntilError, List.map_cons, List.sum_cons]
    split
    next st' heq =>
      rw [heq] at hfirst
      exact hfirst.trans (ih hl st')
    next st' e heq =>
      rw [heq] at hfirst
      exact hfirst.mono (Nat.le_add_right _ _)

theorem Weighs.one_le (hw : Weighs w weight) (nodeName : String) : 1 ≤ weight nodeName :=
  Nat.lt_of_le_of_lt (Nat.zero_le _) (hw nodeName)

theorem Weighs.nodeWeight_le (hw : Weighs w weight) (runData : IRunData) (nodeName : String) :
    nodeWeight weight runData nodeName ≤ weight nodeName := by
  rw [nodeWeight]
  split
  · exact le_rfl
  · exact hw.one_le nodeName

theorem Weighs.one_le_nodeWeight (hw : Weighs w weight) (runData : IRunData)
    (nodeName : String) : 1 ≤ nodeWeight weight runData nodeName := by
  rw [nodeWeight]
  split
  · exact hw.one_le nodeName
  · exact le_rfl

theorem Weighs.one_le_entryWeight (hw : Weighs w weight) (runData : IRunData)
    (executionData : IExecuteData) : 1 ≤ entryWeight weight runData executionData := by
  rw [entryWeight]
  split
  · exact le_rfl
  · exact hw.one_le_nodeWeight runData _

/-- An entry of the workflow weighs what its node does, at most. -/
theorem Weighs.entryWeight_le (hw : Weighs w weight)
    (hnode : executionData.node = default ∨ executionData.node.name = nodeName) :
    entryWeight weight runData executionData ≤ nodeWeight weight runData nodeName := by
  rw [entryWeight]
  split
  next => exact hw.one_le_nodeWeight runData nodeName
  next hdefined => rw [hnode.resolve_left hdefined]

theorem mem_keys_of_getNode {node : INode} (h : w.getNode nodeName = some node) :
    nodeName ∈ w.nodes.keys :=
  InsertionMap.mem_keys.mpr ⟨node, InsertionMap.get?_eq_some_iff.mp h⟩

/-- A node that is looked up by its name is undefined or has that name. -/
theorem workflowNode_cases (w : Workflow) (nodeName : String) :
    workflowNode w nodeName = default ∨
      (workflowNode w nodeName).name = nodeName ∧ nodeName ∈ w.nodes.keys := by
  rw [workflowNode]
  cases hnode : w.getNode nodeName with
  | none => exact .inl rfl
  | some node => exact .inr ⟨Workflow.name_of_getNode hnode, mem_keys_of_getNode hnode⟩

/-! ### Entries that are pushed -/

theorem potential_enqueue (weight : String → ℕ) (w : Workflow) (executionData : IExecuteData)
    (st : IRunExecutionData) :
    potential weight { st with
        nodeExecutionStack := enqueue w executionData st.nodeExecutionStack } =
      potential weight st + entryWeight weight st.runData executionData := by
  have hsum : ((enqueue w executionData st.nodeExecutionStack).map
      (entryWeight weight st.runData)).sum =
        (st.nodeExecutionStack.map (entryWeight weight st.runData)).sum +
          entryWeight weight st.runData executionData := by
    rw [enqueue]
    split
    · rw [List.map_cons, List.sum_cons, Nat.add_comm]
    · rw [List.map_append, List.sum_append, List.map_singleton, List.sum_singleton]
  rw [potential, potential]
  simp only [hsum]
  omega

/-- Push an entry of a node of the workflow. -/
theorem spends_enqueue (hw : Weighs w weight) (executionData : IExecuteData)
    (hnode : executionData.node = default ∨
      executionData.node.name = nodeName ∧ nodeName ∈ w.nodes.keys) (st : IRunExecutionData) :
    Spends w weight st
      { st with nodeExecutionStack := enqueue w executionData st.nodeExecutionStack }
      (nodeWeight weight st.runData nodeName) := by
  refine ⟨rfl, fun e he => ?_, ?_⟩
  · have hmem : e ∈ st.nodeExecutionStack ∨ e = executionData := by
      simp only [enqueue] at he
      split at he
      · exact (List.mem_cons.mp he).symm
      · simpa using he
    refine hmem.imp_right fun heq => ?_
    rw [heq]
    obtain hundefined | ⟨hname, hkey⟩ := hnode
    · exact .inl hundefined
    · exact .inr (hname ▸ hkey)
  · rw [potential_enqueue]
    exact Nat.add_le_add_left (hw.entryWeight_le (hnode.imp_right And.left)) _

/-! ### Data that is delivered -/

section Deliver

variable {α : Type}
  {entries entries' : InsertionMap ℕ (InsertionMap NodeConnectionType (List (Slot α)))}
  {slot : Slot α} {runIndex inputIndex : ℕ}

theorem mem_keys_of_setMain (h : setMain entries runIndex inputIndex slot = some entries') :
    runIndex ∈ entries'.keys ∧ entries'.entries.length = entries.entries.length := by
  obtain ⟨entry, hentry, h⟩ := Option.bind_eq_some_iff.mp h
  obtain ⟨main, _, rfl⟩ := Option.map_eq_some_iff.mp h
  refine ⟨InsertionMap.mem_keys_set_self _ _ _, InsertionMap.size_set_of_mem ?_ _⟩
  exact InsertionMap.mem_keys.mpr ⟨entry, InsertionMap.get?_eq_some_iff.mp hentry⟩

/-- An entry that is complete leaves; else there are as many as before. -/
theorem length_fill (runIndex inputIndex : ℕ) (data : Slot (List INodeExecutionData))
    (source : Slot ISourceData) (waiting : NodeWaiting) :
    (waiting.fill runIndex inputIndex data source).1.data.entries.length ≤
        waiting.data.entries.length ∧
      ∀ d s, (waiting.fill runIndex inputIndex data source).2 = .ok (.complete d s) →
        (waiting.fill runIndex inputIndex data source).1.data.entries.length <
          waiting.data.entries.length := by
  rw [NodeWaiting.fill]
  split
  next => exact ⟨le_rfl, nofun⟩
  next entries' hset =>
    obtain ⟨hmem, hlength⟩ := mem_keys_of_setMain hset
    split
    next => exact ⟨hlength.le, nofun⟩
    next =>
      simp only
      split
      next =>
        obtain ⟨entry, hentry⟩ := InsertionMap.mem_keys.mp hmem
        have hless : (entries'.erase runIndex).entries.length < waiting.data.entries.length := by
          rw [← hlength, (InsertionMap.entries_perm_of_get?
            (InsertionMap.get?_eq_some_iff.mpr hentry)).length_eq]
          exact Nat.lt_succ_self _
        exact ⟨hless.le, fun _ _ _ => hless⟩
      next => exact ⟨hlength.le, nofun⟩

/-- A delivery adds one waiting entry at most, and none when it completes one. -/
theorem length_deliver (numberOfInputs inputIndex : ℕ) (data : Slot (List INodeExecutionData))
    (source : Slot ISourceData) (waiting : NodeWaiting) :
    (waiting.deliver numberOfInputs inputIndex data source).1.data.entries.length ≤
        waiting.data.entries.length + 1 ∧
      ∀ d s, (waiting.deliver numberOfInputs inputIndex data source).2 = .ok (.complete d s) →
        (waiting.deliver numberOfInputs inputIndex data source).1.data.entries.length ≤
          waiting.data.entries.length := by
  rw [NodeWaiting.deliver]
  split
  next => exact ⟨Nat.le_succ _, nofun⟩
  next waitingNodeIndex _ =>
    obtain ⟨hle, hcomplete⟩ := length_fill waitingNodeIndex inputIndex data source waiting
    exact ⟨Nat.le_succ_of_le hle, fun d s h => (hcomplete d s h).le⟩
  next =>
    let prepared := prepareWaitingToExecution numberOfInputs waiting.data.entries.length waiting
    have hprepared : prepared.data.entries.length ≤ waiting.data.entries.length + 1 :=
      InsertionMap.size_set_le _ _ _
    obtain ⟨hle, hcomplete⟩ := length_fill waiting.data.entries.length inputIndex data
      source prepared
    refine ⟨hle.trans hprepared, fun d s h => ?_⟩
    exact Nat.le_of_lt_succ ((hcomplete d s h).trans_le hprepared)

theorem length_keepMain_le
    (entries : InsertionMap ℕ (InsertionMap NodeConnectionType (List (Slot α)))) (runIndex : ℕ) :
    (keepMain entries runIndex).entries.length ≤ entries.entries.length := by
  rw [keepMain]
  split
  next => exact le_rfl
  next main hmain =>
    obtain ⟨entry, hentry, _⟩ := Option.bind_eq_some_iff.mp hmain
    refine (InsertionMap.size_set_of_mem ?_ _).le
    exact InsertionMap.mem_keys.mpr ⟨entry, InsertionMap.get?_eq_some_iff.mp hentry⟩

end Deliver

/-- The waiting entries of a node are written again, with some more than there were. -/
theorem spends_of_waiting (waiting : NodeWaiting) (more : ℕ)
    (hstack : st'.nodeExecutionStack = st.nodeExecutionStack) (hruns : st'.runData = st.runData)
    (hwaiting : st'.waitingExecution = st.waitingExecution.set nodeName waiting.data ∨
      waiting.data.entries.length = 0 ∧
        st'.waitingExecution = st.waitingExecution.erase nodeName)
    (hlength : waiting.data.entries.length ≤
      (nodeWaiting st nodeName).data.entries.length + more) :
    Spends w weight st st' (more * (nodeWeight weight st.runData nodeName + 1)) := by
  let rest := (st.waitingExecution.erase nodeName).sumOf (waitingWeight weight st.runData)
  have hbefore : st.waitingExecution.sumOf (waitingWeight weight st.runData) =
      waitingWeight weight st.runData nodeName (nodeWaiting st nodeName).data + rest := by
    rw [nodeWaiting]
    cases hdata : st.waitingExecution.get? nodeName with
    | none =>
      simp only [waitingWeight, InsertionMap.entries_empty, List.length_nil, Nat.zero_mul,
        Nat.zero_add, rest, InsertionMap.erase_of_get?_eq_none hdata]
    | some data => exact InsertionMap.sumOf_of_get? hdata
  have hafter : st'.waitingExecution.sumOf (waitingWeight weight st.runData) =
      waitingWeight weight st.runData nodeName waiting.data + rest := by
    obtain hset | ⟨hnone, herase⟩ := hwaiting
    · rw [hset]
      exact InsertionMap.sumOf_set _ _ _ _
    · rw [herase, waitingWeight, hnone, Nat.zero_mul, Nat.zero_add]
  refine ⟨hruns, fun e he => .inl (hstack ▸ he), ?_⟩
  have hweight := Nat.mul_le_mul_right (nodeWeight weight st.runData nodeName + 1) hlength
  rw [Nat.add_mul] at hweight
  rw [potential, potential, hstack, hruns, hbefore, hafter, waitingWeight, waitingWeight]
  omega

/-! ### Nodes that are added for the other inputs -/

/-- The node that is chosen has no run. -/
theorem runData_of_chooseNodeToAdd {outputNodes executionStackNodes parentNodes : List String}
    {inputNode chosen start : String}
    (h : chooseNodeToAdd outputNodes executionStackNodes runData inputNode parentNodes start =
      some chosen) (hstart : runData.has start = false) : runData.has chosen = false := by
  induction parentNodes generalizing start with
  | nil =>
    obtain rfl := Option.some.inj h
    exact hstart
  | cons parentNode parentNodes ih =>
    rw [chooseNodeToAdd] at h
    split at h
    next => cases h
    next =>
      split at h
      next => cases h
      next =>
        split at h
        next =>
          obtain rfl := Option.some.inj h
          exact hstart
        next hparent => exact ih h (Bool.eq_false_iff.mpr hparent)

theorem runData_of_nodeToAdd {outputNodes : List String} {inputData : IConnection}
    (h : nodeToAdd w d outputNodes st inputData = .ok (some nodeName)) :
    st.runData.has nodeName = false := by
  rw [nodeToAdd] at h
  split at h
  next => cases h
  next =>
    cases hadded : addedByParent w st.runData d.runIndex outputNodes inputData.node with
    | error e =>
      rw [hadded] at h
      cases h
    | ok added =>
      rw [hadded] at h
      simp only [bind, Except.bind] at h
      split at h
      next => cases h
      next hnot =>
        have hinput : st.runData.has inputData.node = false := by
          rw [not_or, not_or, not_or] at hnot
          exact Bool.eq_false_iff.mpr hnot.2.2.1
        split at h
        next => cases h
        next chosen hchosen =>
          have hunrecorded := runData_of_chooseNodeToAdd hchosen hinput
          split at h
          next =>
            split at h
            next =>
              split at h
              next => cases h
              next =>
                obtain rfl := Option.some.inj (Except.ok.inj h)
                exact hunrecorded
            next => cases h
          next =>
            obtain rfl := Option.some.inj (Except.ok.inj h)
            exact hunrecorded

theorem spends_addInputNode (hw : Weighs w weight) (d : Delivery) (outputNodes : List String)
    (st : IRunExecutionData) (inputData : IConnection) :
    Spends w weight st (addInputNode w d outputNodes st inputData).1 1 := by
  rw [addInputNode]
  split
  next => exact (Spends.refl st).mono (Nat.zero_le 1)
  next => exact (Spends.refl st).mono (Nat.zero_le 1)
  next nodeName hadd =>
    have hunrecorded : st.runData.has nodeName = false := by
      cases hnode : nodeToAdd w d outputNodes st inputData with
      | error e =>
        rw [hnode] at hadd
        cases hadd
      | ok chosen =>
        rw [hnode] at hadd
        simp only [bind, Except.bind] at hadd
        split at hadd
        next => cases hadd
        next chosen =>
          have hunrecorded := runData_of_nodeToAdd hnode
          split at hadd
          next =>
            split at hadd
            next => cases hadd
            next =>
              split at hadd
              next => cases hadd
              next isEmpty _ =>
                cases isEmpty with
                | false => cases hadd
                | true =>
                  obtain rfl := Option.some.inj (Except.ok.inj hadd)
                  exact hunrecorded
          next =>
            obtain rfl := Option.some.inj (Except.ok.inj hadd)
            exact hunrecorded
    have hweight : nodeWeight weight st.runData nodeName = 1 := by
      rw [nodeWeight, hunrecorded]
      rfl
    rw [← hweight]
    exact spends_enqueue hw (emptyItemEntry w d nodeName) (workflowNode_cases w nodeName) st

theorem spends_addInputNodes (hw : Weighs w weight) (d : Delivery) (st : IRunExecutionData) :
    Spends w weight st (addInputNodes w d st).1 (inputCount w d.connectionData.node) := by
  rw [addInputNodes]
  split
  next => exact (Spends.refl st).mono (Nat.zero_le _)
  next outputNodes _ =>
    have hcount : (((mainInputs w d.connectionData.node).getD []).flatMap (·.getD [])).map
        (fun _ => 1) = List.replicate (inputCount w d.connectionData.node) 1 := List.map_const'
    have hfold := spends_foldUntilError
      (((mainInputs w d.connectionData.node).getD []).flatMap (·.getD [])) (fun _ => 1)
      (fun inputData _ st => spends_addInputNode hw d outputNodes st inputData) st
    rw [hcount, List.sum_replicate_nat, Nat.mul_one] at hfold
    exact hfold

/-! ### A node that is added -/

/-- A delivery to a node with several inputs. -/
theorem spends_addToWaiting (hw : Weighs w weight) (d : Delivery) (st : IRunExecutionData) :
    Spends w weight st (addToWaiting w d st).1
      (deliveryCost w weight d.connectionData.node) := by
  have hnode := hw.nodeWeight_le st.runData d.connectionData.node
  obtain ⟨hlength, hcomplete⟩ := length_deliver (numberOfInputs w d.connectionData.node)
    d.connectionData.index d.data d.source (nodeWaiting st d.connectionData.node)
  rw [← deliverTo] at hlength hcomplete
  rw [addToWaiting]
  simp only [deliveryCost]
  split
  next waiting e heq =>
    rw [heq] at hlength
    exact Spends.mono (spends_of_waiting waiting 1 rfl rfl (.inl rfl) hlength) (by omega)
  next waiting data source heq =>
    have hless := hcomplete data source (congrArg Prod.snd heq)
    rw [heq] at hless
    -- the entry leaves the waiting area, and goes on the stack
    have hleave : Spends w weight st (setOrDeleteNodeWaiting d.connectionData.node waiting st)
        (0 * (nodeWeight weight st.runData d.connectionData.node + 1)) := by
      rw [setOrDeleteNodeWaiting]
      split
      next hnone => exact spends_of_waiting waiting 0 rfl rfl (.inr ⟨hnone, rfl⟩) hless
      next => exact spends_of_waiting waiting 0 rfl rfl (.inl rfl) hless
    have hstack : (setOrDeleteNodeWaiting d.connectionData.node waiting st).nodeExecutionStack =
        st.nodeExecutionStack := by
      rw [setOrDeleteNodeWaiting]
      split <;> rfl
    have hpush := spends_enqueue hw
      { node := workflowNode w d.connectionData.node, data, source := some source }
      (workflowNode_cases w d.connectionData.node)
      (setOrDeleteNodeWaiting d.connectionData.node waiting st)
    rw [hstack] at hpush
    refine Spends.mono (hleave.trans hpush) ?_
    rw [hleave.runs]
    omega
  next waiting waitingNodeIndex heq =>
    rw [heq] at hlength
    have hset : Spends w weight st (setNodeWaiting d.connectionData.node waiting st)
        (1 * (nodeWeight weight st.runData d.connectionData.node + 1)) :=
      spends_of_waiting waiting 1 rfl rfl (.inl rfl) hlength
    have hadd : Spends w weight st (if st.waitingExecution.has d.connectionData.node = true then
        (setNodeWaiting d.connectionData.node waiting st, Except.ok ())
        else addInputNodes w d (setNodeWaiting d.connectionData.node waiting st)).1
        (deliveryCost w weight d.connectionData.node) := by
      rw [deliveryCost]
      split
      next => exact hset.mono (by omega)
      next => exact (hset.trans (spends_addInputNodes hw d _)).mono (by omega)
    rw [← deliveryCost]
    split
    next st' e heq =>
      rw [heq] at hadd
      exact hadd
    next st' heq =>
      rw [heq] at hadd
      -- writing the entry again adds none
      have hrewrite : ((nodeWaiting st' d.connectionData.node).rewrite
          waitingNodeIndex).data.entries.length ≤
            (nodeWaiting st' d.connectionData.node).data.entries.length + 0 :=
        length_keepMain_le _ waitingNodeIndex
      have hagain : Spends w weight st' (setNodeWaiting d.connectionData.node
          ((nodeWaiting st' d.connectionData.node).rewrite waitingNodeIndex) st')
            (0 * (nodeWeight weight st'.runData d.connectionData.node + 1)) :=
        spends_of_waiting _ 0 rfl rfl (.inl rfl) hrewrite
      exact (hadd.trans hagain).mono (by omega)

theorem spends_addNodeToBeExecuted (hw : Weighs w weight) (d : Delivery)
    (st : IRunExecutionData) :
    Spends w weight st (addNodeToBeExecuted w d st).1
      (deliveryCost w weight d.connectionData.node) := by
  rw [addNodeToBeExecuted]
  split
  next => exact spends_addToWaiting hw d st
  next =>
    split
    next => exact (Spends.refl st).mono (Nat.zero_le _)
    next node hnode =>
      have hname : node = default ∨ node.name = d.connectionData.node ∧
          d.connectionData.node ∈ w.nodes.keys :=
        .inr ⟨Workflow.name_of_getNode hnode, mem_keys_of_getNode hnode⟩
      refine (spends_enqueue hw (directEntry d node) hname st).mono ?_
      exact (hw.nodeWeight_le st.runData _).trans (Nat.le_add_right _ _)

/-! ### The nodes behind a node -/

theorem eq_of_mapM_checkDestination {outputs outputs' : List (ℕ × IConnection)}
    (h : (outputs.mapM fun output => do
      checkDestination w output.2
      return output) = .ok outputs') : outputs' = outputs := by
  induction outputs generalizing outputs' with
  | nil => exact (Except.ok.inj h).symm
  | cons output outputs ih =>
    rw [List.mapM_cons] at h
    cases hcheck : checkDestination w output.2 with
    | error e =>
      rw [hcheck] at h
      cases h
    | ok u =>
      rw [hcheck] at h
      cases hrest : outputs.mapM fun output => do
          checkDestination w output.2
          return output with
      | error e =>
        rw [hrest] at h
        cases h
      | ok rest =>
        rw [hrest] at h
        obtain rfl := ih hrest
        exact (Except.ok.inj h).symm

theorem sum_nodesToAdd_le {nodeSuccessData : NodeOutputs} {nodes : List NodeToAdd}
    (h : nodesToAdd w nodeSuccessData nodeName = .ok nodes) (costOf : String → ℕ) :
    (nodes.map fun node => costOf node.connection.node).sum ≤
      ((outputConnections w nodeName).map fun output => costOf output.2.node).sum := by
  rw [nodesToAdd] at h
  cases houtputs : (outputConnections w nodeName).mapM fun output => do
      checkDestination w output.2
      return output with
  | error e =>
    rw [houtputs] at h
    cases h
  | ok outputs =>
    rw [houtputs] at h
    obtain rfl := eq_of_mapM_checkDestination houtputs
    obtain rfl := Except.ok.inj h
    rw [((List.perm_insertionSort _ _).map _).sum_eq, List.map_map]
    exact ((List.filter_sublist).map _).sum_le_sum fun _ _ => Nat.zero_le _

/-- **A node hands on less than its weight.** -/
theorem spends_addChildren (hw : Weighs w weight) (nodeName : String)
    (nodeSuccessData : NodeOutputs) (runIndex : ℕ) (st : IRunExecutionData) :
    ∃ cost < weight nodeName,
      Spends w weight st (addChildren w nodeName nodeSuccessData runIndex st).1 cost := by
  refine ⟨_, hw nodeName, ?_⟩
  rw [addChildren]
  split
  next =>
    refine spends_foldUntilError _ _ (fun output _ st => ?_) st
    rw [addChild]
    split
    next => exact (Spends.refl st).mono (Nat.zero_le _)
    next =>
      split
      next => exact spends_addNodeToBeExecuted hw _ st
      next => exact (Spends.refl st).mono (Nat.zero_le _)
  next =>
    split
    next => exact (Spends.refl st).mono (Nat.zero_le _)
    next nodes hnodes =>
      have hfold := spends_foldUntilError nodes
        (fun node => deliveryCost w weight node.connection.node)
        (fun node _ st => spends_addNodeToBeExecuted hw
          (childDelivery nodeName nodeSuccessData runIndex node.outputIndex node.connection) st) st
      exact hfold.mono (sum_nodesToAdd_le hnodes (deliveryCost w weight))

/-! ### The waiting nodes -/

/-- An entry that is removed lowers the potential by its weight. -/
theorem potential_removeWaiting {data : InsertionMap ℕ ITaskDataConnections} {runIndex : ℕ}
    {entry : ITaskDataConnections} (hdata : st.waitingExecution.get? nodeName = some data)
    (hentry : data.get? runIndex = some entry) :
    potential weight (removeWaiting nodeName runIndex st).1 +
      (nodeWeight weight st.runData nodeName + 1) = potential weight st := by
  let rest := (st.waitingExecution.erase nodeName).sumOf (waitingWeight weight st.runData)
  have hlength : data.entries.length = (data.erase runIndex).entries.length + 1 := by
    rw [(InsertionMap.entries_perm_of_get? hentry).length_eq, List.length_cons]
  have hbefore : st.waitingExecution.sumOf (waitingWeight weight st.runData) =
      waitingWeight weight st.runData nodeName (data.erase runIndex) + rest +
        (nodeWeight weight st.runData nodeName + 1) := by
    rw [InsertionMap.sumOf_of_get? hdata, waitingWeight, waitingWeight, hlength, Nat.add_mul,
      Nat.one_mul]
    omega
  have hset : (st.waitingExecution.set nodeName (data.erase runIndex)).sumOf
      (waitingWeight weight st.runData) =
        waitingWeight weight st.runData nodeName (data.erase runIndex) + rest :=
    InsertionMap.sumOf_set _ _ _ _
  rw [removeWaiting, hdata, Option.getD_some]
  split
  next =>
    simp only [potential, hbefore, hset]
    omega
  next source _ =>
    simp only [setOrDeleteNodeWaiting]
    split
    next hnone =>
      rw [waitingWeight, hnone] at hbefore
      simp only [potential, deleteNodeWaiting, hbefore, rest]
      omega
    next =>
      simp only [potential, setNodeWaiting, hbefore, hset]
      omega

theorem exists_entry_of_firstWaitingEntry {runIndex : ℕ} {main : NodeOutputs}
    (h : firstWaitingEntry st nodeName = some (runIndex, main)) :
    ∃ data entry, st.waitingExecution.get? nodeName = some data ∧
      data.get? runIndex = some entry := by
  obtain ⟨data, hdata, h⟩ := Option.bind_eq_some_iff.mp h
  obtain ⟨runIndex', _, h⟩ := Option.bind_eq_some_iff.mp h
  obtain ⟨main', hmain, h⟩ := Option.map_eq_some_iff.mp h
  obtain ⟨rfl, rfl⟩ := Prod.mk.inj h
  obtain ⟨entry, hentry, _⟩ := Option.bind_eq_some_iff.mp hmain
  exact ⟨data, entry, hdata, hentry⟩

theorem spends_checkWaitingNode (hw : Weighs w weight) (waitingNodes : List String)
    (nodeName : String) (st : IRunExecutionData) :
    Spends w weight st (checkWaitingNode w waitingNodes nodeName st).1 0 := by
  rw [checkWaitingNode]
  split
  next => exact Spends.refl st
  next checkNode hnode =>
    split
    next => exact Spends.refl st
    next =>
      split
      next => exact Spends.refl st
      next =>
        split
        next => exact Spends.refl st
        next runIndex main hfirst =>
          obtain ⟨data, entry, hdata, hentry⟩ := exists_entry_of_firstWaitingEntry hfirst
          have hremove : Spends w weight st (removeWaiting nodeName runIndex st).1 0 := by
            obtain ⟨hstack, hruns, _⟩ := adds_removeWaiting nodeName runIndex st
            rw [List.append_nil] at hstack
            refine ⟨hruns, fun e he => .inl (hstack ▸ he), ?_⟩
            rw [← potential_removeWaiting hdata hentry]
            omega
          split
          next => exact Spends.refl st
          next =>
            split
            next =>
              split
              next => exact Spends.refl st
              next source _ =>
                -- on the stack the entry weighs less than in the waiting area
                let item := waitingNodeEntry w checkNode (taskDataMain main)
                  (source.get? runIndex)
                let pushed : IRunExecutionData :=
                  { st with nodeExecutionStack := st.nodeExecutionStack ++ [item] }
                have hname : item.node.name = nodeName := Workflow.name_of_getNode hnode
                obtain ⟨hstack, hruns, _⟩ := adds_removeWaiting nodeName runIndex pushed
                rw [List.append_nil] at hstack
                refine ⟨hruns, fun e he => ?_, ?_⟩
                · obtain he | he := List.mem_append.mp (hstack ▸ he)
                  · exact .inl he
                  · obtain rfl := List.mem_singleton.mp he
                    exact .inr (.inr (hname ▸ mem_keys_of_getNode hnode))
                · have hweight : entryWeight weight st.runData item ≤
                      nodeWeight weight st.runData nodeName := hw.entryWeight_le (.inr hname)
                  have hleave : potential weight (removeWaiting nodeName runIndex pushed).1 +
                      (nodeWeight weight st.runData nodeName + 1) = potential weight pushed :=
                    potential_removeWaiting hdata hentry
                  have hpushed : potential weight pushed =
                      potential weight st + entryWeight weight st.runData item := by
                    simp only [potential, pushed, List.map_append, List.sum_append,
                      List.map_singleton, List.sum_singleton]
                    omega
                  show potential weight (removeWaiting nodeName runIndex pushed).1 ≤
                    potential weight st + 0
                  omega
            next =>
              split
              next heq =>
                rw [heq] at hremove
                exact hremove
              next heq =>
                rw [heq] at hremove
                exact hremove

theorem spends_checkWaitingNodes (hw : Weighs w weight) (waitingNodes nodeNames : List String)
    (st : IRunExecutionData) :
    Spends w weight st (checkWaitingNodes w waitingNodes nodeNames st).1 0 := by
  induction nodeNames generalizing st with
  | nil => exact Spends.refl st
  | cons nodeName nodeNames ih =>
    have hfirst := spends_checkWaitingNode hw waitingNodes nodeName st
    rw [checkWaitingNodes]
    split
    next st' heq =>
      rw [heq] at hfirst
      exact hfirst.trans (ih st')
    next => exact hfirst

/-- A waiting node is put on the stack for free. -/
theorem spends_addWaitingNode (hw : Weighs w weight) (st : IRunExecutionData) :
    Spends w weight st (addWaitingNode w st).1 0 := by
  have hsearch : ∀ rounds st, Spends w weight st (searchWaitingNodes w rounds st).1 0 := by
    intro rounds
    induction rounds with
    | zero => exact Spends.refl
    | succ rounds ih =>
      intro st
      have hround := spends_checkWaitingNodes hw st.waitingExecution.ownKeys
        st.waitingExecution.ownKeys st
      rw [searchWaitingNodes]
      split
      next st' heq =>
        rw [heq] at hround
        exact hround.trans (ih st')
      next heq =>
        rw [heq] at hround
        exact hround
      next heq =>
        rw [heq] at hround
        exact hround
  rw [addWaitingNode]
  split
  next => exact hsearch _ st
  next => exact Spends.refl st

end WorkflowExecute

end N8n
