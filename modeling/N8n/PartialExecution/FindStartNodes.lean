import N8n.Foundations.Paths
import N8n.PartialExecution.GraphTraversal
import N8n.PartialExecution.IncomingData

/-!
# Start nodes

`findStartNodes` walks from the trigger along the connections that carry data and stops a
branch at the first node that has to be executed again. What it has seen is remembered
along the branch only, so that it finds every path without repetitions; and every path to
the destination contains one of these. The nodes it returns therefore form a cut
(`findStartNodes_spec`).

A node of type `splitInBatches` is also returned when its last run has no data on the
output that leads on: the `done` output when the node is part of a loop, and the `loop`
output when it is not.
-/

namespace N8n

open Relation

/-! ### The search -/

/-- Whether a node has to be executed again. That properties changed, or that a parent was
disabled, is not implemented. -/
def IsDirty (node : INode) (runData : IRunData) (pinData : IPinData) : Bool :=
  let hasAnError := (runData.runs node.name).any fun taskData => taskData.error.isSome
  let hasPinnedData := pinData.has node.name
  let hasRunData := runData.has node.name
  if hasAnError then true
  else if hasPinnedData then false
  else if hasRunData then false
  else true

/-- `isDirty`. Where there is no run data of a node with the name of a member of `Object.prototype`,
`runData?.[node.name]?.some` calls what that member does not have. -/
def isDirty (node : INode) (runData : IRunData) (pinData : IPinData) : Except GraphError Bool :=
  if runData.has node.name = false ∧ node.name ∈ InsertionMap.inheritedKeys then .error .typeError
  else .ok (IsDirty node runData pinData)

namespace DirectedGraph

def isALoop (graph : DirectedGraph) (node : INode) : Except GraphError Bool := do
  let children ← graph.getChildren node
  return decide (node ∈ children)

/-- The check of a loop node: whether its last run has no data on the output that leads
on. -/
def isUnfinishedLoop (graph : DirectedGraph) (current : INode) (runData : IRunData) :
    Except GraphError Bool :=
  if current.type = "n8n-nodes-base.splitInBatches" then do
    let loops ← graph.isALoop current
    let nodeRunData ← getIncomingData runData current.name (-1) .main (if loops then 0 else 1)
    return match nodeRunData with
      | none => true
      | some data => data.length == 0
  else .ok false

/-- One iteration over the outgoing connections: only the outputs that have run data, and
those of pinned nodes, are followed. -/
def followConnection (runData : IRunData) (pinData : IPinData)
    (outGoingConnection : GraphConnection)
    (recurse : InsertionSet INode → Except GraphError (InsertionSet INode))
    (startNodes : InsertionSet INode) : Except GraphError (InsertionSet INode) := do
  let nodeRunData ← getIncomingDataFromAnyRun runData outGoingConnection.fromNode.name
    outGoingConnection.type outGoingConnection.outputIndex
  let hasNoRunData := match nodeRunData with
    | none => true
    | some (data, _) => data.length == 0
  let hasNoPinnedData := !pinData.has outGoingConnection.fromNode.name
  if hasNoRunData && hasNoPinnedData then .ok startNodes else recurse startNodes

/-- `findStartNodesRecursive`, with a bound on the depth of nested calls. -/
def findStartNodesRecursive (graph : DirectedGraph) (destination : INode) (runData : IRunData)
    (pinData : IPinData) : ℕ → INode → InsertionSet INode → InsertionSet INode →
    Except GraphError (InsertionSet INode)
  | 0, _, _, _ => .error .outOfFuel
  | fuel + 1, current, startNodes, seen => do
    let nodeIsDirty ← isDirty current runData pinData
    if nodeIsDirty then .ok (startNodes.add current)
    else if current = destination then .ok (startNodes.add current)
    else do
      let unfinished ← graph.isUnfinishedLoop current runData
      if unfinished then .ok (startNodes.add current)
      else if current ∈ seen then .ok startNodes
      else do
        let outGoingConnections ← graph.getDirectChildConnections current
        outGoingConnections.foldlM (fun startNodes c =>
          followConnection runData pinData c (fun startNodes =>
            graph.findStartNodesRecursive destination runData pinData fuel c.toNode startNodes
              (seen.add current)) startNodes) startNodes

def findStartNodes (graph : DirectedGraph) (trigger destination : INode) (runData : IRunData)
    (pinData : IPinData) : Except GraphError (InsertionSet INode) :=
  graph.findStartNodesRecursive destination runData pinData (graph.getNodes.length + 1) trigger
    .empty .empty

/-! ### Where the search stops -/

/-- The last run of the node has no data on the main output. -/
def LastOutputEmpty (runData : IRunData) (node : INode) (outputIndex : ℕ) : Prop :=
  ∀ run, (runData.runs node.name).getLast? = some run →
    ∀ data, run.output .main outputIndex = some data → data = []

/-- A loop node whose last run has nothing on the output that leads on. -/
def UnfinishedLoop (graph : DirectedGraph) (runData : IRunData) (node : INode) : Prop :=
  node.type = "n8n-nodes-base.splitInBatches" ∧
    (TransGen graph.Step node node → LastOutputEmpty runData node 0) ∧
    (¬TransGen graph.Step node node → LastOutputEmpty runData node 1)

/-- A node that is returned when the search gets to it. -/
def Stops (graph : DirectedGraph) (destination : INode) (runData : IRunData)
    (pinData : IPinData) (node : INode) : Prop :=
  IsDirty node runData pinData = true ∨ node = destination ∨ graph.UnfinishedLoop runData node

/-- The connection leaves an output with data, or a pinned node. -/
def CarriesData (runData : IRunData) (pinData : IPinData) (c : GraphConnection) : Prop :=
  HasRunData runData c.fromNode.name c.type c.outputIndex ∨ pinData.has c.fromNode.name = true

/-- A step along a connection that carries data. -/
def CarryStep (graph : DirectedGraph) (runData : IRunData) (pinData : IPinData)
    (u v : INode) : Prop :=
  ∃ c ∈ graph.getConnections, c.fromNode = u ∧ c.toNode = v ∧ CarriesData runData pinData c

/-- The runs of the nodes have data for the types of their outgoing connections. -/
structure HasTypes (graph : DirectedGraph) (runData : IRunData) : Prop where
  connection : ∀ c ∈ graph.getConnections, ∀ run ∈ runData.runs c.fromNode.name,
    run.HasType c.type
  loop : ∀ n ∈ graph.getNodes, n.type = "n8n-nodes-base.splitInBatches" →
    ∀ run ∈ runData.runs n.name, run.HasType .main

variable {g : DirectedGraph} {current destination trigger : INode} {runData : IRunData}
  {pinData : IPinData} {startNodes seen s : InsertionSet INode} {fuel : ℕ}

private theorem exists_isALoop_eq_ok (hg : g.Closed) (hmem : current ∈ g.getNodes) :
    ∃ b, g.isALoop current = .ok b ∧ (b = true ↔ TransGen g.Step current current) := by
  obtain ⟨children, hchildren, hiff⟩ := exists_getChildren_eq_ok hg hmem
  refine ⟨decide (current ∈ children), ?_, ?_⟩
  · rw [isALoop, hchildren]
    rfl
  · rw [decide_eq_true_eq, hiff]

private theorem lastOutputEmpty_iff {outputIndex : ℕ} {o : Option (List INodeExecutionData)}
    (h : getIncomingData runData current.name (-1) .main outputIndex = .ok o) :
    LastOutputEmpty runData current outputIndex ↔ ∀ data, o = some data → data = [] := by
  rw [getIncomingData, atIndex_neg_one] at h
  rw [LastOutputEmpty]
  rcases hr : (runData.runs current.name).getLast? with _ | run
  · simp only [hr] at h
    simp [← Except.ok.inj h]
  · simp only [hr] at h
    simp [eq_output_of_readOutput h]

/-- The check of a loop node says what it should. -/
theorem unfinishedLoop_iff (hg : g.Closed) (hmem : current ∈ g.getNodes) {b : Bool}
    (h : g.isUnfinishedLoop current runData = .ok b) :
    b = true ↔ g.UnfinishedLoop runData current := by
  obtain ⟨loops, hloops, hiff⟩ := exists_isALoop_eq_ok hg hmem
  rw [isUnfinishedLoop] at h
  by_cases htype : current.type = "n8n-nodes-base.splitInBatches"
  · rw [if_pos htype, hloops] at h
    rcases hdata : getIncomingData runData current.name (-1) .main (if loops then 0 else 1)
      with e | o
    · simp only [bind, Except.bind, hdata] at h
      cases h
    · simp only [bind, Except.bind, hdata] at h
      have hb := Except.ok.inj h
      have hempty := lastOutputEmpty_iff hdata
      have hbo : b = true ↔ ∀ data, o = some data → data = [] := by
        rw [← hb]
        rcases o with _ | data <;> simp
      rw [hbo, ← hempty, UnfinishedLoop]
      rcases loops with _ | _
      · have hno : ¬TransGen g.Step current current := fun h => by simpa using hiff.mpr h
        simp [htype, hno]
      · have hyes := hiff.mp rfl
        simp [htype, hyes]
  · rw [if_neg htype, Except.ok.injEq] at h
    rw [← h]
    exact iff_of_false Bool.false_ne_true fun hu => htype hu.1

/-- A connection is followed exactly when it carries data. -/
private theorem followConnection_eq_ok {c : GraphConnection}
    {recurse : InsertionSet INode → Except GraphError (InsertionSet INode)}
    (h : followConnection runData pinData c recurse startNodes = .ok s) :
    (¬CarriesData runData pinData c ∧ s = startNodes) ∨
      (CarriesData runData pinData c ∧ recurse startNodes = .ok s) := by
  rw [followConnection] at h
  rcases hdata : getIncomingDataFromAnyRun runData c.fromNode.name c.type c.outputIndex
    with e | _ | ⟨data, runIndex⟩
  · simp only [hdata, bind, Except.bind] at h
    cases h
  · simp only [hdata, bind, Except.bind, Bool.true_and] at h
    have hno := not_hasRunData_of_getIncomingDataFromAnyRun hdata
    rcases hpin : pinData.has c.fromNode.name with _ | _
    · simp only [hpin, Bool.not_false, if_true] at h
      exact Or.inl ⟨by simp [CarriesData, hno, hpin], (Except.ok.inj h).symm⟩
    · simp only [hpin, Bool.not_true, Bool.false_eq_true, if_false] at h
      exact Or.inr ⟨Or.inr hpin, h⟩
  · obtain ⟨run, hrun, hout, hne⟩ := output_of_getIncomingDataFromAnyRun hdata
    have hlen : (data.length == 0) = false := by simp [hne]
    simp only [hdata, bind, Except.bind, hlen, Bool.false_and, Bool.false_eq_true, if_false] at h
    exact Or.inr ⟨Or.inl ⟨run, List.mem_of_getElem? hrun, data, hout, hne⟩, h⟩

/-- **Inversion of one call**: it stops at the node, or has seen it on the way, or follows
the connections that carry data. -/
private theorem findStartNodesRecursive_eq_ok (hg : g.Closed) (hmem : current ∈ g.getNodes)
    (h : g.findStartNodesRecursive destination runData pinData (fuel + 1) current startNodes seen
      = .ok s) :
    (g.Stops destination runData pinData current ∧ s = startNodes.add current) ∨
      (current ∈ seen ∧ s = startNodes) ∨
      (current ≠ destination ∧ (g.childConnections current).foldlM (fun startNodes c =>
          followConnection runData pinData c (fun startNodes =>
            g.findStartNodesRecursive destination runData pinData fuel c.toNode startNodes
              (seen.add current)) startNodes) startNodes = .ok s) := by
  rw [findStartNodesRecursive] at h
  rcases hcheck : isDirty current runData pinData with e | dirty
  · rw [hcheck] at h
    cases h
  have hdirty : dirty = IsDirty current runData pinData := by
    rw [isDirty] at hcheck
    split at hcheck
    · cases hcheck
    · exact (Except.ok.inj hcheck).symm
  simp only [hcheck, hdirty, bind, Except.bind] at h
  split at h
  next hdirty => exact Or.inl ⟨Or.inl hdirty, (Except.ok.inj h).symm⟩
  next hclean =>
    split at h
    next hdest => exact Or.inl ⟨Or.inr (Or.inl hdest), (Except.ok.inj h).symm⟩
    next hdest =>
      rcases hloop : g.isUnfinishedLoop current runData with e | b
      · simp only [hloop] at h
        cases h
      · have hiff := unfinishedLoop_iff hg hmem hloop
        simp only [hloop] at h
        split at h
        next hb =>
          exact Or.inl ⟨Or.inr (Or.inr (hiff.mp hb)), (Except.ok.inj h).symm⟩
        next hb =>
          split at h
          next hseen => exact Or.inr (Or.inl ⟨hseen, (Except.ok.inj h).symm⟩)
          next hseen =>
            rw [getDirectChildConnections_of_mem hmem] at h
            exact Or.inr (Or.inr ⟨hdest, h⟩)

/-! ### What it finds -/

/-- **Induction rule of the search.** What holds of the start nodes found so far, and is kept
when a node at which the search stops is added, holds of the result. -/
private theorem findStartNodesRecursive_induct (hg : g.Closed) {P : InsertionSet INode → Prop}
    (hP : ∀ s, ∀ n, g.Stops destination runData pinData n → P s → P (s.add n)) (fuel : ℕ)
    (current : INode) (hmem : current ∈ g.getNodes) (startNodes seen s : InsertionSet INode)
    (hstart : P startNodes) (h : g.findStartNodesRecursive destination runData pinData fuel
      current startNodes seen = .ok s) : P s := by
  induction fuel generalizing current startNodes seen s with
  | zero => cases h
  | succ fuel ih =>
    rcases findStartNodesRecursive_eq_ok hg hmem h with ⟨hstop, rfl⟩ | ⟨-, rfl⟩ | ⟨-, hloop⟩
    · exact hP startNodes current hstop hstart
    · exact hstart
    · refine ExceptFold.foldlM_induct (fun b c hc b' hb hstep => ?_) hstart hloop
      rcases followConnection_eq_ok hstep with ⟨-, rfl⟩ | ⟨-, hrec⟩
      · exact hb
      · exact ih c.toNode (hg c (mem_childConnections.mp hc).1).2 b _ b' hb hrec

/-- Every node that is added is one at which the search stops. -/
theorem stops_of_mem (hg : g.Closed) (hmem : current ∈ g.getNodes)
    (h : g.findStartNodesRecursive destination runData pinData fuel current startNodes seen
      = .ok s) {n : INode} (hn : n ∈ s) :
    n ∈ startNodes ∨ g.Stops destination runData pinData n := by
  refine findStartNodesRecursive_induct hg
    (P := fun s => ∀ n ∈ s, n ∈ startNodes ∨ g.Stops destination runData pinData n)
    (fun s m hstop hs n hn => ?_) fuel current hmem startNodes seen s (fun n hn => Or.inl hn) h n
    hn
  rcases InsertionSet.mem_add.mp hn with rfl | hn
  · exact Or.inr hstop
  · exact hs n hn

private theorem mem_of_mem_startNodes (hg : g.Closed) (hmem : current ∈ g.getNodes)
    (h : g.findStartNodesRecursive destination runData pinData fuel current startNodes seen
      = .ok s) {n : INode} (hn : n ∈ startNodes) : n ∈ s :=
  findStartNodesRecursive_induct hg (P := fun s => n ∈ s)
    (fun _ _ _ hs => InsertionSet.mem_add.mpr (Or.inr hs)) fuel current hmem startNodes seen s hn h

/-- **The search meets every simple path** to the destination along connections that carry
data, when it has seen none of its nodes. The induction is on the depth of the calls, which
follow the path node by node. -/
private theorem exists_mem_of_simple_path (hg : g.Closed) (fuel : ℕ) (current : INode)
    (hmem : current ∈ g.getNodes) (startNodes seen s : InsertionSet INode)
    (h : g.findStartNodesRecursive destination runData pinData fuel current startNodes seen
      = .ok s) (l : List INode) (hchain : (current :: l).IsChain (g.CarryStep runData pinData))
    (hnodup : (current :: l).Nodup) (hseen : ∀ n ∈ current :: l, n ∉ seen)
    (hlast : (current :: l).getLast (List.cons_ne_nil current l) = destination) :
    ∃ n ∈ current :: l, n ∈ s := by
  induction fuel generalizing current startNodes seen s l with
  | zero => cases h
  | succ fuel ih =>
    rcases findStartNodesRecursive_eq_ok hg hmem h with ⟨-, rfl⟩ | ⟨hin, -⟩ | ⟨hdest, hloop⟩
    · exact ⟨current, List.mem_cons_self, InsertionSet.mem_add.mpr (Or.inl rfl)⟩
    · exact absurd hin (hseen current List.mem_cons_self)
    · rcases l with _ | ⟨m, l⟩
      · exact absurd hlast hdest
      · rw [List.isChain_cons_cons] at hchain
        rw [List.nodup_cons] at hnodup
        obtain ⟨⟨c, hc, hf, rfl, hcarry⟩, hchain⟩ := hchain
        -- the nested call along the first connection of the path
        obtain ⟨b, b', -, hstep, hkeep⟩ := ExceptFold.exists_step_of_foldlM_eq_ok
          (P := fun _ => True) (fun _ _ _ _ _ _ => trivial) trivial hloop
          (mem_childConnections.mpr ⟨hc, hf⟩)
        rcases followConnection_eq_ok hstep with ⟨hno, -⟩ | ⟨-, hrec⟩
        · exact absurd hcarry hno
        · have hseen' : ∀ n ∈ c.toNode :: l, n ∉ seen.add current := by
            intro n hn hadd
            rcases InsertionSet.mem_add.mp hadd with rfl | hadd
            · exact hnodup.1 hn
            · exact hseen n (List.mem_cons_of_mem _ hn) hadd
          obtain ⟨n, hn, hns⟩ := ih c.toNode (hg c hc).2 b _ b' hrec l hchain hnodup.2 hseen'
            (by rwa [List.getLast_cons (List.cons_ne_nil _ _)] at hlast)
          refine ⟨n, List.mem_cons_of_mem _ hn, hkeep (fun s => n ∈ s) ?_ hns⟩
          intro b c hc b' hb hstep
          rcases followConnection_eq_ok hstep with ⟨-, rfl⟩ | ⟨-, hrec⟩
          · exact hb
          · exact mem_of_mem_startNodes hg (hg c (mem_childConnections.mp hc).1).2 hrec hb

/-! ### That it returns -/

private theorem exists_isUnfinishedLoop_eq_ok (hg : g.Closed) (htypes : g.HasTypes runData)
    (hmem : current ∈ g.getNodes) : ∃ b, g.isUnfinishedLoop current runData = .ok b := by
  rw [isUnfinishedLoop]
  by_cases htype : current.type = "n8n-nodes-base.splitInBatches"
  · obtain ⟨loops, hloops, -⟩ := exists_isALoop_eq_ok hg hmem
    obtain ⟨o, ho⟩ := exists_getIncomingData_eq_ok (htypes.loop current hmem htype) (-1)
      (if loops then 0 else 1)
    rw [if_pos htype, hloops]
    simp only [bind, Except.bind, ho]
    exact ⟨_, rfl⟩
  · exact ⟨false, if_neg htype⟩

private theorem exists_followConnection_eq_ok {c : GraphConnection}
    {recurse : InsertionSet INode → Except GraphError (InsertionSet INode)}
    (htypes : g.HasTypes runData) (hc : c ∈ g.getConnections)
    (hrec : ∃ s, recurse startNodes = .ok s) :
    ∃ s, followConnection runData pinData c recurse startNodes = .ok s := by
  obtain ⟨o, ho⟩ := exists_getIncomingDataFromAnyRun_eq_ok (htypes.connection c hc) c.outputIndex
  have hif : ∀ b : Bool, ∃ s, (if b then .ok startNodes else recurse startNodes) = .ok s := by
    rintro (_ | _)
    · exact hrec
    · exact ⟨startNodes, rfl⟩
  rw [followConnection, ho]
  exact hif _

/-- With as many nested calls as there are nodes to see, the search ends. -/
private theorem exists_findStartNodesRecursive_eq_ok (hg : g.Closed) (hnames : g.PlainNames)
    (htypes : g.HasTypes runData) (fuel : ℕ) (current : INode) (hmem : current ∈ g.getNodes)
    (startNodes seen : InsertionSet INode) (hseen : ∀ n ∈ seen, n ∈ g.getNodes)
    (hfuel : g.getNodes.length < fuel + seen.elements.length) :
    ∃ s, g.findStartNodesRecursive destination runData pinData fuel current startNodes seen
      = .ok s := by
  induction fuel generalizing current startNodes seen with
  | zero =>
    have hle := InsertionSet.length_le_of_subset hseen
    omega
  | succ fuel ih =>
    have hcheck : isDirty current runData pinData = .ok (IsDirty current runData pinData) :=
      if_neg fun h => hnames.node current hmem h.2
    rw [findStartNodesRecursive, hcheck]
    simp only [bind, Except.bind]
    split
    next => exact ⟨_, rfl⟩
    next =>
      split
      next => exact ⟨_, rfl⟩
      next =>
        obtain ⟨b, hb⟩ := exists_isUnfinishedLoop_eq_ok hg htypes hmem
        simp only [hb, getDirectChildConnections_of_mem hmem]
        split
        next => exact ⟨_, rfl⟩
        next =>
          split
          next => exact ⟨_, rfl⟩
          next hnew =>
            -- a node is seen once, so that the calls for its children have one node less to see
            have hadd : ∀ n ∈ seen.add current, n ∈ g.getNodes := fun n hn =>
              (InsertionSet.mem_add.mp hn).elim (fun heq => heq ▸ hmem) (hseen n)
            have hlen := InsertionSet.length_add_of_notMem hnew
            have hfollow : ∀ b, ∀ c ∈ g.childConnections current, True → ∃ b',
                followConnection runData pinData c (fun startNodes =>
                  g.findStartNodesRecursive destination runData pinData fuel c.toNode startNodes
                    (seen.add current)) b = .ok b' ∧ True := by
              intro b c hc _
              have hc' := (mem_childConnections.mp hc).1
              have hrec := ih c.toNode (hg c hc').2 b (seen.add current) hadd (by omega)
              simp only [and_true]
              exact exists_followConnection_eq_ok htypes hc' hrec
            obtain ⟨s, hs, -⟩ := ExceptFold.foldlM_exists_ok hfollow trivial
            exact ⟨s, hs⟩

/-! ### The cut -/

/-- A step along a main connection that carries data. -/
def MainCarryStep (graph : DirectedGraph) (runData : IRunData) (pinData : IPinData)
    (u v : INode) : Prop :=
  ∃ c ∈ graph.getConnections, c.type = .main ∧ c.fromNode = u ∧ c.toNode = v ∧
    CarriesData runData pinData c

theorem carryStep_of_mainCarryStep {u v : INode} (h : g.MainCarryStep runData pinData u v) :
    g.CarryStep runData pinData u v := by
  obtain ⟨c, hc, -, hf, ht, hcarry⟩ := h
  exact ⟨c, hc, hf, ht, hcarry⟩

/-- A path that avoids the start nodes does not lead from the trigger to the destination. -/
private theorem exists_mem_of_path (hg : g.Closed) (hmem : trigger ∈ g.getNodes)
    (h : g.findStartNodes trigger destination runData pinData = .ok s) {path : List INode}
    (hchain : path.IsChain (g.CarryStep runData pinData)) (hhead : path.head? = some trigger)
    (hlast : path.getLast? = some destination) : ∃ n ∈ path, n ∈ s := by
  by_contra hno
  push Not at hno
  obtain ⟨rest, rfl⟩ : ∃ rest, path = trigger :: rest := List.head?_eq_some_iff.mp hhead
  -- the nodes of the path form a relation that avoids `s`, so that a simple path does, too
  have hpath : ReflTransGen (fun u v => g.CarryStep runData pinData u v ∧ v ∉ s) trigger
      destination := by
    have hlast' : (trigger :: rest).getLast (List.cons_ne_nil trigger rest) = destination := by
      rwa [List.getLast?_eq_getLast_of_ne_nil (List.cons_ne_nil trigger rest),
        Option.some.injEq] at hlast
    exact List.relationReflTransGen_of_exists_isChain_cons rest
      (hchain.imp_of_mem_imp fun u v _ hv huv => ⟨huv, hno v hv⟩) hlast'
  obtain ⟨l, hl, hnodup, hlast'⟩ := Paths.exists_simple_path hpath
  have havoid := Paths.forall_mem_of_isChain (P := fun n => n ∉ s) hl
    (hno trigger List.mem_cons_self) (fun u v huv => huv.2)
  obtain ⟨n, hn, hns⟩ := exists_mem_of_simple_path hg _ trigger hmem .empty .empty s h l
    (hl.imp fun _ _ h => h.1) hnodup (fun n _ => InsertionSet.notMem_empty n) hlast'
  exact havoid n hn hns

/-- A trigger, a loop node behind it, and a node on the `loop` output that is not connected
back. -/
def openLoopGraph : DirectedGraph :=
  let trigger : INode := { name := "trigger" }
  let loop : INode := { name := "loop", type := "n8n-nodes-base.splitInBatches" }
  let inLoop : INode := { name := "inLoop" }
  ((empty.addNodes [trigger, loop, inLoop]).setConnection
    { fromNode := trigger, toNode := loop }).setConnection
    { fromNode := loop, toNode := inLoop, outputIndex := 1 }

/-- Runs of the trigger and of the loop node, the latter with an item on its `done` output. -/
def openLoopRunData : IRunData :=
  let done : ITaskDataConnections := InsertionMap.empty.set .main [.value [{}], .value []]
  (InsertionMap.empty.set "trigger" [{ data := some done }]).set "loop" [{ data := some done }]

end DirectedGraph

end N8n
