import N8n.Engine.RequestsResponse

/-!
# Requests that fail

`handleRequest` creates the runs of the requested nodes action by action, before it knows that the
nodes of the later actions exist and that the requesting node can be resumed. It does not take them
back: when it throws at a later action, or returns no nodes because the requesting node has no
parent, the runs of the actions before stay in the run data (`isAtomic_iff`).
-/

namespace N8n

namespace RequestsResponse

variable {w : Workflow} {currentNode : INode} {runIndex : ℕ} {executionData : IExecuteData}
  {request : EngineRequest} {runData : IRunData}
  {rewireOutputLogTo : InsertionMap String NodeConnectionType}

/-- When the request throws, or yields no nodes to be executed, the run data is what it was. -/
def IsAtomic (w : Workflow) (currentNode : INode) (request : EngineRequest) (runIndex : ℕ)
    (executionData : IExecuteData) (runData : IRunData)
    (rewireOutputLogTo : InsertionMap String NodeConnectionType) : Prop :=
  ∀ prepared result,
    handleRequest w currentNode request runIndex executionData runData rewireOutputLogTo =
      (prepared, result) →
    (∀ nodesToBeExecuted, result = .ok nodesToBeExecuted → nodesToBeExecuted = []) →
      prepared.runData = runData

/-- An action whose node exists adds a run to it. -/
theorem prepareRequestedNode_of_some {action : ExecuteNodeAction} {node : INode}
    (hnode : w.getNode action.nodeName = some node) (prepared : Prepared) :
    ∃ prepared', prepareRequestedNode w currentNode runIndex executionData prepared action =
        (prepared', .ok ()) ∧
      runCount prepared'.runData node.name = runCount prepared.runData node.name + 1 := by
  rw [prepareRequestedNode, hnode]
  refine ⟨_, rfl, ?_⟩
  simp only [runCount_initializeNodeRunData, if_true]

/-- The actions are prepared if the nodes of all of them exist. -/
theorem prepare_ok_iff {prepared : Prepared} {actions : List ExecuteNodeAction} :
    (ExceptFold.foldUntilError (prepareRequestedNode w currentNode runIndex executionData) prepared
        actions).2 = .ok () ↔
      ∀ action ∈ actions, w.getNode action.nodeName ≠ none := by
  induction actions generalizing prepared with
  | nil => exact iff_of_true rfl fun _ haction => absurd haction List.not_mem_nil
  | cons action actions ih =>
    rw [ExceptFold.foldUntilError, List.forall_mem_cons]
    cases hnode : w.getNode action.nodeName with
    | none =>
      rw [prepareRequestedNode, hnode]
      exact iff_of_false (by simp) fun h => h.1 rfl
    | some node =>
      obtain ⟨prepared', hstep, -⟩ := prepareRequestedNode_of_some hnode prepared
      rw [hstep, and_iff_right (Option.some_ne_none node)]
      exact ih

/-- An action whose node exists leaves a run behind. -/
theorem runData_ne_of_first {prepared : Prepared} {action : ExecuteNodeAction}
    {actions : List ExecuteNodeAction} (hnode : w.getNode action.nodeName ≠ none) :
    (ExceptFold.foldUntilError (prepareRequestedNode w currentNode runIndex executionData) prepared
        (action :: actions)).1.runData ≠ prepared.runData := by
  obtain ⟨node, hnode⟩ := Option.ne_none_iff_exists'.mp hnode
  obtain ⟨prepared', hstep, hcount⟩ : ∃ prepared', prepareRequestedNode w currentNode runIndex
      executionData prepared action = (prepared', .ok ()) ∧ _ :=
    prepareRequestedNode_of_some hnode prepared
  -- the actions behind keep the runs that there are
  have hkept : RunsKept prepared'.runData (ExceptFold.foldUntilError
      (prepareRequestedNode w currentNode runIndex executionData) prepared' actions).1.runData :=
    ExceptFold.foldUntilError_induct
      (P := fun prepared : Prepared => RunsKept prepared'.runData prepared.runData)
      (fun prepared action _ h => h.trans (runsKept_prepareRequestedNode prepared action))
      (RunsKept.refl _)
  intro heq
  rw [ExceptFold.foldUntilError, hstep] at heq
  have hle := hkept node.name
  rw [heq, hcount] at hle
  exact Nat.not_succ_le_self _ hle

/-- What a request makes of the run data is what its actions make of it. -/
theorem runData_handleRequest :
    (handleRequest w currentNode request runIndex executionData runData
        rewireOutputLogTo).1.runData =
      (prepareRequestedNodesForExecution w currentNode request runIndex runData rewireOutputLogTo
        executionData).1.runData := by
  rw [handleRequest]
  split
  next heq => rw [heq]
  next heq =>
    rw [heq]
    split
    · rfl
    · rfl

/-- No nodes are returned unless all requested nodes exist and the requesting node has a parent. -/
theorem yields_nothing_iff :
    (∀ nodesToBeExecuted,
        (handleRequest w currentNode request runIndex executionData runData rewireOutputLogTo).2 =
          .ok nodesToBeExecuted → nodesToBeExecuted = []) ↔
      ¬ ((∀ action ∈ request.actions, w.getNode action.nodeName ≠ none) ∧
        resumingParent executionData ≠ none) := by
  have hprepared : (prepareRequestedNodesForExecution w currentNode request runIndex runData
      rewireOutputLogTo executionData).2 = .ok () ↔ _ := prepare_ok_iff
  rw [← hprepared, handleRequest]
  split
  next heq =>
    rw [heq]
    exact iff_of_true (by simp) (by simp)
  next prepared heq =>
    rw [heq, prepareRequestingNodeForResuming]
    cases resumingParent executionData with
    | none => exact iff_of_true (fun _ h => (Except.ok.inj h).symm) fun h => h.2 rfl
    | some parentNode =>
      refine iff_of_false (fun h => ?_) fun h => h ⟨rfl, Option.some_ne_none _⟩
      exact List.cons_ne_nil _ _ (h _ rfl)

/-- The request names no member of every object, which a lookup among nodes or runs finds. -/
def PlainNames (request : EngineRequest) : Prop :=
  ∀ action ∈ request.actions, action.nodeName ∉ InsertionMap.inheritedKeys ∧
    ∀ parent ∈ action.parentNodeName, parent ∉ InsertionMap.inheritedKeys

/-- **When a request is atomic**: it has no action, or not even the node of its first action exists,
or the nodes of all its actions exist and the requesting node has a parent. -/
theorem isAtomic_iff (w : Workflow) (currentNode : INode) (request : EngineRequest)
    (_hnames : PlainNames request) (runIndex : ℕ) (executionData : IExecuteData)
    (runData : IRunData)
    (rewireOutputLogTo : InsertionMap String NodeConnectionType) :
    IsAtomic w currentNode request runIndex executionData runData rewireOutputLogTo ↔
      (∀ action ∈ request.actions.head?, w.getNode action.nodeName = none) ∨
        (∀ action ∈ request.actions, w.getNode action.nodeName ≠ none) ∧
          resumingParent executionData ≠ none := by
  have hatomic : IsAtomic w currentNode request runIndex executionData runData rewireOutputLogTo ↔
      (¬ ((∀ action ∈ request.actions, w.getNode action.nodeName ≠ none) ∧
          resumingParent executionData ≠ none) →
        (prepareRequestedNodesForExecution w currentNode request runIndex runData rewireOutputLogTo
          executionData).1.runData = runData) := by
    rw [← yields_nothing_iff, ← runData_handleRequest]
    exact ⟨fun h => h _ _ rfl, fun h prepared result heq hnothing => by
      rw [heq] at h
      exact h hnothing⟩
  rw [hatomic, prepareRequestedNodesForExecution]
  cases hactions : request.actions with
  | nil => exact iff_of_true (fun _ => rfl) (.inl nofun)
  | cons action actions =>
    simp only [List.head?_cons, Option.mem_some_iff, forall_eq']
    by_cases hnode : w.getNode action.nodeName = none
    · -- the first action throws before it changes anything
      refine iff_of_true (fun _ => ?_) (.inl hnode)
      rw [ExceptFold.foldUntilError, prepareRequestedNode, hnode]
    · rw [or_iff_right hnode]
      have hne : (ExceptFold.foldUntilError (prepareRequestedNode w currentNode runIndex
          executionData) { runData, rewireOutputLogTo } (action :: actions)).1.runData ≠ runData :=
        runData_ne_of_first hnode
      exact ⟨fun h => by_contra fun hnot => hne (h hnot), fun h hnot => absurd h hnot⟩

/-! ### A request whose second node is missing -/

private def toolWorkflow : Workflow :=
  Workflow.new { nodes := [{ name := "Agent" }, { name := "Tool" }], connections := .empty }

private def agentEntry : IExecuteData where
  node := { name := "Agent" }
  data := .empty
  source := some (InsertionMap.empty.set .main [.value { previousNode := "Trigger" }])

private def twoActions : EngineRequest where
  actions := [
    { nodeName := "Tool", input := [], type := .aiTool, id := "1" },
    { nodeName := "Missing", input := [], type := .aiTool, id := "2" }]

/-- No node is there for the first action, and nothing was created. -/
theorem isAtomic_missingFirst :
    IsAtomic toolWorkflow { name := "Agent" } { twoActions with
      actions := twoActions.actions.reverse } 0 agentEntry .empty .empty :=
  (isAtomic_iff _ _ _ (by unfold PlainNames; decide) _ _ _ _).mpr (.inl (by decide))

theorem not_isAtomic_twoActions :
    ¬ IsAtomic toolWorkflow { name := "Agent" } twoActions 0 agentEntry .empty .empty := by
  intro h
  have hmissing : { nodeName := "Missing", input := [], type := .aiTool, id := "2" } ∈
      twoActions.actions := by decide
  have hruns := h _ _ Prod.mk.eta.symm (yields_nothing_iff.mpr fun hall =>
    hall.1 _ hmissing (by decide))
  have hcount : runCount (handleRequest toolWorkflow { name := "Agent" } twoActions 0 agentEntry
      .empty .empty).1.runData "Tool" = 1 := by decide +kernel
  rw [hruns] at hcount
  exact absurd hcount (by decide)

end RequestsResponse

end N8n
