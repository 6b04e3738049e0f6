import N8n.Engine.HandleEngineRequest

/-!
# Trying to run a node

One turn of a node: it is run, and run again where it may be retried after an error. What the
node answers is not known here: the answers are given as a list, one for each call of
`runNode`. A turn also keeps what it handed to each call, the results of the actions that the
node had requested.

A node is retried in two ways, by the loop over the tries, after an error was thrown, and by a
loop inside a try, after an error was returned.
-/

namespace N8n

structure ActionResponse where
  data : ITaskData
  action : ExecuteNodeAction
  deriving DecidableEq, Repr

structure EngineResponse where
  actionResponses : List ActionResponse := []
  metadata : IDataObject := []
  deriving DecidableEq, Repr

/-- What a call of `runNode` comes to: for data, with the error that `convertBinaryData` throws
where the binary data cannot be converted. -/
inductive NodeResult where
  | thrown (error : ExecutionError)
  | request (request : EngineRequest)
  | data (data : Option NodeOutputs) (conversionError : Option ExecutionError := none)
  deriving DecidableEq, Repr

/-- A call of `runNode`. The node may also put the execution to wait. -/
structure NodeCall where
  result : NodeResult
  waitTill : Option ℕ := none
  deriving DecidableEq, Repr

instance : Inhabited NodeCall := ⟨{ result := .data none }⟩

namespace WorkflowExecute

open RequestsResponse

def isErrorValue : Option JsonValue → Bool
  | none | some .null | some (.bool false) => false
  | some _ => true

/-- The result is no request and has an error in its first item. -/
def checkFailure : NodeResult → Bool
  | .data data _ => isErrorValue ((firstItem data).bind (·.json.lookup "error"))
  | .thrown _ | .request _ => false

/-- The number of tries of a node. -/
def maxTries (node : INode) : ℕ :=
  if node.retryOnFail = some true then
    let tries := match node.maxTries with
      | none | some 0 => 3
      | some maxTries => maxTries
    (min 5 (max 2 tries)).toNat
  else 1

/-- The variables of a turn, and what each call of `runNode` received. -/
structure NodeRun where
  execution : IRunExecutionData
  rewireOutputLogTo : InsertionMap String NodeConnectionType
  tryIndex : ℕ := 0
  nodeSuccessData : Option NodeOutputs := none
  executionError : Option ExecutionError := none
  subNodeExecutionResults : EngineResponse := {}
  received : List (Option EngineResponse) := []
  deriving DecidableEq

/-- The pinned data of a node that is not disabled. -/
def pinnedData (st : IRunExecutionData) (node : INode) : Option (List INodeExecutionData) :=
  if node.isDisabled then none else st.pinData.bind (·.get? node.name)

/-- The results of the actions that have a run. -/
def collectResponses (runData : IRunData) (actions : List SubNodeExecutionDataAction) :
    List ActionResponse :=
  actions.filterMap fun subNode =>
    ((runData.get? subNode.nodeName).bind (·[subNode.runIndex]?)).map fun data =>
      { data, action := subNode.action }

/-- Add the results of the actions that the node had requested to those there are. -/
def addResponses (executionData : IExecuteData) (run : NodeRun) : NodeRun :=
  match executionData.metadata.bind (·.subNodeExecutionData) with
  | none => run
  | some subNodeExecutionData =>
    { run with subNodeExecutionResults := {
        actionResponses := run.subNodeExecutionResults.actionResponses ++
          collectResponses run.execution.runData subNodeExecutionData.actions
        metadata := subNodeExecutionData.metadata } }

/-- The next call of `runNode`. -/
def runNode (calls : List NodeCall) (response : Option EngineResponse) (run : NodeRun) :
    NodeRun × NodeResult :=
  let call := calls.getD run.received.length default
  ({ run with
      execution := { run.execution with waitTill := call.waitTill.or run.execution.waitTill }
      received := run.received ++ [response] }, call.result)

/-- The loop inside a try: run the node again as long as it returns an error and tries are left.
These calls get no results of actions. A call that throws does not count as a try. -/
def rerunFailed (calls : List NodeCall) : ℕ → NodeRun → NodeResult → NodeRun × NodeResult
  | 0, run, result => (run, result)
  | triesLeft + 1, run, result =>
    if checkFailure result then
      match runNode calls none run with
      | (run, .thrown e) => (run, .thrown e)
      | (run, result) =>
        rerunFailed calls triesLeft { run with tryIndex := run.tryIndex + 1 } result
    else (run, result)

/-- How a try ends. -/
inductive TryEnd where
  | finished
  | requested (queueing : Queueing)
  | noData
  | failed (error : ExecutionError)
  deriving DecidableEq

variable (w : Workflow) (env : NodeFunctions) (calls : List NodeCall)
  (executionData : IExecuteData) (runIndex : ℕ)

/-- The data of a node that did not throw: its items get their links, and a node that returned
nothing ends its branch. -/
def finishTry (run : NodeRun) : NodeRun × TryEnd :=
  match assignPairedItems run.nodeSuccessData executionData with
  | .error e => (run, .failed e)
  | .ok nodeSuccessData =>
    let lastNodeExecuted :=
      if nodeSuccessData.isSome then some executionData.node.name
      else run.execution.lastNodeExecuted
    let run := { run with nodeSuccessData, execution := { run.execution with lastNodeExecuted } }
    match alwaysOutputData nodeSuccessData executionData with
    | .error e => (run, .failed e)
    | .ok nodeSuccessData =>
      let run := { run with nodeSuccessData }
      if nodeSuccessData.isNone ∧ run.execution.waitTill = none then (run, .noData)
      else (run, .finished)

/-- What is made of the result of a node. -/
def handleResult (run : NodeRun) : NodeResult → NodeRun × TryEnd
  | .thrown e => (run, .failed e)
  | .request request =>
    match handleEngineRequest w executionData request runIndex run.execution
        run.rewireOutputLogTo with
    | ((execution, rewireOutputLogTo), .error e) =>
      ({ run with execution, rewireOutputLogTo }, .failed e)
    | ((execution, rewireOutputLogTo), .ok queueing) =>
      ({ run with execution, rewireOutputLogTo }, .requested queueing)
  | .data _ (some e) => (run, .failed e)
  | .data none none => finishTry executionData { run with nodeSuccessData := none }
  | .data (some nodeSuccessData) none =>
    if executionData.node.onError = some .continueErrorOutput then
      match handleNodeErrorOutput env run.execution executionData nodeSuccessData runIndex with
      | (nodeSuccessData, .error e) =>
        ({ run with nodeSuccessData := some nodeSuccessData }, .failed e)
      | (nodeSuccessData, .ok ()) =>
        finishTry executionData { run with nodeSuccessData := some nodeSuccessData }
    else finishTry executionData { run with nodeSuccessData := some nodeSuccessData }

/-- One try. -/
def tryNode (run : NodeRun) : NodeRun × TryEnd :=
  match pinnedData run.execution executionData.node with
  | some nodePinData =>
    finishTry executionData { run with nodeSuccessData := some [.value nodePinData] }
  | none =>
    let run := addResponses executionData run
    let (run, result) := runNode calls (some run.subNodeExecutionResults) run
    let (run, result) :=
      rerunFailed calls (maxTries executionData.node - 1 - run.tryIndex) run result
    handleResult w env executionData runIndex run result

/-- The loop over the tries. The first argument bounds the number of turns of the loop. When all
tries failed the turn goes on with the last error. -/
def tryLoop : ℕ → NodeRun → NodeRun × TryEnd
  | 0, run => (run, .finished)
  | turns + 1, run =>
    if run.tryIndex < maxTries executionData.node then
      match tryNode w env calls executionData runIndex { run with executionError := none } with
      | (run, .failed e) =>
        tryLoop turns { run with
          tryIndex := run.tryIndex + 1
          executionError := some e
          execution :=
            { run.execution with lastNodeExecuted := some executionData.node.name } }
      | r => r
    else (run, .finished)

/-- The tries of a node. -/
def runTries (st : IRunExecutionData)
    (rewireOutputLogTo : InsertionMap String NodeConnectionType) : NodeRun × TryEnd :=
  tryLoop w env calls executionData runIndex (maxTries executionData.node)
    { execution := st, rewireOutputLogTo }

/-! ### Turns without a second call -/

/-- The try failed. -/
def TryEnd.isFailed : TryEnd → Bool
  | .failed _ => true
  | _ => false

/-! ### What a turn does -/

/-- The response for a node that had requested actions, when nothing was collected yet. -/
def resumeResponse (executionData : IExecuteData) (runData : IRunData) : EngineResponse :=
  match executionData.metadata.bind (·.subNodeExecutionData) with
  | none => {}
  | some subNodeExecutionData => {
      actionResponses := collectResponses runData subNodeExecutionData.actions
      metadata := subNodeExecutionData.metadata }

/-- What holds at every point of a turn that starts in the state `st`: the execution only grew,
and the first call, if there was one, received the results that were there at the start. -/
structure Turn (w : Workflow) (executionData : IExecuteData) (st : IRunExecutionData)
    (run : NodeRun) : Prop where
  grown : Extends w st run.execution
  received : (run.received = [] ∧ run.subNodeExecutionResults = {} ∧
      run.execution.runData = st.runData) ∨
    run.received.head? = some (some (resumeResponse executionData st.runData))

variable {w env calls executionData runIndex} {st : IRunExecutionData} {run run' : NodeRun}
  {result : NodeResult} {queueing : Queueing}

theorem Turn.start (w : Workflow) (executionData : IExecuteData) (st : IRunExecutionData)
    (rewireOutputLogTo : InsertionMap String NodeConnectionType) :
    Turn w executionData st { execution := st, rewireOutputLogTo } :=
  ⟨Extends.refl w st, .inl ⟨rfl, rfl, rfl⟩⟩

/-- A step of the turn that calls no node and adds no run. -/
theorem Turn.of_eq (h : Turn w executionData st run) (hreceived : run'.received = run.received)
    (hresults : run'.subNodeExecutionResults = run.subNodeExecutionResults)
    (hstack : run'.execution.nodeExecutionStack = run.execution.nodeExecutionStack)
    (hruns : run'.execution.runData = run.execution.runData)
    (hfilter : run'.execution.runNodeFilter = run.execution.runNodeFilter) :
    Turn w executionData st run' := by
  refine ⟨h.grown.trans (Extends.of_eq hstack hruns hfilter), ?_⟩
  rw [hreceived, hresults, hruns]
  exact h.received

/-- After the first call a step of the turn may do anything to the execution that extends it. -/
theorem Turn.of_extends (h : Turn w executionData st run) (hne : run.received ≠ [])
    (hreceived : run'.received = run.received) (hext : Extends w run.execution run'.execution) :
    Turn w executionData st run' := by
  refine ⟨h.grown.trans hext, ?_⟩
  rw [hreceived]
  exact .inr (h.received.resolve_left fun hnone => hne hnone.1)

theorem Turn.runNode {response : Option EngineResponse} (h : Turn w executionData st run)
    (hne : run.received ≠ []) : Turn w executionData st (runNode calls response run).1 := by
  refine ⟨h.grown.trans (Extends.of_eq rfl rfl rfl), .inr ?_⟩
  have hhead := h.received.resolve_left fun hnone => hne hnone.1
  rw [WorkflowExecute.runNode, List.head?_append, hhead]
  rfl

theorem Turn.rerunFailed {triesLeft : ℕ} (h : Turn w executionData st run)
    (hne : run.received ≠ []) :
    Turn w executionData st (rerunFailed calls triesLeft run result).1 ∧
      (rerunFailed calls triesLeft run result).1.received ≠ [] := by
  induction triesLeft generalizing run result with
  | zero => exact ⟨h, hne⟩
  | succ triesLeft ih =>
    rw [WorkflowExecute.rerunFailed]
    split
    next =>
      have hrun : Turn w executionData st (WorkflowExecute.runNode calls none run).1 :=
        h.runNode hne
      have hrunNe : (WorkflowExecute.runNode calls none run).1.received ≠ [] :=
        List.append_ne_nil_of_right_ne_nil _ (List.cons_ne_nil _ _)
      split
      next run' e heq =>
        rw [heq] at hrun hrunNe
        exact ⟨hrun, hrunNe⟩
      next run' result' _ heq =>
        rw [heq] at hrun hrunNe
        exact ih (hrun.of_eq rfl rfl rfl rfl rfl) hrunNe
    next => exact ⟨h, hne⟩

/-- The end of a try without an error from the node changes the output and the last node
executed, and is no request. -/
theorem finishTry_eq (executionData : IExecuteData) (run : NodeRun) :
    (∃ nodeSuccessData lastNodeExecuted, (finishTry executionData run).1 =
      { run with nodeSuccessData, execution := { run.execution with lastNodeExecuted } }) ∧
      ∀ queueing, (finishTry executionData run).2 ≠ .requested queueing := by
  rw [finishTry]
  split
  next => exact ⟨⟨_, _, rfl⟩, fun _ => nofun⟩
  next =>
    simp only
    split
    next => exact ⟨⟨_, _, rfl⟩, fun _ => nofun⟩
    next =>
      split
      next => exact ⟨⟨_, _, rfl⟩, fun _ => nofun⟩
      next => exact ⟨⟨_, _, rfl⟩, fun _ => nofun⟩

theorem Turn.finishTry (h : Turn w executionData st run) :
    Turn w executionData st (finishTry executionData run).1 := by
  obtain ⟨⟨nodeSuccessData, lastNodeExecuted, heq⟩, _⟩ := finishTry_eq executionData run
  rw [heq]
  exact h.of_eq rfl rfl rfl rfl rfl

/-- A request is handled; another result changes the output and the last node executed only. -/
theorem handleResult_cases (w : Workflow) (env : NodeFunctions) (executionData : IExecuteData)
    (runIndex : ℕ) (run : NodeRun) (result : NodeResult) :
    (∃ request, result = .request request ∧ ∃ execution rewireOutputLogTo outcome,
      handleEngineRequest w executionData request runIndex run.execution run.rewireOutputLogTo =
        ((execution, rewireOutputLogTo), outcome) ∧
      (handleResult w env executionData runIndex run result).1 =
        { run with execution, rewireOutputLogTo } ∧
      ∀ queueing, (handleResult w env executionData runIndex run result).2 = .requested queueing →
        outcome = .ok queueing) ∨
    (∃ nodeSuccessData lastNodeExecuted, (handleResult w env executionData runIndex run result).1 =
      { run with nodeSuccessData, execution := { run.execution with lastNodeExecuted } }) ∧
      ∀ queueing, (handleResult w env executionData runIndex run result).2 ≠
        .requested queueing := by
  -- the result is an error, a request, or data with or without a throw of `convertBinaryData`
  rcases result with e | request | ⟨_ | nodeSuccessData, _ | e⟩
  · exact .inr ⟨⟨_, _, rfl⟩, fun _ => nofun⟩
  · refine .inl ⟨request, rfl, ?_⟩
    rw [handleResult]
    split
    next heq => exact ⟨_, _, _, heq, rfl, fun _ => nofun⟩
    next heq => exact ⟨_, _, _, heq, rfl, fun _ h => congrArg _ (TryEnd.requested.inj h)⟩
  · exact .inr (finishTry_eq executionData { run with nodeSuccessData := none })
  · exact .inr ⟨⟨_, _, rfl⟩, fun _ => nofun⟩
  · refine .inr ?_
    rw [handleResult]
    split
    next =>
      split
      next => exact ⟨⟨_, _, rfl⟩, fun _ => nofun⟩
      next nodeSuccessData _ =>
        exact finishTry_eq executionData { run with nodeSuccessData := some nodeSuccessData }
    next =>
      exact finishTry_eq executionData { run with nodeSuccessData := some nodeSuccessData }
  · exact .inr ⟨⟨_, _, rfl⟩, fun _ => nofun⟩

/-- A request of a node is handled in a state that extends the one its turn started in. -/
def Handles (w : Workflow) (executionData : IExecuteData) (runIndex : ℕ) (st : IRunExecutionData)
    (calls : List NodeCall) (run : NodeRun) (queueing : Queueing) : Prop :=
  ∃ st' rewireOutputLogTo request, Extends w st st' ∧
    (∃ call ∈ calls, call.result = .request request) ∧
    handleEngineRequest w executionData request runIndex st' rewireOutputLogTo =
      ((run.execution, run.rewireOutputLogTo), .ok queueing)

theorem Turn.handleResult (h : Turn w executionData st run) (hne : run.received ≠ [])
    (hcall : ∀ request, result = .request request →
      ∃ call ∈ calls, call.result = .request request) :
    Turn w executionData st (handleResult w env executionData runIndex run result).1 ∧
      ∀ queueing, (handleResult w env executionData runIndex run result).2 = .requested queueing →
        Handles w executionData runIndex st calls
          (handleResult w env executionData runIndex run result).1 queueing := by
  obtain ⟨request, rfl, execution, rewireOutputLogTo, outcome, heq, hrun, hend⟩ |
    ⟨⟨nodeSuccessData, lastNodeExecuted, hrun⟩, hend⟩ :=
      handleResult_cases w env executionData runIndex run result
  · have hgrown : Extends w run.execution (handleEngineRequest w executionData request runIndex
        run.execution run.rewireOutputLogTo).1.1 := extends_handleEngineRequest
    rw [heq] at hgrown
    rw [hrun]
    refine ⟨h.of_extends hne rfl hgrown, fun queueing hqueueing => ?_⟩
    rw [hend queueing hqueueing] at heq
    exact ⟨run.execution, run.rewireOutputLogTo, request, h.grown, hcall request rfl, heq⟩
  · rw [hrun]
    exact ⟨h.of_eq rfl rfl rfl rfl rfl, fun queueing heq => absurd heq (hend queueing)⟩

/-- A request is the answer of one of the calls. -/
theorem exists_call_of_runNode {response : Option EngineResponse} {request : EngineRequest}
    (h : (runNode calls response run).2 = .request request) :
    ∃ call ∈ calls, call.result = .request request := by
  rw [runNode, List.getD_eq_getElem?_getD] at h
  rcases hcall : calls[run.received.length]? with _ | call
  · rw [hcall] at h
    cases h
  · rw [hcall] at h
    exact ⟨call, List.mem_of_getElem? hcall, h⟩

theorem exists_call_of_rerunFailed {triesLeft : ℕ} {request : EngineRequest}
    (hresult : ∀ request, result = .request request →
      ∃ call ∈ calls, call.result = .request request)
    (h : (rerunFailed calls triesLeft run result).2 = .request request) :
    ∃ call ∈ calls, call.result = .request request := by
  induction triesLeft generalizing run result with
  | zero => exact hresult request h
  | succ triesLeft ih =>
    rw [rerunFailed] at h
    split at h
    next =>
      split at h
      next => cases h
      next run' result' _ heq =>
        refine ih (fun request hrequest => ?_) h
        exact exists_call_of_runNode ((congrArg Prod.snd heq).trans hrequest)
    next => exact hresult request h

/-- One try. -/
theorem Turn.tryNode (h : Turn w executionData st run) :
    Turn w executionData st (tryNode w env calls executionData runIndex run).1 ∧ ∀ queueing,
      (tryNode w env calls executionData runIndex run).2 = .requested queueing →
        Handles w executionData runIndex st calls
          (tryNode w env calls executionData runIndex run).1 queueing := by
  rw [WorkflowExecute.tryNode]
  split
  next nodePinData _ =>
    have hpinned : Turn w executionData st { run with
        nodeSuccessData := some [.value nodePinData] } := h.of_eq rfl rfl rfl rfl rfl
    refine ⟨hpinned.finishTry, fun queueing heq => ?_⟩
    exact absurd heq ((finishTry_eq executionData _).2 queueing)
  next =>
    have hadded : (addResponses executionData run).execution = run.execution ∧
        (addResponses executionData run).received = run.received := by
      rw [addResponses]
      split
      next => exact ⟨rfl, rfl⟩
      next => exact ⟨rfl, rfl⟩
    -- the first call receives what was collected just now
    have hcalled : Turn w executionData st (WorkflowExecute.runNode calls
        (some (addResponses executionData run).subNodeExecutionResults)
        (addResponses executionData run)).1 := by
      have hgrown : Extends w st (addResponses executionData run).execution :=
        hadded.1.symm ▸ h.grown
      refine ⟨hgrown.trans (Extends.of_eq rfl rfl rfl), .inr ?_⟩
      · rw [WorkflowExecute.runNode, List.head?_append, hadded.2]
        rcases h.received with ⟨hnone, hresults, hruns⟩ | hhead
        · rw [hnone]
          simp only [List.head?_nil, List.head?_cons, Option.none_or]
          rw [addResponses, resumeResponse]
          split
          next => rw [hresults]
          next => rw [hresults, hruns, List.nil_append]
        · rw [hhead]
          rfl
    have hne : (WorkflowExecute.runNode calls
        (some (addResponses executionData run).subNodeExecutionResults)
        (addResponses executionData run)).1.received ≠ [] :=
      List.append_ne_nil_of_right_ne_nil _ (List.cons_ne_nil _ _)
    have hcall : ∀ request, (WorkflowExecute.runNode calls
        (some (addResponses executionData run).subNodeExecutionResults)
        (addResponses executionData run)).2 = .request request →
        ∃ call ∈ calls, call.result = .request request := fun _ => exists_call_of_runNode
    obtain ⟨hrerun, hrerunNe⟩ := hcalled.rerunFailed hne
    exact hrerun.handleResult hrerunNe fun request => exists_call_of_rerunFailed hcall

/-- The loop over the tries. -/
theorem Turn.tryLoop {turns : ℕ} (h : Turn w executionData st run) :
    Turn w executionData st (tryLoop w env calls executionData runIndex turns run).1 ∧ ∀ queueing,
      (tryLoop w env calls executionData runIndex turns run).2 = .requested queueing →
        Handles w executionData runIndex st calls
          (tryLoop w env calls executionData runIndex turns run).1 queueing := by
  induction turns generalizing run with
  | zero => exact ⟨h, nofun⟩
  | succ turns ih =>
    rw [WorkflowExecute.tryLoop]
    split
    next =>
      have hreset : Turn w executionData st { run with executionError := none } :=
        h.of_eq rfl rfl rfl rfl rfl
      have htry : Turn w executionData st
          (WorkflowExecute.tryNode w env calls executionData runIndex
            { run with executionError := none }).1 ∧ _ := hreset.tryNode
      split
      next run' e heq =>
        rw [heq] at htry
        exact ih (htry.1.of_eq rfl rfl rfl rfl rfl)
      next => exact htry
    next => exact ⟨h, nofun⟩

/-! ### The number of calls -/

theorem received_handleResult (run : NodeRun) (result : NodeResult) :
    (handleResult w env executionData runIndex run result).1.received = run.received := by
  obtain ⟨_, _, _, _, _, _, hrun, -⟩ | ⟨⟨_, _, hrun⟩, -⟩ :=
    handleResult_cases w env executionData runIndex run result
  · rw [hrun]
  · rw [hrun]

/-- A try with pinned data calls no node. -/
theorem received_tryNode_pinned {nodePinData : List INodeExecutionData}
    (h : pinnedData run.execution executionData.node = some nodePinData) :
    (tryNode w env calls executionData runIndex run).1.received = run.received ∧
      pinnedData (tryNode w env calls executionData runIndex run).1.execution executionData.node =
        some nodePinData := by
  rw [tryNode, h]
  simp only
  obtain ⟨⟨nodeSuccessData, lastNodeExecuted, heq⟩, _⟩ := finishTry_eq executionData
    { run with nodeSuccessData := some [.value nodePinData] }
  rw [heq]
  exact ⟨rfl, h⟩

theorem received_tryLoop_pinned {nodePinData : List INodeExecutionData} {turns : ℕ}
    (h : pinnedData run.execution executionData.node = some nodePinData) :
    (tryLoop w env calls executionData runIndex turns run).1.received = run.received := by
  induction turns generalizing run with
  | zero => rfl
  | succ turns ih =>
    rw [tryLoop]
    split
    next =>
      obtain ⟨hreceived, hpinned⟩ : (tryNode w env calls executionData runIndex
          { run with executionError := none }).1.received = run.received ∧ _ :=
        received_tryNode_pinned h
      split
      next run' e heq =>
        rw [heq] at hreceived hpinned
        refine Eq.trans (ih ?_) hreceived
        exact hpinned
      next => exact hreceived
    next => rfl

theorem maxTries_pos (node : INode) : 0 < maxTries node := by
  rw [maxTries]
  split
  · simp only
    omega
  · exact Nat.one_pos

/-- The loop inside a try is left alone when there is no other try, or no failure. -/
theorem rerunFailed_eq {triesLeft : ℕ} (h : triesLeft = 0 ∨ checkFailure result = false) :
    rerunFailed calls triesLeft run result = (run, result) := by
  rcases triesLeft with _ | triesLeft
  · rfl
  · rw [rerunFailed, h.resolve_left (Nat.succ_ne_zero _)]
    rfl

/-- **A turn of a node.** It extends the execution, its first call receives the results of the
requested actions as they are in the run data, and when it ends with a request, one of its calls
made that request and its nodes were queued. -/
theorem turn_runTries (w : Workflow) (env : NodeFunctions) (calls : List NodeCall)
    (executionData : IExecuteData) (runIndex : ℕ) (st : IRunExecutionData)
    (rewireOutputLogTo : InsertionMap String NodeConnectionType) :
    Turn w executionData st
        (runTries w env calls executionData runIndex st rewireOutputLogTo).1 ∧ ∀ queueing,
      (runTries w env calls executionData runIndex st rewireOutputLogTo).2 = .requested queueing →
        Handles w executionData runIndex st calls
          (runTries w env calls executionData runIndex st rewireOutputLogTo).1 queueing :=
  (Turn.start w executionData st rewireOutputLogTo).tryLoop

end WorkflowExecute

end N8n
