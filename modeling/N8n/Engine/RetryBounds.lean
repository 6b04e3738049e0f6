import N8n.Engine.NodeTries

/-!
# What the tries of a node add up to

The two ways of trying a node again share one counter and one collection of results. A call of the
loop inside a try does not count when it throws, so a node may be called more often than it has
tries. The calls of that loop get no results of the actions, and every further turn of the outer
loop collects the results once more. This module says when all of that stays without effect
(`isRetriedExactly_iff`).

What is followed is the state of the turn after each call as long as all calls before it failed
(`Called`). The number of calls and the counter differ in such a state exactly when a call threw
right after one that returned an error (`ThrowsAfterFailure`).
-/

namespace N8n

namespace WorkflowExecute

open RequestsResponse

def isThrown : NodeResult → Bool
  | .thrown _ => true
  | .request _ | .data _ _ => false

/-- The call failed: it threw, or it returned an error. -/
def isFailure (result : NodeResult) : Bool :=
  isThrown result || checkFailure result

/-- The result of a call of `runNode`, by its number. -/
def attempt (calls : List NodeCall) (i : ℕ) : NodeResult :=
  (calls.getD i default).result

/-- The results that a call received. -/
def receivedResults (response : Option EngineResponse) : List ActionResponse :=
  response.elim [] (·.actionResponses)

/-- A call threw that came after one that returned an error. -/
def ThrowsAfterFailure (calls : List NodeCall) (k : ℕ) : Prop :=
  ∃ j, j + 1 < k ∧ checkFailure (attempt calls j) ∧ isThrown (attempt calls (j + 1))

/-- The first calls all failed. -/
def AllFail (calls : List NodeCall) (k : ℕ) : Prop :=
  ∀ i < k, isFailure (attempt calls i)

/-- The time to wait until, after a number of calls. -/
def waitTillAfter (calls : List NodeCall) (waitTill : Option ℕ) : ℕ → Option ℕ
  | 0 => waitTill
  | k + 1 => (calls.getD k default).waitTill.or (waitTillAfter calls waitTill k)

/-- The state of the execution after a number of calls that all failed. -/
def executionBefore (calls : List NodeCall) (executionData : IExecuteData) (st : IRunExecutionData)
    (k : ℕ) : IRunExecutionData :=
  { st with
    waitTill := waitTillAfter calls st.waitTill k
    lastNodeExecuted :=
      if (List.range k).any fun i => isThrown (attempt calls i) then some executionData.node.name
      else st.lastNodeExecuted }

/-- The state in which the result of a call is processed, when all calls before it failed. -/
def executionAt (calls : List NodeCall) (executionData : IExecuteData) (st : IRunExecutionData)
    (k : ℕ) : IRunExecutionData :=
  { executionBefore calls executionData st k with
    waitTill := waitTillAfter calls st.waitTill (k + 1) }

section

variable (w : Workflow) (env : NodeFunctions) (calls : List NodeCall)
  (executionData : IExecuteData) (runIndex : ℕ) (st : IRunExecutionData)
  (rewireOutputLogTo : InsertionMap String NodeConnectionType)

/-- The result of a call is processed without an error, after calls that all failed. -/
def IsProcessed (k : ℕ) : Prop :=
  (handleResult w env executionData runIndex
    { execution := executionAt calls executionData st k, rewireOutputLogTo }
    (attempt calls k)).2.isFailed = false

/-- The results of the requested actions, as they are when the turn starts. -/
def requestedResults : List ActionResponse :=
  (resumeResponse executionData st.runData).actionResponses

/-- A turn makes as many calls as there are tries at most, none after one that did not fail, and
each call receives the results of the requested actions. -/
structure IsRetriedExactly : Prop where
  length_le : (runTries w env calls executionData runIndex st rewireOutputLogTo).1.received.length ≤
    maxTries executionData.node
  failed_of_next : ∀ i, i + 1 <
      (runTries w env calls executionData runIndex st rewireOutputLogTo).1.received.length →
    isFailure (attempt calls i)
  received_eq : ∀ response ∈
      (runTries w env calls executionData runIndex st rewireOutputLogTo).1.received,
    receivedResults response = requestedResults executionData st

end

/-! ### How a try ends -/

section

variable {w : Workflow} {env : NodeFunctions} {executionData : IExecuteData} {runIndex : ℕ}
  {run run' : NodeRun}

/-- How a try ends depends on the output and on the state of the execution only. -/
theorem finishTry_snd_eq (hexecution : run.execution = run'.execution)
    (hdata : run.nodeSuccessData = run'.nodeSuccessData) :
    (finishTry executionData run).2 = (finishTry executionData run').2 := by
  rw [finishTry, finishTry, hdata]
  cases assignPairedItems run'.nodeSuccessData executionData with
  | error e => rfl
  | ok nodeSuccessData =>
    simp only [hexecution]
    cases alwaysOutputData nodeSuccessData executionData with
    | error e => rfl
    | ok nodeSuccessData => simp only [apply_ite Prod.snd]

theorem handleResult_snd_eq (hexecution : run.execution = run'.execution)
    (hrewire : run.rewireOutputLogTo = run'.rewireOutputLogTo) (result : NodeResult) :
    (handleResult w env executionData runIndex run result).2 =
      (handleResult w env executionData runIndex run' result).2 := by
  have hfinish (nodeSuccessData : Option NodeOutputs) :
      (finishTry executionData { run with nodeSuccessData }).2 =
        (finishTry executionData { run' with nodeSuccessData }).2 :=
    finishTry_snd_eq hexecution rfl
  match result with
  | .thrown e => rfl
  | .request request =>
    rw [handleResult, handleResult, hexecution, hrewire]
    split
    next => rfl
    next => rfl
  | .data _ (some e) => rfl
  | .data none none => exact hfinish none
  | .data (some nodeSuccessData) none =>
    have herror : handleNodeErrorOutput env run.execution executionData nodeSuccessData runIndex =
        handleNodeErrorOutput env run'.execution executionData nodeSuccessData runIndex := by
      rw [hexecution]
    rw [handleResult, handleResult, herror]
    split_ifs
    · split
      next => rfl
      next => exact hfinish _
    · exact hfinish _

/-- Processing a result leaves the number of tries alone. -/
theorem tryIndex_handleResult (result : NodeResult) :
    (handleResult w env executionData runIndex run result).1.tryIndex = run.tryIndex := by
  obtain ⟨_, _, _, _, _, _, hrun, -⟩ | ⟨⟨_, _, hrun⟩, -⟩ :=
    handleResult_cases w env executionData runIndex run result
  · rw [hrun]
  · rw [hrun]

theorem pinData_addToWaiting (d : Delivery) (st : IRunExecutionData) :
    (addToWaiting w d st).1.pinData = st.pinData := by
  have hset (nodeName : String) (waiting : NodeWaiting) :
      (setOrDeleteNodeWaiting nodeName waiting st).pinData = st.pinData := by
    rw [setOrDeleteNodeWaiting]
    split_ifs
    · rfl
    · rfl
  rw [addToWaiting]
  split
  next => rfl
  next => exact hset _ _
  next waiting waitingNodeIndex _ =>
    have hadd : (if st.waitingExecution.has d.connectionData.node = true then
        (setNodeWaiting d.connectionData.node waiting st, Except.ok ())
        else addInputNodes w d (setNodeWaiting d.connectionData.node waiting st)).1.pinData =
          st.pinData := by
      split
      next => rfl
      next =>
        obtain ⟨stack, heq⟩ := addInputNodes_eq w d
          (setNodeWaiting d.connectionData.node waiting st)
        rw [heq]
        rfl
    simp only
    split
    next heq =>
      rw [heq] at hadd
      exact hadd
    next heq =>
      rw [heq] at hadd
      exact hadd

theorem pinData_queueNode (st : IRunExecutionData) (node : NodeToBeExecuted) :
    (queueNode w st node).1.pinData = st.pinData := by
  have hadd (d : Delivery) : (addNodeToBeExecuted w d st).1.pinData = st.pinData := by
    rw [addNodeToBeExecuted]
    split
    next => exact pinData_addToWaiting d st
    next =>
      split
      next => rfl
      next => rfl
  rw [queueNode]
  split
  next => rfl
  next parentOutputData _ =>
    have hadded := hadd (deliveryOf node parentOutputData)
    split
    next heq =>
      rw [heq] at hadded
      exact hadded
    next heq =>
      rw [heq] at hadded
      exact hadded

theorem pinData_handleEngineRequest (w : Workflow) (executionData : IExecuteData) (runIndex : ℕ)
    (request : EngineRequest) (st : IRunExecutionData)
    (rewireOutputLogTo : InsertionMap String NodeConnectionType) :
    (handleEngineRequest w executionData request runIndex st rewireOutputLogTo).1.1.pinData =
      st.pinData := by
  have hqueue (nodes : List NodeToBeExecuted) (st' : IRunExecutionData) :
      (queueNodes w st' nodes).1.pinData = st'.pinData :=
    ExceptFold.foldUntilError_induct
      (P := fun st'' : IRunExecutionData => st''.pinData = st'.pinData)
      (fun st'' node _ h => (pinData_queueNode st'' node).trans h) rfl
  rw [handleEngineRequest]
  split
  next => rfl
  next prepared nodesToBeExecuted _ =>
    have hqueued := hqueue nodesToBeExecuted { st with runData := prepared.runData }
    simp only
    split
    next heq =>
      rw [heq] at hqueued
      exact hqueued
    next heq =>
      rw [heq] at hqueued
      exact hqueued

/-- Processing a result leaves the pinned data alone. -/
theorem pinnedData_handleResult (result : NodeResult) :
    pinnedData (handleResult w env executionData runIndex run result).1.execution
      executionData.node = pinnedData run.execution executionData.node := by
  obtain ⟨request, -, execution, rewireOutputLogTo, outcome, heq, hrun, -⟩ | ⟨⟨_, _, hrun⟩, -⟩ :=
    handleResult_cases w env executionData runIndex run result
  · have hpinData := pinData_handleEngineRequest w executionData runIndex request run.execution
      run.rewireOutputLogTo
    rw [heq] at hpinData
    rw [hrun, pinnedData, pinnedData, hpinData]
  · rw [hrun]
    rfl

end

/-! ### Calls after calls that failed -/

section

variable (calls : List NodeCall) (executionData : IExecuteData) (st : IRunExecutionData)
  (rewireOutputLogTo : InsertionMap String NodeConnectionType)

/-- Without results to begin with, no call received any. -/
def ReceivesNothing (run : NodeRun) : Prop :=
  requestedResults executionData st = [] →
    run.subNodeExecutionResults.actionResponses = [] ∧
      ∀ response ∈ run.received, receivedResults response = []

/-- The state of a turn at a try, when all calls before it failed. -/
structure Pending (run : NodeRun) (k : ℕ) : Prop where
  received : run.received.length = k
  allFail : AllFail calls k
  execution : run.execution = executionBefore calls executionData st k
  rewire : run.rewireOutputLogTo = rewireOutputLogTo
  tryIndex_le : run.tryIndex ≤ k
  tryIndex_lt_iff : run.tryIndex < k ↔ ThrowsAfterFailure calls k
  thrown : ∀ i, i + 1 = k → isThrown (attempt calls i)
  exceeds : maxTries executionData.node ≤ k → run.tryIndex < maxTries executionData.node →
    ThrowsAfterFailure calls (maxTries executionData.node)
  nothing : ReceivesNothing executionData st run

/-- The state of a turn right after a call, when all calls before this one failed. -/
structure Called (run : NodeRun) (k : ℕ) : Prop where
  received : run.received.length = k + 1
  allFail : AllFail calls k
  execution : run.execution = executionAt calls executionData st k
  rewire : run.rewireOutputLogTo = rewireOutputLogTo
  tryIndex_le : run.tryIndex ≤ k
  tryIndex_lt_iff : run.tryIndex < k ↔ ThrowsAfterFailure calls (k + 1)
  tryIndex_lt : run.tryIndex < maxTries executionData.node
  exceeds : maxTries executionData.node ≤ k →
    ThrowsAfterFailure calls (maxTries executionData.node)
  nothing : ReceivesNothing executionData st run

end

variable {w : Workflow} {env : NodeFunctions} {calls : List NodeCall}
  {executionData : IExecuteData} {runIndex : ℕ} {st : IRunExecutionData}
  {rewireOutputLogTo : InsertionMap String NodeConnectionType} {run last : NodeRun}
  {result : NodeResult} {k : ℕ}

theorem ThrowsAfterFailure.mono {k' : ℕ} (h : ThrowsAfterFailure calls k) (hle : k ≤ k') :
    ThrowsAfterFailure calls k' := by
  obtain ⟨j, hj, hfailure, hthrown⟩ := h
  exact ⟨j, by omega, hfailure, hthrown⟩

/-- One more call does not matter unless it threw after one that returned an error. -/
theorem throwsAfterFailure_succ
    (h : ∀ i, i + 1 = k → ¬ (checkFailure (attempt calls i) ∧ isThrown (attempt calls (i + 1)))) :
    ThrowsAfterFailure calls (k + 1) ↔ ThrowsAfterFailure calls k := by
  refine ⟨?_, fun h => h.mono (Nat.le_succ k)⟩
  rintro ⟨j, hj, hfailure, hthrown⟩
  have hne : j + 1 ≠ k := fun heq => h j heq ⟨hfailure, hthrown⟩
  exact ⟨j, by omega, hfailure, hthrown⟩

theorem exists_eq_of_isThrown (h : isThrown result = true) : ∃ e, result = .thrown e := by
  cases result with
  | thrown e => exact ⟨e, rfl⟩
  | request request => cases h
  | data data => cases h

theorem not_checkFailure_of_isThrown (h : isThrown result = true) :
    checkFailure result = false := by
  obtain ⟨e, rfl⟩ := exists_eq_of_isThrown h
  rfl

theorem not_isThrown_of_checkFailure (h : checkFailure result = true) :
    isThrown result = false := by
  cases result with
  | thrown e => cases h
  | request request => rfl
  | data data => rfl

theorem isFailure_iff :
    isFailure result = true ↔ isThrown result = true ∨ checkFailure result = true := by
  rw [isFailure, Bool.or_eq_true]

/-- Nothing failed before the first call. -/
theorem Pending.start (calls : List NodeCall) (executionData : IExecuteData)
    (st : IRunExecutionData) (rewireOutputLogTo : InsertionMap String NodeConnectionType) :
    Pending calls executionData st rewireOutputLogTo { execution := st, rewireOutputLogTo } 0 where
  received := rfl
  allFail := fun i hi => absurd hi (Nat.not_lt_zero i)
  execution := rfl
  rewire := rfl
  tryIndex_le := Nat.le_refl 0
  tryIndex_lt_iff := by
    refine iff_of_false (Nat.lt_irrefl 0) ?_
    rintro ⟨j, hj, -⟩
    exact absurd hj (Nat.not_lt_zero _)
  thrown := fun i hi => absurd hi (Nat.succ_ne_zero i)
  exceeds := fun hle hlt => absurd hlt (Nat.not_lt.mpr hle)
  nothing := fun _ => ⟨rfl, fun _ hmem => absurd hmem List.not_mem_nil⟩

/-- What a turn collects comes behind what it has collected before. -/
theorem addResponses_eq (executionData : IExecuteData) (run : NodeRun) :
    ∃ subNodeExecutionResults,
      addResponses executionData run = { run with subNodeExecutionResults } ∧
      subNodeExecutionResults.actionResponses = run.subNodeExecutionResults.actionResponses ++
        (resumeResponse executionData run.execution.runData).actionResponses := by
  rw [addResponses, resumeResponse]
  split
  next => exact ⟨run.subNodeExecutionResults, rfl, (List.append_nil _).symm⟩
  next => exact ⟨_, rfl, rfl⟩

/-- The first call of a try. -/
theorem Pending.runNode (h : Pending calls executionData st rewireOutputLogTo run k)
    (hlt : run.tryIndex < maxTries executionData.node) :
    Called calls executionData st rewireOutputLogTo
        (runNode calls (some (addResponses executionData run).subNodeExecutionResults)
          (addResponses executionData run)).1 k ∧
      (WorkflowExecute.runNode calls (some (addResponses executionData run).subNodeExecutionResults)
        (addResponses executionData run)).2 = attempt calls k := by
  obtain ⟨results, heq, hresults⟩ := addResponses_eq executionData run
  have hruns : run.execution.runData = st.runData := by
    rw [h.execution]
    rfl
  rw [heq, WorkflowExecute.runNode]
  simp only [h.received]
  refine ⟨?_, rfl⟩
  -- the call before this one threw, so that this one counts as a try
  have hthrows : ThrowsAfterFailure calls (k + 1) ↔ ThrowsAfterFailure calls k := by
    refine throwsAfterFailure_succ fun i hi hboth => ?_
    exact absurd hboth.1 (Bool.eq_false_iff.mp (not_checkFailure_of_isThrown (h.thrown i hi)))
  exact {
    received := by rw [List.length_append, h.received]; rfl
    allFail := h.allFail
    execution := by
      rw [h.execution]
      rfl
    rewire := h.rewire
    tryIndex_le := h.tryIndex_le
    tryIndex_lt_iff := h.tryIndex_lt_iff.trans hthrows.symm
    tryIndex_lt := hlt
    exceeds := fun hle => h.exceeds hle hlt
    nothing := fun hnone => by
      obtain ⟨hcollected, hreceived⟩ := h.nothing hnone
      have hnothing : results.actionResponses = [] := by
        rw [hresults, hcollected, hruns]
        exact hnone
      refine ⟨hnothing, fun response hmem => ?_⟩
      obtain hmem | hmem := List.mem_append.mp hmem
      · exact hreceived response hmem
      · rw [List.mem_singleton.mp hmem]
        exact hnothing }

/-- A further call of the same try. It counts unless it throws. -/
theorem Called.runNode (h : Called calls executionData st rewireOutputLogTo run k)
    (hfailure : checkFailure (attempt calls k) = true)
    (hlt : run.tryIndex + 1 < maxTries executionData.node) :
    (runNode calls none run).2 = attempt calls (k + 1) ∧
      Called calls executionData st rewireOutputLogTo
        { (WorkflowExecute.runNode calls none run).1 with
          tryIndex := if isThrown (attempt calls (k + 1)) then run.tryIndex else run.tryIndex + 1 }
        (k + 1) := by
  rw [WorkflowExecute.runNode]
  simp only [h.received]
  refine ⟨rfl, ?_⟩
  have hnot : isThrown (attempt calls k) = false := not_isThrown_of_checkFailure hfailure
  have hle := h.tryIndex_le
  exact {
    received := by rw [List.length_append, h.received]; rfl
    allFail := fun i hi => by
      obtain hi | rfl := Nat.lt_succ_iff_lt_or_eq.mp hi
      · exact h.allFail i hi
      · exact isFailure_iff.mpr (.inr hfailure)
    execution := by
      rw [h.execution, executionAt, executionAt, executionBefore, executionBefore, List.range_succ,
        List.any_append]
      simp only [List.any_cons, List.any_nil, hnot, Bool.or_false]
      rfl
    rewire := h.rewire
    tryIndex_le := by
      simp only
      split_ifs
      · omega
      · omega
    tryIndex_lt_iff := by
      simp only
      split_ifs with hthrown
      · exact iff_of_true (by omega) ⟨k, by omega, hfailure, hthrown⟩
      · have hthrows : ThrowsAfterFailure calls (k + 1 + 1) ↔ ThrowsAfterFailure calls (k + 1) := by
          refine throwsAfterFailure_succ fun i hi hboth => ?_
          obtain rfl := Nat.succ.inj hi
          exact hthrown hboth.2
        rw [hthrows, ← h.tryIndex_lt_iff]
        omega
    tryIndex_lt := by
      simp only
      split_ifs
      · omega
      · exact hlt
    exceeds := fun hle' => by
      obtain hlt' | heq := Nat.lt_or_eq_of_le hle'
      · exact h.exceeds (Nat.le_of_lt_succ hlt')
      · rw [heq]
        exact h.tryIndex_lt_iff.mp (by omega)
    nothing := fun hnone => by
      obtain ⟨hcollected, hreceived⟩ := h.nothing hnone
      refine ⟨hcollected, fun response hmem => ?_⟩
      obtain hmem | hmem := List.mem_append.mp hmem
      · exact hreceived response hmem
      · rw [List.mem_singleton.mp hmem]
        rfl }

theorem rerunFailed_of_thrown {triesLeft : ℕ} (hfailure : checkFailure result = true)
    (hthrown : isThrown (runNode calls none run).2 = true) :
    rerunFailed calls (triesLeft + 1) run result = runNode calls none run := by
  rw [rerunFailed, if_pos hfailure]
  split
  next heq => exact heq.symm
  next hnot heq =>
    obtain ⟨e, he⟩ := exists_eq_of_isThrown hthrown
    rw [heq] at he
    exact absurd he (hnot e)

theorem rerunFailed_of_not_thrown {triesLeft : ℕ} (hfailure : checkFailure result = true)
    (hthrown : isThrown (runNode calls none run).2 = false) :
    rerunFailed calls (triesLeft + 1) run result =
      rerunFailed calls triesLeft
        { (runNode calls none run).1 with tryIndex := run.tryIndex + 1 }
        (runNode calls none run).2 := by
  rw [rerunFailed, if_pos hfailure]
  split
  next heq =>
    rw [heq] at hthrown
    cases hthrown
  next heq =>
    have hindex : (runNode calls none run).1.tryIndex = run.tryIndex := rfl
    rw [← hindex, heq]

/-- The loop inside a try ends with a call that returned no error, or with the last try. -/
theorem Called.rerunFailed {triesLeft : ℕ}
    (h : Called calls executionData st rewireOutputLogTo run k)
    (hleft : run.tryIndex + 1 + triesLeft = maxTries executionData.node) :
    ∃ last m, Called calls executionData st rewireOutputLogTo last m ∧
      rerunFailed calls triesLeft run (attempt calls k) = (last, attempt calls m) ∧
      run.tryIndex ≤ last.tryIndex ∧
      (checkFailure (attempt calls m) = false ∨
        last.tryIndex + 1 = maxTries executionData.node) := by
  induction triesLeft generalizing run k with
  | zero => exact ⟨run, k, h, rfl, Nat.le_refl _, .inr hleft⟩
  | succ triesLeft ih =>
    by_cases hfailure : checkFailure (attempt calls k) = true
    · obtain ⟨hresult, hcalled⟩ := h.runNode hfailure (by omega)
      cases hthrown : isThrown (attempt calls (k + 1)) with
      | true =>
        rw [if_pos hthrown] at hcalled
        refine ⟨(WorkflowExecute.runNode calls none run).1, k + 1, hcalled, ?_,
          Nat.le_refl _, .inl (not_checkFailure_of_isThrown hthrown)⟩
        rw [rerunFailed_of_thrown hfailure (hresult.symm ▸ hthrown)]
        exact Prod.ext rfl hresult
      | false =>
        rw [hthrown, if_neg Bool.false_ne_true] at hcalled
        obtain ⟨last, m, hlast, heq, hle, hexit⟩ := ih hcalled (by simp only; omega)
        refine ⟨last, m, hlast, ?_, Nat.le_of_succ_le hle, hexit⟩
        rw [rerunFailed_of_not_thrown hfailure (hresult.symm ▸ hthrown), hresult]
        exact heq
    · have hsuccess : checkFailure (attempt calls k) = false := Bool.eq_false_iff.mpr hfailure
      exact ⟨run, k, h, rerunFailed_eq (.inr hsuccess), Nat.le_refl _, .inl hsuccess⟩

/-- A call that threw ends its try. -/
theorem Called.fail (h : Called calls executionData st rewireOutputLogTo last k)
    (hthrown : isThrown (attempt calls k) = true) (executionError : Option ExecutionError) :
    Pending calls executionData st rewireOutputLogTo
      { last with
        tryIndex := last.tryIndex + 1
        executionError
        execution := { last.execution with lastNodeExecuted := some executionData.node.name } }
      (k + 1) where
  received := h.received
  allFail := fun i hi => by
    obtain hi | rfl := Nat.lt_succ_iff_lt_or_eq.mp hi
    · exact h.allFail i hi
    · exact isFailure_iff.mpr (.inl hthrown)
  execution := by
    rw [h.execution, executionAt, executionBefore, executionBefore, List.range_succ,
      List.any_append]
    simp only [List.any_cons, hthrown, Bool.true_or, Bool.or_true, if_true]
  rewire := h.rewire
  tryIndex_le := Nat.succ_le_succ h.tryIndex_le
  tryIndex_lt_iff := Nat.succ_lt_succ_iff.trans h.tryIndex_lt_iff
  thrown := fun i hi => by
    obtain rfl := Nat.succ.inj hi
    exact hthrown
  exceeds := fun hle hlt => by
    obtain hlt' | heq := Nat.lt_or_eq_of_le hle
    · exact h.exceeds (Nat.le_of_lt_succ hlt')
    · rw [heq]
      refine h.tryIndex_lt_iff.mp ?_
      rw [heq] at hlt
      exact Nat.lt_of_succ_lt_succ hlt
  nothing := h.nothing

/-- One try of a node without pinned data. -/
theorem Pending.tryNode (w : Workflow) (env : NodeFunctions) (runIndex : ℕ)
    (h : Pending calls executionData st rewireOutputLogTo run k)
    (hlt : run.tryIndex < maxTries executionData.node)
    (hpinned : pinnedData st executionData.node = none) :
    ∃ last m, Called calls executionData st rewireOutputLogTo last m ∧
      tryNode w env calls executionData runIndex { run with executionError := none } =
        handleResult w env executionData runIndex last (attempt calls m) ∧
      run.tryIndex ≤ last.tryIndex ∧
      (checkFailure (attempt calls m) = false ∨
        last.tryIndex + 1 = maxTries executionData.node) := by
  have hreset : Pending calls executionData st rewireOutputLogTo
      { run with executionError := none } k :=
    ⟨h.received, h.allFail, h.execution, h.rewire, h.tryIndex_le, h.tryIndex_lt_iff, h.thrown,
      h.exceeds, h.nothing⟩
  have hpinned' : pinnedData run.execution executionData.node = none := by
    rw [h.execution]
    exact hpinned
  obtain ⟨hcalled, hresult⟩ := hreset.runNode hlt
  let added := addResponses executionData { run with executionError := none }
  have hindex : (WorkflowExecute.runNode calls (some added.subNodeExecutionResults)
      added).1.tryIndex = run.tryIndex := by
    obtain ⟨results, heq, -⟩ := addResponses_eq executionData { run with executionError := none }
    have hadded : added.tryIndex = run.tryIndex := by
      rw [show added = _ from heq]
    exact hadded
  have hleft : run.tryIndex + 1 + (maxTries executionData.node - 1 - run.tryIndex) =
      maxTries executionData.node := by omega
  obtain ⟨last, m, hlast, heq, hle, hexit⟩ := hcalled.rerunFailed (hindex ▸ hleft)
  rw [hindex] at hle heq
  refine ⟨last, m, hlast, ?_, hle, hexit⟩
  rw [WorkflowExecute.tryNode, hpinned']
  simp only
  rw [hresult, hindex, heq]

/-! ### How a turn ends -/

section

variable (w : Workflow) (env : NodeFunctions) (calls : List NodeCall)
  (executionData : IExecuteData) (runIndex : ℕ) (st : IRunExecutionData)
  (rewireOutputLogTo : InsertionMap String NodeConnectionType)

/-- The turn ended with the call `k`, after calls that all failed: its result was processed, or no
try was left. -/
structure EndsWith (received : List (Option EngineResponse)) (k : ℕ) (last : NodeRun) : Prop where
  called : Called calls executionData st rewireOutputLogTo last k
  received_eq : received = last.received
  exit : checkFailure (attempt calls k) = false ∨
    last.tryIndex + 1 = maxTries executionData.node
  processed : IsProcessed w env calls executionData runIndex st rewireOutputLogTo k ∨
    last.tryIndex + 1 = maxTries executionData.node

/-- The turn went on after the call `k`, which did not fail, because its result could not be
processed. -/
structure GoesOnAfter (received : List (Option EngineResponse)) (k : ℕ) (last : NodeRun) :
    Prop where
  called : Called calls executionData st rewireOutputLogTo last k
  lt : k + 1 < received.length
  isFailure_eq : isFailure (attempt calls k) = false
  not_isProcessed : ¬ IsProcessed w env calls executionData runIndex st rewireOutputLogTo k
  tryIndex_lt : last.tryIndex + 1 < maxTries executionData.node

end

/-- What an earlier call received stays. -/
theorem prefix_rerunFailed (triesLeft : ℕ) (run : NodeRun) (result : NodeResult) :
    run.received <+: (rerunFailed calls triesLeft run result).1.received := by
  induction triesLeft generalizing run result with
  | zero => exact List.prefix_rfl
  | succ triesLeft ih =>
    rw [rerunFailed]
    have hcall : run.received <+: (runNode calls none run).1.received := List.prefix_append _ _
    split_ifs
    · split
      next heq =>
        rw [heq] at hcall
        exact hcall
      next run' result' _ heq =>
        rw [heq] at hcall
        exact hcall.trans (ih { run' with tryIndex := run'.tryIndex + 1 } result')
    · exact List.prefix_rfl

/-- A try without pinned data makes a call, which receives all that was collected. -/
theorem prefix_tryNode (w : Workflow) (env : NodeFunctions) (calls : List NodeCall)
    (runIndex : ℕ) (run : NodeRun) (hpinned : pinnedData run.execution executionData.node = none) :
    run.received ++ [some (addResponses executionData run).subNodeExecutionResults] <+:
      (tryNode w env calls executionData runIndex run).1.received := by
  obtain ⟨results, heq, -⟩ := addResponses_eq executionData run
  rw [tryNode, hpinned]
  simp only
  rw [received_handleResult, heq]
  exact prefix_rerunFailed _
    (runNode calls (some results) { run with subNodeExecutionResults := results }).1 _

theorem prefix_tryLoop (turns : ℕ) (run : NodeRun) :
    run.received <+: (tryLoop w env calls executionData runIndex turns run).1.received := by
  induction turns generalizing run with
  | zero => exact List.prefix_rfl
  | succ turns ih =>
    have htry : run.received <+: (tryNode w env calls executionData runIndex
        { run with executionError := none }).1.received := by
      cases hpinned : pinnedData run.execution executionData.node with
      | some nodePinData =>
        let reset : NodeRun := { run with executionError := none }
        have hreset : pinnedData reset.execution executionData.node = some nodePinData := hpinned
        have hreceived : (tryNode w env calls executionData runIndex reset).1.received =
            reset.received := (received_tryNode_pinned hreset).1
        exact ⟨[], (List.append_nil _).trans hreceived.symm⟩
      | none =>
        have hcall := prefix_tryNode w env calls runIndex { run with executionError := none }
          hpinned
        exact (List.prefix_append _ _).trans hcall
    rw [tryLoop]
    split_ifs
    · split
      next run' e heq =>
        rw [heq] at htry
        refine htry.trans (ih { run' with
          tryIndex := run'.tryIndex + 1
          executionError := some e
          execution := { run'.execution with lastNodeExecuted := some executionData.node.name } })
      next => exact htry
    · exact List.prefix_rfl

/-- What the first try of a loop received is part of what the loop received. -/
theorem prefix_tryLoop_of_tryNode (w : Workflow) (env : NodeFunctions) (calls : List NodeCall)
    (runIndex turns : ℕ) (run : NodeRun) (hlt : run.tryIndex < maxTries executionData.node) :
    (tryNode w env calls executionData runIndex { run with executionError := none }).1.received <+:
      (tryLoop w env calls executionData runIndex (turns + 1) run).1.received := by
  rw [tryLoop, if_pos hlt]
  split
  next run' e heq =>
    rw [heq]
    exact prefix_tryLoop turns { run' with
      tryIndex := run'.tryIndex + 1
      executionError := some e
      execution := { run'.execution with lastNodeExecuted := some executionData.node.name } }
  next => exact List.prefix_rfl

theorem tryLoop_of_le {turns : ℕ} (h : maxTries executionData.node ≤ run.tryIndex) :
    tryLoop w env calls executionData runIndex turns run = (run, .finished) := by
  cases turns with
  | zero => rfl
  | succ turns => rw [tryLoop, if_neg (Nat.not_lt.mpr h)]

/-- A result is processed as in the state that the calls before it lead to. -/
theorem Called.isProcessed_iff (w : Workflow) (env : NodeFunctions) (runIndex : ℕ)
    (h : Called calls executionData st rewireOutputLogTo last k) :
    IsProcessed w env calls executionData runIndex st rewireOutputLogTo k ↔
      (handleResult w env executionData runIndex last (attempt calls k)).2.isFailed = false := by
  rw [IsProcessed, handleResult_snd_eq h.execution.symm h.rewire.symm]

/-- **The loop over the tries.** As long as all calls fail, the loop ends with a call whose result
is processed or with its last try; or it goes on after a call that did not fail. -/
theorem Pending.tryLoop (w : Workflow) (env : NodeFunctions) (runIndex turns : ℕ)
    (h : Pending calls executionData st rewireOutputLogTo run k)
    (hlt : run.tryIndex < maxTries executionData.node)
    (hturns : maxTries executionData.node ≤ run.tryIndex + turns)
    (hpinned : pinnedData st executionData.node = none) :
    ∃ m last,
      EndsWith w env calls executionData runIndex st rewireOutputLogTo
        (tryLoop w env calls executionData runIndex turns run).1.received m last ∨
      GoesOnAfter w env calls executionData runIndex st rewireOutputLogTo
        (WorkflowExecute.tryLoop w env calls executionData runIndex turns run).1.received m
        last := by
  induction turns generalizing run k with
  | zero => omega
  | succ turns ih =>
    obtain ⟨last, m, hlast, htry, hle, hexit⟩ :=
      h.tryNode w env runIndex hlt hpinned
    have hreceived : (handleResult w env executionData runIndex last
        (attempt calls m)).1.received = last.received := received_handleResult _ _
    have hindex : (handleResult w env executionData runIndex last
        (attempt calls m)).1.tryIndex = last.tryIndex := tryIndex_handleResult _
    have hpinnedAfter : pinnedData (handleResult w env executionData runIndex last
        (attempt calls m)).1.execution executionData.node = none := by
      rw [pinnedData_handleResult, hlast.execution]
      exact hpinned
    have hprocessed := hlast.isProcessed_iff w env runIndex
    have hlt' := hlast.tryIndex_lt
    rw [WorkflowExecute.tryLoop, if_pos hlt, htry]
    cases hhandle : handleResult w env executionData runIndex last (attempt calls m) with
    | mk run' tryEnd =>
    rw [hhandle] at hreceived hindex hpinnedAfter hprocessed
    simp only at hreceived hindex hpinnedAfter
    cases tryEnd with
    | failed e =>
      simp only
      by_cases hleft : last.tryIndex + 1 = maxTries executionData.node
      · -- that was the last try
        refine ⟨m, last, .inl ⟨hlast, ?_, hexit, .inr hleft⟩⟩
        rw [tryLoop_of_le (by simp only; omega)]
        exact hreceived
      · cases hfailure : isFailure (attempt calls m) with
        | true =>
          have hthrown : isThrown (attempt calls m) = true := by
            have hsuccess := hexit.resolve_right hleft
            exact (isFailure_iff.mp hfailure).resolve_right (Bool.eq_false_iff.mp hsuccess)
          -- a call that threw leaves the turn as it is
          obtain rfl : last = run' := by
            obtain ⟨e', he'⟩ := exists_eq_of_isThrown hthrown
            rw [he'] at hhandle
            exact congrArg Prod.fst hhandle
          exact ih (hlast.fail hthrown (some e)) (by simp only; omega) (by simp only; omega)
        | false =>
          obtain ⟨turns, rfl⟩ : ∃ turns', turns = turns' + 1 :=
            Nat.exists_eq_succ_of_ne_zero (by omega)
          refine ⟨m, last, .inr ⟨hlast, ?_, hfailure, ?_, by omega⟩⟩
          · let next : NodeRun := { run' with
              tryIndex := run'.tryIndex + 1
              executionError := some e
              execution :=
                { run'.execution with lastNodeExecuted := some executionData.node.name } }
            have hcall := prefix_tryNode w env calls runIndex { next with executionError := none }
              hpinnedAfter
            have hnextLt : next.tryIndex < maxTries executionData.node := by
              simp only [next]
              omega
            have hnext := hcall.trans
              (prefix_tryLoop_of_tryNode w env calls runIndex turns next hnextLt)
            have hle := hnext.length_le
            rw [List.length_append, List.length_singleton] at hle
            have hlength := hlast.received
            rw [← hreceived] at hlength
            have hnextReceived : next.received = run'.received := rfl
            rw [hnextReceived] at hle
            exact Nat.lt_of_lt_of_le (hlength ▸ Nat.lt_succ_self _) hle
          · rw [hprocessed]
            exact Bool.noConfusion
    | finished => exact ⟨m, last, .inl ⟨hlast, hreceived, hexit, .inl (hprocessed.mpr rfl)⟩⟩
    | requested queueing =>
      exact ⟨m, last, .inl ⟨hlast, hreceived, hexit, .inl (hprocessed.mpr rfl)⟩⟩
    | noData => exact ⟨m, last, .inl ⟨hlast, hreceived, hexit, .inl (hprocessed.mpr rfl)⟩⟩

/-! ### When tries are exact -/

variable {received : List (Option EngineResponse)}

theorem EndsWith.length (h : EndsWith w env calls executionData runIndex st rewireOutputLogTo
    received k last) : received.length = k + 1 := by
  rw [h.received_eq]
  exact h.called.received

/-- A turn ends with a call that failed only when no try is left. -/
theorem EndsWith.tryIndex_of_isFailure (h : EndsWith w env calls executionData runIndex st
    rewireOutputLogTo received k last) (hfailure : isFailure (attempt calls k) = true) :
    last.tryIndex + 1 = maxTries executionData.node := by
  obtain hthrown | herror := isFailure_iff.mp hfailure
  · refine h.processed.resolve_left fun hprocessed => ?_
    obtain ⟨e, he⟩ := exists_eq_of_isThrown hthrown
    rw [IsProcessed, he] at hprocessed
    cases hprocessed
  · exact h.exit.resolve_left fun hsuccess => Bool.false_ne_true (hsuccess.symm.trans herror)

theorem le_of_allFail {m : ℕ} (h : AllFail calls m)
    (hsuccess : isFailure (attempt calls k) = false) :
    m ≤ k := by
  by_contra hlt
  exact Bool.false_ne_true (hsuccess.symm.trans (h k (Nat.not_le.mp hlt)))

theorem prefix_rerunFailed_of_failure {triesLeft : ℕ} (hfailure : checkFailure result = true) :
    run.received ++ [none] <+: (rerunFailed calls (triesLeft + 1) run result).1.received := by
  rw [rerunFailed, if_pos hfailure]
  have hcall : run.received ++ [none] <+: (runNode calls none run).1.received := List.prefix_rfl
  split
  next heq =>
    rw [heq] at hcall
    exact hcall
  next run' result' _ heq =>
    rw [heq] at hcall
    exact hcall.trans (prefix_rerunFailed _ { run' with tryIndex := run'.tryIndex + 1 } result')

/-- The second call receives no results, or all results twice. -/
theorem exists_receivedResults_ne (w : Workflow) (env : NodeFunctions) (runIndex : ℕ)
    (rewireOutputLogTo : InsertionMap String NodeConnectionType)
    (hpinned : pinnedData st executionData.node = none)
    (htries : 1 < maxTries executionData.node) (hfailure : isFailure (attempt calls 0) = true)
    (hresults : requestedResults executionData st ≠ []) :
    ∃ response ∈
        (runTries w env calls executionData runIndex st rewireOutputLogTo).1.received,
      receivedResults response ≠ requestedResults executionData st := by
  let run₀ : NodeRun := { execution := st, rewireOutputLogTo }
  have hpinned₀ : pinnedData run₀.execution executionData.node = none := hpinned
  obtain ⟨turns, hturns⟩ : ∃ turns, maxTries executionData.node = turns + 1 + 1 :=
    ⟨maxTries executionData.node - 2, by omega⟩
  obtain ⟨results, hadded, hresults₁⟩ := addResponses_eq executionData run₀
  let run₁ : NodeRun := (runNode calls (some results)
    { run₀ with subNodeExecutionResults := results }).1
  have htry : tryNode w env calls executionData runIndex run₀ =
      handleResult w env executionData runIndex
        (rerunFailed calls (turns + 1) run₁ (attempt calls 0)).1
        (rerunFailed calls (turns + 1) run₁ (attempt calls 0)).2 := by
    rw [tryNode, hpinned₀]
    simp only
    rw [hadded, hturns]
    rfl
  rw [runTries, hturns]
  obtain hthrown | herror := isFailure_iff.mp hfailure
  · -- the next try collects the results again
    obtain ⟨e, he⟩ := exists_eq_of_isThrown hthrown
    have hfailed : tryNode w env calls executionData runIndex run₀ = (run₁, .failed e) := by
      rw [htry, rerunFailed_eq (.inr (not_checkFailure_of_isThrown hthrown)), he]
      rfl
    let run₂ : NodeRun := { run₁ with
      tryIndex := run₁.tryIndex + 1
      executionError := some e
      execution := { run₁.execution with lastNodeExecuted := some executionData.node.name } }
    have hloop : tryLoop w env calls executionData runIndex (turns + 1 + 1) run₀ =
        tryLoop w env calls executionData runIndex (turns + 1) run₂ := by
      have hpos : run₀.tryIndex < maxTries executionData.node := maxTries_pos executionData.node
      rw [tryLoop, if_pos hpos]
      have hfailed' : tryNode w env calls executionData runIndex
          { run₀ with executionError := none } = (run₁, .failed e) := hfailed
      rw [hfailed']
    obtain ⟨results', hadded', hresults₂⟩ :=
      addResponses_eq executionData { run₂ with executionError := none }
    have hcall : run₂.received ++ [some results'] <+:
        (tryLoop w env calls executionData runIndex (turns + 1) run₂).1.received := by
      have hnext := prefix_tryNode w env calls runIndex { run₂ with executionError := none }
        hpinned
      rw [hadded'] at hnext
      exact hnext.trans (prefix_tryLoop_of_tryNode w env calls runIndex turns run₂ htries)
    refine ⟨some results', ?_, ?_⟩
    · have hmem : some results' ∈ run₂.received ++ [some results'] :=
        List.mem_append_right _ List.mem_cons_self
      exact hloop ▸ hcall.subset hmem
    · have htwice : results'.actionResponses =
          requestedResults executionData st ++ requestedResults executionData st := by
        have honce : run₂.subNodeExecutionResults.actionResponses =
            requestedResults executionData st := hresults₁
        rw [hresults₂]
        exact congrArg (· ++ _) honce
      intro heq
      have heq' : results'.actionResponses = requestedResults executionData st := heq
      rw [htwice] at heq'
      exact hresults (List.append_left_eq_self.mp heq')
  · refine ⟨none, ?_, fun heq => hresults heq.symm⟩
    have hcall : run₁.received ++ [none] <+:
        (tryNode w env calls executionData runIndex run₀).1.received := by
      rw [htry, received_handleResult]
      exact prefix_rerunFailed_of_failure herror
    have hall := hcall.trans (prefix_tryLoop_of_tryNode w env calls runIndex (turns + 1) run₀
      (maxTries_pos executionData.node))
    exact hall.subset (List.mem_append_right _ List.mem_cons_self)

/-- The only call of a turn receives the results as they are. -/
theorem receivedResults_of_length {response : Option EngineResponse}
    (hlength : (runTries w env calls executionData runIndex st
      rewireOutputLogTo).1.received.length = 1)
    (hmem : response ∈ (runTries w env calls executionData runIndex st
      rewireOutputLogTo).1.received) :
    receivedResults response = requestedResults executionData st := by
  obtain ⟨only, honly⟩ := List.length_eq_one_iff.mp hlength
  obtain ⟨hnone, -⟩ | hhead := (turn_runTries w env calls executionData runIndex st
    rewireOutputLogTo).1.received
  · rw [hnone] at hlength
    cases hlength
  · rw [honly] at hhead hmem
    obtain rfl := List.mem_singleton.mp hmem
    obtain rfl := Option.some.inj hhead
    rfl

/-- **When the tries of a node are exact**: its data is pinned; or there are no results of actions,
no second try, or the first call does not fail and its result can be processed; and then, if the
first calls, as many as there are tries, all fail, none of them throws after one that returned an
error; and the first result that is no failure can be processed, unless it is that of the last
try. -/
theorem isRetriedExactly_iff (w : Workflow) (env : NodeFunctions) (calls : List NodeCall)
    (executionData : IExecuteData) (runIndex : ℕ) (st : IRunExecutionData)
    (rewireOutputLogTo : InsertionMap String NodeConnectionType) :
    IsRetriedExactly w env calls executionData runIndex st rewireOutputLogTo ↔
      pinnedData st executionData.node ≠ none ∨
        (requestedResults executionData st = [] ∨ maxTries executionData.node = 1 ∨
            isFailure (attempt calls 0) = false ∧
              IsProcessed w env calls executionData runIndex st rewireOutputLogTo 0) ∧
          ¬ (AllFail calls (maxTries executionData.node) ∧
            ThrowsAfterFailure calls (maxTries executionData.node)) ∧
          ∀ k < maxTries executionData.node, AllFail calls k →
            isFailure (attempt calls k) = false →
              IsProcessed w env calls executionData runIndex st rewireOutputLogTo k ∨
                k + 1 = maxTries executionData.node ∧ ¬ ThrowsAfterFailure calls k := by
  cases hpinned : pinnedData st executionData.node with
  | some nodePinData =>
    refine iff_of_true ?_ (.inl (Option.some_ne_none _))
    have hnone : (runTries w env calls executionData runIndex st rewireOutputLogTo).1.received =
        [] := received_tryLoop_pinned hpinned
    exact {
      length_le := by rw [hnone]; exact Nat.zero_le _
      failed_of_next := fun i hi => by
        rw [hnone] at hi
        exact absurd hi (Nat.not_lt_zero _)
      received_eq := fun response hmem => by
        rw [hnone] at hmem
        exact absurd hmem List.not_mem_nil }
  | none =>
  rw [or_iff_right fun h => h rfl]
  have hpos := maxTries_pos executionData.node
  obtain ⟨m, last, hend⟩ := (Pending.start calls executionData st rewireOutputLogTo).tryLoop w env
    runIndex (maxTries executionData.node) hpos (Nat.le_add_left _ _) hpinned
  constructor
  · intro h
    obtain hend | hgo := hend
    · have hlength : m + 1 ≤ maxTries executionData.node := hend.length ▸ h.length_le
      have hle := hend.called.tryIndex_le
      refine ⟨?_, ?_, ?_⟩
      · by_contra hnot
        rw [not_or, not_or] at hnot
        obtain ⟨hresults, htries, hfirst⟩ := hnot
        cases hfailure : isFailure (attempt calls 0) with
        | true =>
          obtain ⟨response, hmem, hne⟩ := exists_receivedResults_ne w env runIndex
            rewireOutputLogTo hpinned (by omega) hfailure hresults
          exact hne (h.received_eq response hmem)
        | false =>
          obtain rfl := Nat.le_zero.mp (le_of_allFail hend.called.allFail hfailure)
          obtain hprocessed | hlast := hend.processed
          · exact hfirst ⟨hfailure, hprocessed⟩
          · omega
      · rintro ⟨hall, hthrows⟩
        have hlast := hend.tryIndex_of_isFailure (hall m hlength)
        have hm : maxTries executionData.node = m + 1 := by omega
        rw [hm, ← hend.called.tryIndex_lt_iff] at hthrows
        omega
      · intro k hk hall hsuccess
        obtain hlt | rfl := Nat.lt_or_eq_of_le (le_of_allFail hend.called.allFail hsuccess)
        · have hlast := hend.tryIndex_of_isFailure (hall m hlt)
          omega
        · refine hend.processed.imp_right fun hlast => ⟨by omega, fun hthrows => ?_⟩
          have hlt := hend.called.tryIndex_lt_iff.mpr (hthrows.mono (Nat.le_succ m))
          omega
    · exact absurd (h.failed_of_next m hgo.lt) (Bool.eq_false_iff.mp hgo.isFailure_eq)
  · rintro ⟨hfirst, hnot, hsuccess⟩
    -- with more calls than tries the first calls would have been such
    have hlt {m : ℕ} {last : NodeRun}
        (hcalled : Called calls executionData st rewireOutputLogTo last m) :
        m < maxTries executionData.node := by
      by_contra hle
      have hle := Nat.not_lt.mp hle
      exact hnot ⟨fun i hi => hcalled.allFail i (hi.trans_le hle), hcalled.exceeds hle⟩
    obtain hend | hgo := hend
    · have hlength := hend.length
      exact {
        length_le := hlength.trans_le (hlt hend.called)
        failed_of_next := fun i hi => by
          have hi : i + 1 < m + 1 := hlength ▸ hi
          exact hend.called.allFail i (Nat.lt_of_succ_lt_succ hi)
        received_eq := fun response hmem => by
          obtain hresults | htries | ⟨hfailure, -⟩ := hfirst
          · have hmem : response ∈ last.received := hend.received_eq ▸ hmem
            rw [hresults]
            exact (hend.called.nothing hresults).2 response hmem
          · have hm := hlt hend.called
            exact receivedResults_of_length (hlength.trans (by omega)) hmem
          · have hm := le_of_allFail hend.called.allFail hfailure
            exact receivedResults_of_length (hlength.trans (by omega)) hmem }
    · obtain hprocessed | ⟨hlast, hthrows⟩ :=
        hsuccess m (hlt hgo.called) hgo.called.allFail hgo.isFailure_eq
      · exact absurd hprocessed hgo.not_isProcessed
      · have hlt' := hgo.tryIndex_lt
        have hmore := hgo.called.tryIndex_lt_iff.mp (by omega)
        refine absurd ((throwsAfterFailure_succ fun i hi hboth => ?_).mp hmore) hthrows
        have hfailure := isFailure_iff.mpr (.inl hboth.2)
        rw [hi, hgo.isFailure_eq] at hfailure
        cases hfailure

/-! ### Three calls with two tries -/

private def retriedNode : INode where
  name := "HTTP Request"
  retryOnFail := some true
  maxTries := some 2

/-- The second call throws after the first one returned an error. -/
private def throwingCalls : List NodeCall := [
  { result := .data (some [.value [{ json := [("error", .str "first")] }]]) },
  { result := .thrown ⟨"second"⟩ },
  { result := .data (some [.value [{ json := [("error", .str "third")] }]]) }]

private def retriedEntry : IExecuteData where
  node := retriedNode
  data := InsertionMap.empty.set .main [.value [{}]]
  source := none

private def noFunctions : NodeFunctions where
  mainOutputs := fun _ => 1
  getPairedItem := fun _ _ _ _ _ => .ok none

theorem not_isRetriedExactly_throwingCalls :
    ¬ IsRetriedExactly (Workflow.new { nodes := [retriedNode], connections := .empty }) noFunctions
      throwingCalls retriedEntry 0 {} .empty := by
  intro h
  have hcalls : (runTries (Workflow.new { nodes := [retriedNode], connections := .empty })
      noFunctions throwingCalls retriedEntry 0 {} .empty).1.received.length = 3 := by
    decide +kernel
  have hle := h.length_le
  rw [hcalls] at hle
  exact absurd hle (by decide)

end WorkflowExecute

end N8n
