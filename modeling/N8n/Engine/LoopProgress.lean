import N8n.Engine.LoopPotential

/-!
# What an iteration does to the potential

As long as nodes make no requests, an iteration ends the loop, puts its entry back because its
node lacks input data, or makes progress: its node has a run for the first time, or the
execution has a lower potential than before (`Progresses`).
-/

namespace N8n

namespace WorkflowExecute

open RequestsResponse

variable {w : Workflow} {env : NodeFunctions} {calls : List NodeCall} {weight : String → ℕ}
  {executionData : IExecuteData} {runIndex executionIndex : ℕ} {loop : Loop}
  {st st' st'' : IRunExecutionData} {run : NodeRun} {result : NodeResult}

/-! ### Turns without a request -/

/-- No call makes a request. -/
def RequestFree (calls : List NodeCall) : Prop :=
  ∀ call ∈ calls, ∀ request, call.result ≠ .request request

/-- Only what says which node was executed last and until when the execution waits differs. -/
def SameQueues (st st' : IRunExecutionData) : Prop :=
  ∃ lastNodeExecuted waitTill, st' = { st with lastNodeExecuted, waitTill }

theorem SameQueues.refl (st : IRunExecutionData) : SameQueues st st :=
  ⟨st.lastNodeExecuted, st.waitTill, rfl⟩

theorem SameQueues.trans (h : SameQueues st st') (h' : SameQueues st' st'') :
    SameQueues st st'' := by
  obtain ⟨_, _, rfl⟩ := h
  obtain ⟨lastNodeExecuted, waitTill, rfl⟩ := h'
  exact ⟨lastNodeExecuted, waitTill, rfl⟩

theorem sameQueues_runNode (calls : List NodeCall) (response : Option EngineResponse)
    (run : NodeRun) : SameQueues run.execution (runNode calls response run).1.execution :=
  ⟨run.execution.lastNodeExecuted, _, rfl⟩

theorem sameQueues_rerunFailed (calls : List NodeCall) (triesLeft : ℕ) (run : NodeRun)
    (result : NodeResult) :
    SameQueues run.execution (rerunFailed calls triesLeft run result).1.execution := by
  induction triesLeft generalizing run result with
  | zero => exact SameQueues.refl _
  | succ triesLeft ih =>
    rw [rerunFailed]
    split
    next =>
      have hcall := sameQueues_runNode calls none run
      split
      next heq =>
        rw [heq] at hcall
        exact hcall
      next run' result' _ heq =>
        rw [heq] at hcall
        exact hcall.trans (ih { run' with tryIndex := run'.tryIndex + 1 } result')
    next => exact SameQueues.refl _

theorem sameQueues_finishTry (executionData : IExecuteData) (run : NodeRun) :
    SameQueues run.execution (finishTry executionData run).1.execution := by
  obtain ⟨⟨nodeSuccessData, lastNodeExecuted, heq⟩, _⟩ := finishTry_eq executionData run
  rw [heq]
  exact ⟨lastNodeExecuted, run.execution.waitTill, rfl⟩

theorem sameQueues_handleResult (run : NodeRun)
    (hresult : ∀ request, result ≠ .request request) :
    SameQueues run.execution
      (handleResult w env executionData runIndex run result).1.execution := by
  obtain ⟨request, heq, -⟩ | ⟨⟨_, lastNodeExecuted, hrun⟩, -⟩ :=
    handleResult_cases w env executionData runIndex run result
  · exact absurd heq (hresult request)
  · rw [hrun]
    exact ⟨lastNodeExecuted, run.execution.waitTill, rfl⟩

theorem sameQueues_tryNode (hfree : RequestFree calls) (run : NodeRun) :
    SameQueues run.execution (tryNode w env calls executionData runIndex run).1.execution := by
  rw [tryNode]
  split
  next nodePinData _ =>
    exact sameQueues_finishTry executionData
      { run with nodeSuccessData := some [.value nodePinData] }
  next =>
    have hadded : (addResponses executionData run).execution = run.execution := by
      rw [addResponses]
      split <;> rfl
    have hcall := sameQueues_runNode calls
      (some (addResponses executionData run).subNodeExecutionResults)
      (addResponses executionData run)
    rw [hadded] at hcall
    have hnone : ∀ {result : NodeResult}, (∀ request, result = .request request →
        ∃ call ∈ calls, call.result = .request request) →
          ∀ request, result ≠ .request request := by
      intro result hcalls request heq
      obtain ⟨call, hmem, hrequest⟩ := hcalls request heq
      exact hfree call hmem request hrequest
    have hfirst : ∀ request, (runNode calls
        (some (addResponses executionData run).subNodeExecutionResults)
        (addResponses executionData run)).2 = .request request →
          ∃ call ∈ calls, call.result = .request request := fun _ => exists_call_of_runNode
    refine (hcall.trans (sameQueues_rerunFailed calls _ _ _)).trans
      (sameQueues_handleResult _ (hnone fun request => ?_))
    exact exists_call_of_rerunFailed hfirst

theorem sameQueues_tryLoop (hfree : RequestFree calls) (turns : ℕ) (run : NodeRun) :
    SameQueues run.execution
      (tryLoop w env calls executionData runIndex turns run).1.execution := by
  induction turns generalizing run with
  | zero => exact SameQueues.refl _
  | succ turns ih =>
    rw [tryLoop]
    split
    next =>
      have htry : SameQueues run.execution (tryNode w env calls executionData runIndex
        { run with executionError := none }).1.execution := sameQueues_tryNode hfree _
      split
      next run' e heq =>
        rw [heq] at htry
        have hlast : SameQueues run'.execution
            { run'.execution with lastNodeExecuted := some executionData.node.name } :=
          ⟨_, run'.execution.waitTill, rfl⟩
        exact (htry.trans hlast).trans (ih _)
      next => exact htry
    next => exact SameQueues.refl _

/-- A turn whose calls make no request leaves the stack, the waiting area and the runs alone. -/
theorem runTries_of_requestFree (w : Workflow) (env : NodeFunctions) (hfree : RequestFree calls)
    (executionData : IExecuteData) (runIndex : ℕ) (st : IRunExecutionData)
    (rewireOutputLogTo : InsertionMap String NodeConnectionType) :
    SameQueues st
        (runTries w env calls executionData runIndex st rewireOutputLogTo).1.execution ∧
      ∀ queueing,
        (runTries w env calls executionData runIndex st rewireOutputLogTo).2 ≠
          .requested queueing := by
  constructor
  · exact sameQueues_tryLoop hfree (maxTries executionData.node)
      { execution := st, rewireOutputLogTo }
  · intro queueing hrequested
    obtain ⟨_, _, request, _, ⟨call, hmem, hcall⟩, _⟩ := (turn_runTries w env calls executionData
      runIndex st rewireOutputLogTo).2 queueing hrequested
    exact hfree call hmem request hcall

/-! ### Progress -/

/-- The potential is a matter of the stack, the waiting area and which nodes have runs. -/
theorem potential_congr (hstack : st'.nodeExecutionStack = st.nodeExecutionStack)
    (hwaiting : st'.waitingExecution = st.waitingExecution)
    (hhas : ∀ nodeName, st'.runData.has nodeName = st.runData.has nodeName) :
    potential weight st' = potential weight st := by
  have hnode : nodeWeight weight st'.runData = nodeWeight weight st.runData := by
    funext nodeName
    rw [nodeWeight, nodeWeight, hhas nodeName]
  have hentry : entryWeight weight st'.runData = entryWeight weight st.runData := by
    funext executionData
    rw [entryWeight, entryWeight, hnode]
  have hwaits : waitingWeight weight st'.runData = waitingWeight weight st.runData := by
    funext nodeName data
    rw [waitingWeight, waitingWeight, hnode]
  rw [potential, potential, hstack, hwaiting, hentry, hwaits]

/-- A node has runs for the first time. -/
def StartsRuns (nodeName : String) (runData runData' : IRunData) : Prop :=
  runData.has nodeName = false ∧ runData'.has nodeName = true ∧
    ∀ other, runData.has other = true → runData'.has other = true

/-- An entry that was taken from the stack is done with: its node starts to have runs, or the
potential is lower than it was with the entry. What came on the stack is of the workflow. -/
structure Progresses (w : Workflow) (weight : String → ℕ) (executionData : IExecuteData)
    (st st' : IRunExecutionData) : Prop where
  stack : ∀ e ∈ st'.nodeExecutionStack, e ∈ st.nodeExecutionStack ∨ IsWorkflowEntry w e
  lowers : StartsRuns executionData.node.name st.runData st'.runData ∨
    (∀ nodeName, st'.runData.has nodeName = st.runData.has nodeName) ∧
      potential weight st' < potential weight st + entryWeight weight st.runData executionData

/-- An entry that is dropped. -/
theorem progresses_of_sameQueues (hw : Weighs w weight) (executionData : IExecuteData)
    (h : SameQueues st st') : Progresses w weight executionData st st' := by
  obtain ⟨lastNodeExecuted, waitTill, rfl⟩ := h
  refine ⟨fun e he => .inl he, .inr ⟨fun _ => rfl, ?_⟩⟩
  exact Nat.lt_add_of_pos_right (hw.one_le_entryWeight st.runData executionData)

/-- Exactly the run of a node was recorded. -/
structure Records (nodeName : String) (st st' : IRunExecutionData) : Prop where
  stack : st'.nodeExecutionStack = st.nodeExecutionStack
  waiting : st'.waitingExecution = st.waitingExecution
  has : ∀ other, st'.runData.has other = (decide (other = nodeName) || st.runData.has other)

/-- An entry whose run is recorded, and whose node then spends less than its weight. -/
theorem Records.progresses (h : Records executionData.node.name st st')
    (hdefined : executionData.node ≠ default)
    (hspends : ∃ cost < weight executionData.node.name, Spends w weight st' st'' cost) :
    Progresses w weight executionData st st'' := by
  obtain ⟨cost, hcost, hspends⟩ := hspends
  refine ⟨fun e he => h.stack ▸ hspends.stack e he, ?_⟩
  rw [hspends.runs]
  cases hhas : st.runData.has executionData.node.name with
  | false =>
    refine .inl ⟨hhas, ?_, fun other hother => ?_⟩
    · rw [h.has, decide_eq_true rfl, Bool.true_or]
    · rw [h.has, hother, Bool.or_true]
  | true =>
    have hsame : ∀ nodeName, st'.runData.has nodeName = st.runData.has nodeName := by
      intro nodeName
      rw [h.has]
      by_cases hname : nodeName = executionData.node.name
      · rw [hname, hhas, Bool.or_true]
      · rw [decide_eq_false hname, Bool.false_or]
    refine .inr ⟨hsame, ?_⟩
    have hweight : entryWeight weight st.runData executionData =
        weight executionData.node.name := by
      rw [entryWeight, if_neg hdefined, nodeWeight, if_pos hhas]
    have hpotential := hspends.potential
    rw [potential_congr h.stack h.waiting hsame] at hpotential
    omega

/-! ### Iterations -/

/-- The loop ended, or the entry is done with. -/
def Advances (w : Workflow) (weight : String → ℕ) (executionData : IExecuteData)
    (st : IRunExecutionData) (loop : Loop) : Prop :=
  loop.ended ≠ none ∨ Progresses w weight executionData st loop.execution

theorem advances_addNextNodes (hw : Weighs w weight) (hdefined : executionData.node ≠ default)
    (nodeSuccessData : NodeOutputs)
    (hrecords : Records executionData.node.name st loop.execution) :
    Advances w weight executionData st
      (addNextNodes w executionData runIndex nodeSuccessData loop).1 := by
  obtain ⟨cost, hcost, hchildren⟩ := spends_addChildren hw executionData.node.name
    nodeSuccessData runIndex loop.execution
  rw [addNextNodes]
  split
  next => exact .inl nofun
  next execution heq =>
    rw [heq] at hchildren
    have hwaiting := spends_addWaitingNode hw execution
    split
    next => exact .inl nofun
    next execution' heq' =>
      rw [heq'] at hwaiting
      exact .inr (hrecords.progresses hdefined ⟨cost, hcost, hchildren.trans hwaiting⟩)

theorem advances_completeNode (hw : Weighs w weight) (hdefined : executionData.node ≠ default)
    (nodeSuccessData : Option NodeOutputs) (taskData : ITaskData)
    (hrecords : Records executionData.node.name st loop.execution) :
    Advances w weight executionData st
      (completeNode w executionData runIndex nodeSuccessData taskData loop).1 := by
  rw [completeNode]
  split
  next => exact .inl nofun
  next nodeSuccessData _ =>
    have hrecorded : ∀ taskData, Records executionData.node.name st { loop.execution with
        runData := recordTaskData loop.execution.runData executionData.node.name runIndex
          taskData } := by
      refine fun taskData => ⟨hrecords.stack, hrecords.waiting, fun other => ?_⟩
      rw [recordTaskData, InsertionMap.has_set, hrecords.has, ← Bool.or_assoc, Bool.or_self]
    simp only
    split
    next => exact .inl nofun
    next =>
      split
      next =>
        refine .inr ((hrecorded _).progresses hdefined ⟨0, hw.one_le _, Spends.refl _⟩)
      next => exact advances_addNextNodes hw hdefined nodeSuccessData (hrecorded _)

theorem advances_finishNode (hw : Weighs w weight) (hdefined : executionData.node ≠ default)
    (hsame : SameQueues st run.execution) :
    Advances w weight executionData st
      (finishNode w executionData runIndex executionIndex run loop).1 := by
  have hrecords : Records executionData.node.name st { run.execution with
      runData := run.execution.runData.set executionData.node.name
        ((run.execution.runData.get? executionData.node.name).getD []) } := by
    obtain ⟨lastNodeExecuted, waitTill, heq⟩ := hsame
    rw [heq]
    exact ⟨rfl, rfl, fun other => InsertionMap.has_set _ _ _ _⟩
  rw [finishNode]
  simp only
  split
  next => exact advances_completeNode hw hdefined _ _ hrecords
  next =>
    split
    next => exact advances_completeNode hw hdefined _ _ hrecords
    next => exact .inl nofun

theorem advances_executeNode (hw : Weighs w weight) (hfree : RequestFree calls)
    (hdefined : executionData.node ≠ default) (loop : Loop) :
    Advances w weight executionData loop.execution
      (executeNode w env calls executionData runIndex executionIndex loop).1.1 := by
  obtain ⟨hsame, hnone⟩ := runTries_of_requestFree w env hfree executionData runIndex
    loop.execution loop.rewireOutputLogTo
  rw [executeNode]
  split
  next run queueing heq => exact absurd (congrArg Prod.snd heq) (hnone queueing)
  next run heq =>
    rw [heq] at hsame
    exact .inr (progresses_of_sameQueues hw executionData hsame)
  next run _ _ _ heq =>
    rw [heq] at hsame
    exact advances_finishNode hw hdefined hsame

/-! ### Entries that lack data -/

/-- The node and the index of the run that an entry asks for. -/
def tryOf (st : IRunExecutionData) (executionData : IExecuteData) : String × ℕ :=
  (executionData.node.name, runIndexOf st executionData)

/-- The entry is put back whenever it is looked at: its node is on the filter, and it lacks
data. -/
def IsLacking (w : Workflow) (st : IRunExecutionData) (executionData : IExecuteData) : Prop :=
  executionData.node ≠ default ∧ passesFilter st executionData.node.name = true ∧
    lacksInputData w executionData
      (List.range ((mainInputs w executionData.node.name).getD []).length) = true

instance (w : Workflow) (st : IRunExecutionData) (executionData : IExecuteData) :
    Decidable (IsLacking w st executionData) := inferInstanceAs (Decidable (_ ∧ _ ∧ _))

/-- The loop after an entry that lacks data was put back. -/
def putBack (executionData : IExecuteData) (loop : Loop) : Loop :=
  { loop with
    execution := { loop.execution with
      nodeExecutionStack :=
        loop.execution.nodeExecutionStack ++ [updatePairedItems executionData] }
    currentNodeExecutionIndex := loop.currentNodeExecutionIndex + 1
    lastExecutionTry := some (tryOf loop.execution executionData) }

/-- The links of the items have no say in what an entry lacks. -/
theorem lacksInputData_updatePairedItems (w : Workflow) (executionData : IExecuteData)
    (connectionIndexes : List ℕ) :
    lacksInputData w (updatePairedItems executionData) connectionIndexes =
      lacksInputData w executionData connectionIndexes := by
  have hmain : (updatePairedItems executionData).data.get? .main =
      (executionData.data.get? .main).map fun inputs =>
        inputs.zipIdx.map fun input => pairInput executionData input.2 input.1 :=
    InsertionMap.get?_map _ _ _
  induction connectionIndexes with
  | nil => rfl
  | cons connectionIndex connectionIndexes ih =>
    rw [lacksInputData, lacksInputData, hmain, ih]
    refine if_congr Iff.rfl rfl ?_
    cases executionData.data.get? .main with
    | none => rfl
    | some main =>
      have hnull : (main.zipIdx.map fun input =>
          pairInput executionData input.2 input.1)[connectionIndex]? = some .null ↔
            main[connectionIndex]? = some .null := by
        rw [List.getElem?_map, List.getElem?_zipIdx]
        cases main[connectionIndex]? with
        | none => exact Iff.rfl
        | some slot =>
          cases slot with
          | hole => exact iff_of_false nofun nofun
          | null => exact iff_of_true rfl rfl
          | value items => exact iff_of_false nofun nofun
      simp only [Option.map_some, List.length_map, List.length_zipIdx, hnull]

theorem isLacking_updatePairedItems :
    IsLacking w st (updatePairedItems executionData) ↔ IsLacking w st executionData := by
  rw [IsLacking, IsLacking, lacksInputData_updatePairedItems]
  exact Iff.rfl

theorem Advances.of_updatePairedItems
    (h : Advances w weight (updatePairedItems executionData) st loop) :
    Advances w weight executionData st loop :=
  h.imp_right fun hprogress => ⟨hprogress.stack, hprogress.lowers⟩

theorem tryOf_updatePairedItems (st : IRunExecutionData) (executionData : IExecuteData) :
    ((updatePairedItems executionData).node.name,
      runIndexOf st (updatePairedItems executionData)) = tryOf st executionData := rfl

/-- An entry that lacks data and is not the last one that was put back is put back. -/
theorem runEntry_of_isLacking (env : NodeFunctions) (calls : List NodeCall)
    (hlacks : IsLacking w loop.execution executionData)
    (htry : loop.lastExecutionTry ≠ some (tryOf loop.execution executionData)) :
    (runEntry w env calls executionData loop).1 = putBack executionData loop := by
  obtain ⟨hdefined, hfilter, hinput⟩ := isLacking_updatePairedItems.mpr hlacks
  rw [runEntry, if_neg hlacks.1, iterate]
  simp only
  rw [tryOf_updatePairedItems, if_neg htry, if_pos hfilter, ensureInputData, if_pos hinput]
  rfl

/-- **An iteration without a request.** The entry is put back, as it lacks data and is not the
last one that was; or the iteration ends the loop or makes progress. -/
theorem runEntry_of_requestFree (env : NodeFunctions) (hw : Weighs w weight)
    (hfree : RequestFree calls) (executionData : IExecuteData) (loop : Loop) :
    (IsLacking w loop.execution executionData ∧
        loop.lastExecutionTry ≠ some (tryOf loop.execution executionData) ∧
        (runEntry w env calls executionData loop).1 = putBack executionData loop) ∨
      Advances w weight executionData loop.execution
        (runEntry w env calls executionData loop).1 := by
  by_cases hdefined : executionData.node = default
  · rw [runEntry, if_pos hdefined]
    exact .inr (.inl nofun)
  by_cases htry : loop.lastExecutionTry = some (tryOf loop.execution executionData)
  · rw [runEntry, if_neg hdefined, iterate]
    simp only
    rw [tryOf_updatePairedItems, if_pos htry]
    exact .inr (.inl nofun)
  by_cases hlacks : IsLacking w loop.execution executionData
  · exact .inl ⟨hlacks, htry, runEntry_of_isLacking env calls hlacks htry⟩
  refine .inr ?_
  rw [runEntry, if_neg hdefined, iterate]
  simp only
  rw [tryOf_updatePairedItems, if_neg htry]
  split
  next hfilter =>
    have hinput : ¬lacksInputData w (updatePairedItems executionData)
        (List.range ((mainInputs w
          (updatePairedItems executionData).node.name).getD []).length) = true := fun hinput =>
      hlacks (isLacking_updatePairedItems.mp ⟨hdefined, hfilter, hinput⟩)
    rw [ensureInputData, if_neg hinput]
    have hupdated : (updatePairedItems executionData).node ≠ default := hdefined
    have hexecute : Advances w weight (updatePairedItems executionData) loop.execution
        (executeNode w env calls (updatePairedItems executionData)
          (runIndexOf loop.execution (updatePairedItems executionData))
          loop.currentNodeExecutionIndex
          { loop with currentNodeExecutionIndex := loop.currentNodeExecutionIndex + 1 }).1.1 :=
      advances_executeNode hw hfree hupdated _
    exact hexecute.of_updatePairedItems
  next =>
    exact .inr (progresses_of_sameQueues hw executionData (SameQueues.refl _))

end WorkflowExecute

end N8n
