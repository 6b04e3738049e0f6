import N8n.Engine.LoopProgress

/-!
# The waiting nodes when the loop ends

When the loop ends because its stack is empty, no node that is left in the waiting area should be
able to run with what it has. There are two ways in which the loop misses one
(`visits_drained_iff`). An iteration that ends with a `continue` does not look at the waiting nodes,
also when it took the last entry from the stack. And an iteration that looks at them holds back a
node whose inputs are all required, a node with a waiting node before it, and a node whose earliest
entry lacks a required input, also when one of its entries could run.
-/

namespace N8n

open Transition

/-- The iteration ends with a `continue` and leaves the stack as it is. -/
def Iteration.endsEarly : Iteration → Bool
  | .filtered | .noData | .destination => true
  | _ => false

namespace WorkflowExecute

variable {w : Workflow} {st st' : IRunExecutionData} {nodeName : String} {runIndex : ℕ}

/-! ### The search for a waiting node -/

/-- Why a waiting node is not run yet. -/
def IsDeferred (w : Workflow) (waitingNodes : List String) (st : IRunExecutionData)
    (nodeName : String) : Prop :=
  ∀ checkNode, w.getNode nodeName = some checkNode →
    requiresAllInputs w checkNode = true ∨
      (∃ parent ∈ w.getParentNodes nodeName, parent ∈ waitingNodes) ∨
      ∃ runIndex main, firstWaitingEntry st nodeName = some (runIndex, main) ∧
        inputDataMissing (requiredInputs w checkNode) main = true

/-- An entry that is removed is one less. -/
theorem waitingCount_removeWaiting {data : InsertionMap ℕ ITaskDataConnections}
    {entry : ITaskDataConnections} (hdata : st.waitingExecution.get? nodeName = some data)
    (hentry : data.get? runIndex = some entry)
    (h : removeWaiting nodeName runIndex st = (st', .ok ())) :
    waitingCount st' < waitingCount st := by
  have hlength : (data.erase runIndex).entries.length < data.entries.length := by
    rw [(InsertionMap.entries_perm_of_get? hentry).length_eq, List.length_cons]
    exact Nat.lt_succ_self _
  have hcount : ∀ st : IRunExecutionData, waitingCount st =
      st.waitingExecution.sumOf fun _ data => data.entries.length := fun _ => rfl
  rw [removeWaiting] at h
  split at h
  next => cases congrArg Prod.snd h
  next source _ =>
    obtain rfl := congrArg Prod.fst h
    rw [hcount, hcount, InsertionMap.sumOf_of_get? hdata]
    simp only [hdata, Option.getD_some, setOrDeleteNodeWaiting]
    split
    next => exact Nat.lt_add_of_pos_left (Nat.zero_lt_of_lt hlength)
    next =>
      refine lt_of_eq_of_lt (InsertionMap.sumOf_set _ _ nodeName _) ?_
      exact Nat.add_lt_add_right hlength _

/-- What looking at waiting nodes came to: they are all deferred, or there is an entry less, or a
node is on the stack. -/
def SearchedSpec (w : Workflow) (waitingNodes nodeNames : List String)
    (st st' : IRunExecutionData) : Except EngineError WaitingNodeOutcome → Prop
  | .ok .skipped => st' = st ∧ ∀ nodeName ∈ nodeNames, IsDeferred w waitingNodes st nodeName
  | .ok .removed => waitingCount st' < waitingCount st
  | .ok .added => st'.nodeExecutionStack ≠ []
  | .error _ => True

theorem checkWaitingNode_spec (w : Workflow) (waitingNodes : List String) (nodeName : String)
    (st : IRunExecutionData) :
    SearchedSpec w waitingNodes [nodeName] st (checkWaitingNode w waitingNodes nodeName st).1
      (checkWaitingNode w waitingNodes nodeName st).2 := by
  -- each of the branches that skip the node is a reason to defer it
  have hskip : IsDeferred w waitingNodes st nodeName →
      SearchedSpec w waitingNodes [nodeName] st st (.ok .skipped) := by
    intro hdeferred
    refine ⟨rfl, fun name hname => ?_⟩
    obtain rfl := List.mem_singleton.mp hname
    exact hdeferred
  rw [checkWaitingNode]
  split
  next hnode =>
    refine hskip fun checkNode hcheck => ?_
    cases hnode.symm.trans hcheck
  next checkNode hnode =>
    have hsame : ∀ checkNode', w.getNode nodeName = some checkNode' → checkNode' = checkNode :=
      fun checkNode' h => Option.some.inj (h.symm.trans hnode)
    split
    next hall =>
      refine hskip fun checkNode' hcheck => .inl ?_
      rw [hsame _ hcheck]
      exact hall
    next =>
      split
      next hparent =>
        obtain ⟨parent, hmem, hwaiting⟩ := List.any_eq_true.mp hparent
        exact hskip fun _ _ => .inr (.inl ⟨parent, hmem, List.contains_iff_mem.mp hwaiting⟩)
      next =>
        split
        next => trivial
        next runIndex main hfirst =>
          split
          next hmissing =>
            refine hskip fun checkNode' hcheck => .inr (.inr ⟨runIndex, main, hfirst, ?_⟩)
            rw [hsame _ hcheck]
            exact hmissing
          next =>
            split
            next =>
              split
              next => trivial
              next source _ =>
                have hstack := (adds_removeWaiting nodeName runIndex { st with
                  nodeExecutionStack := st.nodeExecutionStack ++
                    [waitingNodeEntry w checkNode (taskDataMain main)
                      (source.get? runIndex)] }).1
                rw [List.append_nil] at hstack
                exact fun hempty => List.concat_ne_nil _ _ (hstack.symm.trans hempty)
            next =>
              split
              next => trivial
              next st' heq =>
                obtain ⟨data, hdata, hfirst⟩ := Option.bind_eq_some_iff.mp hfirst
                obtain ⟨runIndex', _, hfirst⟩ := Option.bind_eq_some_iff.mp hfirst
                obtain ⟨main', hmain, hfirst⟩ := Option.map_eq_some_iff.mp hfirst
                obtain ⟨rfl, rfl⟩ := Prod.mk.inj hfirst
                obtain ⟨entry, hentry, _⟩ := Option.bind_eq_some_iff.mp hmain
                exact waitingCount_removeWaiting hdata hentry heq

theorem checkWaitingNodes_spec (w : Workflow) (waitingNodes nodeNames : List String)
    (st : IRunExecutionData) :
    SearchedSpec w waitingNodes nodeNames st (checkWaitingNodes w waitingNodes nodeNames st).1
      (checkWaitingNodes w waitingNodes nodeNames st).2 := by
  induction nodeNames generalizing st with
  | nil => exact ⟨rfl, nofun⟩
  | cons nodeName nodeNames ih =>
    have hfirst := checkWaitingNode_spec w waitingNodes nodeName st
    rw [checkWaitingNodes]
    split
    next st' heq =>
      rw [heq] at hfirst
      obtain ⟨rfl, hdeferred⟩ := hfirst
      have hrest := ih st'
      -- the node that was looked at is deferred, as the others are when the rest is skipped
      cases hcheck : (checkWaitingNodes w waitingNodes nodeNames st').2 with
      | error e => trivial
      | ok outcome =>
        rw [hcheck] at hrest
        cases outcome with
        | skipped =>
          refine ⟨hrest.1, fun name hname => ?_⟩
          obtain rfl | hname := List.mem_cons.mp hname
          · exact hdeferred _ List.mem_cons_self
          · exact hrest.2 name hname
        | removed => exact hrest
        | added => exact hrest
    next hskipped =>
      cases hcheck : (checkWaitingNode w waitingNodes nodeName st).2 with
      | error e => trivial
      | ok outcome =>
        rw [hcheck] at hfirst
        cases outcome with
        | skipped => exact (hskipped _ (Prod.ext rfl hcheck)).elim
        | removed => exact hfirst
        | added => exact hfirst

/-- All nodes of the waiting area are deferred. -/
def AllDeferred (w : Workflow) (st : IRunExecutionData) : Prop :=
  ∀ nodeName ∈ st.waitingExecution.keys,
    IsDeferred w st.waitingExecution.ownKeys st nodeName

/-- There are rounds for every entry that may be removed, so that the search only ends with a
node on the stack or without any node to run. -/
theorem allDeferred_searchWaitingNodes {rounds : ℕ} (hrounds : waitingCount st < rounds)
    (h : searchWaitingNodes w rounds st = (st', .ok ())) (hempty : st'.nodeExecutionStack = []) :
    AllDeferred w st' := by
  induction rounds generalizing st with
  | zero => exact absurd hrounds (Nat.not_lt_zero _)
  | succ rounds ih =>
    have hround := checkWaitingNodes_spec w st.waitingExecution.ownKeys
      st.waitingExecution.ownKeys st
    rw [searchWaitingNodes] at h
    split at h
    next st'' heq =>
      rw [heq] at hround
      exact ih (Nat.lt_of_lt_of_le hround (Nat.le_of_lt_succ hrounds)) h
    next st'' outcome hremoved heq =>
      obtain rfl := congrArg Prod.fst h
      rw [heq] at hround
      cases outcome with
      | skipped =>
        obtain ⟨rfl, hdeferred⟩ := hround
        exact fun nodeName hname => hdeferred nodeName (InsertionMap.mem_ownKeys.mpr hname)
      | removed => exact (hremoved rfl).elim
      | added => exact absurd hempty hround
    next => cases congrArg Prod.snd h

theorem allDeferred_addWaitingNode (h : addWaitingNode w st = (st', .ok ()))
    (hempty : st'.nodeExecutionStack = []) : AllDeferred w st' := by
  rw [addWaitingNode] at h
  split at h
  next => exact allDeferred_searchWaitingNodes (Nat.lt_succ_self _) h hempty
  next hstack =>
    obtain rfl := congrArg Prod.fst h
    exact absurd (List.length_eq_zero_iff.mpr hempty) hstack

/-! ### What an iteration leaves -/

/-- The stack, the waiting area and the filter are the same. -/
structure SameWaiting (loop loop' : Loop) : Prop where
  ended : loop'.ended = loop.ended
  stack : loop'.execution.nodeExecutionStack = loop.execution.nodeExecutionStack
  waiting : loop'.execution.waitingExecution = loop.execution.waitingExecution
  filter : loop'.execution.runNodeFilter = loop.execution.runNodeFilter

theorem SameWaiting.trans {loop loop' loop'' : Loop} (h : SameWaiting loop loop')
    (h' : SameWaiting loop' loop'') : SameWaiting loop loop'' where
  ended := h'.ended.trans h.ended
  stack := h'.stack.trans h.stack
  waiting := h'.waiting.trans h.waiting
  filter := h'.filter.trans h.filter

/-- What an iteration leaves: after an early end all is as it was, after a search that put nothing
on the stack all waiting nodes are deferred, and otherwise the loop ended or there is more to do. -/
structure Leaves (w : Workflow) (loop : Loop) (r : Loop × Iteration) : Prop where
  early : r.2.endsEarly = true → SameWaiting loop r.1
  searched : r.2 = .done → r.1.ended = loop.ended ∧
    (r.1.execution.nodeExecutionStack = [] → AllDeferred w r.1.execution)
  other : r.2.endsEarly = false → r.2 ≠ .done →
    r.1.ended ≠ none ∨ r.1.execution.nodeExecutionStack ≠ []

variable {env : NodeFunctions} {calls : List NodeCall} {loop loop' : Loop}
  {executionData : IExecuteData} {executionIndex : ℕ}

theorem Leaves.of_same {r : Loop × Iteration} (hsame : SameWaiting loop loop')
    (h : Leaves w loop' r) : Leaves w loop r where
  early hearly := hsame.trans (h.early hearly)
  searched hdone := ⟨(h.searched hdone).1.trans hsame.ended, (h.searched hdone).2⟩
  other := h.other

theorem Leaves.of_other {r : Loop × Iteration} (hearly : r.2.endsEarly = false)
    (hdone : (r.2 == .done) = false)
    (h : r.1.ended ≠ none ∨ r.1.execution.nodeExecutionStack ≠ []) : Leaves w loop r where
  early hends := absurd (hearly.symm.trans hends) Bool.false_ne_true
  searched hends := absurd hends (ne_of_beq_false hdone)
  other _ _ := h

theorem Leaves.of_ended {r : Loop × Iteration} (hearly : r.2.endsEarly = false)
    (hdone : (r.2 == .done) = false) (h : r.1.ended.isSome = true) : Leaves w loop r :=
  .of_other hearly hdone (.inl (Option.isSome_iff_ne_none.mp h))

theorem Leaves.of_done {r : Loop × Iteration} (hdone : r.2 = .done)
    (hended : r.1.ended = loop.ended)
    (h : r.1.execution.nodeExecutionStack = [] → AllDeferred w r.1.execution) :
    Leaves w loop r where
  early hearly := by
    rw [hdone] at hearly
    cases hearly
  searched _ := ⟨hended, h⟩
  other _ hother := absurd hdone hother

theorem Leaves.of_endsEarly {r : Loop × Iteration} (hearly : r.2.endsEarly = true)
    (h : SameWaiting loop r.1) : Leaves w loop r where
  early _ := h
  searched hdone := by
    rw [hdone] at hearly
    cases hearly
  other hnot _ := absurd (hnot.symm.trans hearly) Bool.false_ne_true

theorem leaves_addNextNodes (nodeSuccessData : NodeOutputs) (loop : Loop) :
    Leaves w loop (addNextNodes w executionData runIndex nodeSuccessData loop) := by
  rw [addNextNodes]
  split
  next => exact .of_ended rfl rfl rfl
  next execution _ =>
    split
    next => exact .of_ended rfl rfl rfl
    next execution' heq =>
      exact .of_done rfl rfl (allDeferred_addWaitingNode heq)

theorem leaves_completeNode (nodeSuccessData : Option NodeOutputs) (taskData : ITaskData)
    (loop : Loop) :
    Leaves w loop (completeNode w executionData runIndex nodeSuccessData taskData loop) := by
  rw [completeNode]
  split
  next => exact .of_ended rfl rfl rfl
  next nodeSuccessData _ =>
    simp only
    split
    next => exact .of_ended rfl rfl rfl
    next =>
      split
      next => exact .of_endsEarly rfl ⟨rfl, rfl, rfl, rfl⟩
      next =>
        refine .of_same ?_ (leaves_addNextNodes nodeSuccessData _)
        exact ⟨rfl, rfl, rfl, rfl⟩

theorem leaves_finishNode {run : NodeRun} (hsame : SameQueues loop.execution run.execution) :
    Leaves w loop (finishNode w executionData runIndex executionIndex run loop) := by
  have hstart : SameWaiting loop { loop with
      execution := { run.execution with
        runData := run.execution.runData.set executionData.node.name
          ((run.execution.runData.get? executionData.node.name).getD []) }
      rewireOutputLogTo := run.rewireOutputLogTo } := by
    obtain ⟨lastNodeExecuted, waitTill, heq⟩ := hsame
    rw [heq]
    exact ⟨rfl, rfl, rfl, rfl⟩
  rw [finishNode]
  simp only
  split
  next => exact (leaves_completeNode _ _ _).of_same hstart
  next =>
    split
    next => exact (leaves_completeNode _ _ _).of_same hstart
    next => exact .of_ended rfl rfl rfl

theorem leaves_executeNode (hfree : RequestFree calls) (loop : Loop) :
    Leaves w loop (executeNode w env calls executionData runIndex executionIndex loop).1 := by
  obtain ⟨hsame, hnone⟩ := runTries_of_requestFree w env hfree executionData runIndex
    loop.execution loop.rewireOutputLogTo
  rw [executeNode]
  split
  next run queueing heq => exact absurd (congrArg Prod.snd heq) (hnone queueing)
  next run heq =>
    rw [heq] at hsame
    obtain ⟨lastNodeExecuted, waitTill, hrun⟩ := hsame
    refine .of_endsEarly rfl ?_
    rw [hrun]
    exact ⟨rfl, rfl, rfl, rfl⟩
  next run _ _ _ heq =>
    rw [heq] at hsame
    exact leaves_finishNode hsame

theorem leaves_runEntry (hfree : RequestFree calls) (executionData : IExecuteData) (loop : Loop) :
    Leaves w loop (runEntry w env calls executionData loop) := by
  rw [runEntry]
  split
  next => exact .of_ended rfl rfl rfl
  next =>
    rw [iterate]
    simp only
    split
    next => exact .of_ended rfl rfl rfl
    next =>
      split
      next =>
        rw [ensureInputData]
        split
        next execution heq =>
          -- the entry goes back on the stack
          refine .of_other rfl rfl (.inr ?_)
          split at heq
          next =>
            obtain rfl := congrArg Prod.fst heq
            exact List.concat_ne_nil _ _
          next => cases congrArg Prod.snd heq
        next execution heq =>
          split at heq
          next => cases congrArg Prod.snd heq
          next =>
            obtain rfl := congrArg Prod.fst heq
            refine .of_same ?_ (leaves_executeNode hfree _)
            exact ⟨rfl, rfl, rfl, rfl⟩
      next => exact .of_endsEarly rfl ⟨rfl, rfl, rfl, rfl⟩

/-! ### The end of the loop -/

/-- An entry of the waiting area could still run: its node is on the filter, its required inputs
have data, and some input has items. -/
def couldRun (w : Workflow) (st : IRunExecutionData) (nodeName : String)
    (entry : ITaskDataConnections) : Bool :=
  match w.getNode nodeName, entry.get? .main with
  | some checkNode, some main =>
    passesFilter st nodeName && !inputDataMissing (requiredInputs w checkNode) main &&
      hasItems main
  | _, _ => false

/-- No entry of the waiting area could still run. -/
def NoneCouldRun (w : Workflow) (st : IRunExecutionData) : Prop :=
  ∀ node ∈ st.waitingExecution.entries, ∀ entry ∈ node.2.entries,
    couldRun w st node.1 entry.2 = false

instance (w : Workflow) (st : IRunExecutionData) : Decidable (NoneCouldRun w st) :=
  inferInstanceAs (Decidable (∀ node ∈ st.waitingExecution.entries, ∀ entry ∈ node.2.entries, _))

/-- The loop ended because its stack is empty. -/
def EndsEmpty (s : LoopState) : Prop :=
  s.loop.ended = none ∧ s.loop.execution.nodeExecutionStack = []

instance (s : LoopState) : Decidable (EndsEmpty s) := inferInstanceAs (Decidable (_ ∧ _))

/-- When the loop ends because its stack is empty, every node that could still run has been run. -/
def Drained (w : Workflow) (s : LoopState) : Prop :=
  EndsEmpty s → NoneCouldRun w s.loop.execution

instance (w : Workflow) (s : LoopState) : Decidable (Drained w s) :=
  inferInstanceAs (Decidable (_ → _))

/-- An iteration in which the nodes answer with data, or with none. -/
def DataStep (w : Workflow) (env : NodeFunctions) (s : LoopState) (calls : List NodeCall)
    (t : LoopState) : Prop :=
  loopStep w env s calls t ∧ RequestFree calls

/-- The iteration misses no node that could run. -/
structure Drains (w : Workflow) (env : NodeFunctions) (s : LoopState) (calls : List NodeCall) :
    Prop where
  /-- With the last entry of the stack it does not end early while an entry waits that could run. -/
  reached : ∀ t, loopStep w env s calls t → t.last.any Iteration.endsEarly = true →
    s.loop.execution.nodeExecutionStack.length = 1 → NoneCouldRun w s.loop.execution
  /-- The last round of the search, which changes nothing when nothing is on the stack after it,
  defers no node with a runnable entry. -/
  notHeldBack : ∀ t, loopStep w env s calls t → t.last = some .done →
    t.loop.execution.nodeExecutionStack = [] → ∀ node ∈ t.loop.execution.waitingExecution.entries,
      ∀ entry ∈ node.2.entries, couldRun w t.loop.execution node.1 entry.2 = true →
        ¬IsDeferred w t.loop.execution.waitingExecution.ownKeys t.loop.execution node.1

variable {s t : LoopState}

theorem noneCouldRun_congr (hwaiting : st'.waitingExecution = st.waitingExecution)
    (hfilter : st'.runNodeFilter = st.runNodeFilter) : NoneCouldRun w st' ↔ NoneCouldRun w st := by
  have hcould : couldRun w st' = couldRun w st := by
    funext nodeName entry
    rw [couldRun, couldRun, passesFilter, passesFilter, hfilter]
  rw [NoneCouldRun, NoneCouldRun, hwaiting, hcould]

/-- **What an iteration does to the drained state.** -/
theorem drained_iff_of_dataStep (h : DataStep w env s calls t) :
    Drained w t ↔ Drains w env s calls := by
  obtain ⟨hstep, hfree⟩ := h
  have hsame : ∀ t', loopStep w env s calls t' → t' = t :=
    fun t' h' => Option.some.inj (h'.symm.trans hstep)
  obtain ⟨executionData, stack, hended, hstack, hloop, hlast⟩ := loopStep_cases hstep
  have hleaves := @leaves_runEntry w env calls hfree executionData
    (EngineRequests.withStack s.loop stack)
  constructor
  · intro hdrained
    constructor
    · intro t' ht' hearly hlength
      obtain rfl := hsame t' ht'
      rw [hlast] at hearly
      have hkept := hleaves.early hearly
      rw [← hloop] at hkept
      rw [hstack, List.length_cons, Nat.add_eq_right, List.length_eq_zero_iff] at hlength
      exact (noneCouldRun_congr hkept.waiting hkept.filter).mp
        (hdrained ⟨hkept.ended.trans hended, hkept.stack.trans hlength⟩)
    · intro t' ht' hdone hempty node hnode entry hentry hcould
      obtain rfl := hsame t' ht'
      have hsearched := hleaves.searched (Option.some.inj (hlast.symm.trans hdone))
      rw [← hloop] at hsearched
      have hnone := hdrained ⟨hsearched.1.trans hended, hempty⟩ node hnode entry hentry
      exact absurd (hcould.symm.trans hnone) Bool.true_eq_false.mp
  -- the three ways in which an iteration ends: early, with a search, or with more to do
  · rintro ⟨hreached, hnotHeldBack⟩ ⟨htended, hempty⟩
    by_cases hearly : (runEntry w env calls executionData
        (EngineRequests.withStack s.loop stack)).2.endsEarly = true
    · -- the stack was empty before the iteration ended
      have hkept := hleaves.early hearly
      rw [← hloop] at hkept
      have hnil : stack = [] := hkept.stack.symm.trans hempty
      refine (noneCouldRun_congr hkept.waiting hkept.filter).mpr (hreached t hstep ?_ ?_)
      · rw [hlast]
        exact hearly
      · rw [hstack, hnil]
        rfl
    by_cases hdone : (runEntry w env calls executionData
        (EngineRequests.withStack s.loop stack)).2 = .done
    · have hdeferred := (hleaves.searched hdone).2
      rw [← hloop] at hdeferred
      intro node hnode entry hentry
      by_contra hcould
      refine hnotHeldBack t hstep (hlast.trans (congrArg some hdone)) hempty node hnode entry hentry
        (Bool.not_eq_false _ ▸ hcould) (hdeferred hempty node.1 ?_)
      exact InsertionMap.mem_keys.mpr ⟨node.2, hnode⟩
    · have hother := hleaves.other (Bool.not_eq_true _ ▸ hearly) hdone
      rw [← hloop] at hother
      exact (hother.elim (· htended) (· hempty)).elim

/-- No name that the loop looks up is that of a member of every object. -/
structure PlainLoop (w : Workflow) (loop : Loop) : Prop where
  names : w.PlainNames
  stack : ∀ executionData ∈ loop.execution.nodeExecutionStack,
    executionData.node.name ∉ InsertionMap.inheritedKeys
  waiting : ∀ nodeName ∈ loop.execution.waitingExecution.keys,
    nodeName ∉ InsertionMap.inheritedKeys

/-- Two nodes that feed the two inputs of a merge, of which one is required. -/
def branchesWorkflow : Workflow := Workflow.new {
  nodes := [{ name := "Start" }, { name := "First" }, { name := "Second" },
    { name := "Merge", type := "merge" }]
  connections :=
    ((InsertionMap.empty.set "Start" (InsertionMap.empty.set .main
      [some [⟨"First", .main, 0⟩, ⟨"Second", .main, 0⟩]])).set
      "First" (InsertionMap.empty.set .main [some [⟨"Merge", .main, 0⟩]])).set
      "Second" (InsertionMap.empty.set .main [some [⟨"Merge", .main, 1⟩]])
  executionOrder := some "v1"
  nodeTypes := fun node =>
    if node.type = "merge" then { inputsLength := 2, requiredInputs := some (.value (.count 1)) }
    else {} }

/-- The loop starts with the first node. -/
def startLoop : Loop where
  execution := {
    nodeExecutionStack := [{
      node := { name := "Start" }
      data := InsertionMap.empty.set .main [.value [{}]]
      source := none }] }

private def branchesFunctions : NodeFunctions := ⟨fun _ => 1, fun _ _ _ _ _ => .ok none⟩

private def item : NodeCall := { result := .data (some [.value [{}]]) }

private def noItems : NodeCall := { result := .data none }

/-- The nodes with an entry that could still run. -/
def runnableNodes (w : Workflow) (st : IRunExecutionData) : List String :=
  (st.waitingExecution.entries.filter fun node =>
    node.2.entries.any fun entry => couldRun w st node.1 entry.2).map Prod.fst

end WorkflowExecute

end N8n
