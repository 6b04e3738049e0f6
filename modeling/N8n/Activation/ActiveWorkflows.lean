import Mathlib.Logic.Function.Basic
import N8n.Foundations.InsertionMap

/-!
# Triggers and pollers in memory

`ActiveWorkflows` keeps, by workflow id, the responses of the trigger nodes of the workflows
that are active in memory; `ScheduledTaskManager` keeps their crons. A trigger that runs
listens until the `closeFunction` of its response is called, whether or not an entry still
holds the response.

Adding a workflow and removing workflows are suspended at each `await`. `AddPhase` says where
a call of `ActiveWorkflowManager.add` is once it may add triggers and pollers, `Removal` where
a removal is. A trigger function registers its crons and starts to listen when it returns.
-/

namespace N8n

abbrev WorkflowId := String

/-- The response of a trigger function, with the call of `add` that has run it. -/
structure TriggerResponse where
  call : ℕ
  node : String
  /-- Whether it has a `closeFunction`. -/
  closable : Bool
  deriving DecidableEq, Repr

structure TriggerNode where
  name : String
  /-- The expressions of the crons that its trigger function registers. -/
  crons : List String
  /-- Whether the trigger function returns a response, and whether that has a
  `closeFunction`. -/
  response : Option Bool
  deriving DecidableEq, Repr

/-- The response of a trigger function, if it returns one. -/
def TriggerNode.triggerResponse (call : ℕ) (node : TriggerNode) : List TriggerResponse :=
  node.response.toList.map fun closable => { call, node := node.name, closable }

structure PollNode where
  name : String
  /-- The cron expressions of its poll times. -/
  crons : List String
  deriving DecidableEq, Repr

/-- The nodes of a workflow that `getTriggerNodes` and `getPollNodes` return. -/
structure WorkflowNodes where
  triggerNodes : List TriggerNode
  pollNodes : List PollNode
  deriving DecidableEq, Repr

structure Cron where
  /-- The call of `add` that has registered it. -/
  call : ℕ
  node : String
  expression : String
  deriving DecidableEq, Repr

structure ActiveWorkflows where
  activeWorkflows : InsertionMap WorkflowId (List TriggerResponse) := .empty
  cronsByWorkflow : WorkflowId → List Cron := fun _ => []
  /-- The responses whose `closeFunction` has not been called. -/
  listeners : WorkflowId → List TriggerResponse := fun _ => []

namespace ActiveWorkflows

def isActive (workflowId : WorkflowId) (st : ActiveWorkflows) : Bool :=
  st.activeWorkflows.has workflowId

/-- `registerCron(ctx, onTick)`: a cron that is there already is skipped. -/
def registerCron (workflowId : WorkflowId) (cron : Cron) (st : ActiveWorkflows) :
    ActiveWorkflows :=
  if (st.cronsByWorkflow workflowId).any
      fun c => c.node = cron.node ∧ c.expression = cron.expression then st
  else
    { st with
      cronsByWorkflow := Function.update st.cronsByWorkflow workflowId
        (st.cronsByWorkflow workflowId ++ [cron]) }

/-- The crons of a node are registered one after the other. -/
def registerCrons (call : ℕ) (workflowId : WorkflowId) (node : String) (expressions : List String)
    (st : ActiveWorkflows) : ActiveWorkflows :=
  expressions.foldl (fun st expression => st.registerCron workflowId ⟨call, node, expression⟩) st

def deregisterCrons (workflowId : WorkflowId) (st : ActiveWorkflows) : ActiveWorkflows :=
  { st with cronsByWorkflow := Function.update st.cronsByWorkflow workflowId [] }

/-- `runTrigger` has returned. -/
def startTrigger (call : ℕ) (workflowId : WorkflowId) (node : TriggerNode)
    (st : ActiveWorkflows) : ActiveWorkflows :=
  let st := st.registerCrons call workflowId node.name node.crons
  { st with
    listeners := Function.update st.listeners workflowId
      (st.listeners workflowId ++ (node.triggerResponse call).filter (·.closable)) }

/-- `this.activeWorkflows[workflowId] = { triggerResponses }`. -/
def activate (workflowId : WorkflowId) (triggerResponses : List TriggerResponse)
    (st : ActiveWorkflows) : ActiveWorkflows :=
  { st with activeWorkflows := st.activeWorkflows.set workflowId triggerResponses }

/-- `delete this.activeWorkflows[workflowId]`. -/
def deactivate (workflowId : WorkflowId) (st : ActiveWorkflows) : ActiveWorkflows :=
  { st with activeWorkflows := st.activeWorkflows.erase workflowId }

/-- `closeTrigger(response, workflowId)` has returned. -/
def closeTrigger (workflowId : WorkflowId) (response : TriggerResponse) (st : ActiveWorkflows) :
    ActiveWorkflows :=
  { st with
    listeners := Function.update st.listeners workflowId
      ((st.listeners workflowId).filter fun r => r ≠ response) }

/-! ### `add` -/

/-- Where a call of `ActiveWorkflowManager.add` is. -/
inductive AddPhase where
  /-- Before triggers and pollers are added, with `shouldAddTriggersAndPollers`. -/
  | preparing (shouldAddTriggersAndPollers : Bool)
  /-- At `runTrigger` of a node, with the nodes that follow and the responses so far. -/
  | runningTrigger (node : TriggerNode) (rest : List TriggerNode)
      (triggerResponses : List TriggerResponse)
  /-- At `activatePolling` of a node. -/
  | polling (node : PollNode) (rest : List PollNode) (triggerResponses : List TriggerResponse)
  /-- At `releaseIsolate`, with the triggers and pollers added. -/
  | releasing
  /-- After `removeQueuedWorkflowActivation`. -/
  | finishing
  | done
  /-- In the `catch`, at `activationErrorsService.register`. -/
  | failing
  | failed
  deriving DecidableEq, Repr

/-- The loop over the poll nodes. -/
def activateNextPolling (pollNodes : List PollNode) (triggerResponses : List TriggerResponse) :
    AddPhase :=
  match pollNodes with
  | [] => .releasing
  | node :: rest => .polling node rest triggerResponses

/-- The loop over the trigger nodes, and what follows it up to the next `await`. -/
def runNextTrigger (workflowId : WorkflowId) (nodes : WorkflowNodes)
    (triggerNodes : List TriggerNode) (triggerResponses : List TriggerResponse)
    (st : ActiveWorkflows) : AddPhase × ActiveWorkflows :=
  match triggerNodes with
  | [] => (activateNextPolling nodes.pollNodes triggerResponses,
      st.activate workflowId triggerResponses)
  | node :: rest => (.runningTrigger node rest triggerResponses, st)

/-- `addTriggersAndPollers(dbWorkflow, workflow, options)`, up to its first `await`. -/
def addTriggersAndPollers (workflowId : WorkflowId) (nodes : WorkflowNodes)
    (st : ActiveWorkflows) : AddPhase × ActiveWorkflows :=
  if nodes.triggerNodes = [] ∧ nodes.pollNodes = [] then (.releasing, st)
  else runNextTrigger workflowId nodes nodes.triggerNodes [] st

/-- `add` goes on: what it awaits has returned. -/
def resumeAdd (call : ℕ) (workflowId : WorkflowId) (nodes : WorkflowNodes) (phase : AddPhase)
    (st : ActiveWorkflows) : AddPhase × ActiveWorkflows :=
  match phase with
  | .preparing shouldAddTriggersAndPollers =>
    if shouldAddTriggersAndPollers then st.addTriggersAndPollers workflowId nodes
    else (.releasing, st)
  | .runningTrigger node rest triggerResponses =>
    (st.startTrigger call workflowId node).runNextTrigger workflowId nodes rest
      (triggerResponses ++ node.triggerResponse call)
  | .polling node rest triggerResponses =>
    (activateNextPolling rest triggerResponses,
      st.registerCrons call workflowId node.name node.crons)
  | .releasing => (.finishing, st)
  | .finishing => (.done, st)
  | .failing => (.failed, st)
  | .done => (.done, st)
  | .failed => (.failed, st)

/-- `add` goes to its `catch`: what it awaits has thrown. A poll node may have registered some
of its crons when an interval turns out to be too short. -/
def failAdd (call : ℕ) (workflowId : WorkflowId) (registered : ℕ) (phase : AddPhase)
    (st : ActiveWorkflows) : AddPhase × ActiveWorkflows :=
  match phase with
  | .polling node _ triggerResponses =>
    let st := st.registerCrons call workflowId node.name (node.crons.take registered)
    (.failing, if triggerResponses = [] then st.deactivate workflowId else st)
  | _ => (.failing, st)

/-! ### Removals -/

/-- Where a removal of workflows is suspended. -/
structure Removal where
  /-- The workflow that is being removed, with the responses that are still to be closed. -/
  closing : Option (WorkflowId × List TriggerResponse)
  /-- The workflows that follow. -/
  remaining : List WorkflowId
  deriving DecidableEq, Repr

/-- `remove` has returned for a workflow, and `remaining` follow. -/
def removed (remaining : List WorkflowId) : Option Removal :=
  if remaining = [] then none else some ⟨none, remaining⟩

/-- The loop over the responses, and what follows it up to the next `await`. -/
def closeNextTrigger (workflowId : WorkflowId) (triggerResponses : List TriggerResponse)
    (remaining : List WorkflowId) (st : ActiveWorkflows) : Option Removal × ActiveWorkflows :=
  match triggerResponses with
  | [] => (removed remaining, st.deactivate workflowId)
  | _ :: _ => (some ⟨some (workflowId, triggerResponses), remaining⟩, st)

/-- `remove(workflowId)` for each workflow in turn, up to the first `await`. -/
def removeWorkflows (workflowIds : List WorkflowId) (st : ActiveWorkflows) :
    Option Removal × ActiveWorkflows :=
  match workflowIds with
  | [] => (none, st)
  | workflowId :: remaining =>
    match st.activeWorkflows.get? workflowId with
    | none => (removed remaining, st)
    | some triggerResponses =>
      (st.deregisterCrons workflowId).closeNextTrigger workflowId triggerResponses remaining

/-- A removal goes on. -/
def resumeRemoval (removal : Removal) (st : ActiveWorkflows) : Option Removal × ActiveWorkflows :=
  match removal.closing with
  | none => st.removeWorkflows removal.remaining
  | some (workflowId, []) => st.closeNextTrigger workflowId [] removal.remaining
  | some (workflowId, response :: triggerResponses) =>
    (st.closeTrigger workflowId response).closeNextTrigger workflowId triggerResponses
      removal.remaining

/-- `removeAllTriggerAndPollerBasedWorkflows()`, up to its first `await`. -/
def removeAllTriggerAndPollerBasedWorkflows (st : ActiveWorkflows) :
    Option Removal × ActiveWorkflows :=
  st.removeWorkflows st.activeWorkflows.keys

end ActiveWorkflows

end N8n
