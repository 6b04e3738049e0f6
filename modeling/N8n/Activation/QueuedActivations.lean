import Mathlib.Data.List.Basic
import N8n.Activation.ActiveWorkflows

/-!
# Retrying failed activations

A workflow that could not be activated is queued, and a timer calls its retry function, which
calls `add`. The retry is suspended inside `add`; when `add` throws, it sets the next timer in
the entry of the queue. Workflows are deactivated by `remove` in a single-main setup and, in a
multi-main setup, by `handleRemoveTriggersAndPollers`, which the leader calls when any main
has published the command.

Calls of the retry function are numbered; triggers and crons in memory are tagged with these
numbers. Workflows are not activated otherwise. What a failed activation writes to the cache is
left out.
-/

namespace N8n

inductive WorkflowActivateMode where
  | init
  | create
  | update
  | activate
  | manual
  | leadershipChange
  deriving DecidableEq, Repr

/-- `WORKFLOW_REACTIVATE_INITIAL_TIMEOUT`. -/
def workflowReactivateInitialTimeout : ℕ := 1000

/-- `WORKFLOW_REACTIVATE_MAX_TIMEOUT`. -/
def workflowReactivateMaxTimeout : ℕ := 24 * 60 * 60 * 1000

/-- The workflow that a retry function holds on to. -/
structure WorkflowData where
  id : WorkflowId
  isArchived : Bool := false
  /-- The trigger and poll nodes of its active version. -/
  activeVersion : Option WorkflowNodes
  deriving DecidableEq, Repr

namespace QueuedActivations

abbrev TimerId := ℕ

abbrev RetryId := ℕ

structure QueuedActivation where
  activationMode : WorkflowActivateMode
  lastTimeout : ℕ
  timeout : TimerId
  workflowData : WorkflowData
  deriving DecidableEq, Repr

/-- A timer that is set, with what its retry function holds on to. -/
structure Timer where
  timeout : TimerId
  activationMode : WorkflowActivateMode
  workflowData : WorkflowData
  deriving DecidableEq, Repr

/-- A call of a retry function. -/
structure Retry where
  activationMode : WorkflowActivateMode
  workflowData : WorkflowData
  /-- Where its call of `add` is; `done` and `failed` also stand for calls that returned early
  or have thrown in the retry function. -/
  phase : ActiveWorkflows.AddPhase
  deriving DecidableEq, Repr

/-- A call of the retry function is suspended. -/
def Retry.inFlight (retry : Retry) : Bool := retry.phase ≠ .done ∧ retry.phase ≠ .failed

def Retry.workflowId (retry : Retry) : WorkflowId := retry.workflowData.id

/-- The nodes that `add` finds. -/
def Retry.nodes (retry : Retry) : WorkflowNodes := retry.workflowData.activeVersion.getD ⟨[], []⟩

/-- Where a call of `remove` or `handleRemoveTriggersAndPollers` is. -/
inductive DeactivationPhase where
  | clearingWebhooks
  /-- At `activationErrorsService.deregister`. -/
  | deregistering
  /-- In `activeWorkflows.remove`. -/
  | removing (removal : ActiveWorkflows.Removal)
  deriving DecidableEq, Repr

structure Deactivation where
  workflowId : WorkflowId
  phase : DeactivationPhase
  deriving DecidableEq, Repr

end QueuedActivations

open QueuedActivations in
structure QueuedActivations where
  isMultiMain : Bool
  /-- `instanceSettings.isLeader`. -/
  isLeader : Bool := true
  queuedActivations : InsertionMap WorkflowId QueuedActivation := .empty
  timers : List Timer := []
  nextTimer : TimerId := 0
  retries : RetryId → Retry := fun _ => ⟨.init, { id := "", activeVersion := none }, .done⟩
  nextRetry : RetryId := 0
  activeWorkflows : ActiveWorkflows := {}
  deactivations : List Deactivation := []
  /-- The removals that stepdowns have begun. -/
  removals : List ActiveWorkflows.Removal := []
  /-- History: the workflows whose deactivation has ended. -/
  deactivated : List WorkflowId := []
  /-- History: the retries that were in flight when the deactivation of their workflow ended or
  when the instance stepped down. -/
  lingering : List RetryId := []

namespace QueuedActivations

open ActiveWorkflows

/-! ### The queue -/

def clearTimeout (timeout : TimerId) (st : QueuedActivations) : QueuedActivations :=
  { st with timers := st.timers.filter fun t => t.timeout ≠ timeout }

def removeQueuedWorkflowActivation (workflowId : WorkflowId) (st : QueuedActivations) :
    QueuedActivations :=
  match st.queuedActivations.get? workflowId with
  | none => st
  | some queued =>
    { st.clearTimeout queued.timeout with
      queuedActivations := st.queuedActivations.erase workflowId }

def removeAllQueuedWorkflowActivations (st : QueuedActivations) : QueuedActivations :=
  st.queuedActivations.keys.foldl (fun st workflowId =>
    st.removeQueuedWorkflowActivation workflowId) st

/-- `addQueuedWorkflowActivation(activationMode, workflowData)`. -/
def addQueuedWorkflowActivation (activationMode : WorkflowActivateMode)
    (workflowData : WorkflowData) (st : QueuedActivations) : QueuedActivations :=
  let st := st.removeQueuedWorkflowActivation workflowData.id
  { st with
    queuedActivations := st.queuedActivations.set workflowData.id
      { activationMode, lastTimeout := workflowReactivateInitialTimeout, timeout := st.nextTimer,
        workflowData }
    timers := st.timers ++ [{ timeout := st.nextTimer, activationMode, workflowData }]
    nextTimer := st.nextTimer + 1 }

/-! ### The retry function -/

/-- `add(workflowId, activationMode, workflowData, { shouldPublish: false })`, up to its first
`await`. -/
def startAdd (activationMode : WorkflowActivateMode) (workflowData : WorkflowData)
    (isLeader : Bool) : AddPhase :=
  if workflowData.isArchived then .done
  else if workflowData.activeVersion.isNone then
    if activationMode = .init ∨ activationMode = .leadershipChange then .done else .failing
  else .preparing isLeader

/-- A timer calls its retry function. -/
def retryFunction (timer : Timer) (st : QueuedActivations) : QueuedActivations :=
  { st with
    timers := st.timers.filter fun t => t.timeout ≠ timer.timeout
    retries := Function.update st.retries st.nextRetry
      { activationMode := timer.activationMode
        workflowData := timer.workflowData
        phase := startAdd timer.activationMode timer.workflowData st.isLeader }
    nextRetry := st.nextRetry + 1 }

/-- The call of `add` of a retry goes on with a phase and what it has done in memory. -/
def proceed (r : RetryId) (next : AddPhase × ActiveWorkflows) (st : QueuedActivations) :
    QueuedActivations :=
  { st with
    activeWorkflows := next.2
    retries := Function.update st.retries r { st.retries r with phase := next.1 } }

/-- What `add` awaits has returned. Once triggers and pollers are added, the workflow is removed
from the queue. -/
def resumeAdd (r : RetryId) (st : QueuedActivations) : QueuedActivations :=
  let retry := st.retries r
  let st := if retry.phase = .releasing then
    st.removeQueuedWorkflowActivation retry.workflowId else st
  st.proceed r (st.activeWorkflows.resumeAdd r retry.workflowId retry.nodes retry.phase)

/-- What `add` awaits has thrown. -/
def failAdd (r : RetryId) (registered : ℕ) (st : QueuedActivations) : QueuedActivations :=
  let retry := st.retries r
  st.proceed r (st.activeWorkflows.failAdd r retry.workflowId registered retry.phase)

/-- The `catch` of the retry function. -/
def retryFailed (r : RetryId) (isolateError : Bool) (st : QueuedActivations) :
    QueuedActivations :=
  let retry := st.retries r
  let st := st.proceed r (.failed, st.activeWorkflows)
  match st.queuedActivations.get? retry.workflowId with
  | none => st -- it throws
  | some queued =>
    let lastTimeout :=
      if ¬isolateError ∧ queued.lastTimeout < workflowReactivateMaxTimeout then
        min (queued.lastTimeout * 2) workflowReactivateMaxTimeout
      else queued.lastTimeout
    { st with
      queuedActivations := st.queuedActivations.set retry.workflowId
        { queued with lastTimeout, timeout := st.nextTimer }
      timers := st.timers ++ [⟨st.nextTimer, retry.activationMode, retry.workflowData⟩]
      nextTimer := st.nextTimer + 1 }

/-! ### Deactivation and stepdown -/

/-- The retries in flight that meet a condition. -/
def retriesInFlight (p : WorkflowId → Bool) (st : QueuedActivations) : List RetryId :=
  (List.range st.nextRetry).filter fun r =>
    (st.retries r).inFlight ∧ p (st.retries r).workflowId

/-- `remove` goes on in the removal of triggers and pollers, or it is through. -/
def proceedRemoval (i : ℕ) (workflowId : WorkflowId)
    (next : Option Removal × ActiveWorkflows) (st : QueuedActivations) : QueuedActivations :=
  match next.1 with
  | some removal =>
    { st with
      activeWorkflows := next.2
      deactivations := st.deactivations.set i ⟨workflowId, .removing removal⟩ }
  | none =>
    { st with
      activeWorkflows := next.2
      deactivations := st.deactivations.eraseIdx i
      deactivated := st.deactivated ++ [workflowId]
      lingering := st.lingering ++ st.retriesInFlight (· = workflowId) }

/-- `remove` or `handleRemoveTriggersAndPollers` goes on. -/
def resumeDeactivation (i : ℕ) (deactivation : Deactivation) (st : QueuedActivations) :
    QueuedActivations :=
  let workflowId := deactivation.workflowId
  match deactivation.phase with
  | .clearingWebhooks =>
    { st with deactivations := st.deactivations.set i ⟨workflowId, .deregistering⟩ }
  | .deregistering =>
    let st := if st.isMultiMain then st else st.removeQueuedWorkflowActivation workflowId
    st.proceedRemoval i workflowId (st.activeWorkflows.removeWorkflows [workflowId])
  | .removing removal =>
    st.proceedRemoval i workflowId (st.activeWorkflows.resumeRemoval removal)

/-- `removeAllTriggerAndPollerBasedWorkflows()`, on the stepdown. -/
def leaderStepdown (st : QueuedActivations) : QueuedActivations :=
  let st := st.removeAllQueuedWorkflowActivations
  let (removal, activeWorkflows) := st.activeWorkflows.removeAllTriggerAndPollerBasedWorkflows
  { st with
    isLeader := false
    activeWorkflows
    removals := st.removals ++ removal.toList
    lingering := st.lingering ++ st.retriesInFlight fun _ => true }

/-- The removal of a stepdown goes on. -/
def resumeRemoval (i : ℕ) (removal : Removal) (st : QueuedActivations) : QueuedActivations :=
  let (removal, activeWorkflows) := st.activeWorkflows.resumeRemoval removal
  { st with
    activeWorkflows
    removals := match removal with
      | none => st.removals.eraseIdx i
      | some removal => st.removals.set i removal }

/-! ### One step -/

inductive Event where
  | addQueuedWorkflowActivation (activationMode : WorkflowActivateMode)
      (workflowData : WorkflowData)
  /-- A timer fires. -/
  | fired (timer : Timer)
  /-- What the `add` of a retry awaits returns. -/
  | resolved (r : RetryId)
  /-- What the `add` of a retry awaits throws. -/
  | rejected (r : RetryId) (registered : ℕ)
  /-- The `add` of a retry throws, an isolate error or another one. -/
  | thrown (r : RetryId) (isolateError : Bool)
  | remove (workflowId : WorkflowId)
  | handleRemoveTriggersAndPollers (workflowId : WorkflowId)
  /-- What a deactivation awaits returns. -/
  | deactivating (i : ℕ)
  /-- What a deactivation awaits throws: it ends. Errors of `clearWebhooks` are caught. -/
  | deactivationThrown (i : ℕ)
  | leaderStepdown
  /-- What the removal of a stepdown awaits returns. -/
  | removed (i : ℕ)
  /-- A `closeFunction` throws an error other than a `TriggerCloseError`: the removal of a stepdown
  ends. -/
  | closeThrown (i : ℕ)
  deriving DecidableEq, Repr

def step? (st : QueuedActivations) : Event → Option QueuedActivations
  | .addQueuedWorkflowActivation activationMode workflowData =>
    some (st.addQueuedWorkflowActivation activationMode workflowData)
  | .fired timer => if timer ∈ st.timers then some (st.retryFunction timer) else none
  | .resolved r =>
    if (st.retries r).inFlight ∧ (st.retries r).phase ≠ .failing then some (st.resumeAdd r)
    else none
  | .rejected r registered =>
    if (st.retries r).inFlight ∧ (st.retries r).phase ≠ .failing then
      some (st.failAdd r registered)
    else none
  | .thrown r isolateError =>
    if (st.retries r).phase = .failing then some (st.retryFailed r isolateError) else none
  | .remove workflowId =>
    if st.isMultiMain then none
    else some { st with
      deactivations := st.deactivations ++ [⟨workflowId, .clearingWebhooks⟩] }
  | .handleRemoveTriggersAndPollers workflowId =>
    if st.isMultiMain ∧ st.isLeader then
      some { st with deactivations := st.deactivations ++ [⟨workflowId, .deregistering⟩] }
    else none
  | .deactivating i =>
    st.deactivations[i]?.map fun deactivation => st.resumeDeactivation i deactivation
  | .deactivationThrown i =>
    match st.deactivations[i]? with
    | none | some ⟨_, .clearingWebhooks⟩ => none
    | some _ => some { st with deactivations := st.deactivations.eraseIdx i }
  | .leaderStepdown =>
    if st.isMultiMain ∧ st.isLeader then some st.leaderStepdown else none
  | .removed i => st.removals[i]?.map fun removal => st.resumeRemoval i removal
  | .closeThrown i =>
    match st.removals[i]? with
    | some ⟨some _, _⟩ => some { st with removals := st.removals.eraseIdx i }
    | _ => none

def Step (st : QueuedActivations) (e : Event) (st' : QueuedActivations) : Prop :=
  st.step? e = some st'

end QueuedActivations

end N8n
