import Mathlib.Data.List.Basic
import N8n.Activation.ActiveWorkflows

/-!
# Activating all workflows on init and on leadership changes

`addActiveWorkflows` runs on init and when the instance becomes leader. It gets the ids of all
active workflows and adds these in batches; each addition reads the leader flag when it
begins. `isActivationInProgress` lets a call return at once while another is under way. When
the instance steps down, what is active in memory then is removed, one workflow after the
other.

Here the active workflows stay the same and no activation fails. The queue of failed
activations, webhooks and events are left out.
-/

namespace N8n

/-- lodash `chunk(array, size)`. -/
def chunk {α : Type} (size : ℕ) (array : List α) : List (List α) :=
  if size = 0 then []
  else (List.range ((array.length + size - 1) / size)).map fun i =>
    (array.drop (i * size)).take size

theorem flatten_chunk {α : Type} {size : ℕ} (hsize : 0 < size) (array : List α) :
    (chunk size array).flatten = array := by
  have htake : ∀ n, ((List.range n).map fun i => (array.drop (i * size)).take size).flatten =
      array.take (n * size) := by
    intro n
    induction n with
    | zero => simp only [List.range_zero, List.map_nil, List.flatten_nil, Nat.zero_mul,
        List.take_zero]
    | succ n ih =>
      simp only [List.range_succ, List.map_append, List.flatten_append, ih, List.map_cons,
        List.map_nil, List.flatten_cons, List.flatten_nil, List.append_nil]
      rw [Nat.succ_mul, List.take_add]
  have hlength : array.length ≤ (array.length + size - 1) / size * size := by
    have hdiv := Nat.div_add_mod (array.length + size - 1) size
    have hmod := Nat.mod_lt (array.length + size - 1) hsize
    rw [Nat.mul_comm] at hdiv
    omega
  rw [chunk, if_neg (Nat.ne_of_gt hsize), htake, List.take_of_length_le hlength]

theorem chunk_zero {α : Type} (array : List α) : chunk 0 array = [] := rfl

/-- The workflows in the database and how they are activated. -/
structure WorkflowActivation where
  activationBatchSize : ℕ
  /-- The ids that `getAllActiveIds` returns. -/
  activeIds : List WorkflowId
  nodup_activeIds : activeIds.Nodup
  /-- The trigger and poll nodes of the active version of a workflow. -/
  nodes : WorkflowId → WorkflowNodes

namespace ActiveWorkflowManager

/-- Where a call of `activateWorkflow` is. -/
inductive ActivatePhase where
  /-- At `workflowRepository.findById`. -/
  | finding
  | adding (phase : ActiveWorkflows.AddPhase)
  deriving DecidableEq, Repr

/-- Where a call of `addActiveWorkflows` is. -/
inductive Activation where
  /-- At `workflowRepository.getAllActiveIds`. -/
  | gettingIds
  /-- At the `Promise.all` of a batch, with the batches that follow. -/
  | activating (batch : List WorkflowId) (batches : List (List WorkflowId))
  deriving DecidableEq, Repr

end ActiveWorkflowManager

open ActiveWorkflowManager in
structure ActiveWorkflowManager where
  /-- `instanceSettings.isLeader`. -/
  isLeader : Bool
  /-- Whether `init` has been called. -/
  initialized : Bool := false
  /-- The call of `addActiveWorkflows` while `isActivationInProgress` is set. -/
  activation : Option Activation := none
  /-- The number of calls of `addActiveWorkflows` that were not skipped. -/
  activations : ℕ := 0
  /-- The calls of `activateWorkflow` of the current batch. -/
  activateWorkflow : WorkflowId → ActivatePhase := fun _ => .finding
  activeWorkflows : ActiveWorkflows := {}
  removals : List ActiveWorkflows.Removal := []

namespace ActiveWorkflowManager

variable (workflows : WorkflowActivation)

def isActivationInProgress (st : ActiveWorkflowManager) : Bool := st.activation.isSome

/-! ### `addActiveWorkflows` -/

/-- `addActiveWorkflows(activationMode)`, up to its first `await`. -/
def addActiveWorkflows (st : ActiveWorkflowManager) : ActiveWorkflowManager :=
  if st.isActivationInProgress then st
  else { st with activation := some .gettingIds, activations := st.activations + 1 }

/-- The loop over the batches, up to the next `Promise.all` or to the `finally`. -/
def activateNextBatch (batches : List (List WorkflowId)) (st : ActiveWorkflowManager) :
    ActiveWorkflowManager :=
  match batches with
  | [] => { st with activation := none }
  | batch :: batches =>
    { st with
      activation := some (.activating batch batches)
      activateWorkflow := fun id => if id ∈ batch then .finding else st.activateWorkflow id }

/-- `getAllActiveIds` has returned. -/
def activateAll (st : ActiveWorkflowManager) : ActiveWorkflowManager :=
  st.activateNextBatch (chunk workflows.activationBatchSize workflows.activeIds)

/-- `findById` has returned: `add` begins. -/
def add (workflowId : WorkflowId) (st : ActiveWorkflowManager) : ActiveWorkflowManager :=
  { st with
    activateWorkflow := Function.update st.activateWorkflow workflowId
      (.adding (.preparing st.isLeader)) }

/-- `add` goes on. -/
def resumeAdd (workflowId : WorkflowId) (phase : ActiveWorkflows.AddPhase)
    (st : ActiveWorkflowManager) : ActiveWorkflowManager :=
  let (phase, activeWorkflows) := st.activeWorkflows.resumeAdd st.activations workflowId
    (workflows.nodes workflowId) phase
  { st with
    activeWorkflows
    activateWorkflow := Function.update st.activateWorkflow workflowId (.adding phase) }

/-- `Promise.all` resolves when all workflows of the batch are added. -/
def resolveBatch (batch : List WorkflowId) (batches : List (List WorkflowId))
    (st : ActiveWorkflowManager) : ActiveWorkflowManager :=
  if ∀ id ∈ batch, st.activateWorkflow id = .adding .done then st.activateNextBatch batches else st

/-! ### Init, takeover and stepdown -/

def init (st : ActiveWorkflowManager) : ActiveWorkflowManager :=
  { st with initialized := true }.addActiveWorkflows

/-- `addAllTriggerAndPollerBasedWorkflows()`, on the takeover. -/
def leaderTakeover (st : ActiveWorkflowManager) : ActiveWorkflowManager :=
  { st with isLeader := true }.addActiveWorkflows

/-- `removeAllTriggerAndPollerBasedWorkflows()`, on the stepdown. -/
def leaderStepdown (st : ActiveWorkflowManager) : ActiveWorkflowManager :=
  let (removal, activeWorkflows) := st.activeWorkflows.removeAllTriggerAndPollerBasedWorkflows
  { st with isLeader := false, activeWorkflows, removals := st.removals ++ removal.toList }

/-- A removal goes on. -/
def resumeRemoval (i : ℕ) (removal : ActiveWorkflows.Removal) (st : ActiveWorkflowManager) :
    ActiveWorkflowManager :=
  let (removal, activeWorkflows) := st.activeWorkflows.resumeRemoval removal
  { st with
    activeWorkflows
    removals := match removal with
      | none => st.removals.eraseIdx i
      | some removal => st.removals.set i removal }

/-! ### One step -/

inductive Event where
  /-- The start command calls `init`, once. -/
  | init
  | leaderTakeover
  | leaderStepdown
  /-- `getAllActiveIds` returns. -/
  | activeIds
  /-- `findById` returns for a workflow of the batch. -/
  | found (workflowId : WorkflowId)
  /-- What `add` awaits for a workflow of the batch returns. -/
  | added (workflowId : WorkflowId)
  /-- What a removal awaits returns. -/
  | removed (i : ℕ)
  /-- A `closeFunction` throws an error other than a `TriggerCloseError`: the removal ends. -/
  | closeThrown (i : ℕ)
  deriving DecidableEq, Repr

def step? (st : ActiveWorkflowManager) : Event → Option ActiveWorkflowManager
  | .init => if st.initialized then none else some st.init
  | .leaderTakeover => if st.isLeader then none else some st.leaderTakeover
  | .leaderStepdown => if st.isLeader then some st.leaderStepdown else none
  | .activeIds =>
    if st.activation = some .gettingIds then some (st.activateAll workflows) else none
  | .found workflowId =>
    match st.activation with
    | some (.activating batch _) =>
      if workflowId ∈ batch ∧ st.activateWorkflow workflowId = .finding then
        some (st.add workflowId)
      else none
    | _ => none
  | .added workflowId =>
    match st.activation, st.activateWorkflow workflowId with
    | some (.activating batch batches), .adding phase =>
      if workflowId ∈ batch ∧ phase ≠ .done then
        some ((st.resumeAdd workflows workflowId phase).resolveBatch batch batches)
      else none
    | _, _ => none
  | .removed i => st.removals[i]?.map fun removal => st.resumeRemoval i removal
  | .closeThrown i =>
    match st.removals[i]? with
    | some ⟨some _, _⟩ => some { st with removals := st.removals.eraseIdx i }
    | _ => none

def Step (st : ActiveWorkflowManager) (e : Event) (st' : ActiveWorkflowManager) : Prop :=
  st.step? workflows e = some st'

end ActiveWorkflowManager

end N8n
