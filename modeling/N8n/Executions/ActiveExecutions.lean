import N8n.Workflow.Interfaces

/-!
# The active executions of a process

`ActiveExecutions` keeps, by execution id, the execution object of the run that is current. A
run begins with a call of `add`, for a new execution or to resume one that waits, and the
closure of that call holds on to its own execution object, its post-execute promise and its
reserved capacity. Other methods find the execution object by the execution id.

Runs are numbered by the calls of `add`. A call is suspended at each `await`: its phase says
where. A run that was added goes on until it calls `finalizeExecution`; one that was stopped
may also end without a call. The response of an execution, its workflow execution object and
the time it started are left out.
-/

namespace N8n

inductive WorkflowExecuteMode where
  | cli
  | error
  | integrated
  | internal
  | manual
  | retry
  | trigger
  | webhook
  | evaluation
  | chat
  | agent
  deriving DecidableEq, Repr

namespace ActiveExecutions

/-- The number of a call of `add`. -/
abbrev RunId := ℕ

/-- Where a call of `add` is. -/
inductive Phase where
  /-- Not called yet. -/
  | idle
  /-- At `executionPersistence.create`. -/
  | creating
  /-- At `capacityReservation.reserve`, to resume an execution or for a new one. -/
  | reserving (executionId : String) (resumes : Bool)
  /-- At `executionRepository.setRunning`. -/
  | settingRunning (executionId : String)
  /-- At `executionRepository.updateExistingExecution`. -/
  | updating (executionId : String)
  /-- It has thrown. -/
  | failed
  /-- It has returned the execution id. -/
  | added (executionId : String)
  deriving DecidableEq, Repr

/-- What the closure of a call of `add` holds on to. -/
structure Run where
  mode : WorkflowExecuteMode := .manual
  phase : Phase := .idle
  /-- `execution.status`. -/
  status : ExecutionStatus := .new
  /-- Whether `capacityReservation.acquiredReservation` is set. -/
  reserved : Bool := false
  /-- Whether `postExecutePromise` is settled. -/
  settled : Bool := false
  /-- Whether what is chained to `postExecutePromise` has run. -/
  cleanedUp : Bool := false
  /-- Whether the run goes on: it has not come to its `finalizeExecution`. -/
  running : Bool := true
  /-- Whether `stopExecution` has cancelled the run. -/
  cancelled : Bool := false
  deriving DecidableEq, Repr

/-- A run has ended when it goes on no more, and when it was cancelled. -/
def Run.ended (run : Run) : Bool := !run.running || run.cancelled

end ActiveExecutions

open ActiveExecutions in
structure ActiveExecutions where
  /-- Whether `executionsConfig.mode` is `regular`. -/
  isRegularMode : Bool
  /-- The run of the current execution object of an execution. -/
  activeExecutions : InsertionMap String RunId := .empty
  runs : RunId → Run := fun _ => {}
  nextRun : RunId := 0
  /-- History: the runs whose capacity was released, with the mode it was released for. -/
  released : List (RunId × WorkflowExecuteMode) := []
  /-- History: the runs that called `finalizeExecution`, each with the run whose promise the
  call has settled. -/
  finalized : List (RunId × RunId) := []
  /-- History: the runs whose entries were removed, and whether they had ended. -/
  removed : List (RunId × Bool) := []

namespace ActiveExecutions

/-- Something happens to one run. -/
def update (r : RunId) (f : Run → Run) (st : ActiveExecutions) : ActiveExecutions :=
  { st with runs := fun k => if k = r then f (st.runs k) else st.runs k }

/-! ### The capacity of a run -/

/-- `capacityReservation.release()`. -/
def release (r : RunId) (st : ActiveExecutions) : ActiveExecutions :=
  if (st.runs r).reserved then
    { st.update r fun run => { run with reserved := false } with
      released := st.released ++ [(r, (st.runs r).mode)] }
  else st

/-! ### `add` -/

/-- The `catch` of `add`. -/
def fail (r : RunId) (st : ActiveExecutions) : ActiveExecutions :=
  (st.release r).update r fun run => { run with phase := .failed, running := false }

/-- The rest of `add`, from the new execution object on. -/
def register (r : RunId) (executionId : String) (status : ExecutionStatus)
    (st : ActiveExecutions) : ActiveExecutions :=
  { st.update r fun run => { run with phase := .added executionId, status } with
    activeExecutions := st.activeExecutions.set executionId r }

/-- A call of `add` goes to its next `await`. -/
def await (r : RunId) (phase : Phase) (st : ActiveExecutions) : ActiveExecutions :=
  st.update r fun run => { run with phase }

/-- `add(executionData, maybeExecutionId)`, up to its first `await`. -/
def add (mode : WorkflowExecuteMode) (maybeExecutionId : Option String) (st : ActiveExecutions) :
    ActiveExecutions :=
  let phase :=
    match maybeExecutionId with
    | none => .creating
    | some executionId => .reserving executionId true
  { st.update st.nextRun fun run => { run with mode, phase } with nextRun := st.nextRun + 1 }

/-- `add` goes on with the id of the new execution. -/
def created (r : RunId) (executionId : Option String) (st : ActiveExecutions) :
    ActiveExecutions :=
  match executionId with
  | none => st.fail r
  | some executionId => st.await r (.reserving executionId false)

/-- The status an execution has when it is resumed: an empty id counts as none. -/
def resumedStatus (executionId : String) : ExecutionStatus :=
  if executionId = "" then .new else .running

/-- `add` goes on once capacity is reserved. -/
def reserved (r : RunId) (executionId : String) (resumes : Bool) (st : ActiveExecutions) :
    ActiveExecutions :=
  let st := st.update r fun run => { run with reserved := true }
  if resumes then st.await r (.updating executionId)
  else if st.isRegularMode then st.await r (.settingRunning executionId)
  else st.register r executionId .running

/-- `add` goes on after `updateExistingExecution`. -/
def updated (r : RunId) (executionId : String) (updateSucceeded : Bool)
    (st : ActiveExecutions) : ActiveExecutions :=
  if updateSucceeded then st.register r executionId (resumedStatus executionId) else st.fail r

/-! ### The other methods -/

/-- `setStatus(executionId, status)`. -/
def setStatus (executionId : String) (status : ExecutionStatus) (st : ActiveExecutions) :
    ActiveExecutions :=
  match st.activeExecutions.get? executionId with
  | none => st
  | some r => st.update r fun run => { run with status }

/-- `postExecutePromise` of a run is resolved or rejected. -/
def settle (r : RunId) (st : ActiveExecutions) : ActiveExecutions :=
  st.update r fun run => { run with settled := true }

/-- `delete this.activeExecutions[executionId]`. -/
def deleteExecution (executionId : String) (st : ActiveExecutions) : ActiveExecutions :=
  { st with
    activeExecutions := st.activeExecutions.erase executionId
    removed := st.removed ++
      (st.activeExecutions.get? executionId).toList.map fun r => (r, (st.runs r).ended) }

/-- `finalizeExecution(executionId, fullRunData)`, called by a run. -/
def finalizeExecution (caller : RunId) (executionId : String) (st : ActiveExecutions) :
    ActiveExecutions :=
  match st.activeExecutions.get? executionId with
  | none => st
  | some r =>
    { st.settle r with finalized :=
        if (st.runs r).settled then st.finalized else st.finalized ++ [(caller, r)] }

/-- `stopExecution(executionId, cancellationError)`. -/
def stopExecution (executionId : String) (st : ActiveExecutions) : ActiveExecutions :=
  match st.activeExecutions.get? executionId with
  | none => st
  | some r =>
    if (st.runs r).status = .waiting then st.deleteExecution executionId
    else (st.update r fun run => { run with cancelled := true }).settle r

/-- What is chained to `postExecutePromise` in `add`. -/
def cleanUp (r : RunId) (executionId : String) (st : ActiveExecutions) : ActiveExecutions :=
  let st := (st.release r).update r fun run => { run with cleanedUp := true }
  if (st.runs r).status = .waiting then st else st.deleteExecution executionId

/-! ### One step -/

inductive Event where
  | add (mode : WorkflowExecuteMode) (maybeExecutionId : Option String)
  /-- `executionPersistence.create` has returned an id, or has failed. -/
  | created (r : RunId) (executionId : Option String)
  /-- There is capacity for a run, or reserving it has failed. -/
  | reserved (r : RunId) (executionId : String) (resumes ok : Bool)
  /-- `setRunning` has returned, or has failed. -/
  | setRunning (r : RunId) (executionId : String) (ok : Bool)
  /-- `updateExistingExecution` has returned whether it has updated the execution, or has
  failed. -/
  | updated (r : RunId) (executionId : String) (updateSucceeded : Option Bool)
  | setStatus (executionId : String) (status : ExecutionStatus)
  /-- A run comes to its `finalizeExecution`. -/
  | finalize (r : RunId) (executionId : String)
  /-- A run that was cancelled ends without `finalizeExecution`. -/
  | quit (r : RunId)
  | stop (executionId : String)
  /-- What is chained to a settled promise runs. -/
  | cleanUp (r : RunId) (executionId : String)
  deriving DecidableEq, Repr

def step? (st : ActiveExecutions) : Event → Option ActiveExecutions
  | .add mode maybeExecutionId => some (st.add mode maybeExecutionId)
  | .created r executionId =>
    if (st.runs r).phase = .creating then some (st.created r executionId) else none
  | .reserved r executionId resumes ok =>
    if (st.runs r).phase = .reserving executionId resumes then
      some (if ok then st.reserved r executionId resumes else st.fail r)
    else none
  | .setRunning r executionId ok =>
    if (st.runs r).phase = .settingRunning executionId then
      some (if ok then st.register r executionId .running else st.fail r)
    else none
  | .updated r executionId updateSucceeded =>
    if (st.runs r).phase = .updating executionId then
      some (st.updated r executionId (updateSucceeded.getD false))
    else none
  | .setStatus executionId status => some (st.setStatus executionId status)
  | .finalize r executionId =>
    if (st.runs r).phase = .added executionId ∧ (st.runs r).running then
      some ((st.update r fun run => { run with running := false }).finalizeExecution r executionId)
    else none
  | .quit r =>
    if (st.runs r).cancelled ∧ (st.runs r).running then
      some (st.update r fun run => { run with running := false })
    else none
  | .stop executionId => some (st.stopExecution executionId)
  | .cleanUp r executionId =>
    if (st.runs r).phase = .added executionId ∧ (st.runs r).settled ∧
        ¬(st.runs r).cleanedUp then
      some (st.cleanUp r executionId)
    else none

def Step (st : ActiveExecutions) (e : Event) (st' : ActiveExecutions) : Prop :=
  st.step? e = some st'

end ActiveExecutions

end N8n
