import Mathlib.Data.Rat.Defs
import N8n.Foundations.InsertionMap
import N8n.Workflow.Interfaces

/-!
# Recovery of dangling executions

In queue mode a main inserts an execution in the database as `new` and then adds a job for it to
the queue; a worker makes the job active, loads the execution, sets it to `running`, runs it,
saves how it ended and completes the job, which removes it. The processes may die at any point:
Bull fails (and removes) the job of a worker that has died, and Redis may lose a job.

`recoverFromQueue` reads the ids of executions in progress, then the jobs that are waiting or
active, and marks as crashed the executions it read without a job. These are three calls, and
the processes go on between them.

Resumed executions, which get a second job, are left out.
-/

namespace N8n

/-- `MAX_UPDATE_BATCH_SIZE`. -/
def maxUpdateBatchSize : ℕ := 900

namespace QueueRecovery

abbrev ExecutionId := String

/-- `queueRecoveryContext`, without its timer. -/
structure QueueRecoveryContext where
  batchSize : ℕ
  waitMs : ℚ

/-- Where the job of an execution is. After `waiting` it is active, and its worker is at one of
the calls of `processJob`. -/
inductive JobPhase where
  | waiting
  /-- At `findSingleExecution`. -/
  | loading
  /-- At `setRunning`. -/
  | settingRunning
  | executing
  /-- `processJob` has returned. -/
  | completing
  deriving DecidableEq, Repr

/-- Where a call of `recoverFromQueue` is. -/
inductive Recovery where
  /-- None is in progress; the last one returned the time until the next cycle. -/
  | idle (nextWaitMs : Option ℚ)
  /-- At `getInProgressExecutionIds`. -/
  | findingExecutions
  /-- At `findJobsByStatus`. -/
  | findingJobs (storedIds : List ExecutionId)
  /-- At `markAsCrashed`, with the ids that it has not marked yet. -/
  | marking (storedIds danglingIds : List ExecutionId)
  deriving DecidableEq, Repr

end QueueRecovery

open QueueRecovery in
structure QueueRecovery where
  /-- The executions in the database. -/
  executions : InsertionMap ExecutionId ExecutionStatus := .empty
  /-- The executions whose process is between inserting them and adding their job. -/
  enqueuing : List ExecutionId := []
  /-- The jobs that are waiting or active, by the execution in their data. -/
  jobs : InsertionMap ExecutionId JobPhase := .empty
  recovery : Recovery := .idle none

namespace QueueRecovery

/-! ### Executions and jobs -/

/-- What `getInProgressExecutionIds` looks for. -/
def InProgress (status : ExecutionStatus) : Prop := status = .new ∨ status = .running

instance : DecidablePred InProgress := fun _ => inferInstanceAs (Decidable (_ ∨ _))

/-- How an execution can end. -/
def Ends (status : ExecutionStatus) : Prop :=
  status = .success ∨ status = .error ∨ status = .canceled ∨ status = .waiting

instance : DecidablePred Ends := fun _ => inferInstanceAs (Decidable (_ ∨ _))

def setStatus (id : ExecutionId) (status : ExecutionStatus) (st : QueueRecovery) :
    QueueRecovery :=
  { st with executions := st.executions.set id status }

def setPhase (id : ExecutionId) (phase : JobPhase) (st : QueueRecovery) : QueueRecovery :=
  { st with jobs := st.jobs.set id phase }

/-- The process that inserted an execution is done with enqueuing it. -/
def enqueued (id : ExecutionId) (st : QueueRecovery) : QueueRecovery :=
  { st with enqueuing := st.enqueuing.erase id }

/-- `processJob(job)`, when it has loaded the execution: a crashed one is not processed. -/
def loaded (id : ExecutionId) (status : ExecutionStatus) (st : QueueRecovery) : QueueRecovery :=
  if status = .crashed then st.setPhase id .completing else st.setPhase id .settingRunning

/-! ### Recovery -/

/-- The ids of the executions in progress. The database orders them by `startedAt`; where it puts
executions that have not started depends on the database. -/
def inProgressIds (st : QueueRecovery) : List ExecutionId :=
  (st.executions.filter fun _ status => InProgress status).keys

/-- `recoverFromQueue()`, after its first call has returned `storedIds`. -/
def foundExecutions (context : QueueRecoveryContext) (storedIds : List ExecutionId)
    (st : QueueRecovery) : QueueRecovery :=
  if storedIds.length = 0 then { st with recovery := .idle (some context.waitMs) }
  else { st with recovery := .findingJobs storedIds }

/-- The executions that were read and have no job. -/
def danglingIds (storedIds : List ExecutionId) (st : QueueRecovery) : List ExecutionId :=
  storedIds.filter fun id => !st.jobs.has id

/-- `recoverFromQueue()`, after its second call. -/
def foundJobs (context : QueueRecoveryContext) (storedIds : List ExecutionId)
    (st : QueueRecovery) : QueueRecovery :=
  if (st.danglingIds storedIds).length = 0 then
    { st with recovery := .idle (some context.waitMs) }
  else { st with recovery := .marking storedIds (st.danglingIds storedIds) }

/-- The update of one batch of `markAsCrashed(executionIds)`. -/
def crash (batch : List ExecutionId) (st : QueueRecovery) : QueueRecovery :=
  { st with
    executions := batch.foldl (fun executions id => executions.set id .crashed) st.executions }

/-- One round of the loop of `markAsCrashed`; after the last one `recoverFromQueue` returns. -/
def markBatch (context : QueueRecoveryContext) (storedIds ids : List ExecutionId)
    (st : QueueRecovery) : QueueRecovery :=
  { st.crash (ids.take maxUpdateBatchSize) with
    recovery :=
      if (ids.drop maxUpdateBatchSize).length = 0 then
        -- a full batch speeds up the next cycle
        .idle (some (if context.batchSize ≤ storedIds.length then context.waitMs / 2
          else context.waitMs))
      else .marking storedIds (ids.drop maxUpdateBatchSize) }

/-! ### Steps -/

inductive Event where
  /-- `activeExecutions.add`. -/
  | insert (id : ExecutionId)
  | addJob (id : ExecutionId)
  /-- The execution ends with an error before it has a job. -/
  | enqueueFails (id : ExecutionId)
  /-- The process that inserted the execution dies before it has added the job. -/
  | processDies (id : ExecutionId)
  /-- A worker takes the job. -/
  | jobActive (id : ExecutionId)
  /-- `findSingleExecution` returns. -/
  | executionLoaded (id : ExecutionId)
  | setRunning (id : ExecutionId)
  /-- The execution ends, and its status is saved. -/
  | executed (id : ExecutionId) (status : ExecutionStatus)
  | jobCompleted (id : ExecutionId)
  /-- Redis loses the job, or Bull fails it because its worker has died. -/
  | jobLost (id : ExecutionId)
  | recoverFromQueue
  /-- The first read, with the order in which the database has the executions in progress. -/
  | executionsFound (order : List ExecutionId)
  | jobsFound
  | batchMarked
  /-- A call of `recoverFromQueue` throws. -/
  | recoveryFailed
  deriving DecidableEq, Repr

def step? (context : QueueRecoveryContext) (st : QueueRecovery) : Event → Option QueueRecovery
  | .insert id =>
    if st.executions.has id then none
    else some { st.setStatus id .new with enqueuing := id :: st.enqueuing }
  | .addJob id =>
    if id ∈ st.enqueuing then some ((st.enqueued id).setPhase id .waiting) else none
  | .enqueueFails id =>
    if id ∈ st.enqueuing then some ((st.enqueued id).setStatus id .error) else none
  | .processDies id => if id ∈ st.enqueuing then some (st.enqueued id) else none
  | .jobActive id =>
    if st.jobs.get? id = some .waiting then some (st.setPhase id .loading) else none
  | .executionLoaded id =>
    if st.jobs.get? id = some .loading then
      (st.executions.get? id).map fun status => st.loaded id status
    else none
  | .setRunning id =>
    if st.jobs.get? id = some .settingRunning then
      some ((st.setStatus id .running).setPhase id .executing)
    else none
  | .executed id status =>
    if st.jobs.get? id = some .executing ∧ Ends status then
      some ((st.setStatus id status).setPhase id .completing)
    else none
  | .jobCompleted id =>
    if st.jobs.get? id = some .completing then some { st with jobs := st.jobs.erase id } else none
  | .jobLost id => if st.jobs.has id then some { st with jobs := st.jobs.erase id } else none
  | .recoverFromQueue =>
    match st.recovery with
    | .idle _ => some { st with recovery := .findingExecutions }
    | _ => none
  | .executionsFound order =>
    match st.recovery with
    | .findingExecutions =>
      if order.Perm st.inProgressIds then
        some (st.foundExecutions context (order.take context.batchSize))
      else none
    | _ => none
  | .jobsFound =>
    match st.recovery with
    | .findingJobs storedIds => some (st.foundJobs context storedIds)
    | _ => none
  | .batchMarked =>
    match st.recovery with
    | .marking storedIds ids => some (st.markBatch context storedIds ids)
    | _ => none
  | .recoveryFailed =>
    match st.recovery with
    | .idle _ => none
    | _ => some { st with recovery := .idle none }

def init : QueueRecovery := {}

abbrev Step (context : QueueRecoveryContext) (st : QueueRecovery) (event : Event)
    (st' : QueueRecovery) : Prop :=
  st.step? context event = some st'

end QueueRecovery

end N8n
