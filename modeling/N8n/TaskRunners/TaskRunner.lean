import Mathlib.Logic.Function.Iterate
import N8n.Foundations.InsertionMap
import N8n.Foundations.InsertionSet
import N8n.TaskRunners.Messages

/-!
# The task runner

`TaskRunner` offers its free slots to the broker, takes tasks and executes them. What a task
does while it is executed (`executeTask`) is not this class: it asks for data, for node types
and for remote calls in any order, and in the end its execution succeeds or fails. The state
holds, next to the fields of the class, what the runtime keeps for it: the armed timers, the
executions in progress, the settled promises and the handlers suspended at one.

Results are JSON values, so that sending them does not throw. The idle timer, which no task
depends on, is left out.
-/

namespace N8n

open BrokerMessage

inductive TaskStatus where
  | waitingForSettings
  | running
  /-- `aborting:cancelled`. -/
  | abortingCancelled
  /-- `aborting:timeout`. -/
  | abortingTimeout
  deriving DecidableEq, Repr

structure TaskState where
  taskId : NanoId
  status : TaskStatus := .waitingForSettings
  deriving DecidableEq, Repr

structure TaskRunner.TaskOffer where
  offerId : NanoId
  validUntil : ℤ
  deriving DecidableEq, Repr

structure TaskRunner.DataRequest where
  taskId : NanoId
  requestId : NanoId
  deriving DecidableEq, Repr

structure TaskRunner.NodeTypesRequest where
  taskId : NanoId
  requestId : NanoId
  deriving DecidableEq, Repr

structure TaskRunner.RPCCall where
  callId : NanoId
  deriving DecidableEq, Repr

/-- The handlers that can be suspended, each at the promise of its request. -/
inductive TaskRunner.Suspended where
  | requestData (requestId : NanoId)
  | requestNodeTypes (requestId : NanoId)
  | makeRpcCall (callId : NanoId)
  deriving DecidableEq, Repr

open TaskRunner in
structure TaskRunner where
  id : String
  name : String
  taskType : String
  maxConcurrency : ℕ
  /-- In seconds. -/
  taskTimeout : ℕ
  canSendOffers : Bool := false
  runningTasks : InsertionMap NanoId TaskState := .empty
  /-- Whether `offerInterval` is armed. -/
  offerInterval : Bool := false
  openOffers : InsertionMap NanoId TaskOffer := .empty
  dataRequests : InsertionMap NanoId DataRequest := .empty
  nodeTypesRequests : InsertionMap NanoId NodeTypesRequest := .empty
  rpcCalls : InsertionMap NanoId RPCCall := .empty
  isShuttingDown : Bool := false
  /-- `process.hrtime.bigint()`. -/
  now : ℤ := 0
  /-- The number of the next id that `nanoid` makes. -/
  nextId : NanoId := 0
  /-- What `randomInt(500)` gives for the offer with an id. -/
  randomInt : NanoId → ℕ := fun _ => 0
  /-- The tasks whose `timeoutTimer` is armed. -/
  timers : List NanoId := []
  /-- The tasks whose `executeTask` has neither succeeded nor failed. -/
  executing : List NanoId := []
  /-- The requests whose promise is settled. -/
  settled : InsertionSet NanoId := .empty
  suspended : List Suspended := []
  /-- History: the messages received. -/
  received : List ToRunner := []
  /-- History: the messages sent. -/
  sent : List RunnerMessage.ToBroker := []
  /-- History: the task states `throwUnexpectedTaskStatus` was called with. -/
  unexpected : List TaskState := []

namespace TaskRunner

/-- A runner at its start. -/
def new (id name taskType : String) (maxConcurrency taskTimeout : ℕ) (randomInt : NanoId → ℕ) :
    TaskRunner :=
  { id, name, taskType, maxConcurrency, taskTimeout, randomInt }

def OFFER_VALID_TIME_MS : ℕ := 5000

def OFFER_VALID_EXTRA_MS : ℕ := 100

/-- Milliseconds to nanoseconds. -/
def msToNs (ms : ℕ) : ℤ := ms * 1000000

def send (message : RunnerMessage.ToBroker) (st : TaskRunner) : TaskRunner :=
  { st with sent := st.sent ++ [message] }

def throwUnexpectedTaskStatus (taskState : TaskState) (st : TaskRunner) : TaskRunner :=
  { st with unexpected := st.unexpected ++ [taskState] }

/-! ### Offers -/

def stopTaskOffers (st : TaskRunner) : TaskRunner :=
  { st with canSendOffers := false, offerInterval := false }

def startTaskOffers (st : TaskRunner) : TaskRunner :=
  { st with canSendOffers := true, offerInterval := true }

def deleteStaleOffers (st : TaskRunner) : TaskRunner :=
  { st with openOffers := st.openOffers.filter fun _ offer => ¬offer.validUntil < st.now }

def deleteOffer (offerId : NanoId) (st : TaskRunner) : TaskRunner :=
  { st with openOffers := st.openOffers.erase offerId }

/-- Open an offer under a new id. -/
def openOffer (validUntil : ℤ) (st : TaskRunner) : TaskRunner :=
  { st with
    nextId := st.nextId + 1
    openOffers := st.openOffers.set st.nextId { offerId := st.nextId, validUntil } }

/-- One round of the loop of `sendOffers`. -/
def sendOffer (st : TaskRunner) : TaskRunner :=
  let offerId := st.nextId
  let validForInMs := OFFER_VALID_TIME_MS + st.randomInt offerId
  (st.openOffer (st.now + msToNs (validForInMs + OFFER_VALID_EXTRA_MS))).send
    (.taskOffer offerId st.taskType validForInMs)

/-- `sendOffers()`: one offer for each slot that is neither in use nor offered. -/
def sendOffers (st : TaskRunner) : TaskRunner :=
  let st := st.deleteStaleOffers
  if st.canSendOffers then
    sendOffer^[st.maxConcurrency - (st.openOffers.size + st.runningTasks.size)] st
  else st

def hasOpenTaskSlots (st : TaskRunner) : Bool := st.runningTasks.size < st.maxConcurrency

/-- A task that waits for its settings is there, with its timer. -/
def addTask (taskId : NanoId) (st : TaskRunner) : TaskRunner :=
  { st with
    runningTasks := st.runningTasks.set taskId { taskId }
    timers := st.timers ++ [taskId] }

def offerAccepted (offerId taskId : NanoId) (st : TaskRunner) : TaskRunner :=
  if st.isShuttingDown then
    st.send (.taskRejected taskId "Runner is shutting down")
  else if ¬st.hasOpenTaskSlots then
    (st.deleteOffer offerId).send
      (.taskRejected taskId "No open task slots - runner already at capacity")
  else
    match st.openOffers.get? offerId with
    | none =>
      st.send (.taskRejected taskId "Offer expired - not accepted within validity window")
    | some _ => ((st.deleteOffer offerId).addTask taskId).send (.taskAccepted taskId)

/-! ### Requests -/

/-- The promise of a request is resolved or rejected. -/
def settle (requestId : NanoId) (st : TaskRunner) : TaskRunner :=
  { st with settled := st.settled.add requestId }

def processDataResponse (requestId : NanoId) (st : TaskRunner) : TaskRunner :=
  match st.dataRequests.get? requestId with
  | none => st
  | some _ => st.settle requestId

def processNodeTypesResponse (requestId : NanoId) (st : TaskRunner) : TaskRunner :=
  match st.nodeTypesRequests.get? requestId with
  | none => st
  | some _ => st.settle requestId

/-- `handleRpcResponse(callId, status, data)`: the status says how the promise is settled. -/
def handleRpcResponse (callId : NanoId) (st : TaskRunner) : TaskRunner :=
  match st.rpcCalls.get? callId with
  | none => st
  | some _ => st.settle callId

def deleteDataRequest (requestId : NanoId) (st : TaskRunner) : TaskRunner :=
  { st with dataRequests := st.dataRequests.erase requestId }

def deleteNodeTypesRequest (requestId : NanoId) (st : TaskRunner) : TaskRunner :=
  { st with nodeTypesRequests := st.nodeTypesRequests.erase requestId }

def deleteRpcCall (callId : NanoId) (st : TaskRunner) : TaskRunner :=
  { st with rpcCalls := st.rpcCalls.erase callId }

/-- `requestNodeTypes(taskId, requestParams)`, up to its `await`. -/
def requestNodeTypes (taskId : NanoId) (requestParams : JsonValue) (st : TaskRunner) :
    TaskRunner :=
  let requestId := st.nextId
  ({ st with
      nextId := st.nextId + 1
      nodeTypesRequests := st.nodeTypesRequests.set requestId { taskId, requestId }
      suspended := st.suspended ++ [.requestNodeTypes requestId] } : TaskRunner).send
    (.nodeTypesRequest taskId requestId requestParams)

/-- `requestData(taskId, requestParams)`, up to its `await`. -/
def requestData (taskId : NanoId) (requestParams : JsonValue) (st : TaskRunner) : TaskRunner :=
  let requestId := st.nextId
  ({ st with
      nextId := st.nextId + 1
      dataRequests := st.dataRequests.set requestId { taskId, requestId }
      suspended := st.suspended ++ [.requestData requestId] } : TaskRunner).send
    (.taskDataRequest taskId requestId requestParams)

/-- `makeRpcCall(taskId, name, params)`, up to its `await`. -/
def makeRpcCall (taskId : NanoId) (name : String) (params : List JsonValue) (st : TaskRunner) :
    TaskRunner :=
  let callId := st.nextId
  ({ st with
      nextId := st.nextId + 1
      rpcCalls := st.rpcCalls.set callId { callId }
      suspended := st.suspended ++ [.makeRpcCall callId] } : TaskRunner).send
    (.rpc callId taskId name params)

/-- One round of the first loop of `cancelTaskRequests`. -/
def cancelDataRequest (taskId : NanoId) (st : TaskRunner) (request : DataRequest) : TaskRunner :=
  if request.taskId = taskId then
    (st.settle request.requestId).deleteDataRequest request.requestId
  else st

/-- One round of the second loop of `cancelTaskRequests`. -/
def cancelNodeTypesRequest (taskId : NanoId) (st : TaskRunner) (request : NodeTypesRequest) :
    TaskRunner :=
  if request.taskId = taskId then
    (st.settle request.requestId).deleteNodeTypesRequest request.requestId
  else st

/-- `cancelTaskRequests(taskId, reason)`: the data and node type requests of the task are
rejected and go. -/
def cancelTaskRequests (taskId : NanoId) (st : TaskRunner) : TaskRunner :=
  let st := st.dataRequests.values.foldl (cancelDataRequest taskId) st
  st.nodeTypesRequests.values.foldl (cancelNodeTypesRequest taskId) st

/-! ### The life of a task -/

def setStatus (taskState : TaskState) (status : TaskStatus) (st : TaskRunner) : TaskRunner :=
  { st with runningTasks := st.runningTasks.set taskState.taskId { taskState with status } }

/-- `taskState.cleanup()` and `runningTasks.delete(taskId)`. -/
def removeTask (taskId : NanoId) (st : TaskRunner) : TaskRunner :=
  { st with
    timers := st.timers.erase taskId
    runningTasks := st.runningTasks.erase taskId }

def finishTask (taskState : TaskState) (st : TaskRunner) : TaskRunner :=
  (st.removeTask taskState.taskId).sendOffers

def taskCancelled (taskId : NanoId) (st : TaskRunner) : TaskRunner :=
  match st.runningTasks.get? taskId with
  | none => st
  | some taskState =>
    match taskState.status with
    | .waitingForSettings => st.finishTask taskState
    | .abortingTimeout | .abortingCancelled => st
    | .running => (st.setStatus taskState .abortingCancelled).cancelTaskRequests taskId

/-- The fields of a `TimeoutError` that are sent. -/
def timeoutError : JsonValue :=
  .obj [("level", .str "error"), ("tags", .obj []), ("description", .str
    ("The task runner was taking too long on this task, so the task was aborted. You can try " ++
      "the following:<br/><br/>1. Optimize your script to prevent long-running tasks, e.g. by " ++
      "processing data in smaller batches.<br/>2. Ensure that all paths in your script are " ++
      "able to terminate, i.e. no infinite loops."))]

def taskTimedOut (taskId : NanoId) (st : TaskRunner) : TaskRunner :=
  match st.runningTasks.get? taskId with
  | none => st
  | some taskState =>
    match taskState.status with
    | .waitingForSettings => (st.send (.taskError taskId timeoutError)).finishTask taskState
    | .abortingTimeout => st.throwUnexpectedTaskStatus taskState
    | .running => (st.setStatus taskState .abortingTimeout).cancelTaskRequests taskId
    | .abortingCancelled => st

/-- `executeTask` is called. -/
def startExecution (taskId : NanoId) (st : TaskRunner) : TaskRunner :=
  { st with executing := st.executing ++ [taskId] }

/-- `receivedSettings(taskId, settings)`, up to the end of the execution. -/
def receivedSettings (taskId : NanoId) (st : TaskRunner) : TaskRunner :=
  match st.runningTasks.get? taskId with
  | none => st
  | some taskState =>
    match taskState.status with
    | .abortingCancelled | .abortingTimeout | .running => st.throwUnexpectedTaskStatus taskState
    | .waitingForSettings => (st.setStatus taskState .running).startExecution taskId

/-- `taskExecutionFailed(taskState, error)`. -/
def taskExecutionFailed (taskState : TaskState) (error : JsonValue) (st : TaskRunner) :
    TaskRunner :=
  match taskState.status with
  | .waitingForSettings => (st.throwUnexpectedTaskStatus taskState).finishTask taskState
  | .abortingCancelled => st.finishTask taskState
  | .abortingTimeout | .running =>
    (st.send (.taskError taskState.taskId error)).finishTask taskState

/-- `taskExecutionSucceeded(taskState, data)`; what it throws goes to `taskExecutionFailed`. -/
def taskExecutionSucceeded (taskState : TaskState) (data : JsonValue) (st : TaskRunner) :
    TaskRunner :=
  match taskState.status with
  | .waitingForSettings =>
    -- The error that was thrown is not sent either.
    ((st.throwUnexpectedTaskStatus taskState).finishTask taskState).taskExecutionFailed
      taskState .null
  | .abortingCancelled => st.finishTask taskState
  | .abortingTimeout | .running =>
    (st.send (.taskDone taskState.taskId data)).finishTask taskState

/-- The execution of a task ends. -/
def endExecution (taskId : NanoId) (st : TaskRunner) : TaskRunner :=
  { st with executing := st.executing.erase taskId }

/-- `receivedSettings` once the execution has ended, with data or with an error. The task
state it holds on to is the one in `runningTasks`. -/
def executionEnded (taskId : NanoId) (result : Except JsonValue JsonValue) (st : TaskRunner) :
    TaskRunner :=
  match st.runningTasks.get? taskId with
  | none => st
  | some taskState =>
    match result with
    | .ok data => st.taskExecutionSucceeded taskState data
    | .error error => st.taskExecutionFailed taskState error

/-! ### One step -/

def onMessage (message : ToRunner) (st : TaskRunner) : TaskRunner :=
  match message with
  | .infoRequest => st.send (.info st.name [st.taskType])
  | .runnerRegistered => st.startTaskOffers
  | .taskOfferAccept offerId taskId => st.offerAccepted offerId taskId
  | .taskCancel taskId _ => st.taskCancelled taskId
  | .taskSettings taskId _ => st.receivedSettings taskId
  | .taskDataResponse _ requestId _ => st.processDataResponse requestId
  | .rpcResponse callId _ _ _ => st.handleRpcResponse callId
  | .nodeTypes _ requestId _ => st.processNodeTypesResponse requestId
  | .drain => st.stopTaskOffers

/-- A message comes. -/
def receiveMessage (message : ToRunner) (st : TaskRunner) : TaskRunner :=
  ({ st with received := st.received ++ [message] } : TaskRunner).onMessage message

/-- `stop()`, up to its first `await`. -/
def stop (st : TaskRunner) : TaskRunner :=
  { ({ st with isShuttingDown := true } : TaskRunner).stopTaskOffers with openOffers := .empty }

/-- The promise a handler is suspended at. -/
def Suspended.promise : Suspended → NanoId
  | .requestData requestId | .requestNodeTypes requestId | .makeRpcCall requestId => requestId

/-- A suspended handler goes on: its request goes. -/
def resume (handler : Suspended) (st : TaskRunner) : TaskRunner :=
  match handler with
  | .requestData requestId => st.deleteDataRequest requestId
  | .requestNodeTypes requestId => st.deleteNodeTypesRequest requestId
  | .makeRpcCall callId => st.deleteRpcCall callId

/-- What can happen to the runner, apart from messages. -/
inductive Event where
  /-- The interval of `startTaskOffers` elapses. -/
  | interval
  | timer (taskId : NanoId)
  | executionEnded (taskId : NanoId) (result : Except JsonValue JsonValue)
  | requestNodeTypes (taskId : NanoId) (requestParams : JsonValue)
  | requestData (taskId : NanoId) (requestParams : JsonValue)
  | makeRpcCall (taskId : NanoId) (name : String) (params : List JsonValue)
  | resume (handler : Suspended)
  | stop
  | connectionClose
  /-- Time passes. -/
  | tick (now : ℤ)

def takeTimer (taskId : NanoId) (st : TaskRunner) : TaskRunner :=
  { st with timers := st.timers.erase taskId }

def takeHandler (handler : Suspended) (st : TaskRunner) : TaskRunner :=
  { st with suspended := st.suspended.erase handler }

/-- One step that is not a message. A timer fires once it is armed, a task asks for something
while it is executed, and a handler goes on once its promise is settled. -/
def step? (st : TaskRunner) : Event → Option TaskRunner
  | .interval => if st.offerInterval then some st.sendOffers else none
  | .timer taskId =>
    if taskId ∈ st.timers then some ((st.takeTimer taskId).taskTimedOut taskId) else none
  | .executionEnded taskId result =>
    if taskId ∈ st.executing then some ((st.endExecution taskId).executionEnded taskId result)
    else none
  | .requestNodeTypes taskId requestParams =>
    if taskId ∈ st.executing then some (st.requestNodeTypes taskId requestParams) else none
  | .requestData taskId requestParams =>
    if taskId ∈ st.executing then some (st.requestData taskId requestParams) else none
  | .makeRpcCall taskId name params =>
    if taskId ∈ st.executing then some (st.makeRpcCall taskId name params) else none
  | .resume handler =>
    if handler ∈ st.suspended ∧ handler.promise ∈ st.settled then
      some ((st.takeHandler handler).resume handler)
    else none
  | .stop => some st.stop
  | .connectionClose => some st.stopTaskOffers
  | .tick now => if st.now ≤ now then some { st with now } else none

end TaskRunner

end N8n
