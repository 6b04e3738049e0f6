import Mathlib.Data.List.Basic
import N8n.Foundations.InsertionMap
import N8n.Foundations.InsertionSet
import N8n.TaskRunners.Messages

/-!
# The task broker

`TaskBroker` matches task requests with the offers of task runners and follows each task
until its requester has the result. Its handlers are asynchronous: a handler runs without
interruption up to its next `await`, and any other handler may run before it goes on. The
state therefore holds, next to the fields of the class, what the runtime keeps for it: the
armed timers, the promises of `acceptOffer` that are settled, and the handlers that are
suspended, each with the local variables the rest of it needs. A handler that has nothing
left to do after its last `await` is not kept.

A timer is named by what it does when it fires, and a promise by the task it belongs to:
the code arms at most one timer, and makes at most one promise, of each kind for each
request and task. Message callbacks return; what they are called with is the history of
messages sent. `step?` is one step: a message, a timer, a connection that opens or closes,
or a suspended handler that goes on, in any order.
-/

namespace N8n

open BrokerMessage

/-- A registered task runner. -/
structure TaskBroker.TaskRunner where
  id : String
  taskTypes : List String := []
  deriving DecidableEq, Repr

structure TaskBroker.Task where
  id : NanoId
  runnerId : String
  requesterId : String
  taskType : String
  deriving DecidableEq, Repr

/-- An offer of a runner; `validFor = -1` is an offer that does not expire. -/
structure TaskBroker.TaskOffer where
  offerId : NanoId
  runnerId : String
  taskType : String
  validFor : ℤ
  validUntil : ℤ
  deriving DecidableEq, Repr

structure TaskBroker.TaskRequest where
  requestId : NanoId
  requesterId : String
  taskType : String
  acceptInProgress : Bool := false
  deriving DecidableEq, Repr

/-- The timers the broker arms, named by what they do. -/
inductive TaskBroker.Timer where
  /-- `request.timeout`: `handleRequestTimeout(requestId)`. -/
  | request (requestId : NanoId)
  /-- The runner takes too long to answer `taskofferaccept`. -/
  | runnerAccept (taskId : NanoId)
  /-- The requester takes too long to send settings. -/
  | requesterAccept (taskId : NanoId)
  /-- `task.timeout`: `handleTaskTimeout(taskId)`. -/
  | task (taskId : NanoId)
  deriving DecidableEq, Repr

/-- How the promise that waits for the runner's answer is settled. -/
inductive TaskBroker.RunnerAnswer where
  | accepted
  /-- `TaskRejectError`. -/
  | rejected (reason : String)
  /-- `TaskDeferredError`. -/
  | deferred
  /-- `TaskRunnerAcceptTimeoutError`. -/
  | timedOut
  deriving DecidableEq, Repr

/-- How the promise that waits for the requester's settings is settled. -/
inductive TaskBroker.RequesterAnswer where
  | accepted (settings : JsonValue)
  /-- `TaskRejectError`. -/
  | rejected (reason : String)
  /-- `'Requester timed out'`. -/
  | timedOut
  deriving DecidableEq, Repr

/-- What `getRunnerOrFailTask` resolves or rejects with. -/
inductive TaskBroker.RunnerOrFailure where
  | runner (runner : TaskBroker.TaskRunner)
  | failed (error : TaskFailure)
  deriving DecidableEq, Repr

open TaskBroker in
/-- The handlers that can be suspended, named by the `await` they are at. -/
inductive TaskBroker.Suspended where
  /-- `acceptOffer`, at `messageRunner` with `taskofferaccept`. -/
  | offerSent (taskId : NanoId) (offer : TaskOffer) (request : TaskRequest)
  /-- `acceptOffer`, at the promise the runner's answer settles. -/
  | awaitingRunner (taskId : NanoId) (offer : TaskOffer) (request : TaskRequest)
  /-- `acceptOffer`, at `messageRequester` with `taskready`. -/
  | readySent (taskId : NanoId)
  /-- `acceptOffer`, at the promise the requester's settings settle. -/
  | awaitingSettings (taskId : NanoId)
  /-- `sendTaskSettings`, at `getRunnerOrFailTask`. -/
  | sendingSettings (taskId : NanoId) (settings : JsonValue) (runner : RunnerOrFailure)
  /-- The handler of a response to the runner, at `getRunnerOrFailTask`. -/
  | responding (runner : RunnerOrFailure) (message : ToRunner)
  /-- `taskDoneHandler` or `taskErrorHandler`, at the callback of the requester, which it
  has called if the requester is registered. -/
  | ending (taskId : NanoId) (called : Bool)
  /-- `handleTaskTimeout`, at `messageRunner` with `taskcancel`. -/
  | timedOut (taskId : NanoId)
  deriving DecidableEq, Repr

open TaskBroker in
structure TaskBroker where
  knownRunners : InsertionMap String TaskRunner := .empty
  /-- The registered requesters, each with its message callback. -/
  requesters : InsertionSet String := .empty
  tasks : InsertionMap NanoId Task := .empty
  isDraining : Bool := false
  /-- The tasks with callbacks for the runner's answer. -/
  runnerAcceptRejects : InsertionSet NanoId := .empty
  /-- The tasks with callbacks for the requester's answer. -/
  requesterAcceptRejects : InsertionSet NanoId := .empty
  pendingTaskOffers : List TaskOffer := []
  pendingTaskRequests : List TaskRequest := []
  mode : TaskRunnerMode := .internal
  taskTimeout : ℕ := 300
  isSelfHosted : Bool := true
  /-- `process.hrtime.bigint()`. -/
  now : ℤ := 0
  /-- The number of the next id that `nanoid` makes. -/
  nextId : NanoId := 0
  timers : List Timer := []
  runnerAnswers : InsertionMap NanoId RunnerAnswer := .empty
  requesterAnswers : InsertionMap NanoId RequesterAnswer := .empty
  suspended : List Suspended := []
  /-- History: the messages handed to runners. -/
  toRunners : List (String × ToRunner) := []
  /-- History: the messages handed to requesters. -/
  toRequesters : List (String × ToRequester) := []
  /-- History: the ids of the requests received. -/
  requested : List NanoId := []
  /-- History: the offers received. -/
  offered : List TaskOffer := []
  /-- History: the calls of `acceptOffer`, each with the id of its task. -/
  matched : List (NanoId × TaskOffer × TaskRequest) := []
  deriving DecidableEq, Repr

namespace TaskBroker

/-- A broker at its start. -/
def new (mode : TaskRunnerMode) (taskTimeout : ℕ) (isSelfHosted : Bool) : TaskBroker :=
  { mode, taskTimeout, isSelfHosted }

/-! ### What the runtime does for a handler -/

def setTimeout (timer : Timer) (st : TaskBroker) : TaskBroker :=
  { st with timers := st.timers ++ [timer] }

def clearTimeout (timer : Timer) (st : TaskBroker) : TaskBroker :=
  { st with timers := st.timers.filter (· ≠ timer) }

def suspend (handler : Suspended) (st : TaskBroker) : TaskBroker :=
  { st with suspended := st.suspended ++ [handler] }

/-- Settle the promise for the runner's answer. A settled promise stays as it is. -/
def settleRunnerAnswer (taskId : NanoId) (answer : RunnerAnswer) (st : TaskBroker) :
    TaskBroker :=
  { st with runnerAnswers :=
      if st.runnerAnswers.has taskId then st.runnerAnswers
      else st.runnerAnswers.set taskId answer }

/-- Settle the promise for the requester's answer. A settled promise stays as it is. -/
def settleRequesterAnswer (taskId : NanoId) (answer : RequesterAnswer) (st : TaskBroker) :
    TaskBroker :=
  { st with requesterAnswers :=
      if st.requesterAnswers.has taskId then st.requesterAnswers
      else st.requesterAnswers.set taskId answer }

/-- `messageRunner(runnerId, message)`, up to the `await`. -/
def messageRunner (runnerId : String) (message : ToRunner) (st : TaskBroker) : TaskBroker :=
  { st with toRunners :=
      if st.knownRunners.has runnerId then st.toRunners ++ [(runnerId, message)]
      else st.toRunners }

/-- `messageRequester(requesterId, message)`, up to the `await`; also the call
`requesters.get(requesterId)?.(message)`. -/
def messageRequester (requesterId : String) (message : ToRequester) (st : TaskBroker) :
    TaskBroker :=
  { st with toRequesters :=
      if requesterId ∈ st.requesters then st.toRequesters ++ [(requesterId, message)]
      else st.toRequesters }

/-! ### Runners, requesters and requests -/

def createRequestTimeout (requestId : NanoId) (st : TaskBroker) : TaskBroker :=
  st.setTimeout (.request requestId)

/-- Splice the first request with an id out of the pending ones. -/
def takeRequest (requestId : NanoId) (st : TaskBroker) : TaskBroker :=
  { st with pendingTaskRequests :=
      st.pendingTaskRequests.eraseP fun r => r.requestId = requestId }

/-- `handleRequestTimeout(requestId)`: the request is taken out and expires. -/
def handleRequestTimeout (requestId : NanoId) (st : TaskBroker) : TaskBroker :=
  match st.pendingTaskRequests.find? fun r => r.requestId = requestId with
  | none => st
  | some request =>
    ((st.takeRequest requestId).clearTimeout (.request request.requestId)).messageRequester
      request.requesterId (.requestExpired request.requestId .timeout)

/-- `expireTasks()`: drop the offers whose time is over. -/
def expireTasks (st : TaskBroker) : TaskBroker :=
  { st with pendingTaskOffers :=
      st.pendingTaskOffers.filter fun offer => offer.validFor = -1 ∨ ¬offer.validUntil < st.now }

def registerRunner (runner : TaskRunner) (st : TaskBroker) : TaskBroker :=
  ({ st with knownRunners := st.knownRunners.set runner.id runner } : TaskBroker).messageRunner
    runner.id .runnerRegistered

def registerRequester (requesterId : String) (st : TaskBroker) : TaskBroker :=
  { st with requesters := st.requesters.add requesterId }

def deregisterRequester (requesterId : String) (st : TaskBroker) : TaskBroker :=
  { st with requesters := st.requesters.erase requesterId }

/-! ### The answers of runners and requesters -/

def handleRunnerAccept (taskId : NanoId) (st : TaskBroker) : TaskBroker :=
  if taskId ∈ st.runnerAcceptRejects then
    { st.settleRunnerAnswer taskId .accepted with
      runnerAcceptRejects := st.runnerAcceptRejects.erase taskId }
  else st

def handleRunnerReject (taskId : NanoId) (reason : String) (st : TaskBroker) : TaskBroker :=
  if taskId ∈ st.runnerAcceptRejects then
    { st.settleRunnerAnswer taskId (.rejected reason) with
      runnerAcceptRejects := st.runnerAcceptRejects.erase taskId }
  else st

def handleRunnerDeferred (taskId : NanoId) (st : TaskBroker) : TaskBroker :=
  if taskId ∈ st.runnerAcceptRejects then
    { st.settleRunnerAnswer taskId .deferred with
      runnerAcceptRejects := st.runnerAcceptRejects.erase taskId }
  else st

def handleRequesterAccept (taskId : NanoId) (settings : JsonValue) (st : TaskBroker) :
    TaskBroker :=
  if taskId ∈ st.requesterAcceptRejects then
    { st.settleRequesterAnswer taskId (.accepted settings) with
      requesterAcceptRejects := st.requesterAcceptRejects.erase taskId }
  else st

/-! ### The end of a task -/

/-- `tasks.delete(taskId)`. -/
def deleteTask (taskId : NanoId) (st : TaskBroker) : TaskBroker :=
  { st with tasks := st.tasks.erase taskId }

/-- `cancelTask(taskId, reason)`, up to its `await`. -/
def cancelTask (taskId : NanoId) (reason : String) (st : TaskBroker) : TaskBroker :=
  match st.tasks.get? taskId with
  | none => st
  | some task =>
    (st.deleteTask taskId).messageRunner task.runnerId (.taskCancel taskId reason)

/-- `failTask(taskId, error)`, up to its `await`. -/
def failTask (taskId : NanoId) (error : TaskFailure) (st : TaskBroker) : TaskBroker :=
  match st.tasks.get? taskId with
  | none => st
  | some task =>
    (st.deleteTask taskId).messageRequester task.requesterId (.taskError taskId error)

/-- `taskDoneHandler` and `taskErrorHandler` up to their `await`: the message is sent while
the task is still there. -/
def endTask (taskId : NanoId) (message : ToRequester) (st : TaskBroker) : TaskBroker :=
  match st.tasks.get? taskId with
  | none => st
  | some task =>
    ((st.clearTimeout (.task taskId)).messageRequester task.requesterId message).suspend
      (.ending taskId (task.requesterId ∈ st.requesters))

def taskDoneHandler (taskId : NanoId) (data : JsonValue) (st : TaskBroker) : TaskBroker :=
  st.endTask taskId (.taskDone taskId data)

def taskErrorHandler (taskId : NanoId) (error : TaskFailure) (st : TaskBroker) : TaskBroker :=
  st.endTask taskId (.taskError taskId error)

/-- The rest of `handleTaskTimeout`, from `taskErrorHandler` on. -/
def timeoutError (taskId : NanoId) (st : TaskBroker) : TaskBroker :=
  st.taskErrorHandler taskId (.executionTimeout st.taskTimeout st.isSelfHosted st.mode)

/-- `handleTaskTimeout(taskId)`: an internal runner is restarted (by whoever listens to the
event), an external one is told to cancel the task. -/
def handleTaskTimeout (taskId : NanoId) (st : TaskBroker) : TaskBroker :=
  match st.tasks.get? taskId with
  | none => st
  | some task =>
    match st.mode with
    | .internal => st.timeoutError taskId
    | .external =>
      (st.messageRunner task.runnerId (.taskCancel taskId "Task execution timed out")).suspend
        (.timedOut taskId)

/-- One round of the loop of `deregisterRunner`. -/
def failTaskOf (runnerId error : String) (st : TaskBroker) (task : Task) : TaskBroker :=
  if task.runnerId = runnerId then
    (st.failTask task.id (.error error)).handleRunnerReject task.id
      s!"The Task Runner ({runnerId}) has disconnected: {error}"
  else st

/-- `deregisterRunner(runnerId, error)`: the offers of the runner go, its tasks fail. -/
def deregisterRunner (runnerId : String) (error : String) (st : TaskBroker) : TaskBroker :=
  st.tasks.values.foldl (failTaskOf runnerId error)
    { st with
      knownRunners := st.knownRunners.erase runnerId
      pendingTaskOffers := st.pendingTaskOffers.filter fun offer => offer.runnerId ≠ runnerId }

/-- `getRunnerOrFailTask(taskId)`: the runner of a task, which fails when the runner is not
known. -/
def getRunnerOrFailTask (taskId : NanoId) (st : TaskBroker) : TaskBroker × RunnerOrFailure :=
  match st.tasks.get? taskId with
  | none => (st, .failed (.error s!"Cannot find runner, failed to find task ({taskId})"))
  | some task =>
    match st.knownRunners.get? task.runnerId with
    | none =>
      let error := TaskFailure.error
        s!"Cannot find runner, failed to find runner ({task.runnerId})"
      (st.failTask taskId error, .failed error)
    | some runner => (st, .runner runner)

/-! ### The handshake -/

/-- Make the id of a new task and store the callbacks for the runner's answer. -/
def newTaskId (offer : TaskOffer) (request : TaskRequest) (st : TaskBroker) : TaskBroker :=
  { st with
    nextId := st.nextId + 1
    runnerAcceptRejects := st.runnerAcceptRejects.add st.nextId
    matched := st.matched ++ [(st.nextId, offer, request)] }

/-- `acceptOffer(offer, request)`, up to its first `await`. -/
def acceptOffer (offer : TaskOffer) (request : TaskRequest) (st : TaskBroker) : TaskBroker :=
  let taskId := st.nextId
  (((st.newTaskId offer request).setTimeout (.runnerAccept taskId)).messageRunner offer.runnerId
    (.taskOfferAccept offer.offerId taskId)).suspend (.offerSent taskId offer request)

/-- Assign `acceptInProgress` of a request object, in the list of pending requests if it is
still there. -/
def setAcceptInProgress (requestId : NanoId) (value : Bool) (st : TaskBroker) : TaskBroker :=
  { st with pendingTaskRequests := st.pendingTaskRequests.map fun r =>
      if r.requestId = requestId then { r with acceptInProgress := value } else r }

/-- Splice the first offer of a task type out of the pending ones. -/
def takeOffer (taskType : String) (st : TaskBroker) : TaskBroker :=
  { st with pendingTaskOffers := st.pendingTaskOffers.eraseP fun o => o.taskType = taskType }

/-- One round of the loop of `settleTasks`. -/
def settleRequest (st : TaskBroker) (request : TaskRequest) : TaskBroker :=
  if request.acceptInProgress then st
  else
    match st.pendingTaskOffers.find? fun o => o.taskType = request.taskType with
    | none => st
    | some offer =>
      ((st.setAcceptInProgress request.requestId true).takeOffer request.taskType).acceptOffer
        offer { request with acceptInProgress := true }

/-- `settleTasks()`: match each waiting request with the first offer of its type. -/
def settleTasks (st : TaskBroker) : TaskBroker :=
  st.pendingTaskRequests.foldl settleRequest st.expireTasks

/-- `taskRequested(request)`, whose timer is armed before the call. -/
def taskRequested (request : TaskRequest) (st : TaskBroker) : TaskBroker :=
  if st.isDraining then
    (st.clearTimeout (.request request.requestId)).messageRequester request.requesterId
      (.requestExpired request.requestId .draining)
  else
    ({ st with pendingTaskRequests := st.pendingTaskRequests ++ [request] }
      : TaskBroker).settleTasks

def taskOffered (offer : TaskOffer) (st : TaskBroker) : TaskBroker :=
  ({ st with
      pendingTaskOffers := st.pendingTaskOffers ++ [offer]
      offered := st.offered ++ [offer] } : TaskBroker).settleTasks

/-- `tasks.set(task.id, task)`. -/
def setTask (task : Task) (st : TaskBroker) : TaskBroker :=
  { st with tasks := st.tasks.set task.id task }

/-- Store the callbacks for the requester's answer. -/
def expectSettings (taskId : NanoId) (st : TaskBroker) : TaskBroker :=
  { st with requesterAcceptRejects := st.requesterAcceptRejects.add taskId }

/-- `acceptOffer` once the runner has accepted: the task exists from here on. -/
def runnerAccepted (taskId : NanoId) (offer : TaskOffer) (request : TaskRequest)
    (st : TaskBroker) : TaskBroker :=
  let st := (st.clearTimeout (.request request.requestId)).setTask
    { id := taskId, taskType := offer.taskType, runnerId := offer.runnerId,
      requesterId := request.requesterId }
  if st.pendingTaskRequests.any fun r => r.requestId = request.requestId then
    let st := ((st.takeRequest request.requestId).expectSettings taskId).setTimeout
      (.requesterAccept taskId)
    (st.messageRequester request.requesterId (.taskReady request.requestId taskId)).suspend
      (.readySent taskId)
  else
    -- "This shouldn't happen, and might be a race condition."
    st

/-- `acceptOffer` after the promise for the runner's answer is settled. -/
def runnerAnswered (taskId : NanoId) (offer : TaskOffer) (request : TaskRequest)
    (answer : RunnerAnswer) (st : TaskBroker) : TaskBroker :=
  match answer with
  | .accepted => st.runnerAccepted taskId offer request
  | .rejected _ | .timedOut => st.setAcceptInProgress request.requestId false
  | .deferred =>
    ((st.setAcceptInProgress request.requestId false).clearTimeout
      (.request request.requestId)).createRequestTimeout request.requestId

/-- `sendTaskSettings(taskId, settings)`, up to its first `await`. -/
def sendTaskSettings (taskId : NanoId) (settings : JsonValue) (st : TaskBroker) : TaskBroker :=
  if st.tasks.has taskId then
    let r := st.getRunnerOrFailTask taskId
    r.1.suspend (.sendingSettings taskId settings r.2)
  else st

/-- The rest of `sendTaskSettings`: the timer of the task is armed and the settings go to
its runner. -/
def settingsToRunner (taskId : NanoId) (settings : JsonValue) (runner : TaskRunner)
    (st : TaskBroker) : TaskBroker :=
  match st.tasks.get? taskId with
  | none => st
  | some _ =>
    (st.setTimeout (.task taskId)).messageRunner runner.id (.taskSettings taskId settings)

/-- `acceptOffer` after the promise for the requester's settings is settled. -/
def requesterAnswered (taskId : NanoId) (answer : RequesterAnswer) (st : TaskBroker) :
    TaskBroker :=
  match answer with
  | .accepted settings => st.sendTaskSettings taskId settings
  | .rejected reason => st.cancelTask taskId reason
  | .timedOut => st.cancelTask taskId "Unknown reason"

/-- The handlers of responses to a runner, up to their `await`. -/
def respond (taskId : NanoId) (message : ToRunner) (st : TaskBroker) : TaskBroker :=
  if st.tasks.has taskId then
    let r := st.getRunnerOrFailTask taskId
    r.1.suspend (.responding r.2 message)
  else st

/-- The handlers of requests that a running task makes of its requester. -/
def askRequester (taskId : NanoId) (message : ToRequester) (st : TaskBroker) : TaskBroker :=
  match st.tasks.get? taskId with
  | none => st
  | some task => st.messageRequester task.requesterId message

/-! ### One step -/

/-- `onRunnerMessage(runnerId, message)`, up to its first `await`. -/
def onRunnerMessage (runnerId : String) (message : RunnerMessage.ToBroker) (st : TaskBroker) :
    TaskBroker :=
  if st.knownRunners.has runnerId then
    match message with
    | .taskAccepted taskId => st.handleRunnerAccept taskId
    | .taskRejected taskId reason => st.handleRunnerReject taskId reason
    | .taskDeferred taskId => st.handleRunnerDeferred taskId
    | .taskOffer offerId taskType validFor =>
      st.taskOffered
        { offerId, runnerId, taskType, validFor,
          validUntil := if validFor = -1 then 0 else st.now + validFor * 1000000 }
    | .taskDone taskId data => st.taskDoneHandler taskId data
    | .taskError taskId error => st.taskErrorHandler taskId (.reported error)
    | .taskDataRequest taskId requestId requestParams =>
      st.askRequester taskId (.taskDataRequest taskId requestId requestParams)
    | .nodeTypesRequest taskId requestId requestParams =>
      st.askRequester taskId (.nodeTypesRequest taskId requestId requestParams)
    | .rpc callId taskId name params => st.askRequester taskId (.rpc callId taskId name params)
    | .info _ _ => st
  else st

/-- History: a request with this id was received. -/
def recordRequest (requestId : NanoId) (st : TaskBroker) : TaskBroker :=
  { st with requested := st.requested ++ [requestId] }

/-- `onRequesterMessage(requesterId, message)`, up to its first `await`. -/
def onRequesterMessage (requesterId : String) (message : RequesterMessage.ToBroker)
    (st : TaskBroker) : TaskBroker :=
  match message with
  | .taskSettings taskId settings => st.handleRequesterAccept taskId settings
  | .taskCancel taskId reason => st.cancelTask taskId reason
  | .taskRequest requestId taskType =>
    ((st.recordRequest requestId).createRequestTimeout requestId).taskRequested
      { requestId, requesterId, taskType }
  | .taskDataResponse taskId requestId data =>
    st.respond taskId (.taskDataResponse taskId requestId data)
  | .nodeTypesResponse taskId requestId nodeTypes =>
    st.respond taskId (.nodeTypes taskId requestId nodeTypes)
  | .rpcResponse taskId callId status data =>
    st.respond taskId (.rpcResponse callId taskId status data)

/-- What happens when a timer fires. -/
def fire (timer : Timer) (st : TaskBroker) : TaskBroker :=
  match timer with
  | .request requestId => st.handleRequestTimeout requestId
  | .runnerAccept taskId => st.settleRunnerAnswer taskId .timedOut
  | .requesterAccept taskId => st.settleRequesterAnswer taskId .timedOut
  | .task taskId => st.handleTaskTimeout taskId

/-- A suspended handler goes on, if what it awaits is settled. -/
def resume (handler : Suspended) (st : TaskBroker) : Option TaskBroker :=
  match handler with
  | .offerSent taskId offer request => some (st.suspend (.awaitingRunner taskId offer request))
  | .awaitingRunner taskId offer request =>
    (st.runnerAnswers.get? taskId).map fun answer =>
      st.runnerAnswered taskId offer request answer
  | .readySent taskId => some (st.suspend (.awaitingSettings taskId))
  | .awaitingSettings taskId =>
    (st.requesterAnswers.get? taskId).map fun answer => st.requesterAnswered taskId answer
  | .sendingSettings taskId settings (.runner runner) =>
    some (st.settingsToRunner taskId settings runner)
  | .sendingSettings taskId _ (.failed _) => some (st.cancelTask taskId "Unknown reason")
  | .responding (.runner runner) message => some (st.messageRunner runner.id message)
  | .responding (.failed _) _ => some st
  | .ending taskId _ => some (st.deleteTask taskId)
  | .timedOut taskId => some (st.timeoutError taskId)

/-- What can happen to the broker. -/
inductive Event where
  | registerRunner (runner : TaskRunner)
  | deregisterRunner (runnerId error : String)
  | registerRequester (requesterId : String)
  | deregisterRequester (requesterId : String)
  | runnerMessage (runnerId : String) (message : RunnerMessage.ToBroker)
  | requesterMessage (requesterId : String) (message : RequesterMessage.ToBroker)
  | timer (timer : Timer)
  | resume (handler : Suspended)
  | startDraining
  /-- Time passes. -/
  | tick (now : ℤ)
  deriving DecidableEq, Repr

/-- The id of a request is new: its requester makes it with `nanoid`. -/
def Fresh (st : TaskBroker) : Event → Prop
  | .requesterMessage _ (.taskRequest requestId _) => requestId ∉ st.requested
  | _ => True

instance (st : TaskBroker) (e : Event) : Decidable (st.Fresh e) := by
  rw [Fresh.eq_def]
  split <;> infer_instance

def takeTimer (timer : Timer) (st : TaskBroker) : TaskBroker :=
  { st with timers := st.timers.erase timer }

def takeHandler (handler : Suspended) (st : TaskBroker) : TaskBroker :=
  { st with suspended := st.suspended.erase handler }

/-- One step: what happens, and the state after it. A timer fires once it is armed, a
handler goes on once it is suspended. -/
def step? (st : TaskBroker) : Event → Option TaskBroker
  | .registerRunner runner => some (st.registerRunner runner)
  | .deregisterRunner runnerId error => some (st.deregisterRunner runnerId error)
  | .registerRequester requesterId => some (st.registerRequester requesterId)
  | .deregisterRequester requesterId => some (st.deregisterRequester requesterId)
  | .runnerMessage runnerId message => some (st.onRunnerMessage runnerId message)
  | .requesterMessage requesterId message =>
    if st.Fresh (.requesterMessage requesterId message) then
      some (st.onRequesterMessage requesterId message)
    else none
  | .timer timer =>
    if timer ∈ st.timers then
      some ((st.takeTimer timer).fire timer)
    else none
  | .resume handler =>
    if handler ∈ st.suspended then
      (st.takeHandler handler).resume handler
    else none
  | .startDraining => some { st with isDraining := true }
  | .tick now => if st.now ≤ now then some { st with now } else none

/-- The steps of the broker, as a relation. -/
def Step (st : TaskBroker) (e : Event) (st' : TaskBroker) : Prop := st.step? e = some st'

instance (st : TaskBroker) (e : Event) (st' : TaskBroker) : Decidable (st.Step e st') :=
  inferInstanceAs (Decidable (_ = _))

end TaskBroker

end N8n
