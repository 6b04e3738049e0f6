import N8n.Foundations.JsonValue

/-!
# The messages of the task runner protocol

A requester asks the broker for a task, the broker matches the request with the offer of a
runner, and from then on passes settings, results, data requests and remote calls between
the two. Payloads that no party looks into are JSON values.
-/

namespace N8n

/-- An id made by `nanoid()`. No two calls make the same one: ids are numbered. -/
abbrev NanoId := ℕ

/-- How the task runners are started, `TaskRunnersConfig.mode`. -/
inductive TaskRunnerMode where
  | internal
  | external
  deriving DecidableEq, Repr

/-- The errors the broker passes on to a requester. -/
inductive TaskFailure where
  /-- An `Error` with its message. -/
  | error (message : String)
  /-- What a runner reported. -/
  | reported (error : JsonValue)
  /-- `TaskRunnerExecutionTimeoutError`. -/
  | executionTimeout (taskTimeout : ℕ) (isSelfHosted : Bool) (mode : TaskRunnerMode)
  deriving DecidableEq, Repr

/-- The outcome of a remote procedure call. -/
inductive RpcStatus where
  | success
  | error
  deriving DecidableEq, Repr

/-- Why a task request expired. -/
inductive ExpiryReason where
  | timeout
  | draining
  deriving DecidableEq, Repr

/-- `BrokerMessage.ToRunner.All`. -/
inductive BrokerMessage.ToRunner where
  | infoRequest
  | runnerRegistered
  | taskOfferAccept (offerId taskId : NanoId)
  | taskCancel (taskId : NanoId) (reason : String)
  | taskSettings (taskId : NanoId) (settings : JsonValue)
  | rpcResponse (callId taskId : NanoId) (status : RpcStatus) (data : JsonValue)
  | taskDataResponse (taskId requestId : NanoId) (data : JsonValue)
  | nodeTypes (taskId requestId : NanoId) (nodeTypes : JsonValue)
  | drain
  deriving DecidableEq, Repr

/-- The task that a runner is asked to take. -/
def BrokerMessage.acceptTask : ToRunner → Option NanoId
  | .taskOfferAccept _ taskId => some taskId
  | _ => none

/-- The task that a runner is given the settings of. -/
def BrokerMessage.settingsTask : ToRunner → Option NanoId
  | .taskSettings taskId _ => some taskId
  | _ => none

/-- `BrokerMessage.ToRequester.All`. -/
inductive BrokerMessage.ToRequester where
  | taskReady (requestId taskId : NanoId)
  | taskDone (taskId : NanoId) (data : JsonValue)
  | taskError (taskId : NanoId) (error : TaskFailure)
  | requestExpired (requestId : NanoId) (reason : ExpiryReason)
  | taskDataRequest (taskId requestId : NanoId) (requestParams : JsonValue)
  | nodeTypesRequest (taskId requestId : NanoId) (requestParams : JsonValue)
  | rpc (callId taskId : NanoId) (name : String) (params : List JsonValue)
  deriving DecidableEq, Repr

/-- `RequesterMessage.ToBroker.All`. -/
inductive RequesterMessage.ToBroker where
  | taskSettings (taskId : NanoId) (settings : JsonValue)
  | taskCancel (taskId : NanoId) (reason : String)
  | taskDataResponse (taskId requestId : NanoId) (data : JsonValue)
  | nodeTypesResponse (taskId requestId : NanoId) (nodeTypes : JsonValue)
  | rpcResponse (taskId callId : NanoId) (status : RpcStatus) (data : JsonValue)
  | taskRequest (requestId : NanoId) (taskType : String)
  deriving DecidableEq, Repr

/-- `RunnerMessage.ToBroker.All`. -/
inductive RunnerMessage.ToBroker where
  | info (name : String) (types : List String)
  | taskAccepted (taskId : NanoId)
  | taskRejected (taskId : NanoId) (reason : String)
  | taskDeferred (taskId : NanoId)
  | taskDone (taskId : NanoId) (data : JsonValue)
  | taskError (taskId : NanoId) (error : JsonValue)
  | taskOffer (offerId : NanoId) (taskType : String) (validFor : ℤ)
  | taskDataRequest (taskId requestId : NanoId) (requestParams : JsonValue)
  | nodeTypesRequest (taskId requestId : NanoId) (requestParams : JsonValue)
  | rpc (callId taskId : NanoId) (name : String) (params : List JsonValue)
  deriving DecidableEq, Repr

end N8n
