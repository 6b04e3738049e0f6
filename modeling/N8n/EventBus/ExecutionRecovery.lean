import Mathlib.Data.List.Basic
import N8n.Foundations.ExceptFold
import N8n.Foundations.PlainObject

/-!
# The recovery of an execution from the event log

When n8n was stopped in the middle of an execution, `ExecutionRecoveryService` amends the saved
execution by the events of the log. The nodes that started and have no saved run data get run data
that says when they ran, and the last of them is the last node of the execution.

The last of them is the one that stands last in the list of the nodes of the workflow, and its first
event decides when the execution stopped. That is the last node that ran only when there is no other
one without run data and it did not run again (`recovers_iff`).
-/

namespace N8n

namespace ExecutionRecovery

open InsertionMap (inheritedKeys)

/-! ### Event messages -/

inductive EventNamesNode where
  | started
  | finished
  deriving DecidableEq, Repr

inductive EventNamesWorkflow where
  | started
  | success
  | failed
  | crashed
  | cancelled
  deriving DecidableEq, Repr

inductive EventNames where
  | node (name : EventNamesNode)
  | workflow (name : EventNamesWorkflow)
  | other
  deriving DecidableEq, Repr

structure EventMessage where
  eventName : EventNames
  /-- In milliseconds. -/
  ts : ℤ
  /-- `payload.nodeName`, of a node event. -/
  nodeName : String
  deriving DecidableEq, Repr

def isNodeEventMessage (message : EventMessage) : Bool :=
  match message.eventName with
  | .node _ => true
  | _ => false

/-- A property of all objects is called as if it were an array. -/
inductive RecoveryError where
  | notAFunction (key : String)
  deriving DecidableEq, Repr

structure RelevantMessages where
  nodeMessagesByName : InsertionMap String (List EventMessage)
  workflowMessages : List EventMessage

def RelevantMessages.add (acc : RelevantMessages) (cur : EventMessage) : RelevantMessages :=
  match cur.eventName with
  | .node _ =>
    { acc with
      nodeMessagesByName := acc.nodeMessagesByName.set cur.nodeName
        ((acc.nodeMessagesByName.get? cur.nodeName).getD [] ++ [cur]) }
  | .workflow _ => { acc with workflowMessages := acc.workflowMessages ++ [cur] }
  | .other => acc

/-- The step of `toRelevantMessages`: `nodeMessagesByName[nodeName].push` is called on what every
object has under that name, if it has something. -/
def addMessage (acc : RelevantMessages) (cur : EventMessage) :
    Except RecoveryError RelevantMessages :=
  if isNodeEventMessage cur ∧ cur.nodeName ∈ inheritedKeys then .error (.notAFunction cur.nodeName)
  else .ok (acc.add cur)

def toRelevantMessages (messages : List EventMessage) : Except RecoveryError RelevantMessages :=
  messages.foldlM addMessage { nodeMessagesByName := .empty, workflowMessages := [] }

/-! ### Executions -/

inductive ExecutionStatus where
  | canceled
  | crashed
  | error
  | new
  | running
  | success
  | unknown
  | waiting
  deriving DecidableEq, Repr

/-- An item that stands for the output that was lost. -/
structure ArtificialItem where
  isArtificialRecoveredEventItem : Bool
  deriving DecidableEq, Repr

/-- The items of the output `main`. -/
def artificialTaskData : List (List ArtificialItem) :=
  [[{ isArtificialRecoveredEventItem := true }]]

/-- The task data of a node that has no saved run data. Its source is `[null]`. -/
structure RecoveredTask where
  startTime : ℤ
  executionIndex : ℕ
  executionTime : ℤ
  executionStatus : ExecutionStatus
  data : Option (List (List ArtificialItem))
  /-- The node of the `NodeCrashedError`. -/
  error : Option String
  deriving DecidableEq, Repr

/-- Saved task data, or recovered ones. -/
inductive TaskData (τ : Type) where
  | saved (task : τ)
  | recovered (task : RecoveredTask)
  deriving DecidableEq, Repr

inductive ExecutionError (ε : Type) where
  | saved (error : ε)
  | workflowCrashed
  deriving DecidableEq, Repr

structure RunExecutionData (τ ε : Type) where
  runData : Option (InsertionMap String (List (TaskData τ)))
  lastNodeExecuted : Option String
  error : Option (ExecutionError ε)
  deriving DecidableEq, Repr

def createEmptyRunExecutionData {τ ε : Type} : RunExecutionData τ ε where
  runData := some .empty
  lastNodeExecuted := none
  error := none

structure Execution (τ ε : Type) where
  status : ExecutionStatus
  stoppedAt : Option ℤ
  /-- The names of `workflowData.nodes`. -/
  nodes : List String
  data : Option (RunExecutionData τ ε)
  deriving DecidableEq, Repr

variable {τ ε : Type}

def Execution.lastNodeExecuted (execution : Execution τ ε) : Option String :=
  execution.data.bind (·.lastNodeExecuted)

/-! ### The amendment -/

/-- What the loop over the nodes changes. -/
structure Recovery (τ ε : Type) where
  runExecutionData : RunExecutionData τ ε
  lastNodeRunTimestamp : Option ℤ

def isEventOf (node : String) (name : EventNamesNode) (m : EventMessage) : Bool :=
  m.nodeName = node && m.eventName = .node name

def RunExecutionData.runsOf (data : RunExecutionData τ ε) (node : String) :
    Option (List (TaskData τ)) := data.runData.bind (·.get? node)

def RunExecutionData.put (data : RunExecutionData τ ε) (node : String) (task : RecoveredTask) :
    RunExecutionData τ ε :=
  { data with
    lastNodeExecuted := some node
    runData := some ((data.runData.getD .empty).set node [.recovered task]) }

/-- A node that finished. -/
def Recovery.finish (st : Recovery τ ε) (node : String) (started finished : EventMessage) :
    Recovery τ ε where
  runExecutionData := st.runExecutionData.put node
    { startTime := started.ts / 1000
      executionIndex := 0
      executionTime := finished.ts - started.ts
      executionStatus := .success
      data := some artificialTaskData
      error := none }
  lastNodeRunTimestamp := some finished.ts

/-- A node that did not finish. -/
def Recovery.crash (st : Recovery τ ε) (node : String) (started : EventMessage) :
    Recovery τ ε where
  runExecutionData := { st.runExecutionData with error := some .workflowCrashed }.put node
    { startTime := started.ts / 1000
      executionIndex := 0
      executionTime := 0
      executionStatus := .crashed
      data := none
      error := some node }
  lastNodeRunTimestamp := some started.ts

/-- The body of the loop over the nodes, with the messages of the node. -/
def Recovery.visit (nodeMessages : List EventMessage) (st : Recovery τ ε) (node : String) :
    Recovery τ ε :=
  match nodeMessages.find? (isEventOf node .started) with
  | none => st
  | some started =>
    if st.runExecutionData.runsOf node ≠ none then st
    else
      match nodeMessages.find? (isEventOf node .finished) with
      | some finished => st.finish node started finished
      | none => st.crash node started

def messagesOf (byName : InsertionMap String (List EventMessage)) (node : String) :
    List EventMessage := (byName.get? node).getD []

/-- The messages of the node are looked up first; the `find` of what every object has under that
name is no function. -/
def recoverNode (byName : InsertionMap String (List EventMessage)) (st : Recovery τ ε)
    (node : String) : Except RecoveryError (Recovery τ ε) :=
  if node ∈ inheritedKeys then .error (.notAFunction node)
  else .ok (st.visit (messagesOf byName node) node)

def workflowEndEvents : List EventNamesWorkflow := [.success, .crashed, .failed]

def toStoppedAt (timestamp : Option ℤ) (messages : List EventMessage) : Option ℤ :=
  match timestamp with
  | some timestamp => some timestamp
  | none =>
    ((messages.find? fun m => workflowEndEvents.any fun name => m.eventName = .workflow name).or
      (messages.find? fun m => m.eventName = .workflow .started)).map (·.ts)

/-- The execution has ended, and its data were saved. -/
def Execution.isFinished (execution : Execution τ ε) : Bool :=
  execution.status ∈ [ExecutionStatus.success, .error, .canceled] && execution.data.isSome

/-- The run data that the loop begins with. -/
def Execution.runExecutionData (execution : Execution τ ε) : RunExecutionData τ ε :=
  let data := execution.data.getD createEmptyRunExecutionData
  { data with runData := some (data.runData.getD .empty) }

def Execution.amended (execution : Execution τ ε) (messages : List EventMessage)
    (recovery : Recovery τ ε) : Execution τ ε :=
  { execution with
    status := if execution.status = .error then .error else .crashed
    stoppedAt := toStoppedAt recovery.lastNodeRunTimestamp messages
    data := some recovery.runExecutionData }

/-- `markAsCrashed`, on the execution if there is one. -/
def amendWithoutLogs (now : ℤ) (found : Option (Execution τ ε)) : Option (Execution τ ε) :=
  found.map fun execution => { execution with status := .crashed, stoppedAt := some now }

/-- `amend`, from the filter of finished executions on. -/
def Execution.amend (execution : Execution τ ε) (relevant : RelevantMessages) :
    Except RecoveryError (Option (Execution τ ε)) :=
  if execution.isFinished then .ok none
  else
    (execution.nodes.foldlM (recoverNode relevant.nodeMessagesByName)
      { runExecutionData := execution.runExecutionData, lastNodeRunTimestamp := none }).map
        fun recovery => some (execution.amended relevant.workflowMessages recovery)

/-- `amend`, with the execution that `findSingleExecution` gives. -/
def amend (now : ℤ) (found : Option (Execution τ ε)) (messages : List EventMessage) :
    Except RecoveryError (Option (Execution τ ε)) :=
  if messages = [] then .ok (amendWithoutLogs now found)
  else
    (toRelevantMessages messages).bind fun relevant =>
      if relevant.nodeMessagesByName.keys = [] then .ok none
      else
        match found with
        | none => .ok none
        | some execution => execution.amend relevant

/-! ### The claim -/

/-- No node event is later. -/
def IsLatest (messages : List EventMessage) (message : EventMessage) : Prop :=
  (message ∈ messages ∧ isNodeEventMessage message) ∧
    ∀ m ∈ messages, isNodeEventMessage m → m.ts ≤ message.ts

/-- There is a time, and no node event is later. -/
def NotBefore (messages : List EventMessage) (time : Option ℤ) : Prop :=
  ∃ t, time = some t ∧ ∀ m ∈ messages, isNodeEventMessage m → m.ts ≤ t

/-- The recovery gives the last node and a time at which it had ended, and would do so with the
nodes of the workflow in another order. -/
structure Recovers (now : ℤ) (found : Option (Execution τ ε)) (messages : List EventMessage) :
    Prop where
  returns : ∃ result, amend now found messages = .ok result
  lastNode : ∀ amended, amend now found messages = .ok (some amended) →
    (∃ m ∈ messages, isNodeEventMessage m) →
      ∃ m, IsLatest messages m ∧ amended.lastNodeExecuted = some m.nodeName
  stoppedAt : ∀ amended, amend now found messages = .ok (some amended) →
    NotBefore messages amended.stoppedAt
  anyOrder : ∀ execution nodes amended amended', found = some execution →
    nodes.Perm execution.nodes → amend now found messages = .ok (some amended) →
      amend now (some { execution with nodes }) messages = .ok (some amended') →
        amended'.lastNodeExecuted = amended.lastNodeExecuted ∧
          amended'.stoppedAt = amended.stoppedAt

/-! ### The condition -/

def Started (messages : List EventMessage) (node : String) : Prop :=
  ∃ m ∈ messages, isEventOf node .started m

/-- A node of the workflow that started and has no saved run data. -/
def Unsaved (execution : Execution τ ε) (messages : List EventMessage) (node : String) : Prop :=
  node ∈ execution.nodes ∧ Started messages node ∧ execution.runExecutionData.runsOf node = none

/-- The time of the first event that says that the node finished, or else that it started. -/
def lastRunTimestamp (messages : List EventMessage) (node : String) : Option ℤ :=
  ((messages.find? (isEventOf node .finished)).or
    (messages.find? (isEventOf node .started))).map (·.ts)

/-- One node has no run data, and no node event is later than its first one. -/
def OneIsLeft (execution : Execution τ ε) (messages : List EventMessage) : Prop :=
  ∃ node, (∀ x, Unsaved execution messages x ↔ x = node) ∧
    NotBefore messages (lastRunTimestamp messages node)

/-- No node is without run data; the saved last node is the last one, and no node event is later
than the end of the workflow. -/
def NoneIsLeft (execution : Execution τ ε) (messages : List EventMessage) : Prop :=
  (∀ x, ¬Unsaved execution messages x) ∧
    (∃ m, IsLatest messages m ∧
      execution.lastNodeExecuted = some m.nodeName) ∧
    NotBefore messages (toStoppedAt none messages)

def Condition (found : Option (Execution τ ε)) (messages : List EventMessage) : Prop :=
  (∀ m ∈ messages, isNodeEventMessage m → m.nodeName ∉ inheritedKeys) ∧
    ∀ execution, found = some execution → execution.isFinished = false →
      (∃ m ∈ messages, isNodeEventMessage m) →
        (∀ node ∈ execution.nodes, node ∉ inheritedKeys) ∧
          (OneIsLeft execution messages ∨ NoneIsLeft execution messages)

/-! ### The relevant messages -/

variable {messages : List EventMessage}

def isWorkflowEventMessage (message : EventMessage) : Bool :=
  match message.eventName with
  | .workflow _ => true
  | _ => false

theorem toRelevantMessages_eq_ok
    (hkeys : ∀ m ∈ messages, isNodeEventMessage m → m.nodeName ∉ inheritedKeys) :
    toRelevantMessages messages = .ok (messages.foldl RelevantMessages.add
      { nodeMessagesByName := .empty, workflowMessages := [] }) := by
  refine (ExceptFold.foldlM_eq_ok (fun _ => True) messages (fun acc m hm _ => ⟨?_, trivial⟩) _
    trivial).1
  exact if_neg fun h => hkeys m hm h.1 h.2

theorem not_mem_inheritedKeys_of_ok {relevant : RelevantMessages}
    (h : toRelevantMessages messages = .ok relevant) :
    ∀ m ∈ messages, isNodeEventMessage m → m.nodeName ∉ inheritedKeys := by
  intro m hm hnode hkey
  obtain ⟨acc, acc', -, hstep, -⟩ := ExceptFold.exists_step_of_foldlM_eq_ok (P := fun _ => True)
    (fun _ _ _ _ _ _ => trivial) trivial h hm
  rw [addMessage, if_pos ⟨hnode, hkey⟩] at hstep
  exact nomatch hstep

theorem messagesOf_add (acc : RelevantMessages) (m : EventMessage) (node : String) :
    messagesOf (acc.add m).nodeMessagesByName node =
      messagesOf acc.nodeMessagesByName node ++
        if isNodeEventMessage m && m.nodeName = node then [m] else [] := by
  obtain ⟨eventName, ts, nodeName⟩ := m
  simp only [RelevantMessages.add, isNodeEventMessage]
  cases eventName with
  | node name =>
    simp only [messagesOf, InsertionMap.get?_set]
    by_cases hnode : node = nodeName
    · simp [hnode]
    · simp [hnode, Ne.symm hnode]
  | workflow name => simp
  | other => simp

theorem workflowMessages_add (acc : RelevantMessages) (m : EventMessage) :
    (acc.add m).workflowMessages =
      acc.workflowMessages ++ if isWorkflowEventMessage m then [m] else [] := by
  obtain ⟨eventName, ts, nodeName⟩ := m
  simp only [RelevantMessages.add, isWorkflowEventMessage]
  cases eventName <;> simp

theorem mem_keys_add (acc : RelevantMessages) (m : EventMessage) (node : String) :
    node ∈ (acc.add m).nodeMessagesByName.keys ↔
      node ∈ acc.nodeMessagesByName.keys ∨ isNodeEventMessage m ∧ m.nodeName = node := by
  obtain ⟨eventName, ts, nodeName⟩ := m
  simp only [RelevantMessages.add, isNodeEventMessage]
  cases eventName with
  | node name => simp [InsertionMap.mem_keys_set, or_comm, eq_comm]
  | workflow name => simp
  | other => simp

/-- The messages are sorted by the nodes, in their order. -/
theorem messagesOf_foldl_add (messages : List EventMessage) (acc : RelevantMessages)
    (node : String) :
    messagesOf (messages.foldl RelevantMessages.add acc).nodeMessagesByName node =
      messagesOf acc.nodeMessagesByName node ++
        messages.filter fun m => isNodeEventMessage m && m.nodeName = node := by
  induction messages generalizing acc with
  | nil => simp
  | cons m messages ih =>
    rw [List.foldl_cons, ih, messagesOf_add, List.append_assoc, List.filter_cons]
    split <;> rfl

theorem workflowMessages_foldl_add (messages : List EventMessage) (acc : RelevantMessages) :
    (messages.foldl RelevantMessages.add acc).workflowMessages =
      acc.workflowMessages ++ messages.filter isWorkflowEventMessage := by
  induction messages generalizing acc with
  | nil => simp
  | cons m messages ih =>
    rw [List.foldl_cons, ih, workflowMessages_add, List.append_assoc, List.filter_cons]
    split <;> rfl

theorem mem_keys_foldl_add (messages : List EventMessage) (acc : RelevantMessages)
    (node : String) :
    node ∈ (messages.foldl RelevantMessages.add acc).nodeMessagesByName.keys ↔
      node ∈ acc.nodeMessagesByName.keys ∨
        ∃ m ∈ messages, isNodeEventMessage m ∧ m.nodeName = node := by
  induction messages generalizing acc with
  | nil => simp
  | cons m messages ih => rw [List.foldl_cons, ih, mem_keys_add, or_assoc, List.exists_mem_cons_iff]

/-! ### The loop over the nodes -/

section Loop

variable {st : Recovery τ ε} {node a : String} {nodes : List String}

theorem find?_filter_of_imp {p q : EventMessage → Bool} (h : ∀ m, q m = true → p m = true)
    (messages : List EventMessage) : (messages.filter p).find? q = messages.find? q := by
  rw [List.find?_filter]
  congr 1
  funext m
  rw [Bool.eq_iff_iff]
  simpa using h m

/-- What the loop looks for among the messages of a node can be looked for among all of them. -/
theorem find?_messagesOf (messages : List EventMessage) (node : String) (name : EventNamesNode) :
    (messages.filter fun m => isNodeEventMessage m && m.nodeName = node).find?
      (isEventOf node name) = messages.find? (isEventOf node name) := by
  refine find?_filter_of_imp (fun m h => ?_) messages
  obtain ⟨hnode, hname⟩ : m.nodeName = node ∧ m.eventName = .node name := by
    simpa [isEventOf] using h
  simp [isNodeEventMessage, hnode, hname]

theorem visit_messagesOf (messages : List EventMessage) (st : Recovery τ ε) (node : String) :
    st.visit (messages.filter fun m => isNodeEventMessage m && m.nodeName = node) node =
      st.visit messages node := by
  simp only [Recovery.visit, find?_messagesOf]

theorem started_iff :
    Started messages node ↔ ∃ m, messages.find? (isEventOf node .started) = some m := by
  rw [Started, ← Option.isSome_iff_exists, List.find?_isSome]

/-- A node that did not start or has run data is passed over. -/
theorem visit_of_saved
    (h : Started messages node → st.runExecutionData.runsOf node ≠ none) :
    st.visit messages node = st := by
  rw [Recovery.visit]
  split
  · rfl
  · rename_i m hm
    exact if_pos (h (started_iff.mpr ⟨m, hm⟩))

theorem runsOf_put (data : RunExecutionData τ ε) (task : RecoveredTask) :
    (data.put node task).runsOf a =
      if a = node then some [.recovered task] else data.runsOf a := by
  rw [RunExecutionData.runsOf, RunExecutionData.put, Option.bind_some, InsertionMap.get?_set]
  cases data with
  | mk runData last error => cases runData <;> rfl

/-- A node that started and has no run data is the last one, for now. -/
theorem visit_of_started (hstarted : Started messages node)
    (hnone : st.runExecutionData.runsOf node = none) :
    (st.visit messages node).runExecutionData.lastNodeExecuted = some node ∧
      (st.visit messages node).lastNodeRunTimestamp = lastRunTimestamp messages node ∧
      ∀ a, (st.visit messages node).runExecutionData.runsOf a = none ↔
        st.runExecutionData.runsOf a = none ∧ a ≠ node := by
  obtain ⟨started, hfind⟩ := started_iff.mp hstarted
  have hruns (data : RunExecutionData τ ε) (hdata : data.runData = st.runExecutionData.runData)
      (task : RecoveredTask) (a : String) : (data.put node task).runsOf a = none ↔
        st.runExecutionData.runsOf a = none ∧ a ≠ node := by
    rw [runsOf_put, RunExecutionData.runsOf, hdata]
    split_ifs with ha
    · simp [ha]
    · simp [ha, RunExecutionData.runsOf]
  rw [Recovery.visit, hfind]
  dsimp only
  rw [if_neg (not_not.mpr hnone), lastRunTimestamp, hfind]
  cases messages.find? (isEventOf node .finished) with
  | none => exact ⟨rfl, rfl, hruns _ rfl _⟩
  | some finished => exact ⟨rfl, rfl, hruns _ rfl _⟩

theorem runsOf_visit : (st.visit messages node).runExecutionData.runsOf a = none ↔
    st.runExecutionData.runsOf a = none ∧ ¬(a = node ∧ Started messages a) := by
  by_cases h : Started messages node → st.runExecutionData.runsOf node ≠ none
  · rw [visit_of_saved h, iff_self_and]
    rintro hnone ⟨rfl, hstarted⟩
    exact h hstarted hnone
  · obtain ⟨hstarted, hnone⟩ := Classical.not_imp.mp h
    rw [(visit_of_started hstarted (not_not.mp hnone)).2.2]
    refine and_congr_right fun _ => ⟨fun hne h => hne h.1, fun hne heq => hne ⟨heq, heq ▸ hstarted⟩⟩

/-- The nodes that started have run data after the loop. -/
theorem runsOf_foldl_visit (nodes : List String) (st : Recovery τ ε) :
    (nodes.foldl (Recovery.visit messages) st).runExecutionData.runsOf a = none ↔
      st.runExecutionData.runsOf a = none ∧ ¬(a ∈ nodes ∧ Started messages a) := by
  induction nodes generalizing st with
  | nil => simp
  | cons node nodes ih =>
    rw [List.foldl_cons, ih, runsOf_visit, List.mem_cons]
    tauto

theorem foldl_visit_of_saved
    (h : ∀ a ∈ nodes, Started messages a → st.runExecutionData.runsOf a ≠ none) :
    nodes.foldl (Recovery.visit messages) st = st := by
  induction nodes with
  | nil => rfl
  | cons node nodes ih =>
    rw [List.foldl_cons, visit_of_saved (h node List.mem_cons_self)]
    exact ih fun a ha => h a (List.mem_cons_of_mem _ ha)

/-- The last node of the list that is without run data when the loop comes to it. -/
theorem foldl_visit_last {before after : List String} (hstarted : Started messages node)
    (hnone : st.runExecutionData.runsOf node = none) (hbefore : node ∉ before)
    (hafter : ∀ a ∈ after, Started messages a → a = node ∨ st.runExecutionData.runsOf a ≠ none) :
    ((before ++ node :: after).foldl
        (Recovery.visit messages) st).runExecutionData.lastNodeExecuted = some node ∧
      ((before ++ node :: after).foldl (Recovery.visit messages) st).lastNodeRunTimestamp =
        lastRunTimestamp messages node := by
  rw [List.foldl_append, List.foldl_cons]
  have hstill : (before.foldl (Recovery.visit messages) st).runExecutionData.runsOf node = none :=
    (runsOf_foldl_visit before st).mpr ⟨hnone, fun h => hbefore h.1⟩
  obtain ⟨hlast, htime, hruns⟩ := visit_of_started hstarted hstill
  rw [foldl_visit_of_saved]
  · exact ⟨hlast, htime⟩
  · intro a ha hstarteda hnonea
    obtain ⟨hnonea, hne⟩ := (hruns a).mp hnonea
    rcases hafter a ha hstarteda with heq | hsaved
    · exact hne heq
    · exact hsaved ((runsOf_foldl_visit before st).mp hnonea).1

end Loop

/-! ### The amended execution -/

section Amendment

variable {execution : Execution τ ε}

/-- The loop over the nodes, by all messages. -/
def recovery (execution : Execution τ ε) (messages : List EventMessage) : Recovery τ ε :=
  execution.nodes.foldl (Recovery.visit messages)
    { runExecutionData := execution.runExecutionData, lastNodeRunTimestamp := none }

theorem toStoppedAt_filter (time : Option ℤ) (messages : List EventMessage) :
    toStoppedAt time (messages.filter isWorkflowEventMessage) = toStoppedAt time messages := by
  cases time with
  | some time => rfl
  | none =>
    have hworkflow (m : EventMessage) (name : EventNamesWorkflow)
        (h : m.eventName = .workflow name) : isWorkflowEventMessage m = true := by
      rw [isWorkflowEventMessage, h]
    rw [toStoppedAt, toStoppedAt, find?_filter_of_imp, find?_filter_of_imp]
    · exact fun m hm => hworkflow m _ (of_decide_eq_true hm)
    · intro m hm
      obtain ⟨name, -, hname⟩ := List.any_eq_true.mp hm
      exact hworkflow m name (of_decide_eq_true hname)

/-- The messages, sorted. -/
def sorted (messages : List EventMessage) : RelevantMessages :=
  messages.foldl RelevantMessages.add { nodeMessagesByName := .empty, workflowMessages := [] }

theorem recoverNode_of_not_mem {node : String} (hnode : node ∉ inheritedKeys)
    (messages : List EventMessage) (st : Recovery τ ε) :
    recoverNode (sorted messages).nodeMessagesByName st node = .ok (st.visit messages node) := by
  have hmessages : messagesOf (sorted messages).nodeMessagesByName node =
      messages.filter fun m => isNodeEventMessage m && m.nodeName = node :=
    messagesOf_foldl_add messages _ node
  rw [recoverNode, if_neg hnode, hmessages, visit_messagesOf]

theorem recoverNodes_eq_ok (hnodes : ∀ node ∈ execution.nodes, node ∉ inheritedKeys)
    (messages : List EventMessage) :
    execution.nodes.foldlM (recoverNode (sorted messages).nodeMessagesByName)
        { runExecutionData := execution.runExecutionData, lastNodeRunTimestamp := none } =
      .ok (recovery execution messages) :=
  (ExceptFold.foldlM_eq_ok (fun _ => True) execution.nodes
    (fun st node hnode _ => ⟨recoverNode_of_not_mem (hnodes node hnode) messages st, trivial⟩) _
    trivial).1

theorem nodes_of_recoverNodes_eq_ok {st r : Recovery τ ε} {nodes : List String}
    {byName : InsertionMap String (List EventMessage)}
    (h : nodes.foldlM (recoverNode byName) st = .ok r) : ∀ node ∈ nodes, node ∉ inheritedKeys := by
  intro node hnode hkey
  obtain ⟨acc, acc', -, hstep, -⟩ := ExceptFold.exists_step_of_foldlM_eq_ok (P := fun _ => True)
    (fun _ _ _ _ _ _ => trivial) trivial h hnode
  rw [recoverNode, if_pos hkey] at hstep
  exact nomatch hstep

theorem keys_sorted_eq_nil_iff (messages : List EventMessage) :
    (sorted messages).nodeMessagesByName.keys = [] ↔
      ¬∃ m ∈ messages, isNodeEventMessage m := by
  have hkeys (node : String) : node ∈ (sorted messages).nodeMessagesByName.keys ↔
      ∃ m ∈ messages, isNodeEventMessage m ∧ m.nodeName = node := by
    rw [sorted, mem_keys_foldl_add, or_iff_right]
    exact List.not_mem_nil
  rw [List.eq_nil_iff_forall_not_mem]
  refine ⟨fun h ⟨m, hm, hnode⟩ => h m.nodeName ((hkeys _).mpr ⟨m, hm, hnode, rfl⟩), ?_⟩
  intro h node hmem
  obtain ⟨m, hm, hnode, -⟩ := (hkeys node).mp hmem
  exact h ⟨m, hm, hnode⟩

theorem Execution.amend_eq_ok (hfinished : execution.isFinished = false)
    (hnodes : ∀ node ∈ execution.nodes, node ∉ inheritedKeys) (messages : List EventMessage) :
    execution.amend (sorted messages) =
      .ok (some (execution.amended messages (recovery execution messages))) := by
  have hworkflow : (sorted messages).workflowMessages = messages.filter isWorkflowEventMessage :=
    workflowMessages_foldl_add messages _
  rw [Execution.amend, if_neg (Bool.eq_false_iff.mp hfinished), recoverNodes_eq_ok hnodes,
    Except.map, hworkflow, Execution.amended, Execution.amended, toStoppedAt_filter]

theorem nodes_of_amend_eq_ok (hfinished : execution.isFinished = false)
    {relevant : RelevantMessages} {result : Option (Execution τ ε)}
    (h : execution.amend relevant = .ok result) :
    ∀ node ∈ execution.nodes, node ∉ inheritedKeys := by
  rw [Execution.amend, if_neg (Bool.eq_false_iff.mp hfinished)] at h
  cases hr : execution.nodes.foldlM (recoverNode relevant.nodeMessagesByName)
      { runExecutionData := execution.runExecutionData, lastNodeRunTimestamp := none } with
  | error e =>
    rw [hr] at h
    exact nomatch h
  | ok r => exact nodes_of_recoverNodes_eq_ok hr

variable {now : ℤ} {found : Option (Execution τ ε)}

theorem amend_of_node (hnode : ∃ m ∈ messages, isNodeEventMessage m)
    (hmessages : ∀ m ∈ messages, isNodeEventMessage m → m.nodeName ∉ inheritedKeys) :
    amend now found messages =
      match found with
      | none => .ok none
      | some execution => execution.amend (sorted messages) := by
  have hne : messages ≠ [] := by
    rintro rfl
    obtain ⟨m, hm, -⟩ := hnode
    exact List.not_mem_nil hm
  rw [amend, if_neg hne, toRelevantMessages_eq_ok hmessages]
  exact if_neg fun h => (keys_sorted_eq_nil_iff messages).mp h hnode

theorem messages_of_amend_eq_ok {result : Option (Execution τ ε)}
    (h : amend now found messages = .ok result) :
    ∀ m ∈ messages, isNodeEventMessage m → m.nodeName ∉ inheritedKeys := by
  by_cases hnil : messages = []
  · rw [hnil]
    exact fun m hm => absurd hm List.not_mem_nil
  · rw [amend, if_neg hnil] at h
    cases hrelevant : toRelevantMessages messages with
    | error e =>
      rw [hrelevant] at h
      exact nomatch h
    | ok relevant => exact not_mem_inheritedKeys_of_ok hrelevant

/-- **The amended execution** of a log with node events. -/
theorem amend_eq_some_iff (hnode : ∃ m ∈ messages, isNodeEventMessage m)
    {amended : Execution τ ε} :
    amend now found messages = .ok (some amended) ↔
      (∀ m ∈ messages, isNodeEventMessage m → m.nodeName ∉ inheritedKeys) ∧
        ∃ execution, found = some execution ∧ execution.isFinished = false ∧
          (∀ node ∈ execution.nodes, node ∉ inheritedKeys) ∧
            amended = execution.amended messages (recovery execution messages) := by
  constructor
  · intro h
    have hmessages := messages_of_amend_eq_ok h
    rw [amend_of_node hnode hmessages] at h
    refine ⟨hmessages, ?_⟩
    cases found with
    | none => exact nomatch h
    | some execution =>
      replace h : execution.amend (sorted messages) = .ok (some amended) := h
      cases hfinished : execution.isFinished with
      | true =>
        rw [Execution.amend, if_pos hfinished] at h
        exact nomatch h
      | false =>
        have hnodes := nodes_of_amend_eq_ok hfinished h
        rw [Execution.amend_eq_ok hfinished hnodes] at h
        exact ⟨execution, rfl, hfinished, hnodes, (Option.some.inj (Except.ok.inj h)).symm⟩
  · rintro ⟨hmessages, execution, rfl, hfinished, hnodes, rfl⟩
    rw [amend_of_node hnode hmessages]
    exact Execution.amend_eq_ok hfinished hnodes messages

/-- Nothing is amended for a log without node events, except that an execution without a log has
crashed. -/
theorem amend_of_no_node (hnode : ¬∃ m ∈ messages, isNodeEventMessage m) :
    amend now found messages =
      .ok (if messages = [] then amendWithoutLogs now found else none) := by
  rw [amend]
  split_ifs with hnil
  · rfl
  · rw [toRelevantMessages_eq_ok fun m hm h => absurd ⟨m, hm, h⟩ hnode]
    exact if_pos ((keys_sorted_eq_nil_iff messages).mpr hnode)

/-- **When the recovery does not throw.** -/
theorem amend_isOk_iff :
    (∃ result, amend now found messages = .ok result) ↔
      (∀ m ∈ messages, isNodeEventMessage m → m.nodeName ∉ inheritedKeys) ∧
        ∀ execution, found = some execution → execution.isFinished = false →
          (∃ m ∈ messages, isNodeEventMessage m) →
            ∀ node ∈ execution.nodes, node ∉ inheritedKeys := by
  constructor
  · rintro ⟨result, h⟩
    have hmessages := messages_of_amend_eq_ok h
    refine ⟨hmessages, ?_⟩
    rintro execution rfl hfinished hnode
    rw [amend_of_node hnode hmessages] at h
    exact nodes_of_amend_eq_ok hfinished h
  · rintro ⟨hmessages, hnodes⟩
    by_cases hnode : ∃ m ∈ messages, isNodeEventMessage m
    · rw [amend_of_node hnode hmessages]
      cases found with
      | none => exact ⟨none, rfl⟩
      | some execution =>
        cases hfinished : execution.isFinished with
        | true => exact ⟨none, if_pos hfinished⟩
        | false =>
          have hmem := hnodes execution rfl hfinished hnode
          exact ⟨_, Execution.amend_eq_ok hfinished hmem messages⟩
    · exact ⟨_, amend_of_no_node hnode⟩

end Amendment

/-! ### The last node -/

section LastNode

variable {execution : Execution τ ε}

/-- Without a node that is left, the loop changes nothing. -/
theorem recovery_of_none_left (h : ∀ x, ¬Unsaved execution messages x) :
    recovery execution messages =
      { runExecutionData := execution.runExecutionData, lastNodeRunTimestamp := none } :=
  foldl_visit_of_saved fun a ha hstarted hnone => h a ⟨ha, hstarted, hnone⟩

/-- One node that is left is the last one, in every order. -/
theorem recovery_of_one_left {node : String} {nodes : List String}
    (hperm : nodes.Perm execution.nodes) (h : ∀ x, Unsaved execution messages x ↔ x = node) :
    (recovery { execution with nodes } messages).runExecutionData.lastNodeExecuted = some node ∧
      (recovery { execution with nodes } messages).lastNodeRunTimestamp =
        lastRunTimestamp messages node := by
  obtain ⟨hmem, hstarted, hnone⟩ := (h node).mpr rfl
  obtain ⟨before, after, heq, hbefore⟩ := List.eq_append_cons_of_mem (hperm.mem_iff.mpr hmem)
  rw [recovery]
  dsimp only
  rw [heq]
  refine foldl_visit_last hstarted hnone hbefore fun a ha hstarteda => ?_
  by_cases hsaved : execution.runExecutionData.runsOf a = none
  · refine Or.inl ((h a).mp ⟨hperm.mem_iff.mp ?_, hstarteda, hsaved⟩)
    rw [heq]
    exact List.mem_append_right _ (List.mem_cons_of_mem _ ha)
  · exact Or.inr hsaved

/-- Each node that is left is the last one in an order. -/
theorem exists_order_last {node : String} (h : Unsaved execution messages node) :
    ∃ nodes, nodes.Perm execution.nodes ∧
      (recovery { execution with nodes } messages).runExecutionData.lastNodeExecuted =
          some node ∧
        (recovery { execution with nodes } messages).lastNodeRunTimestamp =
          lastRunTimestamp messages node := by
  obtain ⟨hmem, hstarted, hnone⟩ := h
  let others := execution.nodes.filter (· ≠ node)
  let same := execution.nodes.filter fun a => !decide (a ≠ node)
  have hsame : node ∈ same := List.mem_filter.mpr ⟨hmem, by simp⟩
  obtain ⟨before, after, heq, hbefore⟩ := List.eq_append_cons_of_mem hsame
  refine ⟨others ++ same, List.filter_append_perm _ _, ?_⟩
  rw [recovery]
  dsimp only
  rw [heq, ← List.append_assoc]
  refine foldl_visit_last hstarted hnone (fun hnode => ?_) fun a ha _ => Or.inl ?_
  · rcases List.mem_append.mp hnode with hothers | hnode
    · exact absurd rfl (of_decide_eq_true (List.mem_filter.mp hothers).2)
    · exact hbefore hnode
  · have hmema : a ∈ same := by
      rw [heq]
      exact List.mem_append_right _ (List.mem_cons_of_mem _ ha)
    simpa using (List.mem_filter.mp hmema).2

/-- The time of the last node that is left is that of one of its events. -/
theorem exists_lastRunTimestamp {node : String} (h : Started messages node) :
    ∃ m ∈ messages, isNodeEventMessage m ∧ m.nodeName = node ∧
      lastRunTimestamp messages node = some m.ts := by
  have hevent (name : EventNamesNode) (m : EventMessage)
      (hfind : messages.find? (isEventOf node name) = some m) :
      m ∈ messages ∧ isNodeEventMessage m ∧ m.nodeName = node := by
    have hm := List.find?_some hfind
    rw [isEventOf, Bool.and_eq_true, decide_eq_true_eq, decide_eq_true_eq] at hm
    refine ⟨List.mem_of_find?_eq_some hfind, ?_, hm.1⟩
    rw [isNodeEventMessage, hm.2]
  obtain ⟨started, hstarted⟩ := started_iff.mp h
  rw [lastRunTimestamp]
  cases hfinished : messages.find? (isEventOf node .finished) with
  | some finished =>
    obtain ⟨hmem, hnode, hname⟩ := hevent .finished finished hfinished
    exact ⟨finished, hmem, hnode, hname, rfl⟩
  | none =>
    obtain ⟨hmem, hnode, hname⟩ := hevent .started started hstarted
    exact ⟨started, hmem, hnode, hname, by rw [hstarted]; rfl⟩

theorem lastNodeExecuted_runExecutionData (execution : Execution τ ε) :
    execution.runExecutionData.lastNodeExecuted = execution.lastNodeExecuted := by
  rw [Execution.runExecutionData, Execution.lastNodeExecuted]
  cases execution.data <;> rfl

end LastNode

/-! ### The condition is exact -/

section Exact

variable {now : ℤ} {execution : Execution τ ε}

/-- What the recovery has to be like when the log has node events. -/
theorem recovers_of_left (hnode : ∃ m ∈ messages, isNodeEventMessage m)
    (hfinished : execution.isFinished = false)
    (hmessages : ∀ m ∈ messages, isNodeEventMessage m → m.nodeName ∉ inheritedKeys)
    (hnodes : ∀ node ∈ execution.nodes, node ∉ inheritedKeys)
    (h : Recovers now (some execution) messages) :
    OneIsLeft execution messages ∨ NoneIsLeft execution messages := by
  have hamend {nodes : List String} (hperm : nodes.Perm execution.nodes) :
      amend now (some { execution with nodes }) messages = .ok (some
        ({ execution with nodes }.amended messages (recovery { execution with nodes } messages))) :=
    (amend_eq_some_iff hnode).mpr ⟨hmessages, _, rfl, hfinished,
      fun node hmem => hnodes node (hperm.mem_iff.mp hmem), rfl⟩
  have hself := hamend (List.Perm.refl execution.nodes)
  by_cases hleft : ∃ x, Unsaved execution messages x
  · obtain ⟨node, hunsaved⟩ := hleft
    -- every node that is left is the last one in an order, hence in this one
    have hlast (x : String) (hx : Unsaved execution messages x) :
        (recovery execution messages).runExecutionData.lastNodeExecuted = some x := by
      obtain ⟨nodes, hperm, hlast, -⟩ := exists_order_last hx
      have hsame := (h.anyOrder execution nodes _ _ rfl hperm hself (hamend hperm)).1
      exact hsame.symm.trans hlast
    have hone (x : String) : Unsaved execution messages x ↔ x = node := by
      refine ⟨fun hx => Option.some.inj ((hlast x hx).symm.trans (hlast node hunsaved)), ?_⟩
      rintro rfl
      exact hunsaved
    refine Or.inl ⟨node, hone, ?_⟩
    obtain ⟨m, -, -, -, htime⟩ := exists_lastRunTimestamp hunsaved.2.1
    have hstopped : NotBefore messages
        (toStoppedAt (recovery execution messages).lastNodeRunTimestamp messages) :=
      h.stoppedAt _ hself
    have hrecovery := (recovery_of_one_left (List.Perm.refl _) hone).2
    rw [hrecovery, htime] at hstopped
    rw [htime]
    exact hstopped
  · have hnone := not_exists.mp hleft
    have hrecovery := recovery_of_none_left hnone
    have hlast := h.lastNode _ hself hnode
    have hstopped : NotBefore messages
        (toStoppedAt (recovery execution messages).lastNodeRunTimestamp messages) :=
      h.stoppedAt _ hself
    rw [hrecovery] at hstopped
    obtain ⟨m, hlatest, hlast⟩ := hlast
    replace hlast : (recovery execution messages).runExecutionData.lastNodeExecuted =
      some m.nodeName := hlast
    rw [hrecovery, lastNodeExecuted_runExecutionData] at hlast
    exact Or.inr ⟨hnone, ⟨m, hlatest, hlast⟩, hstopped⟩

/-- What is left decides on the last node and on the time, in every order of the nodes. -/
theorem recovery_of_left (hleft : OneIsLeft execution messages ∨ NoneIsLeft execution messages) :
    ∃ m t, IsLatest messages m ∧ (∀ m' ∈ messages, isNodeEventMessage m' → m'.ts ≤ t) ∧
      ∀ nodes : List String, nodes.Perm execution.nodes →
        (recovery { execution with nodes } messages).runExecutionData.lastNodeExecuted =
            some m.nodeName ∧
          toStoppedAt (recovery { execution with nodes } messages).lastNodeRunTimestamp messages =
            some t := by
  rcases hleft with ⟨node, hone, t, htime, hmax⟩ | ⟨hnone, ⟨m, hlatest, hlast⟩, t, htime, hmax⟩
  · obtain ⟨m, hm, hnode, hname, hts⟩ := exists_lastRunTimestamp ((hone node).mpr rfl).2.1
    obtain rfl : m.ts = t := Option.some.inj (hts.symm.trans htime)
    refine ⟨m, m.ts, ⟨⟨hm, hnode⟩, hmax⟩, hmax, fun nodes hperm => ?_⟩
    obtain ⟨hlast, hrun⟩ := recovery_of_one_left hperm hone
    rw [hlast, hrun, hname, htime]
    exact ⟨rfl, rfl⟩
  · refine ⟨m, t, hlatest, hmax, fun nodes hperm => ?_⟩
    have hnone' (x : String) : ¬Unsaved { execution with nodes } messages x :=
      fun ⟨hmem, hrest⟩ => hnone x ⟨hperm.mem_iff.mp hmem, hrest⟩
    rw [recovery_of_none_left hnone']
    exact ⟨(lastNodeExecuted_runExecutionData execution).trans hlast, htime⟩

variable {found : Option (Execution τ ε)}

theorem Condition.returns (h : Condition found messages) :
    ∃ result, amend now found messages = .ok result :=
  amend_isOk_iff.mpr ⟨h.1, fun execution hfound hfinished hnode =>
    (h.2 execution hfound hfinished hnode).1⟩

theorem Condition.recovers_of_node (h : Condition found messages)
    (hnode : ∃ m ∈ messages, isNodeEventMessage m) : Recovers now found messages := by
  -- every amended execution is as what is left says, also in another order
  have hamended {execution amended : Execution τ ε} {nodes : List String}
      (hamend : amend now (some { execution with nodes }) messages = .ok (some amended)) :
      amended = { execution with nodes }.amended messages
        (recovery { execution with nodes } messages) := by
    obtain ⟨-, execution', hfound', -, -, rfl⟩ := (amend_eq_some_iff hnode).mp hamend
    rw [← Option.some.inj hfound']
  have hleft {amended : Execution τ ε} (hamend : amend now found messages = .ok (some amended)) :
      ∃ execution, found = some execution ∧
        amended = execution.amended messages (recovery execution messages) ∧
          (OneIsLeft execution messages ∨ NoneIsLeft execution messages) := by
    obtain ⟨-, execution, hfound, hfinished, -, heq⟩ := (amend_eq_some_iff hnode).mp hamend
    exact ⟨execution, hfound, heq, (h.2 execution hfound hfinished hnode).2⟩
  refine ⟨h.returns, fun amended hamend _ => ?_, fun amended hamend => ?_, ?_⟩
  · obtain ⟨execution, -, rfl, hleft⟩ := hleft hamend
    obtain ⟨m, t, hlatest, -, horder⟩ := recovery_of_left hleft
    exact ⟨m, hlatest, (horder execution.nodes (List.Perm.refl _)).1⟩
  · obtain ⟨execution, -, rfl, hleft⟩ := hleft hamend
    obtain ⟨m, t, -, hmax, horder⟩ := recovery_of_left hleft
    exact ⟨t, (horder execution.nodes (List.Perm.refl _)).2, hmax⟩
  · rintro execution nodes amended amended' hfound hperm hamend hamend'
    obtain ⟨execution', hfound', rfl, hleft⟩ := hleft hamend
    obtain rfl : execution = execution' := Option.some.inj (hfound.symm.trans hfound')
    obtain rfl := hamended hamend'
    obtain ⟨m, t, -, -, horder⟩ := recovery_of_left hleft
    obtain ⟨hlast, htime⟩ := horder execution.nodes (List.Perm.refl _)
    obtain ⟨hlast', htime'⟩ := horder nodes hperm
    exact ⟨hlast'.trans hlast.symm, htime'.trans htime.symm⟩

/-- Without node events there is nothing to recover. -/
theorem Condition.recovers_of_no_node (h : Condition found messages)
    (hnode : ¬∃ m ∈ messages, isNodeEventMessage m) : Recovers now found messages := by
  have hcrashed {found : Option (Execution τ ε)} {amended : Execution τ ε}
      (hamend : amend now found messages = .ok (some amended)) :
      ∃ execution, found = some execution ∧
        amended = { execution with status := .crashed, stoppedAt := some now } := by
    rw [amend_of_no_node hnode] at hamend
    replace hamend := Except.ok.inj hamend
    split_ifs at hamend with hnil
    obtain ⟨execution, hfound, heq⟩ := Option.map_eq_some_iff.mp hamend
    exact ⟨execution, hfound, heq.symm⟩
  refine ⟨h.returns, fun amended _ hm => absurd hm hnode, fun amended hamend => ?_, ?_⟩
  · obtain ⟨execution, -, rfl⟩ := hcrashed hamend
    exact ⟨now, rfl, fun m hm hmnode => absurd ⟨m, hm, hmnode⟩ hnode⟩
  · rintro execution nodes amended amended' rfl - hamend hamend'
    obtain ⟨execution', hfound, rfl⟩ := hcrashed hamend
    obtain ⟨execution'', hfound', rfl⟩ := hcrashed hamend'
    rw [← Option.some.inj hfound, ← Option.some.inj hfound']
    exact ⟨rfl, rfl⟩

/-- **When the recovery gives the last node.** -/
theorem recovers_iff (now : ℤ) (found : Option (Execution τ ε)) (messages : List EventMessage) :
    Recovers now found messages ↔ Condition found messages := by
  constructor
  · intro h
    obtain ⟨hmessages, hnodes⟩ := amend_isOk_iff.mp h.returns
    refine ⟨hmessages, ?_⟩
    rintro execution rfl hfinished hnode
    have hmem := hnodes execution rfl hfinished hnode
    exact ⟨hmem, recovers_of_left hnode hfinished hmessages hmem h⟩
  · intro h
    by_cases hnode : ∃ m ∈ messages, isNodeEventMessage m
    · exact h.recovers_of_node hnode
    · exact h.recovers_of_no_node hnode

end Exact

/-! ### Two nodes that ran -/

/-- The second node stands first in the list of the nodes. -/
private def twoNodes : Execution Unit Unit where
  status := .running
  stoppedAt := none
  nodes := ["Second", "First"]
  data := none

private def twoRuns : List EventMessage :=
  [{ eventName := .node .started, ts := 0, nodeName := "First" },
    { eventName := .node .finished, ts := 1, nodeName := "First" },
    { eventName := .node .started, ts := 2, nodeName := "Second" },
    { eventName := .node .finished, ts := 3, nodeName := "Second" }]

/-- The node that ran first is taken for the last one, and the execution for one that stopped when
that node had finished. -/
theorem not_recovers_twoRuns : ¬Recovers 4 (some twoNodes) twoRuns := by
  intro h
  have hamend : amend 4 (some twoNodes) twoRuns =
      .ok (some (twoNodes.amended [] (recovery twoNodes twoRuns))) := rfl
  obtain ⟨t, ht, hmax⟩ := h.stoppedAt _ hamend
  obtain rfl : 1 = t := Option.some.inj ht
  have hlast := hmax { eventName := .node .finished, ts := 3, nodeName := "Second" } (by decide) rfl
  exact absurd hlast (by decide)

end ExecutionRecovery

end N8n
