import Mathlib.Data.List.Induction
import N8n.Foundations.InsertionMap
import N8n.Foundations.JsonValue
import N8n.Foundations.LatestRun

/-!
# The event log

The event bus appends to its log a line for each message that it sends, and one for each
confirmation that a message was delivered. `getUnsentAndUnfinishedExecutions` reads the lines back
when n8n starts: the messages without a confirmation are sent again, and the executions that have
not ended are recovered.

A line is what `serialize` gives, parsed again. What a line says that no reader looks at is left
out: the source of a confirmation, and its time.
-/

namespace N8n

namespace EventLog

/-! ### Messages -/

inductive EventMessageTypeName where
  | generic
  | audit
  | confirm
  | workflow
  | node
  | execution
  | aiNode
  | runner
  | queue
  deriving DecidableEq, Repr

/-- The classes of event messages. -/
inductive EventMessageClass where
  | generic
  | workflow
  | audit
  | node
  | execution
  | aiNode
  | queue
  | runner
  deriving DecidableEq, Repr

/-- The `__type` of the messages of a class. -/
def EventMessageClass.typeName : EventMessageClass → EventMessageTypeName
  | generic => .generic
  | workflow => .workflow
  | audit => .audit
  | node => .node
  | execution => .execution
  | aiNode => .aiNode
  | queue | runner => .runner

structure EventPayload where
  executionId : Option String := none
  /-- The other fields. -/
  fields : List (String × JsonValue) := []
  deriving DecidableEq

structure EventMessage where
  messageClass : EventMessageClass
  id : String
  /-- The time, in the ISO format. -/
  ts : String
  eventName : String
  message : String
  payload : Option EventPayload
  deriving DecidableEq

/-- `msg.payload?.executionId`, when it is truthy. -/
def EventMessage.executionId? (msg : EventMessage) : Option String :=
  msg.payload.bind fun payload => payload.executionId.filter (· ≠ "")

/-! ### Lines -/

/-- A message, as `serialize` writes it. -/
structure MessageLine where
  type : EventMessageTypeName
  id : String
  ts : String
  eventName : String
  message : String
  payload : Option EventPayload

inductive LogLine where
  | message (line : MessageLine)
  /-- With the id of the message that it confirms. -/
  | confirm (confirm : String)

def EventMessage.serialize (msg : EventMessage) : MessageLine where
  type := msg.messageClass.typeName
  id := msg.id
  ts := msg.ts
  eventName := msg.eventName
  message := msg.message
  payload := msg.payload

/-- What the event bus writes. -/
inductive Entry where
  | message (msg : EventMessage)
  | confirm (msgId : String)
  deriving DecidableEq

def Entry.line : Entry → LogLine
  | message msg => .message msg.serialize
  | confirm msgId => .confirm msgId

/-- The characters of `[\w\s]`. -/
def isWordOrSpace (c : Char) : Bool :=
  c.isAlphanum || c == '_' || c.toNat ∈ [0x20, 0xa0, 0x1680, 0x2028, 0x2029, 0x202f, 0x205f, 0x3000,
    0xfeff] || (9 ≤ c.toNat && c.toNat ≤ 13) || (0x2000 ≤ c.toNat && c.toNat ≤ 0x200a)

/-- What follows `[\w\s]+` at the beginning of a text. -/
def afterPart : List Char → Option (List Char)
  | [] => none
  | c :: rest => if isWordOrSpace c then some (rest.dropWhile isWordOrSpace) else none

/-- `eventName.match(/^[\w\s]+\.[\w\s]+\.[\w\s]+/)`; a dot is no part of what comes before it. -/
def isEventName (eventName : String) : Bool :=
  match afterPart eventName.toList with
  | some ('.' :: rest) =>
    match afterPart rest with
    | some ('.' :: rest) => (afterPart rest).isSome
    | _ => false
  | _ => false

def getEventMessageObjectByType (line : MessageLine) : Option EventMessage :=
  let rebuild (messageClass : EventMessageClass) : EventMessage :=
    { messageClass, id := line.id, ts := line.ts, eventName := line.eventName
      message := line.message, payload := line.payload }
  match line.type with
  | .generic => some (rebuild .generic)
  | .workflow => some (rebuild .workflow)
  | .audit => some (rebuild .audit)
  | .node => some (rebuild .node)
  | _ => none

/-! ### Reading -/

structure Config where
  keepLogCount : ℕ
  maxMessagesPerParse : ℕ
  maxTotalMessagesPerFile : ℕ

inductive EventMessageReturnMode where
  | sent
  | unsent
  | all
  | unfinished
  deriving DecidableEq, Repr

structure ReadMessagesResult where
  loggedMessages : List EventMessage := []
  sentMessages : List EventMessage := []
  unfinishedExecutions : InsertionMap String (List EventMessage) := .empty

/-- What an event of an execution does to the unfinished executions. -/
def trackExecution (unfinished : InsertionMap String (List EventMessage)) (executionId : String)
    (msg : EventMessage) : InsertionMap String (List EventMessage) :=
  let withEntry := if unfinished.has executionId then unfinished else unfinished.set executionId []
  match msg.eventName with
  | "n8n.workflow.started" => withEntry.set executionId [msg]
  | "n8n.workflow.success" | "n8n.workflow.failed" | "n8n.execution.throttled"
  | "n8n.execution.started-during-bootup" => unfinished.erase executionId
  | "n8n.node.started" | "n8n.node.finished" =>
    withEntry.set executionId ((withEntry.get? executionId).getD [] ++ [msg])
  | _ => unfinished

def processLoggedLine (results : ReadMessagesResult) (mode : EventMessageReturnMode) :
    LogLine → ReadMessagesResult
  | .message line =>
    if isEventName line.eventName then
      match getEventMessageObjectByType line with
      | none => results
      | some msg =>
        let results := { results with loggedMessages := results.loggedMessages ++ [msg] }
        match msg.executionId? with
        | none => results
        | some executionId =>
          { results with
            unfinishedExecutions := trackExecution results.unfinishedExecutions executionId msg }
    else results
  | .confirm confirm =>
    if mode ≠ .all then
      let removedMessages := results.loggedMessages.filter fun msg => msg.id = confirm
      { results with
        loggedMessages := results.loggedMessages.filter fun msg => msg.id ≠ confirm
        sentMessages :=
          if mode = .sent then results.sentMessages ++ removedMessages else results.sentMessages }
    else results

/-- Whether the reading of a file is given up after a line. Every line can be parsed. -/
def guardTrips (config : Config) (mode : EventMessageReturnMode) (baselineCount : ℕ)
    (results : ReadMessagesResult) : Bool :=
  let count : ℤ := results.loggedMessages.length - baselineCount
  mode ≠ .all && count > config.maxMessagesPerParse || count ≥ config.maxTotalMessagesPerFile

/-- The lines of a file, up to the one at which the reading is given up. -/
def readLines (config : Config) (mode : EventMessageReturnMode) (baselineCount : ℕ) :
    ReadMessagesResult → List LogLine → ReadMessagesResult
  | results, [] => results
  | results, line :: lines =>
    let results := processLoggedLine results mode line
    if guardTrips config mode baselineCount results then results
    else readLines config mode baselineCount results lines

def readLoggedMessagesFromFile (config : Config) (mode : EventMessageReturnMode)
    (results : ReadMessagesResult) (lines : List LogLine) : ReadMessagesResult :=
  readLines config mode results.loggedMessages.length results lines

/-- The counters of the files that are read, the oldest first. -/
def fileCounters (config : Config) (logHistory : ℕ) : List ℕ :=
  let logCount :=
    if logHistory ≠ 0 then min config.keepLogCount logHistory else config.keepLogCount
  (List.range (logCount + 1)).reverse

/-- `files` gives the lines of the log file with a counter, if there is that file. -/
def getMessages (config : Config) (files : ℕ → Option (List LogLine))
    (mode : EventMessageReturnMode) (logHistory : ℕ) : ReadMessagesResult :=
  (fileCounters config logHistory).foldl (fun results i =>
    match files i with
    | none => results
    | some lines => readLoggedMessagesFromFile config mode results lines) {}

structure UnsentAndUnfinished where
  unsentMessages : List EventMessage
  unfinishedExecutions : InsertionMap String (List EventMessage)

def getUnsentAndUnfinishedExecutions (config : Config) (files : ℕ → Option (List LogLine)) :
    UnsentAndUnfinished :=
  let result := getMessages config files .unsent 1
  { unsentMessages := result.loggedMessages, unfinishedExecutions := result.unfinishedExecutions }

/-! ### What a log says -/

/-- The messages of a log that no later entry confirms. -/
def unsent : List Entry → List EventMessage
  | [] => []
  | .message msg :: later => if .confirm msg.id ∈ later then unsent later else msg :: unsent later
  | .confirm _ :: later => unsent later

def Entry.message? : Entry → Option EventMessage
  | message msg => some msg
  | confirm _ => none

/-- The events that end or supersede a run. -/
def endingEvents : List String :=
  ["n8n.workflow.success", "n8n.workflow.failed", "n8n.workflow.cancelled",
    "n8n.execution.throttled", "n8n.execution.started-during-bootup"]

/-- What an event of a name is to the run of its execution, by the names that end a run. -/
def runRole (endings : List String) (eventName : String) : RunRole :=
  if eventName = "n8n.workflow.started" then .starts
  else if eventName ∈ endings then .ends
  else if eventName ∈ ["n8n.node.started", "n8n.node.finished"] then .continues
  else .other

/-- What a message is to the run of an execution. -/
def roleFor (executionId : String) (msg : EventMessage) : RunRole :=
  if msg.executionId? = some executionId then runRole endingEvents msg.eventName else .other

/-- The messages of a log, the newest first. -/
def newestFirst (entries : List Entry) : List EventMessage :=
  (entries.filterMap Entry.message?).reverse

/-- A run that has begun. -/
def nonemptyRun : List EventMessage → Option (List EventMessage)
  | [] => none
  | run => some run

/-- The events of an execution since its run has started, unless it is over. -/
def unfinished (entries : List Entry) (executionId : String) : Option (List EventMessage) :=
  nonemptyRun (latestRun (roleFor executionId) (newestFirst entries))

/-! ### What the event bus writes -/

def eventNamesExecution : List String :=
  ["n8n.execution.throttled", "n8n.execution.started-during-bootup"]

def eventNamesRunner : List String :=
  ["n8n.runner.task.requested", "n8n.runner.response.received"]

def eventNamesQueue : List String :=
  ["n8n.queue.job.enqueued", "n8n.queue.job.dequeued", "n8n.queue.job.completed",
    "n8n.queue.job.failed", "n8n.queue.job.stalled"]

def eventNamesAiNodes : List String :=
  ["n8n.ai.memory.get.messages", "n8n.ai.memory.added.message", "n8n.ai.output.parser.parsed",
    "n8n.ai.retriever.get.relevant.documents", "n8n.ai.embeddings.embedded.document",
    "n8n.ai.embeddings.embedded.query", "n8n.ai.document.processed", "n8n.ai.text.splitter.split",
    "n8n.ai.tool.called", "n8n.ai.vector.store.searched", "n8n.ai.llm.generated",
    "n8n.ai.llm.error", "n8n.ai.vector.store.populated", "n8n.ai.vector.store.updated"]

/-- The name of a message is one of its class. Of the names of other classes only the form is
used. -/
def EventMessage.Writable (msg : EventMessage) : Prop :=
  isEventName msg.eventName ∧
    match msg.messageClass with
    | .execution => msg.eventName ∈ eventNamesExecution
    | .aiNode => msg.eventName ∈ eventNamesAiNodes
    | .runner => msg.eventName ∈ eventNamesRunner
    | .queue => msg.eventName ∈ eventNamesQueue
    | .generic | .workflow | .audit | .node => True

example : ∀ name ∈ eventNamesExecution ++ eventNamesQueue, isEventName name := by decide +kernel

/-- The messages of these classes are read back. -/
def EventMessageClass.isRebuilt : EventMessageClass → Bool
  | generic | workflow | audit | node => true
  | execution | aiNode | queue | runner => false

/-- The names that `processLoggedLine` lists as endings. -/
def listedEndings : List String :=
  ["n8n.workflow.success", "n8n.workflow.failed", "n8n.execution.throttled",
    "n8n.execution.started-during-bootup"]

/-- What `processLoggedLine` takes a message for. -/
def seenRoleFor (executionId : String) (msg : EventMessage) : RunRole :=
  if msg.messageClass.isRebuilt ∧ msg.executionId? = some executionId then
    runRole listedEndings msg.eventName
  else .other

/-! ### Reading lines back -/

theorem getEventMessageObjectByType_serialize (msg : EventMessage) :
    getEventMessageObjectByType msg.serialize =
      if msg.messageClass.isRebuilt then some msg else none := by
  obtain ⟨messageClass, id, ts, eventName, message, payload⟩ := msg
  cases messageClass <;> rfl

theorem unsent_concat_message (entries : List Entry) (msg : EventMessage) :
    unsent (entries ++ [.message msg]) = unsent entries ++ [msg] := by
  induction entries with
  | nil => simp [unsent]
  | cons entry entries ih =>
    cases entry with
    | message msg' =>
      simp only [List.cons_append, unsent, ih, List.mem_append, List.mem_singleton, reduceCtorEq,
        or_false]
      split_ifs <;> rfl
    | confirm => simpa only [List.cons_append, unsent] using ih

theorem unsent_concat_confirm (entries : List Entry) (msgId : String) :
    unsent (entries ++ [.confirm msgId]) = (unsent entries).filter fun msg => msg.id ≠ msgId := by
  induction entries with
  | nil => rfl
  | cons entry entries ih =>
    cases entry with
    | message msg =>
      simp only [List.cons_append, unsent, ih, List.mem_append, List.mem_singleton,
        Entry.confirm.injEq]
      by_cases hmem : .confirm msg.id ∈ entries
      · simp only [hmem, true_or, if_true]
      · by_cases hid : msg.id = msgId
        · subst hid
          simp [hmem]
        · simp [hmem, hid]
    | confirm => simpa only [List.cons_append, unsent] using ih

theorem newestFirst_concat (entries : List Entry) (entry : Entry) :
    newestFirst (entries ++ [entry]) = entry.message?.toList ++ newestFirst entries := by
  cases entry <;> simp [newestFirst, Entry.message?]

theorem nonemptyRun_of_ne_nil {run : List EventMessage} (h : run ≠ []) :
    nonemptyRun run = some run := by
  cases run with
  | nil => exact absurd rfl h
  | cons => rfl

theorem nonemptyRun_injective : Function.Injective nonemptyRun := by
  intro run run' h
  cases run <;> cases run' <;> simp_all [nonemptyRun]

theorem getD_nonemptyRun (run : List EventMessage) : (nonemptyRun run).getD [] = run := by
  cases run <;> rfl

theorem runRole_listedEndings (eventName : String) :
    runRole listedEndings eventName =
      match eventName with
      | "n8n.workflow.started" => .starts
      | "n8n.workflow.success" | "n8n.workflow.failed" | "n8n.execution.throttled"
      | "n8n.execution.started-during-bootup" => .ends
      | "n8n.node.started" | "n8n.node.finished" => .continues
      | _ => .other := by
  split <;> simp_all [runRole, listedEndings]

/-- What an event does to the executions, by what it is taken for. -/
theorem get?_trackExecution (unfinished : InsertionMap String (List EventMessage))
    (executionId other : String) (msg : EventMessage) :
    (trackExecution unfinished executionId msg).get? other =
      if other = executionId then
        match runRole listedEndings msg.eventName with
        | .starts => some [msg]
        | .continues => some ((unfinished.get? executionId).getD [] ++ [msg])
        | .ends => none
        | .other => unfinished.get? executionId
      else unfinished.get? other := by
  -- the entry that is made for an execution without one
  have hentry : ∀ k, ((if unfinished.has executionId then unfinished
      else unfinished.set executionId []).get? k).getD [] = (unfinished.get? k).getD [] := by
    intro k
    split_ifs with hhas
    · rfl
    · rw [InsertionMap.get?_set]
      split_ifs with hk
      · rw [hk, Option.not_isSome_iff_eq_none.mp hhas]
        rfl
      · rfl
  have hothers : ∀ k, k ≠ executionId → (if unfinished.has executionId then unfinished
      else unfinished.set executionId []).get? k = unfinished.get? k := by
    intro k hk
    split_ifs
    · rfl
    · exact InsertionMap.get?_set_of_ne _ hk _
  simp only [trackExecution, runRole_listedEndings]
  generalize (if unfinished.has executionId then unfinished
    else unfinished.set executionId []) = withEntry at hentry hothers ⊢
  by_cases hother : other = executionId
  · subst hother
    rw [if_pos rfl]
    split <;> simp only [InsertionMap.get?_set_self, InsertionMap.get?_erase, if_true, hentry]
  · rw [if_neg hother]
    split <;> simp only [InsertionMap.get?_set_of_ne _ hother, InsertionMap.get?_erase, hother,
      if_false, hothers _ hother]

/-! ### A pass over the lines -/

/-- All lines of the entries, without guards. -/
def replay (entries : List Entry) : ReadMessagesResult :=
  (entries.map Entry.line).foldl (fun results line => processLoggedLine results .unsent line) {}

theorem replay_concat (entries : List Entry) (entry : Entry) :
    replay (entries ++ [entry]) = processLoggedLine (replay entries) .unsent entry.line := by
  rw [replay, List.map_append, List.foldl_append]
  rfl

/-- What a pass over the lines finds. -/
structure Found (entries : List Entry) (results : ReadMessagesResult) : Prop where
  loggedMessages :
    results.loggedMessages = (unsent entries).filter fun msg => msg.messageClass.isRebuilt
  unfinishedExecutions : ∀ executionId, results.unfinishedExecutions.get? executionId =
    nonemptyRun (latestRun (seenRoleFor executionId) (newestFirst entries))

theorem Found.message {entries : List Entry} {results : ReadMessagesResult}
    (h : Found entries results) {msg : EventMessage} (hname : isEventName msg.eventName) :
    Found (entries ++ [.message msg])
      (processLoggedLine results .unsent (.message msg.serialize)) := by
  have hline : msg.serialize.eventName = msg.eventName := rfl
  simp only [processLoggedLine, hline, hname, if_true, getEventMessageObjectByType_serialize]
  have hnewest : newestFirst (entries ++ [.message msg]) = msg :: newestFirst entries :=
    newestFirst_concat entries (.message msg)
  have hother : ∀ executionId, seenRoleFor executionId msg = .other →
      nonemptyRun (latestRun (seenRoleFor executionId) (newestFirst (entries ++ [.message msg]))) =
        results.unfinishedExecutions.get? executionId := by
    intro executionId hrole
    rw [hnewest, latestRun_of_other _ hrole, h.unfinishedExecutions]
  split_ifs with hrebuilt
  · have hlogged : results.loggedMessages ++ [msg] =
        (unsent (entries ++ [.message msg])).filter fun msg => msg.messageClass.isRebuilt := by
      rw [unsent_concat_message, List.filter_append, h.loggedMessages, List.filter_cons_of_pos
        (by simpa using hrebuilt), List.filter_nil]
    cases hid : msg.executionId? with
    | none =>
      simp only [hid]
      refine ⟨hlogged, fun executionId => (hother executionId ?_).symm⟩
      simp [seenRoleFor, hid]
    | some id =>
      simp only [hid]
      refine ⟨hlogged, fun executionId => ?_⟩
      rw [get?_trackExecution]
      split_ifs with heq
      · subst heq
        have hrole : seenRoleFor executionId msg = runRole listedEndings msg.eventName := by
          simp [seenRoleFor, hrebuilt, hid]
        rw [hnewest, latestRun, hrole, h.unfinishedExecutions]
        cases runRole listedEndings msg.eventName with
        | starts | ends | other => rfl
        | continues =>
          simp only [getD_nonemptyRun]
          exact (nonemptyRun_of_ne_nil (by simp)).symm
      · refine (hother executionId ?_).symm
        have hne : id ≠ executionId := fun h => heq h.symm
        simp [seenRoleFor, hid, hne]
  · refine ⟨?_, fun executionId => (hother executionId ?_).symm⟩
    · rw [unsent_concat_message, List.filter_append, h.loggedMessages, List.filter_cons_of_neg
        (by simpa using hrebuilt), List.filter_nil, List.append_nil]
    · simp [seenRoleFor, hrebuilt]

theorem Found.confirm {entries : List Entry} {results : ReadMessagesResult}
    (h : Found entries results) (msgId : String) :
    Found (entries ++ [.confirm msgId]) (processLoggedLine results .unsent (.confirm msgId)) where
  loggedMessages := by
    simp only [processLoggedLine, reduceCtorEq, ne_eq, not_false_eq_true, if_true]
    rw [unsent_concat_confirm, h.loggedMessages, List.filter_comm]
  unfinishedExecutions := by
    intro executionId
    rw [newestFirst_concat]
    exact h.unfinishedExecutions executionId

theorem found_replay {entries : List Entry}
    (h : ∀ msg, .message msg ∈ entries → isEventName msg.eventName) :
    Found entries (replay entries) := by
  induction entries using List.reverseRecOn with
  | nil => exact ⟨rfl, fun _ => rfl⟩
  | append_singleton entries entry ih =>
    have ih := ih fun msg hmsg => h msg (List.mem_append_left _ hmsg)
    rw [replay_concat]
    cases entry with
    | message msg => exact ih.message (h msg (by simp))
    | confirm msgId => exact ih.confirm msgId

/-! ### Below the guards -/

/-- The log entries of the files that are read, the oldest file first. -/
def filesRead (config : Config) (files : ℕ → Option (List Entry)) : List (List Entry) :=
  (fileCounters config 1).filterMap files

/-- The lines of the files. -/
def lines (files : ℕ → Option (List Entry)) (i : ℕ) : Option (List LogLine) :=
  (files i).map (·.map Entry.line)

/-- No guard gives up the reading of a file. -/
def BelowGuards (config : Config) : List Entry → List (List Entry) → Prop
  | _, [] => True
  | earlier, file :: later =>
    (∀ front back, file = front ++ back → front ≠ [] →
      guardTrips config .unsent (replay earlier).loggedMessages.length
        (replay (earlier ++ front)) = false) ∧
      BelowGuards config (earlier ++ file) later

theorem readLines_eq {config : Config} {baselineCount : ℕ} {earlier file : List Entry}
    (h : ∀ front back, file = front ++ back → front ≠ [] →
      guardTrips config .unsent baselineCount (replay (earlier ++ front)) = false) :
    readLines config .unsent baselineCount (replay earlier) (file.map Entry.line) =
      replay (earlier ++ file) := by
  induction file generalizing earlier with
  | nil => rw [List.append_nil]; rfl
  | cons entry file ih =>
    rw [List.map_cons, readLines, ← replay_concat, h [entry] file rfl (List.cons_ne_nil _ _)]
    rw [if_neg Bool.false_ne_true, ih, List.append_assoc]
    · rfl
    · intro front back heq _
      rw [List.append_assoc]
      exact h (entry :: front) back (by rw [heq]; rfl) (List.cons_ne_nil _ _)

theorem foldl_readFiles_eq {config : Config} {earlier : List Entry} {later : List (List Entry)}
    (h : BelowGuards config earlier later) :
    later.foldl (fun results file =>
      readLoggedMessagesFromFile config .unsent results (file.map Entry.line)) (replay earlier) =
        replay (earlier ++ later.flatten) := by
  induction later generalizing earlier with
  | nil => simp
  | cons file later ih =>
    obtain ⟨hfile, hlater⟩ := h
    rw [List.foldl_cons, readLoggedMessagesFromFile, readLines_eq hfile, ih hlater,
      List.flatten_cons, List.append_assoc]

theorem getMessages_eq {config : Config} {files : ℕ → Option (List Entry)}
    (h : BelowGuards config [] (filesRead config files)) :
    getMessages config (lines files) .unsent 1 = replay (filesRead config files).flatten := by
  have hfold := foldl_readFiles_eq h
  rw [List.nil_append, filesRead, List.foldl_filterMap] at hfold
  rw [filesRead, ← hfold, getMessages]
  refine congrFun (congrFun (congrArg _ ?_) _) _
  funext results i
  rw [lines]
  cases files i <;> rfl

/-- A line adds a message at most. -/
theorem length_loggedMessages_le (results : ReadMessagesResult) (mode : EventMessageReturnMode)
    (line : LogLine) : (processLoggedLine results mode line).loggedMessages.length ≤
      results.loggedMessages.length + 1 := by
  cases line with
  | message line =>
    simp only [processLoggedLine]
    split
    · split
      · exact Nat.le_succ _
      · split <;> simp
    · exact Nat.le_succ _
  | confirm =>
    simp only [processLoggedLine]
    split
    · exact Nat.le_succ_of_le (List.length_filter_le _ _)
    · exact Nat.le_succ _

/-- Files with few lines are below the guards. -/
theorem belowGuards_of_length {config : Config} {earlier : List Entry} {later : List (List Entry)}
    (h : ∀ file ∈ later, file.length ≤ config.maxMessagesPerParse ∧
      file.length < config.maxTotalMessagesPerFile) : BelowGuards config earlier later := by
  induction later generalizing earlier with
  | nil => trivial
  | cons file later ih =>
    refine ⟨fun front back heq _ => ?_, ih fun f hf => h f (List.mem_cons_of_mem _ hf)⟩
    have hlength : ∀ front : List Entry, (replay (earlier ++ front)).loggedMessages.length ≤
        (replay earlier).loggedMessages.length + front.length := by
      intro front
      induction front using List.reverseRecOn with
      | nil => simp
      | append_singleton front entry ihFront =>
        rw [← List.append_assoc, replay_concat, List.length_append, List.length_singleton]
        have := length_loggedMessages_le (replay (earlier ++ front)) .unsent entry.line
        omega
    obtain ⟨hparse, htotal⟩ := h file List.mem_cons_self
    have hfront := hlength front
    have hfile : front.length ≤ file.length := by
      rw [heq, List.length_append]
      omega
    simp only [guardTrips, Bool.or_eq_false_iff, Bool.and_eq_false_iff, decide_eq_false_iff_not]
    omega

/-! ### When the log is accounted for -/

/-- What is read back is what the log says. -/
structure ReadsBack (config : Config) (files : ℕ → Option (List Entry)) (entries : List Entry) :
    Prop where
  unsentMessages :
    (getUnsentAndUnfinishedExecutions config (lines files)).unsentMessages = unsent entries
  unfinishedExecutions : ∀ executionId,
    (getUnsentAndUnfinishedExecutions config (lines files)).unfinishedExecutions.get? executionId =
      unfinished entries executionId

/-- Every message without a confirmation is of a class that is read back; and every event that ends
a run and is not seen to do so is of no run, or a start or an end that is seen comes later. -/
structure Accounted (entries : List Entry) : Prop where
  messages : ∀ earlier msg later, entries = earlier ++ .message msg :: later →
    msg.messageClass.isRebuilt ∨ .confirm msg.id ∈ later
  executions : ∀ executionId, MissesHarmlessly (roleFor executionId) (seenRoleFor executionId)
    (newestFirst entries)

theorem mem_unsent_iff {entries : List Entry} {msg : EventMessage} :
    msg ∈ unsent entries ↔ ∃ earlier later, entries = earlier ++ .message msg :: later ∧
      .confirm msg.id ∉ later := by
  induction entries with
  | nil => simp [unsent]
  | cons entry entries ih =>
    have hlater : (∃ earlier later, entry :: entries = earlier ++ .message msg :: later ∧
        .confirm msg.id ∉ later) ↔
          (entry = .message msg ∧ .confirm msg.id ∉ entries) ∨ msg ∈ unsent entries := by
      rw [ih]
      constructor
      · intro ⟨earlier, later, heq, hconfirm⟩
        obtain ⟨rfl, hcons⟩ | ⟨earlier', rfl, hentries⟩ := List.cons_eq_append_iff.mp heq
        · obtain ⟨rfl, rfl⟩ := List.cons.inj hcons
          exact .inl ⟨rfl, hconfirm⟩
        · exact .inr ⟨earlier', later, hentries, hconfirm⟩
      · intro h
        obtain ⟨rfl, hconfirm⟩ | ⟨earlier, later, rfl, hconfirm⟩ := h
        · exact ⟨[], entries, rfl, hconfirm⟩
        · exact ⟨entry :: earlier, later, rfl, hconfirm⟩
    rw [hlater]
    cases entry with
    | confirm => simp [unsent]
    | message msg' =>
      rw [unsent, Entry.message.injEq]
      by_cases hmsg : msg' = msg
      · subst hmsg
        by_cases hconfirm : .confirm msg'.id ∈ entries <;> simp [hconfirm]
      · have hne : msg ≠ msg' := Ne.symm hmsg
        split_ifs <;> simp [hmsg, hne]

/-- Only ends are missed: that of a cancelled run, and those of the class of execution events. -/
theorem missesEnds_roleFor {msg : EventMessage} (h : msg.Writable) (executionId : String) :
    MissesEnds (roleFor executionId) (seenRoleFor executionId) msg := by
  rw [MissesEnds, roleFor, seenRoleFor]
  by_cases hid : msg.executionId? = some executionId
  · by_cases hrebuilt : msg.messageClass.isRebuilt
    · simp only [hid, hrebuilt, and_self, if_true, runRole, listedEndings, endingEvents,
        List.mem_cons, List.not_mem_nil, or_false]
      split_ifs <;> simp_all
    · simp only [hid, hrebuilt, Bool.false_eq_true, if_false, if_true, and_true]
      -- the names of the classes that are not read back start and continue no run
      have hrole : runRole endingEvents msg.eventName = .ends ∨
          runRole endingEvents msg.eventName = .other := by
        obtain ⟨-, hname⟩ := h
        cases hclass : msg.messageClass with
        | generic | workflow | audit | node =>
          simp [hclass, EventMessageClass.isRebuilt] at hrebuilt
        | execution =>
          simp only [hclass, eventNamesExecution, List.mem_cons, List.not_mem_nil,
            or_false] at hname
          obtain h | h := hname <;> simp [h, runRole, endingEvents]
        | aiNode =>
          simp only [hclass, eventNamesAiNodes, List.mem_cons, List.not_mem_nil, or_false] at hname
          right
          obtain h | h | h | h | h | h | h | h | h | h | h | h | h | h := hname <;>
            simp [h, runRole, endingEvents]
        | queue =>
          simp only [hclass, eventNamesQueue, List.mem_cons, List.not_mem_nil, or_false] at hname
          right
          obtain h | h | h | h | h := hname <;> simp [h, runRole, endingEvents]
        | runner =>
          simp only [hclass, eventNamesRunner, List.mem_cons, List.not_mem_nil, or_false] at hname
          right
          obtain h | h := hname <;> simp [h, runRole, endingEvents]
      exact hrole.symm.imp_left Eq.symm
  · simp [hid]

/-- **The event log.** What is read back is what the log says exactly when the log is accounted
for. -/
theorem readsBack_iff {config : Config}
    {files : ℕ → Option (List Entry)} {entries : List Entry}
    (hentries : (filesRead config files).flatten = entries)
    (hguards : BelowGuards config [] (filesRead config files))
    (hwritable : ∀ msg, .message msg ∈ entries → msg.Writable) :
    ReadsBack config files entries ↔ Accounted entries := by
  have hfound := found_replay fun msg hmsg => (hwritable msg hmsg).1
  have hread : ReadsBack config files entries ↔ (replay entries).loggedMessages = unsent entries ∧
      ∀ executionId, (replay entries).unfinishedExecutions.get? executionId =
        unfinished entries executionId := by
    have hresult : getUnsentAndUnfinishedExecutions config (lines files) =
        ⟨(replay entries).loggedMessages, (replay entries).unfinishedExecutions⟩ := by
      rw [getUnsentAndUnfinishedExecutions, getMessages_eq hguards, hentries]
    constructor
    · intro ⟨hunsent, hunfinished⟩
      rw [hresult] at hunsent hunfinished
      exact ⟨hunsent, hunfinished⟩
    · intro ⟨hunsent, hunfinished⟩
      constructor
      · rw [hresult]
        exact hunsent
      · rw [hresult]
        exact hunfinished
  have hmissed : ∀ executionId, ∀ msg ∈ newestFirst entries,
      MissesEnds (roleFor executionId) (seenRoleFor executionId) msg := by
    intro executionId msg hmsg
    refine missesEnds_roleFor (hwritable msg ?_) executionId
    obtain ⟨entry, hentry, hmessage⟩ := List.mem_filterMap.mp (List.mem_reverse.mp hmsg)
    cases entry with
    | message msg' => exact Option.some.inj hmessage ▸ hentry
    | confirm => cases hmessage
  have hmessages : (replay entries).loggedMessages = unsent entries ↔
      ∀ earlier msg later, entries = earlier ++ .message msg :: later →
        msg.messageClass.isRebuilt ∨ .confirm msg.id ∈ later := by
    rw [hfound.loggedMessages, List.filter_eq_self]
    constructor
    · intro h earlier msg later heq
      by_contra hnot
      rw [not_or] at hnot
      exact hnot.1 (h msg (mem_unsent_iff.mpr ⟨earlier, later, heq, hnot.2⟩))
    · intro h msg hmsg
      obtain ⟨earlier, later, heq, hconfirm⟩ := mem_unsent_iff.mp hmsg
      exact (h earlier msg later heq).resolve_right hconfirm
  have hexecutions : (∀ executionId, (replay entries).unfinishedExecutions.get? executionId =
      unfinished entries executionId) ↔
        ∀ executionId, MissesHarmlessly (roleFor executionId) (seenRoleFor executionId)
          (newestFirst entries) := by
    refine forall_congr' fun executionId => ?_
    rw [hfound.unfinishedExecutions, unfinished, nonemptyRun_injective.eq_iff,
      latestRun_eq_iff (hmissed executionId)]
  rw [hread, hmessages, hexecutions]
  exact ⟨fun ⟨h, h'⟩ => ⟨h, h'⟩, fun ⟨h, h'⟩ => ⟨h, h'⟩⟩

/-! ### A cancelled execution -/

/-- The event of an execution. -/
def executionEvent (messageClass : EventMessageClass) (id eventName executionId : String) :
    EventMessage where
  messageClass
  id
  ts := "2026-01-01T00:00:00.000Z"
  eventName
  message := eventName
  payload := some { executionId := some executionId }

/-- An execution that is started and cancelled, and whose events are delivered. -/
def cancelledExecution : List Entry :=
  [.message (executionEvent .workflow "a" "n8n.workflow.started" "1"), .confirm "a",
    .message (executionEvent .workflow "b" "n8n.workflow.cancelled" "1"), .confirm "b"]

/-- One log file, without earlier ones. -/
def oneFile (entries : List Entry) : ℕ → Option (List Entry)
  | 0 => some entries
  | _ => none

def smallLog : Config where
  keepLogCount := 10
  maxMessagesPerParse := 100
  maxTotalMessagesPerFile := 1000

theorem belowGuards_cancelledExecution :
    BelowGuards smallLog [] (filesRead smallLog (oneFile cancelledExecution)) :=
  belowGuards_of_length (by decide)

theorem writable_cancelledExecution : ∀ msg, .message msg ∈ cancelledExecution → msg.Writable := by
  intro msg hmsg
  simp only [cancelledExecution, List.mem_cons, Entry.message.injEq, reduceCtorEq, false_or,
    List.not_mem_nil, or_false] at hmsg
  obtain rfl | rfl := hmsg <;> exact ⟨by decide, trivial⟩

theorem readsBack_iff_cancelledExecution :
    ReadsBack smallLog (oneFile cancelledExecution) cancelledExecution ↔
      Accounted cancelledExecution :=
  readsBack_iff (by decide) belowGuards_cancelledExecution writable_cancelledExecution

theorem not_readsBack_cancelledExecution :
    BelowGuards smallLog [] (filesRead smallLog (oneFile cancelledExecution)) ∧
      (∀ msg, .message msg ∈ cancelledExecution → msg.Writable) ∧
      ¬ ReadsBack smallLog (oneFile cancelledExecution) cancelledExecution := by
  refine ⟨belowGuards_cancelledExecution, writable_cancelledExecution, fun h => ?_⟩
  have hunfinished := h.unfinishedExecutions "1"
  revert hunfinished
  decide

end EventLog

end N8n
