import Mathlib.Data.List.Nodup
import Mathlib.Data.Rat.Floor
import Mathlib.Logic.Function.Basic
import N8n.Foundations.TimerSlot
import N8n.Foundations.Transition

/-!
# The buffer of the insights collection service

The service buffers what it learns of a finished execution and writes the buffer to the database
in batches. A flush swaps the buffer and awaits the database; meanwhile the handlers go on
filling the buffer, and other flushes start, fail and put their events back.

`State` is the service with its flushes, the handlers and shutdowns that await one, and the
database; `step` is what happens between two turns of the event loop. An insert stores all its
rows or none. In every run every collected event is in the buffer, in one flush or in the
database, and nowhere twice (`events_conserved`): what a step does to the places of an event is
said once for each part of the service, in the `places_…` lemmas.
-/

namespace N8n.Insights

open Transition

/-! ## What is collected of an execution -/

inductive ExecutionStatus
  | success | crashed | error | canceled | new | running | unknown | waiting
  deriving DecidableEq, Repr

inductive WorkflowExecuteMode
  | cli | error | retry | trigger | webhook | evaluation | integrated | internal | manual | chat
  | agent
  deriving DecidableEq, Repr

def shouldSkipStatus : ExecutionStatus → Bool
  | .success | .crashed | .error => false
  | .canceled | .new | .running | .unknown | .waiting => true

def shouldSkipMode : WorkflowExecuteMode → Bool
  | .cli | .error | .retry | .trigger | .webhook | .evaluation => false
  | .integrated | .internal | .manual | .chat | .agent => true

/-- A number of the source. The values that are not finite are not told apart. -/
inductive Number
  | finite (value : ℚ)
  | nonFinite
  deriving DecidableEq, Repr

def Number.add : Number → Number → Number
  | .finite a, .finite b => .finite (a + b)
  | _, _ => .nonFinite

/-- `Math.round` rounds halves up. -/
def integerValueForInsightsRaw : Number → ℤ
  | .nonFinite => 0
  | .finite value => (value + 1 / 2).floor

def minRuntime : ℤ := 0

def maxRuntime : ℤ := 2 ^ 31 - 1

inductive InsightType
  | success | failure | runtimeMs | timeSavedMin
  deriving DecidableEq, Repr

structure BufferedInsight where
  workflowId : String
  workflowName : String
  type : InsightType
  value : Number
  timestamp : ℤ
  deriving DecidableEq, Repr

/-- What the handler reads of a finished execution, and when it runs. The run data has for each
node and each of its runs the minutes that its metadata says were saved. -/
structure WorkflowExecuteAfterContext where
  workflowId : String
  workflowName : String
  status : ExecutionStatus
  mode : WorkflowExecuteMode
  startedAt : ℤ
  stoppedAt : Option ℤ
  timeSavedMode : Option String
  timeSavedPerExecution : Option Number
  runData : List (String × List (Option Number))
  now : ℤ
  deriving DecidableEq, Repr

def extractTimeSavedFromNodes (runData : List (String × List (Option Number))) : Number :=
  (runData.flatMap Prod.snd).reduceOption.foldl Number.add (.finite 0)

def calculateTimeSaved (ctx : WorkflowExecuteAfterContext) : Number :=
  if ctx.timeSavedMode ≠ some "dynamic" then ctx.timeSavedPerExecution.getD (.finite 0)
  else extractTimeSavedFromNodes ctx.runData

/-- The insights of one execution, in the order in which they are added. -/
def insightsOf (ctx : WorkflowExecuteAfterContext) : List BufferedInsight :=
  let insight (type : InsightType) (value : Number) : BufferedInsight :=
    ⟨ctx.workflowId, ctx.workflowName, type, value, ctx.now⟩
  let runtime (stoppedAt : ℤ) : Number :=
    .finite (min (max (stoppedAt - ctx.startedAt) minRuntime) maxRuntime : ℤ)
  insight (if ctx.status = .success then .success else .failure) (.finite 1) ::
    (ctx.stoppedAt.toList.map fun stoppedAt => insight .runtimeMs (runtime stoppedAt)) ++
    if ctx.status = .success then [insight .timeSavedMin (calculateTimeSaved ctx)] else []

/-! ## The service -/

structure InsightsConfig where
  flushBatchSize : ℕ
  flushIntervalSeconds : ℕ
  deriving DecidableEq, Repr

/-- An object of the buffer. The objects are told apart by the number of their making. -/
structure Event where
  number : ℕ
  insight : BufferedInsight
  deriving DecidableEq, Repr

/-- A fresh entity has no `metaId` until the database gives it one. -/
structure InsightsMetadata where
  metaId : Option ℕ
  workflowId : String
  workflowName : Option String
  projectId : String
  projectName : String
  deriving DecidableEq, Repr

structure SharedWorkflow where
  workflowId : String
  projectId : String
  projectName : String
  deriving DecidableEq, Repr

structure InsightsRaw where
  metaId : Option ℕ
  type : InsightType
  value : ℤ
  timestamp : ℤ
  deriving DecidableEq, Repr

/-- What a flush awaits, and in the last two cases what its wait came to. -/
inductive Stage
  | finding
  | upserting (metadata : List InsightsMetadata)
  | reading
  | inserting (rows : List InsightsRaw)
  | stored
  | failed
  deriving DecidableEq, Repr

structure Flush where
  id : ℕ
  events : List Event
  stage : Stage
  deriving DecidableEq, Repr

/-- The service, its flushes, the handlers that await a flush of their own, the flushes that each
shutdown awaits, and the database. `collected` remembers every event that was ever added. -/
structure State where
  cachedMetadata : String → Option InsightsMetadata := fun _ => none
  bufferedInsights : List Event := []
  flushInsightsRawBufferTimer : TimerSlot ℕ := {}
  isAsynchronouslySavingInsights : Bool := true
  flushesInProgress : List ℕ := []
  isInitialized : Bool := false
  flushes : List Flush := []
  handlers : List (Option ℕ) := []
  shutdowns : List (List ℕ) := []
  database : List (Event × InsightsRaw) := []
  collected : List Event := []
  nextFlush : ℕ := 0

namespace State

variable (config : InsightsConfig) (s : State)

def cancelScheduledFlushing : State :=
  { s with flushInsightsRawBufferTimer :=
      { s.flushInsightsRawBufferTimer.clear with field := none } }

def scheduleFlushing : State :=
  if s.isInitialized then
    { s.cancelScheduledFlushing with
      flushInsightsRawBufferTimer :=
        s.cancelScheduledFlushing.flushInsightsRawBufferTimer.arm
          (config.flushIntervalSeconds * 1000) }
  else s

def init : State :=
  ({ s with isInitialized := true, isAsynchronouslySavingInsights := true }).scheduleFlushing config

/-- The state when `flushEvents` first awaits, and the flush it awaits, if any. -/
def flushEvents : State × Option ℕ :=
  if !s.isInitialized then (s, none)
  else if s.bufferedInsights.isEmpty then (s.scheduleFlushing config, none)
  else
    ({ s.cancelScheduledFlushing with
        bufferedInsights := []
        flushes := s.flushes ++ [⟨s.nextFlush, s.bufferedInsights, .finding⟩]
        flushesInProgress := s.flushesInProgress ++ [s.nextFlush]
        nextFlush := s.nextFlush + 1 }, some s.nextFlush)

/-- The end of the handler: a full buffer is flushed, and nobody awaits that. -/
def flushWhenFull : State :=
  if config.flushBatchSize ≤ s.bufferedInsights.length then (s.flushEvents config).1 else s

/-- `add` of a set. -/
def addEvent (event : Event) : State :=
  if event ∈ s.bufferedInsights then s
  else { s with bufferedInsights := s.bufferedInsights ++ [event] }

/-- A fresh object is added. -/
def collect (insight : BufferedInsight) : State :=
  let event : Event := ⟨s.collected.length, insight⟩
  { s.addEvent event with collected := s.collected ++ [event] }

def handleWorkflowExecuteAfter (ctx : WorkflowExecuteAfterContext) : State :=
  if !s.isInitialized then s
  else if shouldSkipStatus ctx.status || shouldSkipMode ctx.mode then s
  else
    let added := (insightsOf ctx).foldl collect s
    if added.isAsynchronouslySavingInsights then added.flushWhenFull config
    else
      let (flushed, flush) := added.flushEvents config
      { flushed with handlers := flushed.handlers ++ [flush] }

/-- The flush has settled. -/
def Settled (id : ℕ) : Prop := ∀ flush ∈ s.flushes, flush.id ≠ id

instance (id : ℕ) : Decidable (s.Settled id) := inferInstanceAs (Decidable (∀ _ ∈ _, _))

/-- The handler goes on once its own flush has settled. -/
def resumeHandler (n : ℕ) : Option State :=
  match s.handlers[n]? with
  | none => none
  | some flush =>
    if ∀ id ∈ flush, s.Settled id then
      some (({ s with handlers := s.handlers.eraseIdx n }).flushWhenFull config)
    else none

def shutdown : State :=
  let stopped := { s.cancelScheduledFlushing with isAsynchronouslySavingInsights := false }
  let (flushed, flush) := stopped.flushEvents config
  { flushed with shutdowns := flushed.shutdowns ++ [stopped.flushesInProgress ++ flush.toList] }

def resumeShutdown (n : ℕ) : Option State :=
  match s.shutdowns[n]? with
  | none => none
  | some awaited =>
    if ∀ id ∈ awaited, s.Settled id then
      some { s with shutdowns := s.shutdowns.eraseIdx n, isInitialized := false }
    else none

def timerFires (id : ℕ) : Option State :=
  if s.flushInsightsRawBufferTimer.Armed id then
    some ((({ s with
      flushInsightsRawBufferTimer := s.flushInsightsRawBufferTimer.fire id }).flushEvents config).1)
  else none

/-! ### A flush and the database -/

/-- The name that the last event of each workflow gives it. -/
def workflowIdNames (events : List Event) : String → Option String :=
  events.foldl (fun names event =>
    Function.update names event.insight.workflowId (some event.insight.workflowName)) fun _ => none

/-- Metadata for the workflows that are not in the cache or have another project or name there. -/
def metadataToUpsert (cached : String → Option InsightsMetadata) (events : List Event)
    (sharedWorkflows : List SharedWorkflow) : List InsightsMetadata :=
  sharedWorkflows.filterMap fun workflow =>
    let name := workflowIdNames events workflow.workflowId
    let fresh : InsightsMetadata :=
      ⟨none, workflow.workflowId, name, workflow.projectId, workflow.projectName⟩
    match cached workflow.workflowId with
    | none => some fresh
    | some metadata =>
      if metadata.projectId ≠ workflow.projectId ∨ metadata.projectName ≠ workflow.projectName ∨
          metadata.workflowName ≠ name then some fresh
      else none

def rowOf (cached : String → Option InsightsMetadata) (event : Event) :
    Except String InsightsRaw :=
  match cached event.insight.workflowId with
  | none => .error
      ("Could not find shared workflow for insight with workflowId " ++ event.insight.workflowId)
  | some metadata => .ok ⟨metadata.metaId, event.insight.type,
      integerValueForInsightsRaw event.insight.value, event.insight.timestamp⟩

def rowsOf (cached : String → Option InsightsMetadata) :
    List Event → Except String (List InsightsRaw)
  | [] => .ok []
  | event :: events => do
    let row ← rowOf cached event
    let rows ← rowsOf cached events
    return row :: rows

def cacheMetadata (cached : String → Option InsightsMetadata)
    (upsertMetadata : List InsightsMetadata) : String → Option InsightsMetadata :=
  upsertMetadata.foldl (fun cached metadata =>
    Function.update cached metadata.workflowId (some metadata)) cached

/-- What the database answers to a flush. -/
inductive Reply
  | workflows (sharedWorkflows : List SharedWorkflow)
  | upserted
  | metadata (upsertMetadata : List InsightsMetadata)
  | inserted
  | rejected

def setStage (n : ℕ) (flush : Flush) (stage : Stage) : State :=
  { s with flushes := s.flushes.set n { flush with stage } }

/-- `saveInsightsMetadataAndRaw` from one `await` to the next. -/
def answer (n : ℕ) (reply : Reply) : Option State :=
  match s.flushes[n]? with
  | none => none
  | some flush =>
    match flush.stage, reply with
    | .stored, _ | .failed, _ => none
    | _, .rejected => some (s.setStage n flush .failed)
    | .finding, .workflows sharedWorkflows =>
      some (s.setStage n flush
        (.upserting (metadataToUpsert s.cachedMetadata flush.events sharedWorkflows)))
    | .upserting _, .upserted => some (s.setStage n flush .reading)
    | .reading, .metadata upsertMetadata =>
      let cached := cacheMetadata s.cachedMetadata upsertMetadata
      some (({ s with cachedMetadata := cached }).setStage n flush
        (match rowsOf cached flush.events with
          | .ok rows => .inserting rows
          | .error _ => .failed))
    | .inserting rows, .inserted =>
      some (({ s with database := s.database ++ flush.events.zip rows }).setStage n flush .stored)
    | _, _ => none

/-- The `catch` and the `finally` of a flush. -/
def settle (n : ℕ) : Option State :=
  match s.flushes[n]? with
  | none => none
  | some flush =>
    let rest := { s with
      flushes := s.flushes.eraseIdx n
      flushesInProgress := s.flushesInProgress.filter (· ≠ flush.id) }
    match flush.stage with
    | .stored => some (rest.scheduleFlushing config)
    | .failed => some ((flush.events.foldl addEvent rest).scheduleFlushing config)
    | _ => none

end State

inductive Action
  | init
  | workflowExecuteAfter (ctx : WorkflowExecuteAfterContext)
  | resumeHandler (n : ℕ)
  | timerFires (id : ℕ)
  | answer (n : ℕ) (reply : State.Reply)
  | settle (n : ℕ)
  | shutdown
  | resumeShutdown (n : ℕ)

/-- One turn of the event loop. -/
def step (config : InsightsConfig) (s : State) : Action → Option State
  | .init => some (s.init config)
  | .workflowExecuteAfter ctx => some (s.handleWorkflowExecuteAfter config ctx)
  | .resumeHandler n => s.resumeHandler config n
  | .timerFires id => s.timerFires config id
  | .answer n reply => s.answer n reply
  | .settle n => s.settle config n
  | .shutdown => some (s.shutdown config)
  | .resumeShutdown n => s.resumeShutdown n

def Step (config : InsightsConfig) (s : State) (a : Action) (t : State) : Prop :=
  step config s a = some t

/-! ## Where an event is -/

/-- The events that a flush still has to store. -/
def Flush.holding (flush : Flush) : List Event :=
  if flush.stage = .stored then [] else flush.events

/-- The row that an event is stored as. -/
def IsRowOf (event : Event) (row : InsightsRaw) : Prop :=
  row.type = event.insight.type ∧ row.timestamp = event.insight.timestamp ∧
    row.value = integerValueForInsightsRaw event.insight.value

namespace State

def inFlight (s : State) : List Event := s.flushes.flatMap Flush.holding

def stored (s : State) : List Event := s.database.map Prod.fst

/-- In how many places an event is, with repetitions. -/
def places (s : State) (event : Event) : ℕ :=
  s.bufferedInsights.count event + s.inFlight.count event + s.stored.count event

end State

/-- What holds of the service between two turns of the event loop. -/
structure Invariant (s : State) : Prop where
  places : ∀ event, s.places event = if event ∈ s.collected then 1 else 0
  numbers : ∀ event ∈ s.collected, event.number < s.collected.length
  rows : ∀ flush ∈ s.flushes, ∀ rows, flush.stage = .inserting rows →
    List.Forall₂ IsRowOf flush.events rows
  stored : ∀ entry ∈ s.database, IsRowOf entry.1 entry.2

namespace Invariant

variable {config : InsightsConfig} {s t : State}

theorem initial : Invariant {} where
  places _ := rfl
  numbers _ h := absurd h List.not_mem_nil
  rows _ h := absurd h List.not_mem_nil
  stored _ h := absurd h List.not_mem_nil

/-- The timer, the flags and the awaiting calls do not matter. -/
theorem congr (h : Invariant s) (hbuffer : t.bufferedInsights = s.bufferedInsights)
    (hflushes : t.flushes = s.flushes) (hdatabase : t.database = s.database)
    (hcollected : t.collected = s.collected) : Invariant t where
  places event := by
    have hplaces := h.places event
    rwa [State.places, State.inFlight, State.stored, ← hbuffer, ← hflushes, ← hdatabase,
      ← hcollected] at hplaces
  numbers := hcollected ▸ h.numbers
  rows := hflushes ▸ h.rows
  stored := hdatabase ▸ h.stored

theorem nodup_places (h : Invariant s) :
    (s.bufferedInsights ++ s.inFlight ++ s.stored).Nodup := by
  refine List.nodup_iff_count_le_one.mpr fun event => ?_
  rw [List.count_append, List.count_append]
  have hplaces : s.places event ≤ 1 := by
    rw [h.places]
    split
    · exact le_rfl
    · exact Nat.zero_le 1
  exact hplaces

theorem scheduleFlushing (h : Invariant s) : Invariant (s.scheduleFlushing config) := by
  unfold State.scheduleFlushing
  split
  · exact h.congr rfl rfl rfl rfl
  · exact h

/-- The events of the buffer become those of a flush. -/
theorem flushEvents (h : Invariant s) : Invariant (s.flushEvents config).1 := by
  unfold State.flushEvents
  split
  · exact h
  split
  · exact h.scheduleFlushing
  refine ⟨fun event => ?_, h.numbers, fun flush hmem => ?_, h.stored⟩
  · show _ = if event ∈ s.collected then 1 else 0
    rw [← h.places event]
    simp only [State.places, State.inFlight, State.stored, State.cancelScheduledFlushing,
      List.flatMap_append, List.count_append, List.flatMap_singleton, List.count_nil, Flush.holding]
    rw [if_neg nofun]
    omega
  · rcases List.mem_append.mp hmem with hold | hnew
    · exact h.rows flush hold
    · rw [List.mem_singleton.mp hnew]
      exact nofun

theorem flushWhenFull (h : Invariant s) : Invariant (s.flushWhenFull config) := by
  unfold State.flushWhenFull
  split
  · exact h.flushEvents
  · exact h

/-! ### The handler -/

theorem notMem_fresh (h : Invariant s) (insight : BufferedInsight) :
    (⟨s.collected.length, insight⟩ : Event) ∉ s.collected := fun hmem =>
  lt_irrefl _ (h.numbers _ hmem)

/-- An event that was not collected is in no place. -/
theorem notMem_bufferedInsights (h : Invariant s) {event : Event} (hnew : event ∉ s.collected) :
    event ∉ s.bufferedInsights := by
  have hplaces := h.places event
  rw [if_neg hnew, State.places] at hplaces
  exact List.count_eq_zero.mp (by omega)

theorem collect (h : Invariant s) (insight : BufferedInsight) : Invariant (s.collect insight) := by
  have hnew := h.notMem_fresh insight
  have hbuffer := h.notMem_bufferedInsights hnew
  simp only [State.collect, State.addEvent, if_neg hbuffer]
  refine ⟨fun event => ?_, fun event hmem => ?_, h.rows, h.stored⟩
  · have hplaces := h.places event
    simp only [State.places, State.inFlight, State.stored, List.count_append, List.mem_append,
      List.mem_singleton] at hplaces ⊢
    by_cases heq : event = ⟨s.collected.length, insight⟩
    · subst heq
      rw [if_neg hnew] at hplaces
      rw [if_pos (Or.inr rfl), List.count_singleton_self]
      omega
    · have hcount : [(⟨s.collected.length, insight⟩ : Event)].count event = 0 :=
        List.count_eq_zero.mpr fun hmem => heq (List.mem_singleton.mp hmem)
      simp only [heq, or_false]
      omega
  · show event.number < (s.collected ++ [_]).length
    rw [List.length_append]
    rcases List.mem_append.mp hmem with hold | hfresh
    · exact Nat.lt_add_right 1 (h.numbers event hold)
    · rw [List.mem_singleton.mp hfresh]
      exact Nat.lt_succ_self _

theorem collectAll (h : Invariant s) (insights : List BufferedInsight) :
    Invariant (insights.foldl State.collect s) := by
  induction insights generalizing s with
  | nil => exact h
  | cons insight insights ih => exact ih (h.collect insight)

theorem handleWorkflowExecuteAfter (h : Invariant s) (ctx : WorkflowExecuteAfterContext) :
    Invariant (s.handleWorkflowExecuteAfter config ctx) := by
  unfold State.handleWorkflowExecuteAfter
  split
  · exact h
  split
  · exact h
  have hadded := h.collectAll (insightsOf ctx)
  dsimp only
  split
  · exact hadded.flushWhenFull
  · exact hadded.flushEvents.congr rfl rfl rfl rfl

theorem resumeHandler (h : Invariant s) {n : ℕ} (ht : s.resumeHandler config n = some t) :
    Invariant t := by
  unfold State.resumeHandler at ht
  split at ht
  · cases ht
  split at ht
  · rw [← Option.some.inj ht]
    exact flushWhenFull (h.congr rfl rfl rfl rfl)
  · cases ht

theorem timerFires (h : Invariant s) {id : ℕ} (ht : s.timerFires config id = some t) :
    Invariant t := by
  unfold State.timerFires at ht
  split at ht
  · rw [← Option.some.inj ht]
    exact flushEvents (h.congr rfl rfl rfl rfl)
  · cases ht

theorem shutdown (h : Invariant s) : Invariant (s.shutdown config) := by
  set stopped : State := { s.cancelScheduledFlushing with isAsynchronouslySavingInsights := false }
  have hstopped : Invariant stopped := h.congr rfl rfl rfl rfl
  have hflushed : Invariant (stopped.flushEvents config).1 := hstopped.flushEvents
  exact hflushed.congr rfl rfl rfl rfl

theorem resumeShutdown (h : Invariant s) {n : ℕ} (ht : s.resumeShutdown n = some t) :
    Invariant t := by
  unfold State.resumeShutdown at ht
  split at ht
  · cases ht
  split at ht
  · rw [← Option.some.inj ht]
    exact h.congr rfl rfl rfl rfl
  · cases ht

/-! ### A flush and the database -/

/-- A list around one of its elements. -/
theorem exists_around {α : Type*} {l : List α} {n : ℕ} {a : α} (h : l[n]? = some a) :
    ∃ before after, l = before ++ a :: after ∧ (∀ b, l.set n b = before ++ b :: after) ∧
      l.eraseIdx n = before ++ after := by
  obtain ⟨hlt, rfl⟩ := List.getElem?_eq_some_iff.mp h
  refine ⟨l.take n, l.drop (n + 1), ?_, fun b => ?_, List.eraseIdx_eq_take_drop_succ l n⟩
  · rw [List.getElem_cons_drop, List.take_append_drop]
  · rw [List.set_eq_take_append_cons_drop, if_pos hlt]

variable {n : ℕ} {flush : Flush}

/-- One flush is replaced: what the others hold stays. -/
theorem count_holding_set {flushes : List Flush} (hflush : flushes[n]? = some flush)
    (next : Flush) (event : Event) :
    ((flushes.set n next).flatMap Flush.holding).count event + flush.holding.count event =
      (flushes.flatMap Flush.holding).count event + next.holding.count event := by
  obtain ⟨before, after, rfl, hset, -⟩ := exists_around hflush
  rw [hset]
  simp only [List.flatMap_append, List.flatMap_cons, List.count_append]
  omega

theorem count_holding_eraseIdx {flushes : List Flush} (hflush : flushes[n]? = some flush)
    (event : Event) :
    ((flushes.eraseIdx n).flatMap Flush.holding).count event + flush.holding.count event =
      (flushes.flatMap Flush.holding).count event := by
  obtain ⟨before, after, rfl, -, herase⟩ := exists_around hflush
  rw [herase]
  simp only [List.flatMap_append, List.flatMap_cons, List.count_append]
  omega

theorem holding_of_ne {flush : Flush} (h : flush.stage ≠ .stored) :
    flush.holding = flush.events :=
  if_neg h

theorem holding_of_stored {flush : Flush} (h : flush.stage = .stored) : flush.holding = [] :=
  if_pos h

/-- The rows that wait for their insert, when one flush is replaced. -/
theorem rows_set (h : Invariant s) {next : Flush}
    (hnext : ∀ rows, next.stage = .inserting rows → List.Forall₂ IsRowOf next.events rows) :
    ∀ other ∈ s.flushes.set n next, ∀ rows, other.stage = .inserting rows →
      List.Forall₂ IsRowOf other.events rows := by
  intro other hmem
  rcases List.mem_or_eq_of_mem_set hmem with hold | rfl
  · exact h.rows other hold
  · exact hnext

/-- A flush that has not stored its events goes on to hold them. -/
theorem setStage (h : Invariant s) (hflush : s.flushes[n]? = some flush)
    (hholding : flush.stage ≠ .stored) {stage : Stage} (hstage : stage ≠ .stored)
    (hrows : ∀ rows, stage = .inserting rows → List.Forall₂ IsRowOf flush.events rows) :
    Invariant (s.setStage n flush stage) := by
  refine ⟨fun event => ?_, h.numbers, h.rows_set hrows, h.stored⟩
  have hcount := count_holding_set hflush { flush with stage } event
  rw [holding_of_ne hholding, holding_of_ne hstage] at hcount
  dsimp only at hcount
  have hplaces := h.places event
  rw [State.places, State.inFlight] at hplaces
  show s.bufferedInsights.count event + (List.flatMap _ (s.flushes.set n _)).count event +
    s.stored.count event = if event ∈ s.collected then 1 else 0
  omega

/-- An insert moves the events of the flush to the database. -/
theorem inserted (h : Invariant s) (hflush : s.flushes[n]? = some flush) {rows : List InsightsRaw}
    (hstage : flush.stage = .inserting rows) :
    Invariant (({ s with database := s.database ++ flush.events.zip rows }).setStage n flush
      .stored) := by
  have hrows := h.rows flush (List.mem_of_getElem? hflush) rows hstage
  refine ⟨fun event => ?_, h.numbers, h.rows_set nofun, fun entry hmem => ?_⟩
  · have hcount := count_holding_set hflush { flush with stage := .stored } event
    rw [holding_of_ne (hstage ▸ nofun), holding_of_stored rfl, List.count_nil] at hcount
    have hplaces := h.places event
    rw [State.places, State.inFlight, State.stored] at hplaces
    show s.bufferedInsights.count event + (List.flatMap _ (s.flushes.set n _)).count event +
      ((s.database ++ flush.events.zip rows).map Prod.fst).count event =
        if event ∈ s.collected then 1 else 0
    rw [List.map_append, List.map_fst_zip hrows.length_eq.le, List.count_append]
    omega
  · rcases List.mem_append.mp hmem with hold | hnew
    · exact h.stored entry hold
    · exact (List.forall₂_iff_zip.mp hrows).2 hnew

theorem isRowOf_of_rowOf {cached : String → Option InsightsMetadata} {event : Event}
    {row : InsightsRaw} (h : State.rowOf cached event = .ok row) : IsRowOf event row := by
  unfold State.rowOf at h
  split at h
  · cases h
  · rw [← Except.ok.inj h]
    exact ⟨rfl, rfl, rfl⟩

theorem forall₂_of_rowsOf {cached : String → Option InsightsMetadata} {events : List Event}
    {rows : List InsightsRaw} (h : State.rowsOf cached events = .ok rows) :
    List.Forall₂ IsRowOf events rows := by
  induction events generalizing rows with
  | nil =>
    cases h
    exact .nil
  | cons event events ih =>
    rw [State.rowsOf] at h
    cases hrow : State.rowOf cached event with
    | error text =>
      rw [hrow] at h
      exact nomatch h
    | ok row =>
      cases hrest : State.rowsOf cached events with
      | error text =>
        rw [hrow, hrest] at h
        exact nomatch h
      | ok rest =>
        rw [hrow, hrest] at h
        cases h
        exact .cons (isRowOf_of_rowOf hrow) (ih hrest)

theorem answer (h : Invariant s) {reply : State.Reply} (ht : s.answer n reply = some t) :
    Invariant t := by
  unfold State.answer at ht
  split at ht
  · cases ht
  rename_i flush hflush
  split at ht
  · cases ht
  · cases ht
  · rename_i hstored _
    cases ht
    exact h.setStage hflush hstored nofun nofun
  · rename_i hstage
    cases ht
    exact h.setStage hflush (hstage ▸ nofun) nofun nofun
  · rename_i hstage
    cases ht
    exact h.setStage hflush (hstage ▸ nofun) nofun nofun
  · rename_i upsertMetadata hstage
    cases ht
    have hcached : Invariant
        { s with cachedMetadata := State.cacheMetadata s.cachedMetadata upsertMetadata } :=
      h.congr rfl rfl rfl rfl
    refine hcached.setStage hflush (hstage ▸ nofun) ?_ ?_
    · split <;> exact nofun
    · intro rows hrows
      split at hrows
      · rename_i rows' hok
        cases hrows
        exact forall₂_of_rowsOf hok
      · cases hrows
  · rename_i hstage
    cases ht
    exact h.inserted hflush hstage
  · cases ht

/-! ### The end of a flush -/

/-- Events that are not in the buffer are put back one after the other. -/
theorem foldl_addEvent {events : List Event} (h : (s.bufferedInsights ++ events).Nodup) :
    events.foldl State.addEvent s =
      { s with bufferedInsights := s.bufferedInsights ++ events } := by
  induction events generalizing s with
  | nil => rw [List.foldl_nil, List.append_nil]
  | cons event events ih =>
    have hnew : event ∉ s.bufferedInsights := fun hmem =>
      (List.nodup_append.mp h).2.2 event hmem event List.mem_cons_self rfl
    rw [List.append_cons] at h
    rw [List.foldl_cons, State.addEvent, if_neg hnew, ih h, List.append_assoc]
    rfl

/-- The events of a flush are no longer in the buffer. -/
theorem nodup_append_events (h : Invariant s) (hflush : s.flushes[n]? = some flush)
    (hholding : flush.stage ≠ .stored) : (s.bufferedInsights ++ flush.events).Nodup := by
  refine (h.nodup_places.sublist ?_)
  rw [List.append_assoc]
  refine List.Sublist.append_left (List.Sublist.trans ?_ (List.sublist_append_left _ _)) _
  rw [← holding_of_ne hholding]
  exact List.sublist_flatten_of_mem (List.mem_map_of_mem (List.mem_of_getElem? hflush))

/-- A flush that stored its events leaves without them. -/
theorem settle_stored (h : Invariant s) (hflush : s.flushes[n]? = some flush)
    (hstage : flush.stage = .stored) (inProgress : List ℕ) :
    Invariant { s with flushes := s.flushes.eraseIdx n, flushesInProgress := inProgress } := by
  refine ⟨fun event => ?_, h.numbers, fun other hmem => ?_, h.stored⟩
  · have hcount := count_holding_eraseIdx hflush event
    rw [holding_of_stored hstage, List.count_nil] at hcount
    have hplaces := h.places event
    rw [State.places, State.inFlight] at hplaces
    show s.bufferedInsights.count event + (List.flatMap _ (s.flushes.eraseIdx n)).count event +
      s.stored.count event = if event ∈ s.collected then 1 else 0
    omega
  · exact h.rows other (List.mem_of_mem_eraseIdx hmem)

/-- A flush that failed gives its events back. -/
theorem settle_failed (h : Invariant s) (hflush : s.flushes[n]? = some flush)
    (hstage : flush.stage = .failed) (inProgress : List ℕ) :
    Invariant { s with
      bufferedInsights := s.bufferedInsights ++ flush.events
      flushes := s.flushes.eraseIdx n
      flushesInProgress := inProgress } := by
  refine ⟨fun event => ?_, h.numbers, fun other hmem => ?_, h.stored⟩
  · have hcount := count_holding_eraseIdx hflush event
    rw [holding_of_ne (hstage ▸ nofun)] at hcount
    have hplaces := h.places event
    rw [State.places, State.inFlight] at hplaces
    show (s.bufferedInsights ++ flush.events).count event +
      (List.flatMap _ (s.flushes.eraseIdx n)).count event + s.stored.count event =
        if event ∈ s.collected then 1 else 0
    rw [List.count_append]
    omega
  · exact h.rows other (List.mem_of_mem_eraseIdx hmem)

/-- What the end of a failed flush comes to. -/
theorem settle_eq_of_failed (h : Invariant s) (hflush : s.flushes[n]? = some flush)
    (hstage : flush.stage = .failed) :
    s.settle config n = some (({ s with
      bufferedInsights := s.bufferedInsights ++ flush.events
      flushes := s.flushes.eraseIdx n
      flushesInProgress := s.flushesInProgress.filter (· ≠ flush.id) } : State).scheduleFlushing
        config) := by
  have hnodup := h.nodup_append_events hflush (hstage ▸ nofun)
  simp only [State.settle, hflush, hstage]
  exact congrArg (fun u : State => some (u.scheduleFlushing config)) (foldl_addEvent hnodup)

theorem settle (h : Invariant s) (ht : s.settle config n = some t) : Invariant t := by
  cases hflush : s.flushes[n]? with
  | none => simp only [State.settle, hflush, reduceCtorEq] at ht
  | some flush =>
    cases hstage : flush.stage with
    | stored =>
      simp only [State.settle, hflush, hstage] at ht
      cases ht
      exact (h.settle_stored hflush hstage _).scheduleFlushing
    | failed =>
      rw [h.settle_eq_of_failed hflush hstage] at ht
      cases ht
      exact (h.settle_failed hflush hstage _).scheduleFlushing
    | finding => simp only [State.settle, hflush, hstage, reduceCtorEq] at ht
    | upserting metadata => simp only [State.settle, hflush, hstage, reduceCtorEq] at ht
    | reading => simp only [State.settle, hflush, hstage, reduceCtorEq] at ht
    | inserting rows => simp only [State.settle, hflush, hstage, reduceCtorEq] at ht

/-! ### Runs -/

theorem step {a : Action} (h : Invariant s) (ht : Step config s a t) : Invariant t := by
  cases a with
  | init =>
    cases ht
    exact scheduleFlushing (h.congr rfl rfl rfl rfl)
  | workflowExecuteAfter ctx =>
    cases ht
    exact h.handleWorkflowExecuteAfter ctx
  | resumeHandler n => exact h.resumeHandler ht
  | timerFires id => exact h.timerFires ht
  | answer n reply => exact h.answer ht
  | settle n => exact h.settle ht
  | shutdown =>
    cases ht
    exact h.shutdown
  | resumeShutdown n => exact h.resumeShutdown ht

end Invariant

/-- Every collected event is in one place, once, and no other event is anywhere. What the database
has of an event is the event's own row. -/
structure Conserved (s : State) : Prop where
  places : ∀ event, s.places event = if event ∈ s.collected then 1 else 0
  once : s.stored.Nodup
  rows : ∀ entry ∈ s.database, IsRowOf entry.1 entry.2

theorem Invariant.conserved {s : State} (h : Invariant s) : Conserved s :=
  ⟨h.places, h.nodup_places.sublist (List.sublist_append_right _ _), h.stored⟩

/-- A failed flush can end, and its end puts its events back, once. -/
def ReturnsEvents (config : InsightsConfig) (s : State) : Prop :=
  ∀ n flush, s.flushes[n]? = some flush → flush.stage = .failed →
    ∃ t, step config s (.settle n) = some t ∧
      t.bufferedInsights = s.bufferedInsights ++ flush.events ∧ t.flushes = s.flushes.eraseIdx n

theorem State.scheduleFlushing_places (config : InsightsConfig) (s : State) :
    (s.scheduleFlushing config).bufferedInsights = s.bufferedInsights ∧
      (s.scheduleFlushing config).flushes = s.flushes := by
  unfold State.scheduleFlushing
  split
  · exact ⟨rfl, rfl⟩
  · exact ⟨rfl, rfl⟩

theorem Invariant.returnsEvents {config : InsightsConfig} {s : State} (h : Invariant s) :
    ReturnsEvents config s := by
  intro n flush hflush hstage
  exact ⟨_, h.settle_eq_of_failed hflush hstage, State.scheduleFlushing_places config _⟩

/-- **The buffer conserves events.** In every state of every run every collected event is in the
buffer, in one flush or in the database, once, and every failed flush can put its events back. -/
theorem events_conserved (config : InsightsConfig) {t : State} (run : Run (Step config) {} t) :
    run.Visits fun s => Conserved s ∧ ReturnsEvents config s := by
  have hvisits : run.Visits Invariant :=
    run.visits_of_step (fun _ _ _ h hstep => h.step hstep) Invariant.initial
  exact hvisits.mono fun _ h => ⟨h.conserved, h.returnsEvents⟩

end N8n.Insights
