import N8n.Services.InsightsCollection

/-!
# One flush of the insights

A flush that the database rejects nowhere. It looks the owners of the workflows up, saves what is
not in the cache, and turns every event into a row. An event whose workflow is not in the cache even
then ends the flush before a row is inserted, and all events go back into the buffer, that one with
them.

So a flush stores the events that have an owner if and only if there is no such event in the buffer
(`goesOn_iff`). As long as there is one, no later flush stores anything (`retried_forever`).
-/

namespace N8n.Insights

/-! ## The tables -/

/-- The rows of the owners of workflows, with their projects, and the table of the metadata. -/
structure Tables where
  owners : List SharedWorkflow
  metadata : List InsightsMetadata
  nextMetaId : ℕ
  deriving DecidableEq, Repr

namespace Tables

def find (tables : Tables) (workflowIds : List String) : List SharedWorkflow :=
  tables.owners.filter (·.workflowId ∈ workflowIds)

/-- The row of the workflow keeps its id; without one there is a new row. -/
def upsertRow (tables : Tables) (row : InsightsMetadata) : Tables :=
  if ∃ old ∈ tables.metadata, old.workflowId = row.workflowId then
    { tables with
      metadata := tables.metadata.map fun old =>
        if old.workflowId = row.workflowId then { row with metaId := old.metaId } else old }
  else
    { tables with
      metadata := tables.metadata ++ [{ row with metaId := some tables.nextMetaId }]
      nextMetaId := tables.nextMetaId + 1 }

def upsert (tables : Tables) (rows : List InsightsMetadata) : Tables := rows.foldl upsertRow tables

def findBy (tables : Tables) (workflowIds : List String) : List InsightsMetadata :=
  tables.metadata.filter (·.workflowId ∈ workflowIds)

/-- The workflow has an owner. -/
def Owns (tables : Tables) (workflowId : String) : Prop :=
  ∃ workflow ∈ tables.owners, workflow.workflowId = workflowId

end Tables

/-! ## The flush -/

namespace State

/-- `saveInsightsMetadataAndRaw` of one of the flushes, when every call succeeds. -/
def saveInsightsMetadataAndRaw (tables : Tables) (n : ℕ) (s : State) : Option (State × Tables) := do
  let flush ← s.flushes[n]?
  let found := tables.find (flush.events.map (·.insight.workflowId))
  let metadata := metadataToUpsert s.cachedMetadata flush.events found
  let upserted := tables.upsert metadata
  let s ← s.answer n (.workflows found)
  let s ← s.answer n .upserted
  let s ← s.answer n (.metadata (upserted.findBy (metadata.map (·.workflowId))))
  -- nothing is inserted by a flush that threw
  return ((s.answer n .inserted).getD s, upserted)

/-- `flushEvents`, to its end. -/
def flush (config : InsightsConfig) (tables : Tables) (s : State) : State × Tables :=
  match s.flushEvents config with
  | (s', none) => (s', tables)
  | (s', some _) =>
    ((s'.saveInsightsMetadataAndRaw tables s.flushes.length).bind fun (saved, tables') =>
      (saved.settle config s.flushes.length).map (·, tables')).getD (s', tables)

/-- A flush and `n` later ones. Before each of these, more insights are collected. -/
def flushAgain (config : InsightsConfig) (tables : Tables) (s : State)
    (collected : ℕ → List BufferedInsight) : ℕ → State × Tables
  | 0 => s.flush config tables
  | n + 1 =>
    let (t, tables') := s.flushAgain config tables collected n
    ((collected n).foldl collect t).flush config tables'

/-- The metadata that a flush saves. -/
def metadataToSave (tables : Tables) (s : State) : List InsightsMetadata :=
  metadataToUpsert s.cachedMetadata s.bufferedInsights
    (tables.find (s.bufferedInsights.map (·.insight.workflowId)))

/-- The metadata in the cache after a flush. -/
def cachedAfter (tables : Tables) (s : State) : String → Option InsightsMetadata :=
  cacheMetadata s.cachedMetadata ((tables.upsert (s.metadataToSave tables)).findBy
    ((s.metadataToSave tables).map (·.workflowId)))

/-! ## The claim -/

/-- The flush stores the events that have an owner, is not aborted (it puts nothing back), and the
events without an owner are not put back forever. -/
structure GoesOn (config : InsightsConfig) (tables : Tables) (s : State) : Prop where
  stores : ∀ event ∈ s.bufferedInsights, tables.Owns event.insight.workflowId →
    event ∈ (s.flush config tables).1.stored
  completes : ∀ event ∈ s.bufferedInsights, event ∉ (s.flush config tables).1.bufferedInsights
  notRetried : ∀ event ∈ s.bufferedInsights, ¬tables.Owns event.insight.workflowId →
    ∀ collected, ∃ n, event ∉ (s.flushAgain config tables collected n).1.bufferedInsights

/-- The metadata of the event are known, or can be found. -/
def Known (tables : Tables) (s : State) (event : Event) : Prop :=
  tables.Owns event.insight.workflowId ∨ s.cachedMetadata event.insight.workflowId ≠ none

/-! ## The cache -/

variable {config : InsightsConfig} {tables : Tables} {s : State}

theorem mem_metadata_upsertRow (tables : Tables) (row : InsightsMetadata) (workflowId : String) :
    (∃ m ∈ (tables.upsertRow row).metadata, m.workflowId = workflowId) ↔
      (∃ m ∈ tables.metadata, m.workflowId = workflowId) ∨ row.workflowId = workflowId := by
  rw [Tables.upsertRow]
  split_ifs with hold
  · simp only [List.mem_map, exists_exists_and_eq_and]
    constructor
    · rintro ⟨old, hmem, hid⟩
      split_ifs at hid with hsame
      · exact Or.inr hid
      · exact Or.inl ⟨old, hmem, hid⟩
    · rintro (⟨old, hmem, hid⟩ | rfl)
      · refine ⟨old, hmem, ?_⟩
        split_ifs with hsame
        · exact hsame.symm.trans hid
        · exact hid
      · obtain ⟨old, hmem, hsame⟩ := hold
        exact ⟨old, hmem, by rw [if_pos hsame]⟩
  · simp [or_and_right, exists_or]

theorem mem_metadata_upsert (rows : List InsightsMetadata) (tables : Tables)
    (workflowId : String) :
    (∃ m ∈ (tables.upsert rows).metadata, m.workflowId = workflowId) ↔
      (∃ m ∈ tables.metadata, m.workflowId = workflowId) ∨
        ∃ row ∈ rows, row.workflowId = workflowId := by
  rw [Tables.upsert]
  induction rows generalizing tables with
  | nil => simp
  | cons row rows ih =>
    rw [List.foldl_cons, ih, mem_metadata_upsertRow, or_assoc, List.exists_mem_cons_iff]

theorem cacheMetadata_eq_none_iff (rows : List InsightsMetadata)
    (cached : String → Option InsightsMetadata) (workflowId : String) :
    cacheMetadata cached rows workflowId = none ↔
      cached workflowId = none ∧ ∀ row ∈ rows, row.workflowId ≠ workflowId := by
  rw [cacheMetadata]
  induction rows generalizing cached with
  | nil => simp
  | cons row rows ih =>
    rw [List.foldl_cons, ih, List.forall_mem_cons, Function.update_apply]
    split_ifs with hid
    · simp [hid]
    · simp [Ne.symm hid]

/-- A workflow that is not in the cache gets metadata if it is found. -/
theorem mem_metadataToUpsert {cached : String → Option InsightsMetadata} {workflowId : String}
    (hcached : cached workflowId = none) (events : List Event) (found : List SharedWorkflow) :
    workflowId ∈ (metadataToUpsert cached events found).map (·.workflowId) ↔
      ∃ workflow ∈ found, workflow.workflowId = workflowId := by
  simp only [metadataToUpsert, List.mem_map, List.mem_filterMap]
  constructor
  · rintro ⟨row, ⟨workflow, hmem, hrow⟩, rfl⟩
    refine ⟨workflow, hmem, ?_⟩
    split at hrow
    · rw [← Option.some.inj hrow]
    · split_ifs at hrow
      rw [← Option.some.inj hrow]
  · rintro ⟨workflow, hmem, rfl⟩
    exact ⟨_, ⟨workflow, hmem, by rw [hcached]⟩, rfl⟩

/-- A workflow is not in the cache after a flush if and only if it was not before, and has no owner
or no event in the buffer. -/
theorem cachedAfter_eq_none_iff {workflowId : String} :
    s.cachedAfter tables workflowId = none ↔ s.cachedMetadata workflowId = none ∧
      ¬(workflowId ∈ s.bufferedInsights.map (·.insight.workflowId) ∧ tables.Owns workflowId) := by
  rw [cachedAfter, cacheMetadata_eq_none_iff]
  refine and_congr_right fun hcached => ?_
  set ids := s.bufferedInsights.map (·.insight.workflowId)
  set metadata := s.metadataToSave tables
  -- what is saved is found again
  have hread : (∃ row ∈ (tables.upsert metadata).findBy (metadata.map (·.workflowId)),
      row.workflowId = workflowId) ↔ workflowId ∈ metadata.map (·.workflowId) := by
    constructor
    · rintro ⟨row, hrow, rfl⟩
      exact of_decide_eq_true (List.mem_filter.mp hrow).2
    · intro hmem
      obtain ⟨saved, hsaved, hid⟩ := List.mem_map.mp hmem
      obtain ⟨row, hrow, rfl⟩ :=
        (mem_metadata_upsert metadata tables workflowId).mpr (Or.inr ⟨saved, hsaved, hid⟩)
      exact ⟨row, List.mem_filter.mpr ⟨hrow, decide_eq_true hmem⟩, rfl⟩
  have hfound : (∃ workflow ∈ tables.find ids, workflow.workflowId = workflowId) ↔
      workflowId ∈ ids ∧ tables.Owns workflowId := by
    simp only [Tables.find, List.mem_filter, decide_eq_true_eq, Tables.Owns]
    constructor
    · rintro ⟨workflow, ⟨hmem, hid⟩, rfl⟩
      exact ⟨hid, workflow, hmem, rfl⟩
    · rintro ⟨hid, workflow, hmem, rfl⟩
      exact ⟨workflow, ⟨hmem, hid⟩, rfl⟩
  have hsaved : workflowId ∈ metadata.map (·.workflowId) ↔
      ∃ workflow ∈ tables.find ids, workflow.workflowId = workflowId :=
    mem_metadataToUpsert hcached s.bufferedInsights (tables.find ids)
  rw [← hfound, ← hsaved, ← hread]
  simp only [ne_eq, not_exists, not_and]

/-- The workflow of an event is not in the cache after the flush if and only if it is not known. -/
theorem cachedAfter_eq_none_iff_not_known {event : Event} (hevent : event ∈ s.bufferedInsights) :
    s.cachedAfter tables event.insight.workflowId = none ↔ ¬s.Known tables event := by
  have hmem : event.insight.workflowId ∈ s.bufferedInsights.map (·.insight.workflowId) :=
    List.mem_map_of_mem hevent
  rw [cachedAfter_eq_none_iff, Known, not_or, not_not]
  tauto

theorem rowsOf_isOk_iff (cached : String → Option InsightsMetadata) (events : List Event) :
    (∃ rows, rowsOf cached events = .ok rows) ↔
      ∀ event ∈ events, cached event.insight.workflowId ≠ none := by
  induction events with
  | nil => exact iff_of_true ⟨[], rfl⟩ (by simp)
  | cons event events ih =>
    rw [List.forall_mem_cons, ← ih, rowsOf, rowOf]
    cases cached event.insight.workflowId with
    | none => exact iff_of_false (by rintro ⟨_, ⟨⟩⟩) fun h => h.1 rfl
    | some metadata =>
      cases rowsOf cached events with
      | error e => exact iff_of_false (by rintro ⟨_, ⟨⟩⟩) (by simp)
      | ok rows => exact iff_of_true ⟨_, rfl⟩ ⟨by simp, rows, rfl⟩

/-! ## What a flush does -/

variable {rows : List InsightsRaw} {e : String}

/-- The service while its last flush awaits something, or has come to an end. -/
def flushing (s : State) (cached : String → Option InsightsMetadata) (stage : Stage) : State :=
  { s.cancelScheduledFlushing with
    cachedMetadata := cached
    bufferedInsights := []
    flushes := s.flushes ++ [⟨s.nextFlush, s.bufferedInsights, stage⟩]
    flushesInProgress := s.flushesInProgress ++ [s.nextFlush]
    nextFlush := s.nextFlush + 1 }

theorem flushEvents_eq (hinit : s.isInitialized = true) (hbuffer : s.bufferedInsights ≠ []) :
    s.flushEvents config = (s.flushing s.cachedMetadata .finding, some s.nextFlush) := by
  have hempty : ¬s.bufferedInsights.isEmpty = true := by rwa [List.isEmpty_iff]
  rw [flushEvents, hinit, if_neg (by decide), if_neg hempty]
  rfl

section Answers

variable (cached : String → Option InsightsMetadata)

theorem flushes_flushing (stage : Stage) : (s.flushing cached stage).flushes[s.flushes.length]? =
    some ⟨s.nextFlush, s.bufferedInsights, stage⟩ := by
  simp [flushing]

theorem setStage_flushing (stage stage' : Stage) :
    (s.flushing cached stage).setStage s.flushes.length
      ⟨s.nextFlush, s.bufferedInsights, stage⟩ stage' = s.flushing cached stage' := by
  simp [flushing, setStage]

theorem answer_workflows (found : List SharedWorkflow) :
    (s.flushing cached .finding).answer s.flushes.length (.workflows found) =
      some (s.flushing cached (.upserting (metadataToUpsert cached s.bufferedInsights found))) := by
  rw [answer, flushes_flushing]
  exact congrArg some (setStage_flushing cached _ _)

theorem answer_upserted (metadata : List InsightsMetadata) :
    (s.flushing cached (.upserting metadata)).answer s.flushes.length .upserted =
      some (s.flushing cached .reading) := by
  rw [answer, flushes_flushing]
  exact congrArg some (setStage_flushing cached _ _)

theorem answer_metadata {cached' : String → Option InsightsMetadata}
    {upserted : List InsightsMetadata} (hcached : cacheMetadata cached upserted = cached') :
    (s.flushing cached .reading).answer s.flushes.length (.metadata upserted) =
      some (s.flushing cached' (match rowsOf cached' s.bufferedInsights with
        | .ok rows => .inserting rows
        | .error _ => .failed)) := by
  rw [answer, flushes_flushing]
  subst hcached
  exact congrArg some (setStage_flushing (cacheMetadata cached upserted) .reading _)

theorem answer_failed (reply : Reply) :
    (s.flushing cached .failed).answer s.flushes.length reply = none := by
  rw [answer, flushes_flushing]

theorem answer_inserted (rows : List InsightsRaw) :
    (s.flushing cached (.inserting rows)).answer s.flushes.length .inserted =
      some { s.flushing cached .stored with
        database := s.database ++ s.bufferedInsights.zip rows } := by
  rw [answer, flushes_flushing]
  simp [flushing, setStage, cancelScheduledFlushing]

end Answers

theorem saveInsightsMetadataAndRaw_eq (s : State) (tables : Tables) :
    (s.flushing s.cachedMetadata .finding).saveInsightsMetadataAndRaw tables s.flushes.length =
      some (match rowsOf (s.cachedAfter tables) s.bufferedInsights with
        | .ok rows => { s.flushing (s.cachedAfter tables) .stored with
            database := s.database ++ s.bufferedInsights.zip rows }
        | .error _ => s.flushing (s.cachedAfter tables) .failed,
        tables.upsert (s.metadataToSave tables)) := by
  rw [saveInsightsMetadataAndRaw, flushes_flushing]
  show ((s.flushing s.cachedMetadata .finding).answer _ _ >>= _) = _
  rw [answer_workflows]
  show ((s.flushing s.cachedMetadata _).answer _ _ >>= _) = _
  rw [answer_upserted]
  show ((s.flushing s.cachedMetadata _).answer _ (.metadata
    ((tables.upsert (s.metadataToSave tables)).findBy
      ((s.metadataToSave tables).map (·.workflowId)))) >>= _) = _
  rw [answer_metadata s.cachedMetadata (Eq.refl (s.cachedAfter tables))]
  show some ((Option.getD (State.answer _ _ _) _), _) = _
  cases rowsOf (s.cachedAfter tables) s.bufferedInsights with
  | error e => rw [answer_failed, Option.getD_none]; rfl
  | ok rows => rw [answer_inserted, Option.getD_some]; rfl

section Settle

variable {n : ℕ} {flush : Flush}

/-- Only the timer changes. -/
theorem exists_scheduleFlushing_eq (config : InsightsConfig) (s : State) :
    ∃ timer, s.scheduleFlushing config = { s with flushInsightsRawBufferTimer := timer } := by
  rw [scheduleFlushing]
  split_ifs
  · exact ⟨_, rfl⟩
  · exact ⟨s.flushInsightsRawBufferTimer, rfl⟩

theorem exists_foldl_addEvent_eq (events : List Event) (s : State) :
    ∃ buffer, events.foldl addEvent s = { s with bufferedInsights := buffer } ∧
      ∀ event, event ∈ s.bufferedInsights ∨ event ∈ events → event ∈ buffer := by
  induction events generalizing s with
  | nil => exact ⟨s.bufferedInsights, rfl, fun event h => h.resolve_right List.not_mem_nil⟩
  | cons x events ih =>
    obtain ⟨buffer, hadd, hbuffer⟩ : ∃ buffer,
        s.addEvent x = { s with bufferedInsights := buffer } ∧
          ∀ event, event ∈ s.bufferedInsights ∨ event = x → event ∈ buffer := by
      rw [addEvent]
      split_ifs with hx
      · refine ⟨s.bufferedInsights, rfl, ?_⟩
        rintro event (h | rfl)
        · exact h
        · exact hx
      · refine ⟨s.bufferedInsights ++ [x], rfl, ?_⟩
        rintro event (h | rfl)
        · exact List.mem_append_left _ h
        · exact List.mem_append_right _ (List.mem_singleton_self _)
    obtain ⟨all, hall, hmem⟩ := ih (s.addEvent x)
    rw [hadd] at hmem
    refine ⟨all, ?_, fun event h => ?_⟩
    · rw [List.foldl_cons, hall, hadd]
    · rw [List.mem_cons, ← or_assoc] at h
      exact hmem event (h.imp_left (hbuffer event))

theorem settle_of_stored (config : InsightsConfig) (hflush : s.flushes[n]? = some flush)
    (hstage : flush.stage = .stored) :
    ∃ t, s.settle config n = some t ∧ t.bufferedInsights = s.bufferedInsights ∧
      t.database = s.database := by
  rw [settle, hflush]
  dsimp only
  rw [hstage]
  obtain ⟨timer, htimer⟩ := exists_scheduleFlushing_eq config { s with
    flushes := s.flushes.eraseIdx n
    flushesInProgress := s.flushesInProgress.filter (· ≠ flush.id) }
  exact ⟨_, congrArg some htimer, rfl, rfl⟩

/-- A flush that failed puts its events back, and changes neither the database nor the cache. -/
theorem settle_of_failed (config : InsightsConfig) (hflush : s.flushes[n]? = some flush)
    (hstage : flush.stage = .failed) :
    ∃ t, s.settle config n = some t ∧ (∀ event ∈ flush.events, event ∈ t.bufferedInsights) ∧
      t.database = s.database ∧ t.cachedMetadata = s.cachedMetadata ∧
        t.isInitialized = s.isInitialized := by
  rw [settle, hflush]
  dsimp only
  rw [hstage]
  obtain ⟨buffer, hbuffer, hmem⟩ := exists_foldl_addEvent_eq flush.events { s with
    flushes := s.flushes.eraseIdx n
    flushesInProgress := s.flushesInProgress.filter (· ≠ flush.id) }
  obtain ⟨timer, htimer⟩ := exists_scheduleFlushing_eq config { s with
    bufferedInsights := buffer
    flushes := s.flushes.eraseIdx n
    flushesInProgress := s.flushesInProgress.filter (· ≠ flush.id) }
  have hsettle := (congrArg (scheduleFlushing config) hbuffer).trans htimer
  exact ⟨_, congrArg some hsettle, fun event h => hmem event (Or.inr h), rfl, rfl, rfl⟩

end Settle

/-! ## A whole flush -/

/-- When all events are known, they are stored. -/
theorem flush_of_known (config : InsightsConfig) (hinit : s.isInitialized = true)
    (hbuffer : s.bufferedInsights ≠ [])
    (hknown : ∀ event ∈ s.bufferedInsights, s.Known tables event) :
    (s.flush config tables).1.bufferedInsights = [] ∧
      (s.flush config tables).1.stored = s.stored ++ s.bufferedInsights := by
  obtain ⟨rows, hrows⟩ := (rowsOf_isOk_iff (s.cachedAfter tables) s.bufferedInsights).mpr
    fun event hevent hnone =>
      (cachedAfter_eq_none_iff_not_known hevent).mp hnone (hknown event hevent)
  obtain ⟨t, hsettle, hback, hdatabase⟩ := settle_of_stored config
    (s := { s.flushing (s.cachedAfter tables) .stored with
      database := s.database ++ s.bufferedInsights.zip rows })
    (flushes_flushing (s.cachedAfter tables) .stored) rfl
  have hflush : s.flush config tables = (t, tables.upsert (s.metadataToSave tables)) := by
    rw [flush, flushEvents_eq hinit hbuffer]
    dsimp only
    rw [saveInsightsMetadataAndRaw_eq, hrows, Option.bind_some]
    dsimp only
    rw [hsettle]
    rfl
  rw [hflush]
  refine ⟨hback, ?_⟩
  have hlength := (Invariant.forall₂_of_rowsOf hrows).length_eq
  rw [stored, hdatabase, List.map_append, List.map_fst_zip hlength.le, stored]

theorem owners_upsert (rows : List InsightsMetadata) (tables : Tables) :
    (tables.upsert rows).owners = tables.owners := by
  rw [Tables.upsert]
  induction rows generalizing tables with
  | nil => rfl
  | cons row rows ih =>
    rw [List.foldl_cons, ih, Tables.upsertRow]
    split_ifs <;> rfl

/-- When an event is not known, all events are put back and nothing is stored. -/
theorem flush_of_not_known (config : InsightsConfig) (hinit : s.isInitialized = true)
    {event : Event} (hevent : event ∈ s.bufferedInsights) (hknown : ¬s.Known tables event) :
    (∀ other ∈ s.bufferedInsights, other ∈ (s.flush config tables).1.bufferedInsights) ∧
      (s.flush config tables).1.database = s.database ∧
        (s.flush config tables).1.isInitialized = true ∧
          ¬(s.flush config tables).1.Known (s.flush config tables).2 event := by
  have hnone := (cachedAfter_eq_none_iff_not_known hevent).mpr hknown
  have hbuffer := List.ne_nil_of_mem hevent
  obtain ⟨e, hrows⟩ : ∃ e, rowsOf (s.cachedAfter tables) s.bufferedInsights = .error e := by
    cases hrows : rowsOf (s.cachedAfter tables) s.bufferedInsights with
    | error e => exact ⟨e, rfl⟩
    | ok rows => exact absurd hnone ((rowsOf_isOk_iff _ _).mp ⟨rows, hrows⟩ event hevent)
  obtain ⟨t, hsettle, hback, hdatabase, hcached, hstill⟩ := settle_of_failed config
    (s := s.flushing (s.cachedAfter tables) .failed)
    (flushes_flushing (s.cachedAfter tables) .failed) rfl
  have hflush : s.flush config tables = (t, tables.upsert (s.metadataToSave tables)) := by
    rw [flush, flushEvents_eq hinit hbuffer]
    dsimp only
    rw [saveInsightsMetadataAndRaw_eq, hrows, Option.bind_some]
    dsimp only
    rw [hsettle]
    rfl
  rw [hflush]
  refine ⟨hback, hdatabase, hstill.trans hinit, ?_⟩
  rw [Known, not_or, not_not] at hknown ⊢
  refine ⟨fun howns => hknown.1 ?_, (congrFun hcached _).trans hnone⟩
  rwa [Tables.Owns, owners_upsert] at howns

/-! ## Many flushes -/

theorem foldl_collect_keeps (insights : List BufferedInsight) (s : State) :
    (∀ event ∈ s.bufferedInsights, event ∈ (insights.foldl collect s).bufferedInsights) ∧
      (insights.foldl collect s).database = s.database ∧
        (insights.foldl collect s).isInitialized = s.isInitialized ∧
          (insights.foldl collect s).cachedMetadata = s.cachedMetadata := by
  induction insights generalizing s with
  | nil => exact ⟨fun _ h => h, rfl, rfl, rfl⟩
  | cons insight insights ih =>
    obtain ⟨hbuffer, hdatabase, hinit, hcached⟩ := ih (s.collect insight)
    obtain ⟨buffer, hadd, hmem⟩ := exists_foldl_addEvent_eq [⟨s.collected.length, insight⟩] s
    have hcollect : s.collect insight =
        { s with
          bufferedInsights := buffer
          collected := s.collected ++ [⟨s.collected.length, insight⟩] } := by
      rw [List.foldl_cons, List.foldl_nil] at hadd
      rw [collect, hadd]
    rw [hcollect] at hbuffer hdatabase hinit hcached
    rw [List.foldl_cons, hcollect]
    exact ⟨fun event h => hbuffer event (hmem event (Or.inl h)), hdatabase, hinit, hcached⟩

/-- **One event blocks all flushes.** While an event without an owner and without metadata is in the
buffer, every flush puts all events back, and nothing is ever stored. -/
theorem retried_forever (config : InsightsConfig) (hinit : s.isInitialized = true) {event : Event}
    (hevent : event ∈ s.bufferedInsights) (hknown : ¬s.Known tables event)
    (collected : ℕ → List BufferedInsight) (n : ℕ) :
    (∀ other ∈ s.bufferedInsights,
        other ∈ (s.flushAgain config tables collected n).1.bufferedInsights) ∧
      (s.flushAgain config tables collected n).1.database = s.database ∧
        (s.flushAgain config tables collected n).1.isInitialized = true ∧
          ¬(s.flushAgain config tables collected n).1.Known
            (s.flushAgain config tables collected n).2 event := by
  induction n with
  | zero => exact flush_of_not_known config hinit hevent hknown
  | succ n ih =>
    obtain ⟨hback, hdatabase, hinit, hstill⟩ := ih
    rw [flushAgain]
    generalize s.flushAgain config tables collected n = result at *
    obtain ⟨t, tables'⟩ := result
    obtain ⟨hcollect, hdatabase', hinit', hcached⟩ := foldl_collect_keeps (collected n) t
    have hstill' : ¬((collected n).foldl collect t).Known tables' event := by
      rwa [Known, hcached]
    obtain ⟨hback', hflush⟩ := flush_of_not_known config (hinit'.trans hinit)
      (hcollect event (hback event hevent)) hstill'
    refine ⟨fun other h => hback' other (hcollect other (hback other h)), ?_, hflush.2⟩
    exact hflush.1.trans (hdatabase'.trans hdatabase)

/-- **When a flush goes on**: the metadata of every event in the buffer are known or can be
found. -/
theorem goesOn_iff (config : InsightsConfig) (tables : Tables) (s : State) :
    s.GoesOn config tables ↔
      ∀ event ∈ s.bufferedInsights, s.isInitialized = true ∧ s.Known tables event := by
  constructor
  · intro h event hevent
    cases hinit : s.isInitialized with
    | false =>
      have hflush : s.flush config tables = (s, tables) := by
        rw [flush, flushEvents, hinit]
        rfl
      have hcompletes := h.completes event hevent
      rw [hflush] at hcompletes
      exact absurd hevent hcompletes
    | true =>
      refine ⟨rfl, ?_⟩
      by_contra hknown
      obtain ⟨hback, -⟩ := flush_of_not_known config hinit hevent hknown
      exact h.completes event hevent (hback event hevent)
  · intro h
    by_cases hbuffer : s.bufferedInsights = []
    · have hnone (event : Event) : event ∉ s.bufferedInsights := by
        rw [hbuffer]
        exact List.not_mem_nil
      exact ⟨fun _ hevent => absurd hevent (hnone _), fun _ hevent => absurd hevent (hnone _),
        fun _ hevent => absurd hevent (hnone _)⟩
    · obtain ⟨event, hevent⟩ := List.exists_mem_of_ne_nil _ hbuffer
      obtain ⟨hempty, hstored⟩ := flush_of_known config (h event hevent).1 hbuffer
        fun event hevent => (h event hevent).2
      have hcompletes (event : Event) :
          event ∉ (s.flush config tables).1.bufferedInsights := by
        rw [hempty]
        exact List.not_mem_nil
      refine ⟨fun event hevent _ => ?_, fun event _ => hcompletes event,
        fun event _ _ _ => ⟨0, hcompletes event⟩⟩
      rw [hstored]
      exact List.mem_append_right _ hevent

/-! ## One event without an owner -/

private def insight (workflowId : String) : BufferedInsight where
  workflowId
  workflowName := "A"
  type := .success
  value := .finite 1
  timestamp := 0

/-- Two events in the buffer. -/
private def twoEvents : State where
  bufferedInsights := [⟨0, insight "1"⟩, ⟨1, insight "2"⟩]
  isInitialized := true
  collected := [⟨0, insight "1"⟩, ⟨1, insight "2"⟩]

/-- The second workflow has no owner. -/
private def oneOwner : Tables where
  owners := [{ workflowId := "1", projectId := "p", projectName := "P" }]
  metadata := []
  nextMetaId := 1

private def thousandEvents : InsightsConfig where
  flushBatchSize := 1000
  flushIntervalSeconds := 30

/-- The first event has an owner, but is not stored. -/
theorem not_goesOn_oneOwner : ¬twoEvents.GoesOn thousandEvents oneOwner := by
  intro h
  have hknown : ¬twoEvents.Known oneOwner ⟨1, insight "2"⟩ := by
    rintro (⟨workflow, hmem, hid⟩ | hcached)
    · obtain rfl := List.mem_singleton.mp hmem
      exact absurd hid (by decide)
    · exact hcached rfl
  obtain ⟨-, hdatabase, -⟩ := flush_of_not_known thousandEvents rfl (by decide) hknown
  have hstored := h.stores ⟨0, insight "1"⟩ (by decide) ⟨_, List.mem_singleton_self _, rfl⟩
  rw [stored, hdatabase] at hstored
  exact absurd hstored List.not_mem_nil

/-- After three more flushes the event without an owner is still in the buffer. -/
theorem retried_forever_oneOwner :
    (⟨1, insight "2"⟩ : Event) ∈ (twoEvents.flushAgain thousandEvents oneOwner
      (fun _ => [insight "1"]) 3).1.bufferedInsights := by
  have hknown : ¬twoEvents.Known oneOwner ⟨1, insight "2"⟩ := by
    simp [Known, Tables.Owns, oneOwner, twoEvents, insight]
  exact (retried_forever thousandEvents rfl (by decide) hknown _ 3).1 _ (by decide)

end State

end N8n.Insights
