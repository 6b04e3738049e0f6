import N8n.Foundations.Transition
import N8n.Webhooks.WebhookService

/-!
# Coherence of the webhook cache

A webhook in the cache is covered when its row is in the database or when a store in progress is
about to write that row. The cache is coherent at rest if it is covered throughout. Three calls can
uncover a webhook: the cache takes a webhook that a lookup found earlier, a store replaces a row,
and a deletion removes rows.
-/

namespace N8n.WebhookService

open Transition

variable {st st' : WebhookService} {webhook row : WebhookEntity} {key : String}

/-- A webhook is in the database, as far as requests can tell. -/
def Present (st : WebhookService) (webhook : WebhookEntity) : Prop :=
  ∃ row ∈ st.webhookRepository.rows, row.method = webhook.method ∧
    row.webhookPath = webhook.webhookPath ∧ row.workflowId = webhook.workflowId ∧
      row.node = webhook.node

/-- When no operation is in progress, every webhook in the cache is in the database. -/
def Coherent (st : WebhookService) : Prop :=
  st.operations = [] → ∀ key webhook, (key, webhook) ∈ st.cache.entries → st.Present webhook

/-- The row of a webhook is in the database, or a store is about to write it. -/
def Backed (st : WebhookService) (webhook : WebhookEntity) : Prop :=
  webhook ∈ st.webhookRepository.rows ∨ .upserting webhook ∈ st.operations

/-- Every webhook in the cache is backed. -/
def Covered (st : WebhookService) : Prop :=
  ∀ key webhook, (key, webhook) ∈ st.cache.entries → st.Backed webhook

/-- The condition on a step: a webhook that a lookup found is still backed when the cache takes it,
and a row is replaced or removed only when the cache holds no webhook with its primary key, other
than the replacement and what another store is about to write. -/
def Timely (st : WebhookService) : Event → Prop
  | .cacheCallCompletes (.set _ webhook) => st.Backed webhook
  | .goesOn (.upserting webhook) => ∀ key row, (key, row) ∈ st.cache.entries →
      row.primaryKey = webhook.primaryKey → row = webhook ∨ .upserting row ∈ st.operations
  | .goesOn (.removing webhooks) => ∀ key row, (key, row) ∈ st.cache.entries →
      row.primaryKey ∈ webhooks.map WebhookEntity.primaryKey → .upserting row ∈ st.operations
  | _ => True

theorem Covered.coherent (h : st.Covered) : st.Coherent := by
  intro hidle key webhook hmem
  obtain hrow | hstore := h key webhook hmem
  · exact ⟨webhook, hrow, rfl, rfl, rfl, rfl⟩
  · rw [hidle] at hstore
    exact absurd hstore List.not_mem_nil

theorem covered_initial (webhookRepository : WebhookRepository) :
    (initial webhookRepository).Covered := by
  intro key webhook hmem
  exact absurd hmem List.not_mem_nil

/-! ### Steps that keep the rows -/

/-- A store stays in progress until it goes on itself. -/
theorem mem_operations_goOn {operation : Operation} {next : Option Operation}
    (hne : operation ≠ .upserting webhook) (h : .upserting webhook ∈ st.operations) :
    .upserting webhook ∈ (st.goOn operation next).operations :=
  List.mem_append_right _ ((List.mem_erase_of_ne hne.symm).mpr h)

theorem Backed.goOn {operation : Operation} {next : Option Operation}
    (hne : ∀ row, operation ≠ .upserting row) (h : st.Backed webhook) :
    (st.goOn operation next).Backed webhook :=
  h.imp_right (mem_operations_goOn (hne webhook))

/-- Covered states have covered successors when the rows stay, what is backed stays backed, and
nothing new is in the cache. -/
theorem Covered.of_subset (h : st.Covered)
    (hcache : ∀ e ∈ st'.cache.entries, e ∈ st.cache.entries)
    (hbacked : ∀ webhook, st.Backed webhook → st'.Backed webhook) : st'.Covered := by
  intro key webhook hmem
  exact hbacked webhook (h key webhook (hcache _ hmem))

theorem Covered.start (h : st.Covered) (operation : Operation) : (st.start operation).Covered :=
  h.of_subset (fun _ hmem => hmem) fun _ hbacked => hbacked.imp_right (List.mem_cons_of_mem _)

theorem Covered.goOn {operation : Operation} {next : Option Operation} (h : st.Covered)
    (hne : ∀ row, operation ≠ .upserting row) : (st.goOn operation next).Covered :=
  h.of_subset (fun _ hmem => hmem) fun _ hbacked => hbacked.goOn hne

theorem Covered.callCache (h : st.Covered) (call : CacheCall) : (st.callCache call).Covered :=
  h.of_subset (fun _ hmem => hmem) fun _ hbacked => hbacked

theorem Covered.gotCached (h : st.Covered) (method : IHttpRequestMethods) (path : String) :
    (st.gotCached method path).Covered := by
  rw [WebhookService.gotCached]
  exact h.goOn fun _ heq => Operation.noConfusion heq

theorem Covered.foundStatic (h : st.Covered) (method : IHttpRequestMethods) (path : String) :
    (st.foundStatic method path).Covered := by
  rw [WebhookService.foundStatic]
  split
  · exact (h.goOn fun _ heq => Operation.noConfusion heq).callCache _
  · exact h.goOn fun _ heq => Operation.noConfusion heq

theorem Covered.foundBy (h : st.Covered) (workflowId : String) :
    (st.foundBy workflowId).Covered := by
  rw [WebhookService.foundBy]
  exact (h.goOn fun _ heq => Operation.noConfusion heq).callCache _

/-- A webhook that a store puts into the cache is about to be written. -/
theorem Covered.cached (h : st.Covered) (webhook : WebhookEntity) :
    (st.cached webhook).Covered := by
  intro key row hmem
  obtain ⟨_, rfl⟩ | ⟨_, hmem⟩ := InsertionMap.mem_set.mp hmem
  · exact Or.inr List.mem_cons_self
  · have hbacked : (st.goOn (.caching webhook) (some (.upserting webhook))).Backed row :=
      (h key row hmem).goOn fun _ heq => Operation.noConfusion heq
    exact hbacked

/-! ### Steps that change rows -/

theorem Covered.upserted (h : st.Covered) (htimely : st.Timely (.goesOn (.upserting webhook))) :
    (st.upserted webhook).Covered := by
  intro key row hmem
  by_cases hrow : row = webhook
  · exact Or.inl (WebhookRepository.mem_upsert.mpr (Or.inl hrow))
  have hne : Operation.upserting webhook ≠ .upserting row := by
    intro heq
    exact hrow (Operation.upserting.inj heq).symm
  by_cases hkey : row.primaryKey = webhook.primaryKey
  · have hstore := (htimely key row hmem hkey).resolve_left hrow
    exact Or.inr (mem_operations_goOn hne hstore)
  · refine (h key row hmem).imp (fun hstored => ?_) (mem_operations_goOn hne)
    exact WebhookRepository.mem_upsert.mpr (Or.inr ⟨hstored, hkey⟩)

theorem Covered.removed {webhooks : List WebhookEntity} (h : st.Covered)
    (htimely : st.Timely (.goesOn (.removing webhooks))) : (st.removed webhooks).Covered := by
  intro key row hmem
  have hne : Operation.removing webhooks ≠ .upserting row := nofun
  by_cases hkey : row.primaryKey ∈ webhooks.map WebhookEntity.primaryKey
  · exact Or.inr (mem_operations_goOn hne (htimely key row hmem hkey))
  · refine (h key row hmem).imp (fun hstored => ?_) (mem_operations_goOn hne)
    exact WebhookRepository.mem_remove.mpr ⟨hstored, hkey⟩

/-- An operation that goes on keeps the cache covered. -/
theorem Covered.next {operation : Operation} (h : st.Covered)
    (htimely : st.Timely (.goesOn operation)) : (st.next operation).Covered := by
  cases operation with
  | gettingCached method path => exact h.gotCached method path
  | findingStatic method path => exact h.foundStatic method path
  | findingDynamic method path => exact h.goOn fun _ heq => Operation.noConfusion heq
  | caching webhook => exact h.cached webhook
  | upserting webhook => exact h.upserted htimely
  | findingBy workflowId => exact h.foundBy workflowId
  | removing webhooks => exact h.removed htimely

theorem mem_of_mem_foldl_erase {keys : List String} {cache : InsertionMap String WebhookEntity}
    (hmem : (key, webhook) ∈ (keys.foldl InsertionMap.erase cache).entries) :
    (key, webhook) ∈ cache.entries := by
  induction keys generalizing cache with
  | nil => exact hmem
  | cons _ keys ih => exact (InsertionMap.mem_erase.mp (ih hmem)).1

theorem Covered.step {event : Event} (h : st.Covered) (htimely : st.Timely event)
    (hstep : Step st event st') : st'.Covered := by
  cases event with
  | findWebhook _ _ | storeWebhook _ | deleteWorkflowWebhooks _ =>
    obtain rfl := Option.some.inj hstep
    exact h.start _
  | goesOn operation =>
    obtain ⟨_, heq⟩ := Option.ite_none_right_eq_some.mp hstep
    obtain rfl := Option.some.inj heq
    exact h.next htimely
  | cacheCallCompletes call =>
    obtain ⟨_, heq⟩ := Option.ite_none_right_eq_some.mp hstep
    obtain rfl := Option.some.inj heq
    cases call with
    | set key webhook =>
      intro key' row hmem
      obtain ⟨_, rfl⟩ | ⟨_, hmem⟩ := InsertionMap.mem_set.mp hmem
      · exact htimely
      · exact h key' row hmem
    | deleteMany keys =>
      exact h.of_subset (fun _ hmem => mem_of_mem_foldl_erase hmem) fun _ hbacked => hbacked
  | expires key =>
    obtain rfl := Option.some.inj hstep
    exact h.of_subset (fun _ hmem => (InsertionMap.mem_erase.mp hmem).1) fun _ hbacked => hbacked

/-! ### The condition is exact -/

/-- Removing an operation brings no store into progress. -/
theorem mem_operations_of_goOn_none {operation : Operation}
    (h : .upserting webhook ∈ (st.goOn operation none).operations) :
    .upserting webhook ∈ st.operations :=
  List.mem_of_mem_erase h

/-- A step that is not timely leaves a webhook in the cache that nothing backs. -/
theorem not_covered_of_not_timely {event : Event} (htimely : ¬st.Timely event)
    (hstep : Step st event st') : ¬st'.Covered := by
  intro hcovered
  refine htimely ?_
  cases event with
  | goesOn operation =>
    obtain ⟨_, heq⟩ := Option.ite_none_right_eq_some.mp hstep
    obtain rfl := Option.some.inj heq
    cases operation with
    | upserting webhook =>
      intro key row hmem hkey
      obtain hstored | hstore := hcovered key row hmem
      · obtain heq | ⟨_, hne⟩ := WebhookRepository.mem_upsert.mp hstored
        · exact Or.inl heq
        · exact absurd hkey hne
      · exact Or.inr (mem_operations_of_goOn_none hstore)
    | removing webhooks =>
      intro key row hmem hkey
      obtain hstored | hstore := hcovered key row hmem
      · exact absurd hkey (WebhookRepository.mem_remove.mp hstored).2
      · exact mem_operations_of_goOn_none hstore
    | _ => trivial
  | cacheCallCompletes call =>
    obtain ⟨_, heq⟩ := Option.ite_none_right_eq_some.mp hstep
    obtain rfl := Option.some.inj heq
    cases call with
    | set key webhook =>
      exact hcovered key webhook (InsertionMap.mem_set.mpr (Or.inl ⟨rfl, rfl⟩))
    | deleteMany keys => trivial
  | _ => trivial

/-- **Webhook cache coherence**: a run keeps the cache covered if and only if all its steps are
timely, and then the cache is coherent in every state. -/
theorem visits_coherent (webhookRepository : WebhookRepository)
    (run : Run Step (initial webhookRepository) st) :
    (run.Visits Covered ↔ run.Takes Timely) ∧ (run.Takes Timely → run.Visits Coherent) := by
  have hiff : run.Visits Covered ↔ run.Takes Timely :=
    Run.visits_iff_takes (P := Covered) (fun st h => h)
      (fun _ _ _ h htimely hstep => h.step htimely hstep)
      (fun _ _ _ _ htimely hstep => not_covered_of_not_timely htimely hstep)
      (covered_initial webhookRepository) run
  refine ⟨hiff, fun htimely => ?_⟩
  exact (hiff.mpr htimely).mono fun _ h => h.coherent

/-- A lookup finds a webhook in the database, its workflow's webhooks are deleted, and then the
cache takes the webhook. Nothing is left in progress. -/
theorem not_coherent_cachedAfterDeletion :
    ∃ webhookRepository st, ∃ run : Run Step (initial webhookRepository) st,
      ¬run.Visits Coherent ∧ st.operations = [] ∧ st.cacheCalls = [] := by
  let webhook : WebhookEntity :=
    { workflowId := "1", webhookPath := "form", method := .get, node := "Webhook" }
  let table : WebhookRepository := WebhookRepository.empty.upsert webhook
  let events : List Event :=
    [.findWebhook .get "form", .goesOn (.gettingCached .get "form"),
      .goesOn (.findingStatic .get "form"),
      .deleteWorkflowWebhooks "1", .goesOn (.findingBy "1"),
      .cacheCallCompletes (.deleteMany ["webhook:GET-form"]), .goesOn (.removing [webhook]),
      .cacheCallCompletes (.set "webhook:GET-form" webhook)]
  have hstate : (events.foldlM step? (initial table)).any (fun st =>
      st.operations = [] ∧ st.cacheCalls = [] ∧
        st.cache.entries = [("webhook:GET-form", webhook)] ∧ st.webhookRepository.rows = []) := by
    decide
  obtain ⟨st, hst, hdata⟩ := (Option.any_eq_true _ _).mp hstate
  obtain ⟨hoperations, hcalls, hcache, hrows⟩ := of_decide_eq_true hdata
  obtain ⟨run, _⟩ := Run.exists_labels_eq hst
  refine ⟨table, st, run, fun h => ?_, hoperations, hcalls⟩
  have hmem : ("webhook:GET-form", webhook) ∈ st.cache.entries := by
    rw [hcache]
    exact List.mem_singleton_self _
  obtain ⟨row, hrow, _⟩ := h.last hoperations _ _ hmem
  rw [hrows] at hrow
  exact absurd hrow List.not_mem_nil

end N8n.WebhookService
