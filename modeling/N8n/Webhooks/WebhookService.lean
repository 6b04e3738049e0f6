import N8n.Foundations.InsertionMap

/-!
# Webhooks in the database and in the cache

`WebhookService` looks webhooks up in the cache and then in the database, stores them in the
cache and then in the database, and deletes them from the cache and the database. Each call to
the cache or to the database is one step, and the operations of any number of callers interleave
between their calls. A lookup does not wait for the cache to take the webhook that it found, nor
a deletion for the cache to drop the webhooks: these calls complete at any later time.

Calls to the cache and to the database succeed. The cache may drop an entry at any time.
-/

namespace N8n

inductive IHttpRequestMethods where
  | delete
  | get
  | head
  | patch
  | post
  | put
  deriving DecidableEq, Repr

def IHttpRequestMethods.toString : IHttpRequestMethods → String
  | .delete => "DELETE"
  | .get => "GET"
  | .head => "HEAD"
  | .patch => "PATCH"
  | .post => "POST"
  | .put => "PUT"

structure WebhookEntity where
  workflowId : String
  webhookPath : String
  method : IHttpRequestMethods
  node : String
  webhookId : Option String := none
  pathLength : Option ℕ := none
  deriving DecidableEq, Repr

namespace WebhookEntity

/-- The columns that identify a row. -/
def primaryKey (webhook : WebhookEntity) : IHttpRequestMethods × String :=
  (webhook.method, webhook.webhookPath)

def uniquePath (webhook : WebhookEntity) : String :=
  if webhook.webhookPath.toList.contains ':' then
    webhook.webhookId.getD "" ++ "/" ++ webhook.webhookPath
  else webhook.webhookPath

def cacheKey (webhook : WebhookEntity) : String :=
  "webhook:" ++ webhook.method.toString ++ "-" ++ webhook.uniquePath

end WebhookEntity

/-- The webhooks in the database: no two rows have the same primary key. -/
structure WebhookRepository where
  rows : List WebhookEntity
  nodup : (rows.map WebhookEntity.primaryKey).Nodup

namespace WebhookRepository

variable {table : WebhookRepository} {webhook row : WebhookEntity}

def empty : WebhookRepository := ⟨[], List.nodup_nil⟩

/-- `findOneBy({ webhookPath, method })`. -/
def findStatic (method : IHttpRequestMethods) (path : String) (table : WebhookRepository) :
    Option WebhookEntity :=
  table.rows.find? fun row => row.primaryKey = (method, path)

/-- `findBy({ workflowId })`. -/
def findBy (workflowId : String) (table : WebhookRepository) : List WebhookEntity :=
  table.rows.filter fun row => row.workflowId = workflowId

/-- `remove(webhooks)`, which deletes rows by their primary keys. -/
def remove (webhooks : List WebhookEntity) (table : WebhookRepository) : WebhookRepository :=
  ⟨table.rows.filter fun row => row.primaryKey ∉ webhooks.map WebhookEntity.primaryKey,
    table.nodup.sublist (List.filter_sublist.map _)⟩

@[simp] theorem mem_remove {webhooks : List WebhookEntity} :
    row ∈ (table.remove webhooks).rows ↔
      row ∈ table.rows ∧ row.primaryKey ∉ webhooks.map WebhookEntity.primaryKey := by
  rw [remove, List.mem_filter, decide_eq_true_eq]

/-- `upsert(webhook, ['method', 'webhookPath'])`. -/
def upsert (webhook : WebhookEntity) (table : WebhookRepository) : WebhookRepository :=
  ⟨webhook :: (table.remove [webhook]).rows, by
    refine List.nodup_cons.mpr ⟨fun hmem => ?_, (table.remove [webhook]).nodup⟩
    obtain ⟨row, hrow, hkey⟩ := List.mem_map.mp hmem
    refine (mem_remove.mp hrow).2 ?_
    rw [hkey]
    exact List.mem_singleton_self _⟩

@[simp] theorem mem_upsert : row ∈ (table.upsert webhook).rows ↔
    row = webhook ∨ row ∈ table.rows ∧ row.primaryKey ≠ webhook.primaryKey := by
  simp only [upsert, List.mem_cons, mem_remove, List.map_cons, List.map_nil, List.not_mem_nil,
    or_false]

end WebhookRepository

namespace WebhookService

/-- An operation, named by the call that it is suspended at. -/
inductive Operation where
  /-- `findCached(method, path)`, at `cacheService.get`. -/
  | gettingCached (method : IHttpRequestMethods) (path : String)
  /-- `findStaticWebhook(method, path)`. -/
  | findingStatic (method : IHttpRequestMethods) (path : String)
  /-- `findDynamicWebhook(path, method)`. -/
  | findingDynamic (method : IHttpRequestMethods) (path : String)
  /-- `storeWebhook(webhook)`, at `cacheService.set`. -/
  | caching (webhook : WebhookEntity)
  /-- `storeWebhook(webhook)`, at `webhookRepository.upsert`. -/
  | upserting (webhook : WebhookEntity)
  /-- `deleteWorkflowWebhooks(workflowId)`, at `webhookRepository.findBy`. -/
  | findingBy (workflowId : String)
  /-- `deleteWebhooks(webhooks)`, at `webhookRepository.remove`. -/
  | removing (webhooks : List WebhookEntity)
  deriving DecidableEq, Repr

/-- A call to the cache that nobody waits for. -/
inductive CacheCall where
  | set (key : String) (webhook : WebhookEntity)
  | deleteMany (keys : List String)
  deriving DecidableEq, Repr

end WebhookService

open WebhookService in
structure WebhookService where
  webhookRepository : WebhookRepository
  cache : InsertionMap String WebhookEntity := .empty
  /-- The operations in progress. -/
  operations : List Operation := []
  /-- The calls to the cache that have not completed and that no operation waits for. -/
  cacheCalls : List CacheCall := []

namespace WebhookService

variable {st : WebhookService}

/-- An operation goes on to its next call, or returns. -/
def goOn (operation : Operation) (next : Option Operation) (st : WebhookService) : WebhookService :=
  { st with operations := next.toList ++ st.operations.erase operation }

/-- `void this.cacheService...`: the operation does not wait for the call. -/
def callCache (call : CacheCall) (st : WebhookService) : WebhookService :=
  { st with cacheCalls := call :: st.cacheCalls }

/-- The key under which `findCached` looks a webhook up. -/
def lookupKey (method : IHttpRequestMethods) (path : String) : String :=
  "webhook:" ++ method.toString ++ "-" ++ path

/-- `findCached(method, path)`, after `cacheService.get`: a webhook in the cache is returned. -/
def gotCached (method : IHttpRequestMethods) (path : String) (st : WebhookService) :
    WebhookService :=
  st.goOn (.gettingCached method path)
    (if st.cache.has (lookupKey method path) then none else some (.findingStatic method path))

/-- `findCached(method, path)`, after `findStaticWebhook`. -/
def foundStatic (method : IHttpRequestMethods) (path : String) (st : WebhookService) :
    WebhookService :=
  match st.webhookRepository.findStatic method path with
  | some webhook =>
    (st.goOn (.findingStatic method path) none).callCache (.set (lookupKey method path) webhook)
  | none => st.goOn (.findingStatic method path) (some (.findingDynamic method path))

/-- `storeWebhook(webhook)`, after `cacheService.set`. -/
def cached (webhook : WebhookEntity) (st : WebhookService) : WebhookService :=
  { st.goOn (.caching webhook) (some (.upserting webhook)) with
    cache := st.cache.set webhook.cacheKey webhook }

/-- `storeWebhook(webhook)`, after `webhookRepository.upsert`. -/
def upserted (webhook : WebhookEntity) (st : WebhookService) : WebhookService :=
  { st.goOn (.upserting webhook) none with
    webhookRepository := st.webhookRepository.upsert webhook }

/-- `deleteWebhooks(webhooks)`, up to its call of `webhookRepository.remove`. -/
def foundBy (workflowId : String) (st : WebhookService) : WebhookService :=
  let webhooks := st.webhookRepository.findBy workflowId
  (st.goOn (.findingBy workflowId) (some (.removing webhooks))).callCache
    (.deleteMany (webhooks.map WebhookEntity.cacheKey))

/-- `deleteWebhooks(webhooks)`, after `webhookRepository.remove`. -/
def removed (webhooks : List WebhookEntity) (st : WebhookService) : WebhookService :=
  { st.goOn (.removing webhooks) none with
    webhookRepository := st.webhookRepository.remove webhooks }

/-- What a call does to the cache. -/
def CacheCall.run (cache : InsertionMap String WebhookEntity) :
    CacheCall → InsertionMap String WebhookEntity
  | .set key webhook => cache.set key webhook
  | .deleteMany keys => keys.foldl InsertionMap.erase cache

inductive Event where
  | findWebhook (method : IHttpRequestMethods) (path : String)
  | storeWebhook (webhook : WebhookEntity)
  | deleteWorkflowWebhooks (workflowId : String)
  /-- The call that an operation is suspended at is executed, and the operation goes on. -/
  | goesOn (operation : Operation)
  /-- A call to the cache that nobody waits for is executed. -/
  | cacheCallCompletes (call : CacheCall)
  /-- The cache drops an entry. -/
  | expires (key : String)
  deriving DecidableEq, Repr

def start (operation : Operation) (st : WebhookService) : WebhookService :=
  { st with operations := operation :: st.operations }

/-- The call of an operation and what the operation does until its next call. -/
def next (st : WebhookService) : Operation → WebhookService
  | .gettingCached method path => st.gotCached method path
  | .findingStatic method path => st.foundStatic method path
  | .findingDynamic method path => st.goOn (.findingDynamic method path) none
  | .caching webhook => st.cached webhook
  | .upserting webhook => st.upserted webhook
  | .findingBy workflowId => st.foundBy workflowId
  | .removing webhooks => st.removed webhooks

def step? (st : WebhookService) : Event → Option WebhookService
  | .findWebhook method path => some (st.start (.gettingCached method path))
  | .storeWebhook webhook => some (st.start (.caching webhook))
  | .deleteWorkflowWebhooks workflowId => some (st.start (.findingBy workflowId))
  | .goesOn operation => if operation ∈ st.operations then some (st.next operation) else none
  | .cacheCallCompletes call =>
    if call ∈ st.cacheCalls then
      some { st with
        cache := call.run st.cache
        cacheCalls := st.cacheCalls.erase call }
    else none
  | .expires key => some { st with cache := st.cache.erase key }

abbrev Step (st : WebhookService) (event : Event) (st' : WebhookService) : Prop :=
  st.step? event = some st'

/-- No operation is in progress, and the cache is empty. -/
def initial (webhookRepository : WebhookRepository) : WebhookService := { webhookRepository }

end WebhookService

end N8n
