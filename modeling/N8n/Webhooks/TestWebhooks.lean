import Mathlib.Data.List.Basic
import N8n.Foundations.PlainObject
import N8n.Webhooks.WebhookService

/-!
# Registering test webhooks

`needsWebhook` arms a timer and then registers the webhooks of a workflow one by one. It has two
exits inside its loop, and an error path that deactivates the webhooks of the workflow; none of
them clears the timer. So the call is all or nothing exactly when it ends before its loop, or
when nothing goes wrong for any webhook and no two of them share a key (`allOrNothing_iff`).

What the cache, the expression engine and the third-party services do in one call is an
`External`, with an outcome for each webhook of the loop.
-/

namespace N8n.TestWebhooks

/-! ## The registry -/

structure WebhookData where
  node : String
  httpMethod : IHttpRequestMethods
  path : String
  webhookId : Option String
  workflowId : String
  restartWebhook : Bool := false
  isTest : Bool := false
  userId : Option String := none
  deriving DecidableEq, Repr

structure TestWebhookRegistration where
  version : ℕ
  pushRef : Option String
  workflowEntity : String
  destinationNode : Option String
  webhook : WebhookData
  deriving DecidableEq, Repr

def testWebhookRegistrationVersion : ℕ := 1

/-- A text that is there and not empty. -/
def truthy (text : Option String) : Bool := text.any (· ≠ "")

/-- From behind the first slash of the path when it starts with the webhook id. -/
def cutWebhookId (webhookId path : List Char) : List Char :=
  if webhookId.isPrefixOf path ∧ '/' ∈ path then (path.dropWhile (· ≠ '/')).tail else path

def toKey (webhook : WebhookData) : String :=
  let webhookId := webhook.webhookId.getD ""
  if webhookId = "" then webhook.httpMethod.toString ++ "|" ++ webhook.path
  else
    let path := cutWebhookId webhookId.toList webhook.path.toList
    webhook.httpMethod.toString ++ "|" ++ webhookId ++ "|" ++ toString (path.splitOn '/').length

/-- The timers that are armed. A new timer has a number of its own. -/
structure Timers where
  armed : List ℕ
  next : ℕ
  fresh : ∀ id ∈ armed, id < next

def Timers.arm (timers : Timers) : Timers where
  armed := timers.next :: timers.armed
  next := timers.next + 1
  fresh id h := by
    rcases List.mem_cons.mp h with rfl | hold
    · exact Nat.lt_succ_self _
    · exact Nat.lt_succ_of_lt (timers.fresh id hold)

structure State where
  registry : InsertionMap String TestWebhookRegistration
  timeouts : InsertionMap String ℕ
  timers : Timers

namespace State

/-- A record of another version is ignored. -/
def get (s : State) (key : String) : Option TestWebhookRegistration :=
  (s.registry.get? key).filter (·.version = testWebhookRegistrationVersion)

def getAllRegistrations (s : State) : List TestWebhookRegistration :=
  s.registry.values.filter (·.version = testWebhookRegistrationVersion)

def write (s : State) (registration : TestWebhookRegistration) : State :=
  { s with registry := s.registry.set (toKey registration.webhook) registration }

end State

/-! ## A call -/

inductive CallError
  | workflowMissingId
  | singleWebhookTrigger (name : String)
  | webhookPathTaken (node : String)
  | other (message : String)
  deriving DecidableEq, Repr

/-- What `register` comes to: it may throw before or after the record is written. -/
inductive Registering
  | done
  | refused (error : CallError)
  | thrown (error : CallError)
  deriving DecidableEq, Repr

/-- What is outside. The outcomes of the loop are by the position of the webhook, those of the
deactivation by the position among the webhooks that are deactivated. -/
structure External where
  get : ℕ → Option CallError
  register : ℕ → Registering
  createWebhookIfNotExists : ℕ → Option CallError
  registerAgain : ℕ → Registering
  getAllRegistrations : Option CallError
  getBase : ℕ → Option CallError
  deleteWebhook : ℕ → Option CallError
  deregister : ℕ → Option CallError
  releaseIsolate : Option CallError

/-- The options of the call, the types of the workflow's nodes, and what `getWorkflowWebhooks`
gives for the workflow. -/
structure Call where
  userId : String
  workflowId : String
  runData : Option (List String) := none
  pushRef : Option String := none
  destinationNode : Option String := none
  triggerToStartFrom : Option (String × Bool) := none
  chatSessionId : Option String := none
  workflowIsActive : Bool := false
  nodeType : String → Option String
  workflowWebhooks : Except CallError (List WebhookData)
  external : External

def removeTrailingSlash (path : String) : String :=
  if path.toList.getLast? = some '/' then String.ofList path.toList.dropLast else path

def singleWebhookTriggers : List String :=
  ["n8n-nodes-base.telegramTrigger", "n8n-nodes-base.slackTrigger",
    "n8n-nodes-base.facebookLeadAdsTrigger"]

namespace Call

variable (call : Call)

/-- The webhooks to listen for. A preferred trigger without data leaves only its own. -/
def listened (webhooks : List WebhookData) : List WebhookData :=
  match call.triggerToStartFrom with
  | some (name, _) => webhooks.filter (·.node = name)
  | none => webhooks

/-- The call up to its timer: what it throws, or the webhooks to register, if any. -/
def toRegister : Except CallError (Option (List WebhookData)) :=
  if call.workflowId = "" then .error .workflowMissingId
  else
    match call.workflowWebhooks with
    | .error error => .error error
    | .ok webhooks =>
      if call.triggerToStartFrom.any (·.2) then .ok none
      else if (call.listened webhooks).all (·.restartWebhook) then .ok none
      else
        match (call.listened webhooks).find? fun webhook =>
            call.workflowIsActive ∧
              (call.nodeType webhook.node).getD "" ∈ singleWebhookTriggers with
        | some webhook => .error (.singleWebhookTrigger
            (if (call.nodeType webhook.node).isSome then webhook.node else ""))
        | none => .ok (some (call.listened webhooks))

/-- The webhook with the path under which it is registered. -/
def withPath (webhook : WebhookData) : WebhookData :=
  if truthy call.chatSessionId ∧ webhook.node ≠ "" ∧
      call.nodeType webhook.node = some "@n8n/n8n-nodes-langchain.chatTrigger" then
    { webhook with path := call.workflowId ++ "/" ++ call.chatSessionId.getD "" }
  else { webhook with path := removeTrailingSlash webhook.path }

def key (webhook : WebhookData) : String := toKey (call.withPath webhook)

/-- `webhook.node in runData`, which also finds the members of `Object.prototype`. -/
def InRunData (webhook : WebhookData) : Prop :=
  ∃ nodes ∈ call.runData, webhook.node ∈ nodes ++ InsertionMap.inheritedKeys

instance (webhook : WebhookData) : Decidable (call.InRunData webhook) :=
  inferInstanceAs (Decidable (∃ _ ∈ _, _))

/-- The registration is not a test webhook of this user in this workflow. -/
def Taken (webhook : WebhookData) (registration : TestWebhookRegistration) : Prop :=
  truthy webhook.webhookId = false ∧ registration.webhook.isTest = false ∧
    registration.webhook.userId ≠ some call.userId ∧
      registration.webhook.workflowId ≠ call.workflowId

instance (webhook : WebhookData) (registration : TestWebhookRegistration) :
    Decidable (call.Taken webhook registration) :=
  inferInstanceAs (Decidable (_ ∧ _))

def registration (webhook : WebhookData) : TestWebhookRegistration where
  version := testWebhookRegistrationVersion
  pushRef := call.pushRef
  workflowEntity := call.workflowId
  destinationNode := call.destinationNode
  webhook := { call.withPath webhook with isTest := true, userId := some call.userId }

/-- The `try` of the loop. -/
def registerWebhook (timeout n : ℕ) (webhook : WebhookData) (s : State) :
    State × Option CallError :=
  let written := s.write (call.registration webhook)
  match call.external.register n with
  | .refused error => (s, some error)
  | .thrown error => (written, some error)
  | .done =>
    match call.external.createWebhookIfNotExists n with
    | some error => (written, some error)
    | none =>
      match call.external.registerAgain n with
      | .refused error => (written, some error)
      | .thrown error => (written, some error)
      | .done => ({ written with timeouts := s.timeouts.set (call.key webhook) timeout }, none)

def deactivateAll : ℕ → List WebhookData → State → State × Option CallError
  | _, [], s => (s, none)
  | n, webhook :: webhooks, s =>
    match (if truthy webhook.userId then call.external.getBase n else none).or
        ((call.external.deleteWebhook n).or (call.external.deregister n)) with
    | some error => (s, some error)
    | none => deactivateAll (n + 1) webhooks { s with registry := s.registry.erase (toKey webhook) }

def deactivateWebhooks (s : State) : State × Option CallError :=
  match call.external.getAllRegistrations with
  | some error => (s, some error)
  | none =>
    call.deactivateAll 0
      ((s.getAllRegistrations.map (·.webhook)).filter (·.workflowId = call.workflowId)) s

/-- The `catch` of the loop. -/
def abandon (key : String) (error : CallError) (s : State) : State × Except CallError Bool :=
  match call.deactivateWebhooks s with
  | (s, some error) => (s, .error error)
  | (s, none) => ({ s with timeouts := s.timeouts.erase key }, .error error)

/-- The loop over the webhooks. -/
def registerAll (timeout : ℕ) : ℕ → List WebhookData → State → State × Except CallError Bool
  | _, [], s => (s, .ok true)
  | n, webhook :: webhooks, s =>
    match call.external.get n with
    | some error => (s, .error error)
    | none =>
      if call.InRunData webhook then (s, .ok false)
      else if ∃ registration ∈ s.get (call.key webhook), call.Taken webhook registration then
        (s, .error (.webhookPathTaken webhook.node))
      else
        match call.registerWebhook timeout n webhook s with
        | (s, none) => registerAll timeout (n + 1) webhooks s
        | (s, some error) => call.abandon (call.key webhook) error s

/-- The `finally` of the call. -/
def release (outcome : Except CallError Bool) : Except CallError Bool :=
  match call.external.releaseIsolate with
  | some error => .error error
  | none => outcome

def needsWebhook (s : State) : State × Except CallError Bool :=
  match call.toRegister with
  | .error error => (s, call.release (.error error))
  | .ok none => (s, call.release (.ok false))
  | .ok (some webhooks) =>
    let (s, outcome) :=
      call.registerAll s.timers.next 0 webhooks { s with timers := s.timers.arm }
    (s, call.release outcome)

end Call

/-! ## All or nothing -/

/-- A call that does not return true leaves no registration and no timer of its own; one that
does has registered every webhook it listens for under its key, with its timer. -/
structure AllOrNothing (call : Call) (s : State) : Prop where
  registrations : (call.needsWebhook s).2 ≠ .ok true →
    ∀ key registration, (call.needsWebhook s).1.registry.get? key = some registration →
      s.registry.get? key = some registration
  timers : (call.needsWebhook s).2 ≠ .ok true →
    ∀ id ∈ (call.needsWebhook s).1.timers.armed, id ∈ s.timers.armed
  registered : (call.needsWebhook s).2 = .ok true →
    ∀ webhooks, call.toRegister = .ok (some webhooks) → ∀ webhook ∈ webhooks,
      (call.needsWebhook s).1.registry.get? (call.key webhook) =
          some (call.registration webhook) ∧
        (call.needsWebhook s).1.timeouts.get? (call.key webhook) = some s.timers.next ∧
        s.timers.next ∈ (call.needsWebhook s).1.timers.armed

/-- Nothing outside fails for the webhook at a position, and the run data has no data of its
node. -/
structure Passes (call : Call) (n : ℕ) (webhook : WebhookData) : Prop where
  get : call.external.get n = none
  runData : ¬call.InRunData webhook
  register : call.external.register n = .done
  create : call.external.createWebhookIfNotExists n = none
  registerAgain : call.external.registerAgain n = .done

/-- The webhook behind some others passes. When it is the first of its key, the registration
that was there before the call does not take its path. -/
def PassesBehind (call : Call) (s : State) (before : List WebhookData) (webhook : WebhookData) :
    Prop :=
  Passes call before.length webhook ∧
    (call.key webhook ∉ before.map call.key →
      ∀ registration ∈ s.get (call.key webhook), ¬call.Taken webhook registration)

/-- The call ends before its timer, or every webhook passes and those of one key are the same. -/
def Condition (call : Call) (s : State) : Prop :=
  ∀ webhooks, call.toRegister = .ok (some webhooks) →
    (∀ before webhook after, webhooks = before ++ webhook :: after →
      PassesBehind call s before webhook) ∧
    (∀ webhook ∈ webhooks, ∀ other ∈ webhooks, call.key webhook = call.key other →
      call.registration webhook = call.registration other) ∧
    call.external.releaseIsolate = none

/-! ## The timer stays -/

section Timer

variable {call : Call} {s : State}

theorem timers_registerWebhook (timeout n : ℕ) (webhook : WebhookData) :
    (call.registerWebhook timeout n webhook s).1.timers = s.timers := by
  unfold Call.registerWebhook
  split
  · rfl
  · rfl
  split
  · rfl
  split
  · rfl
  · rfl
  · rfl

theorem timers_deactivateAll (n : ℕ) (webhooks : List WebhookData) :
    (call.deactivateAll n webhooks s).1.timers = s.timers := by
  induction webhooks generalizing n s with
  | nil => rfl
  | cons webhook webhooks ih =>
    unfold Call.deactivateAll
    split
    · rfl
    · exact ih (n + 1)

theorem timers_deactivateWebhooks : (call.deactivateWebhooks s).1.timers = s.timers := by
  unfold Call.deactivateWebhooks
  split
  · rfl
  · exact timers_deactivateAll 0 _

theorem timers_abandon (key : String) (error : CallError) :
    (call.abandon key error s).1.timers = s.timers := by
  have htimers : (call.deactivateWebhooks s).1.timers = s.timers := timers_deactivateWebhooks
  unfold Call.abandon
  split
  · rename_i heq
    rwa [heq] at htimers
  · rename_i heq
    rwa [heq] at htimers

/-- No exit of the loop clears the timer. -/
theorem timers_registerAll (timeout n : ℕ) (webhooks : List WebhookData) :
    (call.registerAll timeout n webhooks s).1.timers = s.timers := by
  induction webhooks generalizing n s with
  | nil => rfl
  | cons webhook webhooks ih =>
    have htimers : (call.registerWebhook timeout n webhook s).1.timers = s.timers :=
      timers_registerWebhook timeout n webhook
    unfold Call.registerAll
    split
    · rfl
    split
    · rfl
    split
    · rfl
    split
    · rename_i heq
      rw [heq] at htimers
      exact (ih (n + 1)).trans htimers
    · rename_i heq
      rw [heq] at htimers
      exact (timers_abandon _ _).trans htimers

end Timer

/-! ## The registrations of the loop -/

/-- The state behind the registration of some webhooks: their keys have registrations and the
timer of the call, the other keys what they had. -/
structure Registered (call : Call) (timeout : ℕ) (start : State) (before : List WebhookData)
    (s : State) : Prop where
  others : ∀ key, key ∉ before.map call.key → s.registry.get? key = start.registry.get? key
  own : ∀ webhook ∈ before, ∃ last ∈ before, call.key last = call.key webhook ∧
    s.registry.get? (call.key webhook) = some (call.registration last)
  timeouts : ∀ webhook ∈ before, s.timeouts.get? (call.key webhook) = some timeout

section Loop

variable {call : Call} {timeout n : ℕ} {start s t : State} {before webhooks : List WebhookData}
  {webhook : WebhookData}

/-- The `try` of the loop succeeds when nothing outside fails. -/
theorem registerWebhook_snd_eq_none_iff :
    (call.registerWebhook timeout n webhook s).2 = none ↔
      call.external.register n = .done ∧ call.external.createWebhookIfNotExists n = none ∧
        call.external.registerAgain n = .done := by
  unfold Call.registerWebhook
  cases hregister : call.external.register n with
  | refused error => simp only [reduceCtorEq, false_and]
  | thrown error => simp only [reduceCtorEq, false_and]
  | done =>
    cases hcreate : call.external.createWebhookIfNotExists n with
    | some error => simp only [reduceCtorEq, false_and, and_false]
    | none =>
      cases hagain : call.external.registerAgain n with
      | refused error => simp only [reduceCtorEq, and_false]
      | thrown error => simp only [reduceCtorEq, and_false]
      | done => simp only [and_self]

theorem registerWebhook_eq (h : (call.registerWebhook timeout n webhook s).2 = none) :
    call.registerWebhook timeout n webhook s =
      ({ s.write (call.registration webhook) with
        timeouts := s.timeouts.set (call.key webhook) timeout }, none) := by
  obtain ⟨hregister, hcreate, hagain⟩ := registerWebhook_snd_eq_none_iff.mp h
  simp only [Call.registerWebhook, hregister, hcreate, hagain]

theorem Registered.append (h : Registered call timeout start before s) (webhook : WebhookData) :
    Registered call timeout start (before ++ [webhook])
      { s.write (call.registration webhook) with
        timeouts := s.timeouts.set (call.key webhook) timeout } := by
  have hget (key : String) : (s.registry.set (call.key webhook) (call.registration webhook)).get?
      key = if key = call.key webhook then some (call.registration webhook)
        else s.registry.get? key := InsertionMap.get?_set _ _ _ _
  refine ⟨fun key hkey => ?_, fun other hmem => ?_, fun other hmem => ?_⟩
  · rw [List.map_append, List.mem_append, not_or, List.map_singleton, List.mem_singleton] at hkey
    exact (hget key).trans ((if_neg hkey.2).trans (h.others key hkey.1))
  · by_cases hkey : call.key other = call.key webhook
    · exact ⟨webhook, List.mem_append_right _ List.mem_cons_self, hkey.symm,
        (hget _).trans (if_pos hkey)⟩
    · have hold : other ∈ before := (List.mem_append.mp hmem).resolve_right fun hnew =>
        hkey (congrArg call.key (List.mem_singleton.mp hnew))
      obtain ⟨last, hlast, hsame, hregistered⟩ := h.own other hold
      exact ⟨last, List.mem_append_left _ hlast, hsame,
        (hget _).trans ((if_neg hkey).trans hregistered)⟩
  · show (s.timeouts.set (call.key webhook) timeout).get? (call.key other) = some timeout
    rw [InsertionMap.get?_set]
    split
    · rfl
    · rename_i hkey
      refine h.timeouts other ((List.mem_append.mp hmem).resolve_right fun hnew => hkey ?_)
      rw [List.mem_singleton.mp hnew]

/-- The call's own registrations never take a path. -/
theorem Registered.taken_iff (h : Registered call timeout start before s)
    (webhook : WebhookData) :
    (¬∃ registration ∈ s.get (call.key webhook), call.Taken webhook registration) ↔
      (call.key webhook ∉ before.map call.key →
        ∀ registration ∈ start.get (call.key webhook), ¬call.Taken webhook registration) := by
  by_cases hkey : call.key webhook ∈ before.map call.key
  · refine iff_of_true ?_ fun hnew => absurd hkey hnew
    rintro ⟨registration, hget, htaken⟩
    obtain ⟨other, hmem, hother⟩ := List.mem_map.mp hkey
    obtain ⟨last, -, -, hregistered⟩ := h.own other hmem
    rw [State.get, ← hother, hregistered] at hget
    obtain ⟨hsame, -⟩ := Option.mem_filter_iff.mp hget
    rw [← Option.some.inj hsame] at htaken
    exact Bool.noConfusion htaken.2.1
  · have hget : s.get (call.key webhook) = start.get (call.key webhook) := by
      rw [State.get, State.get, h.others _ hkey]
    rw [hget]
    exact ⟨fun hnone _ registration hmem htaken => hnone ⟨registration, hmem, htaken⟩,
      fun hall ⟨registration, hmem, htaken⟩ => hall hkey registration hmem htaken⟩

/-- What holds of each element and those before it, element by element. -/
theorem forall_split_cons {α : Type*} {P : List α → α → Prop} {first : List α} {a : α}
    {l : List α} :
    (∀ mid b after, a :: l = mid ++ b :: after → P (first ++ mid) b) ↔
      P first a ∧ ∀ mid b after, l = mid ++ b :: after → P (first ++ [a] ++ mid) b := by
  constructor
  · intro h
    refine ⟨?_, fun mid b after hsplit => ?_⟩
    · rw [← List.append_nil first]
      exact h [] a l rfl
    · rw [List.append_assoc]
      exact h (a :: mid) b after (congrArg (a :: ·) hsplit)
  · rintro ⟨hhead, htail⟩ mid b after hsplit
    cases mid with
    | nil =>
      obtain ⟨rfl, -⟩ := List.cons.inj hsplit
      rwa [List.append_nil]
    | cons next mid =>
      obtain ⟨rfl, hrest⟩ := List.cons.inj hsplit
      rw [List.append_cons]
      exact htail mid b after hrest

theorem abandon_ne_true (key : String) (error : CallError) :
    (call.abandon key error s).2 ≠ .ok true := by
  unfold Call.abandon
  split
  · exact nofun
  · exact nofun

/-- One turn of the loop goes on exactly when the webhook passes. -/
theorem registerAll_cons (h : Registered call timeout start before s) (webhook : WebhookData)
    (webhooks : List WebhookData) :
    (PassesBehind call start before webhook ∧
      call.registerAll timeout before.length (webhook :: webhooks) s =
        call.registerAll timeout (before ++ [webhook]).length webhooks
          { s.write (call.registration webhook) with
            timeouts := s.timeouts.set (call.key webhook) timeout }) ∨
      ¬PassesBehind call start before webhook ∧
        (call.registerAll timeout before.length (webhook :: webhooks) s).2 ≠ .ok true := by
  rw [Call.registerAll]
  cases hget : call.external.get before.length with
  | some error => exact Or.inr ⟨fun hpasses => (nomatch hget.symm.trans hpasses.1.get), nofun⟩
  | none =>
    by_cases hrunData : call.InRunData webhook
    · rw [if_pos hrunData]
      exact Or.inr ⟨fun hpasses => hpasses.1.runData hrunData, nofun⟩
    rw [if_neg hrunData]
    by_cases htaken : ∃ registration ∈ s.get (call.key webhook), call.Taken webhook registration
    · rw [if_pos htaken]
      exact Or.inr ⟨fun hpasses => (h.taken_iff webhook).mpr hpasses.2 htaken, nofun⟩
    rw [if_neg htaken]
    cases hregister : (call.registerWebhook timeout before.length webhook s).2 with
    | none =>
      rw [registerWebhook_eq hregister, List.length_append]
      obtain ⟨hfirst, hcreate, hagain⟩ := registerWebhook_snd_eq_none_iff.mp hregister
      exact Or.inl ⟨⟨⟨hget, hrunData, hfirst, hcreate, hagain⟩, (h.taken_iff webhook).mp htaken⟩,
        rfl⟩
    | some error =>
      have hpair : call.registerWebhook timeout before.length webhook s =
          ((call.registerWebhook timeout before.length webhook s).1, some error) :=
        Prod.ext rfl hregister
      rw [hpair]
      refine Or.inr ⟨fun hpasses => ?_, abandon_ne_true _ _⟩
      have hnone : (call.registerWebhook timeout before.length webhook s).2 = none :=
        registerWebhook_snd_eq_none_iff.mpr
          ⟨hpasses.1.register, hpasses.1.create, hpasses.1.registerAgain⟩
      exact nomatch hregister.symm.trans hnone

/-- The loop ends with true exactly when every webhook passes, and has then registered all. -/
theorem registerAll_spec (h : Registered call timeout start before s) :
    ((call.registerAll timeout before.length webhooks s).2 = .ok true ↔
      ∀ mid webhook after, webhooks = mid ++ webhook :: after →
        PassesBehind call start (before ++ mid) webhook) ∧
    ((call.registerAll timeout before.length webhooks s).2 = .ok true →
      Registered call timeout start (before ++ webhooks)
        (call.registerAll timeout before.length webhooks s).1) := by
  induction webhooks generalizing before s with
  | nil =>
    refine ⟨iff_of_true rfl fun mid webhook after hsplit => ?_, fun _ => ?_⟩
    · exact nomatch (List.append_eq_nil_iff.mp hsplit.symm).2
    · rw [List.append_nil]
      exact h
  | cons webhook webhooks ih =>
    rcases registerAll_cons h webhook webhooks with ⟨hpasses, heq⟩ | ⟨hpasses, hne⟩
    · obtain ⟨hiff, hregistered⟩ := ih (h.append webhook)
      rw [heq, forall_split_cons]
      refine ⟨hiff.trans ⟨fun hrest => ⟨hpasses, hrest⟩, And.right⟩, ?_⟩
      rw [List.append_cons before webhook webhooks]
      exact hregistered
    · rw [forall_split_cons]
      exact ⟨iff_of_false hne fun hall => hpasses hall.1, fun htrue => absurd htrue hne⟩

end Loop

/-! ## When a call is all or nothing -/

section AllOrNothing

variable {call : Call} {s : State} {webhooks : List WebhookData}

theorem registered_nil (call : Call) (timeout : ℕ) (start : State) (timers : Timers) :
    Registered call timeout start [] { start with timers } where
  others _ _ := rfl
  own _ h := absurd h List.not_mem_nil
  timeouts _ h := absurd h List.not_mem_nil

theorem release_eq_true_iff {outcome : Except CallError Bool} :
    call.release outcome = .ok true ↔ outcome = .ok true ∧ call.external.releaseIsolate = none := by
  unfold Call.release
  cases call.external.releaseIsolate with
  | some error => exact iff_of_false nofun fun h => nomatch h.2
  | none => exact ⟨fun h => ⟨h, rfl⟩, And.left⟩

/-- A call that ends before its timer changes nothing. -/
theorem needsWebhook_of_not_listening (h : ∀ webhooks, call.toRegister ≠ .ok (some webhooks)) :
    (call.needsWebhook s).1 = s ∧ (call.needsWebhook s).2 ≠ .ok true := by
  unfold Call.needsWebhook
  split
  · exact ⟨rfl, fun htrue => nomatch (release_eq_true_iff.mp htrue).1⟩
  · exact ⟨rfl, fun htrue => nomatch (release_eq_true_iff.mp htrue).1⟩
  · rename_i webhooks heq
    exact absurd heq (h webhooks)

/-- The loop of a call, with its timer. -/
def Call.loop (call : Call) (s : State) (webhooks : List WebhookData) :
    State × Except CallError Bool :=
  call.registerAll s.timers.next 0 webhooks { s with timers := s.timers.arm }

theorem needsWebhook_of_listening (h : call.toRegister = .ok (some webhooks)) :
    call.needsWebhook s = ((call.loop s webhooks).1, call.release (call.loop s webhooks).2) := by
  simp only [Call.needsWebhook, h, Call.loop]

theorem mem_armed_loop (webhooks : List WebhookData) :
    s.timers.next ∈ (call.loop s webhooks).1.timers.armed := by
  rw [Call.loop, timers_registerAll]
  exact List.mem_cons_self

/-- The loop ends with true exactly when every webhook passes. -/
theorem loop_eq_true_iff :
    (call.loop s webhooks).2 = .ok true ↔
      ∀ before webhook after, webhooks = before ++ webhook :: after →
        PassesBehind call s before webhook :=
  (registerAll_spec (registered_nil call s.timers.next s s.timers.arm)).1

theorem registered_loop (h : (call.loop s webhooks).2 = .ok true) :
    Registered call s.timers.next s webhooks (call.loop s webhooks).1 :=
  (registerAll_spec (registered_nil call s.timers.next s s.timers.arm)).2 h

/-- **A call is all or nothing exactly when it ends before its timer, or every webhook passes,
those of one key are the same, and the release does not fail.** -/
theorem allOrNothing_iff (call : Call) (s : State) : AllOrNothing call s ↔ Condition call s := by
  by_cases hlisten : ∃ webhooks, call.toRegister = .ok (some webhooks)
  · obtain ⟨webhooks, hwebhooks⟩ := hlisten
    have hcall := needsWebhook_of_listening (s := s) hwebhooks
    constructor
    · intro h other hother
      cases hwebhooks.symm.trans hother
      have htrue : (call.needsWebhook s).2 = .ok true := by
        by_contra hne
        have harmed := h.timers hne s.timers.next (by rw [hcall]; exact mem_armed_loop webhooks)
        exact lt_irrefl _ (s.timers.fresh _ harmed)
      have hregistered := h.registered htrue webhooks hwebhooks
      rw [hcall] at htrue
      obtain ⟨hloop, hrelease⟩ := release_eq_true_iff.mp htrue
      refine ⟨loop_eq_true_iff.mp hloop, fun webhook hmem other hother hkey => ?_, hrelease⟩
      have hfirst := (hregistered webhook hmem).1
      have hsecond := (hregistered other hother).1
      rw [← hkey] at hsecond
      exact Option.some.inj (hfirst.symm.trans hsecond)
    · intro h
      obtain ⟨hpasses, hsame, hrelease⟩ := h webhooks hwebhooks
      have hloop := loop_eq_true_iff.mpr hpasses
      have htrue : (call.needsWebhook s).2 = .ok true := by
        rw [hcall]
        exact release_eq_true_iff.mpr ⟨hloop, hrelease⟩
      have hregistered := registered_loop hloop
      refine ⟨fun hne => absurd htrue hne, fun hne => absurd htrue hne, ?_⟩
      intro _ other hother webhook hmem
      cases hwebhooks.symm.trans hother
      rw [hcall]
      obtain ⟨last, hlast, hkey, hget⟩ := hregistered.own webhook hmem
      rw [hsame last hlast webhook hmem hkey] at hget
      exact ⟨hget, hregistered.timeouts webhook hmem, mem_armed_loop webhooks⟩
  · rw [not_exists] at hlisten
    obtain ⟨hstate, hne⟩ := needsWebhook_of_not_listening (s := s) hlisten
    refine iff_of_true ⟨?_, ?_, ?_⟩ fun webhooks hwebhooks => absurd hwebhooks (hlisten webhooks)
    · intro _ key registration hget
      rwa [hstate] at hget
    · intro _ id hmem
      rwa [hstate] at hmem
    · exact fun htrue => absurd htrue hne

end AllOrNothing

/-! ## A call that leaves its timer behind -/

/-- A webhook of a node whose data is in the run data. -/
def webhookWithData : WebhookData where
  node := "Webhook"
  httpMethod := .get
  path := "a"
  webhookId := none
  workflowId := "1"

def nothingFails : External where
  get _ := none
  register _ := .done
  createWebhookIfNotExists _ := none
  registerAgain _ := .done
  getAllRegistrations := none
  getBase _ := none
  deleteWebhook _ := none
  deregister _ := none
  releaseIsolate := none

def callWithData : Call where
  userId := "u"
  workflowId := "1"
  runData := some ["Webhook"]
  nodeType _ := some "n8n-nodes-base.webhook"
  workflowWebhooks := .ok [webhookWithData]
  external := nothingFails

def noRegistrations : State := ⟨.empty, .empty, [], 0, nofun⟩

/-- The call returns false, and its timer stays armed. -/
theorem not_allOrNothing_runData : ¬∀ call s, AllOrNothing call s := by
  intro hclaim
  have hlisten : callWithData.toRegister = .ok (some [webhookWithData]) := rfl
  have hfalse : (callWithData.needsWebhook noRegistrations).2 ≠ .ok true := by
    rw [needsWebhook_of_listening hlisten]
    intro htrue
    have hrelease : callWithData.release (callWithData.loop noRegistrations [webhookWithData]).2 =
      .ok true := htrue
    obtain ⟨hloop, -⟩ := release_eq_true_iff.mp hrelease
    exact (loop_eq_true_iff.mp hloop [] webhookWithData [] rfl).1.runData
      ⟨["Webhook"], rfl, List.mem_cons_self⟩
  have harmed := (hclaim callWithData noRegistrations).timers hfalse 0
    (by rw [needsWebhook_of_listening hlisten]; exact mem_armed_loop [webhookWithData])
  exact List.not_mem_nil harmed

end N8n.TestWebhooks
