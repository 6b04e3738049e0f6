import N8n.Activation.Registration
import N8n.Foundations.Transition

/-!
# What runs in memory is tracked

Calls of `add` and `remove` one after the other, where anything that is started or closed may fail.
`add` collects the responses of the triggers in a list of its own and stores it in
`activeWorkflows` when all triggers have been started; crons are registered elsewhere. So an `add`
that fails may leave triggers that listen, or crons, of a workflow that is not active.

It leaves nothing when it `LeavesNothing` (`visits_tracked_iff`).
-/

namespace N8n

open ActiveWorkflows

namespace TrackedWorkflows

/-! ### Attempts -/

/-- A trigger node, and how its trigger function ends. Before it throws it may have registered
crons. -/
structure TriggerStart where
  node : TriggerNode
  throws : Bool := false
  deriving DecidableEq, Repr

/-- A poll node, and what fails of it. -/
structure PollStart where
  name : String
  /-- What precedes the crons throws: the poll times or the first poll. -/
  pollThrows : Bool := false
  /-- The cron expressions of its poll times, and whether `registerCron` throws. -/
  crons : List (String × Bool)
  deriving DecidableEq, Repr

/-- The nodes that a call of `add` finds. -/
structure Attempt where
  triggers : List TriggerStart
  pollers : List PollStart
  deriving DecidableEq, Repr

/-- An expression with seconds, and a wildcard for them. -/
def pollingTooShort (expression : String) : Bool :=
  let fields := expression.splitOn " "
  fields.length = 6 ∧ '*' ∈ ((fields[0]?).getD "").toList

/-! ### `add` and `remove` -/

section Calls

variable (call : ℕ) (workflowId : WorkflowId)

/-- The loop over the trigger nodes. It gives the responses, unless a trigger throws. -/
def runTriggers : List TriggerStart → List TriggerResponse → ActiveWorkflows →
    Option (List TriggerResponse) × ActiveWorkflows
  | [], triggerResponses, st => (some triggerResponses, st)
  | trigger :: rest, triggerResponses, st =>
    if trigger.throws then
      (none, st.registerCrons call workflowId trigger.node.name trigger.node.crons)
    else
      runTriggers rest (triggerResponses ++ trigger.node.triggerResponse call)
        (st.startTrigger call workflowId trigger.node)

/-- The loop over the cron expressions of a poll node. -/
def registerPollCrons (node : String) : List (String × Bool) → ActiveWorkflows →
    Bool × ActiveWorkflows
  | [], st => (true, st)
  | (expression, throws) :: rest, st =>
    if pollingTooShort expression then (false, st)
    else if throws then (false, st)
    else registerPollCrons node rest (st.registerCron workflowId ⟨call, node, expression⟩)

/-- `activatePolling(node, …)`: whether it returns. -/
def activatePolling (poller : PollStart) (st : ActiveWorkflows) : Bool × ActiveWorkflows :=
  if poller.pollThrows then (false, st)
  else registerPollCrons call workflowId poller.name poller.crons st

/-- The loop over the poll nodes. -/
def activatePollers (triggerResponses : List TriggerResponse) : List PollStart →
    ActiveWorkflows → Bool × ActiveWorkflows
  | [], st => (true, st)
  | poller :: rest, st =>
    match activatePolling call workflowId poller st with
    | (true, st) => activatePollers triggerResponses rest st
    | (false, st) => (false, if triggerResponses.length = 0 then st.deactivate workflowId else st)

/-- `add(workflowId, …)`: whether it returns. -/
def add (attempt : Attempt) (st : ActiveWorkflows) : Bool × ActiveWorkflows :=
  match runTriggers call workflowId attempt.triggers [] st with
  | (none, st) => (false, st)
  | (some triggerResponses, st) =>
    activatePollers call workflowId triggerResponses attempt.pollers
      (st.activate workflowId triggerResponses)

/-- The loop over the responses of a workflow. A `closeFunction` in `throwing` throws something
else than a `TriggerCloseError`, which is only logged. -/
def closeTriggers (throwing : List TriggerResponse) : List TriggerResponse → ActiveWorkflows →
    Bool × ActiveWorkflows
  | [], st => (true, st.deactivate workflowId)
  | response :: rest, st =>
    if response.closable then
      let st := st.closeTrigger workflowId response
      if response ∈ throwing then (false, st) else closeTriggers throwing rest st
    else closeTriggers throwing rest st

/-- `remove(workflowId)`: whether it returns. -/
def remove (throwing : List TriggerResponse) (st : ActiveWorkflows) : Bool × ActiveWorkflows :=
  match st.activeWorkflows.get? workflowId with
  | none => (true, st)
  | some triggerResponses =>
    closeTriggers workflowId throwing triggerResponses (st.deregisterCrons workflowId)

end Calls

end TrackedWorkflows

/-- The memory, and the number of calls of `add` so far. -/
structure TrackedWorkflows where
  memory : ActiveWorkflows := {}
  calls : ℕ := 0

namespace TrackedWorkflows

inductive Event where
  /-- `add` of a workflow that is not active. -/
  | add (workflowId : WorkflowId) (attempt : Attempt)
  | remove (workflowId : WorkflowId) (throwing : List TriggerResponse)
  deriving DecidableEq, Repr

def step? (st : TrackedWorkflows) : Event → Option TrackedWorkflows
  | .add workflowId attempt =>
    if st.memory.isActive workflowId then none
    else some {
      memory := (TrackedWorkflows.add st.calls workflowId attempt st.memory).2
      calls := st.calls + 1 }
  | .remove workflowId throwing =>
    some { st with memory := (TrackedWorkflows.remove workflowId throwing st.memory).2 }

abbrev Step (st : TrackedWorkflows) (event : Event) (st' : TrackedWorkflows) : Prop :=
  st.step? event = some st'

/-! ### Statement -/

/-- Every registered cron belongs to an active workflow, and so does every trigger that listens,
whose response is in the entry of the workflow, where `remove` finds it. -/
structure Tracked (st : TrackedWorkflows) : Prop where
  crons : ∀ workflowId, st.memory.cronsByWorkflow workflowId ≠ [] →
    st.memory.isActive workflowId = true
  listeners : ∀ workflowId, ∀ response ∈ st.memory.listeners workflowId,
    ∃ triggerResponses, st.memory.activeWorkflows.get? workflowId = some triggerResponses ∧
      response ∈ triggerResponses

/-- The elements up to the first one that fails, and that one. -/
def ranUntil {α : Type} (fails : α → Bool) : List α → List α
  | [] => []
  | a :: l => if fails a then [a] else a :: ranUntil fails l

/-- The crons of a list that are registered before one fails. -/
def registeredCrons : List (String × Bool) → List String
  | [] => []
  | (expression, throws) :: rest =>
    if pollingTooShort expression ∨ throws = true then [] else expression :: registeredCrons rest

namespace PollStart

def registered (poller : PollStart) : List String :=
  if poller.pollThrows then [] else registeredCrons poller.crons

def Fails (poller : PollStart) : Bool :=
  poller.pollThrows || poller.crons.any fun cron => pollingTooShort cron.1 || cron.2

end PollStart

namespace Attempt

variable (attempt : Attempt)

/-- When a trigger throws, none before it listens, and none up to it has registered a cron. When
the triggers have started without a response and a poller fails, no cron has been registered. -/
structure LeavesNothing : Prop where
  triggers : (∃ trigger ∈ attempt.triggers, trigger.throws = true) →
    ∀ trigger ∈ ranUntil TriggerStart.throws attempt.triggers, trigger.node.crons = [] ∧
      (trigger.throws = false → trigger.node.response ≠ some true)
  pollers : (∀ trigger ∈ attempt.triggers, trigger.throws = false ∧
      trigger.node.response = none) → (∃ poller ∈ attempt.pollers, poller.Fails = true) →
    (∀ trigger ∈ attempt.triggers, trigger.node.crons = []) ∧
      ∀ poller ∈ ranUntil PollStart.Fails attempt.pollers, poller.registered = []

end Attempt

/-- The condition on a step. -/
def Timely (_ : TrackedWorkflows) : Event → Prop
  | .add _ attempt => attempt.LeavesNothing
  | .remove _ _ => True

/-! ### Crons -/

/-- How the crons of a workflow grow, and whether something has been registered. -/
structure CronsAdded (before after : List Cron) (registers : Prop) : Prop where
  subset : before ⊆ after
  nonempty : registers → after ≠ []
  same : ¬registers → after = before

namespace CronsAdded

variable {before middle after : List Cron} {p q : Prop}

theorem refl (l : List Cron) : CronsAdded l l False :=
  ⟨List.Subset.refl l, False.elim, fun _ => rfl⟩

theorem congr (h : CronsAdded before after p) (hpq : p ↔ q) : CronsAdded before after q :=
  ⟨h.subset, fun hq => h.nonempty (hpq.mpr hq), fun hq => h.same (mt hpq.mp hq)⟩

theorem trans (h : CronsAdded before middle p) (h' : CronsAdded middle after q) :
    CronsAdded before after (p ∨ q) where
  subset := List.Subset.trans h.subset h'.subset
  nonempty := by
    rintro (hp | hq)
    · obtain ⟨cron, hcron⟩ := List.exists_mem_of_ne_nil _ (h.nonempty hp)
      exact List.ne_nil_of_mem (h'.subset hcron)
    · exact h'.nonempty hq
  same := fun hnot =>
    (h'.same fun hq => hnot (Or.inr hq)).trans (h.same fun hp => hnot (Or.inl hp))

end CronsAdded

section Memory

variable (st : ActiveWorkflows) (call : ℕ) (workflowId : WorkflowId)

theorem cronsAdded_registerCrons (node : String) (expressions : List String) :
    ∃ crons, (st.registerCrons call workflowId node expressions).registration workflowId =
        { st.registration workflowId with crons } ∧
      CronsAdded (st.registration workflowId).crons crons (expressions ≠ []) := by
  obtain ⟨crons, heq, hsub, -, hall⟩ :=
    exists_registration_registerCrons st call workflowId node expressions
  refine ⟨crons, heq, hsub, fun hne => ?_, fun hnil => ?_⟩
  · obtain ⟨expression, hmem⟩ := List.exists_mem_of_ne_nil _ hne
    obtain ⟨cron, hcron, -⟩ := hall expression hmem
    exact List.ne_nil_of_mem hcron
  · obtain rfl := not_not.mp hnil
    have hsame : st.registration workflowId = { st.registration workflowId with crons } := heq
    exact (congrArg Registration.crons hsame).symm

theorem cronsAdded_startTrigger (node : TriggerNode) :
    ∃ crons, (st.startTrigger call workflowId node).registration workflowId =
        { st.registration workflowId with
          crons, listeners := (st.registration workflowId).listeners ++
            (node.triggerResponse call).filter (·.closable) } ∧
      CronsAdded (st.registration workflowId).crons crons (node.crons ≠ []) := by
  obtain ⟨crons, heq, hadded⟩ := cronsAdded_registerCrons st call workflowId node.name node.crons
  refine ⟨crons, ?_, hadded⟩
  simp only [registration, Registration.mk.injEq] at heq
  simp only [registration, startTrigger, Function.update_self, heq.1, heq.2.1, heq.2.2]

/-! ### The loops of `add` -/

variable {st call workflowId}

/-- What the loop over the triggers does. -/
structure RanTriggers (call : ℕ) (triggers : List TriggerStart)
    (triggerResponses : List TriggerResponse) (before after : Registration)
    (result : Option (List TriggerResponse)) : Prop where
  responses : after.responses = before.responses
  crons : CronsAdded before.crons after.crons
    (∃ trigger ∈ ranUntil TriggerStart.throws triggers, trigger.node.crons ≠ [])
  listeners : after.listeners = before.listeners ++
    (((ranUntil TriggerStart.throws triggers).filter fun trigger => !trigger.throws).flatMap
      fun trigger => trigger.node.triggerResponse call).filter (·.closable)
  result : result = if ∃ trigger ∈ triggers, trigger.throws = true then none
    else some (triggerResponses ++ triggers.flatMap fun trigger =>
      trigger.node.triggerResponse call)

theorem ranTriggers_runTriggers (call : ℕ) (workflowId : WorkflowId) (triggers : List TriggerStart)
    (triggerResponses : List TriggerResponse) (st : ActiveWorkflows) :
    RanTriggers call triggers triggerResponses (st.registration workflowId)
      ((runTriggers call workflowId triggers triggerResponses st).2.registration workflowId)
      (runTriggers call workflowId triggers triggerResponses st).1 := by
  induction triggers generalizing triggerResponses st with
  | nil =>
    exact
      { responses := rfl
        crons := (CronsAdded.refl _).congr (by simp [ranUntil])
        listeners := (List.append_nil _).symm
        result := by simp [runTriggers] }
  | cons trigger rest ih =>
    cases hthrows : trigger.throws with
    | true =>
      have hrun : runTriggers call workflowId (trigger :: rest) triggerResponses st =
          (none, st.registerCrons call workflowId trigger.node.name trigger.node.crons) :=
        if_pos hthrows
      obtain ⟨crons, heq, hadded⟩ :=
        cronsAdded_registerCrons st call workflowId trigger.node.name trigger.node.crons
      rw [hrun, heq]
      exact
        { responses := rfl
          crons := hadded.congr (by simp [ranUntil, hthrows])
          listeners := by simp [ranUntil, hthrows]
          result := by simp [hthrows] }
    | false =>
      have hrun : runTriggers call workflowId (trigger :: rest) triggerResponses st =
          runTriggers call workflowId rest
            (triggerResponses ++ trigger.node.triggerResponse call)
            (st.startTrigger call workflowId trigger.node) :=
        if_neg (hthrows ▸ Bool.false_ne_true)
      obtain ⟨crons, heq, hadded⟩ := cronsAdded_startTrigger st call workflowId trigger.node
      have hrest := ih (triggerResponses ++ trigger.node.triggerResponse call)
        (st.startTrigger call workflowId trigger.node)
      rw [heq] at hrest
      rw [hrun]
      exact
        { responses := hrest.responses
          crons := (hadded.trans hrest.crons).congr (by simp [ranUntil, hthrows])
          listeners := by
            rw [hrest.listeners]
            simp [ranUntil, hthrows]
          result := by
            rw [hrest.result]
            simp [hthrows] }

theorem registration_runTriggers_of_ne (call : ℕ) {k : WorkflowId} (hne : k ≠ workflowId)
    (triggers : List TriggerStart) (triggerResponses : List TriggerResponse)
    (st : ActiveWorkflows) :
    (runTriggers call workflowId triggers triggerResponses st).2.registration k =
      st.registration k := by
  induction triggers generalizing triggerResponses st with
  | nil => rfl
  | cons trigger rest ih =>
    rw [runTriggers]
    split
    · exact registration_registerCrons_of_ne _ _ hne
    · exact (ih _ _).trans (registration_startTrigger_of_ne _ hne)

theorem registerPollCrons_eq (node : String) (crons : List (String × Bool))
    (st : ActiveWorkflows) :
    registerPollCrons call workflowId node crons st =
      (!crons.any fun cron => pollingTooShort cron.1 || cron.2,
        st.registerCrons call workflowId node (registeredCrons crons)) := by
  induction crons generalizing st with
  | nil => rfl
  | cons cron rest ih =>
    obtain ⟨expression, throws⟩ := cron
    rw [registerPollCrons]
    cases hshort : pollingTooShort expression with
    | true => simp [registeredCrons, hshort, registerCrons]
    | false =>
      cases throws with
      | true => simp [registeredCrons, registerCrons]
      | false => simp [registeredCrons, hshort, registerCrons, ih]

theorem activatePolling_eq (poller : PollStart) (st : ActiveWorkflows) :
    activatePolling call workflowId poller st =
      (!poller.Fails, st.registerCrons call workflowId poller.name poller.registered) := by
  rw [activatePolling, PollStart.Fails, PollStart.registered]
  cases poller.pollThrows with
  | true => rfl
  | false => exact registerPollCrons_eq _ _ _

/-- What the loop over the pollers does. -/
structure RanPollers (triggerResponses : List TriggerResponse) (pollers : List PollStart)
    (before after : Registration) : Prop where
  listeners : after.listeners = before.listeners
  crons : CronsAdded before.crons after.crons
    (∃ poller ∈ ranUntil PollStart.Fails pollers, poller.registered ≠ [])
  responses : after.responses =
    if triggerResponses = [] ∧ ∃ poller ∈ pollers, poller.Fails = true then none
    else before.responses

theorem ranPollers_activatePollers (call : ℕ) (workflowId : WorkflowId)
    (triggerResponses : List TriggerResponse)
    (pollers : List PollStart) (st : ActiveWorkflows) :
    RanPollers triggerResponses pollers (st.registration workflowId)
      ((activatePollers call workflowId triggerResponses pollers st).2.registration
        workflowId) := by
  induction pollers generalizing st with
  | nil =>
    exact
      { listeners := rfl
        crons := (CronsAdded.refl _).congr (by simp [ranUntil])
        responses := by simp [activatePollers] }
  | cons poller rest ih =>
    obtain ⟨crons, heq, hadded⟩ :=
      cronsAdded_registerCrons st call workflowId poller.name poller.registered
    rw [activatePollers, activatePolling_eq]
    cases hfails : poller.Fails with
    | true =>
      have hresponses : triggerResponses.length = 0 ↔ triggerResponses = [] :=
        List.length_eq_zero_iff
      simp only [Bool.not_true, hresponses]
      by_cases hnil : triggerResponses = []
      · rw [if_pos hnil, registration_deactivate_self, heq]
        exact
          { listeners := rfl
            crons := hadded.congr (by simp [ranUntil, hfails])
            responses := by simp [hnil, hfails] }
      · rw [if_neg hnil, heq]
        exact
          { listeners := rfl
            crons := hadded.congr (by simp [ranUntil, hfails])
            responses := by simp [hnil] }
    | false =>
      have hrest := ih (st.registerCrons call workflowId poller.name poller.registered)
      rw [heq] at hrest
      simp only [Bool.not_false]
      exact
        { listeners := hrest.listeners
          crons := (hadded.trans hrest.crons).congr (by simp [ranUntil, hfails])
          responses := by
            rw [hrest.responses]
            simp [hfails] }

theorem registration_activatePollers_of_ne {k : WorkflowId} (hne : k ≠ workflowId)
    (triggerResponses : List TriggerResponse) (pollers : List PollStart) (st : ActiveWorkflows) :
    (activatePollers call workflowId triggerResponses pollers st).2.registration k =
      st.registration k := by
  induction pollers generalizing st with
  | nil => rfl
  | cons poller rest ih =>
    have hcrons : (st.registerCrons call workflowId poller.name poller.registered).registration
        k = st.registration k := registration_registerCrons_of_ne _ _ hne
    rw [activatePollers, activatePolling_eq]
    cases poller.Fails with
    | true =>
      simp only [Bool.not_true]
      split
      · exact (registration_deactivate_of_ne hne).trans hcrons
      · exact hcrons
    | false => exact (ih _).trans hcrons

theorem registration_add_of_ne {k : WorkflowId} (hne : k ≠ workflowId) (attempt : Attempt)
    (st : ActiveWorkflows) : (add call workflowId attempt st).2.registration k =
      st.registration k := by
  have htriggers := registration_runTriggers_of_ne call hne attempt.triggers [] st
  rw [add]
  split
  next hrun =>
    rw [hrun] at htriggers
    exact htriggers
  next triggerResponses st' hrun =>
    rw [hrun] at htriggers
    rw [registration_activatePollers_of_ne hne, registration_activate_of_ne _ hne]
    exact htriggers

/-! ### One workflow -/

/-- What is in memory for a workflow is tracked. -/
structure RegistrationTracked (reg : Registration) : Prop where
  crons : reg.crons ≠ [] → reg.responses.isSome = true
  listeners : ∀ response ∈ reg.listeners, ∃ triggerResponses,
    reg.responses = some triggerResponses ∧ response ∈ triggerResponses

theorem tracked_iff (st : TrackedWorkflows) : st.Tracked ↔
    ∀ workflowId, RegistrationTracked (st.memory.registration workflowId) :=
  ⟨fun h workflowId => ⟨h.crons workflowId, h.listeners workflowId⟩,
    fun h => ⟨fun workflowId => (h workflowId).crons, fun workflowId => (h workflowId).listeners⟩⟩

/-- Nothing may be in memory for a workflow that is not active. -/
theorem registrationTracked_iff_of_none {reg : Registration} (hnone : reg.responses = none) :
    RegistrationTracked reg ↔ reg.crons = [] ∧ reg.listeners = [] := by
  constructor
  · rintro ⟨hcrons, hlisteners⟩
    constructor
    · by_contra hne
      exact absurd (hcrons hne) (hnone ▸ Bool.false_ne_true)
    · refine List.eq_nil_iff_forall_not_mem.mpr fun response hmem => ?_
      obtain ⟨triggerResponses, hsome, -⟩ := hlisteners response hmem
      exact nomatch hnone.symm.trans hsome
  · rintro ⟨hcrons, hlisteners⟩
    exact ⟨fun hne => absurd hcrons hne, fun response hmem =>
      absurd (hlisteners ▸ hmem) List.not_mem_nil⟩

theorem CronsAdded.eq_nil_iff {after : List Cron} {registers : Prop}
    (h : CronsAdded [] after registers) : after = [] ↔ ¬registers :=
  ⟨fun hnil hregisters => h.nonempty hregisters hnil, h.same⟩

theorem filter_triggerResponse_eq_nil_iff (triggers : List TriggerStart) :
    ((triggers.filter fun trigger => !trigger.throws).flatMap
      fun trigger => trigger.node.triggerResponse call).filter (·.closable) = [] ↔
      ∀ trigger ∈ triggers, trigger.throws = false → trigger.node.response ≠ some true := by
  rw [List.filter_eq_nil_iff]
  constructor
  · intro h trigger hmem hthrows hresponse
    refine h ⟨call, trigger.node.name, true⟩ ?_ rfl
    refine List.mem_flatMap.mpr ⟨trigger, List.mem_filter.mpr ⟨hmem, by rw [hthrows]; rfl⟩, ?_⟩
    rw [TriggerNode.triggerResponse, hresponse]
    exact List.mem_singleton_self _
  · intro h response hresponse hclosable
    obtain ⟨trigger, hmem, hmade⟩ := List.mem_flatMap.mp hresponse
    obtain ⟨hmem, hthrows⟩ := List.mem_filter.mp hmem
    obtain ⟨closable, hsome, rfl⟩ := List.mem_map.mp hmade
    have hclosable' : closable = true := hclosable
    refine h trigger hmem (by simpa using hthrows) ?_
    rw [← hclosable']
    exact Option.mem_toList.mp hsome

theorem ranUntil_eq_self {α : Type} {fails : α → Bool} {l : List α}
    (h : ∀ a ∈ l, fails a = false) : ranUntil fails l = l := by
  induction l with
  | nil => rfl
  | cons a l ih =>
    rw [ranUntil, if_neg (h a List.mem_cons_self ▸ Bool.false_ne_true),
      ih fun b hb => h b (List.mem_cons_of_mem a hb)]

theorem flatMap_triggerResponse_eq_nil_iff (triggers : List TriggerStart) :
    (triggers.flatMap fun trigger => trigger.node.triggerResponse call) = [] ↔
      ∀ trigger ∈ triggers, trigger.node.response = none := by
  rw [List.flatMap_eq_nil_iff]
  refine forall₂_congr fun trigger _ => ?_
  rw [TriggerNode.triggerResponse, List.map_eq_nil_iff, Option.toList_eq_nil_iff]

/-- **An `add` of a workflow of which nothing is in memory** leaves what is tracked exactly when it
leaves nothing. -/
theorem registrationTracked_add_iff (hempty : st.registration workflowId = {})
    (attempt : Attempt) :
    RegistrationTracked ((add call workflowId attempt st).2.registration workflowId) ↔
      attempt.LeavesNothing := by
  have htriggers := ranTriggers_runTriggers call workflowId
    attempt.triggers [] st
  rw [hempty] at htriggers
  rw [add]
  by_cases hthrows : ∃ trigger ∈ attempt.triggers, trigger.throws = true
  · -- a trigger throws, and there is no entry
    have hresult := htriggers.result
    rw [if_pos hthrows] at hresult
    have hrun : runTriggers call workflowId attempt.triggers [] st =
        (none, (runTriggers call workflowId attempt.triggers [] st).2) := Prod.ext hresult rfl
    rw [hrun]
    dsimp only
    rw [registrationTracked_iff_of_none htriggers.responses, htriggers.crons.eq_nil_iff,
      htriggers.listeners, List.nil_append, filter_triggerResponse_eq_nil_iff]
    constructor
    · rintro ⟨hcrons, hlisteners⟩
      refine ⟨fun _ trigger hmem => ⟨?_, hlisteners trigger hmem⟩, fun hnone => ?_⟩
      · by_contra hne
        exact hcrons ⟨trigger, hmem, hne⟩
      · obtain ⟨trigger, hmem, htrue⟩ := hthrows
        exact absurd (htrue.symm.trans (hnone trigger hmem).1) (by decide)
    · intro hleaves
      have hall := hleaves.triggers hthrows
      exact ⟨fun ⟨trigger, hmem, hne⟩ => hne (hall trigger hmem).1,
        fun trigger hmem => (hall trigger hmem).2⟩
  · have hnone : ∀ trigger ∈ attempt.triggers, trigger.throws = false := fun trigger hmem =>
      Bool.eq_false_of_not_eq_true fun htrue => hthrows ⟨trigger, hmem, htrue⟩
    have hran := ranUntil_eq_self hnone
    have hstarted : attempt.triggers.filter (fun trigger => !trigger.throws) =
        attempt.triggers :=
      List.filter_eq_self.mpr fun trigger hmem => by rw [hnone trigger hmem]; rfl
    have hresult := htriggers.result
    have hlisteners := htriggers.listeners
    have hcrons := htriggers.crons
    rw [if_neg hthrows, List.nil_append] at hresult
    rw [hran, hstarted, List.nil_append] at hlisteners
    rw [hran] at hcrons
    generalize hresponses : (attempt.triggers.flatMap fun trigger =>
      trigger.node.triggerResponse call) = triggerResponses at hresult hlisteners
    have hrun : runTriggers call workflowId attempt.triggers [] st =
        (some triggerResponses, (runTriggers call workflowId attempt.triggers [] st).2) :=
      Prod.ext hresult rfl
    have hnil : triggerResponses = [] ↔
        ∀ trigger ∈ attempt.triggers, trigger.node.response = none :=
      hresponses ▸ flatMap_triggerResponse_eq_nil_iff attempt.triggers
    rw [hrun]
    dsimp only
    have hpollers := ranPollers_activatePollers call workflowId
      triggerResponses attempt.pollers
      ((runTriggers call workflowId attempt.triggers [] st).2.activate workflowId
        triggerResponses)
    rw [registration_activate_self] at hpollers
    have hall := hcrons.trans hpollers.crons
    by_cases hfails : triggerResponses = [] ∧ ∃ poller ∈ attempt.pollers, poller.Fails = true
    · -- the entry is deleted again
      have hdeleted := hpollers.responses
      rw [if_pos hfails] at hdeleted
      have hquiet : triggerResponses.filter (·.closable) = [] := by rw [hfails.1, List.filter_nil]
      rw [registrationTracked_iff_of_none hdeleted, hall.eq_nil_iff,
        hpollers.listeners.trans (hlisteners.trans hquiet)]
      constructor
      · rintro ⟨hnothing, -⟩
        refine ⟨fun hthrowing => absurd hthrowing hthrows, fun _ _ => ⟨?_, ?_⟩⟩
        · intro trigger hmem
          by_contra hne
          exact hnothing (Or.inl ⟨trigger, hmem, hne⟩)
        · intro poller hmem
          by_contra hne
          exact hnothing (Or.inr ⟨poller, hmem, hne⟩)
      · intro hleaves
        obtain ⟨htrigger, hpoller⟩ := hleaves.pollers
          (fun trigger hmem => ⟨hnone trigger hmem, hnil.mp hfails.1 trigger hmem⟩) hfails.2
        refine ⟨?_, rfl⟩
        rintro (⟨trigger, hmem, hne⟩ | ⟨poller, hmem, hne⟩)
        · exact hne (htrigger trigger hmem)
        · exact hne (hpoller poller hmem)
    · -- the workflow is active
      have hkept := hpollers.responses
      rw [if_neg hfails] at hkept
      refine iff_of_true ⟨fun _ => by rw [hkept]; rfl, ?_⟩ ⟨?_, ?_⟩
      · intro response hmem
        rw [hpollers.listeners, hlisteners] at hmem
        exact ⟨triggerResponses, hkept, List.mem_of_mem_filter hmem⟩
      · exact fun hthrowing => absurd hthrowing hthrows
      · intro hquiet hfailing
        exact absurd ⟨hnil.mpr fun trigger hmem => (hquiet trigger hmem).2, hfailing⟩ hfails

/-! ### Removals -/

theorem registration_closeTriggers_of_ne {k : WorkflowId} (hne : k ≠ workflowId)
    (throwing triggerResponses : List TriggerResponse) (st : ActiveWorkflows) :
    (closeTriggers workflowId throwing triggerResponses st).2.registration k =
      st.registration k := by
  induction triggerResponses generalizing st with
  | nil => exact registration_deactivate_of_ne hne
  | cons response rest ih =>
    rw [closeTriggers]
    split
    · split
      · exact registration_closeTrigger_of_ne response hne
      · exact (ih _).trans (registration_closeTrigger_of_ne response hne)
    · exact ih _

theorem registration_remove_of_ne {k : WorkflowId} (hne : k ≠ workflowId)
    (throwing : List TriggerResponse) (st : ActiveWorkflows) :
    (remove workflowId throwing st).2.registration k = st.registration k := by
  rw [remove]
  split
  · rfl
  · exact (registration_closeTriggers_of_ne hne _ _ _).trans
      (registration_deregisterCrons_of_ne hne)

/-- Closing the triggers of a workflow whose crons are gone: what listens is still to be closed, or
the workflow stays active. -/
theorem registrationTracked_closeTriggers (throwing : List TriggerResponse)
    {triggerResponses all : List TriggerResponse} {st : ActiveWorkflows}
    (hactive : (st.registration workflowId).responses = some all)
    (hcrons : (st.registration workflowId).crons = [])
    (hlisteners : ∀ response ∈ (st.registration workflowId).listeners,
      response.closable = true ∧ response ∈ triggerResponses)
    (hsub : triggerResponses ⊆ all) :
    RegistrationTracked
      ((closeTriggers workflowId throwing triggerResponses st).2.registration workflowId) := by
  induction triggerResponses generalizing st with
  | nil =>
    rw [closeTriggers, registration_deactivate_self]
    refine (registrationTracked_iff_of_none rfl).mpr ⟨hcrons, ?_⟩
    exact List.eq_nil_iff_forall_not_mem.mpr fun response hmem =>
      absurd (hlisteners response hmem).2 List.not_mem_nil
  | cons response rest ih =>
    have hrest : rest ⊆ all := fun r hr => hsub (List.mem_cons_of_mem response hr)
    have hclosed : ∀ r ∈ (st.registration workflowId).listeners.filter (· ≠ response),
        r.closable = true ∧ r ∈ rest := by
      intro r hr
      obtain ⟨hmem, hne⟩ := List.mem_filter.mp hr
      obtain ⟨hclosable, hcons⟩ := hlisteners r hmem
      exact ⟨hclosable, (List.mem_cons.mp hcons).resolve_left (of_decide_eq_true hne)⟩
    rw [closeTriggers]
    split
    next hclosable =>
      split
      · rw [registration_closeTrigger_self]
        constructor
        · exact fun hne => absurd hcrons hne
        · exact fun r hr => ⟨all, hactive, hrest (hclosed r hr).2⟩
      · refine ih ?_ ?_ ?_ hrest
        · rw [registration_closeTrigger_self]
          exact hactive
        · rw [registration_closeTrigger_self]
          exact hcrons
        · rw [registration_closeTrigger_self]
          exact hclosed
    next hclosable =>
      refine ih hactive hcrons (fun r hr => ?_) hrest
      obtain ⟨hr', hcons⟩ := hlisteners r hr
      refine ⟨hr', (List.mem_cons.mp hcons).resolve_left ?_⟩
      rintro rfl
      exact hclosable hr'

/-! ### Every sequence of calls -/

/-- What is in memory for a workflow, with closable responses among the listeners. -/
structure RegistrationSound (reg : Registration) : Prop where
  tracked : RegistrationTracked reg
  closable : ∀ response ∈ reg.listeners, response.closable = true

theorem closable_add (hempty : st.registration workflowId = {}) (attempt : Attempt) :
    ∀ response ∈ ((add call workflowId attempt st).2.registration workflowId).listeners,
      response.closable = true := by
  have htriggers := ranTriggers_runTriggers call workflowId
    attempt.triggers [] st
  have hlisteners := htriggers.listeners
  rw [hempty, List.nil_append] at hlisteners
  rw [add]
  split
  next hrun =>
    rw [hrun] at hlisteners
    intro response hmem
    rw [hlisteners] at hmem
    exact List.of_mem_filter hmem
  next triggerResponses st' hrun =>
    rw [hrun] at hlisteners
    have hpollers := ranPollers_activatePollers call workflowId
      triggerResponses attempt.pollers (st'.activate workflowId triggerResponses)
    rw [registration_activate_self] at hpollers
    intro response hmem
    rw [hpollers.listeners, hlisteners] at hmem
    exact List.of_mem_filter hmem

theorem closable_closeTriggers (throwing triggerResponses : List TriggerResponse)
    {st : ActiveWorkflows}
    (h : ∀ response ∈ (st.registration workflowId).listeners, response.closable = true) :
    ∀ response ∈ ((closeTriggers workflowId throwing triggerResponses st).2.registration
      workflowId).listeners, response.closable = true := by
  induction triggerResponses generalizing st with
  | nil =>
    rw [closeTriggers, registration_deactivate_self]
    exact h
  | cons response rest ih =>
    have hclosed : ∀ r ∈ ((st.closeTrigger workflowId response).registration
        workflowId).listeners, r.closable = true := by
      rw [registration_closeTrigger_self]
      exact fun r hr => h r (List.mem_of_mem_filter hr)
    rw [closeTriggers]
    split
    · split
      · exact hclosed
      · exact ih hclosed
    · exact ih h

theorem RegistrationSound.remove (h : RegistrationSound (st.registration workflowId))
    (throwing : List TriggerResponse) :
    RegistrationSound
      ((TrackedWorkflows.remove workflowId throwing st).2.registration workflowId) := by
  rw [TrackedWorkflows.remove]
  split
  · exact h
  next triggerResponses hget =>
    have hsome : (st.registration workflowId).responses = some triggerResponses := hget
    have hlisteners : ∀ response ∈ (st.registration workflowId).listeners,
        response.closable = true ∧ response ∈ triggerResponses := by
      intro response hmem
      obtain ⟨stored, hstored, hin⟩ := h.tracked.listeners response hmem
      obtain rfl := Option.some.inj (hsome.symm.trans hstored)
      exact ⟨h.closable response hmem, hin⟩
    constructor
    · refine registrationTracked_closeTriggers throwing ?_ ?_ ?_ (List.Subset.refl _)
      · rw [registration_deregisterCrons_self]
        exact hsome
      · rw [registration_deregisterCrons_self]
      · rw [registration_deregisterCrons_self]
        exact hlisteners
    · refine closable_closeTriggers throwing triggerResponses ?_
      rw [registration_deregisterCrons_self]
      exact h.closable

end Memory

/-- The invariant. -/
def Sound (st : TrackedWorkflows) : Prop :=
  ∀ workflowId, RegistrationSound (st.memory.registration workflowId)

theorem Sound.tracked {st : TrackedWorkflows} (h : st.Sound) : st.Tracked :=
  (tracked_iff st).mpr fun workflowId => (h workflowId).tracked

theorem sound_start : ({} : TrackedWorkflows).Sound := by
  intro workflowId
  refine ⟨(registrationTracked_iff_of_none rfl).mpr ⟨rfl, rfl⟩, ?_⟩
  exact fun response hmem => absurd hmem List.not_mem_nil

/-- Nothing is in memory for a workflow that is not active. -/
theorem Sound.registration_eq_empty {st : TrackedWorkflows} (h : st.Sound)
    {workflowId : WorkflowId} (hinactive : ¬st.memory.isActive workflowId = true) :
    st.memory.registration workflowId = {} := by
  have hnone : (st.memory.registration workflowId).responses = none :=
    Option.not_isSome_iff_eq_none.mp hinactive
  obtain ⟨hcrons, hlisteners⟩ :=
    (registrationTracked_iff_of_none hnone).mp (h workflowId).tracked
  exact Registration.ext hnone hcrons hlisteners

theorem Sound.step {st st' : TrackedWorkflows} {event : Event} (h : st.Sound)
    (htimely : st.Timely event) (hstep : Step st event st') : st'.Sound := by
  cases event with
  | add workflowId attempt =>
    obtain ⟨hinactive, heq⟩ := Option.ite_none_left_eq_some.mp hstep
    obtain rfl := Option.some.inj heq
    have hempty := h.registration_eq_empty hinactive
    intro k
    by_cases hk : k = workflowId
    · subst hk
      exact ⟨(registrationTracked_add_iff hempty attempt).mpr htimely, closable_add hempty attempt⟩
    · rw [registration_add_of_ne hk]
      exact h k
  | remove workflowId throwing =>
    obtain rfl := Option.some.inj hstep
    intro k
    by_cases hk : k = workflowId
    · subst hk
      exact (h k).remove throwing
    · rw [registration_remove_of_ne hk]
      exact h k

theorem not_tracked_of_not_timely {st st' : TrackedWorkflows} {event : Event} (h : st.Sound)
    (htimely : ¬st.Timely event) (hstep : Step st event st') : ¬st'.Tracked := by
  cases event with
  | add workflowId attempt =>
    obtain ⟨hinactive, heq⟩ := Option.ite_none_left_eq_some.mp hstep
    obtain rfl := Option.some.inj heq
    intro htracked
    have hempty := h.registration_eq_empty hinactive
    have hone := (tracked_iff _).mp htracked workflowId
    exact htimely ((registrationTracked_add_iff hempty attempt).mp hone)
  | remove workflowId throwing => exact absurd trivial htimely

/-- **What runs is tracked**: a sequence of calls keeps to it if and only if every `add` leaves
nothing that it does not track. -/
theorem visits_tracked_iff {st : TrackedWorkflows}
    (run : Transition.Run Step ({} : TrackedWorkflows) st) :
    run.Visits Tracked ↔ run.Takes Timely :=
  Transition.Run.visits_iff_takes (I := Sound) (fun _ h => h.tracked)
    (fun _ _ _ h htimely hstep => h.step htimely hstep)
    (fun _ _ _ h htimely hstep => not_tracked_of_not_timely h htimely hstep) sound_start run

/-- The first of two triggers listens, and the second one does not start. -/
def secondTriggerThrows : Attempt where
  triggers := [⟨⟨"Redis Trigger", [], some true⟩, false⟩, ⟨⟨"MQTT Trigger", [], none⟩, true⟩]
  pollers := []

/-- The first trigger listens on, of a workflow that is not active. -/
theorem not_tracked_secondTriggerThrows :
    ∃ st, ∃ run : Transition.Run Step ({} : TrackedWorkflows) st, ¬run.Visits Tracked ∧
      st.memory.isActive "w" = false ∧ st.memory.listeners "w" ≠ [] := by
  have hstep : Step {} (.add "w" secondTriggerThrows)
      { memory := (add 0 "w" secondTriggerThrows {}).2, calls := 1 } := rfl
  have hnone : (add 0 "w" secondTriggerThrows {}).2.activeWorkflows.get? "w" = none := by decide
  have hlisteners : (add 0 "w" secondTriggerThrows {}).2.listeners "w" =
      [⟨0, "Redis Trigger", true⟩] := by decide
  refine ⟨_, .head _ hstep (.refl _), fun hvisits => ?_, ?_, ?_⟩
  · obtain ⟨triggerResponses, hsome, -⟩ := hvisits.2.listeners "w" _
      (hlisteners ▸ List.mem_singleton_self _)
    exact nomatch hnone.symm.trans hsome
  · exact congrArg Option.isSome hnone
  · exact hlisteners ▸ List.cons_ne_nil _ _

end TrackedWorkflows

end N8n
