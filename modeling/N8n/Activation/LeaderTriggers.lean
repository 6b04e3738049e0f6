import N8n.Activation.ActiveWorkflowManager
import N8n.Activation.Registration
import N8n.Foundations.Transition

/-!
# The leader runs all triggers

While an instance is leader, a workflow of the activation in progress is ahead (its addition
has not begun), is being added, or has its triggers and pollers registered. While it is a
follower, nothing that is being added registers more, and what is registered is being
removed. A takeover or stepdown keeps this only under a condition on the additions and
removals that are under way: an activation in progress may have passed workflows as a
follower, and an addition that began as leader goes on after the stepdown.
-/

namespace N8n.ActiveWorkflowManager

open ActiveWorkflows Transition

variable {workflows : WorkflowActivation} {st st' : ActiveWorkflowManager} {id k : WorkflowId}

/-- A workflow has triggers or pollers. -/
def HasTriggersOrPollers (nodes : WorkflowNodes) : Prop :=
  nodes.triggerNodes ≠ [] ∨ nodes.pollNodes ≠ []

variable (workflows) in
/-- When no activation or removal is in progress, a leader has the triggers and pollers of all
active workflows registered, and a follower has nothing registered. -/
def LeaderRunsAll (st : ActiveWorkflowManager) : Prop :=
  st.initialized = true → st.activation = none → st.removals = [] →
    if st.isLeader then ∀ id ∈ workflows.activeIds, HasTriggersOrPollers (workflows.nodes id) →
      (st.activeWorkflows.registration id).Registered (workflows.nodes id)
    else ∀ id, st.activeWorkflows.registration id = {}

variable (workflows) in
/-- The activation in progress is still to add a workflow. -/
def Ahead (st : ActiveWorkflowManager) (id : WorkflowId) : Prop :=
  match st.activation with
  | none => False
  | some .gettingIds => id ∈ (chunk workflows.activationBatchSize workflows.activeIds).flatten
  | some (.activating batch batches) =>
    id ∈ batches.flatten ∨ id ∈ batch ∧ st.activateWorkflow id = .finding

/-- Where the activation in progress is with adding a workflow. -/
def addPhase? (st : ActiveWorkflowManager) (id : WorkflowId) : Option AddPhase :=
  match st.activation, st.activateWorkflow id with
  | some (.activating batch _), .adding phase => if id ∈ batch then some phase else none
  | _, _ => none

variable (workflows) in
/-- The condition on a step. -/
def Timely (st : ActiveWorkflowManager) : Event → Prop
  | .init => st.isLeader = true → st.activation = none →
      (∀ id ∈ workflows.activeIds, HasTriggersOrPollers (workflows.nodes id) →
        st.init.Ahead workflows id) ∧
        ∀ id, (st.activeWorkflows.registration id).listeners = []
  | .leaderTakeover => st.removals = [] ∧
      ∀ id ∈ workflows.activeIds, HasTriggersOrPollers (workflows.nodes id) →
        st.leaderTakeover.Ahead workflows id
  | .leaderStepdown => ∀ id phase, st.addPhase? id = some phase →
      ¬phase.RegistersMore (workflows.nodes id)
  | .closeThrown _ => False
  | _ => True

/-! ### The invariant -/

/-- What is registered for a workflow that a leader is adding. -/
def PhaseOk (nodes : WorkflowNodes) (reg : Registration) : AddPhase → Prop
  | .preparing shouldAdd => (shouldAdd = false → ¬HasTriggersOrPollers nodes) ∧
      reg.listeners = [] ∧ ∀ call, reg.Covered call
  | .runningTrigger node rest rs => ∃ ran, nodes.triggerNodes = ran ++ node :: rest ∧
      (∀ r ∈ reg.listeners, r ∈ rs) ∧ ∀ t ∈ ran, reg.HasTrigger t
  | .polling node rest _ => ∃ polled, nodes.pollNodes = polled ++ node :: rest ∧
      (∀ call, reg.Covered call) ∧ reg.responses.isSome = true ∧
        (∀ t ∈ nodes.triggerNodes, reg.HasTrigger t) ∧
          ∀ p ∈ polled, reg.HasCrons p.name p.crons
  | .releasing | .finishing | .done =>
    (HasTriggersOrPollers nodes → reg.Registered nodes) ∧ ∀ call, reg.Covered call
  | .failing | .failed => False

/-- A phase of an addition that registers nothing more. -/
def Quiet (nodes : WorkflowNodes) (phase : AddPhase) : Prop :=
  ¬phase.RegistersMore nodes ∧
    match phase with
    | .polling .. => nodes.pollNodes ≠ []
    | .failing | .failed => False
    | _ => True

variable (workflows) in
/-- What holds of a workflow while the instance is leader. -/
def LeaderOk (st : ActiveWorkflowManager) (id : WorkflowId) : Prop :=
  match st.addPhase? id with
  | some phase => PhaseOk (workflows.nodes id) (st.activeWorkflows.registration id) phase
  | none => (∀ call, (st.activeWorkflows.registration id).Covered call) ∧
      (st.Ahead workflows id → (st.activeWorkflows.registration id).listeners = []) ∧
      (id ∈ workflows.activeIds → HasTriggersOrPollers (workflows.nodes id) →
        st.initialized = true ∨ st.activation.isSome = true →
          st.Ahead workflows id ∨
            (st.activeWorkflows.registration id).Registered (workflows.nodes id))

variable (workflows) in
structure Sound (st : ActiveWorkflowManager) : Prop where
  nodup : ∀ batch batches, st.activation = some (.activating batch batches) →
    (batch ++ batches.flatten).Nodup ∧ ∀ id ∈ batch ++ batches.flatten, id ∈ workflows.activeIds
  leader : st.isLeader = true → st.removals = [] ∧ ∀ id, st.LeaderOk workflows id
  follower : st.isLeader = false →
    (∀ id phase, st.addPhase? id = some phase → Quiet (workflows.nodes id) phase) ∧
      ∃ removal : Option Removal, st.removals = removal.toList ∧
        ∀ id call, Clears call id (st.activeWorkflows.registration id) removal

theorem leaderOk_iff_of_none (hphase : st.addPhase? id = none) :
    st.LeaderOk workflows id ↔ (∀ call, (st.activeWorkflows.registration id).Covered call) ∧
      (st.Ahead workflows id → (st.activeWorkflows.registration id).listeners = []) ∧
      (id ∈ workflows.activeIds → HasTriggersOrPollers (workflows.nodes id) →
        st.initialized = true ∨ st.activation.isSome = true →
          st.Ahead workflows id ∨
            (st.activeWorkflows.registration id).Registered (workflows.nodes id)) := by
  rw [LeaderOk, hphase]

theorem leaderOk_iff_of_some {phase : AddPhase} (hphase : st.addPhase? id = some phase) :
    st.LeaderOk workflows id ↔
      PhaseOk (workflows.nodes id) (st.activeWorkflows.registration id) phase := by
  rw [LeaderOk, hphase]

theorem addPhase?_eq_some_iff {phase : AddPhase} : st.addPhase? id = some phase ↔
    ∃ batch batches, st.activation = some (.activating batch batches) ∧ id ∈ batch ∧
      st.activateWorkflow id = .adding phase := by
  rw [addPhase?]
  split
  next batch batches phase' hactivation hadding =>
    rw [hactivation, hadding]
    constructor
    · intro h
      obtain ⟨hmem, heq⟩ := Option.ite_none_right_eq_some.mp h
      exact ⟨batch, batches, rfl, hmem, congrArg ActivatePhase.adding (Option.some.inj heq)⟩
    · rintro ⟨_, _, ⟨⟩, hmem, ⟨⟩⟩
      exact if_pos hmem
  next hnot =>
    refine ⟨nofun, fun ⟨batch, batches, hactivation, _, hadding⟩ => ?_⟩
    exact (hnot _ _ _ hactivation hadding).elim

theorem addPhase?_of_activation (h : ∀ batch batches,
    st.activation ≠ some (.activating batch batches)) : st.addPhase? id = none := by
  refine Option.eq_none_iff_forall_ne_some.mpr fun phase hphase => ?_
  obtain ⟨batch, batches, hactivation, -⟩ := addPhase?_eq_some_iff.mp hphase
  exact h batch batches hactivation

/-- A workflow that is being added is not ahead. -/
theorem Sound.not_ahead (h : st.Sound workflows) {phase : AddPhase}
    (hphase : st.addPhase? id = some phase) : ¬st.Ahead workflows id := by
  obtain ⟨batch, batches, hactivation, hmem, hadding⟩ := addPhase?_eq_some_iff.mp hphase
  rw [Ahead, hactivation]
  rintro (hlater | ⟨-, hfinding⟩)
  · exact List.disjoint_of_nodup_append (h.nodup _ _ hactivation).1 hmem hlater
  · exact nomatch hadding.symm.trans hfinding

theorem Sound.mem_activeIds (h : st.Sound workflows) {phase : AddPhase}
    (hphase : st.addPhase? id = some phase) : id ∈ workflows.activeIds := by
  obtain ⟨batch, batches, hactivation, hmem, -⟩ := addPhase?_eq_some_iff.mp hphase
  exact (h.nodup _ _ hactivation).2 id (List.mem_append_left _ hmem)

theorem PhaseOk.covered {nodes : WorkflowNodes} {reg : Registration} {phase : AddPhase}
    (h : PhaseOk nodes reg phase) (hquiet : ¬phase.RegistersMore nodes) (call : ℕ) :
    reg.Covered call := by
  cases phase with
  | preparing => exact h.2.2 call
  | runningTrigger => exact absurd trivial hquiet
  | polling =>
    obtain ⟨-, -, hcovered, -⟩ := h
    exact hcovered call
  | releasing | finishing | done => exact h.2 call
  | failing | failed => exact h.elim

theorem PhaseOk.quiet {nodes : WorkflowNodes} {reg : Registration} {phase : AddPhase}
    (h : PhaseOk nodes reg phase) (hquiet : ¬phase.RegistersMore nodes) : Quiet nodes phase := by
  refine ⟨hquiet, ?_⟩
  cases phase with
  | polling =>
    obtain ⟨polled, heq, -⟩ := h
    rw [heq]
    exact List.append_ne_nil_of_right_ne_nil _ (List.cons_ne_nil _ _)
  | failing | failed => exact h.elim
  | _ => trivial

/-- While the instance is leader and nothing registers more, a removal can clear all. -/
theorem Sound.covered (h : st.Sound workflows) (hleader : st.isLeader = true)
    (hquiet : ∀ phase, st.addPhase? id = some phase → ¬phase.RegistersMore (workflows.nodes id))
    (call : ℕ) : (st.activeWorkflows.registration id).Covered call := by
  have hok := (h.leader hleader).2 id
  cases hphase : st.addPhase? id with
  | none => exact ((leaderOk_iff_of_none hphase).mp hok).1 call
  | some phase => exact ((leaderOk_iff_of_some hphase).mp hok).covered (hquiet phase hphase) call

theorem Sound.leaderRunsAll (h : st.Sound workflows) : st.LeaderRunsAll workflows := by
  intro hinitialized hactivation hremovals
  have hnone : ∀ id, st.addPhase? id = none := fun id =>
    addPhase?_of_activation (hactivation ▸ nofun)
  split
  next hleader =>
    intro id hid hnodes
    have hok := (leaderOk_iff_of_none (hnone id)).mp ((h.leader hleader).2 id)
    refine (hok.2.2 hid hnodes (Or.inl hinitialized)).resolve_left ?_
    rw [Ahead, hactivation]
    exact fun hahead => hahead
  next hleader =>
    obtain ⟨-, removal, hremoval, hclears⟩ := h.follower (Bool.eq_false_iff.mpr hleader)
    obtain _ | removal := removal
    · exact fun id => Registration.forall_free_iff.mp (hclears id)
    · exact nomatch hremovals.symm.trans hremoval

theorem sound_new (isLeader : Bool) : Sound workflows { isLeader } := by
  have hnone : ∀ id, addPhase? { isLeader } id = none := fun _ => rfl
  have hfree : ∀ id call, (({} : ActiveWorkflows).registration id).Free call :=
    fun id => Registration.forall_free_iff.mpr rfl
  refine ⟨nofun, fun _ => ⟨rfl, fun id => ?_⟩, fun _ => ⟨nofun, none, rfl, hfree⟩⟩
  refine (leaderOk_iff_of_none (hnone id)).mpr ⟨fun call => (hfree id call).covered, ?_, ?_⟩
  · exact fun hahead => hahead.elim
  · intro _ _ hstarted
    exact hstarted.elim (fun h => nomatch h) fun h => nomatch h

/-! ### Init and takeover -/

theorem addPhase?_addActiveWorkflows (st : ActiveWorkflowManager) (id : WorkflowId) :
    st.addActiveWorkflows.addPhase? id = st.addPhase? id := by
  rw [addActiveWorkflows]
  split
  · rfl
  next hactivation =>
    have hnone : st.activation = none :=
      Option.not_isSome_iff_eq_none.mp hactivation
    have hbefore : st.addPhase? id = none := addPhase?_of_activation (by rw [hnone]; exact nofun)
    rw [hbefore]
    exact addPhase?_of_activation fun _ _ h => nomatch h

/-- The call is skipped. -/
theorem addActiveWorkflows_of_isSome (h : st.activation.isSome = true) :
    st.addActiveWorkflows = st := if_pos h

theorem activating_of_addActiveWorkflows (st : ActiveWorkflowManager) {batch : List WorkflowId}
    {batches : List (List WorkflowId)}
    (h : st.addActiveWorkflows.activation = some (.activating batch batches)) :
    st.activation = some (.activating batch batches) := by
  rw [addActiveWorkflows] at h
  split at h
  · exact h
  · exact nomatch h

@[simp] theorem activeWorkflows_addActiveWorkflows (st : ActiveWorkflowManager) :
    st.addActiveWorkflows.activeWorkflows = st.activeWorkflows := by
  rw [addActiveWorkflows]
  split <;> rfl

@[simp] theorem removals_addActiveWorkflows (st : ActiveWorkflowManager) :
    st.addActiveWorkflows.removals = st.removals := by
  rw [addActiveWorkflows]
  split <;> rfl

@[simp] theorem isLeader_addActiveWorkflows (st : ActiveWorkflowManager) :
    st.addActiveWorkflows.isLeader = st.isLeader := by
  rw [addActiveWorkflows]
  split <;> rfl

theorem Sound.init (h : st.Sound workflows) (htimely : st.Timely workflows .init) :
    st.init.Sound workflows := by
  have hphase : ∀ id, st.init.addPhase? id = st.addPhase? id :=
    addPhase?_addActiveWorkflows { st with initialized := true }
  have hactive : st.init.activeWorkflows = st.activeWorkflows :=
    activeWorkflows_addActiveWorkflows _
  have hremovals : st.init.removals = st.removals := removals_addActiveWorkflows _
  have hisLeader : st.init.isLeader = st.isLeader := isLeader_addActiveWorkflows _
  refine ⟨fun batch batches hactivation =>
    h.nodup batch batches
      (activating_of_addActiveWorkflows { st with initialized := true } hactivation), ?_, ?_⟩
  · intro hleader
    rw [hisLeader] at hleader
    obtain ⟨hnil, hok⟩ := h.leader hleader
    refine ⟨hremovals.trans hnil, fun id => ?_⟩
    have hid := hok id
    cases hp : st.addPhase? id with
    | some phase =>
      rw [leaderOk_iff_of_some hp] at hid
      rwa [leaderOk_iff_of_some ((hphase id).trans hp), hactive]
    | none =>
      rw [leaderOk_iff_of_none hp] at hid
      rw [leaderOk_iff_of_none ((hphase id).trans hp), hactive]
      refine ⟨hid.1, ?_⟩
      by_cases hactivation : st.activation = none
      · obtain ⟨hahead, hlisteners⟩ := htimely hleader hactivation
        exact ⟨fun _ => hlisteners id, fun hmem hnodes _ => Or.inl (hahead id hmem hnodes)⟩
      · have hinProgress : st.activation.isSome = true :=
          Option.isSome_iff_ne_none.mpr hactivation
        -- the call of `addActiveWorkflows` is skipped
        have hahead : st.init.Ahead workflows id ↔ st.Ahead workflows id := by
          have hskipped : st.init = { st with initialized := true } :=
            addActiveWorkflows_of_isSome hinProgress
          rw [hskipped]
          exact Iff.rfl
        rw [hahead]
        exact ⟨hid.2.1, fun hmem hnodes _ => hid.2.2 hmem hnodes (Or.inr hinProgress)⟩
  · intro hfollower
    obtain ⟨hquiet, removal, hremoval, hclears⟩ := h.follower (hisLeader ▸ hfollower)
    refine ⟨fun id phase hp => hquiet id phase ((hphase id).symm.trans hp), removal,
      hremovals.trans hremoval, ?_⟩
    rw [hactive]
    exact hclears

theorem Sound.leaderTakeover (h : st.Sound workflows) (hfollower : st.isLeader = false)
    (htimely : st.Timely workflows .leaderTakeover) : st.leaderTakeover.Sound workflows := by
  have hphase : ∀ id, st.leaderTakeover.addPhase? id = st.addPhase? id :=
    addPhase?_addActiveWorkflows { st with isLeader := true }
  have hactive : st.leaderTakeover.activeWorkflows = st.activeWorkflows :=
    activeWorkflows_addActiveWorkflows _
  have hremovals : st.leaderTakeover.removals = st.removals := removals_addActiveWorkflows _
  have hisLeader : st.leaderTakeover.isLeader = true := isLeader_addActiveWorkflows _
  obtain ⟨hquiet, removal, hremoval, hclears⟩ := h.follower hfollower
  obtain ⟨hnil, hahead⟩ := htimely
  obtain rfl : removal = none := Option.toList_eq_nil_iff.mp (hremoval.symm.trans hnil)
  have hempty : ∀ id, st.activeWorkflows.registration id = {} := fun id =>
    Registration.forall_free_iff.mp (hclears id)
  refine ⟨fun batch batches hactivation =>
    h.nodup batch batches
      (activating_of_addActiveWorkflows { st with isLeader := true } hactivation), fun _ => ?_,
    fun hleader => absurd (hisLeader.symm.trans hleader) nofun⟩
  refine ⟨hremovals.trans hnil, fun id => ?_⟩
  have hcovered : ∀ call, Registration.Covered call {} := fun call =>
    (Registration.forall_free_iff.mpr rfl call).covered
  cases hp : st.addPhase? id with
  | none =>
    rw [leaderOk_iff_of_none ((hphase id).trans hp), hactive, hempty]
    exact ⟨hcovered, fun _ => rfl, fun hmem hnodes _ => Or.inl (hahead id hmem hnodes)⟩
  | some phase =>
    rw [leaderOk_iff_of_some ((hphase id).trans hp), hactive, hempty]
    -- the activation in progress has passed the workflow: it has nothing to register
    have hnot : ¬st.leaderTakeover.Ahead workflows id := by
      have hinProgress : st.activation.isSome = true := by
        obtain ⟨batch, batches, hactivation, -⟩ := addPhase?_eq_some_iff.mp hp
        rw [hactivation]
        rfl
      have hskipped : st.leaderTakeover = { st with isLeader := true } :=
        addActiveWorkflows_of_isSome hinProgress
      rw [hskipped]
      exact h.not_ahead hp
    have hnodes : ¬HasTriggersOrPollers (workflows.nodes id) := fun hnodes =>
      hnot (hahead id (h.mem_activeIds hp) hnodes)
    obtain ⟨hmore, hshape⟩ := hquiet id phase hp
    cases phase with
    | preparing => exact ⟨fun _ => hnodes, rfl, hcovered⟩
    | runningTrigger => exact absurd trivial hmore
    | polling => exact absurd (Or.inr hshape) hnodes
    | releasing | finishing | done => exact ⟨fun h => absurd h hnodes, hcovered⟩
    | failing | failed => exact hshape

/-! ### Stepdown and removals -/

theorem Sound.leaderStepdown (h : st.Sound workflows) (hleader : st.isLeader = true)
    (htimely : st.Timely workflows .leaderStepdown) : st.leaderStepdown.Sound workflows := by
  obtain ⟨hnil, hok⟩ := h.leader hleader
  refine ⟨h.nodup, nofun, fun _ => ⟨fun id phase hp => ?_,
    st.activeWorkflows.removeAllTriggerAndPollerBasedWorkflows.1, ?_, fun id call => ?_⟩⟩
  · have hid := hok id
    have hp : st.addPhase? id = some phase := hp
    rw [leaderOk_iff_of_some hp] at hid
    exact hid.quiet (htimely id phase hp)
  · exact congrArg (· ++ _) hnil
  · refine clears_removeWorkflows ?_
    have hcovered := h.covered hleader (htimely id) call
    by_cases hmem : id ∈ st.activeWorkflows.activeWorkflows.keys
    · exact Or.inl ⟨hmem, hcovered⟩
    · exact Or.inr (hcovered.free (InsertionMap.get?_eq_none_iff.mpr hmem))

theorem Sound.resumeRemoval {i : ℕ} {removal : Removal} (h : st.Sound workflows)
    (hremoval : st.removals[i]? = some removal) :
    (st.resumeRemoval i removal).Sound workflows := by
  have hne : st.removals ≠ [] := by
    intro hnil
    exact nomatch (hnil ▸ hremoval : ([] : List Removal)[i]? = some removal)
  refine ⟨h.nodup, fun hleader => absurd (h.leader hleader).1 hne, fun hfollower => ?_⟩
  obtain ⟨hquiet, current, hcurrent, hclears⟩ := h.follower hfollower
  refine ⟨hquiet, (st.activeWorkflows.resumeRemoval removal).1, ?_, fun id call => ?_⟩
  · obtain _ | current := current
    · exact absurd hcurrent hne
    · -- there is no other removal
      obtain ⟨rfl, rfl⟩ : i = 0 ∧ current = removal := by
        rw [hcurrent] at hremoval
        obtain _ | i := i
        · exact ⟨rfl, Option.some.inj hremoval⟩
        · exact nomatch hremoval
      simp only [ActiveWorkflowManager.resumeRemoval, hcurrent]
      cases (st.activeWorkflows.resumeRemoval current).1 <;> rfl
  · obtain rfl : current = some removal := by
      obtain _ | current := current
      · exact absurd hcurrent hne
      · rw [hcurrent] at hremoval
        obtain _ | i := i
        · exact hremoval
        · exact nomatch hremoval
    exact clears_resumeRemoval (hclears id call)

/-! ### The activation in progress -/

/-- The next batch begins when every workflow of the last one is added. -/
theorem Sound.activateNextBatch (h : st.Sound workflows) {batches : List (List WorkflowId)}
    (hactivation : st.activation.isSome = true)
    (hnodup : batches.flatten.Nodup) (hactive : ∀ id ∈ batches.flatten, id ∈ workflows.activeIds)
    (hahead : ∀ id, st.Ahead workflows id ↔ id ∈ batches.flatten)
    (hdone : ∀ id phase, st.addPhase? id = some phase → phase = .done) :
    (st.activateNextBatch batches).Sound workflows := by
  have hphase : ∀ id, (st.activateNextBatch batches).addPhase? id = none := by
    intro id
    refine Option.eq_none_iff_forall_ne_some.mpr fun phase hphase => ?_
    obtain ⟨batch, rest, hactivating, hmem, hadding⟩ := addPhase?_eq_some_iff.mp hphase
    obtain _ | ⟨b, bs⟩ := batches
    · exact nomatch hactivating
    · obtain ⟨rfl, rfl⟩ := Activation.activating.inj (Option.some.inj hactivating)
      exact nomatch (if_pos hmem).symm.trans hadding
  have hahead' : ∀ id, (st.activateNextBatch batches).Ahead workflows id ↔
      st.Ahead workflows id := by
    intro id
    rw [hahead]
    obtain _ | ⟨batch, batches⟩ := batches
    · exact iff_of_false (fun hfalse => hfalse) List.not_mem_nil
    · simp only [Ahead, ActiveWorkflowManager.activateNextBatch, List.flatten_cons,
        List.mem_append]
      constructor
      · exact fun hmem => hmem.symm.imp And.left fun hmem => hmem
      · exact fun hmem => hmem.symm.imp (fun hmem => hmem) fun hmem => ⟨hmem, if_pos hmem⟩
  have hmemory : (st.activateNextBatch batches).activeWorkflows = st.activeWorkflows := by
    cases batches <;> rfl
  have hremovals : (st.activateNextBatch batches).removals = st.removals := by
    cases batches <;> rfl
  have hisLeader : (st.activateNextBatch batches).isLeader = st.isLeader := by
    cases batches <;> rfl
  refine ⟨fun batch rest hactivating => ?_, fun hleader => ?_, fun hfollower => ?_⟩
  · obtain _ | ⟨b, bs⟩ := batches
    · exact nomatch hactivating
    · obtain ⟨rfl, rfl⟩ := Activation.activating.inj (Option.some.inj hactivating)
      exact ⟨hnodup, hactive⟩
  · obtain ⟨hnil, hok⟩ := h.leader (hisLeader ▸ hleader)
    refine ⟨hremovals.trans hnil, fun id => ?_⟩
    rw [leaderOk_iff_of_none (hphase id), hmemory, hahead']
    have hid := hok id
    cases hp : st.addPhase? id with
    | none =>
      rw [leaderOk_iff_of_none hp] at hid
      exact ⟨hid.1, hid.2.1, fun hmem hnodes _ => hid.2.2 hmem hnodes (Or.inr hactivation)⟩
    | some phase =>
      obtain rfl := hdone id phase hp
      rw [leaderOk_iff_of_some hp] at hid
      exact ⟨hid.2, fun hlater => absurd hlater (h.not_ahead hp), fun _ hnodes _ =>
        Or.inr (hid.1 hnodes)⟩
  · obtain ⟨-, removal, hremoval, hclears⟩ := h.follower (hisLeader ▸ hfollower)
    refine ⟨fun id phase hp => ?_, removal, hremovals.trans hremoval, ?_⟩
    · exact nomatch (hphase id).symm.trans hp
    rw [hmemory]
    exact hclears

theorem Sound.activateAll (h : st.Sound workflows)
    (hactivation : st.activation = some .gettingIds) :
    (st.activateAll workflows).Sound workflows := by
  have hahead : ∀ id, st.Ahead workflows id ↔
      id ∈ (chunk workflows.activationBatchSize workflows.activeIds).flatten := by
    intro id
    rw [Ahead, hactivation]
  have hflatten : (chunk workflows.activationBatchSize workflows.activeIds).flatten.Nodup ∧
      ∀ id ∈ (chunk workflows.activationBatchSize workflows.activeIds).flatten,
        id ∈ workflows.activeIds := by
    obtain hzero | hpos := Nat.eq_zero_or_pos workflows.activationBatchSize
    · rw [hzero, chunk_zero]
      exact ⟨List.nodup_nil, nofun⟩
    · rw [flatten_chunk hpos]
      exact ⟨workflows.nodup_activeIds, fun _ hid => hid⟩
  refine h.activateNextBatch (hactivation ▸ rfl) hflatten.1 hflatten.2 hahead fun id phase hp => ?_
  have hnone : st.addPhase? id = none := addPhase?_of_activation (by rw [hactivation]; exact nofun)
  exact nomatch hnone.symm.trans hp

theorem Sound.resolveBatch (h : st.Sound workflows) {batch : List WorkflowId}
    {batches : List (List WorkflowId)}
    (hactivation : st.activation = some (.activating batch batches)) :
    (st.resolveBatch batch batches).Sound workflows := by
  rw [ActiveWorkflowManager.resolveBatch]
  split
  next hall =>
    obtain ⟨hnodup, hactive⟩ := h.nodup batch batches hactivation
    refine h.activateNextBatch (hactivation ▸ rfl) (List.nodup_append.mp hnodup).2.1
      (fun id hid => hactive id (List.mem_append_right _ hid)) (fun id => ?_) ?_
    · rw [Ahead, hactivation]
      refine or_iff_left fun hfinding => ?_
      exact nomatch (hall id hfinding.1).symm.trans hfinding.2
    · intro id phase hp
      obtain ⟨b, bs, heq, hmem, hadding⟩ := addPhase?_eq_some_iff.mp hp
      obtain ⟨rfl, rfl⟩ := Activation.activating.inj (Option.some.inj (hactivation.symm.trans heq))
      exact ActivatePhase.adding.inj (hadding.symm.trans (hall id hmem))
  · exact h

/-- The addition of one workflow goes on. -/
theorem Sound.advance (h : st.Sound workflows) {batch : List WorkflowId}
    {batches : List (List WorkflowId)} {phase : AddPhase} {activeWorkflows : ActiveWorkflows}
    (hactivation : st.activation = some (.activating batch batches)) (hmem : id ∈ batch)
    (hoff : ∀ k, k ≠ id → activeWorkflows.registration k = st.activeWorkflows.registration k)
    (hleader : st.isLeader = true →
      PhaseOk (workflows.nodes id) (activeWorkflows.registration id) phase)
    (hfollower : st.isLeader = false →
      activeWorkflows = st.activeWorkflows ∧ Quiet (workflows.nodes id) phase) :
    Sound workflows { st with
      activeWorkflows
      activateWorkflow := Function.update st.activateWorkflow id (.adding phase) } := by
  have hself : addPhase? { st with
      activeWorkflows
      activateWorkflow := Function.update st.activateWorkflow id (.adding phase) } id =
        some phase :=
    addPhase?_eq_some_iff.mpr ⟨batch, batches, hactivation, hmem, Function.update_self ..⟩
  have hphase : ∀ k, k ≠ id → addPhase? { st with
      activeWorkflows
      activateWorkflow := Function.update st.activateWorkflow id (.adding phase) } k =
        st.addPhase? k := by
    intro k hk
    simp only [addPhase?, Function.update_of_ne hk]
  have hahead : ∀ k, k ≠ id → (Ahead workflows { st with
      activeWorkflows
      activateWorkflow := Function.update st.activateWorkflow id (.adding phase) } k ↔
        st.Ahead workflows k) := by
    intro k hk
    simp only [Ahead, Function.update_of_ne hk]
  refine ⟨h.nodup, fun hisLeader => ⟨(h.leader hisLeader).1, fun k => ?_⟩, fun hisFollower => ?_⟩
  · obtain rfl | hk := eq_or_ne k id
    · exact (leaderOk_iff_of_some hself).mpr (hleader hisLeader)
    · have hok := (h.leader hisLeader).2 k
      rw [LeaderOk] at hok ⊢
      rw [hphase k hk]
      simp only [hahead k hk, hoff k hk]
      exact hok
  · obtain ⟨hquiet, removal, hremoval, hclears⟩ := h.follower hisFollower
    obtain ⟨rfl, hid⟩ := hfollower hisFollower
    refine ⟨fun k phase' hp => ?_, removal, hremoval, hclears⟩
    obtain rfl | hk := eq_or_ne k id
    · obtain rfl := Option.some.inj (hself.symm.trans hp)
      exact hid
    · exact hquiet k phase' ((hphase k hk).symm.trans hp)

theorem Sound.add (h : st.Sound workflows) {batch : List WorkflowId}
    {batches : List (List WorkflowId)}
    (hactivation : st.activation = some (.activating batch batches)) (hmem : id ∈ batch)
    (hfinding : st.activateWorkflow id = .finding) : (st.add id).Sound workflows := by
  have hnone : st.addPhase? id = none := by
    refine Option.eq_none_iff_forall_ne_some.mpr fun phase hp => ?_
    obtain ⟨-, -, -, -, hadding⟩ := addPhase?_eq_some_iff.mp hp
    exact nomatch hfinding.symm.trans hadding
  refine h.advance hactivation hmem (fun _ _ => rfl) (fun hleader => ?_) fun hfollower => ?_
  · have hok := (leaderOk_iff_of_none hnone).mp ((h.leader hleader).2 id)
    have hahead : st.Ahead workflows id := by
      rw [Ahead, hactivation]
      exact Or.inr ⟨hmem, hfinding⟩
    exact ⟨fun hfalse => absurd (hleader.symm.trans hfalse) nofun, hok.2.1 hahead, hok.1⟩
  · exact ⟨rfl, fun hmore => absurd (hfollower.symm.trans hmore.1) nofun, trivial⟩

theorem phaseOk_activateNextPolling {nodes : WorkflowNodes} {reg : Registration}
    {polled polls : List PollNode} (rs : List TriggerResponse)
    (hpolls : nodes.pollNodes = polled ++ polls) (hcovered : ∀ call, reg.Covered call)
    (hactive : reg.responses.isSome = true) (htriggers : ∀ t ∈ nodes.triggerNodes, reg.HasTrigger t)
    (hpolled : ∀ p ∈ polled, reg.HasCrons p.name p.crons) :
    PhaseOk nodes reg (activateNextPolling polls rs) := by
  obtain _ | ⟨node, rest⟩ := polls
  · rw [List.append_nil] at hpolls
    exact ⟨fun _ => ⟨hactive, htriggers, hpolls ▸ hpolled⟩, hcovered⟩
  · exact ⟨polled, hpolls, hcovered, hactive, htriggers, hpolled⟩

theorem phaseOk_runNextTrigger {memory : ActiveWorkflows} {nodes : WorkflowNodes}
    {ran triggers : List TriggerNode} {rs : List TriggerResponse}
    (htriggers : nodes.triggerNodes = ran ++ triggers)
    (hlisteners : ∀ r ∈ (memory.registration id).listeners, r ∈ rs)
    (hran : ∀ t ∈ ran, (memory.registration id).HasTrigger t) :
    PhaseOk nodes ((memory.runNextTrigger id nodes triggers rs).2.registration id)
      (memory.runNextTrigger id nodes triggers rs).1 := by
  obtain _ | ⟨node, rest⟩ := triggers
  · rw [List.append_nil] at htriggers
    simp only [runNextTrigger, registration_activate_self]
    refine phaseOk_activateNextPolling rs (List.nil_append _).symm (fun call => ?_) rfl ?_ nofun
    · exact ⟨fun _ _ _ => rfl, fun r hr _ => hlisteners r hr⟩
    · rw [htriggers]
      exact hran
  · exact ⟨ran, htriggers, hlisteners, hran⟩

theorem PhaseOk.resumeAdd {memory : ActiveWorkflows} {nodes : WorkflowNodes} {phase : AddPhase}
    (h : PhaseOk nodes (memory.registration id) phase) (call : ℕ) :
    PhaseOk nodes ((memory.resumeAdd call id nodes phase).2.registration id)
      (memory.resumeAdd call id nodes phase).1 := by
  cases phase with
  | preparing shouldAdd =>
    obtain ⟨hnodes, hlisteners, hcovered⟩ := h
    obtain _ | _ := shouldAdd
    · exact ⟨fun hhas => absurd hhas (hnodes rfl), hcovered⟩
    · simp only [ActiveWorkflows.resumeAdd, addTriggersAndPollers, if_true]
      split
      next hnil =>
        exact ⟨fun hhas => absurd hhas (not_or.mpr ⟨not_not.mpr hnil.1, not_not.mpr hnil.2⟩),
          hcovered⟩
      · exact phaseOk_runNextTrigger (List.nil_append _).symm
          (fun r hr => absurd (hlisteners ▸ hr) List.not_mem_nil) (by simp)
  | runningTrigger node rest rs =>
    obtain ⟨ran, htriggers, hlisteners, hran⟩ := h
    obtain ⟨crons, hstart, hsub, hcrons⟩ := exists_registration_startTrigger memory call id node
    refine phaseOk_runNextTrigger (ran.append_cons node rest ▸ htriggers) ?_ ?_
    · rw [hstart]
      intro r hr
      obtain hr | hr := List.mem_append.mp hr
      · exact List.mem_append_left _ (hlisteners r hr)
      · exact List.mem_append_right _ (List.mem_filter.mp hr).1
    · rw [hstart]
      intro t ht
      obtain ht | ht := List.mem_append.mp ht
      · exact (hran t ht).mono hsub (List.subset_append_left _ _)
      · obtain rfl := List.mem_singleton.mp ht
        refine ⟨hcrons, fun hclosable => ⟨⟨call, t.name, true⟩, ?_, rfl⟩⟩
        refine List.mem_append_right _ (List.mem_filter.mpr ⟨?_, rfl⟩)
        rw [TriggerNode.triggerResponse, hclosable]
        exact List.mem_singleton_self _
  | polling node rest rs =>
    obtain ⟨polled, hpolls, hcovered, hactive, htriggers, hpolled⟩ := h
    obtain ⟨crons, hregister, hsub, -, hcrons⟩ :=
      exists_registration_registerCrons memory call id node.name node.crons
    simp only [ActiveWorkflows.resumeAdd, hregister]
    refine phaseOk_activateNextPolling rs (polled.append_cons node rest ▸ hpolls)
      (fun call => ⟨fun _ _ _ => hactive, (hcovered call).2⟩) hactive
      (fun t ht => (htriggers t ht).mono hsub (List.Subset.refl _)) ?_
    intro p hp
    obtain hp | hp := List.mem_append.mp hp
    · exact (hpolled p hp).mono hsub
    · obtain rfl := List.mem_singleton.mp hp
      exact hcrons
  | releasing | finishing | done => exact h
  | failing | failed => exact h.elim

theorem Quiet.resumeAdd {memory : ActiveWorkflows} {nodes : WorkflowNodes} {phase : AddPhase}
    (h : Quiet nodes phase) (call : ℕ) :
    (memory.resumeAdd call id nodes phase).2 = memory ∧
      Quiet nodes (memory.resumeAdd call id nodes phase).1 := by
  have hresume : (memory.resumeAdd call id nodes phase).2 = memory ∧
      ¬(memory.resumeAdd call id nodes phase).1.RegistersMore nodes :=
    resumeAdd_of_not_registersMore h.1
  refine ⟨hresume.1, hresume.2, ?_⟩
  obtain ⟨hmore, hshape⟩ := h
  cases phase with
  | preparing shouldAdd =>
    obtain _ | _ := shouldAdd
    · trivial
    · have hnil : nodes.triggerNodes = [] ∧ nodes.pollNodes = [] := by
        by_contra hnil
        exact hmore ⟨rfl, not_and_or.mp hnil⟩
      have hadd : memory.resumeAdd call id nodes (.preparing true) = (.releasing, memory) :=
        if_pos hnil
      rw [hadd]
      trivial
  | runningTrigger => exact absurd trivial hmore
  | polling node rest rs =>
    obtain _ | ⟨next, rest⟩ := rest
    · trivial
    · exact hshape
  | releasing | finishing | done => trivial
  | failing | failed => exact hshape

theorem Sound.resumeAdd (h : st.Sound workflows) {phase : AddPhase}
    (hphase : st.addPhase? id = some phase) :
    (st.resumeAdd workflows id phase).Sound workflows := by
  obtain ⟨batch, batches, hactivation, hmem, -⟩ := addPhase?_eq_some_iff.mp hphase
  refine h.advance hactivation hmem (fun k hk => registration_resumeAdd_of_ne _ _ hk)
    (fun hleader => ?_) fun hfollower => ?_
  · exact ((leaderOk_iff_of_some hphase).mp ((h.leader hleader).2 id)).resumeAdd _
  · exact ((h.follower hfollower).1 id phase hphase).resumeAdd _

/-! ### Runs -/

theorem Sound.step {e : Event} (h : st.Sound workflows) (htimely : st.Timely workflows e)
    (hstep : Step workflows st e st') : st'.Sound workflows := by
  cases e with
  | init =>
    obtain ⟨-, heq⟩ := Option.ite_none_left_eq_some.mp hstep
    obtain rfl := Option.some.inj heq
    exact h.init htimely
  | leaderTakeover =>
    obtain ⟨hfollower, heq⟩ := Option.ite_none_left_eq_some.mp hstep
    obtain rfl := Option.some.inj heq
    exact h.leaderTakeover (Bool.eq_false_iff.mpr hfollower) htimely
  | leaderStepdown =>
    obtain ⟨hleader, heq⟩ := Option.ite_none_right_eq_some.mp hstep
    obtain rfl := Option.some.inj heq
    exact h.leaderStepdown hleader htimely
  | activeIds =>
    obtain ⟨hactivation, heq⟩ := Option.ite_none_right_eq_some.mp hstep
    obtain rfl := Option.some.inj heq
    exact h.activateAll hactivation
  | found workflowId =>
    simp only [Step, step?] at hstep
    split at hstep
    next batch batches hactivation =>
      obtain ⟨⟨hmem, hfinding⟩, heq⟩ := Option.ite_none_right_eq_some.mp hstep
      obtain rfl := Option.some.inj heq
      exact h.add hactivation hmem hfinding
    · exact nomatch hstep
  | added workflowId =>
    simp only [Step, step?] at hstep
    split at hstep
    next batch batches phase hactivation hadding =>
      obtain ⟨⟨hmem, -⟩, heq⟩ := Option.ite_none_right_eq_some.mp hstep
      obtain rfl := Option.some.inj heq
      have hphase : st.addPhase? workflowId = some phase :=
        addPhase?_eq_some_iff.mpr ⟨batch, batches, hactivation, hmem, hadding⟩
      exact (h.resumeAdd hphase).resolveBatch hactivation
    · exact nomatch hstep
  | removed i =>
    obtain ⟨removal, hremoval, heq⟩ := Option.map_eq_some_iff.mp hstep
    obtain rfl := heq
    exact h.resumeRemoval hremoval
  | closeThrown i => exact htimely.elim

variable (workflows) in
/-- **The leader runs all triggers and nobody else does.** For every interleaving of `init`,
takeovers, stepdowns, the additions of `addActiveWorkflows` and removals: if an instance takes
over (or is initialized as leader) only when the activation in progress will still add every
workflow and nothing listens or is being removed, steps down only when no addition under way
registers more, and no `closeFunction` throws, the leader has all triggers and pollers, and a
follower has none, in every state in which no activation or removal is in progress. -/
theorem visits_leaderRunsAll_of_takes (isLeader : Bool) (st : ActiveWorkflowManager)
    (run : Run (Step workflows) { isLeader } st) :
    run.Takes (Timely workflows) → run.Visits (LeaderRunsAll workflows) := by
  intro htimely
  have hsound : run.Visits (Sound workflows) :=
    run.visits_of_takes (fun _ _ _ h htimely hstep => h.step htimely hstep) (sound_new isLeader)
      htimely
  exact hsound.mono fun _ h => h.leaderRunsAll

/-- One active workflow, with one trigger. -/
def oneTrigger : WorkflowActivation where
  activationBatchSize := 1
  activeIds := ["1"]
  nodup_activeIds := List.nodup_singleton "1"
  nodes _ := { triggerNodes := [⟨"Trigger", [], some true⟩], pollNodes := [] }

/-- A leader is initialized and its workflow is added. -/
theorem leaderRunsAll_initialized :
    ∃ (st : ActiveWorkflowManager) (run : Run (Step oneTrigger) { isLeader := true } st),
      run.labels = [.init, .activeIds, .found "1", .added "1", .added "1", .added "1",
        .added "1"] ∧ st.activation = none ∧ run.Visits (LeaderRunsAll oneTrigger) := by
  obtain ⟨st, hst, hactivation⟩ : ∃ st, [Event.activeIds, .found "1", .added "1", .added "1",
      .added "1", .added "1"].foldlM (step? oneTrigger) (init { isLeader := true }) = some st ∧
        st.activation = none := Option.map_eq_some_iff.mp (by decide)
  obtain ⟨run, hlabels⟩ := Run.exists_labels_eq hst
  refine ⟨st, .head .init rfl run, congrArg _ hlabels, hactivation,
    visits_leaderRunsAll_of_takes oneTrigger true st _ ⟨fun _ _ => ⟨fun id hid _ => ?_, ?_⟩, ?_⟩⟩
  · obtain rfl := List.mem_singleton.mp hid
    exact List.mem_singleton_self "1"
  · exact fun _ => rfl
  · have hadds : ∀ e ∈ run.labels, e = .activeIds ∨ e = .found "1" ∨ e = .added "1" := by
      rw [hlabels]
      decide
    refine (Run.takes_of_labels hadds).mono fun s e he => ?_
    obtain rfl | rfl | rfl := he <;> trivial

/-- A follower takes over while its activation on init has passed the workflow. -/
def takeoverDuringInit : List Event :=
  [.init, .activeIds, .found "1", .leaderTakeover, .added "1", .added "1", .added "1"]

/-- The activation of the takeover was skipped: the leader has no trigger. -/
theorem not_leaderRunsAll_takeoverDuringInit :
    ∃ (st : ActiveWorkflowManager) (run : Run (Step oneTrigger) { isLeader := false } st),
      run.labels = takeoverDuringInit ∧ st.isLeader = true ∧ st.activation = none ∧
        st.removals = [] ∧ st.activeWorkflows.isActive "1" = false ∧
          ¬run.Visits (LeaderRunsAll oneTrigger) := by
  have hstate : (takeoverDuringInit.foldlM (step? oneTrigger) { isLeader := false }).map
      (fun st => (st.initialized, st.isLeader, st.activation, st.removals,
        st.activeWorkflows.isActive "1")) = some (true, true, none, [], false) := by decide
  obtain ⟨st, hst, heq⟩ := Option.map_eq_some_iff.mp hstate
  simp only [Prod.mk.injEq] at heq
  obtain ⟨hinitialized, hleader, hactivation, hremovals, hnot⟩ := heq
  obtain ⟨run, hlabels⟩ := Run.exists_labels_eq hst
  refine ⟨st, run, hlabels, hleader, hactivation, hremovals, hnot, fun hvisits => ?_⟩
  have hlast := hvisits.last hinitialized hactivation hremovals
  rw [if_pos hleader] at hlast
  have hregistered := hlast "1" (List.mem_singleton_self "1") (Or.inl (List.cons_ne_nil _ _))
  exact Bool.false_ne_true (hnot.symm.trans hregistered.1)

end N8n.ActiveWorkflowManager
