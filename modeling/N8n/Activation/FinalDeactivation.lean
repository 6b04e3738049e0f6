import Mathlib.Data.List.Nodup
import N8n.Activation.QueuedActivations
import N8n.Activation.Registration
import N8n.Foundations.Transition

/-!
# Deactivation is final for queued activations

A workflow is closed to retries from the moment its triggers and pollers are being removed, and
every workflow is closed after a stepdown. The deactivation is final as long as a workflow is
closed only when no timer is left for it and no retry in flight registers more, has registered
what the removal does not find, or will set a timer again. A retry that goes on is not told
that its workflow was closed.
-/

namespace N8n.QueuedActivations

open ActiveWorkflows Transition

variable {st st' : QueuedActivations} {r k : RetryId} {workflowId : WorkflowId}

/-- What is in memory for the workflow of a retry. -/
def registration (r : RetryId) (st : QueuedActivations) : Registration :=
  st.activeWorkflows.registration (st.retries r).workflowId

/-- There is at most one timer for each workflow, none for a deactivated workflow or after a
stepdown, and a retry that was in flight then has nothing in memory when it has ended. -/
structure Final (st : QueuedActivations) : Prop where
  length_timers : ∀ workflowId,
    (st.timers.filter fun t => t.workflowData.id = workflowId).length ≤ 1
  timers : ∀ t ∈ st.timers, t.workflowData.id ∉ st.deactivated ∧ st.isLeader = true
  lingering : ∀ r ∈ st.lingering, (st.retries r).inFlight = false →
    (st.retries r).workflowId ∈ st.deactivated ∨ st.removals = [] → (st.registration r).Free r

/-- The triggers and pollers of a workflow are being removed or were removed. -/
def Closed (st : QueuedActivations) (workflowId : WorkflowId) : Prop :=
  workflowId ∈ st.deactivated ∨ st.isLeader = false ∨
    ∃ d ∈ st.deactivations, d.workflowId = workflowId ∧ ∃ removal, d.phase = .removing removal

/-- A retry that the removal of triggers and pollers has to account for. -/
def Tracked (st : QueuedActivations) (r : RetryId) : Prop :=
  (st.retries r).inFlight = true ∨ r ∈ st.lingering

/-- A retry registers nothing more, and what it has registered will be removed. -/
def Settled (st : QueuedActivations) (r : RetryId) : Prop :=
  ¬(st.retries r).phase.RegistersMore (st.retries r).nodes ∧ (st.registration r).Covered r

/-- The condition on a step. -/
def Conclusive (st : QueuedActivations) : Event → Prop
  | .addQueuedWorkflowActivation _ workflowData => ¬st.Closed workflowData.id ∧
      ∀ r, (st.retries r).inFlight = true → (st.retries r).workflowId ≠ workflowData.id
  -- the poll of a workflow without trigger responses fails: its entry is deleted
  | .rejected r _ => (∃ node rest, (st.retries r).phase = .polling node rest []) →
      st.Closed (st.retries r).workflowId → ∀ k, st.Tracked k →
        (st.retries k).workflowId = (st.retries r).workflowId →
          (∀ c ∈ (st.registration k).crons, c.call ≠ k) ∧
            ∀ l ∈ (st.registration k).listeners, l.call ≠ k
  -- triggers and pollers are about to be removed
  | .deactivating i => ∀ d, st.deactivations[i]? = some d → d.phase = .deregistering →
      (∀ r, (st.retries r).inFlight = true → (st.retries r).workflowId = d.workflowId →
        st.Settled r ∧ (st.isMultiMain = true → st.queuedActivations.get? d.workflowId = none)) ∧
      (st.isMultiMain = true → ∀ t ∈ st.timers, t.workflowData.id ≠ d.workflowId)
  | .leaderStepdown => ∀ r, (st.retries r).inFlight = true → st.Settled r
  -- the removal of a stepdown ends before it is through
  | .closeThrown _ => ∀ r, st.Tracked r → (st.registration r).Free r
  | _ => True

/-! ### The invariant -/

/-- The entry of a workflow in the queue has its timer. -/
def Queued (queue : InsertionMap WorkflowId QueuedActivation) (timers : List Timer) : Prop :=
  ∀ t ∈ timers, ∃ q, queue.get? t.workflowData.id = some q ∧ q.timeout = t.timeout

structure Sound (st : QueuedActivations) : Prop where
  timers_nodup : (st.timers.map fun t => t.workflowData.id).Nodup
  queued : Queued st.queuedActivations st.timers
  idle : ∀ t ∈ st.timers, ∀ r, (st.retries r).inFlight = true →
    (st.retries r).workflowId ≠ t.workflowData.id
  unique : ∀ r k, (st.retries r).inFlight = true → (st.retries k).inFlight = true →
    (st.retries r).workflowId = (st.retries k).workflowId → r = k
  started : ∀ r, st.Tracked r → r < st.nextRetry
  closed_timers : ∀ t ∈ st.timers, ¬st.Closed t.workflowData.id
  closed_retries : ∀ r, (st.retries r).inFlight = true → st.Closed (st.retries r).workflowId →
    ¬(st.retries r).phase.RegistersMore (st.retries r).nodes ∧
      st.queuedActivations.get? (st.retries r).workflowId = none
  lingering_closed : ∀ r ∈ st.lingering,
    (st.retries r).workflowId ∈ st.deactivated ∨ st.isLeader = false
  covered : ∀ r, st.Tracked r → st.Closed (st.retries r).workflowId →
    (st.registration r).Covered r
  removing : ∀ d ∈ st.deactivations, ∀ removal, d.phase = .removing removal →
    (∃ rs, removal = ⟨some (d.workflowId, rs), []⟩) ∧
      ∀ r, st.Tracked r → (st.retries r).workflowId = d.workflowId →
        Clears r d.workflowId (st.registration r) (some removal)
  deactivated : ∀ r, st.Tracked r → (st.retries r).workflowId ∈ st.deactivated →
    (st.registration r).Free r
  leader : st.isLeader = true → st.removals = []
  follower : st.isLeader = false → ∃ removal : Option Removal, st.removals = removal.toList ∧
    ∀ r, st.Tracked r → Clears r (st.retries r).workflowId (st.registration r) removal

theorem Sound.final (h : st.Sound) : st.Final where
  length_timers workflowId := by
    have hcount : (st.timers.map fun t => t.workflowData.id).count workflowId ≤ 1 :=
      List.nodup_iff_count_le_one.mp h.timers_nodup workflowId
    rw [List.count, List.countP_map, List.countP_eq_length_filter] at hcount
    refine le_of_eq_of_le (congrArg List.length (List.filter_congr fun t _ => ?_)) hcount
    exact (beq_eq_decide _ _).symm
  timers t ht := by
    have hopen := h.closed_timers t ht
    refine ⟨fun hmem => hopen (Or.inl hmem), ?_⟩
    exact Bool.not_eq_false _ |>.mp fun hfalse => hopen (Or.inr (Or.inl hfalse))
  lingering r hr _ hended := by
    have hmem_or : (st.retries r).workflowId ∈ st.deactivated ∨
        st.isLeader = false ∧ st.removals = [] := by
      obtain hmem | hfollower := h.lingering_closed r hr
      · exact Or.inl hmem
      · exact hended.imp_right fun hnil => ⟨hfollower, hnil⟩
    obtain hmem | ⟨hfollower, hnil⟩ := hmem_or
    · exact h.deactivated r (Or.inr hr) hmem
    · obtain ⟨removal, hremoval, hclears⟩ := h.follower hfollower
      obtain rfl : removal = none := Option.toList_eq_nil_iff.mp (hremoval.symm.trans hnil)
      exact hclears r (Or.inr hr)

theorem sound_new (isMultiMain : Bool) : Sound { isMultiMain } where
  timers_nodup := List.nodup_nil
  queued := nofun
  idle := nofun
  unique _ _ h := nomatch h
  started _ h := h.elim (fun h => nomatch h) fun h => nomatch h
  closed_timers := nofun
  closed_retries _ h := nomatch h
  lingering_closed := nofun
  covered _ h := h.elim (fun h => nomatch h) fun h => nomatch h
  removing := nofun
  deactivated _ _ h := nomatch h
  leader _ := rfl
  follower h := nomatch h

/-! ### The queue -/

/-- Timers and entries of the queue go. -/
theorem Sound.unqueue (h : st.Sound) {queue : InsertionMap WorkflowId QueuedActivation}
    {timers : List Timer} (hsub : timers.Sublist st.timers) (hqueued : Queued queue timers)
    (hqueue : ∀ workflowId, st.queuedActivations.get? workflowId = none →
      queue.get? workflowId = none) :
    Sound { st with queuedActivations := queue, timers } where
  timers_nodup := (hsub.map _).nodup h.timers_nodup
  queued := hqueued
  idle t ht := h.idle t (hsub.subset ht)
  unique := h.unique
  started := h.started
  closed_timers t ht := h.closed_timers t (hsub.subset ht)
  closed_retries r hr hclosed := (h.closed_retries r hr hclosed).imp_right (hqueue _)
  lingering_closed := h.lingering_closed
  covered := h.covered
  removing := h.removing
  deactivated := h.deactivated
  leader := h.leader
  follower := h.follower

/-- A timer is set for an open workflow that has none and that no retry is in flight for. -/
theorem Sound.arm (h : st.Sound) (timer : Timer) {queued : QueuedActivation}
    (hqueued : queued.timeout = timer.timeout) (hopen : ¬st.Closed timer.workflowData.id)
    (htimers : ∀ t ∈ st.timers, t.workflowData.id ≠ timer.workflowData.id)
    (hidle : ∀ r, (st.retries r).inFlight = true →
      (st.retries r).workflowId ≠ timer.workflowData.id) (nextTimer : TimerId) :
    Sound { st with
      queuedActivations := st.queuedActivations.set timer.workflowData.id queued
      timers := st.timers ++ [timer]
      nextTimer } where
  timers_nodup := by
    rw [List.map_append]
    refine h.timers_nodup.append (List.nodup_singleton _) ?_
    rw [List.map_singleton, List.disjoint_singleton]
    intro hmem
    obtain ⟨t, ht, heq⟩ := List.mem_map.mp hmem
    exact htimers t ht heq
  queued t ht := by
    obtain ht | ht := List.mem_append.mp ht
    · rw [InsertionMap.get?_set_of_ne _ (htimers t ht)]
      exact h.queued t ht
    · obtain rfl := List.mem_singleton.mp ht
      exact ⟨queued, InsertionMap.get?_set_self .., hqueued⟩
  idle t ht := by
    obtain ht | ht := List.mem_append.mp ht
    · exact h.idle t ht
    · obtain rfl := List.mem_singleton.mp ht
      exact hidle
  unique := h.unique
  started := h.started
  closed_timers t ht := by
    obtain ht | ht := List.mem_append.mp ht
    · exact h.closed_timers t ht
    · obtain rfl := List.mem_singleton.mp ht
      exact hopen
  closed_retries r hr hclosed := by
    obtain ⟨hmore, hnone⟩ := h.closed_retries r hr hclosed
    exact ⟨hmore, (InsertionMap.get?_set_of_ne _ (hidle r hr) _).trans hnone⟩
  lingering_closed := h.lingering_closed
  covered := h.covered
  removing := h.removing
  deactivated := h.deactivated
  leader := h.leader
  follower := h.follower

/-- Removing a workflow from the queue clears its timer. -/
theorem exists_removeQueuedWorkflowActivation (st : QueuedActivations) (workflowId : WorkflowId) :
    ∃ (queue : InsertionMap WorkflowId QueuedActivation) (timers : List Timer),
      st.removeQueuedWorkflowActivation workflowId =
          { st with queuedActivations := queue, timers } ∧
        timers.Sublist st.timers ∧
        (∀ k, queue.get? k = if k = workflowId then none else st.queuedActivations.get? k) ∧
        (Queued st.queuedActivations st.timers → Queued queue timers ∧
          ∀ t ∈ timers, t.workflowData.id ≠ workflowId) := by
  rw [removeQueuedWorkflowActivation]
  split
  next hnone =>
    refine ⟨st.queuedActivations, st.timers, rfl, List.Sublist.refl _, fun k => ?_,
      fun hqueued => ⟨hqueued, fun t ht heq => ?_⟩⟩
    · split
      next heq => rw [heq, hnone]
      · rfl
    · obtain ⟨q, hq, -⟩ := hqueued t ht
      rw [heq, hnone] at hq
      contradiction
  next queued hsome =>
    refine ⟨_, _, rfl, List.filter_sublist, fun k => InsertionMap.get?_erase .., fun hqueued => ?_⟩
    have hne : ∀ t ∈ st.timers.filter fun t => t.timeout ≠ queued.timeout,
        t.workflowData.id ≠ workflowId := by
      intro t ht heq
      obtain ⟨ht, hcleared⟩ := List.mem_filter.mp ht
      obtain ⟨q, hq, htimeout⟩ := hqueued t ht
      obtain rfl := Option.some.inj ((heq ▸ hq).symm.trans hsome)
      exact of_decide_eq_true hcleared htimeout.symm
    refine ⟨fun t ht => ?_, hne⟩
    obtain ⟨q, hq, htimeout⟩ := hqueued t (List.mem_filter.mp ht).1
    exact ⟨q, (InsertionMap.get?_erase ..).trans ((if_neg (hne t ht)).trans hq), htimeout⟩

theorem exists_removeAllQueuedWorkflowActivations (st : QueuedActivations) :
    ∃ (queue : InsertionMap WorkflowId QueuedActivation) (timers : List Timer),
      st.removeAllQueuedWorkflowActivations = { st with queuedActivations := queue, timers } ∧
        timers.Sublist st.timers ∧ (∀ k, queue.get? k = none) ∧
        (Queued st.queuedActivations st.timers → timers = []) := by
  have hfoldl : ∀ (l : List WorkflowId) (st : QueuedActivations),
      ∃ (queue : InsertionMap WorkflowId QueuedActivation) (timers : List Timer),
        l.foldl (fun st workflowId => st.removeQueuedWorkflowActivation workflowId) st =
            { st with queuedActivations := queue, timers } ∧
          timers.Sublist st.timers ∧
          (∀ k, queue.get? k = if k ∈ l then none else st.queuedActivations.get? k) ∧
          (Queued st.queuedActivations st.timers → Queued queue timers) := by
    intro l
    induction l with
    | nil => exact fun st => ⟨_, _, rfl, List.Sublist.refl _, fun k => rfl, fun h => h⟩
    | cons workflowId l ih =>
      intro st
      obtain ⟨queue, timers, heq, hsub, hqueue, hqueued⟩ :=
        exists_removeQueuedWorkflowActivation st workflowId
      obtain ⟨queue', timers', heq', hsub', hqueue', hqueued'⟩ :=
        ih { st with queuedActivations := queue, timers }
      refine ⟨queue', timers', ?_, hsub'.trans hsub, fun k => ?_,
        fun h => hqueued' (hqueued h).1⟩
      · rw [List.foldl_cons, heq, heq']
      · rw [hqueue' k, hqueue k]
        simp only [List.mem_cons]
        split_ifs with hl hk hor <;> grind
  obtain ⟨queue, timers, heq, hsub, hqueue, hqueued⟩ := hfoldl st.queuedActivations.keys st
  have hnone : ∀ k, queue.get? k = none := by
    intro k
    rw [hqueue k]
    split
    · rfl
    next hmem => exact InsertionMap.get?_eq_none_iff.mpr hmem
  refine ⟨queue, timers, heq, hsub, hnone, fun h => ?_⟩
  refine List.eq_nil_iff_forall_not_mem.mpr fun t ht => ?_
  obtain ⟨q, hq, -⟩ := hqueued h t ht
  exact absurd ((hnone _).symm.trans hq) (by simp)

theorem Sound.removeQueuedWorkflowActivation (h : st.Sound) (workflowId : WorkflowId) :
    (st.removeQueuedWorkflowActivation workflowId).Sound := by
  obtain ⟨queue, timers, heq, hsub, hqueue, hqueued⟩ :=
    exists_removeQueuedWorkflowActivation st workflowId
  rw [heq]
  refine h.unqueue hsub (hqueued h.queued).1 fun k hk => ?_
  rw [hqueue k, hk, ite_self]

theorem Sound.addQueuedWorkflowActivation (h : st.Sound) (activationMode : WorkflowActivateMode)
    (workflowData : WorkflowData) (hopen : ¬st.Closed workflowData.id)
    (hidle : ∀ r, (st.retries r).inFlight = true → (st.retries r).workflowId ≠ workflowData.id) :
    (st.addQueuedWorkflowActivation activationMode workflowData).Sound := by
  have hsound := h.removeQueuedWorkflowActivation workflowData.id
  obtain ⟨queue, timers, heq, -, -, hqueued⟩ :=
    exists_removeQueuedWorkflowActivation st workflowData.id
  rw [QueuedActivations.addQueuedWorkflowActivation, heq]
  rw [heq] at hsound
  exact hsound.arm ⟨st.nextTimer, activationMode, workflowData⟩ rfl hopen (hqueued h.queued).2
    hidle _

/-! ### Retries -/

/-- What is in memory for a closed workflow is only reduced. -/
theorem Sound.reduce (h : st.Sound) {activeWorkflows : ActiveWorkflows}
    (hreduces : ∀ r, st.Tracked r → st.Closed (st.retries r).workflowId →
      Reduces r (st.registration r) (activeWorkflows.registration (st.retries r).workflowId)) :
    Sound { st with activeWorkflows } where
  timers_nodup := h.timers_nodup
  queued := h.queued
  idle := h.idle
  unique := h.unique
  started := h.started
  closed_timers := h.closed_timers
  closed_retries := h.closed_retries
  lingering_closed := h.lingering_closed
  covered r hr hclosed := (hreduces r hr hclosed).covered (h.covered r hr hclosed)
  removing d hd removal hremoval := by
    obtain ⟨hshape, hclears⟩ := h.removing d hd removal hremoval
    refine ⟨hshape, fun r hr hid => (hreduces r hr ?_).clears (hclears r hr hid)⟩
    exact Or.inr (Or.inr ⟨d, hd, hid.symm, removal, hremoval⟩)
  deactivated r hr hmem := (hreduces r hr (Or.inl hmem)).free (h.deactivated r hr hmem)
  leader := h.leader
  follower hfollower := by
    obtain ⟨removal, hremoval, hclears⟩ := h.follower hfollower
    exact ⟨removal, hremoval, fun r hr =>
      (hreduces r hr (Or.inr (Or.inl hfollower))).clears (hclears r hr)⟩

theorem retries_proceed_self (r : RetryId) (next : AddPhase × ActiveWorkflows)
    (st : QueuedActivations) :
    (st.proceed r next).retries r = { st.retries r with phase := next.1 } :=
  Function.update_self ..

theorem retries_proceed_of_ne (next : AddPhase × ActiveWorkflows) (st : QueuedActivations)
    (hne : k ≠ r) : (st.proceed r next).retries k = st.retries k :=
  Function.update_of_ne hne ..

theorem workflowId_proceed (r k : RetryId) (next : AddPhase × ActiveWorkflows)
    (st : QueuedActivations) :
    ((st.proceed r next).retries k).workflowId = (st.retries k).workflowId := by
  obtain rfl | hne := eq_or_ne k r
  · rw [retries_proceed_self]
    rfl
  · rw [retries_proceed_of_ne next st hne]

theorem inFlight_of_proceed {next : AddPhase × ActiveWorkflows}
    (hr : (st.retries r).inFlight = true)
    (hk : ((st.proceed r next).retries k).inFlight = true) : (st.retries k).inFlight = true := by
  obtain rfl | hne := eq_or_ne k r
  · exact hr
  · rwa [retries_proceed_of_ne next st hne] at hk

/-- The `add` of a retry in flight goes on, in an open workflow or without registering more. -/
theorem Sound.proceed (h : st.Sound) {next : AddPhase × ActiveWorkflows}
    (hr : (st.retries r).inFlight = true)
    (hoff : ∀ workflowId, workflowId ≠ (st.retries r).workflowId →
      next.2.registration workflowId = st.activeWorkflows.registration workflowId)
    (hclosed : st.Closed (st.retries r).workflowId →
      ¬next.1.RegistersMore (st.retries r).nodes ∧
        ∀ k, st.Tracked k → (st.retries k).workflowId = (st.retries r).workflowId →
          Reduces k (st.registration k) (next.2.registration (st.retries k).workflowId)) :
    (st.proceed r next).Sound := by
  -- only the registrations change first, then the phase of the retry
  have hreduce : Sound { st with activeWorkflows := next.2 } := by
    refine h.reduce fun k hk hk_closed => ?_
    by_cases hid : (st.retries k).workflowId = (st.retries r).workflowId
    · exact (hclosed (hid ▸ hk_closed)).2 k hk hid
    · rw [hoff _ hid]
      exact Reduces.refl _ _
  have hflight : ∀ k, ((st.proceed r next).retries k).inFlight = true →
      (st.retries k).inFlight = true := fun k => inFlight_of_proceed hr
  have htracked : ∀ k, (st.proceed r next).Tracked k → st.Tracked k := fun k hk =>
    hk.imp_left (hflight k)
  have hid : ∀ k, ((st.proceed r next).retries k).workflowId = (st.retries k).workflowId :=
    fun k => workflowId_proceed r k next st
  have hregistration : ∀ k, (st.proceed r next).registration k =
      registration k { st with activeWorkflows := next.2 } := by
    intro k
    rw [registration, hid]
    rfl
  refine ⟨h.timers_nodup, h.queued, fun t ht k hk => ?_, fun k k' hk hk' heq => ?_,
    fun k hk => h.started k (htracked k hk), h.closed_timers, fun k hk hk_closed => ?_,
    fun k hk => ?_, fun k hk hk_closed => ?_, fun d hd removal hremoval => ?_,
    fun k hk hmem => ?_, h.leader, fun hfollower => ?_⟩
  · rw [hid]
    exact h.idle t ht k (hflight k hk)
  · rw [hid, hid] at heq
    exact h.unique k k' (hflight k hk) (hflight k' hk') heq
  · rw [hid] at hk_closed
    obtain ⟨hmore, hqueue⟩ := h.closed_retries k (hflight k hk) hk_closed
    refine ⟨?_, (hid k).symm ▸ hqueue⟩
    obtain rfl | hne := eq_or_ne k r
    · rw [retries_proceed_self]
      exact (hclosed hk_closed).1
    · rw [retries_proceed_of_ne next st hne]
      exact hmore
  · rw [hid]
    exact h.lingering_closed k hk
  · rw [hregistration]
    rw [hid] at hk_closed
    exact hreduce.covered k (htracked k hk) hk_closed
  · obtain ⟨hshape, hclears⟩ := hreduce.removing d hd removal hremoval
    refine ⟨hshape, fun k hk heq => ?_⟩
    rw [hregistration]
    rw [hid] at heq
    exact hclears k (htracked k hk) heq
  · rw [hregistration]
    rw [hid] at hmem
    exact hreduce.deactivated k (htracked k hk) hmem
  · obtain ⟨removal, hremoval, hclears⟩ := hreduce.follower hfollower
    refine ⟨removal, hremoval, fun k hk => ?_⟩
    rw [hregistration, hid]
    exact hclears k (htracked k hk)

/-- A timer fires. -/
theorem Sound.retryFunction (h : st.Sound) {timer : Timer} (htimer : timer ∈ st.timers) :
    (st.retryFunction timer).Sound := by
  have hopen := h.closed_timers timer htimer
  have htimers : ∀ t ∈ (st.retryFunction timer).timers,
      t ∈ st.timers ∧ t.workflowData.id ≠ timer.workflowData.id := by
    intro t ht
    obtain ⟨ht, hne⟩ := List.mem_filter.mp ht
    refine ⟨ht, fun heq => of_decide_eq_true hne ?_⟩
    rw [List.inj_on_of_nodup_map h.timers_nodup ht htimer heq]
  have hself : ((st.retryFunction timer).retries st.nextRetry).workflowId =
      timer.workflowData.id := by
    simp only [QueuedActivations.retryFunction, Function.update_self, Retry.workflowId]
  have hretries : ∀ k, k ≠ st.nextRetry →
      (st.retryFunction timer).retries k = st.retries k := by
    intro k hk
    simp only [QueuedActivations.retryFunction, Function.update_of_ne hk]
  have hregistration : ∀ k, k ≠ st.nextRetry →
      (st.retryFunction timer).registration k = st.registration k := by
    intro k hk
    rw [registration, hretries k hk]
    rfl
  have htracked : ∀ k, k ≠ st.nextRetry → (st.retryFunction timer).Tracked k → st.Tracked k := by
    intro k hk
    rw [Tracked, hretries k hk]
    exact fun hk => hk
  -- the new retry is for an open workflow
  have hold : ∀ k, (st.retryFunction timer).Closed ((st.retryFunction timer).retries k).workflowId →
      k ≠ st.nextRetry := by
    rintro k hclosed rfl
    rw [hself] at hclosed
    exact hopen hclosed
  have hnew : ∀ k, k ∈ st.lingering → k ≠ st.nextRetry := by
    rintro k hk rfl
    exact lt_irrefl _ (h.started _ (Or.inr hk))
  refine ⟨?_, fun t ht => h.queued t (htimers t ht).1, fun t ht k hk => ?_,
    fun k k' hk hk' heq => ?_,
    fun k hk => ?_, fun t ht => h.closed_timers t (htimers t ht).1, fun k hk hclosed => ?_,
    fun k hk => ?_, fun k hk hclosed => ?_, fun d hd removal hremoval => ?_,
    fun k hk hmem => ?_, h.leader, fun hfollower => ?_⟩
  · exact (List.filter_sublist.map _).nodup h.timers_nodup
  · obtain rfl | hne := eq_or_ne k st.nextRetry
    · rw [hself]
      exact (htimers t ht).2.symm
    · rw [hretries k hne] at hk ⊢
      exact h.idle t (htimers t ht).1 k hk
  · obtain rfl | hne := eq_or_ne k st.nextRetry <;> obtain rfl | hne' := eq_or_ne k' st.nextRetry
    · rfl
    · rw [hself, hretries k' hne'] at heq
      rw [hretries k' hne'] at hk'
      exact absurd heq.symm (h.idle timer htimer k' hk')
    · rw [hself, hretries k hne] at heq
      rw [hretries k hne] at hk
      exact absurd heq (h.idle timer htimer k hk)
    · rw [hretries k hne, hretries k' hne'] at heq
      rw [hretries k hne] at hk
      rw [hretries k' hne'] at hk'
      exact h.unique k k' hk hk' heq
  · obtain rfl | hne := eq_or_ne k st.nextRetry
    · exact Nat.lt_succ_self _
    · exact Nat.lt_succ_of_lt (h.started k (htracked k hne hk))
  · have hne := hold k hclosed
    rw [hretries k hne] at hk hclosed ⊢
    exact h.closed_retries k hk hclosed
  · rw [hretries k (hnew k hk)]
    exact h.lingering_closed k hk
  · have hne := hold k hclosed
    rw [hretries k hne] at hclosed
    rw [hregistration k hne]
    exact h.covered k (htracked k hne hk) hclosed
  · obtain ⟨hshape, hclears⟩ := h.removing d hd removal hremoval
    refine ⟨hshape, fun k hk heq => ?_⟩
    have hne := hold k (Or.inr (Or.inr ⟨d, hd, heq.symm, removal, hremoval⟩))
    rw [hretries k hne] at heq
    rw [hregistration k hne]
    exact hclears k (htracked k hne hk) heq
  · have hne := hold k (Or.inl hmem)
    rw [hretries k hne] at hmem
    rw [hregistration k hne]
    exact h.deactivated k (htracked k hne hk) hmem
  · exact absurd (Or.inr (Or.inl hfollower)) hopen

theorem Sound.proceed_resumeAdd (h : st.Sound) (hr : (st.retries r).inFlight = true) :
    (st.proceed r (st.activeWorkflows.resumeAdd r (st.retries r).workflowId (st.retries r).nodes
      (st.retries r).phase)).Sound := by
  refine h.proceed hr (fun _ hne => registration_resumeAdd_of_ne _ _ hne) fun hclosed => ?_
  have hresume : (st.activeWorkflows.resumeAdd r (st.retries r).workflowId (st.retries r).nodes
      (st.retries r).phase).2 = st.activeWorkflows ∧ _ :=
    resumeAdd_of_not_registersMore (h.closed_retries r hr hclosed).1
  refine ⟨hresume.2, fun k _ _ => ?_⟩
  rw [hresume.1]
  exact Reduces.refl _ _

theorem Sound.resumeAdd (h : st.Sound) (hr : (st.retries r).inFlight = true) :
    (st.resumeAdd r).Sound := by
  rw [QueuedActivations.resumeAdd]
  by_cases hphase : (st.retries r).phase = .releasing
  · have hsound := h.removeQueuedWorkflowActivation (st.retries r).workflowId
    obtain ⟨queue, timers, heq, -⟩ :=
      exists_removeQueuedWorkflowActivation st (st.retries r).workflowId
    simp only [if_pos hphase, heq]
    rw [heq] at hsound
    exact hsound.proceed_resumeAdd hr
  · simp only [if_neg hphase]
    exact h.proceed_resumeAdd hr

theorem Sound.failAdd (h : st.Sound) {registered : ℕ} (hr : (st.retries r).inFlight = true)
    (hconclusive : st.Conclusive (.rejected r registered)) : (st.failAdd r registered).Sound := by
  refine h.proceed hr (fun _ hne => registration_failAdd_of_ne _ _ hne) fun hclosed => ?_
  have hmore := (h.closed_retries r hr hclosed).1
  have hpolling : ∀ node rest rs, (st.retries r).phase = .polling node rest rs →
      node.crons = [] := by
    intro node rest rs hphase
    by_contra hne
    exact hmore (hphase ▸ ⟨node, List.mem_cons_self, hne⟩)
  simp only [Conclusive] at hconclusive
  cases hphase : (st.retries r).phase with
  | polling node rest rs =>
    simp only [ActiveWorkflows.failAdd, hpolling node rest rs hphase, List.take_nil]
    refine ⟨fun hmore => hmore, fun k hk hid => ?_⟩
    split
    next hnil =>
      obtain ⟨hcrons, hlisteners⟩ := hconclusive ⟨node, rest, hnil ▸ hphase⟩ hclosed k hk hid
      rw [hid, registration_deactivate_self, ← hid]
      exact ⟨List.Subset.refl _, List.Subset.refl _, Or.inr ⟨rfl, hcrons, hlisteners⟩⟩
    · exact Reduces.refl _ _
  | _ => exact ⟨fun hmore => hmore, fun k _ _ => Reduces.refl _ _⟩

theorem Sound.retryFailed (h : st.Sound) {isolateError : Bool}
    (hphase : (st.retries r).phase = .failing) : (st.retryFailed r isolateError).Sound := by
  have hr : (st.retries r).inFlight = true := by
    rw [Retry.inFlight, hphase]
    rfl
  have hproceed : (st.proceed r (.failed, st.activeWorkflows)).Sound :=
    h.proceed hr (fun _ _ => rfl) fun _ => ⟨fun hmore => hmore, fun k _ _ => Reduces.refl _ _⟩
  rw [QueuedActivations.retryFailed]
  split
  · exact hproceed
  next queued hqueued =>
    refine hproceed.arm ⟨st.nextTimer, (st.retries r).activationMode, (st.retries r).workflowData⟩
      rfl (fun hclosed => ?_) (fun t ht heq => h.idle t ht r hr heq.symm) (fun k hk heq => ?_) _
    · exact nomatch hqueued.symm.trans (h.closed_retries r hr hclosed).2
    · -- the retry that has failed was the only one in flight
      obtain rfl | hne := eq_or_ne k r
      · rw [retries_proceed_self] at hk
        exact nomatch hk
      · rw [retries_proceed_of_ne _ st hne] at hk heq
        exact hne (h.unique k r hk hr heq)

/-! ### Deactivations -/

/-- Nothing is left that could end after the workflow is closed. -/
def Closable (st : QueuedActivations) (workflowId : WorkflowId) : Prop :=
  (∀ t ∈ st.timers, t.workflowData.id ≠ workflowId) ∧
    ∀ r, st.Tracked r → (st.retries r).workflowId = workflowId →
      (st.registration r).Covered r ∧ ((st.retries r).inFlight = true →
        ¬(st.retries r).phase.RegistersMore (st.retries r).nodes ∧
          st.queuedActivations.get? workflowId = none)

theorem Sound.closable (h : st.Sound) (hclosed : st.Closed workflowId) :
    st.Closable workflowId := by
  refine ⟨fun t ht heq => h.closed_timers t ht (heq ▸ hclosed), fun r hr heq => ?_⟩
  subst heq
  exact ⟨h.covered r hr hclosed, fun hflight => h.closed_retries r hflight hclosed⟩

/-- Deactivations go on and end; workflows may be closed. -/
theorem Sound.close (h : st.Sound) {deactivations : List Deactivation}
    {deactivated : List WorkflowId} {lingering : List RetryId}
    (hclosed : ∀ workflowId, Closed { st with deactivations, deactivated, lingering } workflowId →
      st.Closable workflowId)
    (htracked : ∀ r ∈ lingering, st.Tracked r)
    (hlingering : ∀ r ∈ lingering, r ∈ st.lingering ∨ (st.retries r).workflowId ∈ deactivated)
    (hsub : st.deactivated ⊆ deactivated)
    (hremoving : ∀ d ∈ deactivations, ∀ removal, d.phase = .removing removal →
      (∃ rs, removal = ⟨some (d.workflowId, rs), []⟩) ∧
        ∀ r, st.Tracked r → (st.retries r).workflowId = d.workflowId →
          Clears r d.workflowId (st.registration r) (some removal))
    (hfree : ∀ r, st.Tracked r → (st.retries r).workflowId ∈ deactivated →
      (st.registration r).Free r) :
    Sound { st with deactivations, deactivated, lingering } where
  timers_nodup := h.timers_nodup
  queued := h.queued
  idle := h.idle
  unique := h.unique
  started r hr := h.started r (hr.elim Or.inl (htracked r))
  closed_timers t ht hc := (hclosed _ hc).1 t ht rfl
  closed_retries r hr hc := ((hclosed _ hc).2 r (Or.inl hr) rfl).2 hr
  lingering_closed r hr := by
    obtain hold | hmem := hlingering r hr
    · exact (h.lingering_closed r hold).imp_left fun hmem => hsub hmem
    · exact Or.inl hmem
  covered r hr hc := ((hclosed _ hc).2 r (hr.elim Or.inl (htracked r)) rfl).1
  removing d hd removal hremoval := by
    obtain ⟨hshape, hclears⟩ := hremoving d hd removal hremoval
    exact ⟨hshape, fun r hr => hclears r (hr.elim Or.inl (htracked r))⟩
  deactivated r hr := hfree r (hr.elim Or.inl (htracked r))
  leader := h.leader
  follower hfollower := by
    obtain ⟨removal, hremoval, hclears⟩ := h.follower hfollower
    exact ⟨removal, hremoval, fun r hr => hclears r (hr.elim Or.inl (htracked r))⟩

/-- A deactivation begins, or comes to its next `await` before triggers and pollers are
removed. -/
theorem Sound.setDeactivations (h : st.Sound) {deactivations : List Deactivation}
    (hremoving : ∀ d ∈ deactivations, ∀ removal, d.phase = .removing removal →
      d ∈ st.deactivations) : Sound { st with deactivations } := by
  refine h.close (fun workflowId hclosed => h.closable ?_) (fun r hr => Or.inr hr)
    (fun r hr => Or.inl hr) (List.Subset.refl _) (fun d hd removal hremoval => ?_) h.deactivated
  · refine hclosed.imp_right (Or.imp_right ?_)
    rintro ⟨d, hd, hid, removal, hremoval⟩
    exact ⟨d, hremoving d hd removal hremoval, hid, removal, hremoval⟩
  · exact h.removing d (hremoving d hd removal hremoval) removal hremoval

theorem mem_retriesInFlight {p : WorkflowId → Bool} (h : r ∈ st.retriesInFlight p) :
    (st.retries r).inFlight = true ∧ p (st.retries r).workflowId = true := by
  have hp := (List.mem_filter.mp h).2
  simpa only [Bool.decide_and, Bool.and_eq_true, decide_eq_true_eq] using hp

/-- The removal of triggers and pollers goes on or ends. -/
theorem Sound.proceedRemoval (h : st.Sound) (i : ℕ) {next : Option Removal × ActiveWorkflows}
    (hclosable : st.Closable workflowId)
    (hshape : ∀ removal, next.1 = some removal → ∃ rs, removal = ⟨some (workflowId, rs), []⟩)
    (hreduces : ∀ r, st.Tracked r → st.Closed (st.retries r).workflowId ∨
      (st.retries r).workflowId = workflowId →
        Reduces r (st.registration r) (next.2.registration (st.retries r).workflowId))
    (hclears : ∀ r, st.Tracked r → (st.retries r).workflowId = workflowId →
      Clears r workflowId (next.2.registration workflowId) next.1) :
    (st.proceedRemoval i workflowId next).Sound := by
  have hreduce : Sound { st with activeWorkflows := next.2 } :=
    h.reduce fun r hr hclosed => hreduces r hr (Or.inl hclosed)
  have hclosable' : Closable { st with activeWorkflows := next.2 } workflowId := by
    refine ⟨hclosable.1, fun r hr hid => ?_⟩
    obtain ⟨hcovered, hflight⟩ := hclosable.2 r hr hid
    exact ⟨(hreduces r hr (Or.inr hid)).covered hcovered, hflight⟩
  rw [QueuedActivations.proceedRemoval]
  split
  next removal hremoval =>
    have hmem : ∀ d ∈ st.deactivations.set i ⟨workflowId, .removing removal⟩,
        d ∈ st.deactivations ∨ d = ⟨workflowId, .removing removal⟩ := fun d hd =>
      List.mem_or_eq_of_mem_set hd
    refine hreduce.close (fun id hclosed => ?_) (fun r hr => Or.inr hr) (fun r hr => Or.inl hr)
      (List.Subset.refl _) (fun d hd removal' hremoval' => ?_) hreduce.deactivated
    · obtain hclosed | hfollower | ⟨d, hd, rfl, hphase⟩ := hclosed
      · exact hreduce.closable (Or.inl hclosed)
      · exact hreduce.closable (Or.inr (Or.inl hfollower))
      · obtain hd | rfl := hmem d hd
        · exact hreduce.closable (Or.inr (Or.inr ⟨d, hd, rfl, hphase⟩))
        · exact hclosable'
    · obtain hd | rfl := hmem d hd
      · exact hreduce.removing d hd removal' hremoval'
      · obtain rfl := DeactivationPhase.removing.inj hremoval'
        refine ⟨hshape removal hremoval, fun r hr hid => ?_⟩
        rw [registration, hid, ← hremoval]
        exact hclears r hr hid
  next hnone =>
    have hmem : ∀ d ∈ st.deactivations.eraseIdx i, d ∈ st.deactivations := fun d hd =>
      List.mem_of_mem_eraseIdx hd
    have hended : ∀ id, id ∈ st.deactivated ++ [workflowId] → id ∈ st.deactivated ∨
        id = workflowId := fun id hid => (List.mem_append.mp hid).imp_right List.mem_singleton.mp
    -- the removal has ended: the workflow counts as deactivated, and its retries in flight linger
    refine hreduce.close (fun id hclosed => ?_) (fun r hr => ?_) (fun r hr => ?_)
      (List.subset_append_left _ _) (fun d hd => hreduce.removing d (hmem d hd)) fun r hr hid => ?_
    · obtain hclosed | hfollower | ⟨d, hd, hphase⟩ := hclosed
      · obtain hclosed | rfl := hended id hclosed
        · exact hreduce.closable (Or.inl hclosed)
        · exact hclosable'
      · exact hreduce.closable (Or.inr (Or.inl hfollower))
      · exact hreduce.closable (Or.inr (Or.inr ⟨d, hmem d hd, hphase⟩))
    · obtain hr | hr := List.mem_append.mp hr
      · exact Or.inr hr
      · exact Or.inl (mem_retriesInFlight hr).1
    · obtain hr | hr := List.mem_append.mp hr
      · exact Or.inl hr
      · have hid := of_decide_eq_true (mem_retriesInFlight hr).2
        exact Or.inr (List.mem_append_right _ (List.mem_singleton.mpr hid))
    · obtain hid | hid := hended _ hid
      · exact hreduce.deactivated r hr hid
      · have hgone := hclears r hr hid
        rw [hnone] at hgone
        rw [registration, hid]
        exact hgone

/-- Triggers and pollers begin to be removed. -/
theorem Sound.removeTriggersAndPollers (h : st.Sound) (i : ℕ)
    (hclosable : st.Closable workflowId) :
    (st.proceedRemoval i workflowId (st.activeWorkflows.removeWorkflows [workflowId])).Sound := by
  have hawaits : ∀ r, st.Tracked r → (st.retries r).workflowId = workflowId →
      Awaits r workflowId [workflowId] (st.activeWorkflows.registration workflowId) := by
    rintro r hr rfl
    exact Or.inl ⟨List.mem_singleton_self _, (hclosable.2 r hr rfl).1⟩
  refine h.proceedRemoval i hclosable (fun _ h => removeWorkflows_singleton_eq_some h)
    (fun r hr _ => ?_) fun r hr hid => clears_removeWorkflows (hawaits r hr hid)
  obtain hid | hne := eq_or_ne (st.retries r).workflowId workflowId
  · rw [registration, hid]
    exact reduces_removeWorkflows (hawaits r hr hid)
  · rw [registration_removeWorkflows_singleton_of_ne hne]
    exact Reduces.refl _ _

theorem Sound.resumeDeactivation (h : st.Sound) {i : ℕ} {d : Deactivation}
    (hd : st.deactivations[i]? = some d) (hconclusive : st.Conclusive (.deactivating i)) :
    (st.resumeDeactivation i d).Sound := by
  have hmem : d ∈ st.deactivations := List.mem_of_getElem? hd
  obtain ⟨workflowId, phase⟩ := d
  cases phase with
  | clearingWebhooks =>
    refine h.setDeactivations fun d' hd' removal hremoval => ?_
    refine (List.mem_or_eq_of_mem_set hd').resolve_right ?_
    rintro rfl
    exact nomatch hremoval
  | deregistering =>
    obtain ⟨hsettled, htimers⟩ := hconclusive _ hd rfl
    have hcovered : ∀ r, st.Tracked r → (st.retries r).workflowId = workflowId →
        (st.registration r).Covered r := by
      intro r hr hid
      obtain hflight | hlingering := hr
      · exact (hsettled r hflight hid).1.2
      · exact h.covered r (Or.inr hlingering)
          ((h.lingering_closed r hlingering).imp_right Or.inl)
    -- with one main the workflow is taken from the queue here, with several it is not
    simp only [QueuedActivations.resumeDeactivation]
    split
    next hmulti =>
      refine h.removeTriggersAndPollers i ⟨htimers hmulti, fun r hr hid => ?_⟩
      exact ⟨hcovered r hr hid, fun hflight =>
        ⟨(hsettled r hflight hid).1.1, (hsettled r hflight hid).2 hmulti⟩⟩
    next hsingle =>
      have hsound := h.removeQueuedWorkflowActivation workflowId
      obtain ⟨queue, timers, heq, -, hqueue, hqueued⟩ :=
        exists_removeQueuedWorkflowActivation st workflowId
      rw [heq] at hsound ⊢
      refine hsound.removeTriggersAndPollers i ⟨(hqueued h.queued).2, fun r hr hid => ?_⟩
      exact ⟨hcovered r hr hid, fun hflight =>
        ⟨(hsettled r hflight hid).1.1, (hqueue workflowId).trans (if_pos rfl)⟩⟩
  | removing removal =>
    obtain ⟨⟨rs, hshape⟩, hclears⟩ := h.removing _ hmem removal rfl
    have hclosed : st.Closed workflowId := Or.inr (Or.inr ⟨_, hmem, rfl, removal, rfl⟩)
    have hclears' : ∀ r, st.Tracked r → (st.retries r).workflowId = workflowId →
        Clears r workflowId (st.activeWorkflows.registration workflowId) (some removal) := by
      intro r hr hid
      have hr_clears := hclears r hr hid
      rwa [registration, hid] at hr_clears
    simp only at hshape
    refine h.proceedRemoval i (h.closable hclosed) (fun _ h => ?_) (fun r hr _ => ?_)
      fun r hr hid => clears_resumeRemoval (hclears' r hr hid)
    · rw [hshape] at h
      exact resumeRemoval_eq_some h
    · obtain hid | hne := eq_or_ne (st.retries r).workflowId workflowId
      · rw [registration, hid]
        exact reduces_resumeRemoval (hclears' r hr hid)
      · rw [hshape, registration_resumeRemoval_of_ne rs hne]
        exact Reduces.refl _ _

/-! ### Stepdowns -/

theorem Sound.leaderStepdown (h : st.Sound) (hleader : st.isLeader = true)
    (hconclusive : st.Conclusive .leaderStepdown) : st.leaderStepdown.Sound := by
  obtain ⟨queue, timers, heq, hsub, hqueue, htimers⟩ := exists_removeAllQueuedWorkflowActivations st
  obtain rfl := htimers h.queued
  have hcovered : ∀ r, st.Tracked r → (st.registration r).Covered r := by
    intro r hr
    obtain hflight | hlingering := hr
    · exact (hconclusive r hflight).2
    · exact h.covered r (Or.inr hlingering) ((h.lingering_closed r hlingering).imp_right Or.inl)
  -- a retry has registered nothing, or the entry that the stepdown removes covers it
  have hawaits : ∀ r, st.Tracked r → Awaits r (st.retries r).workflowId
      st.activeWorkflows.activeWorkflows.keys (st.registration r) := by
    intro r hr
    by_cases hmem : (st.retries r).workflowId ∈ st.activeWorkflows.activeWorkflows.keys
    · exact Or.inl ⟨hmem, hcovered r hr⟩
    · exact Or.inr ((hcovered r hr).free (InsertionMap.get?_eq_none_iff.mpr hmem))
  have hreduces : ∀ r, st.Tracked r → Reduces r (st.registration r)
      ((st.activeWorkflows.removeAllTriggerAndPollerBasedWorkflows).2.registration
        (st.retries r).workflowId) := fun r hr => reduces_removeWorkflows (hawaits r hr)
  have hreduce : Sound { st with
      activeWorkflows := st.activeWorkflows.removeAllTriggerAndPollerBasedWorkflows.2 } :=
    h.reduce fun r hr _ => hreduces r hr
  have htracked : ∀ r, r ∈ st.lingering ++ st.retriesInFlight (fun _ => true) → st.Tracked r := by
    intro r hr
    obtain hr | hr := List.mem_append.mp hr
    · exact Or.inr hr
    · exact Or.inl (mem_retriesInFlight hr).1
  rw [QueuedActivations.leaderStepdown, heq]
  refine ⟨List.nodup_nil, nofun, nofun, h.unique, fun r hr => ?_, nofun, fun r hr _ => ?_,
    fun r hr => Or.inr rfl, fun r hr _ => ?_, fun d hd removal hremoval => ?_,
    fun r hr => ?_, nofun, fun _ => ?_⟩
  · exact h.started r (hr.elim Or.inl (htracked r))
  · exact ⟨(hconclusive r hr).1, hqueue _⟩
  · have hr := hr.elim Or.inl (htracked r)
    exact (hreduces r hr).covered (hcovered r hr)
  · obtain ⟨hshape, hclears⟩ := hreduce.removing d hd removal hremoval
    exact ⟨hshape, fun r hr => hclears r (hr.elim Or.inl (htracked r))⟩
  · exact hreduce.deactivated r (hr.elim Or.inl (htracked r))
  · refine ⟨st.activeWorkflows.removeAllTriggerAndPollerBasedWorkflows.1, ?_, fun r hr => ?_⟩
    · exact congrArg (· ++ _) (h.leader hleader)
    · exact clears_removeWorkflows (hawaits r (hr.elim Or.inl (htracked r)))

/-- The removal under way is the only one. -/
theorem Sound.eq_of_removal (h : st.Sound) {i : ℕ} {removal : Removal}
    (hremoval : st.removals[i]? = some removal) :
    st.isLeader = false ∧ i = 0 ∧ st.removals = [removal] ∧
      ∀ r, st.Tracked r →
        Clears r (st.retries r).workflowId (st.registration r) (some removal) := by
  have hfollower : st.isLeader = false := by
    refine Bool.eq_false_iff.mpr fun hleader => ?_
    rw [h.leader hleader] at hremoval
    exact nomatch hremoval
  obtain ⟨current, hcurrent, hclears⟩ := h.follower hfollower
  rw [hcurrent] at hremoval ⊢
  obtain _ | current := current
  · exact nomatch hremoval
  · obtain _ | i := i
    · obtain rfl := Option.some.inj hremoval
      exact ⟨hfollower, rfl, rfl, hclears⟩
    · exact nomatch hremoval

theorem Sound.resumeRemoval (h : st.Sound) {i : ℕ} {removal : Removal}
    (hremoval : st.removals[i]? = some removal) : (st.resumeRemoval i removal).Sound := by
  obtain ⟨hfollower, rfl, hremovals, hclears⟩ := h.eq_of_removal hremoval
  have hreduce : Sound { st with
      activeWorkflows := (st.activeWorkflows.resumeRemoval removal).2 } :=
    h.reduce fun r hr _ => reduces_resumeRemoval (hclears r hr)
  refine { hreduce with
    leader := fun hleader => nomatch hfollower.symm.trans hleader
    follower := fun _ => ⟨(st.activeWorkflows.resumeRemoval removal).1, ?_, fun r hr => ?_⟩ }
  · simp only [QueuedActivations.resumeRemoval, hremovals]
    cases (st.activeWorkflows.resumeRemoval removal).1 <;> rfl
  · exact clears_resumeRemoval (hclears r hr)

theorem Sound.closeThrown (h : st.Sound) {i : ℕ} {removal : Removal}
    (hremoval : st.removals[i]? = some removal) (hconclusive : st.Conclusive (.closeThrown i)) :
    Sound { st with removals := st.removals.eraseIdx i } := by
  obtain ⟨hfollower, rfl, hremovals, -⟩ := h.eq_of_removal hremoval
  refine { h with
    leader := fun hleader => nomatch hfollower.symm.trans hleader
    follower := fun _ => ⟨none, ?_, hconclusive⟩ }
  rw [hremovals]
  rfl

/-! ### Runs -/

theorem Sound.step {e : Event} (h : st.Sound) (hconclusive : st.Conclusive e)
    (hstep : st.Step e st') : st'.Sound := by
  cases e with
  | addQueuedWorkflowActivation activationMode workflowData =>
    obtain rfl := Option.some.inj hstep
    exact h.addQueuedWorkflowActivation _ _ hconclusive.1 hconclusive.2
  | fired timer =>
    obtain ⟨htimer, heq⟩ := Option.ite_none_right_eq_some.mp hstep
    obtain rfl := Option.some.inj heq
    exact h.retryFunction htimer
  | resolved r =>
    obtain ⟨⟨hflight, -⟩, heq⟩ := Option.ite_none_right_eq_some.mp hstep
    obtain rfl := Option.some.inj heq
    exact h.resumeAdd hflight
  | rejected r registered =>
    obtain ⟨⟨hflight, -⟩, heq⟩ := Option.ite_none_right_eq_some.mp hstep
    obtain rfl := Option.some.inj heq
    exact h.failAdd hflight hconclusive
  | thrown r isolateError =>
    obtain ⟨hphase, heq⟩ := Option.ite_none_right_eq_some.mp hstep
    obtain rfl := Option.some.inj heq
    exact h.retryFailed hphase
  | remove workflowId =>
    obtain ⟨-, heq⟩ := Option.ite_none_left_eq_some.mp hstep
    obtain rfl := Option.some.inj heq
    refine h.setDeactivations fun d hd removal hremoval => ?_
    refine (List.mem_append.mp hd).resolve_right fun hd => ?_
    obtain rfl := List.mem_singleton.mp hd
    exact nomatch hremoval
  | handleRemoveTriggersAndPollers workflowId =>
    obtain ⟨-, heq⟩ := Option.ite_none_right_eq_some.mp hstep
    obtain rfl := Option.some.inj heq
    refine h.setDeactivations fun d hd removal hremoval => ?_
    refine (List.mem_append.mp hd).resolve_right fun hd => ?_
    obtain rfl := List.mem_singleton.mp hd
    exact nomatch hremoval
  | deactivating i =>
    obtain ⟨d, hd, rfl⟩ := Option.map_eq_some_iff.mp hstep
    exact h.resumeDeactivation hd hconclusive
  | deactivationThrown i =>
    simp only [Step, step?] at hstep
    split at hstep
    · exact nomatch hstep
    · exact nomatch hstep
    · obtain rfl := Option.some.inj hstep
      exact h.setDeactivations fun d hd _ _ => List.mem_of_mem_eraseIdx hd
  | leaderStepdown =>
    obtain ⟨⟨-, hleader⟩, heq⟩ := Option.ite_none_right_eq_some.mp hstep
    obtain rfl := Option.some.inj heq
    exact h.leaderStepdown hleader hconclusive
  | removed i =>
    obtain ⟨removal, hremoval, rfl⟩ := Option.map_eq_some_iff.mp hstep
    exact h.resumeRemoval hremoval
  | closeThrown i =>
    simp only [Step, step?] at hstep
    split at hstep
    next hremoval =>
      obtain rfl := Option.some.inj hstep
      exact h.closeThrown hremoval hconclusive
    · exact nomatch hstep

/-- **Deactivation is final.** For every interleaving, in a single-main setup or on the leader
of a multi-main setup, of queued activations, their timers, retries that succeed or fail,
deactivations and a stepdown: if a workflow is queued only while it is open and no retry of it
is in flight, and is closed only when its retries in flight are settled and, in a multi-main
setup, it is not in the queue, then in every state there is at most one timer for a workflow,
none once it is deactivated or the instance has stepped down, and no retry that was still in
flight then leaves anything registered. -/
theorem visits_final_of_takes (isMultiMain : Bool) (st : QueuedActivations)
    (run : Run Step { isMultiMain } st) : run.Takes Conclusive → run.Visits Final := by
  intro hconclusive
  have hsound : run.Visits Sound :=
    run.visits_of_takes (fun _ _ _ h hconclusive hstep => h.step hconclusive hstep)
      (sound_new isMultiMain) hconclusive
  exact hsound.mono fun _ h => h.final

/-- A workflow with one trigger. -/
def triggered : WorkflowData where
  id := "1"
  activeVersion := some { triggerNodes := [⟨"Trigger", [], some true⟩], pollNodes := [] }

/-- The workflow is queued, its timer fires and the retry adds it. It is queued again and, while the
timer is set, deactivated. -/
def deactivatedAfterRetry : List Event :=
  [.addQueuedWorkflowActivation .activate triggered, .fired ⟨0, .activate, triggered⟩,
    .resolved 0, .resolved 0, .resolved 0, .resolved 0,
    .addQueuedWorkflowActivation .activate triggered, .remove "1", .deactivating 0,
    .deactivating 0, .deactivating 0]

/-- No retry is in flight when a workflow is queued or its triggers are removed. -/
def quiet (st : QueuedActivations) : Event → Bool
  | .rejected _ _ | .leaderStepdown | .closeThrown _ => false
  | .addQueuedWorkflowActivation _ _ => st.deactivated = [] ∧ st.isLeader ∧ st.deactivations = [] ∧
    ∀ r ∈ List.range st.nextRetry, (st.retries r).inFlight = false
  | .deactivating _ => st.isMultiMain = false ∧
    ∀ r ∈ List.range st.nextRetry, (st.retries r).inFlight = false
  | _ => true

/-- A step that passes the test. -/
def quietStep (st : QueuedActivations) (e : Event) : Option QueuedActivations :=
  if st.quiet e then st.step? e else none

theorem conclusive_of_quiet (h : st.Sound) {e : Event} (hquiet : st.quiet e = true) :
    st.Conclusive e := by
  have hnone : (∀ r ∈ List.range st.nextRetry, (st.retries r).inFlight = false) →
      ∀ r, ¬(st.retries r).inFlight = true := by
    intro hrange r hr
    have hfalse := hrange r (List.mem_range.mpr (h.started r (Or.inl hr)))
    exact Bool.false_ne_true (hfalse.symm.trans hr)
  cases e with
  | addQueuedWorkflowActivation _ workflowData =>
    obtain ⟨hdeactivated, hleader, hdeactivations, hrange⟩ := of_decide_eq_true hquiet
    refine ⟨?_, fun r hr => absurd hr (hnone hrange r)⟩
    rintro (hmem | hfollower | ⟨d, hd, -⟩)
    · exact List.not_mem_nil (hdeactivated ▸ hmem)
    · exact Bool.false_ne_true (hfollower.symm.trans hleader)
    · exact List.not_mem_nil (hdeactivations ▸ hd)
  | deactivating i =>
    obtain ⟨hsingle, hrange⟩ := of_decide_eq_true hquiet
    refine fun d _ _ => ⟨fun r hr => absurd hr (hnone hrange r), fun hmulti => ?_⟩
    exact absurd (hsingle.symm.trans hmulti) Bool.false_ne_true
  | rejected r registered => exact nomatch hquiet
  | leaderStepdown => exact nomatch hquiet
  | closeThrown i => exact nomatch hquiet
  | _ => trivial

/-- The timer is cleared, and the trigger that the retry registered is gone. -/
theorem final_deactivatedAfterRetry :
    ∃ (st : QueuedActivations) (run : Run Step { isMultiMain := false } st),
      run.labels = deactivatedAfterRetry ∧ st.deactivated = ["1"] ∧
        st.activeWorkflows.isActive "1" = false ∧ run.Visits Final := by
  have hrun : (deactivatedAfterRetry.foldlM quietStep { isMultiMain := false }).map
      (fun st => (st.deactivated, st.activeWorkflows.isActive "1")) = some (["1"], false) := by
    decide
  obtain ⟨st, hst, heq⟩ := Option.map_eq_some_iff.mp hrun
  obtain ⟨hdeactivated, hactive⟩ := Prod.mk.inj heq
  obtain ⟨run, hlabels, htakes⟩ := Run.exists_takes_eq step? quiet
    (fun _ _ _ h hconclusive hstep => h.step hconclusive hstep)
    (fun _ _ h hquiet => conclusive_of_quiet h hquiet) (sound_new false) hst
  exact ⟨st, run, hlabels, hdeactivated, hactive, visits_final_of_takes false st run htakes⟩

/-- A workflow is deactivated while a retry is in flight. -/
def removedDuringRetry : List Event :=
  [.addQueuedWorkflowActivation .activate triggered, .fired ⟨0, .activate, triggered⟩,
    .remove "1", .deactivating 0, .deactivating 0, .resolved 0, .resolved 0, .resolved 0,
    .resolved 0]

/-- The retry goes on and leaves the trigger registered. -/
theorem not_final_removedDuringRetry :
    ∃ (st : QueuedActivations) (run : Run Step { isMultiMain := false } st),
      run.labels = removedDuringRetry ∧ "1" ∈ st.deactivated ∧
        st.activeWorkflows.isActive "1" = true ∧ ¬run.Visits Final := by
  have hstate : (removedDuringRetry.foldlM step? { isMultiMain := false }).map (fun st =>
      (st.deactivated, st.lingering, st.retries 0, st.activeWorkflows.isActive "1")) =
        some (["1"], [0], ⟨.activate, triggered, .done⟩, true) := by decide
  obtain ⟨st, hst, heq⟩ := Option.map_eq_some_iff.mp hstate
  simp only [Prod.mk.injEq] at heq
  obtain ⟨hdeactivated, hlingering, hretry, hactive⟩ := heq
  obtain ⟨run, hlabels⟩ := Run.exists_labels_eq hst
  have hmem : "1" ∈ st.deactivated := hdeactivated ▸ List.mem_singleton_self "1"
  refine ⟨st, run, hlabels, hmem, hactive, fun hvisits => ?_⟩
  have hfree := hvisits.last.lingering 0 (hlingering ▸ List.mem_singleton_self 0)
    (by rw [hretry]; rfl) (Or.inl (by rw [hretry]; exact hmem))
  have hnone : (st.activeWorkflows.registration "1").responses = none := by
    have hresponses := hfree.1
    rwa [registration, hretry] at hresponses
  exact nomatch hactive.symm.trans (congrArg Option.isSome hnone)

end N8n.QueuedActivations
