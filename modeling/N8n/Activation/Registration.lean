import N8n.Activation.ActiveWorkflows

/-!
# What is registered for one workflow

Everything that `add` and a removal do in memory concerns one workflow at a time. So the
memory is read through `registration`, what it holds for one workflow: its entry, its crons
and its listeners. Each is tagged with the call of `add` that made it. What a call has
registered is *covered* when a removal that begins now will clear it, and a removal under way
*clears* it until it is *free* of the call.
-/

namespace N8n

/-- What is in memory for one workflow. -/
@[ext] structure Registration where
  /-- The entry in `activeWorkflows`. -/
  responses : Option (List TriggerResponse) := none
  crons : List Cron := []
  listeners : List TriggerResponse := []

namespace Registration

variable {call : ℕ} {reg : Registration}

def HasCrons (node : String) (expressions : List String) (reg : Registration) : Prop :=
  ∀ expression ∈ expressions, ∃ c ∈ reg.crons, c.node = node ∧ c.expression = expression

def HasTrigger (node : TriggerNode) (reg : Registration) : Prop :=
  reg.HasCrons node.name node.crons ∧
    (node.response = some true → ∃ r ∈ reg.listeners, r.node = node.name)

/-- The triggers and pollers of a workflow are registered. -/
def Registered (nodes : WorkflowNodes) (reg : Registration) : Prop :=
  reg.responses.isSome = true ∧ (∀ node ∈ nodes.triggerNodes, reg.HasTrigger node) ∧
    ∀ node ∈ nodes.pollNodes, reg.HasCrons node.name node.crons

/-- There is an entry if a call has registered crons, and it holds what listens. -/
def Covered (call : ℕ) (reg : Registration) : Prop :=
  (∀ c ∈ reg.crons, c.call = call → reg.responses.isSome = true) ∧
    ∀ r ∈ reg.listeners, r.call = call → r ∈ reg.responses.getD []

/-- The crons and listeners of a call are gone, as is the entry. -/
def Free (call : ℕ) (reg : Registration) : Prop :=
  reg.responses = none ∧ (∀ c ∈ reg.crons, c.call ≠ call) ∧ ∀ r ∈ reg.listeners, r.call ≠ call

theorem Free.covered (h : reg.Free call) : reg.Covered call :=
  ⟨fun c hc heq => absurd heq (h.2.1 c hc), fun r hr heq => absurd heq (h.2.2 r hr)⟩

/-- What is covered is gone when there is no entry. -/
theorem Covered.free (h : reg.Covered call) (hnone : reg.responses = none) : reg.Free call := by
  obtain ⟨hcrons, hlisteners⟩ := h
  rw [hnone] at hcrons hlisteners
  exact ⟨hnone, fun c hc heq => Bool.false_ne_true (hcrons c hc heq),
    fun r hr heq => List.not_mem_nil (hlisteners r hr heq)⟩

/-- Free of every call is empty. -/
theorem forall_free_iff : (∀ call, reg.Free call) ↔ reg = {} := by
  constructor
  · intro h
    have hcrons := List.eq_nil_iff_forall_not_mem.mpr fun c hc => (h c.call).2.1 c hc rfl
    have hlisteners := List.eq_nil_iff_forall_not_mem.mpr fun r hr => (h r.call).2.2 r hr rfl
    exact Registration.ext (h 0).1 hcrons hlisteners
  · rintro rfl call
    exact ⟨rfl, nofun, nofun⟩

theorem HasCrons.mono {reg' : Registration} {node : String} {expressions : List String}
    (h : reg.HasCrons node expressions) (hsub : reg.crons ⊆ reg'.crons) :
    reg'.HasCrons node expressions := by
  intro expression he
  obtain ⟨c, hc, heq⟩ := h expression he
  exact ⟨c, hsub hc, heq⟩

theorem HasTrigger.mono {reg' : Registration} {node : TriggerNode} (h : reg.HasTrigger node)
    (hcrons : reg.crons ⊆ reg'.crons) (hlisteners : reg.listeners ⊆ reg'.listeners) :
    reg'.HasTrigger node := by
  refine ⟨h.1.mono hcrons, fun hclosable => ?_⟩
  obtain ⟨r, hr, heq⟩ := h.2 hclosable
  exact ⟨r, hlisteners hr, heq⟩

end Registration

namespace ActiveWorkflows

variable {st : ActiveWorkflows} {workflowId k : WorkflowId} {call : ℕ}

def registration (workflowId : WorkflowId) (st : ActiveWorkflows) : Registration where
  responses := st.activeWorkflows.get? workflowId
  crons := st.cronsByWorkflow workflowId
  listeners := st.listeners workflowId

/-! ### The operations -/

@[simp] theorem registration_activate_self (rs : List TriggerResponse) :
    (st.activate workflowId rs).registration workflowId =
      { st.registration workflowId with responses := some rs } := by
  simp only [registration, activate, InsertionMap.get?_set_self]

@[simp] theorem registration_activate_of_ne (rs : List TriggerResponse) (hne : k ≠ workflowId) :
    (st.activate workflowId rs).registration k = st.registration k := by
  simp only [registration, activate, InsertionMap.get?_set_of_ne _ hne]

@[simp] theorem registration_deactivate_self :
    (st.deactivate workflowId).registration workflowId =
      { st.registration workflowId with responses := none } := by
  simp only [registration, deactivate, InsertionMap.get?_erase, if_pos]

@[simp] theorem registration_deactivate_of_ne (hne : k ≠ workflowId) :
    (st.deactivate workflowId).registration k = st.registration k := by
  simp only [registration, deactivate, InsertionMap.get?_erase, if_neg hne]

@[simp] theorem registration_deregisterCrons_self :
    (st.deregisterCrons workflowId).registration workflowId =
      { st.registration workflowId with crons := [] } := by
  simp only [registration, deregisterCrons, Function.update_self]

@[simp] theorem registration_deregisterCrons_of_ne (hne : k ≠ workflowId) :
    (st.deregisterCrons workflowId).registration k = st.registration k := by
  simp only [registration, deregisterCrons, Function.update_of_ne hne]

@[simp] theorem registration_closeTrigger_self (r : TriggerResponse) :
    (st.closeTrigger workflowId r).registration workflowId =
      { st.registration workflowId with
        listeners := (st.registration workflowId).listeners.filter fun r' => r' ≠ r } := by
  simp only [registration, closeTrigger, Function.update_self]

@[simp] theorem registration_closeTrigger_of_ne (r : TriggerResponse) (hne : k ≠ workflowId) :
    (st.closeTrigger workflowId r).registration k = st.registration k := by
  simp only [registration, closeTrigger, Function.update_of_ne hne]

theorem registration_registerCron_of_ne (cron : Cron) (hne : k ≠ workflowId) :
    (st.registerCron workflowId cron).registration k = st.registration k := by
  rw [registerCron]
  split
  · rfl
  · simp only [registration, Function.update_of_ne hne]

@[simp] theorem registration_registerCrons_of_ne (node : String) (expressions : List String)
    (hne : k ≠ workflowId) :
    (st.registerCrons call workflowId node expressions).registration k = st.registration k := by
  rw [registerCrons]
  induction expressions generalizing st with
  | nil => rfl
  | cons expression expressions ih =>
    rw [List.foldl_cons, ih, registration_registerCron_of_ne _ hne]

/-- Registering the crons of a node leaves the crons that were there and makes the rest. -/
theorem exists_registration_registerCrons (st : ActiveWorkflows) (call : ℕ)
    (workflowId : WorkflowId) (node : String) (expressions : List String) :
    ∃ crons, (st.registerCrons call workflowId node expressions).registration workflowId =
        { st.registration workflowId with crons } ∧
      (st.registration workflowId).crons ⊆ crons ∧
      (∀ c ∈ crons, c ∈ (st.registration workflowId).crons ∨ c.call = call ∧ expressions ≠ []) ∧
      ∀ expression ∈ expressions, ∃ c ∈ crons, c.node = node ∧ c.expression = expression := by
  rw [registerCrons]
  induction expressions generalizing st with
  | nil => exact ⟨_, rfl, List.Subset.refl _, fun c hc => Or.inl hc, (by simp)⟩
  | cons expression expressions ih =>
    -- what the first cron does, then the induction hypothesis from there
    have hfirst : ∃ crons, (st.registerCron workflowId ⟨call, node, expression⟩).registration
          workflowId = { st.registration workflowId with crons } ∧
        (st.registration workflowId).crons ⊆ crons ∧
        (∀ c ∈ crons, c ∈ (st.registration workflowId).crons ∨ c.call = call) ∧
        ∃ c ∈ crons, c.node = node ∧ c.expression = expression := by
      rw [registerCron]
      split
      next hany =>
        obtain ⟨c, hc, heq⟩ := List.any_eq_true.mp hany
        exact ⟨_, rfl, List.Subset.refl _, fun c hc => Or.inl hc, c, hc, of_decide_eq_true heq⟩
      next =>
        refine ⟨(st.registration workflowId).crons ++ [⟨call, node, expression⟩], ?_,
          List.subset_append_left _ _, ?_, _, List.mem_append_right _ (List.mem_singleton_self _),
          rfl, rfl⟩
        · simp only [registration, Function.update_self]
        · intro c hc
          obtain hc | hc := List.mem_append.mp hc
          · exact Or.inl hc
          · exact Or.inr (List.mem_singleton.mp hc ▸ rfl)
    obtain ⟨crons, heq, hsub, hcall, c, hc, hcron⟩ := hfirst
    obtain ⟨crons', heq', hsub', hcall', hall⟩ :=
      ih (st.registerCron workflowId ⟨call, node, expression⟩)
    rw [heq] at heq' hsub' hcall'
    refine ⟨crons', heq', List.Subset.trans hsub hsub', ?_, ?_⟩
    · intro c hc
      obtain hc | hc := hcall' c hc
      · exact (hcall c hc).imp id fun h => ⟨h, (by simp)⟩
      · exact Or.inr ⟨hc.1, (by simp)⟩
    · intro e he
      obtain rfl | he := List.mem_cons.mp he
      · exact ⟨c, hsub' hc, hcron⟩
      · exact hall e he

@[simp] theorem registration_startTrigger_of_ne (node : TriggerNode) (hne : k ≠ workflowId) :
    (st.startTrigger call workflowId node).registration k = st.registration k := by
  have h : (st.registerCrons call workflowId node.name node.crons).registration k =
      st.registration k := registration_registerCrons_of_ne _ _ hne
  simp only [registration, Registration.mk.injEq] at h
  simp only [registration, startTrigger, Function.update_of_ne hne, h.1, h.2.1, h.2.2]

/-- Starting a trigger registers its crons and lets it listen. -/
theorem exists_registration_startTrigger (st : ActiveWorkflows) (call : ℕ)
    (workflowId : WorkflowId) (node : TriggerNode) :
    ∃ crons, (st.startTrigger call workflowId node).registration workflowId =
        { st.registration workflowId with
          crons, listeners := (st.registration workflowId).listeners ++
            (node.triggerResponse call).filter (·.closable) } ∧
      (st.registration workflowId).crons ⊆ crons ∧
      ∀ expression ∈ node.crons, ∃ c ∈ crons, c.node = node.name ∧ c.expression = expression := by
  obtain ⟨crons, heq, hsub, -, hall⟩ :=
    exists_registration_registerCrons st call workflowId node.name node.crons
  simp only [registration, Registration.mk.injEq] at heq
  refine ⟨crons, ?_, hsub, hall⟩
  simp only [registration, startTrigger, Function.update_self, heq.1, heq.2.1, heq.2.2]

/-! ### What `add` does -/

namespace AddPhase

/-- What a call registers when nothing fails: triggers, crons or an entry. -/
def RegistersMore (nodes : WorkflowNodes) : AddPhase → Prop
  | .preparing shouldAdd => shouldAdd = true ∧ (nodes.triggerNodes ≠ [] ∨ nodes.pollNodes ≠ [])
  | .runningTrigger .. => True
  | .polling node rest _ => ∃ p ∈ node :: rest, p.crons ≠ []
  | _ => False

theorem registersMore_polling_of_next {nodes : WorkflowNodes} {node : PollNode}
    {rest : List PollNode} {rs : List TriggerResponse}
    (h : (activateNextPolling rest rs).RegistersMore nodes) :
    (polling node rest rs).RegistersMore nodes := by
  obtain _ | ⟨p, rest⟩ := rest
  · exact h.elim
  · obtain ⟨q, hq, hne⟩ := h
    exact ⟨q, List.mem_cons_of_mem _ hq, hne⟩

end AddPhase

theorem registration_runNextTrigger_of_ne (nodes : WorkflowNodes) (triggers : List TriggerNode)
    (rs : List TriggerResponse) (hne : k ≠ workflowId) :
    (st.runNextTrigger workflowId nodes triggers rs).2.registration k = st.registration k := by
  obtain _ | ⟨node, rest⟩ := triggers
  · exact registration_activate_of_ne rs hne
  · rfl

@[simp] theorem registration_resumeAdd_of_ne (nodes : WorkflowNodes) (phase : AddPhase)
    (hne : k ≠ workflowId) :
    (st.resumeAdd call workflowId nodes phase).2.registration k = st.registration k := by
  cases phase with
  | preparing shouldAdd =>
    obtain _ | _ := shouldAdd
    · rfl
    · simp only [resumeAdd, addTriggersAndPollers, if_true]
      split
      · rfl
      · exact registration_runNextTrigger_of_ne _ _ _ hne
  | runningTrigger node rest rs =>
    exact (registration_runNextTrigger_of_ne _ _ _ hne).trans
      (registration_startTrigger_of_ne node hne)
  | polling node rest rs => exact registration_registerCrons_of_ne _ _ hne
  | _ => rfl

@[simp] theorem registration_failAdd_of_ne (registered : ℕ) (phase : AddPhase)
    (hne : k ≠ workflowId) :
    (st.failAdd call workflowId registered phase).2.registration k = st.registration k := by
  cases phase with
  | polling node rest rs =>
    simp only [failAdd]
    split
    · exact (registration_deactivate_of_ne hne).trans (registration_registerCrons_of_ne _ _ hne)
    · exact registration_registerCrons_of_ne _ _ hne
  | _ => rfl

/-- A call that registers nothing more leaves the memory alone from then on. -/
theorem resumeAdd_of_not_registersMore {nodes : WorkflowNodes} {phase : AddPhase}
    (h : ¬phase.RegistersMore nodes) :
    (st.resumeAdd call workflowId nodes phase).2 = st ∧
      ¬(st.resumeAdd call workflowId nodes phase).1.RegistersMore nodes := by
  cases phase with
  | preparing shouldAdd =>
    obtain _ | _ := shouldAdd
    · exact ⟨rfl, id⟩
    · have hnil : nodes.triggerNodes = [] ∧ nodes.pollNodes = [] := by
        by_contra hnil
        exact h ⟨rfl, not_and_or.mp hnil⟩
      have hadd : st.resumeAdd call workflowId nodes (.preparing true) = (.releasing, st) :=
        if_pos hnil
      rw [hadd]
      exact ⟨rfl, id⟩
  | runningTrigger node rest rs => exact absurd trivial h
  | polling node rest rs =>
    have hcrons : node.crons = [] := by
      by_contra hne
      exact h ⟨node, List.mem_cons_self, hne⟩
    refine ⟨?_, fun hmore => h (AddPhase.registersMore_polling_of_next hmore)⟩
    simp only [resumeAdd, registerCrons, hcrons, List.foldl_nil]
  | _ => exact ⟨rfl, id⟩

/-! ### What a removal does -/

/-- What a call has registered for a workflow is still to be cleared by a removal of the
remaining workflows, or is gone. -/
def Awaits (call : ℕ) (workflowId : WorkflowId) (remaining : List WorkflowId)
    (reg : Registration) : Prop :=
  workflowId ∈ remaining ∧ reg.Covered call ∨ reg.Free call

/-- A removal under way clears what a call has registered for a workflow; after the removal it
is gone. -/
def Clears (call : ℕ) (workflowId : WorkflowId) (reg : Registration) : Option Removal → Prop
  | none => reg.Free call
  | some ⟨none, remaining⟩ => Awaits call workflowId remaining reg
  | some ⟨some (k, rs), remaining⟩ =>
    if k = workflowId then
      (∀ c ∈ reg.crons, c.call ≠ call) ∧ (∀ r ∈ reg.listeners, r.call = call → r ∈ rs) ∧
        reg.Covered call
    else Awaits call workflowId remaining reg

theorem clears_removed {remaining : List WorkflowId} {reg : Registration}
    (h : Awaits call workflowId remaining reg) :
    Clears call workflowId reg (removed remaining) := by
  rw [removed]
  split
  next hnil =>
    obtain ⟨hmem, -⟩ | hfree := h
    · exact absurd (hnil ▸ hmem) List.not_mem_nil
    · exact hfree
  · exact h

theorem clears_closeNextTrigger {rs : List TriggerResponse} {remaining : List WorkflowId}
    (h : Clears call workflowId (st.registration workflowId) (some ⟨some (k, rs), remaining⟩)) :
    Clears call workflowId ((st.closeNextTrigger k rs remaining).2.registration workflowId)
      (st.closeNextTrigger k rs remaining).1 := by
  obtain _ | ⟨r, rs⟩ := rs
  · refine clears_removed ?_
    by_cases hk : k = workflowId
    · subst hk
      rw [Clears, if_pos rfl] at h
      refine Or.inr ?_
      simp only [closeNextTrigger, registration_deactivate_self]
      exact ⟨rfl, h.1, fun r hr heq => List.not_mem_nil (h.2.1 r hr heq)⟩
    · rw [Clears, if_neg hk] at h
      simpa only [closeNextTrigger, registration_deactivate_of_ne (Ne.symm hk)] using h
  · exact h

/-- The removal of a workflow clears what a call has registered for it. -/
theorem clears_deregisterCrons {rs : List TriggerResponse} {remaining : List WorkflowId}
    (hsome : st.activeWorkflows.get? k = some rs)
    (h : Awaits call workflowId (k :: remaining) (st.registration workflowId)) :
    Clears call workflowId ((st.deregisterCrons k).registration workflowId)
      (some ⟨some (k, rs), remaining⟩) := by
  by_cases hk : k = workflowId
  · subst hk
    rw [Clears, if_pos rfl, registration_deregisterCrons_self]
    obtain ⟨-, hlisteners⟩ := h.elim And.right Registration.Free.covered
    refine ⟨nofun, fun r hr heq => ?_, nofun, hlisteners⟩
    have hr := hlisteners r hr heq
    rwa [show (st.registration k).responses = some rs from hsome] at hr
  · rw [Clears, if_neg hk, registration_deregisterCrons_of_ne (Ne.symm hk)]
    exact h.imp (fun hcovered => ⟨(List.mem_cons.mp hcovered.1).resolve_left (Ne.symm hk),
      hcovered.2⟩) id

theorem clears_closeTrigger {r : TriggerResponse} {rs : List TriggerResponse}
    {remaining : List WorkflowId}
    (h : Clears call workflowId (st.registration workflowId)
      (some ⟨some (k, r :: rs), remaining⟩)) :
    Clears call workflowId ((st.closeTrigger k r).registration workflowId)
      (some ⟨some (k, rs), remaining⟩) := by
  by_cases hk : k = workflowId
  · subst hk
    rw [Clears, if_pos rfl] at h ⊢
    rw [registration_closeTrigger_self]
    refine ⟨h.1, fun r' hr' heq => ?_, h.2.2.1, fun r' hr' heq => ?_⟩
    · obtain ⟨hmem, hne⟩ := List.mem_filter.mp hr'
      exact (List.mem_cons.mp (h.2.1 r' hmem heq)).resolve_left (of_decide_eq_true hne)
    · exact h.2.2.2 r' (List.mem_filter.mp hr').1 heq
  · rw [Clears, if_neg hk] at h ⊢
    rwa [registration_closeTrigger_of_ne _ (Ne.symm hk)]

theorem clears_removeWorkflows {workflowIds : List WorkflowId}
    (h : Awaits call workflowId workflowIds (st.registration workflowId)) :
    Clears call workflowId ((st.removeWorkflows workflowIds).2.registration workflowId)
      (st.removeWorkflows workflowIds).1 := by
  obtain _ | ⟨k, remaining⟩ := workflowIds
  · exact h.resolve_left fun hmem => List.not_mem_nil hmem.1
  · simp only [removeWorkflows]
    split
    next hnone =>
      -- the workflow is not active: what is covered is gone
      refine clears_removed (h.elim (fun hcovered => ?_) Or.inr)
      obtain rfl | hmem := List.mem_cons.mp hcovered.1
      · exact Or.inr (hcovered.2.free hnone)
      · exact Or.inl ⟨hmem, hcovered.2⟩
    next rs hsome =>
      exact clears_closeNextTrigger (clears_deregisterCrons hsome h)

/-- A removal that goes on keeps clearing. -/
theorem clears_resumeRemoval {removal : Removal}
    (h : Clears call workflowId (st.registration workflowId) (some removal)) :
    Clears call workflowId ((st.resumeRemoval removal).2.registration workflowId)
      (st.resumeRemoval removal).1 := by
  obtain ⟨_ | ⟨k, _ | ⟨r, rs⟩⟩, remaining⟩ := removal
  · exact clears_removeWorkflows h
  · exact clears_closeNextTrigger h
  · exact clears_closeNextTrigger (clears_closeTrigger h)

/-! ### Other removals -/

/-- What a removal does to what a call has registered: it removes crons and listeners, and the
entry only when nothing of the call is left. -/
def Reduces (call : ℕ) (reg reg' : Registration) : Prop :=
  reg'.crons ⊆ reg.crons ∧ reg'.listeners ⊆ reg.listeners ∧
    (reg'.responses = reg.responses ∨ reg'.Free call)

section Reduces

variable {reg reg' reg'' : Registration}

theorem Reduces.refl (call : ℕ) (reg : Registration) : Reduces call reg reg :=
  ⟨List.Subset.refl _, List.Subset.refl _, Or.inl rfl⟩

theorem Reduces.free (h : Reduces call reg reg') (hfree : reg.Free call) : reg'.Free call :=
  h.2.2.elim (fun heq => ⟨heq.trans hfree.1, fun c hc => hfree.2.1 c (h.1 hc),
    fun r hr => hfree.2.2 r (h.2.1 hr)⟩) fun hfree => hfree

theorem Reduces.trans (h : Reduces call reg reg') (h' : Reduces call reg' reg'') :
    Reduces call reg reg'' := by
  refine ⟨List.Subset.trans h'.1 h.1, List.Subset.trans h'.2.1 h.2.1, ?_⟩
  obtain heq | hfree := h.2.2
  · exact h'.2.2.imp_left fun heq' => heq'.trans heq
  · exact Or.inr (h'.free hfree)

theorem Reduces.covered (h : Reduces call reg reg') (hcovered : reg.Covered call) :
    reg'.Covered call := by
  obtain ⟨hcrons, hlisteners, heq | hfree⟩ := h
  · rw [Registration.Covered, heq]
    exact ⟨fun c hc => hcovered.1 c (hcrons hc), fun r hr => hcovered.2 r (hlisteners hr)⟩
  · exact hfree.covered

theorem Reduces.awaits {remaining : List WorkflowId} (h : Reduces call reg reg')
    (hawaits : Awaits call workflowId remaining reg) : Awaits call workflowId remaining reg' :=
  hawaits.imp (And.imp_right h.covered) h.free

/-- Another removal does not keep a removal from clearing. -/
theorem Reduces.clears {removal : Option Removal} (h : Reduces call reg reg')
    (hclears : Clears call workflowId reg removal) : Clears call workflowId reg' removal := by
  obtain _ | ⟨_ | ⟨k, rs⟩, remaining⟩ := removal
  · exact h.free hclears
  · exact h.awaits hclears
  · rw [Clears] at hclears ⊢
    split
    next hk =>
      rw [if_pos hk] at hclears
      exact ⟨fun c hc => hclears.1 c (h.1 hc), fun r hr => hclears.2.1 r (h.2.1 hr),
        h.covered hclears.2.2⟩
    next hk =>
      rw [if_neg hk] at hclears
      exact h.awaits hclears

end Reduces

theorem registration_closeNextTrigger_of_ne (rs : List TriggerResponse)
    (remaining : List WorkflowId) (hne : k ≠ workflowId) :
    (st.closeNextTrigger workflowId rs remaining).2.registration k = st.registration k := by
  obtain _ | ⟨r, rs⟩ := rs
  · exact registration_deactivate_of_ne hne
  · rfl

theorem reduces_closeNextTrigger {rs : List TriggerResponse} {remaining : List WorkflowId}
    (h : Clears call workflowId (st.registration workflowId) (some ⟨some (k, rs), remaining⟩)) :
    Reduces call (st.registration workflowId)
      ((st.closeNextTrigger k rs remaining).2.registration workflowId) := by
  obtain rfl | hne := eq_or_ne workflowId k
  · obtain _ | ⟨r, rs⟩ := rs
    · rw [Clears, if_pos rfl] at h
      simp only [closeNextTrigger, registration_deactivate_self]
      exact ⟨List.Subset.refl _, List.Subset.refl _, Or.inr ⟨rfl, h.1, fun r hr heq =>
        List.not_mem_nil (h.2.1 r hr heq)⟩⟩
    · exact Reduces.refl _ _
  · rw [registration_closeNextTrigger_of_ne _ _ hne]
    exact Reduces.refl _ _

theorem reduces_deregisterCrons (st : ActiveWorkflows) (call : ℕ) (k workflowId : WorkflowId) :
    Reduces call (st.registration workflowId) ((st.deregisterCrons k).registration workflowId) := by
  obtain rfl | hne := eq_or_ne workflowId k
  · rw [registration_deregisterCrons_self]
    exact ⟨List.nil_subset _, List.Subset.refl _, Or.inl rfl⟩
  · rw [registration_deregisterCrons_of_ne hne]
    exact Reduces.refl _ _

theorem reduces_closeTrigger (st : ActiveWorkflows) (call : ℕ) (k workflowId : WorkflowId)
    (r : TriggerResponse) :
    Reduces call (st.registration workflowId) ((st.closeTrigger k r).registration workflowId) := by
  obtain rfl | hne := eq_or_ne workflowId k
  · rw [registration_closeTrigger_self]
    exact ⟨List.Subset.refl _, List.filter_sublist.subset, Or.inl rfl⟩
  · rw [registration_closeTrigger_of_ne r hne]
    exact Reduces.refl _ _

theorem reduces_removeWorkflows {workflowIds : List WorkflowId}
    (h : Awaits call workflowId workflowIds (st.registration workflowId)) :
    Reduces call (st.registration workflowId)
      ((st.removeWorkflows workflowIds).2.registration workflowId) := by
  obtain _ | ⟨k, remaining⟩ := workflowIds
  · exact Reduces.refl _ _
  · simp only [removeWorkflows]
    split
    · exact Reduces.refl _ _
    next rs hsome =>
      exact (reduces_deregisterCrons st call k workflowId).trans
        (reduces_closeNextTrigger (clears_deregisterCrons hsome h))

theorem reduces_resumeRemoval {removal : Removal}
    (h : Clears call workflowId (st.registration workflowId) (some removal)) :
    Reduces call (st.registration workflowId)
      ((st.resumeRemoval removal).2.registration workflowId) := by
  obtain ⟨_ | ⟨k, _ | ⟨r, rs⟩⟩, remaining⟩ := removal
  · exact reduces_removeWorkflows h
  · exact reduces_closeNextTrigger h
  · exact (reduces_closeTrigger st call k workflowId r).trans
      (reduces_closeNextTrigger (clears_closeTrigger h))

/-! ### Removals of one workflow -/

theorem closeNextTrigger_eq_some {rs : List TriggerResponse} {removal : Removal}
    (h : (st.closeNextTrigger workflowId rs []).1 = some removal) :
    ∃ rs, removal = ⟨some (workflowId, rs), []⟩ := by
  obtain _ | ⟨r, rs⟩ := rs
  · exact nomatch h
  · exact ⟨r :: rs, (Option.some.inj h).symm⟩

theorem removeWorkflows_singleton_eq_some {removal : Removal}
    (h : (st.removeWorkflows [workflowId]).1 = some removal) :
    ∃ rs, removal = ⟨some (workflowId, rs), []⟩ := by
  simp only [removeWorkflows] at h
  split at h
  · contradiction
  · exact closeNextTrigger_eq_some h

theorem resumeRemoval_eq_some {rs : List TriggerResponse} {removal : Removal}
    (h : (st.resumeRemoval ⟨some (workflowId, rs), []⟩).1 = some removal) :
    ∃ rs, removal = ⟨some (workflowId, rs), []⟩ := by
  obtain _ | ⟨r, rs⟩ := rs <;> exact closeNextTrigger_eq_some h

theorem registration_removeWorkflows_singleton_of_ne (hne : k ≠ workflowId) :
    (st.removeWorkflows [workflowId]).2.registration k = st.registration k := by
  simp only [removeWorkflows]
  split
  · rfl
  · rw [registration_closeNextTrigger_of_ne _ _ hne, registration_deregisterCrons_of_ne hne]

theorem registration_resumeRemoval_of_ne (rs : List TriggerResponse) (hne : k ≠ workflowId) :
    (st.resumeRemoval ⟨some (workflowId, rs), []⟩).2.registration k = st.registration k := by
  obtain _ | ⟨r, rs⟩ := rs
  · exact registration_closeNextTrigger_of_ne _ _ hne
  · exact (registration_closeNextTrigger_of_ne _ _ hne).trans
      (registration_closeTrigger_of_ne r hne)

end ActiveWorkflows

end N8n
