import N8n.TaskRunners.Matching

/-!
# Tasks that nobody acts on

A task is put into `tasks` when its runner has accepted, and either its requester is then
asked for settings, with a timeout, or its timer is armed with the settings. When the
request has expired in the meantime, `acceptOffer` puts the task in and returns: nothing is
armed for it and nobody is asked. `noOrphanTasks_iff` says that this is the only way to a
task that nobody acts on.
-/

namespace N8n.TaskBroker

open BrokerMessage Transition

variable {st st' : TaskBroker} {taskId : NanoId} {handler : Suspended}

/-- The request the task was made for is still pending. -/
def RequestPending (st : TaskBroker) (taskId : NanoId) : Prop :=
  ∃ m ∈ st.matched, m.1 = taskId ∧
    ∃ r ∈ st.pendingTaskRequests, r.requestId = m.2.2.requestId

/-- One of the parties is obliged to act on the task: its requester, or its runner before
the timer of the task fires. -/
def Obliges (st : TaskBroker) (taskId : NanoId) : Prop :=
  taskId ∈ st.requesterAcceptRejects ∨ st.RequestPending taskId ∨ .task taskId ∈ st.timers

/-- A suspended handler of the task goes on without waiting for anybody. -/
def GoesOn (st : TaskBroker) (taskId : NanoId) : Prop :=
  ∃ handler ∈ st.suspended, handler.begun = some taskId ∧
    (handler = .readySent taskId ∨ handler = .awaitingSettings taskId →
      st.requesterAnswers.has taskId = true)

/-- Each task has a party that is obliged to act on it. -/
def ObligesAll (st : TaskBroker) : Prop := ∀ t ∈ st.tasks.keys, st.Obliges t

/-- Each task has a party that is obliged to act on it, or a handler on its way. -/
def NoOrphanTasks (st : TaskBroker) : Prop := ∀ t ∈ st.tasks.keys, st.Obliges t ∨ st.GoesOn t

/-- The condition under which no task is left to nobody: when `acceptOffer` goes on because
the runner has accepted, the request is still pending. -/
def AcceptsPendingRequest (st : TaskBroker) : Event → Prop
  | .resume (.awaitingRunner taskId _ request) =>
    st.runnerAnswers.get? taskId = some .accepted →
      ∃ r ∈ st.pendingTaskRequests, r.requestId = request.requestId
  | _ => True

/-- The requester of a task sends its settings. -/
def Event.SendsSettings : Event → Prop
  | .requesterMessage _ (.taskSettings _ _) => True
  | _ => False

/-! ### The invariant -/

/-- Every task is attended, and a task that a runner is still asked to take has left no
trace. -/
structure Attending (st : TaskBroker) : Prop where
  matching : Matching st
  attended : ∀ t ∈ st.tasks.keys, st.Attended t
  begun_lt : ∀ t, st.Begun t → t < st.nextId
  open_not_begun : ∀ m ∈ st.openMatches, ¬st.Begun m.1

theorem attending_new (mode : TaskRunnerMode) (taskTimeout : ℕ) (isSelfHosted : Bool) :
    Attending (new mode taskTimeout isSelfHosted) where
  matching := matching_new _ _ _
  attended := nofun
  begun_lt := by
    rintro t (h | h | h | h | ⟨f, hf, -⟩)
    · cases h
    · cases h
    · cases h
    · cases h
    · cases hf
  open_not_begun := nofun

theorem Attending.noOrphanTasks (h : Attending st) : NoOrphanTasks st := by
  intro t ht
  rcases h.attended t ht with htimer | ⟨f, hf, hbegun, hanswer⟩
  · exact Or.inl (Or.inr (Or.inr htimer))
  · by_cases hsettings : t ∈ st.requesterAcceptRejects
    · exact Or.inl (Or.inl hsettings)
    · exact Or.inr ⟨f, hf, hbegun, fun heq => (hanswer heq).resolve_left hsettings⟩

theorem Attending.of_attends (h : Attending st) (hmatching : Matching st')
    (hst : Attends (fun _ => False) st st') : Attending st' where
  matching := hmatching
  attended t ht := hst.attended t ht id (h.attended t (hst.tasks t ht))
  begun_lt t ht := by
    refine Nat.lt_of_lt_of_le ?_ hst.nextId_le
    rcases hst.begun t ht with ht | ht
    · exact h.begun_lt t ht
    · obtain ⟨m, hm, rfl⟩ := h.matching.tasks_matched t ht
      exact h.matching.matched_lt m hm
  open_not_begun m hm hbegun := by
    rcases hst.openMatches m hm with hm | hle
    · rcases hst.begun m.1 hbegun with hbegun | ht
      · exact h.open_not_begun m hm hbegun
      · exact h.matching.task_not_open m (h.matching.open_matched m hm) ht m hm rfl
    · rcases hst.begun m.1 hbegun with hbegun | ht
      · exact Nat.not_lt.mpr hle (h.begun_lt m.1 hbegun)
      · obtain ⟨m', hm', heq⟩ := h.matching.tasks_matched m.1 ht
        exact Nat.not_lt.mpr hle (heq ▸ h.matching.matched_lt m' hm')

/-! ### Requests and offers -/

variable {p : NanoId → Prop}

/-- Requests and offers are about no task. -/
theorem Attends.requests (pendingTaskRequests : List TaskRequest)
    (pendingTaskOffers : List TaskOffer) (requested : List NanoId) (offered : List TaskOffer)
    (toRequesters : List (String × ToRequester)) :
    Attends p st { st with
      pendingTaskRequests, pendingTaskOffers, requested, offered, toRequesters } where
  nextId_le := Nat.le_refl _
  tasks _ := id
  attended _ _ _ := id
  begun _ := Or.inl
  expecting _ := id
  openMatches _ := Or.inl

theorem Attends.acceptOffer {offer : TaskOffer} {request : TaskRequest} :
    Attends p st (st.acceptOffer offer request) where
  nextId_le := Nat.le_succ _
  tasks _ := id
  attended t _ _ h :=
    h.of_le (List.mem_append_left _) (fun _ hf _ => List.mem_append_left _ hf) id
  begun t h := by
    have htimer : ∀ timer ∈ (st.acceptOffer offer request).timers,
        timer ∈ st.timers ∨ timer = .runnerAccept st.nextId := fun timer ht =>
      (List.mem_append.mp ht).imp_right List.mem_singleton.mp
    refine Or.inl (h.imp_right (Or.imp_right (Or.imp ?_ (Or.imp ?_ ?_))))
    · exact fun ht => (htimer _ ht).resolve_right nofun
    · exact fun ht => (htimer _ ht).resolve_right nofun
    · rintro ⟨f, hf, hbegun⟩
      rcases List.mem_append.mp hf with hf | hf
      · exact ⟨f, hf, hbegun⟩
      · rw [List.mem_singleton.mp hf] at hbegun
        cases hbegun
  expecting _ := id
  openMatches m hm := by
    rw [TaskBroker.acceptOffer, openMatches_suspend] at hm
    rcases List.mem_append.mp hm with hm | hm
    · exact Or.inl hm
    · rw [List.mem_singleton.mp hm]
      exact Or.inr (Nat.le_refl _)

theorem Attends.settleTasks : Attends p st st.settleTasks := by
  rw [TaskBroker.settleTasks]
  refine List.foldlRecOn _ _ (.requests _ _ _ _ _) fun u h request _ => ?_
  rw [settleRequest]
  split
  · exact h
  · split
    · exact h
    · refine h.trans (Attends.trans ?_ .acceptOffer)
      exact .requests _ _ _ _ _

theorem Proceeds.createRequestTimeout (requestId : NanoId) :
    Proceeds p st (st.createRequestTimeout requestId) :=
  .timers _ (fun t => by simp) fun t ht => by simpa using ht

theorem Proceeds.clearRequestTimeout (requestId : NanoId) :
    Proceeds p st (st.clearTimeout (.request requestId)) :=
  .timers _ (fun t => by simp) fun _ ht => List.mem_of_mem_filter ht

theorem Attends.taskRequest {requesterId taskType : String} {requestId : NanoId} :
    Attends p st (st.onRequesterMessage requesterId (.taskRequest requestId taskType)) := by
  have hrecord : Attends p st (st.recordRequest requestId) := .requests _ _ _ _ _
  have htimer := hrecord.trans (Proceeds.createRequestTimeout requestId).toAttends
  simp only [onRequesterMessage, taskRequested]
  split
  · refine (htimer.trans (Proceeds.clearRequestTimeout requestId).toAttends).trans ?_
    exact .requests _ _ _ _ _
  · refine htimer.trans (Attends.trans ?_ .settleTasks)
    exact .requests _ _ _ _ _

theorem Attends.requestTimeout {requestId : NanoId} :
    Attends p st ((st.takeTimer (.request requestId)).handleRequestTimeout requestId) := by
  have htake : Proceeds p st (st.takeTimer (.request requestId)) :=
    .timers _ (fun _ => List.mem_erase_of_ne nofun) fun _ ht => List.mem_of_mem_erase ht
  rw [handleRequestTimeout]
  split
  · exact htake.toAttends
  next request hfind =>
    have hrequest : Attends p (st.takeTimer (.request requestId))
        ((st.takeTimer (.request requestId)).takeRequest requestId) := .requests _ _ _ _ _
    have hclear := hrequest.trans (Proceeds.clearRequestTimeout request.requestId).toAttends
    refine htake.toAttends.trans (hclear.trans ?_)
    exact .requests _ _ _ _ _

/-! ### The runner answers -/

/-- The state once the runner has accepted a request that is still pending. -/
theorem runnerAccepted_of_pending {offer : TaskOffer} {request : TaskRequest}
    (h : ∃ r ∈ st.pendingTaskRequests, r.requestId = request.requestId) :
    (st.takeHandler handler).runnerAccepted taskId offer request = { st with
      tasks := st.tasks.set taskId
        ⟨taskId, offer.runnerId, request.requesterId, offer.taskType⟩
      pendingTaskRequests :=
        st.pendingTaskRequests.eraseP fun r => r.requestId = request.requestId
      requesterAcceptRejects := st.requesterAcceptRejects.add taskId
      timers := st.timers.filter (· ≠ .request request.requestId) ++ [.requesterAccept taskId]
      toRequesters :=
        if request.requesterId ∈ st.requesters then
          st.toRequesters ++ [(request.requesterId, .taskReady request.requestId taskId)]
        else st.toRequesters
      suspended := st.suspended.erase handler ++ [.readySent taskId] } := by
  obtain ⟨r, hr, hid⟩ := h
  rw [runnerAccepted]
  refine (if_pos (List.any_eq_true.mpr ⟨r, hr, decide_eq_true hid⟩)).trans ?_
  simp only [takeHandler, clearTimeout, setTask, takeRequest, expectSettings, setTimeout,
    messageRequester, suspend]
  rfl

/-- The state once the runner has accepted a request that is no longer pending. -/
theorem runnerAccepted_of_not_pending {offer : TaskOffer} {request : TaskRequest}
    (h : ¬∃ r ∈ st.pendingTaskRequests, r.requestId = request.requestId) :
    (st.takeHandler handler).runnerAccepted taskId offer request = { st with
      tasks := st.tasks.set taskId
        ⟨taskId, offer.runnerId, request.requesterId, offer.taskType⟩
      timers := st.timers.filter (· ≠ .request request.requestId)
      suspended := st.suspended.erase handler } := by
  rw [runnerAccepted]
  refine (if_neg fun hany => h ?_).trans ?_
  · obtain ⟨r, hr, hid⟩ := List.any_eq_true.mp hany
    exact ⟨r, hr, of_decide_eq_true hid⟩
  · simp only [takeHandler, clearTimeout, setTask]

theorem openMatches_runnerAccepted {offer : TaskOffer} {request : TaskRequest}
    (h : ∃ r ∈ st.pendingTaskRequests, r.requestId = request.requestId) :
    ((st.takeHandler handler).runnerAccepted taskId offer request).openMatches
      = (st.takeHandler handler).openMatches := by
  rw [runnerAccepted_of_pending h]
  exact (List.filterMap_append).trans (List.append_nil _)

/-- What is left of a task is no part of a match that is settled. -/
private theorem Attends.takeHandler (hmem : handler ∈ st.suspended)
    (hbegun : handler.begun = none) :
    Attends p st (st.takeHandler handler) where
  nextId_le := Nat.le_refl _
  tasks _ := id
  attended t _ _ h := by
    refine h.of_le id (fun f hf ht => (List.mem_erase_of_ne ?_).mpr hf) id
    rintro rfl
    rw [hbegun] at ht
    cases ht
  begun t h := by
    refine Or.inl (h.imp_right (Or.imp_right (Or.imp_right (Or.imp_right ?_))))
    rintro ⟨f, hf, ht⟩
    exact ⟨f, List.mem_of_mem_erase hf, ht⟩
  expecting _ := id
  openMatches m hm := Or.inl ((openMatches_perm hmem).mem_iff.mpr (List.mem_append_right _ hm))

/-- A runner that rejects, defers or does not answer leaves no task. -/
theorem Attends.notAccepted {offer : TaskOffer} {request : TaskRequest} {answer : RunnerAnswer}
    (hmem : .awaitingRunner taskId offer request ∈ st.suspended) (hanswer : answer ≠ .accepted) :
    Attends p st ((st.takeHandler (.awaitingRunner taskId offer request)).runnerAnswered taskId
      offer request answer) := by
  have htake : Attends p st (st.takeHandler (.awaitingRunner taskId offer request)) :=
    .takeHandler hmem rfl
  have hfree : Attends p st ((st.takeHandler (.awaitingRunner taskId offer
      request)).setAcceptInProgress request.requestId false) :=
    htake.trans (.requests _ _ _ _ _)
  rcases answer with _ | _ | _ | _
  · exact absurd rfl hanswer
  · exact hfree
  · exact (hfree.trans (Proceeds.clearRequestTimeout _).toAttends).trans
      (Proceeds.createRequestTimeout _).toAttends
  · exact hfree

section Accepted

variable {offer : TaskOffer} {request : TaskRequest}

/-- The task the handler makes when the runner has accepted. -/
private theorem eq_of_awaitingRunner (h : Matching st)
    (hmem : .awaitingRunner taskId offer request ∈ st.suspended)
    {m : NanoId × TaskOffer × TaskRequest} (hm : m ∈ st.matched) (hid : m.1 = taskId) :
    m = (taskId, offer, request) :=
  List.inj_on_of_nodup_map h.matched_nodup hm
    (h.open_matched _ (mem_openMatches_of_matching hmem rfl)) hid

/-- What is there of the tasks after the runner has accepted. -/
private theorem begun_runnerAccepted {t : NanoId}
    (hpending : ∃ r ∈ st.pendingTaskRequests, r.requestId = request.requestId)
    (ht : ((st.takeHandler (.awaitingRunner taskId offer request)).runnerAccepted taskId offer
      request).Begun t) : st.Begun t ∨ t = taskId := by
  rw [runnerAccepted_of_pending hpending] at ht
  rcases ht with ht | ht | ht | ht | ⟨f, hf, hbegun⟩
  · exact (InsertionSet.mem_add.mp ht).symm.imp_left Or.inl
  · exact Or.inl (Or.inr (Or.inl ht))
  · rcases List.mem_append.mp ht with ht | ht
    · exact Or.inl (Or.inr (Or.inr (Or.inl (List.mem_of_mem_filter ht))))
    · exact Or.inr (Timer.requesterAccept.inj (List.mem_singleton.mp ht))
  · rcases List.mem_append.mp ht with ht | ht
    · exact Or.inl (Or.inr (Or.inr (Or.inr (Or.inl (List.mem_of_mem_filter ht)))))
    · cases List.mem_singleton.mp ht
  · rcases List.mem_append.mp hf with hf | hf
    · exact Or.inl (.of_suspended (List.mem_of_mem_erase hf) hbegun)
    · rw [List.mem_singleton.mp hf] at hbegun
      exact Or.inr (Option.some.inj hbegun).symm

/-- The runner has accepted and the request is pending: the requester is asked for
settings. -/
theorem Attending.runnerAccepted (h : Attending st)
    (hmem : .awaitingRunner taskId offer request ∈ st.suspended)
    (hpending : ∃ r ∈ st.pendingTaskRequests, r.requestId = request.requestId) :
    Attending ((st.takeHandler (.awaitingRunner taskId offer request)).runnerAccepted taskId offer
      request) := by
  have hmatched := h.matching.open_matched _
    (mem_openMatches_of_matching hmem (m := (taskId, offer, request)) rfl)
  have hlt : taskId < st.nextId := h.matching.matched_lt _ hmatched
  refine ⟨h.matching.runnerAccepted hmem, fun t ht => ?_, fun t ht => ?_, fun m hm hbegun => ?_⟩
  · rw [runnerAccepted_of_pending hpending] at ht ⊢
    rcases InsertionMap.mem_keys_set.mp ht with rfl | ht
    · exact Or.inr ⟨.readySent t, List.mem_append_right _ List.mem_cons_self, rfl,
        fun _ => Or.inl (InsertionSet.mem_add.mpr (Or.inl rfl))⟩
    · refine (h.attended t ht).of_le (fun htimer => ?_) (fun f hf hbegun => ?_)
        (Or.imp_left fun hmem => InsertionSet.mem_add.mpr (Or.inr hmem))
      · exact List.mem_append_left _ (List.mem_filter.mpr ⟨htimer, rfl⟩)
      · refine List.mem_append_left _ ((List.mem_erase_of_ne ?_).mpr hf)
        rintro rfl
        cases hbegun
  · rw [runnerAccepted_of_pending hpending]
    exact (begun_runnerAccepted hpending ht).elim (h.begun_lt t) fun heq => heq ▸ hlt
  · rw [openMatches_runnerAccepted hpending] at hm
    have hopen : m ∈ st.openMatches :=
      (openMatches_perm hmem).mem_iff.mpr (List.mem_append_right _ hm)
    rcases begun_runnerAccepted hpending hbegun with hbegun | heq
    · exact h.open_not_begun m hopen hbegun
    · have hself := eq_of_awaitingRunner h.matching hmem (h.matching.open_matched m hopen) heq
      exact h.matching.requestId_ne hmem rfl hm (congrArg (·.2.2.requestId) hself)

/-- The runner has accepted and the request is gone: nobody is asked for settings, and no
timer is armed. -/
theorem Attending.not_noOrphanTasks (h : Attending st)
    (hmem : .awaitingRunner taskId offer request ∈ st.suspended)
    (hpending : ¬∃ r ∈ st.pendingTaskRequests, r.requestId = request.requestId) :
    ¬NoOrphanTasks ((st.takeHandler (.awaitingRunner taskId offer request)).runnerAccepted taskId
      offer request) := by
  have hnot : ¬st.Begun taskId :=
    h.open_not_begun _ (mem_openMatches_of_matching hmem (m := (taskId, offer, request)) rfl)
  intro horphan
  rw [runnerAccepted_of_not_pending hpending] at horphan
  have htask := horphan taskId (InsertionMap.mem_keys_set_self _ _ _)
  rcases htask with (hexpected | ⟨m, hm, hid, r, hr, heq⟩ | htimer) | ⟨f, hf, hbegun, -⟩
  · exact hnot (Or.inl hexpected)
  · have hself := eq_of_awaitingRunner h.matching hmem hm hid
    rw [hself] at heq
    exact hpending ⟨r, hr, heq⟩
  · exact hnot (Or.inr (Or.inr (Or.inr (Or.inl (List.mem_of_mem_filter htimer)))))
  · exact hnot (.of_suspended (List.mem_of_mem_erase hf) hbegun)

end Accepted

/-! ### Settings come -/

/-- The settings of a task come: its handler goes on with them. -/
theorem Attending.handleRequesterAccept (h : Attending st) {settings : JsonValue} :
    Attending (st.handleRequesterAccept taskId settings) := by
  have hmatching : Matching (st.handleRequesterAccept taskId settings) :=
    h.matching.of_continues .handleRequesterAccept
  rw [TaskBroker.handleRequesterAccept] at hmatching ⊢
  split at hmatching
  case isFalse hnot =>
    rw [if_neg hnot]
    exact h
  case isTrue hexpected =>
    rw [if_pos hexpected]
    have hbegun : ∀ t, Begun { st.settleRequesterAnswer taskId (.accepted settings) with
        requesterAcceptRejects := st.requesterAcceptRejects.erase taskId } t → st.Begun t := by
      intro t ht
      rcases ht with ht | ht | ht
      · exact Or.inl (InsertionSet.mem_erase.mp ht).1
      · rcases has_settleRequesterAnswer.mp ht with ht | rfl
        · exact Or.inr (Or.inl ht)
        · exact Or.inl hexpected
      · exact Or.inr (Or.inr ht)
    refine ⟨hmatching, fun t ht => ?_, fun t ht => h.begun_lt t (hbegun t ht), fun m hm hbm =>
      h.open_not_begun m hm (hbegun m.1 hbm)⟩
    refine (h.attended t ht).of_le id (fun _ hf _ => hf) fun hans => ?_
    by_cases heq : t = taskId
    · exact Or.inr (has_settleRequesterAnswer.mpr (Or.inr heq))
    · refine hans.imp (fun hmem => InsertionSet.mem_erase.mpr ⟨hmem, heq⟩) fun hhas => ?_
      exact has_settleRequesterAnswer.mpr (Or.inl hhas)

/-! ### Every step -/

/-- The steps that match or answer something, and keep every task attended. -/
private theorem attends_or_accepts {e : Event} (he : e.IsMatching)
    (hsettings : ¬e.SendsSettings) (hstep : st.Step e st') :
    (Attends (fun _ => False) st st' ∧ st.AcceptsPendingRequest e) ∨ ∃ taskId offer request,
      e = .resume (.awaitingRunner taskId offer request) ∧
      .awaitingRunner taskId offer request ∈ st.suspended ∧
      st.runnerAnswers.get? taskId = some .accepted ∧
      st' = (st.takeHandler (.awaitingRunner taskId offer request)).runnerAccepted taskId offer
        request := by
  rw [Step] at hstep
  cases he with
  | taskOffer runnerId offerId taskType validFor =>
    obtain rfl := Option.some.inj hstep
    refine Or.inl ⟨?_, trivial⟩
    rw [onRunnerMessage.eq_def]
    split
    · refine Attends.trans ?_ .settleTasks
      exact .requests _ _ _ _ _
    · exact .requests _ _ _ _ _
  | taskRequest requesterId requestId taskType =>
    obtain ⟨-, heq⟩ := Option.ite_none_right_eq_some.mp hstep
    obtain rfl := Option.some.inj heq
    exact Or.inl ⟨.taskRequest, trivial⟩
  | taskSettings requesterId taskId settings => exact absurd trivial hsettings
  | requestTimeout requestId =>
    obtain ⟨-, heq⟩ := Option.ite_none_right_eq_some.mp hstep
    obtain rfl := Option.some.inj heq
    exact Or.inl ⟨.requestTimeout, trivial⟩
  | runnerAnswer taskId offer request =>
    obtain ⟨hmem, hr⟩ := Option.ite_none_right_eq_some.mp hstep
    obtain ⟨answer, hanswer, rfl⟩ := Option.map_eq_some_iff.mp hr
    by_cases haccepted : answer = .accepted
    · rw [haccepted] at hanswer ⊢
      exact Or.inr ⟨taskId, offer, request, rfl, hmem, hanswer, rfl⟩
    · refine Or.inl ⟨.notAccepted hmem haccepted, fun hacc => absurd ?_ haccepted⟩
      exact Option.some.inj (hanswer.symm.trans hacc)

private theorem acceptsPendingRequest_of_not_isMatching {e : Event} (he : ¬e.IsMatching) :
    st.AcceptsPendingRequest e := by
  rw [AcceptsPendingRequest.eq_def]
  split
  · exact absurd (.runnerAnswer _ _ _) he
  · trivial

/-- **Step lemma of the attended tasks.** -/
theorem Attending.step {e : Event} (h : Attending st) (hstep : st.Step e st') :
    (st.AcceptsPendingRequest e → Attending st') ∧
      (¬st.AcceptsPendingRequest e → ¬NoOrphanTasks st') := by
  have hmatching := h.matching.step hstep
  by_cases he : e.IsMatching
  · by_cases hsettings : e.SendsSettings
    · cases he with
      | taskSettings requesterId taskId settings =>
        rw [Step, step?] at hstep
        obtain ⟨-, heq⟩ := Option.ite_none_right_eq_some.mp hstep
        obtain rfl := Option.some.inj heq
        exact ⟨fun _ => h.handleRequesterAccept, fun hbad => absurd trivial hbad⟩
      | _ => exact hsettings.elim
    · rcases attends_or_accepts he hsettings hstep with
        ⟨hst, hgood⟩ | ⟨taskId, offer, request, rfl, hmem, haccepted, rfl⟩
      · exact ⟨fun _ => h.of_attends hmatching hst, fun hbad => absurd hgood hbad⟩
      · refine ⟨fun hgood => h.runnerAccepted hmem (hgood haccepted), fun hbad => ?_⟩
        exact h.not_noOrphanTasks hmem fun hpending => hbad fun _ => hpending
  · refine ⟨fun _ => h.of_attends hmatching (Proceeds.step he hstep).toAttends, fun hbad => ?_⟩
    exact absurd (acceptsPendingRequest_of_not_isMatching he) hbad

/-- Without settings, a task that is there waits for those of its requester. -/
private theorem expecting_step {e : Event}
    (hexpecting : ∀ t ∈ st.tasks.keys, t ∈ st.requesterAcceptRejects)
    (hgood : st.AcceptsPendingRequest e) (hsettings : ¬e.SendsSettings) (hstep : st.Step e st') :
    ∀ t ∈ st'.tasks.keys, t ∈ st'.requesterAcceptRejects := by
  have hof : Attends (fun _ => False) st st' →
      ∀ t ∈ st'.tasks.keys, t ∈ st'.requesterAcceptRejects := fun hst t ht =>
    hst.expecting t (hexpecting t (hst.tasks t ht))
  by_cases he : e.IsMatching
  · rcases attends_or_accepts he hsettings hstep with
      ⟨hst, -⟩ | ⟨taskId, offer, request, rfl, hmem, haccepted, rfl⟩
    · exact hof hst
    · intro t ht
      rw [runnerAccepted_of_pending (hgood haccepted)] at ht ⊢
      refine InsertionSet.mem_add.mpr ?_
      exact (InsertionMap.mem_keys_set.mp ht).imp_right (hexpecting t)
  · exact hof (Proceeds.step he hstep).toAttends

/-- **Orphan tasks, exactly.** For every interleaving of messages, timeouts, connections and
suspended handlers from a new broker: in every state each task either has a party obliged to
act on it or a handler that goes on by itself, if and only if no runner accepts a task whose
request is no longer pending. In a run without settings the same condition says that each
task has a party obliged to act on it. -/
theorem noOrphanTasks_iff (mode : TaskRunnerMode) (taskTimeout : ℕ) (isSelfHosted : Bool)
    (st : TaskBroker) (run : Run Step (new mode taskTimeout isSelfHosted) st) :
    (run.Visits NoOrphanTasks ↔ run.Takes AcceptsPendingRequest) ∧
      ((∀ e ∈ run.labels, ¬e.SendsSettings) →
        (run.Visits ObligesAll ↔ run.Takes AcceptsPendingRequest)) := by
  have hiff : run.Visits NoOrphanTasks ↔ run.Takes AcceptsPendingRequest :=
    run.visits_iff_takes (fun _ h => h.noOrphanTasks) (fun _ _ _ h hc hs => (h.step hs).1 hc)
      (fun _ _ _ h hc hs => (h.step hs).2 hc) (attending_new _ _ _)
  refine ⟨hiff, fun hlabels => ⟨fun h => hiff.mp ?_, fun h => ?_⟩⟩
  · exact h.mono fun _ hst t ht => Or.inl (hst t ht)
  · have hkeep : ∀ (st : TaskBroker) (e : Event) (st' : TaskBroker),
        (∀ t ∈ st.tasks.keys, t ∈ st.requesterAcceptRejects) →
        st.AcceptsPendingRequest e ∧ ¬e.SendsSettings → st.Step e st' →
        ∀ t ∈ st'.tasks.keys, t ∈ st'.requesterAcceptRejects := fun _ _ _ h hc hs =>
      expecting_step h hc.1 hc.2 hs
    have hvisits := run.visits_of_takes hkeep
      (fun _ ht => absurd ht List.not_mem_nil) (h.and (Run.takes_of_labels hlabels))
    exact hvisits.mono fun _ hst t ht => Or.inl (hst t ht)

/-- A request expires while its runner is asked, and then the runner accepts. -/
def expiredThenAccepted : List Event :=
  let offer : TaskOffer :=
    { offerId := 0, runnerId := "runner", taskType := "javascript", validFor := 5000,
      validUntil := 5000000000 }
  let request : TaskRequest :=
    { requestId := 0, requesterId := "main", taskType := "javascript", acceptInProgress := true }
  [.registerRequester "main", .registerRunner { id := "runner" },
    .requesterMessage "main" (.taskRequest 0 "javascript"),
    .runnerMessage "runner" (.taskOffer 0 "javascript" 5000),
    .resume (.offerSent 0 offer request), .timer (.request 0),
    .runnerMessage "runner" (.taskAccepted 0), .resume (.awaitingRunner 0 offer request)]

/-- The task is there, and neither settings are expected nor a timer is armed. -/
theorem not_obligesAll_expiredThenAccepted :
    ∃ (st : TaskBroker) (run : Run Step (new .internal 300 true) st),
      run.labels = expiredThenAccepted ∧
      st.tasks.keys = [0] ∧ ¬run.Visits ObligesAll := by
  have hstate : (expiredThenAccepted.foldlM step? (new .internal 300 true)).map (fun st =>
      (st.tasks.keys, st.requesterAcceptRejects.elements, st.pendingTaskRequests,
        st.timers.filter (· = .task 0))) = some ([0], [], [], []) := by decide
  obtain ⟨st, hst, heq⟩ := Option.map_eq_some_iff.mp hstate
  simp only [Prod.mk.injEq] at heq
  obtain ⟨hkeys, hexpected, hpending, htimers⟩ := heq
  obtain ⟨run, hlabels⟩ := Run.exists_labels_eq hst
  refine ⟨st, run, hlabels, hkeys, fun hvisits => ?_⟩
  rcases hvisits.last 0 (hkeys ▸ List.mem_cons_self) with h | ⟨m, -, -, r, hr, -⟩ | h
  · rw [InsertionSet.mem_def, hexpected] at h
    cases h
  · rw [hpending] at hr
    cases hr
  · exact List.not_mem_nil (htimers ▸ List.mem_filter.mpr ⟨h, decide_eq_true rfl⟩)

end N8n.TaskBroker
