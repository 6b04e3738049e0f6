import N8n.Foundations.Transition
import N8n.TaskRunners.BrokerFrame

/-!
# Requests and offers are matched one to one

A request waits in `pendingTaskRequests` until it is answered with `taskready` or
`requestexpired`; while a runner is asked to take it, its flag `acceptInProgress` keeps other
passes of `settleTasks` away. `Matching` is the invariant behind this: a request has at most
one open match, a match that has become a task has neither a pending request nor another
open match, and the offers matched so far together with the pending ones are among those
received.
-/

namespace N8n.TaskBroker

open BrokerMessage Transition

variable {st st' : TaskBroker} {taskId : NanoId} {handler : Suspended}

/-- What the broker promises about requests and offers. -/
structure OneToOne (st : TaskBroker) : Prop where
  /-- A request is answered at most once. -/
  answered_once : ∀ r, answers r st ≤ 1
  /-- A task is there for a match. -/
  bound : ∀ t ∈ st.tasks.keys, ∃ m ∈ st.matched, m.1 = t
  /-- The matches of a request have at most one task that is there. -/
  bound_once : ∀ m ∈ st.matched, ∀ m' ∈ st.matched, m.1 ∈ st.tasks.keys →
    m'.1 ∈ st.tasks.keys → m.2.2.requestId = m'.2.2.requestId → m.1 = m'.1
  /-- An offer is matched at most as often as it was made. -/
  consumed_once : (st.matched.map (·.2.1)).Subperm st.offered
  taskType_eq : ∀ m ∈ st.matched, m.2.1.taskType = m.2.2.taskType

/-- What the broker keeps about requests, offers and their matches. -/
structure Matching (st : TaskBroker) : Prop where
  pending_nodup : (st.pendingTaskRequests.map (·.requestId)).Nodup
  pending_requested : ∀ r ∈ st.pendingTaskRequests, r.requestId ∈ st.requested
  pending_unanswered : ∀ r ∈ st.pendingTaskRequests, answers r.requestId st = 0
  answers_requested : ∀ r, 0 < answers r st → r ∈ st.requested
  answers_le_one : ∀ r, answers r st ≤ 1
  matched_requested : ∀ m ∈ st.matched, m.2.2.requestId ∈ st.requested
  matched_nodup : (st.matched.map (·.1)).Nodup
  matched_lt : ∀ m ∈ st.matched, m.1 < st.nextId
  taskType_eq : ∀ m ∈ st.matched, m.2.1.taskType = m.2.2.taskType
  open_matched : ∀ m ∈ st.openMatches, m ∈ st.matched
  open_nodup : (st.openMatches.map (·.2.2.requestId)).Nodup
  open_inProgress : ∀ m ∈ st.openMatches, ∀ r ∈ st.pendingTaskRequests,
    r.requestId = m.2.2.requestId → r.acceptInProgress = true
  tasks_matched : ∀ t ∈ st.tasks.keys, ∃ m ∈ st.matched, m.1 = t
  task_not_pending : ∀ m ∈ st.matched, m.1 ∈ st.tasks.keys →
    ∀ r ∈ st.pendingTaskRequests, r.requestId ≠ m.2.2.requestId
  task_not_open : ∀ m ∈ st.matched, m.1 ∈ st.tasks.keys →
    ∀ m' ∈ st.openMatches, m'.2.2.requestId ≠ m.2.2.requestId
  bound_once : ∀ m ∈ st.matched, ∀ m' ∈ st.matched, m.1 ∈ st.tasks.keys →
    m'.1 ∈ st.tasks.keys → m.2.2.requestId = m'.2.2.requestId → m.1 = m'.1
  offers : (st.matched.map (·.2.1) ++ st.pendingTaskOffers).Subperm st.offered

theorem matching_new (mode : TaskRunnerMode) (taskTimeout : ℕ) (isSelfHosted : Bool) :
    Matching (new mode taskTimeout isSelfHosted) where
  pending_nodup := List.nodup_nil
  pending_requested := nofun
  pending_unanswered := nofun
  answers_requested := nofun
  answers_le_one _ := Nat.zero_le 1
  matched_requested := nofun
  matched_nodup := List.nodup_nil
  matched_lt := nofun
  taskType_eq := nofun
  open_matched := nofun
  open_nodup := List.nodup_nil
  open_inProgress := nofun
  tasks_matched := nofun
  task_not_pending := nofun
  task_not_open := nofun
  bound_once := nofun
  offers := List.Subperm.refl []

theorem Matching.oneToOne (h : Matching st) : OneToOne st where
  answered_once := h.answers_le_one
  bound := h.tasks_matched
  bound_once := h.bound_once
  consumed_once := (List.sublist_append_left _ _).subperm.trans h.offers
  taskType_eq := h.taskType_eq

/-- A handler that matches and answers nothing keeps the matching. -/
theorem Matching.of_continues (h : Matching st) (hst : Continues st st') : Matching st' where
  pending_nodup := hst.pendingTaskRequests ▸ h.pending_nodup
  pending_requested := by
    rw [hst.pendingTaskRequests, hst.requested]
    exact h.pending_requested
  pending_unanswered r hr := by
    rw [hst.answers]
    exact h.pending_unanswered r (hst.pendingTaskRequests ▸ hr)
  answers_requested r hr := by
    rw [hst.answers] at hr
    exact hst.requested ▸ h.answers_requested r hr
  answers_le_one r := by
    rw [hst.answers]
    exact h.answers_le_one r
  matched_requested := by
    rw [hst.matched, hst.requested]
    exact h.matched_requested
  matched_nodup := hst.matched ▸ h.matched_nodup
  matched_lt := by
    rw [hst.matched, hst.nextId]
    exact h.matched_lt
  taskType_eq := hst.matched ▸ h.taskType_eq
  open_matched m hm := by
    rw [hst.matched]
    exact h.open_matched m (hst.openMatches_perm.mem_iff.mp hm)
  open_nodup := (hst.openMatches_perm.map _).nodup_iff.mpr h.open_nodup
  open_inProgress m hm := by
    rw [hst.pendingTaskRequests]
    exact h.open_inProgress m (hst.openMatches_perm.mem_iff.mp hm)
  tasks_matched t ht := by
    rw [hst.matched]
    exact h.tasks_matched t (hst.keys t ht)
  task_not_pending m hm ht := by
    rw [hst.pendingTaskRequests]
    exact h.task_not_pending m (hst.matched ▸ hm) (hst.keys _ ht)
  task_not_open m hm ht m' hm' :=
    h.task_not_open m (hst.matched ▸ hm) (hst.keys _ ht) m' (hst.openMatches_perm.mem_iff.mp hm')
  bound_once m hm m' hm' ht ht' :=
    h.bound_once m (hst.matched ▸ hm) m' (hst.matched ▸ hm') (hst.keys _ ht) (hst.keys _ ht')
  offers := by
    rw [hst.matched, hst.offered]
    exact (((List.Sublist.refl _).append hst.pendingTaskOffers).subperm).trans h.offers

/-! ### A request is taken out -/

/-- Where keys are distinct, taking out the first element with a key leaves those with
another one. -/
theorem eraseP_eq_filter_of_nodup {α κ : Type*} [DecidableEq κ] {f : α → κ} {k : κ} {l : List α}
    (h : (l.map f).Nodup) : (l.eraseP fun a => f a = k) = l.filter fun a => f a ≠ k := by
  induction l with
  | nil => rfl
  | cons a l ih =>
    rw [List.map_cons, List.nodup_cons] at h
    by_cases hk : f a = k
    · have hl : ∀ b ∈ l, f b ≠ k := fun b hb heq =>
        h.1 (List.mem_map.mpr ⟨b, hb, heq.trans hk.symm⟩)
      rw [List.eraseP_cons_of_pos (by simp [hk]), List.filter_cons_of_neg (by simp [hk])]
      exact (List.filter_eq_self.mpr fun b hb => decide_eq_true (hl b hb)).symm
    · rw [List.eraseP_cons_of_neg (by simp [hk]), List.filter_cons_of_pos (by simp [hk]), ih h.2]

theorem Matching.mem_takeRequest (h : Matching st) {requestId : NanoId} {r : TaskRequest} :
    r ∈ (st.takeRequest requestId).pendingTaskRequests ↔
      r ∈ st.pendingTaskRequests ∧ r.requestId ≠ requestId := by
  rw [takeRequest, eraseP_eq_filter_of_nodup h.pending_nodup, List.mem_filter, decide_eq_true_eq]

/-- A request is taken out. -/
theorem Matching.takeRequest (h : Matching st) (requestId : NanoId) :
    Matching (st.takeRequest requestId) := by
  have hmem : ∀ r ∈ (st.takeRequest requestId).pendingTaskRequests, r ∈ st.pendingTaskRequests :=
    fun r hr => (h.mem_takeRequest.mp hr).1
  exact { h with
    pending_nodup := h.pending_nodup.sublist (List.eraseP_sublist.map _)
    pending_requested := fun r hr => h.pending_requested r (hmem r hr)
    pending_unanswered := fun r hr => h.pending_unanswered r (hmem r hr)
    open_inProgress := fun m hm r hr => h.open_inProgress m hm r (hmem r hr)
    task_not_pending := fun m hm ht r hr => h.task_not_pending m hm ht r (hmem r hr) }

/-- A request that is not pending is answered for the first time. -/
theorem Matching.answer (h : Matching st) {requestId : NanoId} {requesterId : String}
    {message : ToRequester} (hmessage : ∀ r, answersRequest r message = true ↔ r = requestId)
    (hrequested : requestId ∈ st.requested) (hzero : answers requestId st = 0)
    (hpending : ∀ r ∈ st.pendingTaskRequests, r.requestId ≠ requestId) :
    Matching (st.messageRequester requesterId message) := by
  have hanswers : ∀ r, answers r (st.messageRequester requesterId message) = answers r st +
      if requesterId ∈ st.requesters ∧ r = requestId then 1 else 0 := by
    intro r
    simp only [answers_messageRequester, hmessage]
  have hother : ∀ r, r ≠ requestId →
      answers r (st.messageRequester requesterId message) = answers r st := by
    intro r hne
    rw [hanswers, if_neg fun heq => hne heq.2, Nat.add_zero]
  refine { h with
    pending_unanswered := fun r hr => ?_
    answers_requested := fun r hr => ?_
    answers_le_one := fun r => ?_ }
  · rw [hother _ (hpending r hr)]
    exact h.pending_unanswered r hr
  · by_cases heq : r = requestId
    · exact heq ▸ hrequested
    · exact h.answers_requested r (hother r heq ▸ hr)
  · by_cases heq : r = requestId
    · rw [hanswers, heq, hzero]
      split <;> omega
    · rw [hother r heq]
      exact h.answers_le_one r

theorem Matching.handleRequestTimeout (h : Matching st) {requestId : NanoId} :
    Matching (st.handleRequestTimeout requestId) := by
  rw [TaskBroker.handleRequestTimeout]
  split
  · exact h
  next request hfind =>
    have hid : request.requestId = requestId := by simpa using List.find?_some hfind
    have hmem := List.mem_of_find?_eq_some hfind
    have hclear : Matching ((st.takeRequest requestId).clearTimeout (.request request.requestId)) :=
      (h.takeRequest requestId).of_continues (.quiet _ _ _ _ _ _ _ _ _ _)
    refine hclear.answer (fun r => decide_eq_true_iff.trans eq_comm)
      (h.pending_requested request hmem) (h.pending_unanswered request hmem) fun r hr => ?_
    rw [hid]
    exact (h.mem_takeRequest.mp hr).2

/-! ### A request is matched -/

theorem find?_perm_eraseP {α : Type*} {q : α → Bool} {a : α} {l : List α}
    (h : l.find? q = some a) : l.Perm (a :: l.eraseP q) := by
  induction l with
  | nil => cases h
  | cons b l ih =>
    by_cases hb : q b = true
    · rw [List.find?_cons_of_pos hb] at h
      rw [List.eraseP_cons_of_pos hb, Option.some.inj h]
    · rw [List.find?_cons_of_neg hb] at h
      rw [List.eraseP_cons_of_neg hb]
      exact ((ih h).cons b).trans (.swap a b _)

/-- The flags of other requests stay as they are. -/
theorem mem_setAcceptInProgress {requestId : NanoId} {value : Bool} {r : TaskRequest}
    (hr : r ∈ (st.setAcceptInProgress requestId value).pendingTaskRequests) :
    ∃ r' ∈ st.pendingTaskRequests, r.requestId = r'.requestId ∧
      (r.requestId = requestId → r.acceptInProgress = value) ∧
      (r.requestId ≠ requestId → r = r') := by
  obtain ⟨r', hr', rfl⟩ := List.mem_map.mp hr
  by_cases h : r'.requestId = requestId
  · rw [if_pos h]
    exact ⟨r', hr', rfl, fun _ => rfl, fun hne => absurd h hne⟩
  · rw [if_neg h]
    exact ⟨r', hr', rfl, fun heq => absurd heq h, fun _ => rfl⟩

theorem requestIds_setAcceptInProgress {requestId : NanoId} {value : Bool} :
    (st.setAcceptInProgress requestId value).pendingTaskRequests.map (·.requestId)
      = st.pendingTaskRequests.map (·.requestId) := by
  rw [setAcceptInProgress, List.map_map]
  refine List.map_congr_left fun r _ => ?_
  by_cases h : r.requestId = requestId <;> simp [h]

/-- The flag of a request may change, unless a runner is asked to take it. -/
theorem Matching.setAcceptInProgress (h : Matching st) {requestId : NanoId} {value : Bool}
    (hvalue : value = true ∨ ∀ m ∈ st.openMatches, m.2.2.requestId ≠ requestId) :
    Matching (st.setAcceptInProgress requestId value) := by
  refine { h with
    pending_nodup := requestIds_setAcceptInProgress.symm ▸ h.pending_nodup
    pending_requested := fun r hr => ?_
    pending_unanswered := fun r hr => ?_
    open_inProgress := fun m hm r hr heq => ?_
    task_not_pending := fun m hm ht r hr => ?_ }
  all_goals obtain ⟨r', hr', hid, hself, hother⟩ := mem_setAcceptInProgress hr
  · exact hid ▸ h.pending_requested r' hr'
  · exact hid ▸ h.pending_unanswered r' hr'
  · by_cases hr : r.requestId = requestId
    · rw [hself hr]
      exact hvalue.resolve_right fun hno => hno m hm (heq.symm.trans hr)
    · exact hother hr ▸ h.open_inProgress m hm r' hr' (hid ▸ heq)
  · exact hid ▸ h.task_not_pending m hm ht r' hr'

/-- A match is opened for a request for which no other one is open. -/
theorem Matching.openMatch (h : Matching st) {offer : TaskOffer} {request : TaskRequest}
    (hpending : request ∈ st.pendingTaskRequests) (hflag : request.acceptInProgress = true)
    (hopen : ∀ m ∈ st.openMatches, m.2.2.requestId ≠ request.requestId)
    (htype : offer.taskType = request.taskType)
    (hoffers : (st.matched.map (·.2.1) ++ offer :: st.pendingTaskOffers).Subperm st.offered) :
    Matching ((st.newTaskId offer request).suspend (.offerSent st.nextId offer request)) := by
  have hopenMatches : ((st.newTaskId offer request).suspend
      (.offerSent st.nextId offer request)).openMatches
        = st.openMatches ++ [(st.nextId, offer, request)] := openMatches_suspend _ _
  have hmatched : ((st.newTaskId offer request).suspend
      (.offerSent st.nextId offer request)).matched
        = st.matched ++ [(st.nextId, offer, request)] := rfl
  have hnew : ∀ m ∈ st.matched, m.1 ≠ st.nextId := fun m hm => (h.matched_lt m hm).ne
  have htask : st.nextId ∉ st.tasks.keys := by
    intro ht
    obtain ⟨m, hm, heq⟩ := h.tasks_matched _ ht
    exact hnew m hm heq
  have hold : ∀ m ∈ st.matched ++ [(st.nextId, offer, request)], m.1 ∈ st.tasks.keys →
      m ∈ st.matched := by
    intro m hm ht
    rw [List.mem_append, List.mem_singleton] at hm
    refine hm.resolve_right ?_
    rintro rfl
    exact htask ht
  refine { h with
    matched_requested := fun m hm => ?_
    matched_nodup := ?_
    matched_lt := fun m hm => ?_
    taskType_eq := fun m hm => ?_
    open_matched := fun m hm => ?_
    open_nodup := ?_
    open_inProgress := fun m hm r hr heq => ?_
    tasks_matched := fun t ht => ?_
    task_not_pending := fun m hm ht => h.task_not_pending m (hold m hm ht) ht
    task_not_open := fun m hm ht m' hm' => ?_
    bound_once := fun m hm m' hm' ht ht' =>
      h.bound_once m (hold m hm ht) m' (hold m' hm' ht') ht ht'
    offers := ?_ }
  · rw [hmatched, List.mem_append, List.mem_singleton] at hm
    rcases hm with hm | rfl
    · exact h.matched_requested m hm
    · exact h.pending_requested request hpending
  · rw [hmatched, List.map_append]
    refine List.Nodup.append h.matched_nodup (List.nodup_singleton _) ?_
    rw [List.map_singleton, List.disjoint_singleton]
    intro hmem
    obtain ⟨m, hm, heq⟩ := List.mem_map.mp hmem
    exact hnew m hm heq
  · rw [hmatched, List.mem_append, List.mem_singleton] at hm
    rcases hm with hm | rfl
    · exact Nat.lt_succ_of_lt (h.matched_lt m hm)
    · exact Nat.lt_succ_self _
  · rw [hmatched, List.mem_append, List.mem_singleton] at hm
    rcases hm with hm | rfl
    · exact h.taskType_eq m hm
    · exact htype
  · rw [hopenMatches, List.mem_append] at hm
    rw [hmatched, List.mem_append]
    exact hm.imp_left (h.open_matched m)
  · rw [hopenMatches, List.map_append]
    refine List.Nodup.append h.open_nodup (List.nodup_singleton _) ?_
    rw [List.map_singleton, List.disjoint_singleton]
    intro hmem
    obtain ⟨m, hm, heq⟩ := List.mem_map.mp hmem
    exact hopen m hm heq
  · rw [hopenMatches, List.mem_append, List.mem_singleton] at hm
    rcases hm with hm | rfl
    · exact h.open_inProgress m hm r hr heq
    · have hsame := List.inj_on_of_nodup_map h.pending_nodup hr hpending heq
      exact hsame ▸ hflag
  · obtain ⟨m, hm, heq⟩ := h.tasks_matched t ht
    exact ⟨m, List.mem_append_left _ hm, heq⟩
  · rw [hopenMatches, List.mem_append, List.mem_singleton] at hm'
    rcases hm' with hm' | rfl
    · exact h.task_not_open m (hold m hm ht) ht m' hm'
    · exact h.task_not_pending m (hold m hm ht) ht request hpending
  · rw [hmatched, List.map_append, List.append_assoc]
    exact hoffers

/-- A runner is asked to take a request for which nobody else has been asked. -/
theorem Matching.acceptOffer (h : Matching st) {offer : TaskOffer} {request : TaskRequest}
    (hpending : request ∈ st.pendingTaskRequests) (hflag : request.acceptInProgress = true)
    (hopen : ∀ m ∈ st.openMatches, m.2.2.requestId ≠ request.requestId)
    (htype : offer.taskType = request.taskType)
    (hoffers : (st.matched.map (·.2.1) ++ offer :: st.pendingTaskOffers).Subperm st.offered) :
    Matching (st.acceptOffer offer request) :=
  (h.openMatch hpending hflag hopen htype hoffers).of_continues (.quiet _ _ _ _ _ _ _ _ _ _)

/-- One round of the loop of `settleTasks`. -/
theorem Matching.settleRequest (h : Matching st) {request : TaskRequest}
    (hpending : request ∈ st.pendingTaskRequests) : Matching (st.settleRequest request) := by
  rw [TaskBroker.settleRequest]
  split
  · exact h
  next hfree =>
    split
    · exact h
    next offer hfind =>
      have hset : Matching (st.setAcceptInProgress request.requestId true) :=
        h.setAcceptInProgress (Or.inl rfl)
      have htake : Matching ((st.setAcceptInProgress request.requestId true).takeOffer
          request.taskType) :=
        hset.of_continues (Proceeds.offers (p := fun _ => False) List.eraseP_sublist).toContinues
      refine htake.acceptOffer (List.mem_map.mpr ⟨request, hpending, if_pos rfl⟩) rfl ?_ ?_ ?_
      · intro m hm heq
        exact hfree (h.open_inProgress m hm request hpending heq.symm)
      · simpa using List.find?_some hfind
      · exact ((find?_perm_eraseP hfind).symm.append_left _).subperm.trans h.offers

/-- A round is about its own request only. -/
theorem mem_settleRequest {request r : TaskRequest} (hr : r ∈ st.pendingTaskRequests)
    (hne : r.requestId ≠ request.requestId) :
    r ∈ (st.settleRequest request).pendingTaskRequests := by
  rw [settleRequest]
  split
  · exact hr
  · split
    · exact hr
    · exact List.mem_map.mpr ⟨r, hr, if_neg hne⟩

theorem Matching.foldl_settleRequest {l : List TaskRequest} (h : Matching st)
    (hids : (l.map (·.requestId)).Nodup) (hl : ∀ r ∈ l, r ∈ st.pendingTaskRequests) :
    Matching (l.foldl TaskBroker.settleRequest st) := by
  induction l generalizing st with
  | nil => exact h
  | cons request l ih =>
    rw [List.map_cons, List.nodup_cons] at hids
    refine ih (h.settleRequest (hl request List.mem_cons_self)) hids.2 fun r hr => ?_
    refine mem_settleRequest (hl r (List.mem_cons_of_mem _ hr)) fun heq => hids.1 ?_
    exact List.mem_map.mpr ⟨r, hr, heq⟩

theorem Matching.settleTasks (h : Matching st) : Matching st.settleTasks := by
  have hexpire : Matching st.expireTasks :=
    h.of_continues (Proceeds.offers (p := fun _ => False) List.filter_sublist).toContinues
  exact hexpire.foldl_settleRequest h.pending_nodup fun _ => id

/-! ### Requests and offers come -/

/-- A new request waits. -/
theorem Matching.addRequest (h : Matching st) {request : TaskRequest}
    (hrequested : request.requestId ∈ st.requested) (hzero : answers request.requestId st = 0)
    (hpending : ∀ r ∈ st.pendingTaskRequests, r.requestId ≠ request.requestId)
    (hmatched : ∀ m ∈ st.matched, m.2.2.requestId ≠ request.requestId) :
    Matching { st with pendingTaskRequests := st.pendingTaskRequests ++ [request] } := by
  refine { h with
    pending_nodup := ?_
    pending_requested := fun r hr => ?_
    pending_unanswered := fun r hr => ?_
    open_inProgress := fun m hm r hr heq => ?_
    task_not_pending := fun m hm ht r hr => ?_ }
  · rw [List.map_append]
    refine List.Nodup.append h.pending_nodup (List.nodup_singleton _) ?_
    rw [List.map_singleton, List.disjoint_singleton]
    intro hmem
    obtain ⟨r, hr, heq⟩ := List.mem_map.mp hmem
    exact hpending r hr heq
  all_goals rcases List.mem_append.mp hr with hr | hr
  · exact h.pending_requested r hr
  · exact List.mem_singleton.mp hr ▸ hrequested
  · exact h.pending_unanswered r hr
  · exact List.mem_singleton.mp hr ▸ hzero
  · exact h.open_inProgress m hm r hr heq
  · rw [List.mem_singleton.mp hr] at heq
    exact absurd heq.symm (hmatched m (h.open_matched m hm))
  · exact h.task_not_pending m hm ht r hr
  · rw [List.mem_singleton.mp hr]
    exact (hmatched m hm).symm

theorem Matching.taskRequest (h : Matching st) {requestId : NanoId} {requesterId taskType : String}
    (hfresh : requestId ∉ st.requested) :
    Matching (st.onRequesterMessage requesterId (.taskRequest requestId taskType)) := by
  have hzero : answers requestId st = 0 :=
    Nat.eq_zero_of_not_pos fun hpos => hfresh (h.answers_requested requestId hpos)
  have hpending : ∀ r ∈ st.pendingTaskRequests, r.requestId ≠ requestId := fun r hr heq =>
    hfresh (heq ▸ h.pending_requested r hr)
  have hmatched : ∀ m ∈ st.matched, m.2.2.requestId ≠ requestId := fun m hm heq =>
    hfresh (heq ▸ h.matched_requested m hm)
  have hrecord : Matching (st.recordRequest requestId) :=
    { h with
      pending_requested := fun r hr => List.mem_append_left _ (h.pending_requested r hr)
      answers_requested := fun r hr => List.mem_append_left _ (h.answers_requested r hr)
      matched_requested := fun m hm => List.mem_append_left _ (h.matched_requested m hm) }
  have hnew : requestId ∈ (st.recordRequest requestId).requested :=
    List.mem_append_right _ List.mem_cons_self
  have htimer : Matching ((st.recordRequest requestId).createRequestTimeout requestId) :=
    hrecord.of_continues (.quiet _ _ _ _ _ _ _ _ _ _)
  simp only [onRequesterMessage, taskRequested]
  split
  · have hclear : Matching (((st.recordRequest requestId).createRequestTimeout
        requestId).clearTimeout (.request requestId)) :=
      htimer.of_continues (.quiet _ _ _ _ _ _ _ _ _ _)
    exact hclear.answer (fun r => decide_eq_true_iff.trans eq_comm) hnew hzero hpending
  · refine Matching.settleTasks ?_
    exact htimer.addRequest hnew hzero hpending hmatched

theorem Matching.taskOffered (h : Matching st) {offer : TaskOffer} :
    Matching (st.taskOffered offer) := by
  refine Matching.settleTasks { h with offers := ?_ }
  rw [← List.append_assoc]
  exact (List.subperm_append_right [offer]).mpr h.offers

/-! ### The runner answers -/

/-- An open match is settled. -/
theorem Matching.takeHandler (h : Matching st) (hmem : handler ∈ st.suspended) :
    Matching (st.takeHandler handler) := by
  have hsub : ∀ m ∈ (st.takeHandler handler).openMatches, m ∈ st.openMatches := fun m hm =>
    (openMatches_perm hmem).mem_iff.mpr (List.mem_append_right _ hm)
  have hnodup := ((openMatches_perm hmem).map (·.2.2.requestId)).nodup_iff.mp h.open_nodup
  rw [List.map_append] at hnodup
  exact { h with
    open_matched := fun m hm => h.open_matched m (hsub m hm)
    open_nodup := hnodup.of_append_right
    open_inProgress := fun m hm => h.open_inProgress m (hsub m hm)
    task_not_open := fun m hm ht m' hm' => h.task_not_open m hm ht m' (hsub m' hm') }

/-- The match of a handler is the only open one of its request. -/
theorem Matching.requestId_ne (h : Matching st) (hmem : handler ∈ st.suspended)
    {m m' : NanoId × TaskOffer × TaskRequest} (hm : handler.matching = some m)
    (hm' : m' ∈ (st.takeHandler handler).openMatches) : m'.2.2.requestId ≠ m.2.2.requestId := by
  have hnodup := ((openMatches_perm hmem).map (·.2.2.requestId)).nodup_iff.mp h.open_nodup
  rw [hm, Option.toList_some, List.singleton_append, List.map_cons, List.nodup_cons] at hnodup
  exact fun heq => hnodup.1 (List.mem_map.mpr ⟨m', hm', heq⟩)

theorem mem_openMatches_of_matching (hmem : handler ∈ st.suspended)
    {m : NanoId × TaskOffer × TaskRequest} (hm : handler.matching = some m) :
    m ∈ st.openMatches :=
  List.mem_filterMap.mpr ⟨handler, hmem, hm⟩

/-- A match becomes a task: its request is no longer pending. -/
theorem Matching.setTask (h : Matching st) {m : NanoId × TaskOffer × TaskRequest} {task : Task}
    (hid : task.id = m.1) (hm : m ∈ st.matched)
    (hpending : ∀ r ∈ st.pendingTaskRequests, r.requestId ≠ m.2.2.requestId)
    (hopen : ∀ m' ∈ st.openMatches, m'.2.2.requestId ≠ m.2.2.requestId)
    (hbound : ∀ m' ∈ st.matched, m'.1 ∈ st.tasks.keys → m'.2.2.requestId ≠ m.2.2.requestId) :
    Matching (st.setTask task) := by
  have hkeys : ∀ m' ∈ st.matched, m'.1 ∈ (st.setTask task).tasks.keys →
      m' = m ∨ m'.1 ∈ st.tasks.keys := by
    intro m' hm' ht
    refine (InsertionMap.mem_keys_set.mp ht).imp_left fun heq => ?_
    exact List.inj_on_of_nodup_map h.matched_nodup hm' hm (heq.trans hid)
  refine { h with
    tasks_matched := fun t ht => ?_
    task_not_pending := fun m' hm' ht => ?_
    task_not_open := fun m' hm' ht => ?_
    bound_once := fun m₁ hm₁ m₂ hm₂ ht₁ ht₂ heq => ?_ }
  · rcases InsertionMap.mem_keys_set.mp ht with rfl | ht
    · exact ⟨m, hm, hid.symm⟩
    · exact h.tasks_matched t ht
  · rcases hkeys m' hm' ht with rfl | ht
    · exact hpending
    · exact h.task_not_pending m' hm' ht
  · rcases hkeys m' hm' ht with rfl | ht
    · exact hopen
    · exact h.task_not_open m' hm' ht
  · rcases hkeys m₁ hm₁ ht₁ with rfl | ht₁ <;> rcases hkeys m₂ hm₂ ht₂ with rfl | ht₂
    · rfl
    · exact absurd heq.symm (hbound m₂ hm₂ ht₂)
    · exact absurd heq (hbound m₁ hm₁ ht₁)
    · exact h.bound_once m₁ hm₁ m₂ hm₂ ht₁ ht₂ heq

theorem Matching.runnerAccepted (h : Matching st) {offer : TaskOffer} {request : TaskRequest}
    (hmem : .awaitingRunner taskId offer request ∈ st.suspended) :
    Matching ((st.takeHandler (.awaitingRunner taskId offer request)).runnerAccepted taskId
      offer request) := by
  have htake := h.takeHandler hmem
  have hopen := mem_openMatches_of_matching hmem (m := (taskId, offer, request)) rfl
  have hbound : ∀ m ∈ st.matched, m.1 ∈ st.tasks.keys →
      m.2.2.requestId ≠ request.requestId := fun m hm ht heq =>
    h.task_not_open m hm ht _ hopen heq.symm
  have hne : ∀ m' ∈ (st.takeHandler (.awaitingRunner taskId offer request)).openMatches,
      m'.2.2.requestId ≠ request.requestId := fun m' => h.requestId_ne hmem rfl
  have hsettled : (∀ r ∈ st.pendingTaskRequests, r.requestId ≠ request.requestId) →
      Matching ((st.takeHandler (.awaitingRunner taskId offer request)).setTask
        ⟨taskId, offer.runnerId, request.requesterId, offer.taskType⟩) := fun hpending =>
    htake.setTask (m := (taskId, offer, request)) rfl (h.open_matched _ hopen) hpending hne hbound
  rw [TaskBroker.runnerAccepted]
  split
  next hpending =>
    obtain ⟨r, hr, hid⟩ := List.any_eq_true.mp hpending
    have hid : r.requestId = request.requestId := of_decide_eq_true hid
    -- The order of these operations on different fields does not matter.
    have hanswer : Matching (((st.takeHandler (.awaitingRunner taskId offer request)).takeRequest
        request.requestId).messageRequester request.requesterId
          (.taskReady request.requestId taskId)) :=
      (htake.takeRequest request.requestId).answer (fun r => decide_eq_true_iff.trans eq_comm)
        (hid ▸ h.pending_requested r hr) (hid ▸ h.pending_unanswered r hr)
        fun r hr => (htake.mem_takeRequest.mp hr).2
    have hset : Matching ((((st.takeHandler (.awaitingRunner taskId offer request)).takeRequest
        request.requestId).messageRequester request.requesterId
          (.taskReady request.requestId taskId)).setTask
            ⟨taskId, offer.runnerId, request.requesterId, offer.taskType⟩) :=
      hanswer.setTask (m := (taskId, offer, request)) rfl (h.open_matched _ hopen)
        (fun r hr => (htake.mem_takeRequest.mp hr).2) hne hbound
    refine (hset.of_continues ?_).of_continues (.suspend rfl)
    exact .quiet _ _ _ _ _ _ _ _ _ _
  next hpending =>
    refine (hsettled fun r hr heq => hpending ?_).of_continues (.quiet _ _ _ _ _ _ _ _ _ _)
    exact List.any_eq_true.mpr ⟨r, hr, decide_eq_true heq⟩

theorem Matching.runnerAnswered (h : Matching st) {offer : TaskOffer} {request : TaskRequest}
    {answer : RunnerAnswer} (hmem : .awaitingRunner taskId offer request ∈ st.suspended) :
    Matching ((st.takeHandler (.awaitingRunner taskId offer request)).runnerAnswered taskId
      offer request answer) := by
  have hfree : Matching ((st.takeHandler (.awaitingRunner taskId offer request)).setAcceptInProgress
      request.requestId false) :=
    (h.takeHandler hmem).setAcceptInProgress (Or.inr fun m hm => h.requestId_ne hmem rfl hm)
  rcases answer with _ | _ | _ | _
  · exact h.runnerAccepted hmem
  · exact hfree
  · exact hfree.of_continues (.quiet _ _ _ _ _ _ _ _ _ _)
  · exact hfree

/-! ### Every step -/

/-- **Step lemma of the matching.** -/
theorem Matching.step {e : Event} (h : Matching st) (hstep : st.Step e st') : Matching st' := by
  by_cases he : e.IsMatching
  · rw [Step] at hstep
    cases he with
    | taskOffer runnerId offerId taskType validFor =>
      obtain rfl := Option.some.inj hstep
      rw [onRunnerMessage.eq_def]
      split
      · exact h.taskOffered
      · exact h
    | taskRequest requesterId requestId taskType =>
      obtain ⟨hfresh, heq⟩ := Option.ite_none_right_eq_some.mp hstep
      obtain rfl := Option.some.inj heq
      exact h.taskRequest hfresh
    | taskSettings requesterId taskId settings =>
      rw [step?] at hstep
      obtain ⟨-, heq⟩ := Option.ite_none_right_eq_some.mp hstep
      obtain rfl := Option.some.inj heq
      exact h.of_continues .handleRequesterAccept
    | requestTimeout requestId =>
      obtain ⟨-, heq⟩ := Option.ite_none_right_eq_some.mp hstep
      obtain rfl := Option.some.inj heq
      have htake : Matching (st.takeTimer (.request requestId)) :=
        h.of_continues (.quiet _ _ _ _ _ _ _ _ _ _)
      exact htake.handleRequestTimeout
    | runnerAnswer taskId offer request =>
      obtain ⟨hmem, hr⟩ := Option.ite_none_right_eq_some.mp hstep
      obtain ⟨answer, -, rfl⟩ := Option.map_eq_some_iff.mp hr
      exact h.runnerAnswered hmem
  · exact h.of_continues (Proceeds.step (p := fun _ => False) he hstep).toContinues

/-- **Matching is one to one.** In every state of every run of a new broker, whatever
messages, timeouts, connections and suspended handlers come in which order: a request is
answered at most once and has at most one live task, and an offer is matched at most as
often as it was made, with a request of its task type. -/
theorem matching_oneToOne (mode : TaskRunnerMode) (taskTimeout : ℕ) (isSelfHosted : Bool)
    (st : TaskBroker) (run : Run Step (new mode taskTimeout isSelfHosted) st) :
    run.Visits OneToOne := by
  have hvisits : run.Visits Matching :=
    run.visits_of_step (fun _ _ _ h hstep => h.step hstep) (matching_new _ _ _)
  exact hvisits.mono fun _ h => h.oneToOne

end N8n.TaskBroker
