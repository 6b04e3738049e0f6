import N8n.TaskRunners.BrokerInvariant

/-!
# What most handlers of the broker leave alone

Most handlers neither match an offer with a request nor answer a request, and take care
that each task they leave in `tasks` has somebody who will act on it. `Proceeds` says both;
each handler has one lemma about it. What is left are the few handlers that the matching of
requests and offers consists of.
-/

namespace N8n.TaskBroker

open BrokerMessage

variable {st st' u : TaskBroker} {taskId : NanoId} {handler : Suspended} {p : NanoId → Prop}

/-! ### Matches and answers -/

/-- The match of a suspended handler that waits for the runner's answer. -/
def Suspended.matching : Suspended → Option (NanoId × TaskOffer × TaskRequest)
  | .offerSent taskId offer request | .awaitingRunner taskId offer request =>
    some (taskId, offer, request)
  | .readySent _ | .awaitingSettings _ | .sendingSettings _ _ _
  | .responding _ _ | .ending _ _ | .timedOut _ => none

/-- The matches whose handler waits for the runner's answer. -/
def openMatches (st : TaskBroker) : List (NanoId × TaskOffer × TaskRequest) :=
  st.suspended.filterMap Suspended.matching

theorem openMatches_suspend (handler : Suspended) (st : TaskBroker) :
    (st.suspend handler).openMatches = st.openMatches ++ handler.matching.toList := by
  rw [openMatches, suspend, List.filterMap_append]
  rcases h : handler.matching with _ | m <;> simp [openMatches, h]

theorem openMatches_perm (hmem : handler ∈ st.suspended) :
    st.openMatches.Perm (handler.matching.toList ++ (st.takeHandler handler).openMatches) := by
  refine ((List.perm_cons_erase hmem).filterMap _).trans ?_
  rcases h : handler.matching with _ | m <;> simp [openMatches, takeHandler, h]

theorem openMatches_takeHandler (hmem : handler ∈ st.suspended) (h : handler.matching = none) :
    (st.takeHandler handler).openMatches.Perm st.openMatches := by
  have hperm := openMatches_perm hmem
  rw [h] at hperm
  exact hperm.symm

/-- Whether a message answers a request. -/
def answersRequest (requestId : NanoId) : ToRequester → Bool
  | .taskReady r _ | .requestExpired r _ => r = requestId
  | _ => false

/-- How often a request has been answered. -/
def answers (requestId : NanoId) (st : TaskBroker) : ℕ :=
  st.toRequesters.countP fun m => answersRequest requestId m.2

theorem answers_messageRequester (requestId : NanoId) (requesterId : String)
    (message : ToRequester) :
    answers requestId (st.messageRequester requesterId message) = answers requestId st +
      if requesterId ∈ st.requesters ∧ answersRequest requestId message = true then 1 else 0 := by
  rw [answers, messageRequester]
  by_cases hmem : requesterId ∈ st.requesters
  · simp only [hmem, if_true, List.countP_append, List.countP_singleton, true_and]
    rfl
  · simp only [hmem, false_and, if_false]
    rfl

/-! ### Who acts on a task -/

/-- The task that a suspended handler goes on with, once its runner has accepted it. -/
def Suspended.begun : Suspended → Option NanoId
  | .readySent taskId | .awaitingSettings taskId | .sendingSettings taskId _ _
  | .ending taskId _ | .timedOut taskId => some taskId
  | .offerSent _ _ _ | .awaitingRunner _ _ _ | .responding _ _ => none

/-- A suspended handler will act on the task: the settings it may wait for are still
expected, or have been answered. -/
def HasHandler (st : TaskBroker) (taskId : NanoId) : Prop :=
  ∃ handler ∈ st.suspended, handler.begun = some taskId ∧
    (handler = .readySent taskId ∨ handler = .awaitingSettings taskId →
      taskId ∈ st.requesterAcceptRejects ∨ st.requesterAnswers.has taskId = true)

/-- Something will happen to the task: its timer is armed or a handler acts on it. -/
def Attended (st : TaskBroker) (taskId : NanoId) : Prop :=
  .task taskId ∈ st.timers ∨ st.HasHandler taskId

/-- What is left of a task whose runner has accepted it, whether it is there or not. -/
def Begun (st : TaskBroker) (taskId : NanoId) : Prop :=
  taskId ∈ st.requesterAcceptRejects ∨ st.requesterAnswers.has taskId = true ∨
    .requesterAccept taskId ∈ st.timers ∨ .task taskId ∈ st.timers ∨
    ∃ handler ∈ st.suspended, handler.begun = some taskId

theorem Attended.of_le (h : st.Attended taskId)
    (htimers : .task taskId ∈ st.timers → .task taskId ∈ st'.timers)
    (hsuspended : ∀ f ∈ st.suspended, f.begun = some taskId → f ∈ st'.suspended)
    (hexpecting : taskId ∈ st.requesterAcceptRejects ∨ st.requesterAnswers.has taskId = true →
      taskId ∈ st'.requesterAcceptRejects ∨ st'.requesterAnswers.has taskId = true) :
    st'.Attended taskId := by
  rcases h with h | ⟨handler, hmem, hbegun, hanswer⟩
  · exact Or.inl (htimers h)
  · exact Or.inr ⟨handler, hsuspended handler hmem hbegun, hbegun, fun h => hexpecting (hanswer h)⟩

/-- From `st` to `st'` no task comes, and each task that stays stays attended, those in `p`
excepted. -/
structure Attends (p : NanoId → Prop) (st st' : TaskBroker) : Prop where
  nextId_le : st.nextId ≤ st'.nextId
  tasks : ∀ t ∈ st'.tasks.keys, t ∈ st.tasks.keys
  attended : ∀ t ∈ st'.tasks.keys, ¬p t → st.Attended t → st'.Attended t
  begun : ∀ t, st'.Begun t → st.Begun t ∨ t ∈ st.tasks.keys
  expecting : ∀ t ∈ st.requesterAcceptRejects, t ∈ st'.requesterAcceptRejects
  openMatches : ∀ m ∈ st'.openMatches, m ∈ st.openMatches ∨ st.nextId ≤ m.1

theorem Attends.trans (h : Attends p st u) (h' : Attends p u st') : Attends p st st' where
  nextId_le := Nat.le_trans h.nextId_le h'.nextId_le
  tasks t ht := h.tasks t (h'.tasks t ht)
  attended t ht hp hst := h'.attended t ht hp (h.attended t (h'.tasks t ht) hp hst)
  begun t ht := (h'.begun t ht).elim (h.begun t) fun ht => Or.inr (h.tasks t ht)
  expecting t ht := h'.expecting t (h.expecting t ht)
  openMatches m hm := (h'.openMatches m hm).elim (h.openMatches m) fun hle =>
    Or.inr (Nat.le_trans h.nextId_le hle)

/-- From `st` to `st'` nothing is matched and no request is answered. -/
structure Continues (st st' : TaskBroker) : Prop where
  nextId : st'.nextId = st.nextId
  requested : st'.requested = st.requested
  offered : st'.offered = st.offered
  matched : st'.matched = st.matched
  pendingTaskRequests : st'.pendingTaskRequests = st.pendingTaskRequests
  pendingTaskOffers : st'.pendingTaskOffers.Sublist st.pendingTaskOffers
  openMatches_perm : st'.openMatches.Perm st.openMatches
  answers : ∀ r, answers r st' = answers r st
  keys : ∀ t ∈ st'.tasks.keys, t ∈ st.tasks.keys

theorem Continues.trans (h : Continues st u) (h' : Continues u st') : Continues st st' where
  nextId := h'.nextId.trans h.nextId
  requested := h'.requested.trans h.requested
  offered := h'.offered.trans h.offered
  matched := h'.matched.trans h.matched
  pendingTaskRequests := h'.pendingTaskRequests.trans h.pendingTaskRequests
  pendingTaskOffers := h'.pendingTaskOffers.trans h.pendingTaskOffers
  openMatches_perm := h'.openMatches_perm.trans h.openMatches_perm
  answers r := (h'.answers r).trans (h.answers r)
  keys t ht := h.keys t (h'.keys t ht)

/-- A handler that matches nothing and leaves the tasks attended, those in `p` excepted. -/
structure Proceeds (p : NanoId → Prop) (st st' : TaskBroker) : Prop
    extends Continues st st', Attends p st st'

theorem Proceeds.trans (h : Proceeds p st u) (h' : Proceeds p u st') : Proceeds p st st' :=
  ⟨h.toContinues.trans h'.toContinues, h.toAttends.trans h'.toAttends⟩

/-- The tasks in `p` are attended after all. -/
theorem Proceeds.of_attended {q : NanoId → Prop} (h : Proceeds q st st')
    (hq : ∀ t ∈ st'.tasks.keys, q t → st.Attended t → st'.Attended t) : Proceeds p st st' :=
  { h with
    attended := fun t ht _ hst => by
      by_cases hqt : q t
      · exact hq t ht hqt hst
      · exact h.attended t ht hqt hst }

/-! ### The small operations -/

/-- Nothing that a match or an answer consists of changes. -/
theorem Continues.quiet (knownRunners : InsertionMap String TaskRunner)
    (requesters : InsertionSet String) (isDraining : Bool)
    (runnerAcceptRejects requesterAcceptRejects : InsertionSet NanoId) (now : ℤ)
    (timers : List Timer) (runnerAnswers : InsertionMap NanoId RunnerAnswer)
    (requesterAnswers : InsertionMap NanoId RequesterAnswer)
    (toRunners : List (String × ToRunner)) :
    Continues st { st with
      knownRunners, requesters, isDraining, runnerAcceptRejects, requesterAcceptRejects, now,
      timers, runnerAnswers, requesterAnswers, toRunners } where
  nextId := rfl
  requested := rfl
  offered := rfl
  matched := rfl
  pendingTaskRequests := rfl
  pendingTaskOffers := .refl _
  openMatches_perm := .refl _
  answers _ := rfl
  keys _ := id

/-- Nothing that matters here changes. -/
theorem Proceeds.quiet (knownRunners : InsertionMap String TaskRunner)
    (requesters : InsertionSet String) (isDraining : Bool)
    (runnerAcceptRejects : InsertionSet NanoId) (now : ℤ)
    (runnerAnswers : InsertionMap NanoId RunnerAnswer) (toRunners : List (String × ToRunner)) :
    Proceeds p st { st with
      knownRunners, requesters, isDraining, runnerAcceptRejects, now, runnerAnswers,
      toRunners } :=
  { Continues.quiet _ _ _ _ _ _ _ _ _ _ with
    nextId_le := Nat.le_refl _
    tasks := fun _ => id
    attended := fun _ _ _ => id
    begun := fun _ => Or.inl
    expecting := fun _ => id
    openMatches := fun _ => Or.inl }

theorem Proceeds.refl (st : TaskBroker) : Proceeds p st st := .quiet _ _ _ _ _ _ _

/-- The timers of requests, and of runners that should answer, are about no task. -/
theorem Proceeds.timers (timers : List Timer)
    (htask : ∀ t, .task t ∈ timers ↔ .task t ∈ st.timers)
    (haccept : ∀ t, .requesterAccept t ∈ timers → .requesterAccept t ∈ st.timers) :
    Proceeds p st { st with timers } :=
  { Continues.quiet _ _ _ _ _ _ _ _ _ _ with
    nextId_le := Nat.le_refl _
    tasks := fun _ => id
    attended := fun t _ _ h => h.of_le (htask t).mpr (fun _ hf _ => hf) id
    begun := fun t h => by
      simp only [Begun, htask] at h ⊢
      exact Or.inl (h.imp_right (Or.imp_right (Or.imp_left (haccept t))))
    expecting := fun _ => id
    openMatches := fun _ => Or.inl }

/-- A timer no longer counts: the task it is about may be left without one. -/
theorem Proceeds.dropTimer {timers : List Timer} {timer : Timer}
    (hsub : ∀ x ∈ timers, x ∈ st.timers) (hkeep : ∀ x ∈ st.timers, x ≠ timer → x ∈ timers) :
    Proceeds (fun t => timer = .task t) st { st with timers } :=
  { Continues.quiet _ _ _ _ _ _ _ _ _ _ with
    nextId_le := Nat.le_refl _
    tasks := fun _ => id
    attended := fun _ _ hp h =>
      h.of_le (fun ht => hkeep _ ht fun heq => hp heq.symm) (fun _ hf _ => hf) id
    begun := fun _ h => Or.inl (h.imp_right (Or.imp_right (Or.imp (hsub _) (Or.imp_left (hsub _)))))
    expecting := fun _ => id
    openMatches := fun _ => Or.inl }

/-- A message that answers no request. -/
theorem Proceeds.messageRequester {requesterId : String} {message : ToRequester}
    (h : ∀ r, answersRequest r message = false) :
    Proceeds p st (st.messageRequester requesterId message) where
  nextId := rfl
  requested := rfl
  offered := rfl
  matched := rfl
  pendingTaskRequests := rfl
  pendingTaskOffers := .refl _
  openMatches_perm := .refl _
  answers r := by simp [answers_messageRequester, h]
  keys _ := id
  nextId_le := Nat.le_refl _
  tasks _ := id
  attended _ _ _ := id
  begun _ := Or.inl
  expecting _ := id
  openMatches _ := Or.inl

theorem Proceeds.deleteTask (taskId : NanoId) : Proceeds p st (st.deleteTask taskId) where
  nextId := rfl
  requested := rfl
  offered := rfl
  matched := rfl
  pendingTaskRequests := rfl
  pendingTaskOffers := .refl _
  openMatches_perm := .refl _
  answers _ := rfl
  keys _ ht := (InsertionMap.mem_keys_erase.mp ht).1
  nextId_le := Nat.le_refl _
  tasks _ ht := (InsertionMap.mem_keys_erase.mp ht).1
  attended _ _ _ := id
  begun _ := Or.inl
  expecting _ := id
  openMatches _ := Or.inl

theorem Begun.of_suspended (hmem : handler ∈ st.suspended) (h : handler.begun = some taskId) :
    st.Begun taskId :=
  Or.inr (Or.inr (Or.inr (Or.inr ⟨handler, hmem, h⟩)))

/-- Suspend a handler that waits for no runner's answer. -/
theorem Continues.suspend (hmatching : handler.matching = none) :
    Continues st (st.suspend handler) where
  nextId := rfl
  requested := rfl
  offered := rfl
  matched := rfl
  pendingTaskRequests := rfl
  pendingTaskOffers := .refl _
  openMatches_perm := by
    rw [openMatches_suspend, hmatching, Option.toList_none, List.append_nil]
  answers _ := rfl
  keys _ := id

/-- Suspend a handler that waits for no runner's answer: its task is there. -/
theorem Proceeds.suspend (hmatching : handler.matching = none)
    (hbegun : ∀ t, handler.begun = some t → st.Begun t ∨ t ∈ st.tasks.keys) :
    Proceeds p st (st.suspend handler) :=
  { Continues.suspend hmatching with
    nextId_le := Nat.le_refl _
    tasks := fun _ => id
    attended := fun t _ _ h => h.of_le id (fun f hf _ => List.mem_append_left _ hf) id
    begun := fun t h => by
      rcases h with h | h | h | h | ⟨f, hf, ht⟩
      · exact Or.inl (Or.inl h)
      · exact Or.inl (Or.inr (Or.inl h))
      · exact Or.inl (Or.inr (Or.inr (Or.inl h)))
      · exact Or.inl (Or.inr (Or.inr (Or.inr (Or.inl h))))
      · rcases List.mem_append.mp hf with hf | hf
        · exact Or.inl (.of_suspended hf ht)
        · exact hbegun t (List.mem_singleton.mp hf ▸ ht)
    expecting := fun _ => id
    openMatches := fun m hm => by
      rw [openMatches_suspend, hmatching, Option.toList_none, List.append_nil] at hm
      exact Or.inl hm }

/-- A suspended handler goes on: its task may be left without one. -/
theorem Proceeds.takeHandler (hmem : handler ∈ st.suspended) (hmatching : handler.matching = none) :
    Proceeds (fun t => handler.begun = some t) st (st.takeHandler handler) where
  nextId := rfl
  requested := rfl
  offered := rfl
  matched := rfl
  pendingTaskRequests := rfl
  pendingTaskOffers := .refl _
  openMatches_perm := openMatches_takeHandler hmem hmatching
  answers _ := rfl
  keys _ := id
  nextId_le := Nat.le_refl _
  tasks _ := id
  attended t _ hp h := by
    refine h.of_le id (fun f hf hbegun => (List.mem_erase_of_ne ?_).mpr hf) id
    rintro rfl
    exact hp hbegun
  begun t h := by
    refine Or.inl (h.imp_right (Or.imp_right (Or.imp_right (Or.imp_right ?_))))
    rintro ⟨f, hf, ht⟩
    exact ⟨f, List.mem_of_mem_erase hf, ht⟩
  expecting _ := id
  openMatches m hm := Or.inl ((openMatches_takeHandler hmem hmatching).mem_iff.mp hm)

/-- Offers go. -/
theorem Proceeds.offers {offers : List TaskOffer} (h : offers.Sublist st.pendingTaskOffers) :
    Proceeds p st { st with pendingTaskOffers := offers } where
  nextId := rfl
  requested := rfl
  offered := rfl
  matched := rfl
  pendingTaskRequests := rfl
  pendingTaskOffers := h
  openMatches_perm := .refl _
  answers _ := rfl
  keys _ := id
  nextId_le := Nat.le_refl _
  tasks _ := id
  attended _ _ _ := id
  begun _ := Or.inl
  expecting _ := id
  openMatches _ := Or.inl

/-- The timer of a task is armed: the task is there. -/
theorem Proceeds.armTask (h : taskId ∈ st.tasks.keys) :
    Proceeds p st (st.setTimeout (.task taskId)) :=
  { Continues.quiet _ _ _ _ _ _ _ _ _ _ with
    nextId_le := Nat.le_refl _
    tasks := fun _ => id
    attended := fun _ _ _ hst => hst.of_le (List.mem_append_left _) (fun _ hf _ => hf) id
    begun := fun t ht => by
      simp only [Begun, TaskBroker.setTimeout, List.mem_append, List.mem_singleton,
        Timer.task.injEq, reduceCtorEq, or_false] at ht
      rcases ht with ht | ht | ht | (ht | rfl) | ht
      · exact Or.inl (Or.inl ht)
      · exact Or.inl (Or.inr (Or.inl ht))
      · exact Or.inl (Or.inr (Or.inr (Or.inl ht)))
      · exact Or.inl (Or.inr (Or.inr (Or.inr (Or.inl ht))))
      · exact Or.inr h
      · exact Or.inl (Or.inr (Or.inr (Or.inr (Or.inr ht))))
    expecting := fun _ => id
    openMatches := fun _ => Or.inl }

/-! ### The handlers -/

theorem Proceeds.cancelTask {reason : String} : Proceeds p st (st.cancelTask taskId reason) := by
  rw [TaskBroker.cancelTask]
  split
  · exact .refl st
  · exact Proceeds.trans (.deleteTask taskId) (.quiet _ _ _ _ _ _ _)

theorem Proceeds.failTask {error : TaskFailure} : Proceeds p st (st.failTask taskId error) := by
  rw [TaskBroker.failTask]
  split
  · exact .refl st
  · exact Proceeds.trans (.deleteTask taskId) (.messageRequester fun _ => rfl)

/-- A task whose end has been sent is there until the handler goes on. -/
theorem attended_endTask {message : ToRequester}
    (h : taskId ∈ (st.endTask taskId message).tasks.keys) :
    (st.endTask taskId message).Attended taskId := by
  rw [TaskBroker.endTask] at h ⊢
  split at h
  next hget => exact absurd h (InsertionMap.get?_eq_none_iff.mp hget)
  next task hget =>
    refine Or.inr ⟨_, List.mem_append_right _ List.mem_cons_self, rfl, ?_⟩
    rintro (heq | heq) <;> cases heq

theorem Proceeds.endTask {message : ToRequester}
    (hanswers : ∀ r, answersRequest r message = false) :
    Proceeds p st (st.endTask taskId message) := by
  have hstep : Proceeds (fun t => Timer.task taskId = .task t) st (st.endTask taskId message) := by
    rw [TaskBroker.endTask]
    split
    · exact .refl st
    next task hget =>
      have hmem : taskId ∈ st.tasks.keys :=
        InsertionMap.mem_keys.mpr ⟨task, InsertionMap.get?_eq_some_iff.mp hget⟩
      have hclear : Proceeds (fun t => Timer.task taskId = .task t) st
          (st.clearTimeout (.task taskId)) :=
        .dropTimer (fun _ => List.mem_of_mem_filter)
          fun x hx hne => List.mem_filter.mpr ⟨hx, decide_eq_true hne⟩
      refine hclear.trans (Proceeds.trans (.messageRequester hanswers) (.suspend rfl ?_))
      rintro t ⟨⟩
      exact Or.inr hmem
  refine hstep.of_attended fun t ht heq _ => ?_
  obtain rfl := Timer.task.inj heq
  exact attended_endTask ht

theorem Proceeds.timeoutError : Proceeds p st (st.timeoutError taskId) :=
  .endTask fun _ => rfl

theorem Proceeds.handleTaskTimeout : Proceeds p st (st.handleTaskTimeout taskId) := by
  rw [TaskBroker.handleTaskTimeout]
  split
  · exact .refl st
  next task hget =>
    split
    · exact .timeoutError
    · refine Proceeds.trans (.quiet _ _ _ _ _ _ _) (.suspend rfl ?_)
      rintro t ⟨⟩
      exact Or.inr (InsertionMap.mem_keys.mpr ⟨task, InsertionMap.get?_eq_some_iff.mp hget⟩)

/-- A task whose timer has fired is there until the handler goes on. -/
theorem attended_handleTaskTimeout (h : taskId ∈ st.tasks.keys) :
    (st.handleTaskTimeout taskId).Attended taskId := by
  have hkeys : taskId ∈ (st.handleTaskTimeout taskId).tasks.keys := by
    rwa [tasks_handleTaskTimeout]
  rw [TaskBroker.handleTaskTimeout] at hkeys ⊢
  split at hkeys
  next hget => exact absurd h (InsertionMap.get?_eq_none_iff.mp hget)
  next task hget =>
    split at hkeys
    next hmode => exact attended_endTask hkeys
    next hmode =>
      refine Or.inr ⟨.timedOut taskId, List.mem_append_right _ List.mem_cons_self, rfl, ?_⟩
      rintro (heq | heq) <;> cases heq

theorem Proceeds.handleRunnerAccept : Proceeds p st (st.handleRunnerAccept taskId) := by
  rw [TaskBroker.handleRunnerAccept]
  split
  · exact .quiet _ _ _ _ _ _ _
  · exact .refl st

theorem Proceeds.handleRunnerReject {reason : String} :
    Proceeds p st (st.handleRunnerReject taskId reason) := by
  rw [TaskBroker.handleRunnerReject]
  split
  · exact .quiet _ _ _ _ _ _ _
  · exact .refl st

theorem Proceeds.handleRunnerDeferred : Proceeds p st (st.handleRunnerDeferred taskId) := by
  rw [TaskBroker.handleRunnerDeferred]
  split
  · exact .quiet _ _ _ _ _ _ _
  · exact .refl st

theorem Continues.handleRequesterAccept {settings : JsonValue} :
    Continues st (st.handleRequesterAccept taskId settings) := by
  rw [TaskBroker.handleRequesterAccept]
  split <;> exact .quiet _ _ _ _ _ _ _ _ _ _

theorem Proceeds.deregisterRunner {runnerId error : String} :
    Proceeds p st (st.deregisterRunner runnerId error) := by
  rw [TaskBroker.deregisterRunner]
  refine List.foldlRecOn _ _ ?_ fun u h task _ => ?_
  · have herase : Proceeds p st { st with knownRunners := st.knownRunners.erase runnerId } :=
      .quiet _ _ _ _ _ _ _
    exact herase.trans (.offers List.filter_sublist)
  · rw [failTaskOf]
    split
    · exact h.trans (Proceeds.trans .failTask .handleRunnerReject)
    · exact h

theorem Proceeds.getRunnerOrFailTask : Proceeds p st (st.getRunnerOrFailTask taskId).1 := by
  rw [TaskBroker.getRunnerOrFailTask]
  split
  · exact .refl st
  · split
    · exact .failTask
    · exact .refl st

theorem Proceeds.respond {message : ToRunner} : Proceeds p st (st.respond taskId message) := by
  rw [TaskBroker.respond]
  split
  · exact Proceeds.trans .getRunnerOrFailTask (.suspend rfl (by rintro _ ⟨⟩))
  · exact .refl st

theorem Proceeds.askRequester {message : ToRequester}
    (h : ∀ r, answersRequest r message = false) :
    Proceeds p st (st.askRequester taskId message) := by
  rw [TaskBroker.askRequester]
  split
  · exact .refl st
  · exact .messageRequester h

theorem suspend_getRunnerOrFailTask (handler : Suspended) (taskId : NanoId) (st : TaskBroker) :
    (st.getRunnerOrFailTask taskId).1.suspend handler
      = ((st.suspend handler).getRunnerOrFailTask taskId).1 := by
  rw [TaskBroker.getRunnerOrFailTask, TaskBroker.getRunnerOrFailTask]
  have htasks : (st.suspend handler).tasks = st.tasks := rfl
  have hrunners : (st.suspend handler).knownRunners = st.knownRunners := rfl
  rw [htasks, hrunners]
  rcases h : st.tasks.get? taskId with _ | task
  · rfl
  · rcases hrunner : st.knownRunners.get? task.runnerId with _ | runner
    · simp only [hrunner, TaskBroker.failTask, htasks, h]
      rfl
    · simp only [hrunner]

theorem Proceeds.sendTaskSettings {settings : JsonValue} :
    Proceeds p st (st.sendTaskSettings taskId settings) := by
  rw [TaskBroker.sendTaskSettings]
  split
  next h =>
    simp only [suspend_getRunnerOrFailTask]
    refine Proceeds.trans (.suspend rfl ?_) .getRunnerOrFailTask
    rintro t ⟨⟩
    exact Or.inr (InsertionMap.has_eq_true_iff.mp h)
  next => exact .refl st

theorem Proceeds.settingsToRunner {settings : JsonValue} {runner : TaskRunner} :
    Proceeds p st (st.settingsToRunner taskId settings runner) := by
  rw [TaskBroker.settingsToRunner]
  split
  · exact .refl st
  next task hget =>
    refine Proceeds.trans (.armTask ?_) (.quiet _ _ _ _ _ _ _)
    exact InsertionMap.mem_keys.mpr ⟨task, InsertionMap.get?_eq_some_iff.mp hget⟩

theorem Proceeds.requesterAnswered {answer : RequesterAnswer} :
    Proceeds p st (st.requesterAnswered taskId answer) := by
  rcases answer with settings | reason | _
  · exact .sendTaskSettings
  · exact .cancelTask
  · exact .cancelTask

/-! ### Going on -/

private theorem not_mem_keys_deleteTask : taskId ∉ (st.deleteTask taskId).tasks.keys :=
  fun h => (InsertionMap.mem_keys_erase.mp h).2 rfl

private theorem not_mem_keys_cancelTask {reason : String} :
    taskId ∉ (st.cancelTask taskId reason).tasks.keys := by
  rw [tasks_cancelTask]
  exact fun h => (InsertionMap.mem_keys_erase.mp h).2 rfl

private theorem attended_sendTaskSettings {settings : JsonValue}
    (h : taskId ∈ (st.sendTaskSettings taskId settings).tasks.keys) :
    (st.sendTaskSettings taskId settings).Attended taskId := by
  by_cases hhas : st.tasks.has taskId = true
  · rw [TaskBroker.sendTaskSettings, if_pos hhas]
    refine Or.inr ⟨.sendingSettings taskId settings (st.getRunnerOrFailTask taskId).2,
      List.mem_append_right _ List.mem_cons_self, rfl, ?_⟩
    rintro (heq | heq) <;> cases heq
  · rw [TaskBroker.sendTaskSettings, if_neg hhas] at h
    exact absurd (InsertionMap.has_eq_true_iff.mpr h) hhas

private theorem attended_settingsToRunner {settings : JsonValue} {runner : TaskRunner}
    (h : taskId ∈ (st.settingsToRunner taskId settings runner).tasks.keys) :
    (st.settingsToRunner taskId settings runner).Attended taskId := by
  rw [TaskBroker.settingsToRunner] at h ⊢
  split at h
  next hget => exact absurd h (InsertionMap.get?_eq_none_iff.mp hget)
  next => exact Or.inl (List.mem_append_right _ List.mem_cons_self)

/-- The requester has been called: its settings are waited for. -/
private theorem Proceeds.readySent (hmem : .readySent taskId ∈ st.suspended) :
    Proceeds p st ((st.takeHandler (.readySent taskId)).suspend (.awaitingSettings taskId)) := by
  have hswap : (st.takeHandler (.readySent taskId)).suspend (.awaitingSettings taskId)
      = (st.suspend (.awaitingSettings taskId)).takeHandler (.readySent taskId) := by
    rw [TaskBroker.takeHandler, TaskBroker.takeHandler, TaskBroker.suspend, TaskBroker.suspend,
      List.erase_append_left _ hmem]
  have hsuspend : Proceeds (fun t => (Suspended.readySent taskId).begun = some t) st
      (st.suspend (.awaitingSettings taskId)) := by
    refine .suspend rfl ?_
    rintro t ⟨⟩
    exact Or.inl (.of_suspended hmem rfl)
  have hmem' : .readySent taskId ∈ (st.suspend (.awaitingSettings taskId)).suspended :=
    List.mem_append_left _ hmem
  rw [hswap]
  refine (hsuspend.trans (.takeHandler hmem' rfl)).of_attended fun t _ heq hst => ?_
  obtain rfl := Option.some.inj heq
  rw [← hswap]
  rcases hst with htimer | ⟨f, hf, hbegun, hanswer⟩
  · exact Or.inl htimer
  · by_cases hready : f = .readySent taskId
    · refine Or.inr ⟨.awaitingSettings taskId, List.mem_append_right _ List.mem_cons_self, rfl, ?_⟩
      exact fun _ => hanswer (Or.inl hready)
    · refine Or.inr ⟨f, List.mem_append_left _ ?_, hbegun, hanswer⟩
      exact (List.mem_erase_of_ne hready).mpr hf

/-- A handler that waits for no runner's answer goes on and leaves its task attended. -/
theorem Proceeds.resume (hmem : handler ∈ st.suspended) (hmatching : handler.matching = none)
    (hr : (st.takeHandler handler).resume handler = some st') : Proceeds p st st' := by
  have htake := Proceeds.takeHandler hmem hmatching
  rcases handler with ⟨t, offer, request⟩ | ⟨t, offer, request⟩ | t | t
    | ⟨t, settings, runner | error⟩ | ⟨runner | error, message⟩ | ⟨t, called⟩ | t
  · cases hmatching
  · cases hmatching
  · obtain rfl := Option.some.inj hr
    exact .readySent hmem
  · obtain ⟨answer, hanswer, rfl⟩ := Option.map_eq_some_iff.mp hr
    refine (htake.trans .requesterAnswered).of_attended fun t' ht' heq _ => ?_
    obtain rfl := Option.some.inj heq
    rcases answer with settings | reason | _
    · exact attended_sendTaskSettings ht'
    · exact absurd ht' not_mem_keys_cancelTask
    · exact absurd ht' not_mem_keys_cancelTask
  · obtain rfl := Option.some.inj hr
    refine (htake.trans .settingsToRunner).of_attended fun t' ht' heq _ => ?_
    obtain rfl := Option.some.inj heq
    exact attended_settingsToRunner ht'
  · obtain rfl := Option.some.inj hr
    refine (htake.trans .cancelTask).of_attended fun t' ht' heq _ => ?_
    obtain rfl := Option.some.inj heq
    exact absurd ht' not_mem_keys_cancelTask
  · obtain rfl := Option.some.inj hr
    exact (htake.trans (.quiet _ _ _ _ _ _ _)).of_attended nofun
  · obtain rfl := Option.some.inj hr
    exact htake.of_attended nofun
  · obtain rfl := Option.some.inj hr
    refine (htake.trans (.deleteTask t)).of_attended fun t' ht' heq _ => ?_
    obtain rfl := Option.some.inj heq
    exact absurd ht' not_mem_keys_deleteTask
  · obtain rfl := Option.some.inj hr
    refine (htake.trans .timeoutError).of_attended fun t' ht' heq _ => ?_
    obtain rfl := Option.some.inj heq
    exact attended_endTask ht'

/-- The runner has been asked: its answer is waited for. -/
private theorem Proceeds.offerSent {offer : TaskOffer} {request : TaskRequest}
    (hmem : .offerSent taskId offer request ∈ st.suspended) :
    Proceeds p st ((st.takeHandler (.offerSent taskId offer request)).suspend
      (.awaitingRunner taskId offer request)) := by
  have hperm : ((st.takeHandler (.offerSent taskId offer request)).suspend
      (.awaitingRunner taskId offer request)).openMatches.Perm st.openMatches := by
    rw [openMatches_suspend]
    exact List.perm_append_comm.trans (openMatches_perm hmem).symm
  refine ⟨⟨rfl, rfl, rfl, rfl, rfl, .refl _, hperm, fun _ => rfl, fun _ => id⟩,
    ⟨Nat.le_refl _, fun _ => id, fun t _ _ h => ?_, fun t h => ?_, fun _ => id, fun m hm => ?_⟩⟩
  · refine h.of_le id (fun f hf hbegun => List.mem_append_left _ ?_) id
    refine (List.mem_erase_of_ne ?_).mpr hf
    rintro rfl
    cases hbegun
  · refine Or.inl (h.imp_right (Or.imp_right (Or.imp_right (Or.imp_right ?_))))
    rintro ⟨f, hf, hbegun⟩
    rcases List.mem_append.mp hf with hf | hf
    · exact ⟨f, List.mem_of_mem_erase hf, hbegun⟩
    · rw [List.mem_singleton.mp hf] at hbegun
      cases hbegun
  · exact Or.inl (hperm.mem_iff.mp hm)

theorem has_settleRequesterAnswer {t : NanoId} {answer : RequesterAnswer} :
    (st.settleRequesterAnswer taskId answer).requesterAnswers.has t = true ↔
      st.requesterAnswers.has t = true ∨ t = taskId := by
  rw [settleRequesterAnswer]
  by_cases h : st.requesterAnswers.has taskId = true
  · rw [if_pos h]
    refine (or_iff_left_of_imp ?_).symm
    rintro rfl
    exact h
  · rw [if_neg h, InsertionMap.has_eq_true_iff, InsertionMap.mem_keys_set, or_comm,
      InsertionMap.has_eq_true_iff]

/-- The requester has not sent settings in time. -/
private theorem Proceeds.requesterTimedOut (hmem : .requesterAccept taskId ∈ st.timers) :
    Proceeds p st ((st.takeTimer (.requesterAccept taskId)).settleRequesterAnswer taskId
      .timedOut) := by
  have htimer : ∀ timer, timer ∈ st.timers.erase (.requesterAccept taskId) → timer ∈ st.timers :=
    fun _ => List.mem_of_mem_erase
  refine ⟨.quiet _ _ _ _ _ _ _ _ _ _,
    ⟨Nat.le_refl _, fun _ => id, fun t _ _ h => ?_, fun t h => ?_, fun _ => id, fun _ => Or.inl⟩⟩
  · refine h.of_le ?_ (fun _ hf _ => hf)
      (Or.imp_right fun h => has_settleRequesterAnswer.mpr (Or.inl h))
    exact fun ht => (List.mem_erase_of_ne (by simp)).mpr ht
  · rcases h with h | h | h | h | h
    · exact Or.inl (Or.inl h)
    · rcases has_settleRequesterAnswer.mp h with h | rfl
      · exact Or.inl (Or.inr (Or.inl h))
      · exact Or.inl (Or.inr (Or.inr (Or.inl hmem)))
    · exact Or.inl (Or.inr (Or.inr (Or.inl (htimer _ h))))
    · exact Or.inl (Or.inr (Or.inr (Or.inr (Or.inl (htimer _ h)))))
    · exact Or.inl (Or.inr (Or.inr (Or.inr (Or.inr h))))

/-- The events that matching, and what is waited for, consist of: requests, offers and
settings come, requests expire, runners answer. -/
inductive Event.IsMatching : Event → Prop
  | taskOffer (runnerId : String) (offerId : NanoId) (taskType : String) (validFor : ℤ) :
    IsMatching (.runnerMessage runnerId (.taskOffer offerId taskType validFor))
  | taskRequest (requesterId : String) (requestId : NanoId) (taskType : String) :
    IsMatching (.requesterMessage requesterId (.taskRequest requestId taskType))
  | taskSettings (requesterId : String) (taskId : NanoId) (settings : JsonValue) :
    IsMatching (.requesterMessage requesterId (.taskSettings taskId settings))
  | requestTimeout (requestId : NanoId) : IsMatching (.timer (.request requestId))
  | runnerAnswer (taskId : NanoId) (offer : TaskOffer) (request : TaskRequest) :
    IsMatching (.resume (.awaitingRunner taskId offer request))

private theorem Proceeds.takeTimer {timer : Timer} :
    Proceeds (fun t => timer = .task t) st (st.takeTimer timer) :=
  .dropTimer (fun _ => List.mem_of_mem_erase) fun _ hx hne => (List.mem_erase_of_ne hne).mpr hx

private theorem Proceeds.fire {timer : Timer} (hmem : timer ∈ st.timers)
    (htimer : ∀ r, timer ≠ .request r) : Proceeds p st ((st.takeTimer timer).fire timer) := by
  rcases timer with requestId | taskId | taskId | taskId
  · exact absurd rfl (htimer requestId)
  · exact (Proceeds.takeTimer.trans (.quiet _ _ _ _ _ _ _)).of_attended nofun
  · exact .requesterTimedOut hmem
  · refine (Proceeds.takeTimer.trans .handleTaskTimeout).of_attended fun t ht heq _ => ?_
    obtain rfl := Timer.task.inj heq
    rw [tasks_handleTaskTimeout] at ht
    exact attended_handleTaskTimeout ht

private theorem Proceeds.onRunnerMessage {runnerId : String} {message : RunnerMessage.ToBroker}
    (h : ¬(Event.runnerMessage runnerId message).IsMatching) :
    Proceeds p st (st.onRunnerMessage runnerId message) := by
  rw [TaskBroker.onRunnerMessage.eq_def]
  split
  case isFalse => exact .refl st
  rcases message with _ | t | ⟨t, reason⟩ | t | ⟨t, data⟩ | ⟨t, error⟩ | _ | ⟨t, _⟩ | ⟨t, _⟩
    | ⟨_, t⟩
  · exact .refl st
  · exact .handleRunnerAccept
  · exact .handleRunnerReject
  · exact .handleRunnerDeferred
  · exact .endTask fun _ => rfl
  · exact .endTask fun _ => rfl
  · exact absurd (.taskOffer _ _ _ _) h
  all_goals exact .askRequester fun _ => rfl

private theorem Proceeds.onRequesterMessage {requesterId : String}
    {message : RequesterMessage.ToBroker}
    (h : ¬(Event.requesterMessage requesterId message).IsMatching) :
    Proceeds p st (st.onRequesterMessage requesterId message) := by
  rcases message with ⟨t, settings⟩ | ⟨t, reason⟩ | ⟨t, _⟩ | ⟨t, _⟩ | ⟨t, _⟩ | ⟨requestId, taskType⟩
  · exact absurd (.taskSettings _ _ _) h
  · exact .cancelTask
  · exact .respond
  · exact .respond
  · exact .respond
  · exact absurd (.taskRequest _ _ _) h

/-- **What every other step leaves alone.** -/
theorem Proceeds.step {e : Event} (he : ¬e.IsMatching) (hstep : st.Step e st') :
    Proceeds p st st' := by
  rw [Step] at hstep
  rcases e with runner | ⟨runnerId, error⟩ | requesterId | requesterId | ⟨runnerId, message⟩
    | ⟨requesterId, message⟩ | timer | handler | _ | now
  · obtain rfl := Option.some.inj hstep
    exact .quiet _ _ _ _ _ _ _
  · obtain rfl := Option.some.inj hstep
    exact .deregisterRunner
  · obtain rfl := Option.some.inj hstep
    exact .quiet _ _ _ _ _ _ _
  · obtain rfl := Option.some.inj hstep
    exact .quiet _ _ _ _ _ _ _
  · obtain rfl := Option.some.inj hstep
    exact .onRunnerMessage he
  · obtain ⟨-, heq⟩ := Option.ite_none_right_eq_some.mp hstep
    obtain rfl := Option.some.inj heq
    exact .onRequesterMessage he
  · obtain ⟨hmem, heq⟩ := Option.ite_none_right_eq_some.mp hstep
    obtain rfl := Option.some.inj heq
    refine .fire hmem ?_
    rintro r rfl
    exact he (.requestTimeout r)
  · obtain ⟨hmem, hr⟩ := Option.ite_none_right_eq_some.mp hstep
    by_cases hmatching : handler.matching = none
    · exact .resume hmem hmatching hr
    · rcases handler with _ | _ | _ | _ | _ | _ | _ | _
      · obtain rfl := Option.some.inj hr
        exact .offerSent hmem
      · exact absurd (.runnerAnswer _ _ _) he
      all_goals exact absurd rfl hmatching
  · obtain rfl := Option.some.inj hstep
    exact .quiet _ _ _ _ _ _ _
  · obtain ⟨-, heq⟩ := Option.ite_none_right_eq_some.mp hstep
    obtain rfl := Option.some.inj heq
    exact .quiet _ _ _ _ _ _ _

end N8n.TaskBroker
