import N8n.Foundations.Transition
import N8n.TaskRunners.BrokerInvariant

/-!
# How often a requester learns that its task ended

A task ends with `taskdone` or `taskerror`. `failTask` takes the task out of `tasks` before
it calls the requester; `taskDoneHandler` and `taskErrorHandler` call the requester first
and take the task out when the call has returned. A handler that runs in between finds the
task again and ends it once more. `terminalMessages_once_iff` says that this is the only way
to a second terminal message.
-/

namespace N8n.TaskBroker

open BrokerMessage Transition

variable {st st' u : TaskBroker} {taskId : NanoId} {handler : Suspended}

/-- Whether a message to a requester says that a task has ended. -/
def isTerminal (taskId : NanoId) : ToRequester → Bool
  | .taskDone t _ | .taskError t _ => t = taskId
  | _ => false

/-- How many terminal messages for a task were handed to its requester. -/
def terminals (taskId : NanoId) (st : TaskBroker) : ℕ :=
  st.toRequesters.countP fun m => isTerminal taskId m.2

/-- The promise of the broker: no task ends twice. -/
def EndsOnce (st : TaskBroker) : Prop := ∀ t, terminals t st ≤ 1

/-- The task is there, and its requester has a callback to be told with. -/
def Notifies (st : TaskBroker) (taskId : NanoId) : Prop :=
  ∃ task, st.tasks.get? taskId = some task ∧ task.requesterId ∈ st.requesters

/-- The runner of the task is not known. -/
def LacksRunner (st : TaskBroker) (taskId : NanoId) : Prop :=
  ∃ task, st.tasks.get? taskId = some task ∧ st.knownRunners.get? task.runnerId = none

/-- The tasks that a step is about to end: it calls `taskDoneHandler`, `taskErrorHandler`
or `failTask` for them. -/
def Ends (st : TaskBroker) : Event → NanoId → Prop
  | .deregisterRunner runnerId _, t =>
    ∃ task, st.tasks.get? t = some task ∧ task.runnerId = runnerId
  | .runnerMessage runnerId (.taskDone taskId _), t
  | .runnerMessage runnerId (.taskError taskId _), t =>
    st.knownRunners.has runnerId = true ∧ t = taskId
  | .requesterMessage _ (.taskDataResponse taskId _ _), t
  | .requesterMessage _ (.nodeTypesResponse taskId _ _), t
  | .requesterMessage _ (.rpcResponse taskId _ _ _), t => t = taskId ∧ st.LacksRunner taskId
  | .timer (.task taskId), t => t = taskId ∧ st.mode = .internal
  | .resume (.awaitingSettings taskId), t =>
    t = taskId ∧ st.LacksRunner taskId ∧
      ∃ settings, st.requesterAnswers.get? taskId = some (.accepted settings)
  | .resume (.timedOut taskId), t => t = taskId
  | _, _ => False

/-- The condition under which no task ends twice: no step ends a task whose requester has
been called by a handler that is still suspended in this call. -/
def EndsNoEndingTask (st : TaskBroker) (e : Event) : Prop :=
  ∀ t, st.Ends e t → st.Notifies t → .ending t true ∉ st.suspended

/-! ### Which tasks a handler ends -/

/-- From `st` to `st'`, the requesters of exactly the tasks in `ended` are told. -/
structure Tells (ended : NanoId → Prop) (st st' : TaskBroker) : Prop where
  nextId_le : st.nextId ≤ st'.nextId
  terminals_eq : ∀ t, ¬ended t → terminals t st' = terminals t st
  terminals_succ : ∀ t, ended t → terminals t st' = terminals t st + 1
  mem_tasks : ∀ t, ended t → t ∈ st.tasks.keys
  tasks : ∀ t ∈ st'.tasks.keys, t ∈ st.tasks.keys
  gone_or_ending : ∀ t, ended t ∨ .ending t true ∈ st.suspended →
    t ∉ st'.tasks.keys ∨ .ending t true ∈ st'.suspended
  ending : ∀ t, .ending t true ∈ st'.suspended → .ending t true ∈ st.suspended ∨ ended t
  offered : ∀ f ∈ st'.suspended, ∀ t, f.offered = some t →
    (∃ f ∈ st.suspended, f.offered = some t) ∨ st.nextId ≤ t

/-- A handler that tells nobody: it may take tasks away. -/
theorem Tells.quiet (hid : st.nextId = st'.nextId) (hsent : st'.toRequesters = st.toRequesters)
    (htasks : ∀ t ∈ st'.tasks.keys, t ∈ st.tasks.keys) (hsuspended : st'.suspended = st.suspended) :
    Tells (fun _ => False) st st' where
  nextId_le := hid.le
  terminals_eq t _ := by rw [terminals, hsent, terminals]
  terminals_succ _ := False.elim
  mem_tasks _ := False.elim
  tasks := htasks
  gone_or_ending t ht := Or.inr (hsuspended ▸ ht.resolve_left id)
  ending t ht := Or.inl (hsuspended ▸ ht)
  offered f hf t ht := Or.inl ⟨f, hsuspended ▸ hf, ht⟩

theorem Tells.refl (st : TaskBroker) : Tells (fun _ => False) st st :=
  .quiet rfl rfl (fun _ => id) rfl

theorem Tells.congr {p q : NanoId → Prop} (h : Tells p st st') (hpq : ∀ t, p t ↔ q t) :
    Tells q st st' := by
  have heq : p = q := funext fun t => propext (hpq t)
  exact heq ▸ h

/-- One handler after the other, when no task is ended by both. -/
theorem Tells.trans {p q : NanoId → Prop} (h : Tells p st u) (h' : Tells q u st')
    (hdisjoint : ∀ t, p t → ¬q t) : Tells (fun t => p t ∨ q t) st st' where
  nextId_le := h.nextId_le.trans h'.nextId_le
  terminals_eq t ht := by
    rw [not_or] at ht
    exact (h'.terminals_eq t ht.2).trans (h.terminals_eq t ht.1)
  terminals_succ t ht := by
    rcases ht with ht | ht
    · rw [h'.terminals_eq t (hdisjoint t ht), h.terminals_succ t ht]
    · rw [h'.terminals_succ t ht, h.terminals_eq t fun hp => hdisjoint t hp ht]
  mem_tasks t ht := ht.elim (h.mem_tasks t) fun ht => h.tasks t (h'.mem_tasks t ht)
  tasks t ht := h.tasks t (h'.tasks t ht)
  gone_or_ending t ht := by
    by_cases hq : q t
    · exact h'.gone_or_ending t (Or.inl hq)
    · have hp : p t ∨ .ending t true ∈ st.suspended :=
        ht.imp_left fun ht => ht.resolve_right hq
      rcases h.gone_or_ending t hp with hgone | hending
      · exact Or.inl fun hmem => hgone (h'.tasks t hmem)
      · exact h'.gone_or_ending t (Or.inr hending)
  ending t ht := by
    rcases h'.ending t ht with ht | ht
    · exact (h.ending t ht).imp_right Or.inl
    · exact Or.inr (Or.inr ht)
  offered f hf t ht := by
    rcases h'.offered f hf t ht with ⟨g, hg, ht⟩ | hle
    · exact h.offered g hg t ht
    · exact Or.inr (h.nextId_le.trans hle)

theorem Tells.trans_quiet {p : NanoId → Prop} (h : Tells p st u)
    (h' : Tells (fun _ => False) u st') : Tells p st st' :=
  (h.trans h' fun _ _ => id).congr fun _ => or_iff_left id

theorem Tells.quiet_trans {p : NanoId → Prop} (h : Tells (fun _ => False) st u)
    (h' : Tells p u st') : Tells p st st' :=
  (h.trans h' fun _ => False.elim).congr fun _ => or_iff_right id

/-- Suspend a handler that is not about the end of a task: the task it offers is new. -/
theorem Tells.suspend (hending : ∀ t, handler ≠ .ending t true)
    (hoffered : ∀ t, handler.offered = some t → st.nextId ≤ t) :
    Tells (fun _ => False) st (st.suspend handler) where
  nextId_le := le_rfl
  terminals_eq _ _ := rfl
  terminals_succ _ := False.elim
  mem_tasks _ := False.elim
  tasks _ := id
  gone_or_ending t ht := Or.inr (List.mem_append_left _ (ht.resolve_left id))
  ending t ht := by
    rcases List.mem_append.mp ht with ht | ht
    · exact Or.inl ht
    · exact absurd (List.mem_singleton.mp ht).symm (hending t)
  offered f hf t ht := by
    rcases List.mem_append.mp hf with hf | hf
    · exact Or.inl ⟨f, hf, ht⟩
    · exact Or.inr (hoffered t (List.mem_singleton.mp hf ▸ ht))

theorem terminals_messageRequester (t : NanoId) (requesterId : String) (message : ToRequester) :
    terminals t (st.messageRequester requesterId message) = terminals t st +
      if requesterId ∈ st.requesters ∧ isTerminal t message = true then 1 else 0 := by
  rw [terminals, messageRequester]
  by_cases hmem : requesterId ∈ st.requesters
  · simp only [hmem, if_true, List.countP_append, List.countP_singleton, true_and]
    rfl
  · simp only [hmem, false_and, if_false]
    rfl

/-- Any other message tells nobody that a task ended. -/
theorem Tells.messageRequester {requesterId : String} {message : ToRequester}
    (h : ∀ t, isTerminal t message = false) :
    Tells (fun _ => False) st (st.messageRequester requesterId message) where
  nextId_le := le_rfl
  terminals_eq t _ := by simp [terminals_messageRequester, h]
  terminals_succ _ := False.elim
  mem_tasks _ := False.elim
  tasks _ := id
  gone_or_ending t ht := Or.inr (ht.resolve_left id)
  ending t ht := Or.inl ht
  offered f hf t ht := Or.inl ⟨f, hf, ht⟩

theorem Notifies.mem_keys (h : st.Notifies taskId) : taskId ∈ st.tasks.keys := by
  obtain ⟨task, htask, -⟩ := h
  exact InsertionMap.mem_keys.mpr ⟨task, InsertionMap.get?_eq_some_iff.mp htask⟩

theorem Tells.cancelTask {reason : String} :
    Tells (fun _ => False) st (st.cancelTask taskId reason) := by
  have htasks : ∀ t ∈ (st.cancelTask taskId reason).tasks.keys, t ∈ st.tasks.keys := by
    intro t ht
    rw [tasks_cancelTask] at ht
    exact (InsertionMap.mem_keys_erase.mp ht).1
  refine .quiet ?_ ?_ htasks ?_
  all_goals
    rw [TaskBroker.cancelTask]
    split <;> rfl

theorem Tells.failTask {error : TaskFailure} :
    Tells (fun t => t = taskId ∧ st.Notifies t) st (st.failTask taskId error) := by
  rcases hget : st.tasks.get? taskId with _ | task
  · have heq : st.failTask taskId error = st := by
      rw [TaskBroker.failTask, hget]
    have hnot : ∀ t, ¬(t = taskId ∧ st.Notifies t) := by
      rintro t ⟨rfl, task, htask, -⟩
      rw [hget] at htask
      cases htask
    rw [heq]
    exact (Tells.refl st).congr fun t => iff_of_false id (hnot t)
  · have heq : st.failTask taskId error
        = (st.deleteTask taskId).messageRequester task.requesterId (.taskError taskId error) := by
      rw [TaskBroker.failTask, hget]
    have hnotifies : ∀ t, (t = taskId ∧ st.Notifies t) ↔
        (task.requesterId ∈ st.requesters ∧ isTerminal t (.taskError taskId error) = true) := by
      intro t
      constructor
      · rintro ⟨rfl, task', htask', hmem⟩
        obtain rfl := Option.some.inj (hget.symm.trans htask')
        exact ⟨hmem, decide_eq_true rfl⟩
      · rintro ⟨hmem, hterminal⟩
        obtain rfl : taskId = t := of_decide_eq_true hterminal
        exact ⟨rfl, task, hget, hmem⟩
    rw [heq]
    refine ⟨le_rfl, fun t ht => ?_, fun t ht => ?_, fun t ht => ht.2.mem_keys,
      fun t ht => (InsertionMap.mem_keys_erase.mp ht).1, fun t ht => ?_, fun t ht => Or.inl ht,
      fun f hf t ht => Or.inl ⟨f, hf, ht⟩⟩
    · rw [terminals_messageRequester]
      exact congrArg (terminals t st + ·) (if_neg fun h => ht ((hnotifies t).mpr h))
    · rw [terminals_messageRequester]
      exact congrArg (terminals t st + ·) (if_pos ((hnotifies t).mp ht))
    · rcases ht with ⟨rfl, -⟩ | ht
      · exact Or.inl fun hmem => (InsertionMap.mem_keys_erase.mp hmem).2 rfl
      · exact Or.inr ht

/-- `taskDoneHandler` and `taskErrorHandler` tell the requester and are suspended. -/
theorem Tells.endTask {message : ToRequester}
    (hmessage : ∀ t, isTerminal t message = true ↔ t = taskId) :
    Tells (fun t => t = taskId ∧ st.Notifies t) st (st.endTask taskId message) := by
  rcases hget : st.tasks.get? taskId with _ | task
  · have heq : st.endTask taskId message = st := by
      rw [TaskBroker.endTask, hget]
    have hnot : ∀ t, ¬(t = taskId ∧ st.Notifies t) := by
      rintro t ⟨rfl, task, htask, -⟩
      rw [hget] at htask
      cases htask
    rw [heq]
    exact (Tells.refl st).congr fun t => iff_of_false id (hnot t)
  · have heq : st.endTask taskId message = ((st.clearTimeout (.task taskId)).messageRequester
        task.requesterId message).suspend
          (.ending taskId (task.requesterId ∈ st.requesters)) := by
      rw [TaskBroker.endTask, hget]
    have hnotifies : ∀ t, (t = taskId ∧ st.Notifies t) ↔
        (task.requesterId ∈ st.requesters ∧ isTerminal t message = true) := by
      intro t
      rw [hmessage]
      constructor
      · rintro ⟨rfl, task', htask', hmem⟩
        obtain rfl := Option.some.inj (hget.symm.trans htask')
        exact ⟨hmem, rfl⟩
      · rintro ⟨hmem, rfl⟩
        exact ⟨rfl, task, hget, hmem⟩
    have hterminals : ∀ t, terminals t (st.endTask taskId message) = terminals t st +
        if task.requesterId ∈ st.requesters ∧ isTerminal t message = true then 1 else 0 := by
      intro t
      rw [heq]
      exact terminals_messageRequester t _ _
    refine ⟨le_of_eq (by rw [heq]; rfl), fun t ht => ?_, fun t ht => ?_,
      fun t ht => ht.2.mem_keys, fun t ht => by rwa [tasks_endTask] at ht, fun t ht => ?_,
      fun t ht => ?_, fun f hf t ht => ?_⟩
    · rw [hterminals, if_neg fun h => ht ((hnotifies t).mpr h), Nat.add_zero]
    · rw [hterminals, if_pos ((hnotifies t).mp ht)]
    · rw [heq]
      refine Or.inr (List.mem_append.mpr ?_)
      rcases ht with ht | ht
      · obtain ⟨hmem, hterminal⟩ := (hnotifies t).mp ht
        rw [ht.1, decide_eq_true hmem]
        exact Or.inr List.mem_cons_self
      · exact Or.inl ht
    · rw [heq] at ht
      rcases List.mem_append.mp ht with ht | ht
      · exact Or.inl ht
      · obtain ⟨rfl, hcalled⟩ := Suspended.ending.inj (List.mem_singleton.mp ht)
        exact Or.inr ((hnotifies t).mpr ⟨of_decide_eq_true hcalled.symm, (hmessage t).mpr rfl⟩)
    · rw [heq] at hf
      rcases List.mem_append.mp hf with hf | hf
      · exact Or.inl ⟨f, hf, ht⟩
      · rw [List.mem_singleton.mp hf] at ht
        cases ht

private theorem isTerminal_taskDone {data : JsonValue} (t : NanoId) :
    isTerminal t (.taskDone taskId data) = true ↔ t = taskId :=
  decide_eq_true_iff.trans eq_comm

private theorem isTerminal_taskError {error : TaskFailure} (t : NanoId) :
    isTerminal t (.taskError taskId error) = true ↔ t = taskId :=
  decide_eq_true_iff.trans eq_comm

theorem Tells.handleRunnerReject {reason : String} :
    Tells (fun _ => False) st (st.handleRunnerReject taskId reason) := by
  rw [TaskBroker.handleRunnerReject]
  split
  · exact .quiet rfl rfl (fun _ => id) rfl
  · exact .refl st

theorem Tells.handleRunnerAccept :
    Tells (fun _ => False) st (st.handleRunnerAccept taskId) := by
  rw [TaskBroker.handleRunnerAccept]
  split
  · exact .quiet rfl rfl (fun _ => id) rfl
  · exact .refl st

theorem Tells.handleRunnerDeferred :
    Tells (fun _ => False) st (st.handleRunnerDeferred taskId) := by
  rw [TaskBroker.handleRunnerDeferred]
  split
  · exact .quiet rfl rfl (fun _ => id) rfl
  · exact .refl st

theorem Tells.handleRequesterAccept {settings : JsonValue} :
    Tells (fun _ => False) st (st.handleRequesterAccept taskId settings) := by
  rw [TaskBroker.handleRequesterAccept]
  split
  · exact .quiet rfl rfl (fun _ => id) rfl
  · exact .refl st

theorem Tells.askRequester {message : ToRequester} (h : ∀ t, isTerminal t message = false) :
    Tells (fun _ => False) st (st.askRequester taskId message) := by
  rw [TaskBroker.askRequester]
  split
  · exact .refl st
  · exact .messageRequester h

theorem Tells.acceptOffer {offer : TaskOffer} {request : TaskRequest} :
    Tells (fun _ => False) st (st.acceptOffer offer request) where
  nextId_le := Nat.le_succ _
  terminals_eq _ _ := rfl
  terminals_succ _ := False.elim
  mem_tasks _ := False.elim
  tasks _ := id
  gone_or_ending t ht := Or.inr (List.mem_append_left _ (ht.resolve_left id))
  ending t ht := by
    rcases List.mem_append.mp ht with ht | ht
    · exact Or.inl ht
    · cases List.mem_singleton.mp ht
  offered f hf t ht := by
    rcases List.mem_append.mp hf with hf | hf
    · exact Or.inl ⟨f, hf, ht⟩
    · rw [List.mem_singleton.mp hf] at ht
      exact Or.inr (Option.some.inj ht).le

theorem Tells.settleTasks : Tells (fun _ => False) st st.settleTasks := by
  rw [TaskBroker.settleTasks]
  refine List.foldlRecOn _ _ (.quiet rfl rfl (fun _ => id) rfl) fun u h request _ => ?_
  rw [settleRequest]
  split
  · exact h
  · split
    · exact h
    · refine h.trans_quiet (Tells.quiet_trans ?_ .acceptOffer)
      exact .quiet rfl rfl (fun _ => id) rfl

theorem Tells.taskRequested {request : TaskRequest} :
    Tells (fun _ => False) st (st.taskRequested request) := by
  rw [TaskBroker.taskRequested]
  split
  · refine Tells.quiet_trans ?_ (.messageRequester fun _ => rfl)
    exact .quiet rfl rfl (fun _ => id) rfl
  · refine Tells.quiet_trans ?_ .settleTasks
    exact .quiet rfl rfl (fun _ => id) rfl

theorem Tells.handleRequestTimeout {requestId : NanoId} :
    Tells (fun _ => False) st (st.handleRequestTimeout requestId) := by
  rw [TaskBroker.handleRequestTimeout]
  split
  · exact .refl st
  · refine Tells.quiet_trans ?_ (.messageRequester fun _ => rfl)
    exact .quiet rfl rfl (fun _ => id) rfl

theorem Tells.timeoutError :
    Tells (fun t => t = taskId ∧ st.Notifies t) st (st.timeoutError taskId) :=
  .endTask isTerminal_taskError

theorem Tells.handleTaskTimeout :
    Tells (fun t => (t = taskId ∧ st.mode = .internal) ∧ st.Notifies t) st
      (st.handleTaskTimeout taskId) := by
  rw [TaskBroker.handleTaskTimeout]
  split
  next hget =>
    refine (Tells.refl st).congr fun t => iff_of_false id ?_
    rintro ⟨⟨rfl, -⟩, task, htask, -⟩
    cases hget.symm.trans htask
  next =>
    split
    next hmode =>
      exact Tells.timeoutError.congr fun t => by simp [hmode]
    next hmode =>
      refine Tells.congr (Tells.quiet_trans ?_ (.suspend (by rintro _ ⟨⟩) (by rintro _ ⟨⟩)))
        fun t => ?_
      · exact .quiet rfl rfl (fun _ => id) rfl
      · simp [hmode]

theorem Tells.getRunnerOrFailTask :
    Tells (fun t => (t = taskId ∧ st.LacksRunner taskId) ∧ st.Notifies t) st
      (st.getRunnerOrFailTask taskId).1 := by
  rw [TaskBroker.getRunnerOrFailTask]
  split
  next hget =>
    refine (Tells.refl st).congr fun t => iff_of_false id ?_
    rintro ⟨⟨rfl, -⟩, task, htask, -⟩
    cases hget.symm.trans htask
  next task hget =>
    split
    next hrunner =>
      refine Tells.failTask.congr fun t => and_congr_left fun _ => ?_
      exact (and_iff_left_of_imp fun _ => ⟨task, hget, hrunner⟩).symm
    next runner hrunner =>
      refine (Tells.refl st).congr fun t => iff_of_false id ?_
      rintro ⟨⟨-, task', htask', hnone⟩, -⟩
      obtain rfl := Option.some.inj (hget.symm.trans htask')
      cases hrunner.symm.trans hnone

theorem Tells.respond {message : ToRunner} :
    Tells (fun t => (t = taskId ∧ st.LacksRunner taskId) ∧ st.Notifies t) st
      (st.respond taskId message) := by
  rw [TaskBroker.respond]
  split
  next => exact Tells.trans_quiet .getRunnerOrFailTask (.suspend (by rintro _ ⟨⟩) (by rintro _ ⟨⟩))
  next hhas =>
    refine (Tells.refl st).congr fun t => iff_of_false id ?_
    rintro ⟨⟨rfl, -⟩, hnotifies⟩
    exact hhas (InsertionMap.has_eq_true_iff.mpr hnotifies.mem_keys)

theorem Tells.sendTaskSettings {settings : JsonValue} :
    Tells (fun t => (t = taskId ∧ st.LacksRunner taskId) ∧ st.Notifies t) st
      (st.sendTaskSettings taskId settings) := by
  rw [TaskBroker.sendTaskSettings]
  split
  next => exact Tells.trans_quiet .getRunnerOrFailTask (.suspend (by rintro _ ⟨⟩) (by rintro _ ⟨⟩))
  next hhas =>
    refine (Tells.refl st).congr fun t => iff_of_false id ?_
    rintro ⟨⟨rfl, -⟩, hnotifies⟩
    exact hhas (InsertionMap.has_eq_true_iff.mpr hnotifies.mem_keys)

theorem Tells.failTaskOf {task : Task} {runnerId error : String} :
    Tells (fun t => (t = task.id ∧ task.runnerId = runnerId) ∧ st.Notifies t) st
      (failTaskOf runnerId error st task) := by
  rw [TaskBroker.failTaskOf]
  split
  next h => exact (Tells.failTask.trans_quiet .handleRunnerReject).congr fun t => by simp [h]
  next h => exact (Tells.refl st).congr fun t => by simp [h]

/-- A round is about its own task only. -/
private theorem get?_failTaskOf {task : Task} {runnerId error : String} {t : NanoId}
    (h : t ≠ task.id) : (failTaskOf runnerId error st task).tasks.get? t = st.tasks.get? t := by
  rw [failTaskOf]
  split
  · rw [tasks_handleRunnerReject, tasks_failTask, InsertionMap.get?_erase, if_neg h]
  · rfl

private theorem requesters_failTaskOf {task : Task} {runnerId error : String} :
    (failTaskOf runnerId error st task).requesters = st.requesters := by
  rw [failTaskOf, failTask, handleRunnerReject]
  repeat' split
  all_goals rfl

private theorem tells_foldl_failTaskOf {runnerId error : String} {l : List Task}
    (hids : (l.map (·.id)).Nodup) (hl : ∀ task ∈ l, st.tasks.get? task.id = some task) :
    Tells (fun t => (∃ task ∈ l, t = task.id ∧ task.runnerId = runnerId) ∧ st.Notifies t) st
      (l.foldl (failTaskOf runnerId error) st) := by
  induction l generalizing st with
  | nil => exact (Tells.refl st).congr fun t => by simp
  | cons task l ih =>
    rw [List.map_cons, List.nodup_cons] at hids
    have hne : ∀ task' ∈ l, task'.id ≠ task.id := fun task' ht heq =>
      hids.1 (heq ▸ List.mem_map_of_mem ht)
    have hkept : ∀ task' ∈ l,
        (failTaskOf runnerId error st task).tasks.get? task'.id = some task' := by
      intro task' ht
      rw [get?_failTaskOf (hne task' ht)]
      exact hl task' (List.mem_cons_of_mem _ ht)
    have hrest := ih hids.2 hkept
    have hnotifies : ∀ task' ∈ l, ((failTaskOf runnerId error st task).Notifies task'.id ↔
        st.Notifies task'.id) := by
      intro task' ht
      rw [Notifies, Notifies, get?_failTaskOf (hne task' ht), requesters_failTaskOf]
    refine (Tells.failTaskOf.trans hrest ?_).congr fun t => ?_
    · rintro t ⟨⟨rfl, -⟩, -⟩ ⟨⟨task', ht, heq, -⟩, -⟩
      exact hne task' ht heq.symm
    · constructor
      · rintro (⟨⟨rfl, hr⟩, hn⟩ | ⟨⟨task', ht, rfl, hr⟩, hn⟩)
        · exact ⟨⟨task, List.mem_cons_self, rfl, hr⟩, hn⟩
        · exact ⟨⟨task', List.mem_cons_of_mem _ ht, rfl, hr⟩, (hnotifies task' ht).mp hn⟩
      · rintro ⟨⟨task', ht, rfl, hr⟩, hn⟩
        rcases List.mem_cons.mp ht with rfl | ht
        · exact Or.inl ⟨⟨rfl, hr⟩, hn⟩
        · exact Or.inr ⟨⟨task', ht, rfl, hr⟩, (hnotifies task' ht).mpr hn⟩

theorem Tells.deregisterRunner (hst : st.WellFormed) {runnerId error : String} :
    Tells (fun t => (∃ task, st.tasks.get? t = some task ∧ task.runnerId = runnerId) ∧
      st.Notifies t) st (st.deregisterRunner runnerId error) := by
  have hvalues : ∀ task ∈ st.tasks.values, st.tasks.get? task.id = some task := by
    intro task ht
    obtain ⟨t, hmem⟩ := InsertionMap.mem_values.mp ht
    have hget := InsertionMap.get?_eq_some_iff.mpr hmem
    rwa [hst.id_eq t task hget]
  have hids : st.tasks.values.map (·.id) = st.tasks.keys := by
    rw [InsertionMap.values, List.map_map]
    refine List.map_congr_left fun e he => ?_
    exact hst.id_eq e.1 e.2 (InsertionMap.get?_eq_some_iff.mpr he)
  rw [TaskBroker.deregisterRunner]
  refine Tells.congr (Tells.quiet_trans ?_ (tells_foldl_failTaskOf ?_ ?_)) fun t => ?_
  · exact .quiet rfl rfl (fun _ => id) rfl
  · exact hids ▸ st.tasks.keys_nodup
  · exact hvalues
  refine and_congr_left fun _ => ⟨?_, ?_⟩
  · rintro ⟨task, ht, rfl, hr⟩
    exact ⟨task, hvalues task ht, hr⟩
  · rintro ⟨task, hget, hr⟩
    have hmem := InsertionMap.get?_eq_some_iff.mp hget
    exact ⟨task, InsertionMap.mem_values.mpr ⟨t, hmem⟩, (hst.id_eq t task hget).symm, hr⟩

/-! ### Every message and timer -/

theorem Tells.onRunnerMessage {runnerId : String} {message : RunnerMessage.ToBroker} :
    Tells (fun t => st.Ends (.runnerMessage runnerId message) t ∧ st.Notifies t) st
      (st.onRunnerMessage runnerId message) := by
  rw [TaskBroker.onRunnerMessage.eq_def]
  split
  next hknown =>
    rcases message with _ | t | ⟨t, reason⟩ | t | ⟨t, data⟩ | ⟨t, error⟩ | _ | ⟨t, _⟩ | ⟨t, _⟩
      | ⟨_, t⟩
    · exact (Tells.refl st).congr fun _ => by simp [Ends]
    · exact Tells.handleRunnerAccept.congr fun _ => by simp [Ends]
    · exact Tells.handleRunnerReject.congr fun _ => by simp [Ends]
    · exact Tells.handleRunnerDeferred.congr fun _ => by simp [Ends]
    · exact (Tells.endTask isTerminal_taskDone).congr fun _ => by simp [Ends, hknown]
    · exact (Tells.endTask isTerminal_taskError).congr fun _ => by simp [Ends, hknown]
    · refine Tells.congr (Tells.quiet_trans ?_ .settleTasks) fun _ => by simp [Ends]
      exact .quiet rfl rfl (fun _ => id) rfl
    all_goals exact (Tells.askRequester fun _ => rfl).congr fun _ => by simp [Ends]
  next hknown =>
    refine (Tells.refl st).congr fun t => iff_of_false id ?_
    rintro ⟨hends, -⟩
    rcases message with _ | _ | _ | _ | _ | _ | _ | _ | _ | _ <;>
      first | exact hends | exact hknown hends.1

theorem Tells.onRequesterMessage {requesterId : String} {message : RequesterMessage.ToBroker} :
    Tells (fun t => st.Ends (.requesterMessage requesterId message) t ∧ st.Notifies t) st
      (st.onRequesterMessage requesterId message) := by
  rcases message with ⟨t, settings⟩ | ⟨t, reason⟩ | ⟨t, _⟩ | ⟨t, _⟩ | ⟨t, _⟩ | ⟨requestId, taskType⟩
  · exact Tells.handleRequesterAccept.congr fun _ => by simp [Ends]
  · exact Tells.cancelTask.congr fun _ => by simp [Ends]
  · exact Tells.respond
  · exact Tells.respond
  · exact Tells.respond
  · refine Tells.congr (Tells.quiet_trans ?_ .taskRequested) fun _ => by simp [Ends]
    exact .quiet rfl rfl (fun _ => id) rfl

theorem Tells.fire {timer : Timer} :
    Tells (fun t => st.Ends (.timer timer) t ∧ st.Notifies t) st (st.fire timer) := by
  rcases timer with requestId | t | t | t
  · exact Tells.handleRequestTimeout.congr fun _ => by simp [Ends]
  · refine Tells.congr ?_ fun _ => (iff_of_false id And.left : False ↔ _)
    exact .quiet rfl rfl (fun _ => id) rfl
  · refine Tells.congr ?_ fun _ => (iff_of_false id And.left : False ↔ _)
    exact .quiet rfl rfl (fun _ => id) rfl
  · exact Tells.handleTaskTimeout

/-! ### Going on -/

/-- A handler goes on up to its next `await`. -/
private theorem Tells.goOn {rest : Suspended} (hmem : handler ∈ st.suspended)
    (hhandler : ∀ t, handler ≠ .ending t true) (hrest : ∀ t, rest ≠ .ending t true)
    (hoffered : ∀ t, rest.offered = some t → handler.offered = some t) :
    Tells (fun _ => False) st ((st.takeHandler handler).suspend rest) where
  nextId_le := le_rfl
  terminals_eq _ _ := rfl
  terminals_succ _ := False.elim
  mem_tasks _ := False.elim
  tasks _ := id
  gone_or_ending t ht := Or.inr (List.mem_append_left _
    ((List.mem_erase_of_ne (hhandler t).symm).mpr (ht.resolve_left id)))
  ending t ht := by
    rcases List.mem_append.mp ht with ht | ht
    · exact Or.inl (List.mem_of_mem_erase ht)
    · exact absurd (List.mem_singleton.mp ht).symm (hrest t)
  offered f hf t ht := by
    rcases List.mem_append.mp hf with hf | hf
    · exact Or.inl ⟨f, List.mem_of_mem_erase hf, ht⟩
    · exact Or.inl ⟨handler, hmem, hoffered t (List.mem_singleton.mp hf ▸ ht)⟩

/-- A handler that is not about the end of a task is no longer suspended. -/
private theorem Tells.takeHandler (hhandler : ∀ t, handler ≠ .ending t true) :
    Tells (fun _ => False) st (st.takeHandler handler) where
  nextId_le := le_rfl
  terminals_eq _ _ := rfl
  terminals_succ _ := False.elim
  mem_tasks _ := False.elim
  tasks _ := id
  gone_or_ending t ht := Or.inr
    ((List.mem_erase_of_ne (hhandler t).symm).mpr (ht.resolve_left id))
  ending _ ht := Or.inl (List.mem_of_mem_erase ht)
  offered f hf _ ht := Or.inl ⟨f, List.mem_of_mem_erase hf, ht⟩

/-- The end of `taskDoneHandler` and `taskErrorHandler`: the task goes. -/
private theorem Tells.ended {called : Bool} :
    Tells (fun _ => False) st ((st.takeHandler (.ending taskId called)).deleteTask taskId) where
  nextId_le := le_rfl
  terminals_eq _ _ := rfl
  terminals_succ _ := False.elim
  mem_tasks _ := False.elim
  tasks t ht := (InsertionMap.mem_keys_erase.mp ht).1
  gone_or_ending t ht := by
    by_cases heq : t = taskId
    · exact Or.inl fun hmem => (InsertionMap.mem_keys_erase.mp hmem).2 heq
    · refine Or.inr ((List.mem_erase_of_ne fun h => heq ?_).mpr (ht.resolve_left id))
      exact (Suspended.ending.inj h).1
  ending _ ht := Or.inl (List.mem_of_mem_erase ht)
  offered f hf _ ht := Or.inl ⟨f, List.mem_of_mem_erase hf, ht⟩

theorem Tells.requesterAnswered {answer : RequesterAnswer} :
    Tells (fun t => (t = taskId ∧ st.LacksRunner taskId ∧
      ∃ settings, answer = .accepted settings) ∧ st.Notifies t) st
      (st.requesterAnswered taskId answer) := by
  rcases answer with settings | reason | _
  · exact Tells.sendTaskSettings.congr fun _ => by simp
  · exact Tells.cancelTask.congr fun _ => by simp
  · exact Tells.cancelTask.congr fun _ => by simp

/-- What a handler that goes on tells, except `acceptOffer` when the runner has accepted. -/
theorem Tells.resume (hmem : handler ∈ st.suspended)
    (hr : (st.takeHandler handler).resume handler = some st')
    (haccept : ∀ t offer request, handler = .awaitingRunner t offer request →
      st.runnerAnswers.get? t ≠ some .accepted) :
    Tells (fun t => st.Ends (.resume handler) t ∧ st.Notifies t) st st' := by
  have htake : (∀ t, handler ≠ .ending t true) →
      Tells (fun _ => False) st (st.takeHandler handler) := Tells.takeHandler
  have hgo : ∀ rest, (∀ t, handler ≠ .ending t true) → (∀ t, rest ≠ .ending t true) →
      (∀ t, rest.offered = some t → handler.offered = some t) →
      Tells (fun _ => False) st ((st.takeHandler handler).suspend rest) :=
    fun _ => Tells.goOn hmem
  rcases handler with ⟨t, offer, request⟩ | ⟨t, offer, request⟩ | t | t
    | ⟨t, settings, runner | error⟩ | ⟨runner | error, message⟩ | ⟨t, called⟩ | t
  · obtain rfl := Option.some.inj hr
    exact (hgo (.awaitingRunner t offer request) (by simp) (by simp) fun _ => id).congr
      fun _ => (iff_of_false id And.left : False ↔ _)
  · obtain ⟨answer, hanswer, rfl⟩ := Option.map_eq_some_iff.mp hr
    refine Tells.congr (Tells.quiet_trans (htake (by simp)) ?_)
      fun _ => (iff_of_false id And.left : False ↔ _)
    rcases answer with _ | _ | _ | _
    · exact absurd hanswer (haccept t offer request rfl)
    all_goals exact .quiet rfl rfl (fun _ => id) rfl
  · obtain rfl := Option.some.inj hr
    exact (hgo (.awaitingSettings t) (by simp) (by simp) (by rintro _ ⟨⟩)).congr
      fun _ => (iff_of_false id And.left : False ↔ _)
  · obtain ⟨answer, hanswer, rfl⟩ := Option.map_eq_some_iff.mp hr
    have hanswer' : st.requesterAnswers.get? t = some answer := hanswer
    refine ((htake (by simp)).quiet_trans .requesterAnswered).congr fun t' => ?_
    simp only [Ends, hanswer', Option.some.injEq]
    exact Iff.rfl
  · obtain rfl := Option.some.inj hr
    refine Tells.congr (Tells.quiet_trans (htake (by simp)) ?_)
      fun _ => (iff_of_false id And.left : False ↔ _)
    rw [settingsToRunner]
    split
    · exact .refl _
    · exact .quiet rfl rfl (fun _ => id) rfl
  · obtain rfl := Option.some.inj hr
    exact ((htake (by simp)).quiet_trans .cancelTask).congr
      fun _ => (iff_of_false id And.left : False ↔ _)
  · obtain rfl := Option.some.inj hr
    refine Tells.congr (Tells.quiet_trans (htake (by simp)) ?_)
      fun _ => (iff_of_false id And.left : False ↔ _)
    exact .quiet rfl rfl (fun _ => id) rfl
  · obtain rfl := Option.some.inj hr
    exact (htake (by simp)).congr fun _ => (iff_of_false id And.left : False ↔ _)
  · obtain rfl := Option.some.inj hr
    exact Tells.ended.congr fun _ => (iff_of_false id And.left : False ↔ _)
  · obtain rfl := Option.some.inj hr
    exact (htake (by simp)).quiet_trans (Tells.timeoutError.congr fun _ => Iff.rfl)

/-! ### The invariant -/

/-- Over well formed states: who has been told that a task ended, once, and that a task
which is still there then has a handler about to take it out. -/
structure EndedOnce (st : TaskBroker) : Prop where
  wellFormed : st.WellFormed
  once : st.EndsOnce
  lt : ∀ t, 0 < terminals t st → t < st.nextId
  offered : ∀ f ∈ st.suspended, ∀ t, f.offered = some t → terminals t st = 0
  ending : ∀ t ∈ st.tasks.keys, 0 < terminals t st → .ending t true ∈ st.suspended
  told : ∀ t, .ending t true ∈ st.suspended → 0 < terminals t st

theorem endedOnce_new (mode : TaskRunnerMode) (taskTimeout : ℕ) (isSelfHosted : Bool) :
    EndedOnce (new mode taskTimeout isSelfHosted) where
  wellFormed := wellFormed_new _ _ _
  once _ := Nat.zero_le 1
  lt _ ht := absurd ht (Nat.lt_irrefl 0)
  offered := nofun
  ending := nofun
  told := nofun

theorem EndedOnce.of_tells {ended : NanoId → Prop} (h : EndedOnce st) (hst : st'.WellFormed)
    (htells : Tells ended st st') (hnew : ∀ t, ended t → .ending t true ∉ st.suspended) :
    EndedOnce st' := by
  have hzero : ∀ t, ended t → terminals t st = 0 := by
    intro t ht
    by_contra hne
    exact hnew t ht (h.ending t (htells.mem_tasks t ht) (Nat.pos_of_ne_zero hne))
  refine ⟨hst, fun t => ?_, fun t ht => ?_, fun f hf t ht => ?_, fun t ht hpos => ?_,
    fun t ht => ?_⟩
  · by_cases hended : ended t
    · rw [htells.terminals_succ t hended, hzero t hended]
    · rw [htells.terminals_eq t hended]
      exact h.once t
  · refine Nat.lt_of_lt_of_le ?_ htells.nextId_le
    by_cases hended : ended t
    · exact h.wellFormed.tasks_lt t (htells.mem_tasks t hended)
    · exact h.lt t (htells.terminals_eq t hended ▸ ht)
  · rcases htells.offered f hf t ht with ⟨g, hg, htg⟩ | hle
    · have hnot : ¬ended t := fun hended =>
        h.wellFormed.offered_not_mem g hg t htg (htells.mem_tasks t hended)
      rw [htells.terminals_eq t hnot]
      exact h.offered g hg t htg
    · have hnot : ¬ended t := fun hended =>
        absurd (h.wellFormed.tasks_lt t (htells.mem_tasks t hended)) (Nat.not_lt.mpr hle)
      rw [htells.terminals_eq t hnot]
      exact Nat.eq_zero_of_not_pos fun hpos => absurd (h.lt t hpos) (Nat.not_lt.mpr hle)
  · refine (htells.gone_or_ending t ?_).resolve_left fun hgone => hgone ht
    by_cases hended : ended t
    · exact Or.inl hended
    · exact Or.inr (h.ending t (htells.tasks t ht) (htells.terminals_eq t hended ▸ hpos))
  · by_cases hended : ended t
    · rw [htells.terminals_succ t hended]
      exact Nat.succ_pos _
    · rw [htells.terminals_eq t hended]
      exact h.told t ((htells.ending t ht).resolve_right hended)

/-- A handler that ends a task a second time tells its requester a second time. -/
theorem EndedOnce.not_endsOnce {ended : NanoId → Prop} (h : EndedOnce st)
    (htells : Tells ended st st') {t : NanoId} (hended : ended t)
    (hmem : .ending t true ∈ st.suspended) : ¬st'.EndsOnce := by
  intro honce
  have hle := honce t
  have hpos := h.told t hmem
  rw [htells.terminals_succ t hended] at hle
  omega

/-- The runner has accepted: the new task has not been ended. -/
theorem EndedOnce.runnerAccepted {offer : TaskOffer} {request : TaskRequest} (h : EndedOnce st)
    (hmem : .awaitingRunner taskId offer request ∈ st.suspended) :
    EndedOnce ((st.takeHandler (.awaitingRunner taskId offer request)).runnerAccepted taskId
      offer request) := by
  have hresumes := h.wellFormed.resumes hmem
  have htake := h.of_tells hresumes.wellFormed (.takeHandler (by simp)) (by simp)
  have hzero : terminals taskId st = 0 := h.offered _ hmem taskId rfl
  have hset : ∀ task : Task, task.id = taskId →
      EndedOnce ((st.takeHandler (.awaitingRunner taskId offer request)).setTask task) := by
    intro task hid
    refine ⟨.setTask hresumes hid, htake.once, htake.lt, htake.offered, fun t ht hpos => ?_,
      htake.told⟩
    rcases InsertionMap.mem_keys_set.mp ht with rfl | ht
    · rw [hid] at hpos
      exact absurd hzero hpos.ne'
    · exact htake.ending t ht hpos
  have hwf := WellFormed.runnerAccepted hresumes
  rw [TaskBroker.runnerAccepted] at hwf ⊢
  split at hwf
  next hpending =>
    rw [if_pos hpending]
    refine (hset ⟨taskId, offer.runnerId, request.requesterId, offer.taskType⟩ rfl).of_tells hwf
      (Tells.quiet_trans ?_ (.quiet_trans (.messageRequester fun _ => rfl)
        (.suspend (by rintro _ ⟨⟩) (by rintro _ ⟨⟩)))) (by rintro _ ⟨⟩)
    exact .quiet rfl rfl (fun _ => id) rfl
  next hpending =>
    rw [if_neg hpending]
    exact (hset ⟨taskId, offer.runnerId, request.requesterId, offer.taskType⟩ rfl).of_tells hwf
      (.quiet rfl rfl (fun _ => id) rfl) (by simp)

/-- **What a step tells.** Either the runner has accepted, or exactly the requesters of the
tasks that the step ends are told. -/
theorem accepted_or_tells {e : Event} (h : EndedOnce st) (hstep : st.Step e st') :
    (EndedOnce st' ∧ ∀ t, ¬st.Ends e t) ∨
      Tells (fun t => st.Ends e t ∧ st.Notifies t) st st' := by
  rw [Step] at hstep
  rcases e with runner | ⟨runnerId, error⟩ | requesterId | requesterId | ⟨runnerId, message⟩
    | ⟨requesterId, message⟩ | timer | handler | _ | now
  · obtain rfl := Option.some.inj hstep
    refine Or.inr (Tells.congr ?_ fun _ => (iff_of_false id And.left : False ↔ _))
    exact .quiet rfl rfl (fun _ => id) rfl
  · obtain rfl := Option.some.inj hstep
    exact Or.inr (.deregisterRunner h.wellFormed)
  · obtain rfl := Option.some.inj hstep
    refine Or.inr (Tells.congr ?_ fun _ => (iff_of_false id And.left : False ↔ _))
    exact .quiet rfl rfl (fun _ => id) rfl
  · obtain rfl := Option.some.inj hstep
    refine Or.inr (Tells.congr ?_ fun _ => (iff_of_false id And.left : False ↔ _))
    exact .quiet rfl rfl (fun _ => id) rfl
  · obtain rfl := Option.some.inj hstep
    exact Or.inr .onRunnerMessage
  · obtain ⟨-, heq⟩ := Option.ite_none_right_eq_some.mp hstep
    obtain rfl := Option.some.inj heq
    exact Or.inr .onRequesterMessage
  · obtain ⟨-, heq⟩ := Option.ite_none_right_eq_some.mp hstep
    obtain rfl := Option.some.inj heq
    have htake : Tells (fun _ => False) st (st.takeTimer timer) := .quiet rfl rfl (fun _ => id) rfl
    have hfire : Tells (fun t => st.Ends (.timer timer) t ∧ st.Notifies t) (st.takeTimer timer)
        ((st.takeTimer timer).fire timer) := by
      refine Tells.fire.congr fun t => ?_
      rcases timer with _ | _ | _ | _ <;> exact Iff.rfl
    exact Or.inr (htake.quiet_trans hfire)
  · obtain ⟨hmem, hr⟩ := Option.ite_none_right_eq_some.mp hstep
    by_cases haccept : ∃ t offer request, handler = .awaitingRunner t offer request ∧
        st.runnerAnswers.get? t = some .accepted
    · obtain ⟨t, offer, request, rfl, haccepted⟩ := haccept
      obtain ⟨answer, hanswer, rfl⟩ := Option.map_eq_some_iff.mp hr
      obtain rfl := Option.some.inj (haccepted.symm.trans hanswer)
      exact Or.inl ⟨h.runnerAccepted hmem, fun _ => id⟩
    · refine Or.inr (.resume hmem hr fun t offer request heq haccepted => haccept ?_)
      exact ⟨t, offer, request, heq, haccepted⟩
  · obtain rfl := Option.some.inj hstep
    refine Or.inr (Tells.congr ?_ fun _ => (iff_of_false id And.left : False ↔ _))
    exact .quiet rfl rfl (fun _ => id) rfl
  · obtain ⟨-, heq⟩ := Option.ite_none_right_eq_some.mp hstep
    obtain rfl := Option.some.inj heq
    refine Or.inr (Tells.congr ?_ fun _ => (iff_of_false id And.left : False ↔ _))
    exact .quiet rfl rfl (fun _ => id) rfl

/-- **Step lemma of the terminal messages.** -/
theorem EndedOnce.step {e : Event} (h : EndedOnce st) (hstep : st.Step e st') :
    (st.EndsNoEndingTask e → EndedOnce st') ∧ (¬st.EndsNoEndingTask e → ¬st'.EndsOnce) := by
  rcases accepted_or_tells h hstep with ⟨hended, hnot⟩ | htells
  · exact ⟨fun _ => hended, fun hbad => absurd (fun t ht => absurd ht (hnot t)) hbad⟩
  · refine ⟨fun hgood => h.of_tells (h.wellFormed.step hstep) htells fun t ht =>
      hgood t ht.1 ht.2, fun hbad => ?_⟩
    simp only [EndsNoEndingTask, not_forall, not_not] at hbad
    obtain ⟨t, hends, hnotifies, hmem⟩ := hbad
    exact h.not_endsOnce htells ⟨hends, hnotifies⟩ hmem

/-- **Terminal messages, exactly.** For every interleaving of messages, timeouts,
connections and suspended handlers from a new broker, the requester of each task is told at
most once that it ended, if and only if no step ends a task that a suspended handler has
already told its requester about. -/
theorem terminalMessages_once_iff (mode : TaskRunnerMode) (taskTimeout : ℕ)
    (isSelfHosted : Bool) (st : TaskBroker)
    (run : Run Step (new mode taskTimeout isSelfHosted) st) :
    run.Visits EndsOnce ↔ run.Takes EndsNoEndingTask :=
  run.visits_iff_takes (fun _ h => h.once) (fun _ _ _ h hc hs => (h.step hs).1 hc)
    (fun _ _ _ h hc hs => (h.step hs).2 hc) (endedOnce_new _ _ _)

/-- A runner reports that its task is done and disconnects while the requester is told. -/
def doneThenGone : List Event :=
  let offer : TaskOffer :=
    { offerId := 0, runnerId := "runner", taskType := "javascript", validFor := 5000,
      validUntil := 5000000000 }
  let request : TaskRequest :=
    { requestId := 0, requesterId := "main", taskType := "javascript", acceptInProgress := true }
  [.registerRequester "main", .registerRunner { id := "runner" },
    .requesterMessage "main" (.taskRequest 0 "javascript"),
    .runnerMessage "runner" (.taskOffer 0 "javascript" 5000),
    .resume (.offerSent 0 offer request), .runnerMessage "runner" (.taskAccepted 0),
    .resume (.awaitingRunner 0 offer request), .resume (.readySent 0),
    .requesterMessage "main" (.taskSettings 0 .null), .resume (.awaitingSettings 0),
    .resume (.sendingSettings 0 .null (.runner { id := "runner" })),
    .runnerMessage "runner" (.taskDone 0 .null),
    .deregisterRunner "runner" "connection closed"]

/-- The requester is told that the task is done, and then that it failed. -/
theorem not_endsOnce_doneThenGone :
    ∃ (st : TaskBroker) (run : Run Step (new .internal 300 true) st), run.labels = doneThenGone ∧
      terminals 0 st = 2 ∧ ¬run.Visits EndsOnce := by
  have htwo : (doneThenGone.foldlM step? (new .internal 300 true)).map (terminals 0) = some 2 := by
    decide
  obtain ⟨st, hst, hterminals⟩ := Option.map_eq_some_iff.mp htwo
  obtain ⟨run, hlabels⟩ := Run.exists_labels_eq hst
  refine ⟨st, run, hlabels, hterminals, fun hvisits => ?_⟩
  have hle := hvisits.last 0
  omega

end N8n.TaskBroker
