import N8n.Foundations.Transition
import N8n.TaskRunners.TaskBroker

/-!
# What every step of the task broker keeps

The life of a task is carried by the handler `acceptOffer` that made its id: as long as the
runner has not accepted, the task is not in `tasks`, and at each moment at most one
suspended handler carries the handshake of a task. `WellFormed` states this together with
the facts about ids it rests on, and every step keeps it (`WellFormed.step`).
-/

namespace N8n.TaskBroker

open BrokerMessage

variable {st st' : TaskBroker} {taskId : NanoId} {handler : Suspended}

/-! ### The tasks after a handler -/

@[simp] theorem tasks_cancelTask (taskId : NanoId) (reason : String) :
    (st.cancelTask taskId reason).tasks = st.tasks.erase taskId := by
  rw [cancelTask]
  split
  next h => exact (InsertionMap.erase_of_get?_eq_none h).symm
  next => rfl

@[simp] theorem tasks_failTask (taskId : NanoId) (error : TaskFailure) :
    (st.failTask taskId error).tasks = st.tasks.erase taskId := by
  rw [failTask]
  split
  next h => exact (InsertionMap.erase_of_get?_eq_none h).symm
  next => rfl

@[simp] theorem tasks_endTask (taskId : NanoId) (message : ToRequester) :
    (st.endTask taskId message).tasks = st.tasks := by
  rw [endTask]
  split <;> rfl

@[simp] theorem tasks_handleTaskTimeout (taskId : NanoId) :
    (st.handleTaskTimeout taskId).tasks = st.tasks := by
  rw [handleTaskTimeout]
  split
  · rfl
  · split
    · exact tasks_endTask _ _
    · rfl

@[simp] theorem tasks_handleRunnerReject (taskId : NanoId) (reason : String) :
    (st.handleRunnerReject taskId reason).tasks = st.tasks := by
  rw [handleRunnerReject]
  split <;> rfl

/-! ### Handshakes -/

/-- The task whose handshake a suspended handler carries: it is in `acceptOffer`. -/
def Suspended.handshake : Suspended → Option NanoId
  | .offerSent taskId _ _ | .awaitingRunner taskId _ _ | .readySent taskId
  | .awaitingSettings taskId | .sendingSettings taskId _ _ => some taskId
  | .responding _ _ | .ending _ _ | .timedOut _ => none

/-- The task a suspended handler has offered to a runner that has not answered yet. -/
def Suspended.offered : Suspended → Option NanoId
  | .offerSent taskId _ _ | .awaitingRunner taskId _ _ => some taskId
  | .readySent _ | .awaitingSettings _ | .sendingSettings _ _ _
  | .responding _ _ | .ending _ _ | .timedOut _ => none

theorem Suspended.handshake_of_offered (h : handler.offered = some taskId) :
    handler.handshake = some taskId := by
  rcases handler with _ | _ | _ | _ | _ | _ | _ | _ <;> first | exact h | cases h

/-- The tasks whose handshake is suspended. -/
def handshakes (st : TaskBroker) : List NanoId := st.suspended.filterMap Suspended.handshake

theorem mem_handshakes : taskId ∈ st.handshakes ↔
    ∃ handler ∈ st.suspended, handler.handshake = some taskId :=
  List.mem_filterMap

theorem handshakes_suspend (handler : Suspended) (st : TaskBroker) :
    (st.suspend handler).handshakes = st.handshakes ++ handler.handshake.toList := by
  rw [handshakes, suspend, List.filterMap_append]
  rcases h : handler.handshake with _ | t <;> simp [handshakes, h]

/-! ### What runners are told about tasks -/

/-- The tasks that runners have been asked to take. -/
def acceptsSent (st : TaskBroker) : List NanoId := st.toRunners.filterMap fun m => acceptTask m.2

/-- The tasks whose settings runners have been given. -/
def settingsSent (st : TaskBroker) : List NanoId :=
  st.toRunners.filterMap fun m => settingsTask m.2

/-- A message that neither asks a runner to take a task nor has the settings of one. -/
def IsOther (message : ToRunner) : Prop := acceptTask message = none ∧ settingsTask message = none

theorem acceptsSent_messageRunner (runnerId : String) (message : ToRunner) :
    (st.messageRunner runnerId message).acceptsSent = st.acceptsSent ++
      if st.knownRunners.has runnerId = true then (acceptTask message).toList else [] := by
  rw [acceptsSent, messageRunner]
  by_cases h : st.knownRunners.has runnerId = true
  · rw [if_pos h, if_pos h, List.filterMap_append]
    rcases hm : acceptTask message with _ | t <;> simp [acceptsSent, hm]
  · rw [if_neg h, if_neg h, List.append_nil, acceptsSent]

theorem settingsSent_messageRunner (runnerId : String) (message : ToRunner) :
    (st.messageRunner runnerId message).settingsSent = st.settingsSent ++
      if st.knownRunners.has runnerId = true then (settingsTask message).toList else [] := by
  rw [settingsSent, messageRunner]
  by_cases h : st.knownRunners.has runnerId = true
  · rw [if_pos h, if_pos h, List.filterMap_append]
    rcases hm : settingsTask message with _ | t <;> simp [settingsSent, hm]
  · rw [if_neg h, if_neg h, List.append_nil, settingsSent]

theorem acceptsSent_messageRunner_of_none {runnerId : String} {message : ToRunner}
    (h : acceptTask message = none) :
    (st.messageRunner runnerId message).acceptsSent = st.acceptsSent := by
  rw [acceptsSent_messageRunner, h, Option.toList_none, ite_self, List.append_nil]

theorem settingsSent_messageRunner_of_none {runnerId : String} {message : ToRunner}
    (h : settingsTask message = none) :
    (st.messageRunner runnerId message).settingsSent = st.settingsSent := by
  rw [settingsSent_messageRunner, h, Option.toList_none, ite_self, List.append_nil]

/-- What the broker keeps about ids, tasks, suspended handlers and what it tells runners. -/
structure WellFormed (st : TaskBroker) : Prop where
  id_eq : ∀ t task, st.tasks.get? t = some task → task.id = t
  tasks_lt : ∀ t ∈ st.tasks.keys, t < st.nextId
  handshakes_lt : ∀ t ∈ st.handshakes, t < st.nextId
  handshakes_nodup : st.handshakes.Nodup
  offered_not_mem : ∀ f ∈ st.suspended, ∀ t, f.offered = some t → t ∉ st.tasks.keys
  accepts_lt : ∀ t ∈ st.acceptsSent, t < st.nextId
  accepts_nodup : st.acceptsSent.Nodup
  settings_lt : ∀ t ∈ st.settingsSent, t < st.nextId
  settings_nodup : st.settingsSent.Nodup
  settings_not_mem : ∀ t ∈ st.settingsSent, t ∉ st.handshakes
  responding_other : ∀ runner message, .responding runner message ∈ st.suspended → IsOther message

theorem wellFormed_new (mode : TaskRunnerMode) (taskTimeout : ℕ) (isSelfHosted : Bool) :
    WellFormed (new mode taskTimeout isSelfHosted) where
  id_eq := nofun
  tasks_lt := nofun
  handshakes_lt := nofun
  handshakes_nodup := List.nodup_nil
  offered_not_mem := nofun
  accepts_lt := nofun
  accepts_nodup := List.nodup_nil
  settings_lt := nofun
  settings_nodup := List.nodup_nil
  settings_not_mem := nofun
  responding_other := nofun

private theorem mem_keys_of_get? {t : NanoId} (h : ∀ t task,
    st'.tasks.get? t = some task → st.tasks.get? t = some task) (ht : t ∈ st'.tasks.keys) :
    t ∈ st.tasks.keys := by
  obtain ⟨task, htask⟩ := InsertionMap.mem_keys.mp ht
  exact InsertionMap.mem_keys.mpr ⟨task, InsertionMap.get?_eq_some_iff.mp
    (h t task (InsertionMap.get?_eq_some_iff.mpr htask))⟩

/-- Taking tasks away keeps the broker well formed. -/
theorem WellFormed.mono (h : st.WellFormed) (hid : st'.nextId = st.nextId)
    (hsuspended : st'.suspended = st.suspended) (hsent : st'.toRunners = st.toRunners)
    (htasks : ∀ t task, st'.tasks.get? t = some task → st.tasks.get? t = some task) :
    st'.WellFormed where
  id_eq t task ht := h.id_eq t task (htasks t task ht)
  tasks_lt t ht := hid ▸ h.tasks_lt t (mem_keys_of_get? htasks ht)
  handshakes_lt := by
    rw [handshakes, hsuspended, hid]
    exact h.handshakes_lt
  handshakes_nodup := by
    rw [handshakes, hsuspended]
    exact h.handshakes_nodup
  offered_not_mem f hf t ht hmem :=
    h.offered_not_mem f (hsuspended ▸ hf) t ht (mem_keys_of_get? htasks hmem)
  accepts_lt := by
    rw [acceptsSent, hsent, hid]
    exact h.accepts_lt
  accepts_nodup := by
    rw [acceptsSent, hsent]
    exact h.accepts_nodup
  settings_lt := by
    rw [settingsSent, hsent, hid]
    exact h.settings_lt
  settings_nodup := by
    rw [settingsSent, hsent]
    exact h.settings_nodup
  settings_not_mem := by
    rw [settingsSent, hsent, handshakes, hsuspended]
    exact h.settings_not_mem
  responding_other := by
    rw [hsuspended]
    exact h.responding_other

/-- A runner is told something else. -/
theorem WellFormed.messageRunner (h : st.WellFormed) {runnerId : String} {message : ToRunner}
    (hmessage : IsOther message) : (st.messageRunner runnerId message).WellFormed := by
  have haccepts : (st.messageRunner runnerId message).acceptsSent = st.acceptsSent :=
    acceptsSent_messageRunner_of_none hmessage.1
  have hsettings : (st.messageRunner runnerId message).settingsSent = st.settingsSent :=
    settingsSent_messageRunner_of_none hmessage.2
  exact { h with
    accepts_lt := haccepts.symm ▸ h.accepts_lt
    accepts_nodup := haccepts.symm ▸ h.accepts_nodup
    settings_lt := hsettings.symm ▸ h.settings_lt
    settings_nodup := hsettings.symm ▸ h.settings_nodup
    settings_not_mem := hsettings.symm ▸ h.settings_not_mem }

/-- A handler is suspended: its handshake is new. -/
theorem WellFormed.suspend (h : st.WellFormed)
    (hnew : ∀ t, handler.handshake = some t →
      t < st.nextId ∧ t ∉ st.handshakes ∧ t ∉ st.settingsSent)
    (hoffered : ∀ t, handler.offered = some t → t ∉ st.tasks.keys)
    (hresponding : ∀ runner message, handler = .responding runner message → IsOther message) :
    (st.suspend handler).WellFormed :=
  { h with
    handshakes_lt := fun t ht => by
      rw [handshakes_suspend, List.mem_append, Option.mem_toList] at ht
      exact ht.elim (h.handshakes_lt t) fun ht => (hnew t ht).1
    handshakes_nodup := by
      rw [handshakes_suspend]
      refine List.Nodup.append h.handshakes_nodup ?_ ?_
      · rcases handler.handshake with _ | t <;> simp
      · intro t ht hmem
        exact (hnew t (Option.mem_toList.mp hmem)).2.1 ht
    offered_not_mem := fun f hf t ht => by
      rcases List.mem_append.mp hf with hf | hf
      · exact h.offered_not_mem f hf t ht
      · exact hoffered t (List.mem_singleton.mp hf ▸ ht)
    settings_not_mem := fun t ht hmem => by
      rw [handshakes_suspend, List.mem_append, Option.mem_toList] at hmem
      rcases hmem with hmem | hmem
      · exact h.settings_not_mem t ht hmem
      · exact (hnew t hmem).2.2 ht
    responding_other := fun runner message hmem => by
      rcases List.mem_append.mp hmem with hmem | hmem
      · exact h.responding_other runner message hmem
      · exact hresponding runner message (List.mem_singleton.mp hmem).symm }

/-- The same after steps that change nothing of this. -/
theorem WellFormed.suspend_of (h : st.WellFormed) (hid : st'.nextId = st.nextId)
    (hsuspended : st'.suspended = st.suspended) (hsent : st'.toRunners = st.toRunners)
    (htasks : ∀ t task, st'.tasks.get? t = some task → st.tasks.get? t = some task)
    (hnew : ∀ t, handler.handshake = some t →
      t < st.nextId ∧ t ∉ st.handshakes ∧ t ∉ st.settingsSent)
    (hoffered : ∀ t, handler.offered = some t → t ∉ st.tasks.keys)
    (hresponding : ∀ runner message, handler = .responding runner message → IsOther message) :
    (st'.suspend handler).WellFormed := by
  refine (h.mono hid hsuspended hsent htasks).suspend (fun t ht => ?_)
    (fun t ht hmem => hoffered t ht (mem_keys_of_get? htasks hmem)) hresponding
  rw [hid, handshakes, hsuspended, settingsSent, hsent]
  exact hnew t ht

/-- What is known when a suspended handler goes on: the rest is well formed, and nobody
else carries its handshake. -/
structure Resumes (st : TaskBroker) (handler : Suspended) : Prop where
  wellFormed : st.WellFormed
  lt : ∀ t, handler.handshake = some t → t < st.nextId
  not_mem : ∀ t, handler.handshake = some t → t ∉ st.handshakes
  not_settings : ∀ t, handler.handshake = some t → t ∉ st.settingsSent
  offered_not_mem : ∀ t, handler.offered = some t → t ∉ st.tasks.keys
  responding_other : ∀ runner message, handler = .responding runner message → IsOther message

theorem WellFormed.resumes (h : st.WellFormed) (hmem : handler ∈ st.suspended) :
    Resumes (st.takeHandler handler) handler := by
  have hperm := List.perm_cons_erase hmem
  have hhandshakes : List.Perm st.handshakes (handler.handshake.toList
      ++ (st.suspended.erase handler).filterMap Suspended.handshake) := by
    refine (hperm.filterMap _).trans ?_
    rcases hh : handler.handshake with _ | t <;> simp [hh]
  have hnodup := hhandshakes.nodup_iff.mp h.handshakes_nodup
  have hsub : ∀ t ∈ (st.takeHandler handler).handshakes, t ∈ st.handshakes := fun t ht =>
    hhandshakes.mem_iff.mpr (List.mem_append_right _ ht)
  have hown : ∀ t, handler.handshake = some t → t ∈ st.handshakes := fun t ht =>
    mem_handshakes.mpr ⟨handler, hmem, ht⟩
  have hwf : (st.takeHandler handler).WellFormed :=
    { h with
      handshakes_lt := fun t ht => h.handshakes_lt t (hsub t ht)
      handshakes_nodup := hnodup.of_append_right
      offered_not_mem := fun f hf => h.offered_not_mem f (List.mem_of_mem_erase hf)
      settings_not_mem := fun t ht hmem => h.settings_not_mem t ht (hsub t hmem)
      responding_other := fun runner message hmem =>
        h.responding_other runner message (List.mem_of_mem_erase hmem) }
  refine ⟨hwf, fun t ht => h.handshakes_lt t (hown t ht), fun t ht hin => ?_,
    fun t ht hsent => h.settings_not_mem t hsent (hown t ht),
    fun t ht => h.offered_not_mem handler hmem t ht, ?_⟩
  · exact (List.nodup_append'.mp hnodup).2.2 (Option.mem_toList.mpr ht) hin
  · rintro runner message rfl
    exact h.responding_other runner message hmem

/-! ### The handlers -/

private theorem get?_erase_imp (t : NanoId) (task : Task)
    (h : (st.tasks.erase taskId).get? t = some task) : st.tasks.get? t = some task := by
  rw [InsertionMap.get?_erase] at h
  split at h
  · cases h
  · exact h

theorem WellFormed.deleteTask (h : st.WellFormed) {taskId : NanoId} :
    (st.deleteTask taskId).WellFormed :=
  h.mono rfl rfl rfl fun t task ht => get?_erase_imp t task ht

theorem WellFormed.cancelTask (h : st.WellFormed) {taskId : NanoId} {reason : String} :
    (st.cancelTask taskId reason).WellFormed := by
  rw [TaskBroker.cancelTask]
  split
  · exact h
  · exact h.deleteTask.messageRunner ⟨rfl, rfl⟩

theorem WellFormed.failTask (h : st.WellFormed) {taskId : NanoId} {error : TaskFailure} :
    (st.failTask taskId error).WellFormed := by
  rw [TaskBroker.failTask]
  split
  · exact h
  · exact h.deleteTask.mono rfl rfl rfl fun _ _ => id

theorem WellFormed.endTask (h : st.WellFormed) {taskId : NanoId} {message : ToRequester} :
    (st.endTask taskId message).WellFormed := by
  rw [TaskBroker.endTask]
  split
  · exact h
  · exact WellFormed.suspend (h.mono rfl rfl rfl fun _ _ => id) nofun nofun nofun

theorem WellFormed.handleTaskTimeout (h : st.WellFormed) {taskId : NanoId} :
    (st.handleTaskTimeout taskId).WellFormed := by
  rw [TaskBroker.handleTaskTimeout]
  split
  · exact h
  · split
    · exact h.endTask
    · exact (h.messageRunner ⟨rfl, rfl⟩).suspend nofun nofun nofun

theorem WellFormed.handleRunnerReject (h : st.WellFormed) {taskId : NanoId} {reason : String} :
    (st.handleRunnerReject taskId reason).WellFormed := by
  rw [TaskBroker.handleRunnerReject]
  split
  · exact h.mono rfl rfl rfl fun _ _ => id
  · exact h

theorem WellFormed.deregisterRunner (h : st.WellFormed) {runnerId error : String} :
    (st.deregisterRunner runnerId error).WellFormed := by
  rw [TaskBroker.deregisterRunner]
  refine List.foldlRecOn _ _ (h.mono rfl rfl rfl fun _ _ => id) fun st h task _ => ?_
  rw [failTaskOf]
  split
  · exact h.failTask.handleRunnerReject
  · exact h

theorem WellFormed.getRunnerOrFailTask (h : st.WellFormed) {taskId : NanoId} :
    (st.getRunnerOrFailTask taskId).1.WellFormed := by
  rw [TaskBroker.getRunnerOrFailTask]
  split
  · exact h
  · split
    · exact h.failTask
    · exact h

/-- The id of a new task is made. -/
theorem WellFormed.newTaskId (h : st.WellFormed) (offer : TaskOffer) (request : TaskRequest) :
    (st.newTaskId offer request).WellFormed :=
  { h with
    tasks_lt := fun t ht => Nat.lt_succ_of_lt (h.tasks_lt t ht)
    handshakes_lt := fun t ht => Nat.lt_succ_of_lt (h.handshakes_lt t ht)
    accepts_lt := fun t ht => Nat.lt_succ_of_lt (h.accepts_lt t ht)
    settings_lt := fun t ht => Nat.lt_succ_of_lt (h.settings_lt t ht) }

/-- A runner is asked to take a task for the first time. -/
theorem WellFormed.messageAccept (h : st.WellFormed) {runnerId : String} {offerId : NanoId}
    (hlt : taskId < st.nextId) (hnew : taskId ∉ st.acceptsSent) :
    (st.messageRunner runnerId (.taskOfferAccept offerId taskId)).WellFormed := by
  have hsettings : (st.messageRunner runnerId (.taskOfferAccept offerId taskId)).settingsSent
      = st.settingsSent := settingsSent_messageRunner_of_none rfl
  refine { h with
    accepts_lt := fun t ht => ?_
    accepts_nodup := ?_
    settings_lt := hsettings.symm ▸ h.settings_lt
    settings_nodup := hsettings.symm ▸ h.settings_nodup
    settings_not_mem := hsettings.symm ▸ h.settings_not_mem }
  all_goals rw [acceptsSent_messageRunner] at *
  · rcases List.mem_append.mp ht with ht | ht
    · exact h.accepts_lt t ht
    · split at ht
      · exact List.mem_singleton.mp ht ▸ hlt
      · cases ht
  · split
    · exact h.accepts_nodup.append (List.nodup_singleton _) (List.disjoint_singleton.mpr hnew)
    · rw [List.append_nil]
      exact h.accepts_nodup

theorem WellFormed.acceptOffer (h : st.WellFormed) {offer : TaskOffer} {request : TaskRequest} :
    (st.acceptOffer offer request).WellFormed := by
  have htimer : ((st.newTaskId offer request).setTimeout (.runnerAccept st.nextId)).WellFormed :=
    (h.newTaskId offer request).mono rfl rfl rfl fun _ _ => id
  rw [TaskBroker.acceptOffer]
  refine (htimer.messageAccept (Nat.lt_succ_self _) fun ht =>
    Nat.lt_irrefl _ (h.accepts_lt _ ht)).suspend ?_ ?_ nofun
  · rintro t ⟨⟩
    refine ⟨Nat.lt_succ_self _, fun ht => Nat.lt_irrefl _ (h.handshakes_lt _ ht), fun ht => ?_⟩
    rw [settingsSent_messageRunner_of_none rfl] at ht
    exact Nat.lt_irrefl _ (h.settings_lt _ ht)
  · rintro t ⟨⟩ ht
    exact Nat.lt_irrefl _ (h.tasks_lt _ ht)

theorem WellFormed.settleTasks (h : st.WellFormed) : st.settleTasks.WellFormed := by
  rw [TaskBroker.settleTasks]
  refine List.foldlRecOn _ _ (h.mono rfl rfl rfl fun _ _ => id) fun st h request _ => ?_
  rw [settleRequest]
  split
  · exact h
  · split
    · exact h
    · refine WellFormed.acceptOffer ?_
      exact h.mono rfl rfl rfl fun _ _ => id

theorem WellFormed.taskRequested (h : st.WellFormed) {request : TaskRequest} :
    (st.taskRequested request).WellFormed := by
  rw [TaskBroker.taskRequested]
  split
  · exact h.mono rfl rfl rfl fun _ _ => id
  · exact WellFormed.settleTasks (h.mono rfl rfl rfl fun _ _ => id)

theorem WellFormed.handleRunnerAccept (h : st.WellFormed) {taskId : NanoId} :
    (st.handleRunnerAccept taskId).WellFormed := by
  rw [TaskBroker.handleRunnerAccept]
  split
  · exact h.mono rfl rfl rfl fun _ _ => id
  · exact h

theorem WellFormed.handleRunnerDeferred (h : st.WellFormed) {taskId : NanoId} :
    (st.handleRunnerDeferred taskId).WellFormed := by
  rw [TaskBroker.handleRunnerDeferred]
  split
  · exact h.mono rfl rfl rfl fun _ _ => id
  · exact h

theorem WellFormed.handleRequesterAccept (h : st.WellFormed) {taskId : NanoId}
    {settings : JsonValue} : (st.handleRequesterAccept taskId settings).WellFormed := by
  rw [TaskBroker.handleRequesterAccept]
  split
  · exact h.mono rfl rfl rfl fun _ _ => id
  · exact h

theorem WellFormed.askRequester (h : st.WellFormed) {taskId : NanoId} {message : ToRequester} :
    (st.askRequester taskId message).WellFormed := by
  rw [TaskBroker.askRequester]
  split
  · exact h
  · exact h.mono rfl rfl rfl fun _ _ => id

theorem WellFormed.onRunnerMessage (h : st.WellFormed) {runnerId : String}
    {message : RunnerMessage.ToBroker} : (st.onRunnerMessage runnerId message).WellFormed := by
  rw [TaskBroker.onRunnerMessage.eq_def]
  split
  case isFalse => exact h
  rcases message with _ | t | ⟨t, reason⟩ | t | ⟨t, data⟩ | ⟨t, error⟩ | _ | ⟨t, _⟩ | ⟨t, _⟩
    | ⟨_, t⟩
  · exact h
  · exact h.handleRunnerAccept
  · exact h.handleRunnerReject
  · exact h.handleRunnerDeferred
  · exact h.endTask
  · exact h.endTask
  · exact WellFormed.settleTasks (h.mono rfl rfl rfl fun _ _ => id)
  all_goals exact h.askRequester

theorem WellFormed.respond (h : st.WellFormed) {taskId : NanoId} {message : ToRunner}
    (hmessage : IsOther message) : (st.respond taskId message).WellFormed := by
  rw [TaskBroker.respond]
  split
  · refine h.getRunnerOrFailTask.suspend nofun nofun ?_
    rintro runner message ⟨⟩
    exact hmessage
  · exact h

theorem WellFormed.onRequesterMessage (h : st.WellFormed) {requesterId : String}
    {message : RequesterMessage.ToBroker} :
    (st.onRequesterMessage requesterId message).WellFormed := by
  rcases message with ⟨t, settings⟩ | ⟨t, reason⟩ | ⟨t, _⟩ | ⟨t, _⟩ | ⟨t, _⟩ | ⟨requestId, taskType⟩
  · exact h.handleRequesterAccept
  · exact h.cancelTask
  · exact h.respond ⟨rfl, rfl⟩
  · exact h.respond ⟨rfl, rfl⟩
  · exact h.respond ⟨rfl, rfl⟩
  · refine WellFormed.taskRequested ?_
    exact h.mono rfl rfl rfl fun _ _ => id

theorem WellFormed.fire (h : st.WellFormed) {timer : Timer} : (st.fire timer).WellFormed := by
  rcases timer with requestId | taskId | taskId | taskId
  · simp only [TaskBroker.fire, handleRequestTimeout]
    split
    · exact h
    · exact h.mono rfl rfl rfl fun _ _ => id
  · exact h.mono rfl rfl rfl fun _ _ => id
  · exact h.mono rfl rfl rfl fun _ _ => id
  · exact h.handleTaskTimeout

/-! ### Going on -/

/-- The rest of the handler carries the same handshake, further on. -/
private theorem Resumes.suspend (h : Resumes st handler) {rest : Suspended}
    (hhandshake : rest.handshake = handler.handshake)
    (hoffered : ∀ t, rest.offered = some t → handler.offered = some t)
    (hresponding : ∀ runner message, rest = .responding runner message → IsOther message) :
    (st.suspend rest).WellFormed :=
  h.wellFormed.suspend
    (fun t ht => ⟨h.lt t (hhandshake ▸ ht), h.not_mem t (hhandshake ▸ ht),
      h.not_settings t (hhandshake ▸ ht)⟩)
    (fun t ht => h.offered_not_mem t (hoffered t ht)) hresponding

/-- The task of the handshake that goes on is put in. -/
theorem WellFormed.setTask {offer : TaskOffer} {request : TaskRequest} {task : Task}
    (h : Resumes st (.awaitingRunner taskId offer request)) (hid : task.id = taskId) :
    (st.setTask task).WellFormed := by
  have hwf := h.wellFormed
  subst hid
  refine { hwf with
    id_eq := fun t task' ht => ?_
    tasks_lt := fun t ht => ?_
    offered_not_mem := fun f hf t ht hmem => ?_ }
  · rw [TaskBroker.setTask, InsertionMap.get?_set] at ht
    split at ht
    next heq =>
      obtain rfl := Option.some.inj ht
      exact heq.symm
    next => exact hwf.id_eq t task' ht
  · rcases InsertionMap.mem_keys_set.mp ht with rfl | ht
    · exact h.lt _ rfl
    · exact hwf.tasks_lt t ht
  · rcases InsertionMap.mem_keys_set.mp hmem with rfl | hmem
    · exact h.not_mem _ rfl (mem_handshakes.mpr ⟨f, hf, Suspended.handshake_of_offered ht⟩)
    · exact hwf.offered_not_mem f hf t ht hmem

theorem WellFormed.runnerAccepted {offer : TaskOffer} {request : TaskRequest}
    (h : Resumes st (.awaitingRunner taskId offer request)) :
    (st.runnerAccepted taskId offer request).WellFormed := by
  set task : Task := {
    id := taskId, taskType := offer.taskType, runnerId := offer.runnerId,
    requesterId := request.requesterId } with htask
  have hset : (st.setTask task).WellFormed := WellFormed.setTask h rfl
  rw [TaskBroker.runnerAccepted, ← htask]
  split
  · refine hset.suspend_of rfl rfl rfl (fun _ _ => id) ?_ nofun nofun
    rintro t ⟨⟩
    exact ⟨h.lt _ rfl, h.not_mem _ rfl, h.not_settings _ rfl⟩
  · exact hset.mono rfl rfl rfl fun _ _ => id

theorem WellFormed.runnerAnswered {offer : TaskOffer} {request : TaskRequest}
    {answer : RunnerAnswer} (h : Resumes st (.awaitingRunner taskId offer request)) :
    (st.runnerAnswered taskId offer request answer).WellFormed := by
  rcases answer with _ | _ | _ | _
  · exact .runnerAccepted h
  all_goals exact h.wellFormed.mono rfl rfl rfl fun _ _ => id

theorem handshakes_getRunnerOrFailTask :
    (st.getRunnerOrFailTask taskId).1.handshakes = st.handshakes := by
  rw [getRunnerOrFailTask]
  split
  · rfl
  · split
    · simp only [failTask]
      split <;> rfl
    · rfl

theorem nextId_getRunnerOrFailTask :
    (st.getRunnerOrFailTask taskId).1.nextId = st.nextId := by
  rw [getRunnerOrFailTask]
  split
  · rfl
  · split
    · simp only [failTask]
      split <;> rfl
    · rfl

theorem settingsSent_getRunnerOrFailTask :
    (st.getRunnerOrFailTask taskId).1.settingsSent = st.settingsSent := by
  rw [getRunnerOrFailTask]
  split
  · rfl
  · split
    · simp only [failTask]
      split <;> rfl
    · rfl

/-- The settings of a task go to its runner for the first time. -/
theorem WellFormed.settingsToRunner {settings : JsonValue} {runner : TaskRunner}
    {answer : RunnerOrFailure} (h : Resumes st (.sendingSettings taskId settings answer)) :
    (st.settingsToRunner taskId settings runner).WellFormed := by
  rw [TaskBroker.settingsToRunner]
  split
  · exact h.wellFormed
  · have hwf : (st.setTimeout (.task taskId)).WellFormed :=
      h.wellFormed.mono rfl rfl rfl fun _ _ => id
    have hsent : ∀ t ∈ ((st.setTimeout (.task taskId)).messageRunner runner.id
        (.taskSettings taskId settings)).settingsSent, t ∈ st.settingsSent ∨ t = taskId := by
      intro t ht
      rw [settingsSent_messageRunner] at ht
      refine (List.mem_append.mp ht).imp_right fun ht => ?_
      split at ht
      · exact List.mem_singleton.mp ht
      · cases ht
    have haccepts : ((st.setTimeout (.task taskId)).messageRunner runner.id
        (.taskSettings taskId settings)).acceptsSent = st.acceptsSent :=
      acceptsSent_messageRunner_of_none rfl
    refine { hwf with
      accepts_lt := haccepts.symm ▸ hwf.accepts_lt
      accepts_nodup := haccepts.symm ▸ hwf.accepts_nodup
      settings_lt := fun t ht => (hsent t ht).elim (hwf.settings_lt t) fun heq =>
        h.lt t (congrArg some heq.symm)
      settings_nodup := ?_
      settings_not_mem := fun t ht =>
        (hsent t ht).elim (hwf.settings_not_mem t) fun heq =>
          h.not_mem t (congrArg some heq.symm) }
    rw [settingsSent_messageRunner]
    split
    · exact hwf.settings_nodup.append (List.nodup_singleton _)
        (List.disjoint_singleton.mpr (h.not_settings _ rfl))
    · rw [List.append_nil]
      exact hwf.settings_nodup

theorem WellFormed.requesterAnswered {answer : RequesterAnswer}
    (h : Resumes st (.awaitingSettings taskId)) :
    (st.requesterAnswered taskId answer).WellFormed := by
  rcases answer with settings | reason | _
  · simp only [TaskBroker.requesterAnswered, sendTaskSettings]
    split
    · refine h.wellFormed.getRunnerOrFailTask.suspend ?_ nofun nofun
      rintro t ⟨⟩
      rw [nextId_getRunnerOrFailTask, handshakes_getRunnerOrFailTask,
        settingsSent_getRunnerOrFailTask]
      exact ⟨h.lt _ rfl, h.not_mem _ rfl, h.not_settings _ rfl⟩
    · exact h.wellFormed
  · exact h.wellFormed.cancelTask
  · exact h.wellFormed.cancelTask

theorem WellFormed.resume (h : Resumes st handler) (hr : st.resume handler = some st') :
    st'.WellFormed := by
  rcases handler with ⟨t, offer, request⟩ | ⟨t, offer, request⟩ | t | t
    | ⟨t, settings, runner | error⟩ | ⟨runner | error, message⟩ | ⟨t, called⟩ | t
  · obtain rfl := Option.some.inj hr
    exact h.suspend rfl (fun _ => id) nofun
  · obtain ⟨answer, -, rfl⟩ := Option.map_eq_some_iff.mp hr
    exact .runnerAnswered h
  · obtain rfl := Option.some.inj hr
    exact h.suspend rfl nofun nofun
  · obtain ⟨answer, -, rfl⟩ := Option.map_eq_some_iff.mp hr
    exact .requesterAnswered h
  · obtain rfl := Option.some.inj hr
    exact .settingsToRunner h
  · obtain rfl := Option.some.inj hr
    exact h.wellFormed.cancelTask
  · obtain rfl := Option.some.inj hr
    exact h.wellFormed.messageRunner (h.responding_other _ _ rfl)
  · obtain rfl := Option.some.inj hr
    exact h.wellFormed
  · obtain rfl := Option.some.inj hr
    exact h.wellFormed.deleteTask
  · obtain rfl := Option.some.inj hr
    exact h.wellFormed.endTask

/-- **Step lemma of the bookkeeping**: every step keeps the broker well formed. -/
theorem WellFormed.step {e : Event} (h : st.WellFormed) (hstep : st.Step e st') :
    st'.WellFormed := by
  rw [Step] at hstep
  rcases e with runner | ⟨runnerId, error⟩ | requesterId | requesterId | ⟨runnerId, message⟩
    | ⟨requesterId, message⟩ | timer | handler | _ | now
  · obtain rfl := Option.some.inj hstep
    refine WellFormed.messageRunner ?_ ⟨rfl, rfl⟩
    exact h.mono rfl rfl rfl fun _ _ => id
  · obtain rfl := Option.some.inj hstep
    exact h.deregisterRunner
  · obtain rfl := Option.some.inj hstep
    exact h.mono rfl rfl rfl fun _ _ => id
  · obtain rfl := Option.some.inj hstep
    exact h.mono rfl rfl rfl fun _ _ => id
  · obtain rfl := Option.some.inj hstep
    exact h.onRunnerMessage
  · obtain ⟨-, heq⟩ := Option.ite_none_right_eq_some.mp hstep
    obtain rfl := Option.some.inj heq
    exact h.onRequesterMessage
  · obtain ⟨-, heq⟩ := Option.ite_none_right_eq_some.mp hstep
    obtain rfl := Option.some.inj heq
    refine WellFormed.fire ?_
    exact h.mono rfl rfl rfl fun _ _ => id
  · obtain ⟨hmem, hr⟩ := Option.ite_none_right_eq_some.mp hstep
    exact .resume (h.resumes hmem) hr
  · obtain rfl := Option.some.inj hstep
    exact h.mono rfl rfl rfl fun _ _ => id
  · obtain ⟨-, heq⟩ := Option.ite_none_right_eq_some.mp hstep
    obtain rfl := Option.some.inj heq
    exact h.mono rfl rfl rfl fun _ _ => id

/-- **Nothing is sent twice.** In every run, whatever messages, timeouts and disconnects come
between, no task is offered to runners twice, and none is given its settings twice. -/
theorem visits_sentOnce (mode : TaskRunnerMode) (taskTimeout : ℕ) (isSelfHosted : Bool)
    (st : TaskBroker) (run : Transition.Run Step (new mode taskTimeout isSelfHosted) st) :
    run.Visits fun st => st.acceptsSent.Nodup ∧ st.settingsSent.Nodup := by
  have hvisits : run.Visits WellFormed :=
    run.visits_of_step (fun _ _ _ h hstep => h.step hstep) (wellFormed_new _ _ _)
  exact hvisits.mono fun _ h => ⟨h.accepts_nodup, h.settings_nodup⟩

end N8n.TaskBroker
