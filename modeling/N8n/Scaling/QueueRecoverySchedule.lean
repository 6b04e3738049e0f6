import N8n.Foundations.Transition

/-!
# The schedule of the queue recovery

The leader checks for dangling executions again and again: a timer starts the recovery, and when
the recovery has completed or failed its callback sets the next timer. `setupQueue` and a
takeover set the first timer, and a stepdown clears the timer that `queueRecoveryContext.timeout`
names.

The recovery itself is a step that takes any time and completes or fails. How long timers wait
is not modelled: a timer that is set fires whenever it likes.
-/

namespace N8n

namespace QueueRecoverySchedule

abbrev TimerId := ℕ

end QueueRecoverySchedule

open QueueRecoverySchedule in
structure QueueRecoverySchedule where
  /-- `instanceSettings.isLeader`. -/
  isLeader : Bool
  /-- `setupQueue` has set `queue`. -/
  queue : Bool := false
  /-- `queueRecoveryContext.timeout`. -/
  timeout : Option TimerId := none
  /-- The timers that are set. -/
  timers : List TimerId := []
  nextTimer : TimerId := 0
  /-- The callbacks that are suspended at `recoverFromQueue`, by their timers. -/
  recovering : List TimerId := []
  deriving DecidableEq, Repr

namespace QueueRecoverySchedule

variable {st st' : QueueRecoverySchedule}

/-! ### The routines -/

/-- `scheduleQueueRecovery(waitMs)`, also the handler of a takeover. -/
def scheduleQueueRecovery (st : QueueRecoverySchedule) : QueueRecoverySchedule :=
  { st with
    timeout := some st.nextTimer
    timers := st.timers ++ [st.nextTimer]
    nextTimer := st.nextTimer + 1 }

/-- `stopQueueRecovery()`, the handler of a stepdown. -/
def stopQueueRecovery (st : QueueRecoverySchedule) : QueueRecoverySchedule :=
  match st.timeout with
  | none => st
  | some timeout => { st with timers := st.timers.filter (· ≠ timeout) }

/-- `setupQueue()`, from its check of `queue` on. -/
def setupQueue (st : QueueRecoverySchedule) : QueueRecoverySchedule :=
  if st.queue then st
  else
    if st.isLeader then { st with queue := true }.scheduleQueueRecovery
    else { st with queue := true }

inductive Event where
  | setupQueue
  | leaderTakeover
  | leaderStepdown
  /-- A timer fires, and its callback starts the recovery. -/
  | timerFires (timer : TimerId)
  /-- The recovery of a callback completes. -/
  | recovered (timer : TimerId)
  /-- The recovery of a callback throws. -/
  | recoveryFailed (timer : TimerId)
  deriving DecidableEq, Repr

/-- The end of a callback, the same for both outcomes. -/
def endRecovery (timer : TimerId) (st : QueueRecoverySchedule) : QueueRecoverySchedule :=
  { st with recovering := st.recovering.erase timer }.scheduleQueueRecovery

def step? (st : QueueRecoverySchedule) : Event → Option QueueRecoverySchedule
  | .setupQueue => some st.setupQueue
  -- `takeOverAsLeader` and `stepDownToFollower` assert the role that the instance has
  | .leaderTakeover =>
    if st.isLeader then none else some { st with isLeader := true }.scheduleQueueRecovery
  | .leaderStepdown =>
    if st.isLeader then some { st with isLeader := false }.stopQueueRecovery else none
  | .timerFires timer =>
    if timer ∈ st.timers then
      some { st with
        timers := st.timers.erase timer
        recovering := st.recovering ++ [timer] }
    else none
  | .recovered timer | .recoveryFailed timer =>
    if timer ∈ st.recovering then some (st.endRecovery timer) else none

/-- The instance when its process has started, with the role it has then. -/
def start (isLeader : Bool) : QueueRecoverySchedule := { isLeader }

abbrev Step (st : QueueRecoverySchedule) (event : Event) (st' : QueueRecoverySchedule) : Prop :=
  st.step? event = some st'

/-! ### One cycle, only on the leader -/

/-- The timers that are set and the recoveries in progress. -/
def pending (st : QueueRecoverySchedule) : List TimerId := st.timers ++ st.recovering

/-- At most one timer or recovery is pending. From a stepdown to the next takeover the instance
is not the leader: no timer is set, so that no recovery is started either. -/
def OneCycle (st : QueueRecoverySchedule) : Prop :=
  st.pending.length ≤ 1 ∧ (st.isLeader = false → st.timers = [])

/-- The condition on a step: the first timer of a cycle is set when no cycle is pending, and a
recovery ends while the instance is the leader. -/
def Timely (st : QueueRecoverySchedule) : Event → Prop
  | .setupQueue => st.queue = false → st.isLeader = true → st.pending = []
  | .leaderTakeover => st.pending = []
  | .recovered _ | .recoveryFailed _ => st.isLeader = true
  | .leaderStepdown | .timerFires _ => True

/-- The invariant: besides `OneCycle`, the shared field names the timer that is set. -/
structure Sound (st : QueueRecoverySchedule) : Prop where
  oneCycle : st.OneCycle
  timeout : ∀ timer ∈ st.timers, st.timeout = some timer

theorem sound_start (isLeader : Bool) : (start isLeader).Sound where
  oneCycle := ⟨Nat.zero_le 1, fun _ => rfl⟩
  timeout := by
    intro timer hmem
    exact absurd hmem List.not_mem_nil

theorem pending_scheduleQueueRecovery_length :
    st.scheduleQueueRecovery.pending.length = st.pending.length + 1 := by
  simp only [pending, scheduleQueueRecovery, List.length_append, List.length_singleton]
  omega

/-- A timer is set by a leader with nothing pending. -/
theorem Sound.scheduleQueueRecovery (hleader : st.isLeader = true) (hpending : st.pending = []) :
    st.scheduleQueueRecovery.Sound := by
  have htimers : st.timers = [] := (List.append_eq_nil_iff.mp hpending).1
  constructor
  · constructor
    · have hlength := st.pending_scheduleQueueRecovery_length
      rw [hpending, List.length_nil] at hlength
      exact hlength.le
    · intro hfollower
      exact absurd (hleader.symm.trans hfollower) (by decide)
  · intro timer hmem
    have hmem' : timer ∈ st.timers ++ [st.nextTimer] := hmem
    rw [htimers, List.nil_append, List.mem_singleton] at hmem'
    exact congrArg some hmem'.symm

theorem Sound.stopQueueRecovery (h : st.Sound) :
    { st with isLeader := false }.stopQueueRecovery.Sound := by
  -- the only timer that can be set is the one that the field names
  have htimers : { st with isLeader := false }.stopQueueRecovery.timers = [] := by
    rw [QueueRecoverySchedule.stopQueueRecovery]
    split
    next hnone =>
      refine List.eq_nil_iff_forall_not_mem.mpr fun timer hmem => ?_
      have hsome := h.timeout timer hmem
      exact absurd (hsome.symm.trans hnone) (by simp)
    next timeout htimeout =>
      refine List.filter_eq_nil_iff.mpr fun timer hmem => ?_
      have hsome := h.timeout timer hmem
      have heq : timer = timeout := Option.some.inj (hsome.symm.trans htimeout)
      simpa using heq
  have hrecovering :
      { st with isLeader := false }.stopQueueRecovery.recovering = st.recovering := by
    rw [QueueRecoverySchedule.stopQueueRecovery]
    split <;> rfl
  constructor
  · constructor
    · have hle := h.oneCycle.1
      rw [pending, List.length_append] at hle
      rw [pending, htimers, hrecovering, List.nil_append]
      omega
    · intro _
      exact htimers
  · intro timer hmem
    rw [htimers] at hmem
    exact absurd hmem List.not_mem_nil

/-- A list with at most one element that has one has no other. -/
private theorem recovering_eq_nil_of_mem {timer : TimerId} (h : st.pending.length ≤ 1)
    (hmem : timer ∈ st.timers) : st.recovering = [] := by
  have hpos : 0 < st.timers.length := List.length_pos_of_mem hmem
  rw [pending, List.length_append] at h
  exact List.eq_nil_of_length_eq_zero (by omega)

theorem Sound.timerFires {timer : TimerId} (h : st.Sound) (hmem : timer ∈ st.timers) :
    { st with
      timers := st.timers.erase timer
      recovering := st.recovering ++ [timer] }.Sound := by
  have hrecovering := recovering_eq_nil_of_mem h.oneCycle.1 hmem
  have hlength : st.timers.length ≤ 1 := by
    have hle := h.oneCycle.1
    rwa [pending, hrecovering, List.append_nil] at hle
  have htimers : st.timers.erase timer = [] := by
    refine List.eq_nil_of_length_eq_zero ?_
    rw [List.length_erase_of_mem hmem]
    omega
  constructor
  · constructor
    · simp [pending, htimers, hrecovering]
    · intro _
      exact htimers
  · intro other hother
    rw [htimers] at hother
    exact absurd hother List.not_mem_nil

/-- After the only recovery nothing is pending. -/
theorem pending_erase {timer : TimerId} (h : st.pending.length ≤ 1)
    (hmem : timer ∈ st.recovering) :
    { st with recovering := st.recovering.erase timer }.pending = [] := by
  have hpos : 0 < st.recovering.length := List.length_pos_of_mem hmem
  rw [pending, List.length_append] at h
  have htimers : st.timers = [] := List.eq_nil_of_length_eq_zero (by omega)
  have herase : st.recovering.erase timer = [] := by
    refine List.eq_nil_of_length_eq_zero ?_
    rw [List.length_erase_of_mem hmem]
    omega
  exact List.append_eq_nil_iff.mpr ⟨htimers, herase⟩

theorem Sound.endRecovery {timer : TimerId} (h : st.Sound) (hmem : timer ∈ st.recovering)
    (hleader : st.isLeader = true) : (st.endRecovery timer).Sound :=
  Sound.scheduleQueueRecovery hleader (pending_erase h.oneCycle.1 hmem)

theorem Sound.setupQueue (h : st.Sound) (htimely : st.Timely .setupQueue) :
    st.setupQueue.Sound := by
  rw [QueueRecoverySchedule.setupQueue]
  split
  · exact h
  next hqueue =>
    split
    next hleader =>
      exact Sound.scheduleQueueRecovery hleader
        (htimely (Bool.eq_false_of_not_eq_true hqueue) hleader)
    · exact ⟨h.oneCycle, h.timeout⟩

theorem Sound.step {event : Event} (h : st.Sound) (htimely : st.Timely event)
    (hstep : st.Step event st') : st'.Sound := by
  cases event with
  | setupQueue =>
    obtain rfl := Option.some.inj hstep
    exact h.setupQueue htimely
  | leaderTakeover =>
    obtain ⟨_, heq⟩ := Option.ite_none_left_eq_some.mp hstep
    obtain rfl := Option.some.inj heq
    exact Sound.scheduleQueueRecovery rfl htimely
  | leaderStepdown =>
    obtain ⟨_, heq⟩ := Option.ite_none_right_eq_some.mp hstep
    obtain rfl := Option.some.inj heq
    exact h.stopQueueRecovery
  | timerFires timer =>
    obtain ⟨hmem, heq⟩ := Option.ite_none_right_eq_some.mp hstep
    obtain rfl := Option.some.inj heq
    exact h.timerFires hmem
  | recovered timer | recoveryFailed timer =>
    obtain ⟨hmem, heq⟩ := Option.ite_none_right_eq_some.mp hstep
    obtain rfl := Option.some.inj heq
    exact h.endRecovery hmem htimely

/-! ### The condition is exact -/

theorem not_oneCycle_scheduleQueueRecovery (hpending : st.pending ≠ []) :
    ¬st.scheduleQueueRecovery.OneCycle := by
  intro h
  have hlength := st.pending_scheduleQueueRecovery_length
  have hpos := List.length_pos_iff.mpr hpending
  have hle := h.1
  omega

theorem not_oneCycle_endRecovery {timer : TimerId} (hfollower : st.isLeader = false) :
    ¬(st.endRecovery timer).OneCycle := by
  intro h
  have htimers : st.timers ++ [st.nextTimer] = [] := h.2 hfollower
  exact List.append_ne_nil_of_right_ne_nil _ (List.cons_ne_nil _ _) htimers

theorem not_oneCycle_of_not_timely {event : Event} (htimely : ¬st.Timely event)
    (hstep : st.Step event st') : ¬st'.OneCycle := by
  cases event with
  | setupQueue =>
    obtain rfl := Option.some.inj hstep
    simp only [Timely, Classical.not_imp] at htimely
    obtain ⟨hqueue, hleader, hpending⟩ := htimely
    simp only [setupQueue, hqueue, hleader, Bool.false_eq_true, if_false, if_true]
    exact not_oneCycle_scheduleQueueRecovery hpending
  | leaderTakeover =>
    obtain ⟨_, heq⟩ := Option.ite_none_left_eq_some.mp hstep
    obtain rfl := Option.some.inj heq
    exact not_oneCycle_scheduleQueueRecovery htimely
  | leaderStepdown | timerFires timer => exact absurd trivial htimely
  | recovered timer | recoveryFailed timer =>
    obtain ⟨_, heq⟩ := Option.ite_none_right_eq_some.mp hstep
    obtain rfl := Option.some.inj heq
    exact not_oneCycle_endRecovery (Bool.eq_false_of_not_eq_true htimely)

/-- **One recovery cycle, only on the leader**: a run keeps to it if and only if all its steps
are timely. -/
theorem visits_oneCycle_iff (isLeader : Bool) (run : Transition.Run Step (start isLeader) st) :
    run.Visits OneCycle ↔ run.Takes Timely :=
  Transition.Run.visits_iff_takes (fun _ h => h.oneCycle)
    (fun _ _ _ h htimely hstep => h.step htimely hstep)
    (fun _ _ _ _ htimely hstep => not_oneCycle_of_not_timely htimely hstep)
    (sound_start isLeader) run

/-- A stepdown that falls into a recovery does not end the cycle: the callback sets the next
timer, and after a takeover there are two cycles. -/
theorem not_oneCycle_stepdownDuringRecovery :
    ∃ st, ∃ run : Transition.Run Step (start true) st,
      ¬run.Visits OneCycle ∧ st.isLeader = false ∧ st.timers ≠ [] := by
  have hstate : [Event.setupQueue, .timerFires 0, .leaderStepdown, .recovered 0].foldlM step?
      (start true) = some ⟨false, true, some 1, [1], 2, []⟩ := by decide
  obtain ⟨run, _⟩ := Transition.Run.exists_labels_eq hstate
  refine ⟨_, run, fun h => ?_, rfl, List.cons_ne_nil _ _⟩
  exact List.cons_ne_nil _ _ (h.last.2 rfl)

end QueueRecoverySchedule

end N8n
