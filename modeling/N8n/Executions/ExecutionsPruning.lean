import Mathlib.Data.Rat.Defs
import N8n.Foundations.TimerSlot
import N8n.Foundations.Transition

/-!
# Pruning of executions

The leader soft-deletes executions in an interval, and hard-deletes what is soft-deleted step
after step: a timeout starts `hardDelete`, and when it has completed or failed the callback sets
the next timeout. `init` and a takeover arm both timers, and a stepdown and the shutdown clear
what the two fields name.

A hard deletion awaits the database twice. How long timers wait is data of the model, but a timer
that is armed fires whenever it likes.
-/

namespace N8n

namespace ExecutionsPruning

inductive InstanceRole where
  | unset
  | leader
  | follower
  deriving DecidableEq, Repr

structure Settings where
  /-- `executionsConfig.pruneData`. -/
  pruneData : Bool
  /-- `instanceSettings.instanceType === 'main'`. -/
  isMain : Bool
  /-- `rates.softDeletion`. -/
  softDeletion : ℚ
  /-- `rates.hardDeletion`. -/
  hardDeletion : ℚ

/-- Where a call of `hardDelete` is. -/
inductive HardDeletion where
  /-- At `findSoftDeletedExecutions`. -/
  | finding
  /-- At `executionPersistence.hardDelete(refs)`. -/
  | deleting (refs : ℕ)
  deriving DecidableEq, Repr

/-- Max number of executions to hard-delete in a cycle. -/
def batchSize : ℕ := 100

end ExecutionsPruning

open ExecutionsPruning in
structure ExecutionsPruning where
  /-- `instanceSettings.instanceRole`. -/
  instanceRole : InstanceRole := .unset
  /-- `dbConnection.connectionState.migrated`. -/
  migrated : Bool := false
  isShuttingDown : Bool := false
  softDeletionInterval : TimerSlot ℚ := {}
  hardDeletionTimeout : TimerSlot ℚ := {}
  /-- The calls of `hardDelete` in progress, by their timers. -/
  hardDeletions : List (ℕ × HardDeletion) := []
  deriving DecidableEq, Repr

namespace ExecutionsPruning

variable (settings : Settings) (st : ExecutionsPruning)

/-! ### The routines -/

def isLeader : Bool := st.instanceRole = .leader

def isEnabled : Bool := settings.pruneData && settings.isMain && st.isLeader

def scheduleRollingSoftDeletions : ExecutionsPruning :=
  { st with softDeletionInterval := st.softDeletionInterval.arm settings.softDeletion }

def scheduleNextHardDeletion (rateMs : ℚ) : ExecutionsPruning :=
  { st with hardDeletionTimeout := st.hardDeletionTimeout.arm rateMs }

/-- `startPruning` gets past its check. -/
def Starts : Prop :=
  st.isEnabled settings = true ∧ st.migrated = true ∧ st.isShuttingDown = false

instance : Decidable (st.Starts settings) := inferInstanceAs (Decidable (_ ∧ _))

def startPruning : ExecutionsPruning :=
  if st.Starts settings then
    (st.scheduleRollingSoftDeletions settings).scheduleNextHardDeletion settings.hardDeletion
  else st

def stopPruning : ExecutionsPruning :=
  { st with
    softDeletionInterval := st.softDeletionInterval.clear
    hardDeletionTimeout := st.hardDeletionTimeout.clear }

/-- `init()`. It throws while the role is not set. -/
def init : ExecutionsPruning := if st.isLeader then st.startPruning settings else st

/-- `shutdown()`. -/
def shutdown : ExecutionsPruning := { st with isShuttingDown := true }.stopPruning

/-- The time to the next hard deletion, after one of so many executions. -/
def nextRate (refs : ℕ) : ℚ := if refs ≥ batchSize then 1000 else settings.hardDeletion

/-- The callback of the timeout ends with setting the next one. -/
def endHardDeletion (timer : ℕ) (rateMs : ℚ) : ExecutionsPruning :=
  { st with hardDeletions := st.hardDeletions.filter (·.1 ≠ timer) }.scheduleNextHardDeletion rateMs

/-! ### Steps -/

inductive Event where
  | init
  | leaderTakeover
  | leaderStepdown
  | shutdown
  | databaseMigrated
  /-- The interval fires, and executions are soft-deleted. -/
  | softDeletes (timer : ℕ)
  /-- A timeout fires, and its callback calls `hardDelete`. -/
  | hardDeletes (timer : ℕ)
  /-- The call goes on with the soft-deleted executions, or fails. -/
  | found (timer : ℕ) (refs : Option ℕ)
  /-- The call goes on after the deletion. That it has failed makes no difference. -/
  | deleted (timer : ℕ) (ok : Bool)
  deriving DecidableEq, Repr

def step? : Event → Option ExecutionsPruning
  | .init => some (st.init settings)
  -- `takeOverAsLeader` and `stepDownToFollower` assert the role that the instance has
  | .leaderTakeover =>
    if st.isLeader then none else some ({ st with instanceRole := .leader }.startPruning settings)
  | .leaderStepdown =>
    if st.isLeader then some { st with instanceRole := .follower }.stopPruning else none
  | .shutdown => some st.shutdown
  | .databaseMigrated => some { st with migrated := true }
  | .softDeletes timer => if st.softDeletionInterval.Armed timer then some st else none
  | .hardDeletes timer =>
    if st.hardDeletionTimeout.Armed timer then
      some { st with
        hardDeletionTimeout := st.hardDeletionTimeout.fire timer
        hardDeletions := st.hardDeletions ++ [(timer, .finding)] }
    else none
  | .found timer refs =>
    if (timer, .finding) ∈ st.hardDeletions then
      match refs with
      | none => some (st.endHardDeletion timer 1000)
      | some 0 => some (st.endHardDeletion timer settings.hardDeletion)
      | some refs => some { st with
          hardDeletions := st.hardDeletions.map fun call =>
            if call.1 = timer then (timer, .deleting refs) else call }
    else none
  | .deleted timer _ =>
    match st.hardDeletions.find? (·.1 = timer) with
    | some (_, .deleting refs) => some (st.endHardDeletion timer (nextRate settings refs))
    | _ => none

/-- The service when the process has started, with the role that the instance has then. -/
def start (instanceRole : InstanceRole) (migrated : Bool) : ExecutionsPruning :=
  { instanceRole, migrated }

abbrev Step (st : ExecutionsPruning) (event : Event) (st' : ExecutionsPruning) : Prop :=
  st.step? settings event = some st'

/-! ### One cycle, only on the leader -/

/-- The instance has stepped down and not taken over again, or it is shutting down. -/
def Stopped : Prop := st.isLeader = false ∨ st.isShuttingDown = true

/-- At most one timeout or hard deletion is pending, at most one interval is armed, and while the
instance is stopped no timeout is armed. -/
structure PrunesOnce : Prop where
  hard : st.hardDeletionTimeout.armed.length + st.hardDeletions.length ≤ 1
  soft : st.softDeletionInterval.armed.length ≤ 1
  stopped : st.Stopped → st.hardDeletionTimeout.armed = []

/-- Nothing is armed or in progress. -/
structure Idle : Prop where
  hard : st.hardDeletionTimeout.armed = []
  deletions : st.hardDeletions = []
  soft : st.softDeletionInterval.armed = []

/-- The event is the end of a hard deletion. -/
def Event.EndsDeletion : Event → Prop
  | .found _ refs => refs = none ∨ refs = some 0
  | .deleted _ _ => True
  | _ => False

/-- The condition on a step: pruning starts when nothing of it is left, and a hard deletion ends
while the instance is not stopped. -/
def Timely : Event → Prop
  | .init => st.isLeader = true → st.Starts settings → st.Idle
  | .leaderTakeover => { st with instanceRole := .leader }.Starts settings → st.Idle
  | event => event.EndsDeletion → ¬st.Stopped

/-- The invariant: besides `PrunesOnce`, the fields name what is armed. -/
structure Sound : Prop where
  prunesOnce : st.PrunesOnce
  hard : st.hardDeletionTimeout.Named
  soft : st.softDeletionInterval.Named

variable {settings st} {st' : ExecutionsPruning}

theorem sound_start (instanceRole : InstanceRole) (migrated : Bool) :
    (start instanceRole migrated).Sound where
  prunesOnce :=
    { hard := Nat.zero_le 1
      soft := Nat.zero_le 1
      stopped := fun _ => rfl }
  hard := TimerSlot.named_of_armed_eq_nil rfl
  soft := TimerSlot.named_of_armed_eq_nil rfl

theorem Starts.not_stopped (h : st.Starts settings) : ¬st.Stopped := by
  obtain ⟨henabled, -, hshutdown⟩ := h
  have hleader : st.isLeader = true := (Bool.and_eq_true_iff.mp henabled).2
  rintro (hfollower | hstopping)
  · exact absurd (hleader.symm.trans hfollower) (by decide)
  · exact absurd (hshutdown.symm.trans hstopping) (by decide)

theorem startPruning_of_starts (h : st.Starts settings) : st.startPruning settings =
    (st.scheduleRollingSoftDeletions settings).scheduleNextHardDeletion settings.hardDeletion :=
  if_pos h

/-- Pruning starts when nothing of it is left. -/
theorem Idle.startPruning (h : st.Idle) (hstarts : st.Starts settings) :
    (st.startPruning settings).Sound := by
  rw [startPruning_of_starts hstarts]
  constructor
  · constructor
    · have hlength := st.hardDeletionTimeout.length_armed_arm settings.hardDeletion
      rw [h.hard, List.length_nil] at hlength
      change (st.hardDeletionTimeout.arm _).armed.length + st.hardDeletions.length ≤ 1
      rw [hlength, h.deletions, List.length_nil]
    · have hlength := st.softDeletionInterval.length_armed_arm settings.softDeletion
      rw [h.soft, List.length_nil] at hlength
      exact hlength.le
    · intro hstopped
      exact absurd hstopped hstarts.not_stopped
  · exact TimerSlot.Named.arm h.hard _
  · exact TimerSlot.Named.arm h.soft _

/-- Stopping clears both timers, whatever it is for. -/
theorem Sound.stopPruning (h : st.Sound) (instanceRole : InstanceRole) (isShuttingDown : Bool) :
    { st with
      instanceRole := instanceRole
      isShuttingDown := isShuttingDown }.stopPruning.Sound := by
  have hhard : st.hardDeletionTimeout.clear.armed = [] := h.hard.armed_clear
  have hsoft : st.softDeletionInterval.clear.armed = [] := h.soft.armed_clear
  constructor
  · constructor
    · have hle := h.prunesOnce.hard
      change st.hardDeletionTimeout.clear.armed.length + st.hardDeletions.length ≤ 1
      rw [hhard, List.length_nil]
      omega
    · change st.softDeletionInterval.clear.armed.length ≤ 1
      rw [hsoft]
      exact Nat.zero_le 1
    · exact fun _ => hhard
  · exact TimerSlot.named_of_armed_eq_nil hhard
  · exact TimerSlot.named_of_armed_eq_nil hsoft

/-- The only timeout that fires leaves none, and its call is the only one in progress. -/
theorem Sound.hardDeletes {timer : ℕ} (h : st.Sound)
    (harmed : st.hardDeletionTimeout.Armed timer) :
    { st with
      hardDeletionTimeout := st.hardDeletionTimeout.fire timer
      hardDeletions := st.hardDeletions ++ [(timer, HardDeletion.finding)] }.Sound := by
  have hpending := h.prunesOnce.hard
  have hfired : (st.hardDeletionTimeout.fire timer).armed = [] :=
    TimerSlot.armed_fire (by omega) harmed
  obtain ⟨armed, hmem, -⟩ := harmed
  have hpos := List.length_pos_of_mem hmem
  constructor
  · constructor
    · change (st.hardDeletionTimeout.fire timer).armed.length +
        (st.hardDeletions ++ [(timer, HardDeletion.finding)]).length ≤ 1
      rw [hfired, List.length_append, List.length_nil, List.length_singleton]
      omega
    · exact h.prunesOnce.soft
    · exact fun _ => hfired
  · exact TimerSlot.named_of_armed_eq_nil hfired
  · exact h.soft

/-- A call that is the only one in progress ends, and sets the next timeout. -/
theorem Sound.endHardDeletion {call : ℕ × HardDeletion} (h : st.Sound)
    (hmem : call ∈ st.hardDeletions) (hstopped : ¬st.Stopped) (rateMs : ℚ) :
    (st.endHardDeletion call.1 rateMs).Sound := by
  have hpending := h.prunesOnce.hard
  have hpos := List.length_pos_of_mem hmem
  have harmed : st.hardDeletionTimeout.armed = [] := List.eq_nil_of_length_eq_zero (by omega)
  have hended : st.hardDeletions.filter (·.1 ≠ call.1) = [] := by
    obtain ⟨only, honly⟩ := List.length_eq_one_iff.mp (show st.hardDeletions.length = 1 by omega)
    rw [honly, List.mem_singleton] at hmem
    rw [honly, hmem]
    simp
  constructor
  · constructor
    · have hlength := st.hardDeletionTimeout.length_armed_arm rateMs
      change (st.hardDeletionTimeout.arm rateMs).armed.length +
        (st.hardDeletions.filter (·.1 ≠ call.1)).length ≤ 1
      rw [hlength, harmed, hended]
      exact Nat.le_refl 1
    · exact h.prunesOnce.soft
    · exact fun hnow => absurd hnow hstopped
  · exact TimerSlot.Named.arm harmed _
  · exact h.soft

/-- The step of a call to its deletion. -/
theorem Sound.deleting (h : st.Sound) (f : ℕ × HardDeletion → ℕ × HardDeletion) :
    { st with hardDeletions := st.hardDeletions.map f }.Sound where
  prunesOnce :=
    { hard := by
        rw [List.length_map]
        exact h.prunesOnce.hard
      soft := h.prunesOnce.soft
      stopped := h.prunesOnce.stopped }
  hard := h.hard
  soft := h.soft

theorem Sound.step {event : Event} (h : st.Sound) (htimely : st.Timely settings event)
    (hstep : Step settings st event st') : st'.Sound := by
  cases event with
  | init =>
    obtain rfl := Option.some.inj hstep
    rw [init]
    split
    next hleader =>
      by_cases hstarts : st.Starts settings
      · exact (htimely hleader hstarts).startPruning hstarts
      · rwa [startPruning, if_neg hstarts]
    · exact h
  | leaderTakeover =>
    obtain ⟨hfollower, heq⟩ := Option.ite_none_left_eq_some.mp hstep
    obtain rfl := Option.some.inj heq
    by_cases hstarts : { st with instanceRole := .leader }.Starts settings
    · have hidle := htimely hstarts
      exact Idle.startPruning ⟨hidle.hard, hidle.deletions, hidle.soft⟩ hstarts
    · rw [startPruning, if_neg hstarts]
      have hnone := h.prunesOnce.stopped (Or.inl (Bool.eq_false_of_not_eq_true hfollower))
      exact ⟨⟨h.prunesOnce.hard, h.prunesOnce.soft, fun _ => hnone⟩, h.hard, h.soft⟩
  | leaderStepdown =>
    obtain ⟨_, heq⟩ := Option.ite_none_right_eq_some.mp hstep
    obtain rfl := Option.some.inj heq
    exact h.stopPruning .follower st.isShuttingDown
  | shutdown =>
    obtain rfl := Option.some.inj hstep
    exact h.stopPruning st.instanceRole true
  | databaseMigrated =>
    obtain rfl := Option.some.inj hstep
    have hprunes := h.prunesOnce
    exact ⟨⟨hprunes.hard, hprunes.soft, hprunes.stopped⟩, h.hard, h.soft⟩
  | softDeletes timer =>
    obtain ⟨_, heq⟩ := Option.ite_none_right_eq_some.mp hstep
    obtain rfl := Option.some.inj heq
    exact h
  | hardDeletes timer =>
    obtain ⟨harmed, heq⟩ := Option.ite_none_right_eq_some.mp hstep
    obtain rfl := Option.some.inj heq
    exact h.hardDeletes harmed
  | found timer refs =>
    obtain ⟨hmem, heq⟩ := Option.ite_none_right_eq_some.mp hstep
    split at heq
    · obtain rfl := Option.some.inj heq
      exact h.endHardDeletion hmem (htimely (Or.inl rfl)) _
    · obtain rfl := Option.some.inj heq
      exact h.endHardDeletion hmem (htimely (Or.inr rfl)) _
    · obtain rfl := Option.some.inj heq
      exact h.deleting _
  | deleted timer ok =>
    rw [Step, step?] at hstep
    split at hstep
    next call refs hfind =>
      obtain rfl := Option.some.inj hstep
      have hfound := List.find?_some hfind
      have hsame : call = timer := of_decide_eq_true hfound
      have hend := h.endHardDeletion (List.mem_of_find?_eq_some hfind) (htimely trivial)
        (nextRate settings refs)
      rwa [hsame] at hend
    · exact nomatch hstep

/-! ### The condition is exact -/

theorem not_prunesOnce_startPruning (hstarts : st.Starts settings) (hidle : ¬st.Idle) :
    ¬(st.startPruning settings).PrunesOnce := by
  intro h
  rw [startPruning_of_starts hstarts] at h
  have hhard : (st.hardDeletionTimeout.arm settings.hardDeletion).armed.length +
      st.hardDeletions.length ≤ 1 := h.hard
  have hsoft : (st.softDeletionInterval.arm settings.softDeletion).armed.length ≤ 1 := h.soft
  rw [TimerSlot.length_armed_arm] at hhard hsoft
  refine hidle ⟨?_, ?_, ?_⟩ <;> exact List.eq_nil_of_length_eq_zero (by omega)

theorem not_prunesOnce_endHardDeletion (hstopped : st.Stopped) (timer : ℕ) (rateMs : ℚ) :
    ¬(st.endHardDeletion timer rateMs).PrunesOnce := by
  intro h
  have hnone : (st.hardDeletionTimeout.arm rateMs).armed = [] := h.stopped hstopped
  exact List.append_ne_nil_of_right_ne_nil _ (List.cons_ne_nil _ _) hnone

theorem not_prunesOnce_of_not_timely {event : Event} (htimely : ¬st.Timely settings event)
    (hstep : Step settings st event st') : ¬st'.PrunesOnce := by
  cases event with
  | init =>
    obtain rfl := Option.some.inj hstep
    simp only [Timely, Classical.not_imp] at htimely
    obtain ⟨hleader, hstarts, hidle⟩ := htimely
    rw [init, if_pos hleader]
    exact not_prunesOnce_startPruning hstarts hidle
  | leaderTakeover =>
    obtain ⟨_, heq⟩ := Option.ite_none_left_eq_some.mp hstep
    obtain rfl := Option.some.inj heq
    simp only [Timely, Classical.not_imp] at htimely
    obtain ⟨hstarts, hidle⟩ := htimely
    refine not_prunesOnce_startPruning hstarts fun hnow => hidle ?_
    exact ⟨hnow.hard, hnow.deletions, hnow.soft⟩
  | leaderStepdown | shutdown | databaseMigrated | softDeletes timer | hardDeletes timer =>
    exact absurd (fun hends => hends.elim) htimely
  | found timer refs =>
    simp only [Timely, Classical.not_imp, not_not] at htimely
    obtain ⟨hends, hstopped⟩ := htimely
    obtain ⟨_, heq⟩ := Option.ite_none_right_eq_some.mp hstep
    obtain rfl | rfl := hends
    · obtain rfl := Option.some.inj heq
      exact not_prunesOnce_endHardDeletion hstopped timer _
    · obtain rfl := Option.some.inj heq
      exact not_prunesOnce_endHardDeletion hstopped timer _
  | deleted timer ok =>
    simp only [Timely, Classical.not_imp, not_not] at htimely
    obtain ⟨-, hstopped⟩ := htimely
    rw [Step, step?] at hstep
    split at hstep
    · obtain rfl := Option.some.inj hstep
      exact not_prunesOnce_endHardDeletion hstopped timer _
    · exact nomatch hstep

/-- **Executions are pruned once, and only by the leader**: a run keeps to it if and only if all its
steps are timely. -/
theorem visits_prunesOnce_iff (instanceRole : InstanceRole) (migrated : Bool)
    (run : Transition.Run (Step settings) (start instanceRole migrated) st) :
    run.Visits PrunesOnce ↔ run.Takes (Timely settings) :=
  Transition.Run.visits_iff_takes (fun _ h => h.prunesOnce)
    (fun _ _ _ h htimely hstep => h.step htimely hstep)
    (fun _ _ _ _ htimely hstep => not_prunesOnce_of_not_timely htimely hstep)
    (sound_start instanceRole migrated) run

/-- The rates by default, in milliseconds. -/
def defaultSettings : Settings := ⟨true, true, 3600000, 900000⟩

/-- A hard deletion that is in progress at a stepdown sets the next timeout on the follower. -/
theorem not_prunesOnce_stepdownDuringDeletion :
    ∃ st, ∃ run : Transition.Run (Step defaultSettings) (start .leader true) st,
      ¬run.Visits PrunesOnce ∧ st.isLeader = false ∧ st.hardDeletionTimeout.armed ≠ [] := by
  have hstate : [Event.init, .hardDeletes 0, .leaderStepdown, .found 0 (some 0)].foldlM
      (step? defaultSettings) (start .leader true) = some {
        instanceRole := .follower
        migrated := true
        softDeletionInterval := { field := some 0, next := 1 }
        hardDeletionTimeout := { field := some 1, armed := [⟨1, 900000⟩], next := 2 } } := by
    decide
  obtain ⟨run, _⟩ := Transition.Run.exists_labels_eq hstate
  refine ⟨_, run, fun h => ?_, rfl, List.cons_ne_nil _ _⟩
  exact List.cons_ne_nil _ _ (h.last.stopped (Or.inl rfl))

end ExecutionsPruning

end N8n
