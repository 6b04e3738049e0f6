import N8n.Foundations.Transition
import N8n.Scaling.QueueRecovery

/-!
# Recovery crashes only dangling executions

An execution that is in the database, has no job and is not being enqueued is settled: nothing
happens to it but the recovery. Marking it as crashed is what the recovery is for, unless it
is settled because it has finished. The executions that `recoverFromQueue` holds on to when it
has made its second read have no job; whether they are settled depends on what happened between
the reads.
-/

namespace N8n.QueueRecovery

open Transition

variable {context : QueueRecoveryContext} {st st' : QueueRecovery} {id : ExecutionId}

/-- The execution has ended for good. -/
def Finished (st : QueueRecovery) (id : ExecutionId) : Prop :=
  ∃ status, st.executions.get? id = some status ∧ ¬InProgress status ∧ status ≠ .waiting

variable (context) in
/-- However the run goes on, no job is added for the execution. -/
def NoJobComes (st : QueueRecovery) (id : ExecutionId) : Prop :=
  ∀ st', ∀ run : Run (Step context) st st', Event.addJob id ∉ run.labels

variable (context) in
/-- The execution has no job and will get none, and it has not finished. -/
def Dangling (st : QueueRecovery) (id : ExecutionId) : Prop :=
  st.jobs.has id = false ∧ st.NoJobComes context id ∧ ¬st.Finished id

variable (context) in
/-- The executions that a step marks as crashed are dangling. -/
def CrashesOnlyDangling (st : QueueRecovery) : Event → Prop
  | .batchMarked => ∀ storedIds ids, st.recovery = .marking storedIds ids →
      ∀ id ∈ ids.take maxUpdateBatchSize, st.Dangling context id
  | _ => True

variable (context) in
/-- The executions that are about to be marked as crashed are dangling. -/
def HoldsOnlyDangling (st : QueueRecovery) : Prop :=
  ∀ storedIds ids, st.recovery = .marking storedIds ids → ∀ id ∈ ids, st.Dangling context id

/-- The condition on a step: when the jobs are read, an execution that was read and has no job is
neither being enqueued nor finished. -/
def Timely (st : QueueRecovery) : Event → Prop
  | .jobsFound => ∀ storedIds, st.recovery = .findingJobs storedIds → ∀ id ∈ storedIds,
      st.jobs.has id = false → id ∉ st.enqueuing ∧ ¬st.Finished id
  | _ => True

/-! ### Settled executions -/

/-- The execution that a step is about. -/
def Event.execution? : Event → Option ExecutionId
  | .insert id | .addJob id | .enqueueFails id | .processDies id | .jobActive id
  | .executionLoaded id | .setRunning id | .executed id _ | .jobCompleted id
  | .jobLost id => some id
  | .recoverFromQueue | .executionsFound _ | .jobsFound | .batchMarked | .recoveryFailed => none

/-- The execution is in the database, has no job, and is not being enqueued. -/
structure Settled (st : QueueRecovery) (id : ExecutionId) : Prop where
  stored : st.executions.has id = true
  noJob : st.jobs.has id = false
  notEnqueuing : id ∉ st.enqueuing

theorem has_of_get? {α : Type} {m : InsertionMap ExecutionId α} {a : α} (h : m.get? id = some a) :
    m.has id = true := by
  rw [InsertionMap.has, h, Option.isSome_some]

/-- No step is about a settled execution. -/
theorem Settled.execution?_ne {event : Event} (h : st.Settled id)
    (hstep : Step context st event st') : event.execution? ≠ some id := by
  have hjob : ∀ phase, st.jobs.get? id ≠ some phase := by
    intro phase hphase
    exact absurd ((has_of_get? hphase).symm.trans h.noJob) (by decide)
  intro hid
  cases event with
  | insert _ =>
    obtain rfl := Option.some.inj hid
    obtain ⟨hfresh, _⟩ := Option.ite_none_left_eq_some.mp hstep
    exact hfresh h.stored
  | addJob _ | enqueueFails _ | processDies _ =>
    obtain rfl := Option.some.inj hid
    exact h.notEnqueuing (Option.ite_none_right_eq_some.mp hstep).1
  | jobActive _ | executionLoaded _ | setRunning _ | jobCompleted _ =>
    obtain rfl := Option.some.inj hid
    exact hjob _ (Option.ite_none_right_eq_some.mp hstep).1
  | executed _ _ =>
    obtain rfl := Option.some.inj hid
    exact hjob _ (Option.ite_none_right_eq_some.mp hstep).1.1
  | jobLost _ =>
    obtain rfl := Option.some.inj hid
    have hhas := (Option.ite_none_right_eq_some.mp hstep).1
    exact absurd (hhas.symm.trans h.noJob) (by decide)
  | recoverFromQueue | executionsFound _ | jobsFound | batchMarked | recoveryFailed => cases hid

/-! ### What a step changes -/

/-- The data of an execution is the same in two states. -/
structure Same (st st' : QueueRecovery) (id : ExecutionId) : Prop where
  executions : st'.executions.get? id = st.executions.get? id
  jobs : st'.jobs.get? id = st.jobs.get? id
  enqueuing : id ∈ st'.enqueuing ↔ id ∈ st.enqueuing

theorem Same.settled (h : Same st st' id) (hsettled : st.Settled id) : st'.Settled id where
  stored := by rw [InsertionMap.has, h.executions]; exact hsettled.stored
  noJob := by rw [InsertionMap.has, h.jobs]; exact hsettled.noJob
  notEnqueuing := fun hmem => hsettled.notEnqueuing (h.enqueuing.mp hmem)

theorem Same.finished_iff (h : Same st st' id) : st'.Finished id ↔ st.Finished id := by
  rw [Finished, Finished, h.executions]

theorem Same.trans {st'' : QueueRecovery} (h : Same st st' id) (h' : Same st' st'' id) :
    Same st st'' id where
  executions := h'.executions.trans h.executions
  jobs := h'.jobs.trans h.jobs
  enqueuing := h'.enqueuing.trans h.enqueuing

theorem same_recovery (recovery : Recovery) : Same st { st with recovery } id := ⟨rfl, rfl, Iff.rfl⟩

theorem same_setStatus {id' : ExecutionId} (hne : id ≠ id') (status : ExecutionStatus) :
    Same st (st.setStatus id' status) id :=
  ⟨st.executions.get?_set_of_ne hne status, rfl, Iff.rfl⟩

theorem same_setPhase {id' : ExecutionId} (hne : id ≠ id') (phase : JobPhase) :
    Same st (st.setPhase id' phase) id :=
  ⟨rfl, st.jobs.get?_set_of_ne hne phase, Iff.rfl⟩

theorem same_enqueued {id' : ExecutionId} (hne : id ≠ id') : Same st (st.enqueued id') id :=
  ⟨rfl, rfl, List.mem_erase_of_ne hne⟩

theorem same_eraseJob {id' : ExecutionId} (hne : id ≠ id') :
    Same st { st with jobs := st.jobs.erase id' } id :=
  ⟨rfl, by rw [InsertionMap.get?_erase, if_neg hne], Iff.rfl⟩

theorem same_foundExecutions (storedIds : List ExecutionId) :
    Same st (st.foundExecutions context storedIds) id := by
  rw [foundExecutions]
  split <;> exact same_recovery _

theorem same_foundJobs (storedIds : List ExecutionId) :
    Same st (st.foundJobs context storedIds) id := by
  rw [foundJobs]
  split <;> exact same_recovery _

/-- A step about one execution leaves the others as they are, and so do the reads. -/
theorem same_of_step {event : Event} (hne : event.execution? ≠ some id)
    (hmark : event ≠ .batchMarked) (hstep : Step context st event st') : Same st st' id := by
  cases event with
  | insert id' =>
    have hid : id ≠ id' := fun heq => hne (congrArg some heq.symm)
    obtain ⟨_, heq⟩ := Option.ite_none_left_eq_some.mp hstep
    obtain rfl := Option.some.inj heq
    have hset : Same st (st.setStatus id' .new) id := same_setStatus hid .new
    exact ⟨hset.executions, hset.jobs, List.mem_cons.trans (or_iff_right hid)⟩
  | addJob id' =>
    have hid : id ≠ id' := fun heq => hne (congrArg some heq.symm)
    obtain ⟨_, heq⟩ := Option.ite_none_right_eq_some.mp hstep
    obtain rfl := Option.some.inj heq
    exact (same_enqueued hid).trans (same_setPhase hid _)
  | enqueueFails id' =>
    have hid : id ≠ id' := fun heq => hne (congrArg some heq.symm)
    obtain ⟨_, heq⟩ := Option.ite_none_right_eq_some.mp hstep
    obtain rfl := Option.some.inj heq
    exact (same_enqueued hid).trans (same_setStatus hid _)
  | processDies id' =>
    have hid : id ≠ id' := fun heq => hne (congrArg some heq.symm)
    obtain ⟨_, heq⟩ := Option.ite_none_right_eq_some.mp hstep
    obtain rfl := Option.some.inj heq
    exact same_enqueued hid
  | jobActive id' =>
    have hid : id ≠ id' := fun heq => hne (congrArg some heq.symm)
    obtain ⟨_, heq⟩ := Option.ite_none_right_eq_some.mp hstep
    obtain rfl := Option.some.inj heq
    exact same_setPhase hid _
  | executionLoaded id' =>
    have hid : id ≠ id' := fun heq => hne (congrArg some heq.symm)
    obtain ⟨_, heq⟩ := Option.ite_none_right_eq_some.mp hstep
    obtain ⟨status, _, rfl⟩ := Option.map_eq_some_iff.mp heq
    rw [loaded]
    split <;> exact same_setPhase hid _
  | setRunning id' =>
    have hid : id ≠ id' := fun heq => hne (congrArg some heq.symm)
    obtain ⟨_, heq⟩ := Option.ite_none_right_eq_some.mp hstep
    obtain rfl := Option.some.inj heq
    exact (same_setStatus hid _).trans (same_setPhase hid _)
  | executed id' status =>
    have hid : id ≠ id' := fun heq => hne (congrArg some heq.symm)
    obtain ⟨_, heq⟩ := Option.ite_none_right_eq_some.mp hstep
    obtain rfl := Option.some.inj heq
    exact (same_setStatus hid _).trans (same_setPhase hid _)
  | jobCompleted id' | jobLost id' =>
    have hid : id ≠ id' := fun heq => hne (congrArg some heq.symm)
    obtain ⟨_, heq⟩ := Option.ite_none_right_eq_some.mp hstep
    obtain rfl := Option.some.inj heq
    exact same_eraseJob hid
  | recoverFromQueue =>
    rw [Step, step?] at hstep
    split at hstep
    · obtain rfl := Option.some.inj hstep
      exact same_recovery _
    · cases hstep
  | executionsFound order =>
    rw [Step, step?] at hstep
    split at hstep
    · obtain ⟨_, heq⟩ := Option.ite_none_right_eq_some.mp hstep
      obtain rfl := Option.some.inj heq
      exact same_foundExecutions _
    · cases hstep
  | jobsFound =>
    rw [Step, step?] at hstep
    split at hstep
    · obtain rfl := Option.some.inj hstep
      exact same_foundJobs _
    · cases hstep
  | batchMarked => exact absurd rfl hmark
  | recoveryFailed =>
    rw [Step, step?] at hstep
    split at hstep
    · cases hstep
    · obtain rfl := Option.some.inj hstep
      exact same_recovery _

/-- Marking a batch as crashed leaves the statuses of the other executions as they are. -/
theorem get?_foldl_set_crashed (batch : List ExecutionId) (hid : id ∉ batch)
    (executions : InsertionMap ExecutionId ExecutionStatus) :
    (batch.foldl (fun executions id => executions.set id .crashed) executions).get? id =
      executions.get? id := by
  induction batch generalizing executions with
  | nil => rfl
  | cons id' batch ih =>
    have hne : id ≠ id' := List.ne_of_not_mem_cons hid
    rw [List.foldl_cons, ih (List.not_mem_of_not_mem_cons hid), executions.get?_set_of_ne hne]

theorem has_setStatus {id' : ExecutionId} {status : ExecutionStatus}
    (h : st.executions.has id = true) : (st.setStatus id' status).executions.has id = true :=
  InsertionMap.has_eq_true_iff.mpr
    (InsertionMap.mem_keys_set.mpr (Or.inr (InsertionMap.has_eq_true_iff.mp h)))

theorem has_crash (batch : List ExecutionId) (h : st.executions.has id = true) :
    (st.crash batch).executions.has id = true := by
  induction batch generalizing st with
  | nil => exact h
  | cons id' batch ih =>
    have hset : (st.setStatus id' .crashed).executions.has id = true := has_setStatus h
    exact ih hset

/-- Executions stay in the database. -/
theorem has_of_step {event : Event} (h : st.executions.has id = true)
    (hstep : Step context st event st') : st'.executions.has id = true := by
  by_cases hmark : event = .batchMarked
  · subst hmark
    rw [Step, step?] at hstep
    split at hstep
    · obtain rfl := Option.some.inj hstep
      exact has_crash _ h
    · cases hstep
  by_cases hid : event.execution? = some id
  · cases event with
    | insert _ =>
      obtain ⟨_, heq⟩ := Option.ite_none_left_eq_some.mp hstep
      obtain rfl := Option.some.inj heq
      exact has_setStatus h
    | addJob _ | processDies _ | jobActive _ | jobCompleted _ | jobLost _ =>
      obtain ⟨_, heq⟩ := Option.ite_none_right_eq_some.mp hstep
      obtain rfl := Option.some.inj heq
      exact h
    | enqueueFails _ | setRunning _ | executed _ _ =>
      obtain ⟨_, heq⟩ := Option.ite_none_right_eq_some.mp hstep
      obtain rfl := Option.some.inj heq
      exact has_setStatus h
    | executionLoaded _ =>
      obtain ⟨_, heq⟩ := Option.ite_none_right_eq_some.mp hstep
      obtain ⟨status, _, rfl⟩ := Option.map_eq_some_iff.mp heq
      rw [loaded]
      split <;> exact h
    | recoverFromQueue | executionsFound _ | jobsFound | batchMarked | recoveryFailed => cases hid
  · rw [InsertionMap.has, (same_of_step hid hmark hstep).executions]
    exact h

theorem same_markBatch {storedIds ids : List ExecutionId} (hid : id ∉ ids.take maxUpdateBatchSize) :
    Same st (st.markBatch context storedIds ids) id :=
  ⟨get?_foldl_set_crashed _ hid _, rfl, Iff.rfl⟩

/-! ### Nothing happens to a settled execution -/

theorem Settled.step {event : Event} (h : st.Settled id) (hstep : Step context st event st') :
    st'.Settled id := by
  by_cases hmark : event = .batchMarked
  · subst hmark
    rw [Step, step?] at hstep
    split at hstep
    · obtain rfl := Option.some.inj hstep
      exact ⟨has_crash _ h.stored, h.noJob, h.notEnqueuing⟩
    · cases hstep
  · exact (same_of_step (h.execution?_ne hstep) hmark hstep).settled h

theorem Settled.noJobComes (h : st.Settled id) : st.NoJobComes context id := by
  intro st' run
  induction run with
  | refl => exact List.not_mem_nil
  | head event hstep run ih =>
    intro hmem
    obtain heq | hmem := List.mem_cons.mp hmem
    · exact h.execution?_ne hstep (congrArg Event.execution? heq.symm)
    · exact ih (h.step hstep) hmem

/-- An execution that is being enqueued may get a job. -/
theorem notEnqueuing_of_noJobComes (h : st.NoJobComes context id) : id ∉ st.enqueuing := by
  intro hmem
  have hstep : Step context st (.addJob id) ((st.enqueued id).setPhase id .waiting) := if_pos hmem
  exact h _ (.head (.addJob id) hstep (.refl _)) List.mem_cons_self

/-! ### The invariant -/

/-- What holds of the ids that the recovery holds on to. -/
def RecoverySound (st : QueueRecovery) : Prop :=
  match st.recovery with
  | .idle _ | .findingExecutions => True
  | .findingJobs storedIds => storedIds.Nodup ∧ ∀ id ∈ storedIds, st.executions.has id = true
  | .marking _ ids => ids.Nodup ∧ ∀ id ∈ ids, st.Settled id ∧ ¬st.Finished id

theorem recoverySound_init : init.RecoverySound := trivial

/-- A step about an execution leaves the recovery where it is. -/
theorem recovery_of_step {event : Event} (hid : event.execution? = some id)
    (hstep : Step context st event st') : st'.recovery = st.recovery := by
  cases event with
  | insert _ =>
    obtain ⟨_, heq⟩ := Option.ite_none_left_eq_some.mp hstep
    obtain rfl := Option.some.inj heq
    rfl
  | addJob _ | enqueueFails _ | processDies _ | jobActive _ | setRunning _ | executed _ _
  | jobCompleted _ | jobLost _ =>
    obtain ⟨_, heq⟩ := Option.ite_none_right_eq_some.mp hstep
    obtain rfl := Option.some.inj heq
    rfl
  | executionLoaded _ =>
    obtain ⟨_, heq⟩ := Option.ite_none_right_eq_some.mp hstep
    obtain ⟨status, _, rfl⟩ := Option.map_eq_some_iff.mp heq
    rw [loaded]
    split <;> rfl
  | recoverFromQueue | executionsFound _ | jobsFound | batchMarked | recoveryFailed => cases hid

/-- The steps about executions keep the invariant: what is to be marked is settled. -/
theorem RecoverySound.execution {event : Event} (h : st.RecoverySound)
    (hid : event.execution? = some id) (hstep : Step context st event st') :
    st'.RecoverySound := by
  have hmark : event ≠ .batchMarked := by
    rintro rfl
    cases hid
  rw [RecoverySound, recovery_of_step hid hstep]
  rw [RecoverySound] at h
  split
  · trivial
  · trivial
  next storedIds hrecovery =>
    rw [hrecovery] at h
    exact ⟨h.1, fun id' hmem => has_of_step (h.2 id' hmem) hstep⟩
  next storedIds ids hrecovery =>
    rw [hrecovery] at h
    refine ⟨h.1, fun id' hmem => ?_⟩
    obtain ⟨hsettled, hfinished⟩ := h.2 id' hmem
    have hsame := same_of_step (hsettled.execution?_ne hstep) hmark hstep
    exact ⟨hsame.settled hsettled, fun hend => hfinished (hsame.finished_iff.mp hend)⟩

theorem inProgressIds_nodup : st.inProgressIds.Nodup := InsertionMap.keys_nodup _

theorem has_of_mem_inProgressIds (h : id ∈ st.inProgressIds) : st.executions.has id = true := by
  obtain ⟨status, hmem⟩ := InsertionMap.mem_keys.mp h
  have hentry := (InsertionMap.mem_filter.mp hmem).1
  exact InsertionMap.has_eq_true_iff.mpr (InsertionMap.mem_keys.mpr ⟨status, hentry⟩)

theorem recoverySound_foundExecutions {storedIds : List ExecutionId} (hnodup : storedIds.Nodup)
    (hstored : ∀ id ∈ storedIds, st.executions.has id = true) :
    (st.foundExecutions context storedIds).RecoverySound := by
  rw [foundExecutions]
  split
  · trivial
  · exact ⟨hnodup, hstored⟩

theorem mem_danglingIds {storedIds : List ExecutionId} :
    id ∈ st.danglingIds storedIds ↔ id ∈ storedIds ∧ st.jobs.has id = false := by
  rw [danglingIds, List.mem_filter, Bool.not_eq_true']

theorem RecoverySound.foundJobs {storedIds : List ExecutionId} (h : st.RecoverySound)
    (hrecovery : st.recovery = .findingJobs storedIds) (htimely : st.Timely .jobsFound) :
    (st.foundJobs context storedIds).RecoverySound := by
  rw [RecoverySound, hrecovery] at h
  rw [QueueRecovery.foundJobs]
  split
  · trivial
  · refine ⟨h.1.filter _, fun id hmem => ?_⟩
    obtain ⟨hstored, hjob⟩ := mem_danglingIds.mp hmem
    obtain ⟨henqueuing, hfinished⟩ := htimely storedIds hrecovery id hstored hjob
    exact ⟨⟨h.2 id hstored, hjob, henqueuing⟩, hfinished⟩

theorem RecoverySound.markBatch {storedIds ids : List ExecutionId} (h : st.RecoverySound)
    (hrecovery : st.recovery = .marking storedIds ids) :
    (st.markBatch context storedIds ids).RecoverySound := by
  rw [RecoverySound, hrecovery] at h
  by_cases hrest : (ids.drop maxUpdateBatchSize).length = 0
  · rw [RecoverySound, QueueRecovery.markBatch, if_pos hrest]
    trivial
  · have hnext : (st.markBatch context storedIds ids).recovery =
        .marking storedIds (ids.drop maxUpdateBatchSize) := if_neg hrest
    rw [RecoverySound, hnext]
    -- no id is in two batches
    have hsplit := (List.take_append_drop maxUpdateBatchSize ids).symm ▸ h.1
    obtain ⟨_, hdrop, hdisjoint⟩ := List.nodup_append'.mp hsplit
    refine ⟨hdrop, fun id hmem => ?_⟩
    obtain ⟨hsettled, hfinished⟩ := h.2 id (List.mem_of_mem_drop hmem)
    have hsame : Same st (st.markBatch context storedIds ids) id :=
      same_markBatch fun htake => hdisjoint htake hmem
    exact ⟨hsame.settled hsettled, fun hend => hfinished (hsame.finished_iff.mp hend)⟩

theorem RecoverySound.step {event : Event} (h : st.RecoverySound) (htimely : st.Timely event)
    (hstep : Step context st event st') : st'.RecoverySound := by
  cases hid : event.execution? with
  | some id => exact h.execution hid hstep
  | none =>
    cases event with
    | recoverFromQueue =>
      rw [Step, step?] at hstep
      split at hstep
      · obtain rfl := Option.some.inj hstep
        trivial
      · cases hstep
    | executionsFound order =>
      rw [Step, step?] at hstep
      split at hstep
      · obtain ⟨hperm, heq⟩ := Option.ite_none_right_eq_some.mp hstep
        obtain rfl := Option.some.inj heq
        have hnodup : order.Nodup := hperm.nodup_iff.mpr inProgressIds_nodup
        refine recoverySound_foundExecutions (hnodup.sublist (List.take_sublist _ _)) ?_
        intro id hmem
        exact has_of_mem_inProgressIds (hperm.subset (List.mem_of_mem_take hmem))
      · cases hstep
    | jobsFound =>
      rw [Step, step?] at hstep
      split at hstep
      next storedIds hrecovery =>
        obtain rfl := Option.some.inj hstep
        exact h.foundJobs hrecovery htimely
      · cases hstep
    | batchMarked =>
      rw [Step, step?] at hstep
      split at hstep
      next storedIds ids hrecovery =>
        obtain rfl := Option.some.inj hstep
        exact h.markBatch hrecovery
      · cases hstep
    | recoveryFailed =>
      rw [Step, step?] at hstep
      split at hstep
      · cases hstep
      · obtain rfl := Option.some.inj hstep
        trivial
    | _ => cases hid

/-! ### The condition is exact -/

theorem RecoverySound.holdsOnlyDangling (h : st.RecoverySound) :
    st.HoldsOnlyDangling context := by
  intro storedIds ids hrecovery id hmem
  rw [RecoverySound, hrecovery] at h
  obtain ⟨hsettled, hfinished⟩ := h.2 id hmem
  exact ⟨hsettled.noJob, hsettled.noJobComes, hfinished⟩

/-- A second read that is not timely leaves the recovery with an execution that is not dangling. -/
theorem not_holdsOnlyDangling_of_not_timely {event : Event} (htimely : ¬st.Timely event)
    (hstep : Step context st event st') : ¬st'.HoldsOnlyDangling context := by
  intro hholds
  refine htimely ?_
  cases event with
  | jobsFound =>
    intro storedIds hrecovery id hmem hjob
    rw [Step, step?, hrecovery] at hstep
    obtain rfl := Option.some.inj hstep
    have hdangling : id ∈ st.danglingIds storedIds := mem_danglingIds.mpr ⟨hmem, hjob⟩
    have hsame : Same st (st.foundJobs context storedIds) id := same_foundJobs storedIds
    have hnext : (st.foundJobs context storedIds).recovery =
        .marking storedIds (st.danglingIds storedIds) := by
      rw [foundJobs, if_neg (Nat.ne_of_gt (List.length_pos_of_mem hdangling))]
    obtain ⟨_, hcomes, hfinished⟩ := hholds _ _ hnext id hdangling
    refine ⟨fun henqueuing => ?_, fun hend => hfinished (hsame.finished_iff.mpr hend)⟩
    exact notEnqueuing_of_noJobComes hcomes (hsame.enqueuing.mpr henqueuing)
  | _ => trivial

theorem HoldsOnlyDangling.crashesOnlyDangling (h : st.HoldsOnlyDangling context) (event : Event) :
    st.CrashesOnlyDangling context event := by
  cases event with
  | batchMarked =>
    intro storedIds ids hrecovery id hmem
    exact h storedIds ids hrecovery id (List.mem_of_mem_take hmem)
  | _ => trivial

/-- **Queue recovery crashes only dangling executions**: what it holds on to in order to mark it is
dangling throughout the run if and only if all steps are timely, and then it marks as crashed
only what is dangling at that moment. -/
theorem takes_crashesOnlyDangling (run : Run (Step context) init st) :
    (run.Visits (HoldsOnlyDangling context) ↔ run.Takes Timely) ∧
      (run.Takes Timely → run.Takes (CrashesOnlyDangling context)) := by
  have hiff : run.Visits (HoldsOnlyDangling context) ↔ run.Takes Timely :=
    Run.visits_iff_takes (fun _ h => h.holdsOnlyDangling)
      (fun _ _ _ h htimely hstep => h.step htimely hstep)
      (fun _ _ _ _ htimely hstep => not_holdsOnlyDangling_of_not_timely htimely hstep)
      recoverySound_init run
  refine ⟨hiff, fun htimely => ?_⟩
  exact Run.takes_of_visits (fun _ event h => h.crashesOnlyDangling event) (hiff.mpr htimely)

/-- An execution that is inserted before the first read and added to the queue after the second
one is marked as crashed while its job is waiting. -/
theorem not_crashesOnlyDangling_addedAfterRead :
    ∃ context st, ∃ run : Run (Step context) init st, ¬run.Takes (CrashesOnlyDangling context) ∧
      st.executions.get? "1" = some .crashed ∧ st.jobs.get? "1" = some .waiting := by
  let events : List Event :=
    [.insert "1", .recoverFromQueue, .executionsFound ["1"], .jobsFound, .addJob "1"]
  let context : QueueRecoveryContext := { batchSize := 100, waitMs := 10800000 }
  let st : QueueRecovery :=
    { executions := InsertionMap.empty.set "1" .new
      jobs := InsertionMap.empty.set "1" .waiting
      recovery := .marking ["1"] ["1"] }
  have hadded : events.foldlM (step? context) init = some st := rfl
  have hmarked : (events ++ [Event.batchMarked]).foldlM (step? context) init =
      some (st.markBatch context ["1"] ["1"]) := rfl
  obtain ⟨run, hlabels⟩ := Run.exists_labels_eq hmarked
  refine ⟨context, _, run, fun htakes => ?_, rfl, rfl⟩
  have hcrashes : st.CrashesOnlyDangling context .batchMarked := htakes.of_labels hlabels hadded
  obtain ⟨hjob, _⟩ := hcrashes ["1"] ["1"] rfl "1" List.mem_cons_self
  exact absurd hjob (by decide)

end N8n.QueueRecovery
