import N8n.Foundations.InsertionMap
import N8n.Foundations.Transition

/-!
# The tracker of waiting executions

While an instance is the leader, `WaitTracker` polls the database for waiting executions and
arms a timer for each one that `waitingExecutions` has no entry of yet. `stopTracking` clears
the timers and keeps the entries. So a poll of a later `startTracking` finds these entries
and arms no timer for them: the executions are not resumed.

The state holds the armed intervals and timers next to the fields of the class. A timer may
fire at any moment. `startExecution` is modelled up to its first `await`: what it does after
that does not concern the tracker.
-/

namespace N8n

/-- An execution that a poll reports, with the time it waits for. -/
structure WaitTracker.Execution where
  id : String
  waitTill : ℤ
  deriving DecidableEq, Repr

structure WaitTracker.WaitingExecution where
  executionId : String
  timer : ℕ
  deriving DecidableEq, Repr

/-- An armed timer: when it fires, `startExecution(executionId)` is called. -/
structure WaitTracker.Timer where
  id : ℕ
  executionId : String
  triggerTime : ℤ
  deriving DecidableEq, Repr

open WaitTracker in
structure WaitTracker where
  waitingExecutions : InsertionMap String WaitingExecution := .empty
  mainTimer : Option ℕ := none
  now : ℤ := 0
  /-- The number of the next timer or interval. -/
  nextTimer : ℕ := 0
  /-- The armed intervals of `startTracking`. -/
  intervals : List ℕ := []
  timers : List Timer := []
  /-- How many calls of `getWaitingExecutions` await the database. -/
  polls : ℕ := 0
  /-- History: `startTracking` was called, and `stopTracking` was not called since. -/
  tracking : Bool := false
  /-- History: the timers that `stopTracking` has cleared. -/
  cleared : List ℕ := []
  deriving DecidableEq

namespace WaitTracker

open Transition

variable {st st' : WaitTracker} {executionId : String}

/-- `getWaitingExecutions()`, up to its `await`. -/
def getWaitingExecutions (st : WaitTracker) : WaitTracker := { st with polls := st.polls + 1 }

/-- `startTracking()`. -/
def startTracking (st : WaitTracker) : WaitTracker :=
  ({ st with
      mainTimer := some st.nextTimer
      intervals := st.intervals ++ [st.nextTimer]
      nextTimer := st.nextTimer + 1
      tracking := true } : WaitTracker).getWaitingExecutions

/-- `init()`. -/
def init (isLeader : Bool) (st : WaitTracker) : WaitTracker :=
  if isLeader then st.startTracking else st

/-- One round of the loop of `getWaitingExecutions`. -/
def setTimer (st : WaitTracker) (execution : Execution) : WaitTracker :=
  if st.waitingExecutions.has execution.id then st
  else
    { st with
      nextTimer := st.nextTimer + 1
      timers := st.timers ++ [{
        id := st.nextTimer
        executionId := execution.id
        triggerTime := execution.waitTill - st.now }]
      waitingExecutions := st.waitingExecutions.set execution.id
        { executionId := execution.id, timer := st.nextTimer } }

/-- `getWaitingExecutions` goes on with what the database has found. -/
def polled (executions : List Execution) (st : WaitTracker) : WaitTracker :=
  executions.foldl setTimer { st with polls := st.polls - 1 }

def clearTimeout (timer : ℕ) (st : WaitTracker) : WaitTracker :=
  { st with timers := st.timers.filter fun t => t.id ≠ timer }

/-- `delete this.waitingExecutions[executionId]`. -/
def deleteExecution (executionId : String) (st : WaitTracker) : WaitTracker :=
  { st with waitingExecutions := st.waitingExecutions.erase executionId }

/-- `stopExecution(executionId)`. -/
def stopExecution (executionId : String) (st : WaitTracker) : WaitTracker :=
  match st.waitingExecutions.get? executionId with
  | none => st
  | some execution => (st.clearTimeout execution.timer).deleteExecution executionId

/-- `startExecution(executionId)`, up to its first `await`. -/
def startExecution (executionId : String) (st : WaitTracker) : WaitTracker :=
  st.deleteExecution executionId

/-- `stopTracking()`. -/
def stopTracking (st : WaitTracker) : WaitTracker :=
  match st.mainTimer with
  | none => st
  | some mainTimer =>
    let st := { st with intervals := st.intervals.erase mainTimer }
    let st := { st with
      tracking := false
      cleared := st.cleared ++ st.waitingExecutions.values.map WaitingExecution.timer }
    st.waitingExecutions.values.foldl (fun st execution => st.clearTimeout execution.timer) st

inductive Event where
  | init (isLeader : Bool)
  /-- `leader-takeover`. -/
  | startTracking
  /-- `leader-stepdown`. -/
  | stopTracking
  /-- An interval elapses. -/
  | interval (interval : ℕ)
  /-- The database has found these executions. -/
  | polled (executions : List Execution)
  /-- The query has failed. -/
  | pollFailed
  | timer (timer : Timer)
  | startExecution (executionId : String)
  | stopExecution (executionId : String)
  /-- Time passes. -/
  | tick (now : ℤ)
  deriving DecidableEq, Repr

def step? (st : WaitTracker) : Event → Option WaitTracker
  | .init isLeader => some (st.init isLeader)
  | .startTracking => some st.startTracking
  | .stopTracking => some st.stopTracking
  | .interval interval =>
    if interval ∈ st.intervals then some st.getWaitingExecutions else none
  | .polled executions => if 0 < st.polls then some (st.polled executions) else none
  | .pollFailed => if 0 < st.polls then some { st with polls := st.polls - 1 } else none
  | .timer timer =>
    if timer ∈ st.timers then
      some ((st.clearTimeout timer.id).startExecution timer.executionId)
    else none
  | .startExecution executionId => some (st.startExecution executionId)
  | .stopExecution executionId => some (st.stopExecution executionId)
  | .tick now => if st.now ≤ now then some { st with now } else none

def Step (st : WaitTracker) (e : Event) (st' : WaitTracker) : Prop := st.step? e = some st'

/-! ### Armed timers -/

/-- The timer of an entry is armed, and resumes the execution of the entry. -/
def Armed (executionId : String) (timer : ℕ) (st : WaitTracker) : Prop :=
  ∃ t ∈ st.timers, t.id = timer ∧ t.executionId = executionId

/-- While the instance is tracking, every entry has an armed timer. -/
def Scheduled (st : WaitTracker) : Prop :=
  st.tracking = true → ∀ k e, st.waitingExecutions.get? k = some e → st.Armed k e.timer

/-- Tracking starts only without entries whose timers an earlier `stopTracking` cleared. -/
def StartsFresh (st : WaitTracker) : Event → Prop
  | .startTracking | .init true =>
    ∀ k e, st.waitingExecutions.get? k = some e → e.timer ∉ st.cleared
  | _ => True

/-- What the tracker keeps about its entries and timers. -/
structure Tracked (st : WaitTracker) : Prop where
  scheduled : Scheduled st
  armed_or_cleared : ∀ k e, st.waitingExecutions.get? k = some e →
    st.Armed k e.timer ∨ e.timer ∈ st.cleared
  executionId_eq : ∀ k e, st.waitingExecutions.get? k = some e →
    ∀ t ∈ st.timers, t.id = e.timer → t.executionId = k
  timer_inj : ∀ k e k' e', st.waitingExecutions.get? k = some e →
    st.waitingExecutions.get? k' = some e' → e.timer = e'.timer → k = k'
  entry_lt : ∀ k e, st.waitingExecutions.get? k = some e → e.timer < st.nextTimer
  timer_lt : ∀ t ∈ st.timers, t.id < st.nextTimer
  cleared_lt : ∀ i ∈ st.cleared, i < st.nextTimer
  not_cleared : ∀ t ∈ st.timers, t.id ∉ st.cleared

theorem tracked_new : Tracked {} where
  scheduled := nofun
  armed_or_cleared := nofun
  executionId_eq := nofun
  timer_inj := nofun
  entry_lt := nofun
  timer_lt := nofun
  cleared_lt := nofun
  not_cleared := nofun

/-- Nothing happens to entries and timers, except that new timers have higher numbers. -/
theorem Tracked.mono (h : Tracked st) (hentries : st'.waitingExecutions = st.waitingExecutions)
    (htimers : st'.timers = st.timers) (hcleared : st'.cleared = st.cleared)
    (hnext : st.nextTimer ≤ st'.nextTimer) (hscheduled : Scheduled st') : Tracked st' where
  scheduled := hscheduled
  armed_or_cleared := by
    simp only [Armed, hentries, htimers, hcleared]
    exact h.armed_or_cleared
  executionId_eq := by
    simp only [hentries, htimers]
    exact h.executionId_eq
  timer_inj := by
    simp only [hentries]
    exact h.timer_inj
  entry_lt k e he := Nat.lt_of_lt_of_le (h.entry_lt k e (hentries ▸ he)) hnext
  timer_lt t ht := Nat.lt_of_lt_of_le (h.timer_lt t (htimers ▸ ht)) hnext
  cleared_lt i hi := Nat.lt_of_lt_of_le (h.cleared_lt i (hcleared ▸ hi)) hnext
  not_cleared := by
    rw [htimers, hcleared]
    exact h.not_cleared

/-- An entry goes. -/
theorem Tracked.deleteExecution (h : Tracked st) : Tracked (st.deleteExecution executionId) := by
  have hget : ∀ k e, (st.deleteExecution executionId).waitingExecutions.get? k = some e →
      st.waitingExecutions.get? k = some e := fun k e he => by
    rw [WaitTracker.deleteExecution, InsertionMap.get?_erase] at he
    exact (Option.ite_none_left_eq_some.mp he).2
  exact { h with
    scheduled := fun ht k e he => h.scheduled ht k e (hget k e he)
    armed_or_cleared := fun k e he => h.armed_or_cleared k e (hget k e he)
    executionId_eq := fun k e he => h.executionId_eq k e (hget k e he)
    timer_inj := fun k e k' e' he he' => h.timer_inj k e k' e' (hget k e he) (hget k' e' he')
    entry_lt := fun k e he => h.entry_lt k e (hget k e he) }

/-- A timer is cleared or fires, and the entry it is for goes. -/
theorem Tracked.clearTimeout {timer : ℕ} (h : Tracked st)
    (hown : ∀ k e, st.waitingExecutions.get? k = some e → e.timer = timer → k = executionId) :
    Tracked ((st.clearTimeout timer).deleteExecution executionId) := by
  have hget : ∀ k e, ((st.clearTimeout timer).deleteExecution executionId).waitingExecutions.get? k
      = some e → st.waitingExecutions.get? k = some e ∧ e.timer ≠ timer := fun k e he => by
    rw [WaitTracker.deleteExecution, InsertionMap.get?_erase] at he
    obtain ⟨hne, he⟩ := Option.ite_none_left_eq_some.mp he
    exact ⟨he, fun heq => hne (hown k e he heq)⟩
  have hmem : ∀ t ∈ (st.clearTimeout timer).timers, t ∈ st.timers := fun t ht =>
    List.mem_of_mem_filter ht
  have harmed : ∀ k i, i ≠ timer → st.Armed k i →
      ((st.clearTimeout timer).deleteExecution executionId).Armed k i := by
    rintro k i hne ⟨t, ht, rfl, hk⟩
    exact ⟨t, List.mem_filter.mpr ⟨ht, decide_eq_true hne⟩, rfl, hk⟩
  exact {
    scheduled := fun ht k e he =>
      harmed k _ (hget k e he).2 (h.scheduled ht k e (hget k e he).1)
    armed_or_cleared := fun k e he =>
      (h.armed_or_cleared k e (hget k e he).1).imp_left (harmed k _ (hget k e he).2)
    executionId_eq := fun k e he t ht => h.executionId_eq k e (hget k e he).1 t (hmem t ht)
    timer_inj := fun k e k' e' he he' => h.timer_inj k e k' e' (hget k e he).1 (hget k' e' he').1
    entry_lt := fun k e he => h.entry_lt k e (hget k e he).1
    timer_lt := fun t ht => h.timer_lt t (hmem t ht)
    cleared_lt := h.cleared_lt
    not_cleared := fun t ht => h.not_cleared t (hmem t ht) }

/-- A timer is armed for an execution without an entry. -/
theorem Tracked.setTimer (h : Tracked st) (execution : Execution) :
    Tracked (st.setTimer execution) := by
  rw [WaitTracker.setTimer]
  split
  · exact h
  next hnew =>
    set timer : Timer := {
      id := st.nextTimer
      executionId := execution.id
      triggerTime := execution.waitTill - st.now }
    have hget : ∀ k e, (st.waitingExecutions.set execution.id
          { executionId := execution.id, timer := st.nextTimer }).get? k = some e →
        (k = execution.id ∧ e.timer = st.nextTimer) ∨ st.waitingExecutions.get? k = some e := by
      intro k e he
      rw [InsertionMap.get?_set] at he
      split at he
      next heq =>
        obtain rfl := Option.some.inj he
        exact Or.inl ⟨heq, rfl⟩
      · exact Or.inr he
    have hmem : ∀ t, t ∈ st.timers ++ [timer] → t ∈ st.timers ∨ t = timer := fun t ht =>
      (List.mem_append.mp ht).imp_right List.mem_singleton.mp
    have hself : timer ∈ st.timers ++ [timer] :=
      List.mem_append_right _ (List.mem_singleton_self _)
    have harmed : ∀ k i, st.Armed k i →
        ∃ t ∈ st.timers ++ [timer], t.id = i ∧ t.executionId = k := by
      rintro k i ⟨t, ht, hi, hk⟩
      exact ⟨t, List.mem_append_left _ ht, hi, hk⟩
    refine ⟨fun ht k e he => ?_, fun k e he => ?_, fun k e he t ht hid => ?_,
      fun k e k' e' he he' heq => ?_, fun k e he => ?_, fun t ht => ?_,
      fun i hi => Nat.lt_succ_of_lt (h.cleared_lt i hi), fun t ht hi => ?_⟩
    · obtain ⟨rfl, hi⟩ | he := hget k e he
      · exact ⟨timer, hself, hi.symm, rfl⟩
      · exact harmed k _ (h.scheduled ht k e he)
    · obtain ⟨rfl, hi⟩ | he := hget k e he
      · exact Or.inl ⟨timer, hself, hi.symm, rfl⟩
      · exact (h.armed_or_cleared k e he).imp_left (harmed k _)
    · obtain ht | rfl := hmem t ht
      · obtain ⟨-, hi⟩ | he := hget k e he
        · exact absurd (hid.trans hi) (Nat.ne_of_lt (h.timer_lt t ht))
        · exact h.executionId_eq k e he t ht hid
      · obtain ⟨rfl, -⟩ | he := hget k e he
        · rfl
        · exact absurd hid (Nat.ne_of_gt (h.entry_lt k e he))
    · obtain ⟨rfl, hi⟩ | he := hget k e he
      · obtain ⟨rfl, -⟩ | he' := hget k' e' he'
        · rfl
        · exact absurd (hi.symm.trans heq) (Nat.ne_of_gt (h.entry_lt k' e' he'))
      · obtain ⟨rfl, hi⟩ | he' := hget k' e' he'
        · exact absurd (heq.trans hi) (Nat.ne_of_lt (h.entry_lt k e he))
        · exact h.timer_inj k e k' e' he he' heq
    · obtain ⟨-, hi⟩ | he := hget k e he
      · exact hi ▸ Nat.lt_succ_self _
      · exact Nat.lt_succ_of_lt (h.entry_lt k e he)
    · obtain ht | rfl := hmem t ht
      · exact Nat.lt_succ_of_lt (h.timer_lt t ht)
      · exact Nat.lt_succ_self _
    · obtain ht | rfl := hmem t ht
      · exact h.not_cleared t ht hi
      · exact Nat.lt_irrefl _ (h.cleared_lt _ hi)

theorem Tracked.polled (h : Tracked st) (executions : List Execution) :
    Tracked (st.polled executions) := by
  have hpolls : Tracked { st with polls := st.polls - 1 } :=
    h.mono rfl rfl rfl (Nat.le_refl _) h.scheduled
  rw [WaitTracker.polled]
  generalize ({ st with polls := st.polls - 1 } : WaitTracker) = st₁ at hpolls
  induction executions generalizing st₁ with
  | nil => exact hpolls
  | cons execution executions ih => exact ih _ (hpolls.setTimer execution)

/-- The loop of `stopTracking` clears the timer of each entry. -/
theorem foldl_clearTimeout (l : List WaitingExecution) (st : WaitTracker) :
    l.foldl (fun st execution => st.clearTimeout execution.timer) st =
      { st with timers := st.timers.filter fun t => t.id ∉ l.map WaitingExecution.timer } := by
  induction l generalizing st with
  | nil => simp
  | cons e l ih =>
    rw [List.foldl_cons, ih]
    simp only [clearTimeout, List.filter_filter, List.map_cons, List.mem_cons, not_or,
      Bool.decide_and, Bool.and_comm]

/-- Entries are left without timers. -/
theorem Tracked.stopTracking (h : Tracked st) : Tracked st.stopTracking := by
  rw [WaitTracker.stopTracking]
  split
  · exact h
  next mainTimer _ =>
    rw [foldl_clearTimeout]
    have hmem : ∀ k e, st.waitingExecutions.get? k = some e →
        e.timer ∈ st.waitingExecutions.values.map WaitingExecution.timer := fun k e he =>
      List.mem_map_of_mem (InsertionMap.mem_values.mpr ⟨k, InsertionMap.get?_eq_some_iff.mp he⟩)
    refine ⟨nofun, fun k e he => Or.inr (List.mem_append_right _ (hmem k e he)),
      fun k e he t ht => h.executionId_eq k e he t (List.mem_of_mem_filter ht), h.timer_inj,
      h.entry_lt, fun t ht => h.timer_lt t (List.mem_of_mem_filter ht), fun i hi => ?_,
      fun t ht hi => ?_⟩
    · obtain hi | hi := List.mem_append.mp hi
      · exact h.cleared_lt i hi
      · obtain ⟨e, he, rfl⟩ := List.mem_map.mp hi
        obtain ⟨k, hk⟩ := InsertionMap.mem_values.mp he
        exact h.entry_lt k e (InsertionMap.get?_eq_some_iff.mpr hk)
    · obtain ⟨ht, hnot⟩ := List.mem_filter.mp ht
      obtain hi | hi := List.mem_append.mp hi
      · exact h.not_cleared t ht hi
      · exact of_decide_eq_true hnot hi

/-- Tracking starts: what was not cleared is armed. -/
theorem Tracked.startTracking (h : Tracked st) (hfresh : ∀ k e,
      st.waitingExecutions.get? k = some e → e.timer ∉ st.cleared) :
    Tracked st.startTracking :=
  h.mono rfl rfl rfl (Nat.le_succ _) fun _ k e he =>
    (h.armed_or_cleared k e he).resolve_right (hfresh k e he)

/-- Tracking starts with an entry without a timer. -/
theorem Tracked.not_scheduled_startTracking (h : Tracked st) {k : String} {e : WaitingExecution}
    (he : st.waitingExecutions.get? k = some e) (hcleared : e.timer ∈ st.cleared) :
    ¬Scheduled st.startTracking := by
  intro hscheduled
  obtain ⟨t, ht, hid, -⟩ := hscheduled rfl k e he
  exact h.not_cleared t ht (hid ▸ hcleared)

/-- **Step lemma**: every step that starts no tracking over entries that were left behind
keeps the tracker in order. -/
theorem Tracked.step {e : Event} (h : Tracked st) (hfresh : st.StartsFresh e)
    (hstep : st.Step e st') : Tracked st' := by
  cases e with
  | init isLeader =>
    obtain rfl := Option.some.inj hstep
    cases isLeader with
    | false => exact h
    | true => exact h.startTracking hfresh
  | startTracking =>
    obtain rfl := Option.some.inj hstep
    exact h.startTracking hfresh
  | stopTracking =>
    obtain rfl := Option.some.inj hstep
    exact h.stopTracking
  | interval interval =>
    obtain ⟨-, heq⟩ := Option.ite_none_right_eq_some.mp hstep
    obtain rfl := Option.some.inj heq
    exact h.mono rfl rfl rfl (Nat.le_refl _) h.scheduled
  | polled executions =>
    obtain ⟨-, heq⟩ := Option.ite_none_right_eq_some.mp hstep
    obtain rfl := Option.some.inj heq
    exact h.polled executions
  | pollFailed =>
    obtain ⟨-, heq⟩ := Option.ite_none_right_eq_some.mp hstep
    obtain rfl := Option.some.inj heq
    exact h.mono rfl rfl rfl (Nat.le_refl _) h.scheduled
  | timer timer =>
    obtain ⟨hmem, heq⟩ := Option.ite_none_right_eq_some.mp hstep
    obtain rfl := Option.some.inj heq
    exact h.clearTimeout fun k e he heq => (h.executionId_eq k e he timer hmem heq.symm).symm
  | startExecution executionId =>
    obtain rfl := Option.some.inj hstep
    exact h.deleteExecution
  | stopExecution executionId =>
    obtain rfl := Option.some.inj hstep
    rw [stopExecution]
    split
    · exact h
    next execution hexecution =>
      exact h.clearTimeout fun k e he heq =>
        h.timer_inj k e executionId execution he hexecution heq
  | tick now =>
    obtain ⟨-, heq⟩ := Option.ite_none_right_eq_some.mp hstep
    obtain rfl := Option.some.inj heq
    exact h.mono rfl rfl rfl (Nat.le_refl _) h.scheduled

theorem Tracked.not_scheduled {e : Event} (h : Tracked st) (hfresh : ¬st.StartsFresh e)
    (hstep : st.Step e st') : ¬Scheduled st' := by
  have hstart : ¬(∀ k e, st.waitingExecutions.get? k = some e → e.timer ∉ st.cleared) →
      ¬Scheduled st.startTracking := fun hleft => by
    simp only [not_forall, not_not] at hleft
    obtain ⟨k, e, he, hcleared⟩ := hleft
    exact h.not_scheduled_startTracking he hcleared
  cases e with
  | init isLeader =>
    obtain rfl := Option.some.inj hstep
    cases isLeader with
    | false => exact absurd trivial hfresh
    | true => exact hstart hfresh
  | startTracking =>
    obtain rfl := Option.some.inj hstep
    exact hstart hfresh
  | _ => exact absurd trivial hfresh

/-- What a poll reports has an entry afterwards. -/
theorem mem_keys_polled {execution : Execution} {executions : List Execution}
    (hmem : execution ∈ executions) (st : WaitTracker) :
    execution.id ∈ (st.polled executions).waitingExecutions.keys := by
  have hset : ∀ (st : WaitTracker) (e : Execution), ∀ k, k = e.id ∨
      k ∈ st.waitingExecutions.keys → k ∈ (st.setTimer e).waitingExecutions.keys := by
    intro st e k hk
    rw [setTimer]
    split
    next hhas => exact hk.elim (fun heq => heq ▸ InsertionMap.has_eq_true_iff.mp hhas) id
    · exact InsertionMap.mem_keys_set.mpr hk
  have hfoldl : ∀ (l : List Execution) (st : WaitTracker) (k : String),
      (∃ e ∈ l, k = e.id) ∨ k ∈ st.waitingExecutions.keys →
        k ∈ (l.foldl setTimer st).waitingExecutions.keys := by
    intro l
    induction l with
    | nil => exact fun st k hk => hk.resolve_left fun ⟨_, he, _⟩ => List.not_mem_nil he
    | cons a l ih =>
      intro st k hk
      refine ih _ k ?_
      obtain ⟨e, he, rfl⟩ | hk := hk
      · obtain rfl | he := List.mem_cons.mp he
        · exact Or.inr (hset st e _ (Or.inl rfl))
        · exact Or.inl ⟨e, he, rfl⟩
      · exact Or.inr (hset st a k (Or.inr hk))
  exact hfoldl executions _ _ (Or.inl ⟨execution, hmem, rfl⟩)

/-- **Waiting executions, exactly.** For every sequence of takeovers, stepdowns, polls, timers,
`startExecution` and `stopExecution` from a new tracker: every entry has an armed timer in
every state in which the instance is tracking, if and only if tracking never starts over
entries whose timers an earlier `stopTracking` has cleared. What a poll reports has an
entry. -/
theorem waitingExecutions_scheduled_iff (st : WaitTracker) (run : Run Step {} st) :
    (run.Visits Scheduled ↔ run.Takes StartsFresh) ∧
      ∀ (s : WaitTracker) (executions : List Execution), ∀ execution ∈ executions,
        execution.id ∈ (s.polled executions).waitingExecutions.keys :=
  ⟨run.visits_iff_takes (fun _ h => h.scheduled) (fun _ _ _ h hfresh hstep => h.step hfresh hstep)
    (fun _ _ _ h hfresh hstep => h.not_scheduled hfresh hstep) tracked_new,
    fun s _ _ hmem => mem_keys_polled hmem s⟩

/-- A poll finds an execution, the instance steps down and takes over again. -/
def stoppedThenStarted : List Event :=
  [.init true, .polled [{ id := "1", waitTill := 90000 }], .stopTracking, .startTracking]

/-- The execution has an entry and no timer is armed. -/
theorem not_scheduled_stoppedThenStarted :
    ∃ (st : WaitTracker) (run : Run Step {} st), run.labels = stoppedThenStarted ∧
      st.waitingExecutions.keys = ["1"] ∧ st.timers = [] ∧ ¬run.Visits Scheduled := by
  have hstate : (stoppedThenStarted.foldlM step? {}).map (fun st =>
      (st.tracking, st.waitingExecutions.keys, st.timers)) = some (true, ["1"], []) := by decide
  obtain ⟨st, hst, heq⟩ := Option.map_eq_some_iff.mp hstate
  simp only [Prod.mk.injEq] at heq
  obtain ⟨htracking, hkeys, htimers⟩ := heq
  obtain ⟨run, hlabels⟩ := Run.exists_labels_eq hst
  refine ⟨st, run, hlabels, hkeys, htimers, fun hvisits => ?_⟩
  obtain ⟨e, he⟩ := InsertionMap.mem_keys.mp (hkeys ▸ List.mem_singleton_self "1")
  obtain ⟨t, ht, -⟩ := hvisits.last htracking "1" e (InsertionMap.get?_eq_some_iff.mpr he)
  exact List.not_mem_nil (htimers ▸ ht)

end WaitTracker

end N8n
