import Mathlib.Data.List.Basic
import Mathlib.Data.List.Nodup
import Mathlib.Data.List.Perm.Basic
import Mathlib.Tactic.Linarith
import Mathlib.Tactic.Ring
import N8n.Foundations.Transition

/-!
# The concurrency queue

`ConcurrencyQueue` limits how many production (or evaluation) executions run at once. It
keeps one signed counter, `capacity`, shared by the executions that run and those that
wait, and a list of the waiting ones, each with the `resolve` callback of the promise its
`enqueue` call returned. Promises are numbered here, and a callback is the number of the
promise it settles; what a method does besides changing the queue (the events it emits,
the promises it settles) is its `Effects`.

`QueueSystem` is the queue together with its callers: every promise issued so far, those
already granted, and the grants whose execution has not been released yet. Its steps are
the calls the claim of the class is about: `enqueue`, `release` of a running execution
(`dequeue`), `remove` of an execution and the service's `removeAll`.

The limit is kept by every step but one: `remove` gives back a slot that a *waiting*
execution never held, and hands it to the next waiter. `queueSystem_limit_iff` says that
this is the only way to exceed the limit.
-/

namespace N8n

open Transition

/-! ### The queue -/

/-- An execution waiting in the queue, with the promise its `resolve` callback settles. -/
structure QueuedExecution where
  executionId : String
  resolve : ℕ
  deriving DecidableEq, Repr

/-- The events a queue emits. -/
inductive ConcurrencyEvent where
  | concurrencyCheck (capacity : ℤ)
  | executionThrottled (executionId : String)
  | executionReleased (executionId : String)
  deriving DecidableEq, Repr

/-- What a call does besides changing the queue: the events it emits and the promises it
settles, both in order. -/
structure Effects where
  emitted : List ConcurrencyEvent := []
  resolved : List ℕ := []
  deriving DecidableEq, Repr

/-- The effects of one call followed by another. -/
def Effects.append (e e' : Effects) : Effects :=
  ⟨e.emitted ++ e'.emitted, e.resolved ++ e'.resolved⟩

structure ConcurrencyQueue where
  capacity : ℤ
  queue : List QueuedExecution := []
  deriving DecidableEq, Repr

namespace ConcurrencyQueue

/-- `enqueue(executionId)`, returning the promise numbered `promise`: settled at once when
capacity is left, otherwise queued. -/
def enqueue (executionId : String) (promise : ℕ) (q : ConcurrencyQueue) :
    ConcurrencyQueue × Effects :=
  let capacity := q.capacity - 1
  if capacity < 0 then
    (⟨capacity, q.queue ++ [⟨executionId, promise⟩]⟩,
      { emitted := [.concurrencyCheck capacity, .executionThrottled executionId] })
  else
    ({ q with capacity }, { emitted := [.concurrencyCheck capacity], resolved := [promise] })

/-- `resolveNext()`: hand the slot to the execution that waits longest. -/
def resolveNext (q : ConcurrencyQueue) : ConcurrencyQueue × Effects :=
  match q.queue with
  | [] => (q, {})
  | item :: queue =>
    ({ q with queue }, { emitted := [.executionReleased item.executionId],
                         resolved := [item.resolve] })

/-- `dequeue()`: a running execution gives its slot back. -/
def dequeue (q : ConcurrencyQueue) : ConcurrencyQueue × Effects :=
  resolveNext { q with capacity := q.capacity + 1 }

/-- `remove(executionId)`: drop the first waiting execution with this id. -/
def remove (executionId : String) (q : ConcurrencyQueue) : ConcurrencyQueue × Effects :=
  match q.queue.findIdx? (fun item => item.executionId = executionId) with
  | some index => resolveNext ⟨q.capacity + 1, q.queue.eraseIdx index⟩
  | none => (q, {})

/-- `getAll()`: the ids in the queue, each once, in the order of their first occurrence. -/
def getAll (q : ConcurrencyQueue) : List String :=
  (q.queue.map (·.executionId)).eraseDups

def has (executionId : String) (q : ConcurrencyQueue) : Bool :=
  q.queue.any fun item => item.executionId = executionId

/-- `remove` for each id of a list, in order. -/
def removeEach : List String → ConcurrencyQueue → ConcurrencyQueue × Effects
  | [], q => (q, {})
  | id :: ids, q =>
    let r := q.remove id
    let r' := removeEach ids r.1
    (r'.1, r.2.append r'.2)

/-- The part of the service's `removeAll` that concerns one queue: remove every id that
`getAll` lists at the start. -/
def removeAll (q : ConcurrencyQueue) : ConcurrencyQueue × Effects :=
  removeEach q.getAll q

end ConcurrencyQueue

/-! ### What the methods do to the waiting list -/

namespace ConcurrencyQueue

variable {q : ConcurrencyQueue} {executionId : String}

/-- The promises of the waiting executions, in queue order. -/
def promises (q : ConcurrencyQueue) : List ℕ := q.queue.map (·.resolve)

@[simp] theorem length_promises (q : ConcurrencyQueue) :
    q.promises.length = q.queue.length := List.length_map _

/-- A call that only takes executions out of the queue: each one that leaves was either
granted or dropped, and a dropped one gives its unit of capacity back. -/
structure Handover (q : ConcurrencyQueue) (r : ConcurrencyQueue × Effects) : Prop where
  balance : r.1.capacity + r.1.queue.length + r.2.resolved.length
    = q.capacity + q.queue.length
  sublist : List.Sublist (r.2.resolved ++ r.1.promises) q.promises

theorem Handover.refl (q : ConcurrencyQueue) : Handover q (q, {}) := by
  constructor <;> simp

theorem Handover.trans {r r' : ConcurrencyQueue × Effects} (h : Handover q r)
    (h' : Handover r.1 r') : Handover q (r'.1, r.2.append r'.2) where
  balance := by
    have hb := h.balance
    have hb' := h'.balance
    simp only [Effects.append, List.length_append, Nat.cast_add]
    linarith
  sublist := by
    have hs : List.Sublist (r.2.resolved ++ (r'.2.resolved ++ r'.1.promises)) q.promises :=
      (h'.sublist.append_left _).trans h.sublist
    simpa only [Effects.append, List.append_assoc] using hs

/-- `resolveNext` grants exactly the head of the queue. -/
theorem handover_resolveNext (q : ConcurrencyQueue) : Handover q q.resolveNext := by
  unfold resolveNext
  split
  next hq => exact Handover.refl q
  next item queue hq =>
    refine ⟨?_, ?_⟩
    · simp only [hq, List.length_cons, List.length_nil]
      push_cast
      ring
    · simp [promises, hq]

theorem length_resolved_resolveNext (q : ConcurrencyQueue) :
    q.resolveNext.2.resolved.length = min 1 q.queue.length := by
  unfold resolveNext
  split
  next hq => simp [hq]
  next item queue hq => simp [hq]

@[simp] theorem capacity_resolveNext (q : ConcurrencyQueue) :
    q.resolveNext.1.capacity = q.capacity := by
  unfold resolveNext
  split <;> rfl

/-- Without capacity left, the execution waits. -/
theorem enqueue_of_lt (promise : ℕ) (h : q.capacity - 1 < 0) :
    q.enqueue executionId promise
      = (⟨q.capacity - 1, q.queue ++ [⟨executionId, promise⟩]⟩,
          { emitted := [.concurrencyCheck (q.capacity - 1),
                        .executionThrottled executionId] }) :=
  if_pos h

/-- With capacity left, the execution is granted its slot at once. -/
theorem enqueue_of_not_lt (promise : ℕ) (h : ¬q.capacity - 1 < 0) :
    q.enqueue executionId promise
      = ({ q with capacity := q.capacity - 1 },
          { emitted := [.concurrencyCheck (q.capacity - 1)], resolved := [promise] }) :=
  if_neg h

theorem findIdx?_isSome_iff_has :
    (q.queue.findIdx? fun item => item.executionId = executionId).isSome
      = q.has executionId := by
  simp [has]

/-- An id that is not queued is left alone. -/
theorem remove_of_not_has (h : q.has executionId = false) :
    q.remove executionId = (q, {}) := by
  have hnone : q.queue.findIdx? (fun item => item.executionId = executionId) = none := by
    rw [← Option.isNone_iff_eq_none, ← Option.not_isSome, findIdx?_isSome_iff_has, h]
    rfl
  simp only [remove, hnone]

/-- A queued id is taken out, and the capacity it gives back goes to the next waiter. -/
theorem remove_of_has (h : q.has executionId = true) :
    ∃ index < q.queue.length, q.remove executionId
      = resolveNext ⟨q.capacity + 1, q.queue.eraseIdx index⟩ := by
  rw [← findIdx?_isSome_iff_has, Option.isSome_iff_exists] at h
  obtain ⟨index, hindex⟩ := h
  refine ⟨index, (List.findIdx?_eq_some_iff_getElem.mp hindex).1, ?_⟩
  simp only [remove, hindex]

theorem handover_remove (executionId : String) (q : ConcurrencyQueue) :
    Handover q (q.remove executionId) := by
  cases hhas : q.has executionId with
  | false => rw [remove_of_not_has hhas]; exact Handover.refl q
  | true =>
    obtain ⟨index, hindex, heq⟩ := remove_of_has hhas
    have hnext := handover_resolveNext ⟨q.capacity + 1, q.queue.eraseIdx index⟩
    have hlen : ((q.queue.eraseIdx index).length : ℤ) = q.queue.length - 1 := by
      rw [List.length_eraseIdx_of_lt hindex]
      omega
    rw [heq]
    refine ⟨?_, hnext.sublist.trans ((List.eraseIdx_sublist _ _).map _)⟩
    rw [hnext.balance, hlen]
    ring

/-- How many executions a `remove` grants: one if another execution waits behind. -/
theorem length_resolved_remove (h : q.has executionId = true) :
    (q.remove executionId).2.resolved.length = min 1 (q.queue.length - 1) := by
  obtain ⟨index, hindex, heq⟩ := remove_of_has h
  rw [heq, length_resolved_resolveNext, List.length_eraseIdx_of_lt hindex]

theorem handover_removeEach (ids : List String) (q : ConcurrencyQueue) :
    Handover q (removeEach ids q) := by
  induction ids generalizing q with
  | nil => exact Handover.refl q
  | cons id ids ih => exact (handover_remove id q).trans (ih _)

theorem handover_removeAll (q : ConcurrencyQueue) : Handover q q.removeAll :=
  handover_removeEach _ _

/-- The first id `removeAll` takes is the one at the head of the queue. -/
theorem removeAll_of_cons {item : QueuedExecution} {rest : List QueuedExecution}
    (hq : q.queue = item :: rest) :
    ∃ ids, q.removeAll = removeEach (item.executionId :: ids) q :=
  ⟨_, by rw [removeAll, getAll, hq, List.map_cons, List.eraseDups_cons]⟩

end ConcurrencyQueue

/-! ### The queue and its callers -/

/-- A queue with its callers: how many promises it has issued, which of them it has
granted so far, and which grants are still running. -/
structure QueueSystem where
  queue : ConcurrencyQueue
  issued : ℕ := 0
  granted : List ℕ := []
  running : List ℕ := []
  deriving DecidableEq, Repr

/-- The calls on the queue. `release` is made by a running execution when it ends. -/
inductive QueueCall where
  | enqueue (executionId : String)
  | release (promise : ℕ)
  | remove (executionId : String)
  | removeAll
  deriving DecidableEq, Repr

namespace QueueSystem

/-- `new ConcurrencyQueue(limit)`, before any call. -/
def new (limit : ℕ) : QueueSystem := { queue := { capacity := limit } }

/-- The callers after a call: the executions whose promise it settles now run. -/
def settle (st : QueueSystem) (r : ConcurrencyQueue × Effects) : QueueSystem :=
  { st with queue := r.1
            granted := st.granted ++ r.2.resolved
            running := st.running ++ r.2.resolved }

/-- One call. Only an execution that runs can be released. -/
def step (st : QueueSystem) : QueueCall → QueueSystem → Prop
  | .enqueue id, st' =>
    st' = { st.settle (st.queue.enqueue id st.issued) with issued := st.issued + 1 }
  | .release promise, st' =>
    promise ∈ st.running ∧
      st' = { st with running := st.running.erase promise }.settle st.queue.dequeue
  | .remove id, st' => st' = st.settle (st.queue.remove id)
  | .removeAll, st' => st' = st.settle st.queue.removeAll

/-- What the class promises: at most `limit` executions run, no promise is granted twice,
and the negative part of `capacity` counts the waiting executions. -/
structure WithinLimit (limit : ℕ) (st : QueueSystem) : Prop where
  running_le : st.running.length ≤ limit
  granted_nodup : st.granted.Nodup
  waiting_eq : (st.queue.queue.length : ℤ) = max 0 (-st.queue.capacity)

/-- The bookkeeping that every call keeps, even one that exceeds the limit. -/
structure Accounted (limit : ℕ) (st : QueueSystem) : Prop where
  capacity_eq : st.queue.capacity = limit - st.running.length - st.queue.queue.length
  nodup : (st.granted ++ st.queue.promises).Nodup
  lt_issued : ∀ p ∈ st.granted ++ st.queue.promises, p < st.issued

/-- The condition under which a call respects the limit: an execution is taken out of the
waiting list only while no other one waits. -/
def RemovesLast (st : QueueSystem) : QueueCall → Prop
  | .enqueue _ => True
  | .release _ => True
  | .remove id => st.queue.has id = true → st.queue.queue.length = 1
  | .removeAll => st.queue.queue.length ≤ 1

variable {limit : ℕ} {st st' : QueueSystem} {r : ConcurrencyQueue × Effects}

/-- Over accounted states the promise of the class is about two numbers: nothing waits, or
all slots are taken. -/
theorem withinLimit_iff (h : st.Accounted limit) :
    st.WithinLimit limit ↔
      st.running.length ≤ limit ∧
        (st.queue.queue.length = 0 ∨ st.running.length = limit) := by
  have hcap := h.capacity_eq
  constructor
  · rintro ⟨hle, -, hw⟩
    exact ⟨hle, by omega⟩
  · rintro ⟨hle, hw⟩
    exact ⟨hle, h.nodup.of_append_left, by omega⟩

theorem accounted_new (limit : ℕ) : (new limit).Accounted limit := by
  constructor <;> simp [new, ConcurrencyQueue.promises]

/-- Handing over waiting executions keeps the books: the freed capacity is what the newly
running executions take. -/
theorem Accounted.settle (h : st.Accounted limit) (hr : st.queue.Handover r) :
    (st.settle r).Accounted limit where
  capacity_eq := by
    have hcap := h.capacity_eq
    have hbal := hr.balance
    simp only [QueueSystem.settle, List.length_append, Nat.cast_add]
    linarith
  nodup := by
    simp only [QueueSystem.settle, List.append_assoc]
    exact h.nodup.sublist (hr.sublist.append_left _)
  lt_issued := by
    simp only [QueueSystem.settle, List.append_assoc]
    exact fun p hp => h.lt_issued p ((hr.sublist.append_left _).subset hp)

theorem Accounted.enqueue (h : st.Accounted limit) (id : String) :
    Accounted limit { st.settle (st.queue.enqueue id st.issued) with
      issued := st.issued + 1 } := by
  have hcap := h.capacity_eq
  have hfresh : st.issued ∉ st.granted ++ st.queue.promises :=
    fun hmem => lt_irrefl _ (h.lt_issued _ hmem)
  have hlt : ∀ p ∈ st.granted ++ st.queue.promises, p < st.issued + 1 :=
    fun p hp => Nat.lt_succ_of_lt (h.lt_issued p hp)
  by_cases hneg : st.queue.capacity - 1 < 0
  · -- the new promise joins the waiting list
    have hperm : (st.granted ++ st.queue.promises ++ [st.issued]).Nodup := by
      rw [List.nodup_append]
      exact ⟨h.nodup, List.nodup_singleton _, by
        rintro a ha b hb rfl
        exact hfresh ((List.mem_singleton.mp hb) ▸ ha)⟩
    rw [ConcurrencyQueue.enqueue_of_lt _ hneg]
    refine ⟨?_, ?_, ?_⟩
    · simp only [QueueSystem.settle, List.length_append, List.length_singleton,
        List.append_nil]
      push_cast
      linarith
    · simpa [QueueSystem.settle, ConcurrencyQueue.promises] using hperm
    · intro p hp
      simp only [QueueSystem.settle, ConcurrencyQueue.promises, List.map_append,
        List.append_nil, List.mem_append, List.map_cons, List.map_nil,
        List.mem_singleton] at hp
      rcases hp with hp | hp | rfl
      · exact hlt p (List.mem_append_left _ hp)
      · exact hlt p (List.mem_append_right _ hp)
      · exact Nat.lt_succ_self _
  · -- the new promise is granted at once
    rw [ConcurrencyQueue.enqueue_of_not_lt _ hneg]
    refine ⟨?_, ?_, ?_⟩
    · simp only [QueueSystem.settle, List.length_append, List.length_singleton]
      push_cast
      linarith
    · have hperm : (st.granted ++ [st.issued] ++ st.queue.promises).Perm
          (st.issued :: (st.granted ++ st.queue.promises)) := by
        rw [List.append_assoc]
        exact List.perm_middle
      exact hperm.nodup_iff.mpr (List.nodup_cons.mpr ⟨hfresh, h.nodup⟩)
    · intro p hp
      simp only [QueueSystem.settle, List.mem_append, List.mem_singleton] at hp
      rcases hp with (hp | rfl) | hp
      · exact hlt p (List.mem_append_left _ hp)
      · exact Nat.lt_succ_self _
      · exact hlt p (List.mem_append_right _ hp)

theorem Accounted.release (h : st.Accounted limit) {promise : ℕ}
    (hmem : promise ∈ st.running) :
    ({ st with running := st.running.erase promise }.settle st.queue.dequeue).Accounted
      limit := by
  have hpos : 0 < st.running.length := List.length_pos_of_mem hmem
  have hstart : Accounted limit
      { st with running := st.running.erase promise
                queue := { st.queue with capacity := st.queue.capacity + 1 } } := by
    refine ⟨?_, h.nodup, h.lt_issued⟩
    have hcap := h.capacity_eq
    have hlen := List.length_erase_of_mem hmem
    simp only [hlen]
    omega
  exact hstart.settle (ConcurrencyQueue.handover_resolveNext _)

/-- **Step lemma of the bookkeeping**: every call keeps it. -/
theorem Accounted.step {c : QueueCall} (h : st.Accounted limit) (hstep : st.step c st') :
    st'.Accounted limit := by
  cases c with
  | enqueue id => subst hstep; exact h.enqueue id
  | release promise =>
    obtain ⟨hmem, rfl⟩ := hstep
    exact h.release hmem
  | remove id => subst hstep; exact h.settle (ConcurrencyQueue.handover_remove _ _)
  | removeAll => subst hstep; exact h.settle (ConcurrencyQueue.handover_removeAll _)

/-! ### When the limit holds -/

@[simp] theorem length_running_settle (st : QueueSystem) (r : ConcurrencyQueue × Effects) :
    (st.settle r).running.length = st.running.length + r.2.resolved.length :=
  List.length_append

@[simp] theorem queue_settle (st : QueueSystem) (r : ConcurrencyQueue × Effects) :
    (st.settle r).queue = r.1 := rfl

/-- After a call that takes executions out of the queue, the limit holds if and only if
the executions it granted fit. -/
theorem withinLimit_settle_iff (h : st.Accounted limit) (hr : st.queue.Handover r) :
    (st.settle r).WithinLimit limit ↔
      st.running.length + r.2.resolved.length ≤ limit ∧
        (r.1.queue.length = 0 ∨ st.running.length + r.2.resolved.length = limit) := by
  rw [withinLimit_iff (h.settle hr), length_running_settle, queue_settle]

theorem WithinLimit.enqueue (ha : st.Accounted limit) (hw : st.WithinLimit limit)
    (id : String) :
    WithinLimit limit { st.settle (st.queue.enqueue id st.issued) with
      issued := st.issued + 1 } := by
  have hcap := ha.capacity_eq
  obtain ⟨hle, hwait⟩ := (withinLimit_iff ha).mp hw
  rw [withinLimit_iff (ha.enqueue id)]
  by_cases hneg : st.queue.capacity - 1 < 0
  · rw [ConcurrencyQueue.enqueue_of_lt _ hneg]
    simp only [length_running_settle, queue_settle, List.length_nil]
    omega
  · rw [ConcurrencyQueue.enqueue_of_not_lt _ hneg]
    simp only [length_running_settle, queue_settle, List.length_singleton]
    omega

theorem WithinLimit.release (ha : st.Accounted limit) (hw : st.WithinLimit limit)
    {promise : ℕ} (hmem : promise ∈ st.running) :
    ({ st with running := st.running.erase promise }.settle st.queue.dequeue).WithinLimit
      limit := by
  obtain ⟨hle, hwait⟩ := (withinLimit_iff ha).mp hw
  have hpos : 0 < st.running.length := List.length_pos_of_mem hmem
  have hbal := (ConcurrencyQueue.handover_resolveNext
    { st.queue with capacity := st.queue.capacity + 1 }).balance
  have hgrant := ConcurrencyQueue.length_resolved_resolveNext
    { st.queue with capacity := st.queue.capacity + 1 }
  rw [withinLimit_iff (ha.release hmem), length_running_settle, queue_settle,
    List.length_erase_of_mem hmem]
  simp only [ConcurrencyQueue.dequeue]
  rw [ConcurrencyQueue.capacity_resolveNext] at hbal
  simp only at hbal hgrant
  omega

/-- Taking a queued execution out keeps the limit exactly when no other one waits. -/
theorem withinLimit_remove_iff (ha : st.Accounted limit) (hw : st.WithinLimit limit)
    (id : String) :
    (st.settle (st.queue.remove id)).WithinLimit limit ↔ st.RemovesLast (.remove id) := by
  obtain ⟨hle, hwait⟩ := (withinLimit_iff ha).mp hw
  have hhand := ConcurrencyQueue.handover_remove id st.queue
  rw [withinLimit_settle_iff ha hhand]
  cases hhas : st.queue.has id with
  | false =>
    rw [ConcurrencyQueue.remove_of_not_has hhas]
    exact iff_of_true ⟨hle, hwait⟩ fun h => absurd (hhas.symm.trans h) Bool.false_ne_true
  | true =>
    have hgrant := ConcurrencyQueue.length_resolved_remove hhas
    have hbal := hhand.balance
    obtain ⟨index, hindex, heq⟩ := ConcurrencyQueue.remove_of_has hhas
    have hcap : (st.queue.remove id).1.capacity = st.queue.capacity + 1 := by
      rw [heq, ConcurrencyQueue.capacity_resolveNext]
    simp only [RemovesLast, hhas, forall_const]
    omega

/-- `removeAll` keeps the limit exactly when at most one execution waits. -/
theorem withinLimit_removeAll_iff (ha : st.Accounted limit) (hw : st.WithinLimit limit) :
    (st.settle st.queue.removeAll).WithinLimit limit ↔ st.RemovesLast .removeAll := by
  obtain ⟨hle, hwait⟩ := (withinLimit_iff ha).mp hw
  rw [withinLimit_settle_iff ha (ConcurrencyQueue.handover_removeAll _)]
  rcases hq : st.queue.queue with _ | ⟨item, rest⟩
  · have hall : st.queue.removeAll = (st.queue, {}) := by
      simp [ConcurrencyQueue.removeAll, ConcurrencyQueue.getAll, hq,
        ConcurrencyQueue.removeEach]
    simp [RemovesLast, hall, hq, hle]
  · -- the first id taken out is queued, and grants a slot if another execution waits
    obtain ⟨ids, hids⟩ := ConcurrencyQueue.removeAll_of_cons hq
    have hhas : st.queue.has item.executionId = true := by simp [ConcurrencyQueue.has, hq]
    have hfirst := ConcurrencyQueue.length_resolved_remove hhas
    have hrest := ConcurrencyQueue.handover_removeEach ids
      (st.queue.remove item.executionId).1
    have hlen := hrest.sublist.length_le
    have hbal := (ConcurrencyQueue.handover_remove item.executionId st.queue).balance
    obtain ⟨index, hindex, heq⟩ := ConcurrencyQueue.remove_of_has hhas
    have hcap : (st.queue.remove item.executionId).1.capacity
        = st.queue.capacity + 1 := by
      rw [heq, ConcurrencyQueue.capacity_resolveNext]
    rw [hids]
    simp only [RemovesLast, ConcurrencyQueue.removeEach, Effects.append,
      List.length_append, ConcurrencyQueue.length_promises] at hlen ⊢
    rw [hq] at hfirst hbal hwait ⊢
    simp only [List.length_cons] at hfirst hbal hwait ⊢
    omega

/-- **Step lemma of the limit**: from a state within the limit, a call leads to another
one exactly when it does not take an execution from in front of a waiting one. -/
theorem withinLimit_step_iff {c : QueueCall} (ha : st.Accounted limit)
    (hw : st.WithinLimit limit) (hstep : st.step c st') :
    st'.WithinLimit limit ↔ st.RemovesLast c := by
  cases c with
  | enqueue id => subst hstep; exact iff_of_true (hw.enqueue ha id) trivial
  | release promise =>
    obtain ⟨hmem, rfl⟩ := hstep
    exact iff_of_true (hw.release ha hmem) trivial
  | remove id => subst hstep; exact withinLimit_remove_iff ha hw id
  | removeAll => subst hstep; exact withinLimit_removeAll_iff ha hw

theorem withinLimit_new (limit : ℕ) : (new limit).WithinLimit limit := by
  rw [withinLimit_iff (accounted_new limit)]
  simp [new]

/-- **The concurrency limit, exactly.** For every limit and every sequence of calls from a
new queue, every state reached has at most `limit` granted executions that are not yet
released, no promise granted twice, and as many waiting executions as the negative part of
`capacity` says, if and only if no `remove` or `removeAll` of the sequence takes an
execution out of the waiting list while another one waits. -/
theorem queueSystem_limit_iff (limit : ℕ) (st : QueueSystem)
    (r : Run step (new limit) st) :
    r.Visits (WithinLimit limit) ↔ r.Takes RemovesLast :=
  Run.visits_iff_takes (I := fun st => Accounted limit st ∧ WithinLimit limit st)
    (C := RemovesLast)
    (fun _ h => h.2)
    (fun _ _ _ h hc hs => ⟨h.1.step hs, (withinLimit_step_iff h.1 h.2 hs).mpr hc⟩)
    (fun _ _ _ h hc hs hw => hc ((withinLimit_step_iff h.1 h.2 hs).mp hw))
    ⟨accounted_new limit, withinLimit_new limit⟩ r

/-- With one slot, removing the second of three executions while the first still runs
starts the third next to it. -/
theorem remove_exceeds_limit :
    ∃ (st : QueueSystem) (r : Run step (new 1) st),
      r.labels = [.enqueue "a", .enqueue "b", .enqueue "c", .remove "b"] ∧
        st.running.length = 2 ∧ ¬r.Visits (WithinLimit 1) := by
  refine ⟨_, .head (.enqueue "a") rfl (.head (.enqueue "b") rfl
    (.head (.enqueue "c") rfl (.head (.remove "b") rfl (.refl _)))), rfl, by decide,
    fun h => ?_⟩
  exact absurd h.last.running_le (by decide)

/-! ### First come, first served -/

/-- The slots are granted in the order in which the promises were issued: those that wait come
after all that were granted, and they wait for a slot only when none is free. -/
structure InOrder (limit : ℕ) (st : QueueSystem) : Prop where
  accounted : st.Accounted limit
  ordered : (st.granted ++ st.queue.promises).Pairwise (· < ·)
  full : st.queue.queue.length = 0 ∨ limit ≤ st.running.length

/-- Handing over keeps the order: nobody is overtaken, and no slot is taken away. -/
theorem InOrder.settle (h : st.InOrder limit) (hr : st.queue.Handover r) :
    (st.settle r).InOrder limit where
  accounted := h.accounted.settle hr
  ordered := by
    simp only [QueueSystem.settle, List.append_assoc]
    exact h.ordered.sublist (hr.sublist.append_left _)
  full := by
    have hlen := hr.sublist.length_le
    have hfull := h.full
    simp only [List.length_append, ConcurrencyQueue.length_promises] at hlen
    rw [queue_settle, length_running_settle]
    omega

theorem InOrder.enqueue (h : st.InOrder limit) (id : String) :
    InOrder limit { st.settle (st.queue.enqueue id st.issued) with issued := st.issued + 1 } := by
  have hcap := h.accounted.capacity_eq
  have hfull := h.full
  have hlast : ((st.granted ++ st.queue.promises) ++ [st.issued]).Pairwise (· < ·) := by
    refine List.pairwise_append.mpr ⟨h.ordered, List.pairwise_singleton _ _, fun p hp q hq => ?_⟩
    rw [List.mem_singleton.mp hq]
    exact h.accounted.lt_issued p hp
  refine ⟨h.accounted.enqueue id, ?_, ?_⟩
  · by_cases hneg : st.queue.capacity - 1 < 0
    · rw [ConcurrencyQueue.enqueue_of_lt _ hneg]
      simpa [QueueSystem.settle, ConcurrencyQueue.promises] using hlast
    · -- a slot is free, so nobody waits
      have hnone : st.queue.queue = [] := List.length_eq_zero_iff.mp (by omega)
      rw [ConcurrencyQueue.enqueue_of_not_lt _ hneg]
      simpa [QueueSystem.settle, ConcurrencyQueue.promises, hnone] using hlast
  · by_cases hneg : st.queue.capacity - 1 < 0
    · rw [ConcurrencyQueue.enqueue_of_lt _ hneg]
      simp only [length_running_settle, List.length_nil]
      omega
    · rw [ConcurrencyQueue.enqueue_of_not_lt _ hneg]
      simp only [queue_settle]
      omega

theorem InOrder.release (h : st.InOrder limit) {promise : ℕ} (hmem : promise ∈ st.running) :
    ({ st with running := st.running.erase promise }.settle st.queue.dequeue).InOrder limit := by
  have hhand := ConcurrencyQueue.handover_resolveNext
    { st.queue with capacity := st.queue.capacity + 1 }
  refine ⟨h.accounted.release hmem, ?_, ?_⟩
  · simp only [QueueSystem.settle, List.append_assoc]
    exact h.ordered.sublist (hhand.sublist.append_left _)
  · -- the slot that is given back goes to the first that waits
    have hgrant := ConcurrencyQueue.length_resolved_resolveNext
      { st.queue with capacity := st.queue.capacity + 1 }
    have hbal := hhand.balance
    have hpos : 0 < st.running.length := List.length_pos_of_mem hmem
    have hfull := h.full
    rw [ConcurrencyQueue.capacity_resolveNext] at hbal
    rw [queue_settle, length_running_settle, List.length_erase_of_mem hmem]
    simp only [ConcurrencyQueue.dequeue] at hbal hgrant ⊢
    omega

/-- **First come, first served.** In every run, also in one that exceeds the limit, slots are
granted in the order in which they were asked for, and nobody waits while a slot is free. -/
theorem visits_inOrder (limit : ℕ) (st : QueueSystem) (r : Run step (new limit) st) :
    r.Visits (InOrder limit) := by
  refine Run.visits_of_step (fun st c st' h hstep => ?_)
    ⟨accounted_new limit, List.Pairwise.nil, .inl rfl⟩ r
  cases c with
  | enqueue id => subst hstep; exact h.enqueue id
  | release promise =>
    obtain ⟨hmem, rfl⟩ := hstep
    exact h.release hmem
  | remove id => subst hstep; exact h.settle (ConcurrencyQueue.handover_remove _ _)
  | removeAll => subst hstep; exact h.settle (ConcurrencyQueue.handover_removeAll _)

end QueueSystem

end N8n
