import Mathlib.Data.Int.Order.Basic
import Mathlib.Data.List.Basic
import Mathlib.Data.Nat.Basic
import Mathlib.Tactic.Common

/-!
# A sliding window over the last signal

A call of `getSignal` returns the last signal when it is not older than the window, and otherwise
waits for the next one. The timer that ends the wait is armed without a delay, so it fires after
the shortest delay there is, and not after the window.

A run is a list of events: a millisecond passes, a signal is emitted, `getSignal` is called, the
timer of a call fires. Time does not pass a timer that is due. What a call should return is read
off the signals before and behind it (`expected`); `returnsHeld_iff` says when it returns that.
-/

namespace N8n.SlidingWindowSignal

universe u

variable {σ : Type u}

/-- `setTimeout` without a delay waits for one millisecond. -/
def defaultDelay : ℤ := 1

structure WindowSize where
  windowSizeInMs : ℕ
  pos : 0 < windowSizeInMs

/-- A call that waits, with the time its timer fires. -/
structure Waiting where
  call : ℕ
  timeout : ℤ
  deriving DecidableEq, Repr

/-- The signal object, the calls that wait, what calls have returned, the time, and the number of
calls so far. -/
structure State (σ : Type u) where
  now : ℤ
  lastSignal : Option σ := none
  lastSignalTime : ℤ := 0
  waiting : List Waiting := []
  returned : ℕ → Option (Option σ) := fun _ => none
  calls : ℕ := 0

inductive Event (σ : Type u)
  | tick
  | emit (signal : σ)
  | getSignal
  | timeout (call : ℕ)
  deriving DecidableEq, Repr

namespace State

variable (s : State σ)

/-- A promise is resolved once. -/
def resolve (call : ℕ) (result : Option σ) : State σ :=
  { s with returned := fun other =>
      (s.returned other).or (if other = call then some result else none) }

/-- The listener of the constructor, then those of the calls that wait. -/
def emit (signal : σ) : State σ :=
  s.waiting.foldl (fun s waiting => s.resolve waiting.call (some signal))
    { s with lastSignal := some signal, lastSignalTime := s.now, waiting := [] }

def getSignal (w : WindowSize) : State σ :=
  if s.now - s.lastSignalTime ≤ w.windowSizeInMs then
    { s.resolve s.calls s.lastSignal with calls := s.calls + 1 }
  else
    { s with
      waiting := s.waiting ++ [⟨s.calls, s.now + defaultDelay⟩]
      calls := s.calls + 1 }

/-- The timer of a call: the listener is taken off and the promise resolved. -/
def fire (call : ℕ) : State σ :=
  { s.resolve call none with waiting := s.waiting.filter (·.call ≠ call) }

end State

def step (w : WindowSize) (s : State σ) : Event σ → Option (State σ)
  | .tick => if ∀ waiting ∈ s.waiting, s.now < waiting.timeout then
      some { s with now := s.now + 1 } else none
  | .emit signal => some (s.emit signal)
  | .getSignal => some (s.getSignal w)
  | .timeout call => if ∃ waiting ∈ s.waiting, waiting.call = call ∧ waiting.timeout ≤ s.now then
      some (s.fire call) else none

def exec (w : WindowSize) : State σ → List (Event σ) → Option (State σ)
  | s, [] => some s
  | s, event :: events => (step w s event).bind (exec w · events)

/-! ## What a call should return -/

/-- The signals of a run that starts at a time, with theirs. -/
def signals : ℤ → List (Event σ) → List (ℤ × σ)
  | _, [] => []
  | now, .tick :: events => signals (now + 1) events
  | now, .emit signal :: events => (now, signal) :: signals now events
  | now, .getSignal :: events => signals now events
  | now, .timeout _ :: events => signals now events

/-- A call in a run, with the states before it and at the end of the run, when its window is
over. -/
structure Observed (σ : Type u) (w : WindowSize) where
  start : ℤ
  before : List (Event σ)
  after : List (Event σ)
  called : State σ
  final : State σ
  exec_before : exec w { now := start } before = some called
  exec_after : exec w (called.getSignal w) after = some final
  ended : called.now + w.windowSizeInMs < final.now

namespace Observed

variable {w : WindowSize} (o : Observed σ w)

/-- The last signal before the call. -/
def last : Option (ℤ × σ) := (signals o.start o.before).getLast?

/-- The first signal behind the call. -/
def first : Option (ℤ × σ) := (signals o.called.now o.after).head?

/-- The last signal is not older than the window. -/
def LastInWindow : Prop := ∃ last ∈ o.last, o.called.now - w.windowSizeInMs ≤ last.1

/-- The first later signal comes within the window. -/
def FirstInWindow : Prop := ∃ first ∈ o.first, first.1 ≤ o.called.now + w.windowSizeInMs

/-- The call has returned what its window holds. -/
structure ReturnsHeld : Prop where
  last : o.LastInWindow → o.final.returned o.called.calls = some (o.last.map Prod.snd)
  first : ¬o.LastInWindow → o.FirstInWindow →
    o.final.returned o.called.calls = some (o.first.map Prod.snd)
  null : ¬o.LastInWindow → ¬o.FirstInWindow → o.final.returned o.called.calls = some none

/-- The next signal or timer of a call: whether it is a signal. -/
def signalFirst (call : ℕ) : List (Event σ) → Bool
  | [] => false
  | .emit _ :: _ => true
  | .timeout other :: events => other ≠ call && signalFirst call events
  | .tick :: events => signalFirst call events
  | .getSignal :: events => signalFirst call events

/-- The last signal is in the window; or no later one is; or a later one comes before the timer
of the call, which waits because a signal was emitted before or the window has passed since the
beginning of time. -/
def Condition : Prop :=
  o.LastInWindow ∨ ¬o.FirstInWindow ∨
    ((o.last ≠ none ∨ (w.windowSizeInMs : ℤ) < o.called.now) ∧
      signalFirst o.called.calls o.after = true)

end Observed

/-! ## What a step does -/

section Steps

variable {w : WindowSize} {s t : State σ} {call other : ℕ}

/-- Signals resolve the calls that wait and change nothing else. -/
theorem foldl_resolve (waiting : List Waiting) (signal : σ) (s : State σ) :
    waiting.foldl (fun s waiting => s.resolve waiting.call (some signal)) s =
      { s with
        returned := fun call => (s.returned call).or
          (if call ∈ waiting.map Waiting.call then some (some signal) else none) } := by
  induction waiting generalizing s with
  | nil =>
    refine congrArg (fun returned => { s with returned }) (funext fun call => ?_)
    rw [List.map_nil, if_neg List.not_mem_nil, Option.or_none]
  | cons first waiting ih =>
    rw [List.foldl_cons, ih]
    refine congrArg (fun returned => { s with returned }) (funext fun call => ?_)
    rw [State.resolve, Option.or_assoc, List.map_cons]
    by_cases hcall : call = first.call
    · subst hcall
      rw [if_pos rfl, if_pos List.mem_cons_self]
      rfl
    · have hmem : call ∈ first.call :: waiting.map Waiting.call ↔
          call ∈ waiting.map Waiting.call := by
        rw [List.mem_cons, or_iff_right hcall]
      simp only [if_neg hcall, Option.none_or, hmem]

theorem emit_eq (s : State σ) (signal : σ) :
    s.emit signal = { s with
      lastSignal := some signal
      lastSignalTime := s.now
      waiting := []
      returned := fun call => (s.returned call).or
        (if call ∈ s.waiting.map Waiting.call then some (some signal) else none) } :=
  foldl_resolve _ _ _

theorem getSignal_eq (w : WindowSize) (s : State σ) :
    s.getSignal w =
      if s.now - s.lastSignalTime ≤ w.windowSizeInMs then
        { s.resolve s.calls s.lastSignal with calls := s.calls + 1 }
      else
        { s with
          waiting := s.waiting ++ [⟨s.calls, s.now + defaultDelay⟩]
          calls := s.calls + 1 } :=
  rfl

/-- What a call has returned stays. -/
theorem returned_step {event : Event σ} {result : Option σ} (hstep : step w s event = some t)
    (h : s.returned call = some result) : t.returned call = some result := by
  cases event with
  | tick =>
    rw [step] at hstep
    split at hstep
    · cases hstep
      exact h
    · cases hstep
  | emit signal =>
    cases hstep
    rw [emit_eq]
    dsimp only
    rw [h]
    rfl
  | getSignal =>
    cases hstep
    rw [getSignal_eq]
    split
    · dsimp only [State.resolve]
      rw [h]
      rfl
    · exact h
  | timeout other =>
    rw [step] at hstep
    split at hstep
    · cases hstep
      dsimp only [State.fire, State.resolve]
      rw [h]
      rfl
    · cases hstep

theorem returned_exec {events : List (Event σ)} {result : Option σ}
    (hexec : exec w s events = some t) (h : s.returned call = some result) :
    t.returned call = some result := by
  induction events generalizing s with
  | nil =>
    cases hexec
    exact h
  | cons event events ih =>
    obtain ⟨next, hstep, hrest⟩ := Option.bind_eq_some_iff.mp hexec
    exact ih hrest (returned_step hstep h)

/-- What a state remembers of the last signal. -/
def State.memory (s : State σ) : Option σ × ℤ := (s.lastSignal, s.lastSignalTime)

/-- The last of some signals, or what was remembered before. -/
def remember (memory : Option σ × ℤ) : Option (ℤ × σ) → Option σ × ℤ
  | none => memory
  | some (time, signal) => (some signal, time)

theorem memory_exec {events : List (Event σ)} (hexec : exec w s events = some t) :
    t.memory = remember s.memory (signals s.now events).getLast? := by
  induction events generalizing s with
  | nil =>
    cases hexec
    rfl
  | cons event events ih =>
    obtain ⟨next, hstep, hrest⟩ := Option.bind_eq_some_iff.mp hexec
    rw [ih hrest]
    cases event with
    | tick =>
      rw [step] at hstep
      split at hstep
      · cases hstep
        rfl
      · cases hstep
    | emit signal =>
      cases hstep
      rw [emit_eq, signals, List.getLast?_cons]
      dsimp only
      cases hlast : (signals s.now events).getLast? with
      | none => rfl
      | some last => rfl
    | getSignal =>
      cases hstep
      rw [getSignal_eq]
      split
      · rfl
      · rfl
    | timeout other =>
      rw [step] at hstep
      split at hstep
      · cases hstep
        rfl
      · cases hstep

/-- The calls to come have returned nothing, and none of them waits. -/
structure Fresh (s : State σ) : Prop where
  returned : ∀ call, s.calls ≤ call → s.returned call = none
  waiting : ∀ waiting ∈ s.waiting, waiting.call < s.calls

theorem Fresh.step {event : Event σ} (h : Fresh s) (hstep : step w s event = some t) :
    Fresh t := by
  cases event with
  | tick =>
    rw [SlidingWindowSignal.step] at hstep
    split at hstep
    · cases hstep
      exact ⟨h.returned, h.waiting⟩
    · cases hstep
  | emit signal =>
    cases hstep
    rw [emit_eq]
    refine ⟨fun call hcall => ?_, fun waiting hmem => absurd hmem List.not_mem_nil⟩
    dsimp only
    rw [h.returned call hcall, Option.none_or, if_neg]
    intro hmem
    obtain ⟨waiting, hwaiting, rfl⟩ := List.mem_map.mp hmem
    exact absurd (h.waiting waiting hwaiting) (not_lt.mpr hcall)
  | getSignal =>
    cases hstep
    rw [getSignal_eq]
    split
    · refine ⟨fun call hcall => ?_, fun waiting hmem => Nat.lt_succ_of_lt (h.waiting _ hmem)⟩
      dsimp only [State.resolve]
      rw [h.returned call (Nat.le_of_succ_le hcall), Option.none_or,
        if_neg (Nat.ne_of_gt hcall)]
    · refine ⟨fun call hcall => h.returned call (Nat.le_of_succ_le hcall), fun waiting hmem => ?_⟩
      rcases List.mem_append.mp hmem with hold | hnew
      · exact Nat.lt_succ_of_lt (h.waiting _ hold)
      · rw [List.mem_singleton.mp hnew]
        exact Nat.lt_succ_self _
  | timeout other =>
    rw [SlidingWindowSignal.step] at hstep
    split at hstep
    · rename_i hdue
      cases hstep
      obtain ⟨waiting, hwaiting, rfl, -⟩ := hdue
      refine ⟨fun call hcall => ?_, fun waiting hmem => h.waiting _ (List.mem_of_mem_filter hmem)⟩
      dsimp only [State.fire, State.resolve]
      rw [h.returned call hcall, Option.none_or, if_neg]
      rintro rfl
      exact absurd (h.waiting waiting hwaiting) (not_lt.mpr hcall)
    · cases hstep

theorem Fresh.exec {events : List (Event σ)} (h : Fresh s)
    (hexec : exec w s events = some t) : Fresh t := by
  induction events generalizing s with
  | nil =>
    cases hexec
    exact h
  | cons event events ih =>
    obtain ⟨next, hstep, hrest⟩ := Option.bind_eq_some_iff.mp hexec
    exact ih (h.step hstep) hrest

/-! ## A call that waits -/

/-- A call waits for its timer. -/
structure Pending (s : State σ) (call : ℕ) (deadline : ℤ) : Prop where
  returned : s.returned call = none
  waiting : ⟨call, deadline⟩ ∈ s.waiting
  due : s.now ≤ deadline
  known : call < s.calls

variable {deadline : ℤ}

theorem Pending.tick (h : Pending s call deadline)
    (hdue : ∀ waiting ∈ s.waiting, s.now < waiting.timeout) :
    Pending { s with now := s.now + 1 } call deadline :=
  ⟨h.returned, h.waiting, hdue _ h.waiting, h.known⟩

theorem Pending.getSignal (h : Pending s call deadline) :
    Pending (s.getSignal w) call deadline := by
  rw [getSignal_eq]
  split
  · refine ⟨?_, h.waiting, h.due, Nat.lt_succ_of_lt h.known⟩
    dsimp only [State.resolve]
    rw [h.returned, Option.none_or, if_neg (Nat.ne_of_lt h.known)]
  · exact ⟨h.returned, List.mem_append_left _ h.waiting, h.due, Nat.lt_succ_of_lt h.known⟩

theorem Pending.fire (h : Pending s call deadline) (hne : other ≠ call) :
    Pending (s.fire other) call deadline := by
  refine ⟨?_, ?_, h.due, h.known⟩
  · dsimp only [State.fire, State.resolve]
    rw [h.returned, Option.none_or, if_neg (Ne.symm hne)]
  · exact List.mem_filter.mpr ⟨h.waiting, decide_eq_true (Ne.symm hne)⟩

theorem Pending.returned_emit (h : Pending s call deadline) (signal : σ) :
    (s.emit signal).returned call = some (some signal) := by
  rw [emit_eq]
  dsimp only
  rw [h.returned, Option.none_or, if_pos (List.mem_map.mpr ⟨_, h.waiting, rfl⟩)]

theorem Pending.returned_fire (h : Pending s call deadline) :
    (s.fire call).returned call = some none := by
  dsimp only [State.fire, State.resolve]
  rw [h.returned, Option.none_or, if_pos rfl]

/-- **A call that waits** returns the next signal if that comes before its timer, and null
otherwise, once its timer is over. -/
theorem Pending.exec {events : List (Event σ)} (h : Pending s call deadline)
    (hexec : exec w s events = some t) (hover : deadline < t.now) :
    (Observed.signalFirst call events = true ∧
      ∃ first, (signals s.now events).head? = some first ∧ first.1 ≤ deadline ∧
        t.returned call = some (some first.2)) ∨
      Observed.signalFirst call events = false ∧ t.returned call = some none := by
  induction events generalizing s with
  | nil =>
    cases hexec
    exact absurd h.due (not_le.mpr hover)
  | cons event events ih =>
    obtain ⟨next, hstep, hrest⟩ := Option.bind_eq_some_iff.mp hexec
    cases event with
    | tick =>
      rw [SlidingWindowSignal.step] at hstep
      split at hstep
      · rename_i hdue
        cases hstep
        exact ih (h.tick hdue) hrest
      · cases hstep
    | emit signal =>
      cases hstep
      exact Or.inl ⟨rfl, (s.now, signal), rfl, h.due,
        returned_exec hrest (h.returned_emit signal)⟩
    | getSignal =>
      cases hstep
      have hnow : (s.getSignal w).now = s.now := by
        rw [getSignal_eq]
        split
        · rfl
        · rfl
      have hnext := ih h.getSignal hrest
      rwa [hnow] at hnext
    | timeout other =>
      rw [SlidingWindowSignal.step] at hstep
      split at hstep
      · cases hstep
        by_cases hcall : other = call
        · subst hcall
          refine Or.inr ⟨?_, returned_exec hrest h.returned_fire⟩
          rw [Observed.signalFirst, decide_eq_false (not_not.mpr rfl), Bool.false_and]
        · rw [Observed.signalFirst, decide_eq_true hcall, Bool.true_and]
          have hnext := ih (h.fire hcall) hrest
          exact hnext
      · cases hstep

end Steps

/-! ## When it returns that -/

namespace Observed

variable {w : WindowSize} (o : Observed σ w)

theorem fresh_called : Fresh o.called :=
  Fresh.exec ⟨fun _ _ => rfl, fun _ hmem => absurd hmem List.not_mem_nil⟩ o.exec_before

theorem memory_called : o.called.memory = remember (none, 0) o.last :=
  memory_exec o.exec_before

/-- The call does not wait. -/
theorem returned_of_recent
    (h : o.called.now - o.called.lastSignalTime ≤ w.windowSizeInMs) :
    o.final.returned o.called.calls = some o.called.lastSignal := by
  refine returned_exec o.exec_after ?_
  rw [getSignal_eq, if_pos h]
  dsimp only [State.resolve]
  rw [o.fresh_called.returned _ le_rfl, Option.none_or, if_pos rfl]

theorem pending_of_not_recent
    (h : ¬o.called.now - o.called.lastSignalTime ≤ w.windowSizeInMs) :
    Pending (o.called.getSignal w) o.called.calls (o.called.now + defaultDelay) := by
  rw [getSignal_eq, if_neg h]
  refine ⟨o.fresh_called.returned _ le_rfl, List.mem_append_right _ List.mem_cons_self, ?_,
    Nat.lt_succ_self _⟩
  exact Int.le_of_lt (Int.lt_succ o.called.now)

theorem now_getSignal : (o.called.getSignal w).now = o.called.now := by
  rw [getSignal_eq]
  split
  · rfl
  · rfl

/-- A call that returns null, without a signal in its window before. -/
theorem returnsHeld_iff_of_null (hlast : ¬o.LastInWindow)
    (h : o.final.returned o.called.calls = some none) : o.ReturnsHeld ↔ ¬o.FirstInWindow := by
  constructor
  · intro hmeets hin
    have hresult := hmeets.first hlast hin
    obtain ⟨first, hfirst, -⟩ := hin
    rw [h, show o.first = some first from hfirst] at hresult
    exact nomatch Option.some.inj hresult
  · exact fun hnot => ⟨fun hin => absurd hin hlast, fun _ hin => absurd hin hnot, fun _ _ => h⟩

/-- A call that waits, without a signal in its window before. -/
theorem returnsHeld_iff_of_waits (hlast : ¬o.LastInWindow)
    (h : ¬o.called.now - o.called.lastSignalTime ≤ w.windowSizeInMs) :
    o.ReturnsHeld ↔ ¬o.FirstInWindow ∨ signalFirst o.called.calls o.after = true := by
  -- the window is at least as long as the shortest delay
  have hdelay : o.called.now + defaultDelay ≤ o.called.now + w.windowSizeInMs :=
    Int.add_le_add_left (Int.ofNat_le.mpr w.pos) _
  have hspec := (o.pending_of_not_recent h).exec o.exec_after (lt_of_le_of_lt hdelay o.ended)
  rw [o.now_getSignal] at hspec
  rcases hspec with ⟨hsignal, first, hfirst, htime, hreturned⟩ | ⟨hsignal, hreturned⟩
  · have hin : o.FirstInWindow := ⟨first, hfirst, le_trans htime hdelay⟩
    refine iff_of_true ⟨fun hin' => absurd hin' hlast, fun _ _ => ?_, fun _ hnot => absurd hin hnot⟩
      (Or.inr hsignal)
    rw [hreturned, show o.first = some first from hfirst]
    rfl
  · rw [hsignal, or_iff_left Bool.false_ne_true]
    exact o.returnsHeld_iff_of_null hlast hreturned

/-- **A call returns what its window holds exactly under the condition.** -/
theorem returnsHeld_iff : o.ReturnsHeld ↔ o.Condition := by
  have hmemory := o.memory_called
  unfold Condition
  cases hlast : o.last with
  | none =>
    rw [hlast] at hmemory
    have htime : o.called.lastSignalTime = 0 := congrArg Prod.snd hmemory
    have hsignal : o.called.lastSignal = none := congrArg Prod.fst hmemory
    have hnot : ¬o.LastInWindow := fun ⟨last, hmem, _⟩ => nomatch hlast.symm.trans hmem
    rw [or_iff_right hnot, ne_self_iff_false, false_or]
    by_cases hrecent : o.called.now - o.called.lastSignalTime ≤ w.windowSizeInMs
    · have hreturned := o.returned_of_recent hrecent
      rw [hsignal] at hreturned
      rw [o.returnsHeld_iff_of_null hnot hreturned, or_iff_left]
      rintro ⟨hlate, -⟩
      omega
    · rw [o.returnsHeld_iff_of_waits hnot hrecent]
      have hlate : (w.windowSizeInMs : ℤ) < o.called.now := by omega
      rw [and_iff_right hlate]
  | some last =>
    rw [hlast] at hmemory
    have htime : o.called.lastSignalTime = last.1 := congrArg Prod.snd hmemory
    have hsignal : o.called.lastSignal = some last.2 := congrArg Prod.fst hmemory
    by_cases hin : o.called.now - w.windowSizeInMs ≤ last.1
    · have hwindow : o.LastInWindow := ⟨last, hlast, hin⟩
      have hreturned := o.returned_of_recent (by omega)
      refine iff_of_true ⟨fun _ => ?_, fun hnot => absurd hwindow hnot,
        fun hnot => absurd hwindow hnot⟩ (Or.inl hwindow)
      rw [hreturned, hsignal, hlast]
      rfl
    · have hwindow : ¬o.LastInWindow := by
        rintro ⟨other, hother, hin'⟩
        cases hlast.symm.trans hother
        exact hin hin'
      rw [o.returnsHeld_iff_of_waits hwindow (by omega), or_iff_right hwindow,
        and_iff_right (Or.inl (Option.some_ne_none last))]

end Observed

/-! ## A signal that comes after the timer -/

/-- A window of two milliseconds: a call at 10, whose timer fires at 11, and a signal at 12. -/
def lateSignal : Observed Unit ⟨2, Nat.two_pos⟩ where
  start := 10
  before := []
  after := [.tick, .timeout 0, .tick, .emit (), .tick]
  called := { now := 10 }
  final :=
    { now := 13
      lastSignal := some ()
      lastSignalTime := 12
      returned := fun call => Option.or none (if call = 0 then some none else none)
      calls := 1 }
  exec_before := rfl
  exec_after := rfl
  ended := by decide

/-- The call returns null although a signal comes within its window. -/
theorem not_returnsHeld_lateSignal :
    ¬∀ (w : WindowSize) (o : Observed Unit w), o.ReturnsHeld := by
  intro hclaim
  have hmeets := hclaim ⟨2, Nat.two_pos⟩ lateSignal
  have hlast : ¬lateSignal.LastInWindow := fun ⟨_, hmem, _⟩ => nomatch hmem
  have hfirst : lateSignal.FirstInWindow := ⟨(12, ()), rfl, by decide⟩
  exact nomatch Option.some.inj (hmeets.first hlast hfirst)

end N8n.SlidingWindowSignal
