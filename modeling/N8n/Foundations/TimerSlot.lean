import Mathlib.Data.List.Basic
import Mathlib.Tactic.Common

/-!
# Timers behind a field

A routine arms timers and keeps the last one in a field, so that another routine can clear it.
Arming does not clear what the field has named before. A slot is `Named` when the field names
every timer that is armed; only then does clearing leave none.
-/

universe u

/-- A timer that is armed, with how long it waits. -/
structure Timer (δ : Type u) where
  id : ℕ
  delay : δ
  deriving DecidableEq, Repr

structure TimerSlot (δ : Type u) where
  field : Option ℕ := none
  armed : List (Timer δ) := []
  next : ℕ := 0
  deriving DecidableEq, Repr

namespace TimerSlot

variable {δ : Type u} (slot : TimerSlot δ)

def arm (delay : δ) : TimerSlot δ where
  field := some slot.next
  armed := slot.armed ++ [⟨slot.next, delay⟩]
  next := slot.next + 1

/-- Clear the timer in the field. The field keeps its name. -/
def clear : TimerSlot δ :=
  match slot.field with
  | none => slot
  | some id => { slot with armed := slot.armed.filter (·.id ≠ id) }

/-- A timeout fires once. -/
def fire (id : ℕ) : TimerSlot δ := { slot with armed := slot.armed.filter (·.id ≠ id) }

def Armed (id : ℕ) : Prop := ∃ timer ∈ slot.armed, timer.id = id

instance (id : ℕ) : Decidable (slot.Armed id) := inferInstanceAs (Decidable (∃ _ ∈ _, _))

/-- The field names every armed timer. -/
def Named : Prop := ∀ timer ∈ slot.armed, slot.field = some timer.id

variable {slot}

theorem named_of_armed_eq_nil (h : slot.armed = []) : slot.Named := by
  intro timer hmem
  rw [h] at hmem
  exact absurd hmem List.not_mem_nil

theorem length_armed_arm (slot : TimerSlot δ) (delay : δ) :
    (slot.arm delay).armed.length = slot.armed.length + 1 :=
  List.length_append

theorem Named.arm (h : slot.armed = []) (delay : δ) : (slot.arm delay).Named := by
  intro timer hmem
  have hmem' : timer ∈ slot.armed ++ [⟨slot.next, delay⟩] := hmem
  rw [h, List.nil_append, List.mem_singleton] at hmem'
  rw [hmem']
  rfl

theorem Named.armed_clear (h : slot.Named) : slot.clear.armed = [] := by
  rw [clear]
  cases hfield : slot.field with
  | none =>
    refine List.eq_nil_iff_forall_not_mem.mpr fun timer hmem => ?_
    have hsome := h timer hmem
    exact nomatch hfield.symm.trans hsome
  | some id =>
    refine List.filter_eq_nil_iff.mpr fun timer hmem => ?_
    have hsame : timer.id = id := Option.some.inj ((h timer hmem).symm.trans hfield)
    exact fun hne => of_decide_eq_true hne hsame

/-- The only timer of a slot that fires leaves none. -/
theorem armed_fire (h : slot.armed.length ≤ 1) {id : ℕ} (harmed : slot.Armed id) :
    (slot.fire id).armed = [] := by
  obtain ⟨timer, hmem, rfl⟩ := harmed
  refine List.filter_eq_nil_iff.mpr fun other hother hne => ?_
  obtain ⟨only, honly⟩ := List.length_eq_one_iff.mp
    (Nat.le_antisymm h (List.length_pos_of_mem hmem))
  rw [honly, List.mem_singleton] at hmem hother
  exact of_decide_eq_true hne (by rw [hmem, hother])

end TimerSlot
