import Mathlib.Data.List.Basic
import Mathlib.Tactic.Common

/-!
# What holds of every event of a history

`EachAfter P events` says that `P` holds of every event and the events before it, and
`EachBefore P events` that `P` holds of every event and the events after it.
-/

universe u

/-- Every event has `P` with the events before it. -/
def EachAfter {α : Type u} (P : List α → α → Prop) (events : List α) : Prop :=
  ∀ earlier e later, events = earlier ++ e :: later → P earlier e

namespace EachAfter

variable {α : Type u} {P : List α → α → Prop} {events more : List α}

theorem nil : EachAfter P [] := by
  intro earlier e later h
  simp at h

/-- The events that come later are judged after all of the earlier ones. -/
theorem append (h : EachAfter P events)
    (hmore : ∀ a e b, more = a ++ e :: b → P (events ++ a) e) : EachAfter P (events ++ more) := by
  intro earlier e later heq
  obtain ⟨a, hearlier, hmore'⟩ | ⟨a, hevents, hrest⟩ := List.append_eq_append_iff.mp heq
  · rw [hearlier]
    exact hmore a e later hmore'
  · cases a with
    | nil =>
      rw [List.append_nil] at hevents
      rw [← hevents, ← List.append_nil events]
      exact hmore [] e later hrest.symm
    | cons e' a =>
      obtain ⟨rfl, rfl⟩ := List.cons.inj hrest
      exact h earlier e a hevents

theorem concat (h : EachAfter P events) {e : α} (he : P events e) :
    EachAfter P (events ++ [e]) := by
  refine h.append fun a e' b heq => ?_
  obtain ⟨rfl, hcons⟩ | ⟨a', rfl, hnil⟩ := List.cons_eq_append_iff.mp heq
  · rw [List.append_nil, (List.cons.inj hcons).1]
    exact he
  · simp at hnil

end EachAfter

/-- Every event has `P` with the events after it. -/
def EachBefore {α : Type u} (P : α → List α → Prop) (events : List α) : Prop :=
  ∀ earlier e later, events = earlier ++ e :: later → P e later

namespace EachBefore

variable {α : Type u} {P Q : α → List α → Prop} {events : List α}

theorem nil : EachBefore P [] := by
  intro earlier e later h
  simp at h

/-- One more event: every event so far is judged again, with the new one after it. -/
theorem concat (h : EachBefore P events) {x : α}
    (hold : ∀ e ∈ events, ∀ later, P e later → Q e (later ++ [x])) (hnew : Q x []) :
    EachBefore Q (events ++ [x]) := by
  intro earlier e later heq
  obtain rfl | ⟨later', y, rfl⟩ := List.eq_nil_or_concat later
  · obtain ⟨-, hx⟩ := List.append_inj' heq rfl
    obtain rfl := (List.cons.inj hx).1
    exact hnew
  · rw [List.concat_eq_append, ← List.cons_append, ← List.append_assoc] at heq
    obtain ⟨hevents, hx⟩ := List.append_inj' heq rfl
    obtain rfl := (List.cons.inj hx).1
    rw [List.concat_eq_append]
    exact hold e (hevents ▸ by simp) later' (h earlier e later' hevents)

end EachBefore
