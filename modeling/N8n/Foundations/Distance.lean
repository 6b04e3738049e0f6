import Mathlib.Logic.Relation
import Mathlib.Tactic.Common

/-!
# Distances in a directed graph

`ReachesIn r s n v` says that a path of `n` steps of `r` leads from `s` to `v`, and
`IsDistance r s d v` that no shorter one than `d` steps does. The vertices at distance `d + 1` are
those that are a step behind one at distance `d` and at no smaller distance themselves
(`isDistance_succ_iff`), which is how a search that goes level by level meets them.
-/

universe u

namespace Distance

open Relation

variable {V : Type u} {r : V → V → Prop} {s v w : V} {d m n : ℕ}

/-- A path of `n` steps leads from `s` to the vertex. -/
def ReachesIn (r : V → V → Prop) (s : V) : ℕ → V → Prop
  | 0, v => v = s
  | n + 1, v => ∃ u, ReachesIn r s n u ∧ r u v

/-- The length of a shortest path from `s`. -/
def IsDistance (r : V → V → Prop) (s : V) (d : ℕ) (v : V) : Prop :=
  ReachesIn r s d v ∧ ∀ n < d, ¬ ReachesIn r s n v

theorem exists_reachesIn_iff : (∃ n, ReachesIn r s n v) ↔ ReflTransGen r s v := by
  constructor
  · rintro ⟨n, h⟩
    induction n generalizing v with
    | zero => exact h ▸ .refl
    | succ n ih =>
      obtain ⟨u, hu, hstep⟩ := h
      exact (ih hu).tail hstep
  · intro h
    induction h with
    | refl => exact ⟨0, rfl⟩
    | tail _ hstep ih =>
      obtain ⟨n, hn⟩ := ih
      exact ⟨n + 1, _, hn, hstep⟩

theorem IsDistance.reaches (h : IsDistance r s d v) : ReflTransGen r s v :=
  exists_reachesIn_iff.mp ⟨d, h.1⟩

theorem isDistance_zero_iff : IsDistance r s 0 v ↔ v = s :=
  and_iff_left fun _ hn => absurd hn (Nat.not_lt_zero _)

/-- A vertex that is reached has a distance, no longer than the path. -/
theorem exists_isDistance (h : ReachesIn r s n v) : ∃ d ≤ n, IsDistance r s d v := by
  induction n using Nat.strongRecOn with
  | ind n ih =>
    by_cases hshorter : ∃ m < n, ReachesIn r s m v
    · obtain ⟨m, hm, hreaches⟩ := hshorter
      obtain ⟨d, hd, hdistance⟩ := ih m hm hreaches
      exact ⟨d, Nat.le_trans hd (Nat.le_of_lt hm), hdistance⟩
    · exact ⟨n, Nat.le_refl n, h, fun m hm hreaches => hshorter ⟨m, hm, hreaches⟩⟩

/-- The vertices of the next level. -/
theorem isDistance_succ_iff :
    IsDistance r s (d + 1) v ↔
      (∃ u, IsDistance r s d u ∧ r u v) ∧ ∀ n ≤ d, ¬ IsDistance r s n v := by
  constructor
  · rintro ⟨⟨u, hu, hstep⟩, hleast⟩
    obtain ⟨m, hm, hdistance⟩ := exists_isDistance hu
    obtain rfl | hlt := Nat.eq_or_lt_of_le hm
    · exact ⟨⟨u, hdistance, hstep⟩, fun n hn h => hleast n (Nat.lt_succ_of_le hn) h.1⟩
    · exact absurd ⟨u, hdistance.1, hstep⟩ (hleast (m + 1) (Nat.succ_lt_succ hlt))
  · rintro ⟨⟨u, hu, hstep⟩, hleast⟩
    refine ⟨⟨u, hu.1, hstep⟩, fun n hn hreaches => ?_⟩
    obtain ⟨m, hm, hdistance⟩ := exists_isDistance hreaches
    exact hleast m (Nat.le_trans hm (Nat.lt_succ_iff.mp hn)) hdistance

/-- The distances up to that of a vertex all occur. -/
theorem IsDistance.exists_of_le (h : IsDistance r s d v) (hn : n ≤ d) :
    ∃ u, IsDistance r s n u := by
  induction d generalizing v with
  | zero => exact ⟨v, Nat.le_zero.mp hn ▸ h⟩
  | succ d ih =>
    obtain rfl | hlt := Nat.eq_or_lt_of_le hn
    · exact ⟨v, h⟩
    · obtain ⟨⟨u, hu, -⟩, -⟩ := isDistance_succ_iff.mp h
      exact ih hu (Nat.lt_succ_iff.mp hlt)

end Distance
