import Mathlib.Data.List.Chain
import Mathlib.Data.List.Nodup
import Mathlib.Logic.Relation

/-!
# Simple paths

A path of a relation `r` is a list of vertices that forms a chain. Every path contains one
that visits no vertex twice (`exists_simple_path`), which is what a search that cuts its
branches at vertices it has seen on the way still finds. The vertices that such a search has not
seen become fewer (`length_filter_notMem_lt`), which bounds the depth of its calls.
-/

universe u

namespace Paths

open Relation

variable {V : Type u} {r : V → V → Prop} {x y : V}

/-- A vertex that reaches another one does so along a path without repetitions. -/
theorem exists_simple_path (h : ReflTransGen r x y) :
    ∃ l, (x :: l).IsChain r ∧ (x :: l).Nodup ∧ (x :: l).getLast (List.cons_ne_nil x l) = y := by
  induction h using ReflTransGen.head_induction_on with
  | refl => exact ⟨[], List.isChain_singleton y, List.nodup_singleton y, rfl⟩
  | @head x z hxz _ ih =>
    obtain ⟨l, hchain, hnodup, hlast⟩ := ih
    by_cases hx : x ∈ z :: l
    · -- cut the cycle at `x`
      obtain ⟨s, t, hst⟩ := List.append_of_mem hx
      refine ⟨t, ?_, ?_, ?_⟩
      · rw [hst] at hchain
        exact hchain.right_of_append
      · rw [hst] at hnodup
        exact hnodup.of_append_right
      · rw [← hlast]
        simp only [hst]
        rw [List.getLast_append_of_ne_nil]
    · refine ⟨z :: l, hchain.cons_cons hxz, List.nodup_cons.mpr ⟨hx, hnodup⟩, ?_⟩
      rw [List.getLast_cons (List.cons_ne_nil z l), hlast]

/-- What holds of the start and of the target of every step holds along a path. -/
theorem forall_mem_of_isChain {P : V → Prop} {l : List V} (hl : (x :: l).IsChain r) (hx : P x)
    (hr : ∀ u v, r u v → P v) : ∀ v ∈ x :: l, P v := by
  induction l generalizing x with
  | nil =>
    intro v hv
    rw [List.mem_singleton.mp hv]
    exact hx
  | cons z l ih =>
    rw [List.isChain_cons_cons] at hl
    intro v hv
    rcases List.mem_cons.mp hv with rfl | hv
    · exact hx
    · exact ih hl.2 (hr _ _ hl.1) v hv

/-- Where more vertices have been seen, fewer are left. -/
theorem length_filter_notMem_lt [DecidableEq V] {vertices seen seen' : List V} {v : V}
    (hsubset : seen ⊆ seen') (hv : v ∈ vertices) (hnew : v ∉ seen) (hseen : v ∈ seen') :
    (vertices.filter (· ∉ seen')).length < (vertices.filter (· ∉ seen)).length := by
  have hfilter : vertices.filter (· ∉ seen') =
      (vertices.filter (· ∉ seen)).filter (· ∉ seen') := by
    rw [List.filter_filter]
    refine List.filter_congr fun w _ => ?_
    by_cases hw : w ∈ seen'
    · simp [hw]
    · have hold : w ∉ seen := fun hmem => hw (hsubset hmem)
      simp [hw, hold]
  rw [hfilter, List.length_filter_lt_length_iff_exists]
  exact ⟨v, List.mem_filter.mpr ⟨hv, by simpa using hnew⟩, by simpa using hseen⟩

end Paths
