import N8n.Foundations.InsertionSet
import Mathlib.Data.Finset.Card
import Mathlib.Data.Prod.Lex
import Mathlib.Logic.Relation

/-!
# Search with a stack and a set of what was seen

`finds goal seen stack` takes the vertices of a stack from the top. It stops at the goal, and else
puts the successors of the vertex that have not been seen on the stack. A vertex may be on the
stack more than once, and is then taken more than once.

The successors come from a finite list. The search ends: a vertex taken for the first time leaves
fewer vertices to see, and one taken again leaves a shorter stack, or one with a new vertex on top.
It finds the goal exactly when that is reachable (`finds_iff`).

`collect seen stack` has no goal: it skips a vertex that has been seen, and returns all it has seen
once the stack is empty. It adds the vertices of the stack and only what is reachable from them.
-/

universe u

namespace StackSearch

open Relation

variable {V : Type u} [DecidableEq V] {next : V → List V} {vertices : List V}

/-- The successors of a vertex that have not been seen, the last one first. -/
def pushed (next : V → List V) (seen : InsertionSet V) (v : V) : List V :=
  ((next v).filter (· ∉ seen)).reverse

theorem mem_pushed {seen : InsertionSet V} {v w : V} :
    w ∈ pushed next seen v ↔ w ∈ next v ∧ w ∉ seen := by
  simp [pushed]

/-- The vertices that the search may still see for the first time. -/
def unseen (vertices : List V) (seen : InsertionSet V) (stack : List V) : Finset V :=
  (stack ++ vertices).toFinset.filter (· ∉ seen)

theorem mem_unseen {seen : InsertionSet V} {stack : List V} {w : V} :
    w ∈ unseen vertices seen stack ↔ (w ∈ stack ∨ w ∈ vertices) ∧ w ∉ seen := by
  simp [unseen]

/-- The vertex on top of the stack has been seen. -/
def topSeen (seen : InsertionSet V) : List V → ℕ
  | [] => 0
  | v :: _ => if v ∈ seen then 1 else 0

theorem topSeen_le_one (seen : InsertionSet V) (stack : List V) : topSeen seen stack ≤ 1 := by
  cases stack with
  | nil => exact Nat.zero_le 1
  | cons v stack => rw [topSeen]; split <;> omega

/-- What decreases with every vertex that is taken. -/
def size (vertices : List V) (seen : InsertionSet V) (stack : List V) : ℕ ×ₗ ℕ ×ₗ ℕ :=
  toLex ((unseen vertices seen stack).card, toLex (topSeen seen stack, stack.length))

theorem unseen_subset (hnext : ∀ v, ∀ w ∈ next v, w ∈ vertices) (seen : InsertionSet V)
    (v : V) (stack : List V) :
    unseen vertices (seen.add v) (pushed next (seen.add v) v ++ stack) ⊆
      unseen vertices seen (v :: stack) := by
  intro w hw
  obtain ⟨hmem, hseen⟩ := mem_unseen.mp hw
  refine mem_unseen.mpr ⟨?_, fun h => hseen (InsertionSet.mem_add.mpr (Or.inr h))⟩
  obtain hstack | hvertex := hmem
  · obtain hpushed | hstack := List.mem_append.mp hstack
    · exact Or.inr (hnext v w (mem_pushed.mp hpushed).1)
    · exact Or.inl (List.mem_cons_of_mem v hstack)
  · exact Or.inr hvertex

theorem size_lt (hnext : ∀ v, ∀ w ∈ next v, w ∈ vertices) (seen : InsertionSet V) (v : V)
    (stack : List V) :
    size vertices (seen.add v) (pushed next (seen.add v) v ++ stack) <
      size vertices seen (v :: stack) := by
  have hsub := unseen_subset hnext seen v stack
  by_cases hv : v ∈ seen
  · have hadd : seen.add v = seen := dif_pos hv
    rw [hadd] at hsub ⊢
    have htop : topSeen seen (v :: stack) = 1 := if_pos hv
    refine Prod.Lex.toLex_lt_toLex.mpr ?_
    refine (Finset.card_le_card hsub).lt_or_eq.imp_right fun hcard => ⟨hcard, ?_⟩
    refine Prod.Lex.toLex_lt_toLex.mpr ?_
    cases hnew : pushed next seen v with
    | nil =>
      have hle := topSeen_le_one seen stack
      rw [htop]
      exact hle.lt_or_eq.imp_right fun heq => ⟨heq, Nat.lt_succ_self _⟩
    | cons w rest =>
      have hw : w ∉ seen := (mem_pushed.mp (hnew ▸ List.mem_cons_self)).2
      have hnot : topSeen seen (w :: rest ++ stack) = 0 := if_neg hw
      rw [htop, hnot]
      exact Or.inl Nat.one_pos
  · have hmem : v ∈ unseen vertices seen (v :: stack) :=
      mem_unseen.mpr ⟨Or.inl List.mem_cons_self, hv⟩
    have hssub : unseen vertices (seen.add v) (pushed next (seen.add v) v ++ stack) ⊂
        unseen vertices seen (v :: stack) := by
      refine Finset.ssubset_iff_subset_ne.mpr ⟨hsub, fun heq => ?_⟩
      rw [← heq] at hmem
      exact (mem_unseen.mp hmem).2 (InsertionSet.mem_add.mpr (Or.inl rfl))
    have hcard := Finset.card_lt_card hssub
    exact Prod.Lex.toLex_lt_toLex.mpr (Or.inl hcard)

/-- The search. -/
def finds (hnext : ∀ v, ∀ w ∈ next v, w ∈ vertices) (goal : V) (seen : InsertionSet V) :
    List V → Bool
  | [] => false
  | v :: stack =>
    if v = goal then true
    else finds hnext goal (seen.add v) (pushed next (seen.add v) v ++ stack)
termination_by stack => size vertices seen stack
decreasing_by exact size_lt hnext seen v stack

/-- The step relation of the successors. -/
def Step (next : V → List V) (v w : V) : Prop := w ∈ next v

variable {hnext : ∀ v, ∀ w ∈ next v, w ∈ vertices} {goal : V}

theorem exists_of_finds {seen : InsertionSet V} {stack : List V}
    (h : finds hnext goal seen stack = true) :
    ∃ v ∈ stack, ReflTransGen (Step next) v goal := by
  induction seen, stack using finds.induct hnext goal with
  | case1 seen => simp [finds] at h
  | case2 seen stack => exact ⟨goal, List.mem_cons_self, .refl⟩
  | case3 seen v stack hne ih =>
    rw [finds, if_neg hne] at h
    obtain ⟨w, hw, hreach⟩ := ih h
    obtain hpushed | hstack := List.mem_append.mp hw
    · exact ⟨v, List.mem_cons_self, .head (mem_pushed.mp hpushed).1 hreach⟩
    · exact ⟨w, List.mem_cons_of_mem v hstack, hreach⟩

/-- A search that fails has seen all that it could reach, and not the goal. -/
theorem not_reaches_of_finds_eq_false {seen : InsertionSet V} {stack : List V}
    (h : finds hnext goal seen stack = false) (hgoal : goal ∉ seen)
    (hclosed : ∀ v ∈ seen, ∀ w, Step next v w → w ∈ seen ∨ w ∈ stack) {v : V}
    (hv : v ∈ seen ∨ v ∈ stack) : ¬ReflTransGen (Step next) v goal := by
  induction seen, stack using finds.induct hnext goal with
  | case1 seen =>
    intro hreach
    have hseen : ∀ w, ReflTransGen (Step next) v w → w ∈ seen := by
      intro w hw
      induction hw with
      | refl => exact hv.resolve_right List.not_mem_nil
      | tail _ hstep ih => exact (hclosed _ ih _ hstep).resolve_right List.not_mem_nil
    exact hgoal (hseen goal hreach)
  | case2 seen stack => simp [finds] at h
  | case3 seen w stack hne ih =>
    rw [finds, if_neg hne] at h
    have hadd : ∀ x, x ∈ seen.add w ↔ x = w ∨ x ∈ seen := fun x => InsertionSet.mem_add
    refine ih h ?_ ?_ ?_
    · rw [hadd]
      exact fun hmem => hmem.elim (fun heq => hne heq.symm) hgoal
    · -- the successors of `w` have been seen or are on the stack now
      intro x hx y hy
      by_cases hseen : y ∈ seen.add w
      · exact Or.inl hseen
      · refine Or.inr (List.mem_append.mpr ?_)
        obtain rfl | hx := (hadd x).mp hx
        · exact Or.inl (mem_pushed.mpr ⟨hy, hseen⟩)
        · obtain hold | hstack := hclosed x hx y hy
          · exact absurd ((hadd y).mpr (Or.inr hold)) hseen
          · obtain rfl | hstack := List.mem_cons.mp hstack
            · exact absurd ((hadd y).mpr (Or.inl rfl)) hseen
            · exact Or.inr hstack
    · obtain hold | hstack := hv
      · exact Or.inl ((hadd v).mpr (Or.inr hold))
      · obtain rfl | hstack := List.mem_cons.mp hstack
        · exact Or.inl ((hadd v).mpr (Or.inl rfl))
        · exact Or.inr (List.mem_append_right _ hstack)

/-- **Correctness of the search** from one vertex, with nothing seen. -/
theorem finds_iff {start : V} :
    finds hnext goal .empty [start] = true ↔ ReflTransGen (Step next) start goal := by
  constructor
  · intro h
    obtain ⟨v, hv, hreach⟩ := exists_of_finds h
    rwa [List.mem_singleton.mp hv] at hreach
  · intro hreach
    by_contra h
    refine not_reaches_of_finds_eq_false (Bool.eq_false_iff.mpr h) (InsertionSet.notMem_empty goal)
      (fun v hv => absurd hv (InsertionSet.notMem_empty v)) (Or.inr (List.mem_singleton_self start))
      hreach

/-! ### Search without a goal -/

theorem size_lt_of_mem {seen : InsertionSet V} {v : V} (hv : v ∈ seen) (stack : List V) :
    size vertices seen stack < size vertices seen (v :: stack) := by
  have hsub : unseen vertices seen stack ⊆ unseen vertices seen (v :: stack) := by
    intro w hw
    obtain ⟨hmem, hseen⟩ := mem_unseen.mp hw
    exact mem_unseen.mpr ⟨hmem.imp_left (List.mem_cons_of_mem v), hseen⟩
  have htop : topSeen seen (v :: stack) = 1 := if_pos hv
  have hle := topSeen_le_one seen stack
  refine Prod.Lex.toLex_lt_toLex.mpr ?_
  refine (Finset.card_le_card hsub).lt_or_eq.imp_right fun hcard => ⟨hcard, ?_⟩
  refine Prod.Lex.toLex_lt_toLex.mpr ?_
  rw [htop]
  exact hle.lt_or_eq.imp_right fun heq => ⟨heq, Nat.lt_succ_self _⟩

/-- The vertices that have been seen once the stack is empty. -/
def collect (hnext : ∀ v, ∀ w ∈ next v, w ∈ vertices) (seen : InsertionSet V) :
    List V → InsertionSet V
  | [] => seen
  | v :: stack =>
    if v ∈ seen then collect hnext seen stack
    else collect hnext (seen.add v) (pushed next (seen.add v) v ++ stack)
termination_by stack => size vertices seen stack
decreasing_by
  · next hv => exact size_lt_of_mem hv stack
  · exact size_lt hnext seen v stack

end StackSearch
