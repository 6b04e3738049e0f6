import Mathlib.Algebra.Order.BigOperators.Group.List
import Mathlib.Algebra.Order.Ring.Nat
import Mathlib.Data.List.Basic
import Mathlib.Tactic.Common

/-!
# Nested-loop joins

`join P` compares every element of a left list with those of a right list and files both: the
left ones with the right ones they match, or as unmatched; the right ones as matched by some left
one, or as unmatched. A left element keeps all its matches or the first only, and is listed once,
with all of them, or once for each.

A join on a weaker condition comes out the same exactly when it finds no more (`join_eq_iff`).
-/

universe u v

namespace NestedLoopJoin

variable {α : Type u} {β : Type v}

structure Joined (α : Type u) (β : Type v) where
  matched : List (α × List β)
  matched2 : List β
  unmatched1 : List α
  unmatched2 : List β

/-- What a left element keeps of the right list, with positions. -/
def found (P : α → β → Bool) (firstOnly : Bool) (right : List β) (a : α) : List (β × ℕ) :=
  if firstOnly then (right.zipIdx.find? fun b => P a b.1).toList
  else right.zipIdx.filter fun b => P a b.1

/-- How a left element is listed with its matches. -/
def listed (oncePerMatch : Bool) (a : α) (found : List β) : List (α × List β) :=
  if found.isEmpty then []
  else if oncePerMatch then found.map fun b => (a, [b])
  else [(a, found)]

/-- The lists for what each left element keeps. -/
def file (oncePerMatch : Bool) (found : α → List (β × ℕ)) (left : List α) (right : List β) :
    Joined α β where
  matched := left.flatMap fun a => listed oncePerMatch a ((found a).map Prod.fst)
  unmatched1 := left.filter fun a => (found a).isEmpty
  matched2 := (right.zipIdx.filter fun b =>
    b.2 ∈ left.flatMap fun a => (found a).map Prod.snd).map Prod.fst
  unmatched2 := (right.zipIdx.filter fun b =>
    b.2 ∉ left.flatMap fun a => (found a).map Prod.snd).map Prod.fst

def join (P : α → β → Bool) (firstOnly oncePerMatch : Bool) (left : List α) (right : List β) :
    Joined α β :=
  file oncePerMatch (found P firstOnly right) left right

/-- What is kept decides the lists. -/
theorem file_congr {oncePerMatch : Bool} {f g : α → List (β × ℕ)} {left : List α}
    (right : List β) (h : ∀ a ∈ left, f a = g a) :
    file oncePerMatch f left right = file oncePerMatch g left right := by
  have hmatched : (left.flatMap fun a => listed oncePerMatch a ((f a).map Prod.fst)) =
      left.flatMap fun a => listed oncePerMatch a ((g a).map Prod.fst) :=
    List.flatMap_congr fun a hmem => by rw [h a hmem]
  have hpositions : (left.flatMap fun a => (f a).map Prod.snd) =
      left.flatMap fun a => (g a).map Prod.snd :=
    List.flatMap_congr fun a hmem => by rw [h a hmem]
  have hunmatched : (left.filter fun a => (f a).isEmpty) = left.filter fun a => (g a).isEmpty :=
    List.filter_congr fun a hmem => by rw [h a hmem]
  rw [file, file, hmatched, hpositions, hunmatched]

/-- Lists put together from blocks none of which is longer are the same only block by block. -/
theorem eq_of_flatMap_eq {γ : Type*} {f g : α → List γ} {l : List α}
    (hle : ∀ a ∈ l, (f a).length ≤ (g a).length) (h : l.flatMap f = l.flatMap g) :
    ∀ a ∈ l, f a = g a := by
  induction l with
  | nil => exact fun a hmem => absurd hmem List.not_mem_nil
  | cons b l ih =>
    have hrest : ∀ a ∈ l, (f a).length ≤ (g a).length := fun a hmem =>
      hle a (List.mem_cons_of_mem _ hmem)
    have hsum : (l.flatMap f).length ≤ (l.flatMap g).length := by
      rw [List.length_flatMap, List.length_flatMap]
      exact List.sum_le_sum hrest
    rw [List.flatMap_cons, List.flatMap_cons] at h
    have hlength := congrArg List.length h
    rw [List.length_append, List.length_append] at hlength
    have hhead := hle b List.mem_cons_self
    obtain ⟨hfirst, htail⟩ := List.append_inj h (by omega)
    intro a hmem
    rcases List.mem_cons.mp hmem with rfl | hmem
    · exact hfirst
    · exact ih hrest htail a hmem

theorem length_listed_le {oncePerMatch : Bool} {a : α} {l l' : List β}
    (h : l.length ≤ l'.length) :
    (listed oncePerMatch a l).length ≤ (listed oncePerMatch a l').length := by
  unfold listed
  cases l with
  | nil => exact Nat.zero_le _
  | cons b l =>
    cases l' with
    | nil => exact absurd h (Nat.not_succ_le_zero _)
    | cons b' l' =>
      cases oncePerMatch with
      | true =>
        simp only [List.isEmpty_cons, Bool.false_eq_true, if_false, if_true, List.length_map]
        exact h
      | false => exact le_rfl

theorem eq_of_listed_eq {oncePerMatch : Bool} {a : α} {l l' : List β}
    (h : listed oncePerMatch a l = listed oncePerMatch a l') : l = l' := by
  unfold listed at h
  cases l with
  | nil =>
    cases l' with
    | nil => rfl
    | cons b' l' => cases oncePerMatch with
      | true => exact nomatch h
      | false => exact nomatch h
  | cons b l =>
    cases l' with
    | nil => cases oncePerMatch with
      | true => exact nomatch h
      | false => exact nomatch h
    | cons b' l' =>
      cases oncePerMatch with
      | true =>
        have hmap : (b :: l).map (fun x => (a, [x])) = (b' :: l').map fun x => (a, [x]) := h
        refine List.map_injective_iff.mpr (fun x y hxy => ?_) hmap
        exact List.head_eq_of_cons_eq (Prod.ext_iff.mp hxy).2
      | false => exact (Prod.ext_iff.mp (List.head_eq_of_cons_eq h)).2

section Weaker

variable {P Q : α → β → Bool} {right : List β}

theorem map_fst_found_all (P : α → β → Bool) (right : List β) (a : α) :
    (found P false right a).map Prod.fst = right.filter (P a) := by
  have hmap := List.filter_map (f := Prod.fst) (p := P a) (l := right.zipIdx)
  rw [List.zipIdx_map_fst] at hmap
  exact hmap.symm

theorem map_fst_found_first (P : α → β → Bool) (right : List β) (a : α) :
    (found P true right a).map Prod.fst = (right.find? (P a)).toList := by
  have hmap := List.find?_map (f := Prod.fst) (p := P a) (l := right.zipIdx)
  rw [List.zipIdx_map_fst] at hmap
  rw [found, if_pos rfl, hmap, Option.toList_map]
  rfl

/-- The join on `P` keeps what the join on the weaker `Q` keeps. -/
def FindsNoMore (P Q : α → β → Bool) (firstOnly : Bool) (right : List β) (a : α) : Prop :=
  if firstOnly then ∀ b ∈ right.find? (Q a), P a b else ∀ b ∈ right, Q a b → P a b

theorem length_found_le (hle : ∀ a b, P a b → Q a b) (firstOnly : Bool) (a : α) :
    ((found P firstOnly right a).map Prod.fst).length ≤
      ((found Q firstOnly right a).map Prod.fst).length := by
  cases firstOnly with
  | false =>
    rw [map_fst_found_all, map_fst_found_all]
    exact (List.monotone_filter_right right (hle a)).length_le
  | true =>
    rw [map_fst_found_first, map_fst_found_first]
    cases hP : right.find? (P a) with
    | none => exact Nat.zero_le _
    | some b =>
      have hQ : (right.find? (Q a)).isSome :=
        List.find?_isSome.mpr ⟨b, List.mem_of_find?_eq_some hP, hle a b (List.find?_some hP)⟩
      obtain ⟨b', hb'⟩ := Option.isSome_iff_exists.mp hQ
      rw [hb']
      exact le_rfl

theorem findsNoMore_of_eq {firstOnly : Bool} {a : α}
    (h : (found P firstOnly right a).map Prod.fst = (found Q firstOnly right a).map Prod.fst) :
    FindsNoMore P Q firstOnly right a := by
  unfold FindsNoMore
  cases firstOnly with
  | false =>
    rw [map_fst_found_all, map_fst_found_all] at h
    rw [if_neg Bool.false_ne_true]
    intro b hmem hQ
    have hfilter : b ∈ right.filter (P a) := by
      rw [h]
      exact List.mem_filter.mpr ⟨hmem, hQ⟩
    exact (List.mem_filter.mp hfilter).2
  | true =>
    rw [map_fst_found_first, map_fst_found_first] at h
    rw [if_pos rfl]
    intro b hfind
    rw [Option.mem_def.mp hfind] at h
    cases hP : right.find? (P a) with
    | none =>
      rw [hP] at h
      exact nomatch h
    | some b' =>
      rw [hP] at h
      rw [← List.head_eq_of_cons_eq h]
      exact List.find?_some hP

/-- The first element that satisfies the weaker condition satisfies the stronger one. -/
theorem find?_eq_of_imp {γ : Type*} {p q : γ → Bool} {l : List γ} (hpq : ∀ x, p x → q x)
    (h : ∀ x ∈ l.find? q, p x) : l.find? p = l.find? q := by
  induction l with
  | nil => rfl
  | cons x l ih =>
    by_cases hq : q x
    · rw [List.find?_cons_of_pos hq, List.find?_cons_of_pos (h x (List.find?_cons_of_pos hq))]
    · rw [List.find?_cons_of_neg hq] at h
      rw [List.find?_cons_of_neg hq, List.find?_cons_of_neg fun hp => hq (hpq x hp)]
      exact ih h

theorem found_eq_of_findsNoMore (hle : ∀ a b, P a b → Q a b) {firstOnly : Bool} {a : α}
    (h : FindsNoMore P Q firstOnly right a) :
    found P firstOnly right a = found Q firstOnly right a := by
  unfold FindsNoMore at h
  cases firstOnly with
  | false =>
    rw [if_neg Bool.false_ne_true] at h
    refine List.filter_congr fun b hmem => Bool.eq_iff_iff.mpr ⟨hle a b.1, h b.1 ?_⟩
    exact List.fst_mem_of_mem_zipIdx hmem
  | true =>
    rw [if_pos rfl] at h
    refine congrArg Option.toList (find?_eq_of_imp (fun b => hle a b.1) fun b hfind => ?_)
    have hmap := List.find?_map (f := Prod.fst) (p := Q a) (l := right.zipIdx)
    rw [List.zipIdx_map_fst] at hmap
    refine h b.1 (hmap.trans ?_)
    exact congrArg (Option.map Prod.fst) hfind

/-- **A join on a weaker condition** comes out the same exactly when it finds no more. -/
theorem join_eq_iff (hle : ∀ a b, P a b → Q a b) (firstOnly oncePerMatch : Bool)
    (left : List α) (right : List β) :
    join Q firstOnly oncePerMatch left right = join P firstOnly oncePerMatch left right ↔
      ∀ a ∈ left, FindsNoMore P Q firstOnly right a := by
  constructor
  · intro h a hmem
    have hmatched := congrArg Joined.matched h.symm
    have hblocks := eq_of_flatMap_eq
      (fun a _ => length_listed_le (length_found_le hle firstOnly a)) hmatched a hmem
    exact findsNoMore_of_eq (eq_of_listed_eq hblocks)
  · exact fun h => file_congr right fun a hmem => (found_eq_of_findsNoMore hle (h a hmem)).symm

end Weaker

end NestedLoopJoin
