import Mathlib.Data.List.Chain

/-!
# Groups of elements that end with a survivor

`survivorGroups merges l` goes through `l` from its end. An element that merges with the survivor
directly behind it joins the group of that survivor, and any other one survives and begins a group.
The groups follow each other as the elements of `l` do (`flatMap_elements`), and no survivor merges
with the next one (`isChain_survivorGroups`).
-/

universe u

/-- The elements that were merged, in their order, and the one that they were merged with. -/
structure SurvivorGroup (α : Type u) where
  merged : List α
  survivor : α

namespace SurvivorGroup

variable {α : Type u} {merges : α → α → Bool}

def elements (g : SurvivorGroup α) : List α := g.merged ++ [g.survivor]

/-- Put an element in front of the groups. -/
def place (merges : α → α → Bool) (a : α) :
    List (SurvivorGroup α) → List (SurvivorGroup α)
  | [] => [⟨[], a⟩]
  | g :: groups =>
    if merges a g.survivor then ⟨a :: g.merged, g.survivor⟩ :: groups else ⟨[], a⟩ :: g :: groups

end SurvivorGroup

open SurvivorGroup

variable {α : Type u} {merges : α → α → Bool}

def survivorGroups (merges : α → α → Bool) (l : List α) : List (SurvivorGroup α) :=
  l.foldr (place merges) []

namespace SurvivorGroup

@[simp] theorem survivorGroups_nil : survivorGroups merges [] = [] := rfl

@[simp] theorem survivorGroups_cons (a : α) (l : List α) :
    survivorGroups merges (a :: l) = place merges a (survivorGroups merges l) := rfl

theorem place_ne_nil (a : α) (groups : List (SurvivorGroup α)) : place merges a groups ≠ [] := by
  cases groups with
  | nil => exact List.cons_ne_nil _ _
  | cons g groups =>
    rw [place]
    split_ifs
    · exact List.cons_ne_nil _ _
    · exact List.cons_ne_nil _ _

theorem survivorGroups_ne_nil {l : List α} (h : l ≠ []) : survivorGroups merges l ≠ [] := by
  cases l with
  | nil => exact absurd rfl h
  | cons a l => exact place_ne_nil a _

theorem flatMap_elements_place (a : α) (groups : List (SurvivorGroup α)) :
    (place merges a groups).flatMap elements = a :: groups.flatMap elements := by
  cases groups with
  | nil => rfl
  | cons g groups =>
    rw [place]
    split_ifs
    · rfl
    · rfl

/-- The groups cut the list into parts. -/
theorem flatMap_elements (l : List α) : (survivorGroups merges l).flatMap elements = l := by
  induction l with
  | nil => rfl
  | cons a l ih => rw [survivorGroups_cons, flatMap_elements_place, ih]

/-- What was merged merges with its survivor. -/
theorem merges_of_mem_merged {l : List α} {g : SurvivorGroup α} (hg : g ∈ survivorGroups merges l)
    {a : α} (ha : a ∈ g.merged) : merges a g.survivor = true := by
  induction l generalizing g a with
  | nil => exact absurd hg List.not_mem_nil
  | cons b l ih =>
    rw [survivorGroups_cons] at hg
    cases hgroups : survivorGroups merges l with
    | nil =>
      rw [hgroups, place, List.mem_singleton] at hg
      subst hg
      exact absurd ha List.not_mem_nil
    | cons g' groups =>
      rw [hgroups] at hg ih
      rw [place] at hg
      split_ifs at hg with hmerges
      · obtain rfl | hg := List.mem_cons.mp hg
        · obtain rfl | ha := List.mem_cons.mp ha
          · exact hmerges
          · exact ih List.mem_cons_self ha
        · exact ih (List.mem_cons_of_mem _ hg) ha
      · obtain rfl | hg := List.mem_cons.mp hg
        · exact absurd ha List.not_mem_nil
        · exact ih hg ha

/-- No survivor merges with the next one. -/
theorem isChain_survivorGroups (l : List α) :
    (survivorGroups merges l).IsChain fun g g' => merges g.survivor g'.survivor = false := by
  induction l with
  | nil => exact .nil
  | cons a l ih =>
    rw [survivorGroups_cons]
    cases hgroups : survivorGroups merges l with
    | nil => exact .singleton _
    | cons g groups =>
      rw [hgroups] at ih
      rw [place]
      split_ifs with hmerges
      · cases ih with
        | singleton => exact .singleton _
        | cons_cons hnot hrest => exact .cons_cons hnot hrest
      · exact .cons_cons (Bool.not_eq_true _ ▸ hmerges) ih

/-! ### Survivors and merged elements -/

theorem map_survivor_sublist (groups : List (SurvivorGroup α)) :
    (groups.map survivor).Sublist (groups.flatMap elements) := by
  induction groups with
  | nil => exact .slnil
  | cons g groups ih =>
    exact List.Sublist.append (List.sublist_append_right g.merged [g.survivor]) ih

theorem flatMap_merged_sublist (groups : List (SurvivorGroup α)) :
    (groups.flatMap merged).Sublist (groups.flatMap elements) := by
  induction groups with
  | nil => exact .slnil
  | cons g groups ih =>
    exact List.Sublist.append (List.sublist_append_left g.merged [g.survivor]) ih

/-- Every element is merged or survives. -/
theorem flatMap_merged_append_perm (groups : List (SurvivorGroup α)) :
    (groups.flatMap merged ++ groups.map survivor).Perm (groups.flatMap elements) := by
  induction groups with
  | nil => exact .refl _
  | cons g groups ih =>
    simp only [List.flatMap_cons, List.map_cons, elements, List.append_assoc, List.singleton_append]
    exact (List.perm_middle.trans (ih.cons g.survivor)).append_left g.merged

/-- The last element survives. -/
theorem getLast?_map_survivor (groups : List (SurvivorGroup α)) :
    (groups.map survivor).getLast? = (groups.flatMap elements).getLast? := by
  obtain rfl | ⟨groups, g, rfl⟩ := groups.eq_nil_or_concat
  · rfl
  · simp [elements]

end SurvivorGroup
