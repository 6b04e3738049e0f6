import N8n.Foundations.InsertionMap

/-!
# What the entries of a map give

Setting a key adds, up to the order, what its new value gives more than the old one
(`flatMap_set_perm`).
-/

namespace InsertionMap

universe u v w

variable {κ : Type u} {α : Type v} [DecidableEq κ]

/-- Setting a key adds to what the entries give what its value gives more than the old one. -/
theorem flatMap_set_perm {β : Type w} {f : κ × α → List β} (m : InsertionMap κ α) {k : κ} {a : α}
    (added : List β)
    (h : (f (k, a)).Perm (added ++ ((m.get? k).map fun b => f (k, b)).getD [])) :
    ((m.set k a).entries.flatMap f).Perm (added ++ m.entries.flatMap f) := by
  have hset := (entries_perm_set m k a).flatMap_right f
  rw [List.flatMap_cons] at hset
  refine hset.trans ?_
  cases hget : m.get? k with
  | none =>
    rw [hget, Option.map_none, Option.getD_none, List.append_nil] at h
    rw [erase_of_get?_eq_none hget]
    exact h.append_right _
  | some b =>
    rw [hget, Option.map_some, Option.getD_some] at h
    have hold := (entries_perm_of_get? hget).flatMap_right f
    rw [List.flatMap_cons] at hold
    refine (h.append_right _).trans ?_
    rw [List.append_assoc]
    exact hold.symm.append_left _

end InsertionMap
