import Mathlib.Logic.Relation
import Mathlib.Tactic.Common

/-!
# Eliminating vertices from a relation

To eliminate a vertex `d` from a relation is to drop the steps into and out of `d` and to
join every step into `d` with every step out of it. Between the other vertices the paths
stay the same (`reflTransGen_contract_iff`), and so does the existence of a cycle inside a
set that contains `d` (`hasCycleIn_contract_iff`). A step from `d` to itself is the one
case in which the vertex is not eliminated: joined with itself it is a step from `d` to
`d` again. Without a cycle among the eliminated vertices this never happens, and they are
all gone in the end (`avoids_contractAll`).
-/

universe u

namespace Contraction

open Relation

variable {V : Type u} {r : V → V → Prop} {D : V → Prop} {d x y z : V}

/-- The relation `r` with the vertex `d` eliminated. -/
def contract (r : V → V → Prop) (d : V) (x y : V) : Prop :=
  (x ≠ d ∧ y ≠ d ∧ r x y) ∨ (r x d ∧ r d y)

/-- Eliminate the vertices of a list, one after the other. -/
def contractAll (r : V → V → Prop) (ds : List V) : V → V → Prop :=
  ds.foldl contract r

/-- A cycle of `r` with all its vertices in `D`. -/
def HasCycleIn (r : V → V → Prop) (D : V → Prop) : Prop :=
  ∃ x, TransGen (fun u v => D u ∧ D v ∧ r u v) x x

/-! ### One vertex -/

theorem transGen_of_contract (h : contract r d x y) : TransGen r x y := by
  rcases h with ⟨-, -, h⟩ | ⟨hx, hy⟩
  · exact .single h
  · exact .tail (.single hx) hy

/-- A path of `r` out of a vertex that stays is one of the contracted relation, up to a
last step into `d`. -/
private theorem transGen_contract_aux (hx : x ≠ d) (h : TransGen r x z) :
    (z ≠ d ∧ TransGen (contract r d) x z) ∨
      (z = d ∧ ∃ w, w ≠ d ∧ ReflTransGen (contract r d) x w ∧ r w d) := by
  induction h with
  | @single z h =>
    by_cases hz : z = d
    · exact Or.inr ⟨hz, x, hx, .refl, hz ▸ h⟩
    · exact Or.inl ⟨hz, .single (Or.inl ⟨hx, hz, h⟩)⟩
  | @tail y z _ h ih =>
    rcases ih with ⟨hy, hpath⟩ | ⟨rfl, w, hw, hpath, hwd⟩
    · by_cases hz : z = d
      · exact Or.inr ⟨hz, y, hy, hpath.to_reflTransGen, hz ▸ h⟩
      · exact Or.inl ⟨hz, hpath.tail (Or.inl ⟨hy, hz, h⟩)⟩
    · by_cases hz : z = y
      · exact Or.inr ⟨hz, w, hw, hpath, hwd⟩
      · exact Or.inl ⟨hz, TransGen.tail' hpath (Or.inr ⟨hwd, h⟩)⟩

theorem transGen_contract (hx : x ≠ d) (hy : y ≠ d) (h : TransGen r x y) :
    TransGen (contract r d) x y := by
  rcases transGen_contract_aux hx h with ⟨-, h⟩ | ⟨hd, -⟩
  · exact h
  · exact absurd hd hy

/-- Eliminating a vertex does not change which of the others reach each other. -/
theorem reflTransGen_contract_iff (hx : x ≠ d) (hy : y ≠ d) :
    ReflTransGen (contract r d) x y ↔ ReflTransGen r x y := by
  constructor
  · exact fun h => ReflTransGen.lift' id
      (fun _ _ hstep => (transGen_of_contract hstep).to_reflTransGen) _ _ h
  · intro h
    rcases reflTransGen_iff_eq_or_transGen.mp h with rfl | h
    · exact .refl
    · exact (transGen_contract hx hy h).to_reflTransGen

/-- Inside a set that contains `d`, contracting commutes with restricting. -/
private theorem contract_restrict_le
    (h : contract (fun u v => D u ∧ D v ∧ r u v) d x y) : D x ∧ D y ∧ contract r d x y := by
  rcases h with ⟨hx, hy, hDx, hDy, h⟩ | ⟨⟨hDx, -, hx⟩, -, hDy, hy⟩
  · exact ⟨hDx, hDy, Or.inl ⟨hx, hy, h⟩⟩
  · exact ⟨hDx, hDy, Or.inr ⟨hx, hy⟩⟩

/-- Eliminating a vertex of `D` neither breaks the last cycle in `D` nor makes a first
one. -/
theorem hasCycleIn_contract_iff (hd : D d) :
    HasCycleIn (contract r d) D ↔ HasCycleIn r D := by
  constructor
  · rintro ⟨x, hx⟩
    refine ⟨x, TransGen.closed (fun u v h => ?_) _ _ hx⟩
    obtain ⟨hu, hv, ⟨-, -, h⟩ | ⟨hud, hdv⟩⟩ := h
    · exact .single ⟨hu, hv, h⟩
    · exact .tail (.single ⟨hu, hd, hud⟩) ⟨hd, hv, hdv⟩
  · -- a cycle through another vertex is contracted; one at `d` alone is joined with itself
    have hother : ∀ x, x ≠ d → TransGen (fun u v => D u ∧ D v ∧ r u v) x x →
        HasCycleIn (contract r d) D := fun x hxd hx =>
      ⟨x, TransGen.mono (fun _ _ => contract_restrict_le) _ _ (transGen_contract hxd hxd hx)⟩
    rintro ⟨x, hx⟩
    by_cases hxd : x = d
    · subst hxd
      obtain ⟨y, hstep, hpath⟩ := TransGen.head'_iff.mp hx
      by_cases hyd : y = x
      · subst hyd
        exact ⟨y, .single ⟨hd, hd, Or.inr ⟨hstep.2.2, hstep.2.2⟩⟩⟩
      · exact hother y hyd (TransGen.tail' hpath hstep)
    · exact hother x hxd hx

/-- Without a loop at `d`, the vertex has no steps left. -/
theorem ne_of_contract (hd : ¬r d d) (h : contract r d x y) : x ≠ d ∧ y ≠ d := by
  rcases h with ⟨hx, hy, -⟩ | ⟨hx, hy⟩
  · exact ⟨hx, hy⟩
  · exact ⟨fun h => hd (h ▸ hx), fun h => hd (h ▸ hy)⟩

theorem not_self_of_not_hasCycleIn (hd : D d) (h : ¬HasCycleIn r D) : ¬r d d :=
  fun hr => h ⟨d, .single ⟨hd, hd, hr⟩⟩

/-! ### A list of vertices -/

variable {ds : List V}

theorem reflTransGen_contractAll_iff (hx : x ∉ ds) (hy : y ∉ ds) :
    ReflTransGen (contractAll r ds) x y ↔ ReflTransGen r x y := by
  induction ds generalizing r with
  | nil => exact Iff.rfl
  | cons d ds ih =>
    rw [List.mem_cons, not_or] at hx hy
    exact (ih hx.2 hy.2).trans (reflTransGen_contract_iff hx.1 hy.1)

theorem hasCycleIn_contractAll_iff (hds : ∀ d ∈ ds, D d) :
    HasCycleIn (contractAll r ds) D ↔ HasCycleIn r D := by
  induction ds generalizing r with
  | nil => exact Iff.rfl
  | cons d ds ih =>
    exact (ih fun d hd => hds d (List.mem_cons_of_mem _ hd)).trans
      (hasCycleIn_contract_iff (hds d List.mem_cons_self))

/-- A vertex without steps does not get any by eliminating others. -/
private theorem ne_of_contractAll (hr : ∀ x y, r x y → x ≠ z ∧ y ≠ z)
    (h : contractAll r ds x y) : x ≠ z ∧ y ≠ z := by
  induction ds generalizing r with
  | nil => exact hr x y h
  | cons d ds ih =>
    refine ih (fun x y h => ?_) h
    rcases h with ⟨-, -, h⟩ | ⟨hx, hy⟩
    · exact hr x y h
    · exact ⟨(hr _ _ hx).1, (hr _ _ hy).2⟩

/-- Without a cycle in `D`, eliminating vertices of `D` leaves no step into or out of any
of them. -/
theorem avoids_contractAll (hds : ∀ d ∈ ds, D d) (hcycle : ¬HasCycleIn r D)
    (h : contractAll r ds x y) : x ∉ ds ∧ y ∉ ds := by
  induction ds generalizing r with
  | nil => exact ⟨List.not_mem_nil, List.not_mem_nil⟩
  | cons d ds ih =>
    have hd := hds d List.mem_cons_self
    have hne := ne_of_contractAll
      (fun _ _ => ne_of_contract (not_self_of_not_hasCycleIn hd hcycle)) h
    have hrest := ih (fun d hd => hds d (List.mem_cons_of_mem _ hd))
      ((hasCycleIn_contract_iff hd).not.mpr hcycle) h
    rw [List.mem_cons, List.mem_cons, not_or, not_or]
    exact ⟨⟨hne.1, hrest.1⟩, ⟨hne.2, hrest.2⟩⟩

end Contraction
