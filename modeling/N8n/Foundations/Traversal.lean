import N8n.Foundations.ExceptFold
import N8n.Foundations.InsertionSet

/-!
# Depth-first traversal with a set of what was seen

`visit` explores a graph from a vertex `v`: it takes the items `next v` one by one, skips
those it has seen, and otherwise adds the item and continues from its vertex before the
next one. An item may be a vertex, an edge or anything else that leads on to a vertex
(`target`). Looking up the items of a vertex may fail.

When the items come from a finite list and looking them up does not fail, the traversal
ends within as many nested calls as there are items, and what it adds is exactly what can
be discovered from the start (`exists_visit_eq_ok`).
-/

universe u v w

namespace Traversal

variable {V : Type u} {E : Type v} {ε : Type w}

variable {next : V → Except ε (List E)} {target : E → V}

/-- The items that can be discovered from a vertex. -/
inductive Discovers (next : V → Except ε (List E)) (target : E → V) : V → E → Prop
  | here {v : V} {items : List E} {e : E} (h : next v = .ok items) (he : e ∈ items) :
    Discovers next target v e
  | there {v : V} {items : List E} {e e' : E} (h : next v = .ok items) (he : e ∈ items)
    (hr : Discovers next target (target e) e') : Discovers next target v e'

/-- All items at a vertex have been seen. -/
def Explored (next : V → Except ε (List E)) (seen : InsertionSet E) (v : V) : Prop :=
  ∃ items, next v = .ok items ∧ ∀ e ∈ items, e ∈ seen

theorem Explored.mono {s s' : InsertionSet E} {v : V} (h : Explored next s v)
    (hss : ∀ e ∈ s, e ∈ s') : Explored next s' v := by
  obtain ⟨items, hi, hmem⟩ := h
  exact ⟨items, hi, fun e he => hss e (hmem e he)⟩

/-- A set that has explored a vertex and all its own items holds what can be discovered from
the vertex. -/
theorem mem_of_discovers {s : InsertionSet E} (hs : ∀ e ∈ s, Explored next s (target e)) {v : V}
    {e : E} (hv : Explored next s v) (h : Discovers next target v e) : e ∈ s := by
  induction h with
  | here hnext he =>
    obtain ⟨items, hi, hmem⟩ := hv
    rw [hnext, Except.ok.injEq] at hi
    exact hmem _ (hi ▸ he)
  | there hnext he _ ih =>
    obtain ⟨items, hi, hmem⟩ := hv
    rw [hnext, Except.ok.injEq] at hi
    exact ih (hs _ (hmem _ (hi ▸ he)))

/-- What a traversal from the items `es` makes of the set `seen`. -/
structure Grows (next : V → Except ε (List E)) (target : E → V) (es : List E)
    (seen s : InsertionSet E) : Prop where
  subset : ∀ e ∈ seen, e ∈ s
  items : ∀ e ∈ es, e ∈ s
  explored : ∀ e ∈ s, e ∈ seen ∨ Explored next s (target e)
  sound : ∀ e ∈ s, e ∈ seen ∨ ∃ e₀ ∈ es, e = e₀ ∨ Discovers next target (target e₀) e

theorem Grows.nil (seen : InsertionSet E) : Grows next target [] seen seen where
  subset := fun _ he => he
  items := fun _ he => absurd he List.not_mem_nil
  explored := fun _ he => Or.inl he
  sound := fun _ he => Or.inl he

variable {es : List E} {a : E} {seen s₁ s : InsertionSet E}

/-- An item that was seen is skipped. -/
theorem Grows.skip (ha : a ∈ seen) (h : Grows next target es seen s) :
    Grows next target (a :: es) seen s where
  subset := h.subset
  items := by
    intro e he
    rcases List.mem_cons.mp he with rfl | he
    · exact h.subset _ ha
    · exact h.items e he
  explored := h.explored
  sound := by
    intro e he
    refine (h.sound e he).imp_right ?_
    rintro ⟨e₀, he₀, h⟩
    exact ⟨e₀, List.mem_cons_of_mem _ he₀, h⟩

/-! ### The traversal -/

variable [DecidableEq E]

/-- The traversal, with a bound on the depth of nested calls. -/
def visit (outOfFuel : ε) (next : V → Except ε (List E)) (target : E → V) :
    ℕ → V → InsertionSet E → Except ε (InsertionSet E)
  | 0, _, _ => .error outOfFuel
  | fuel + 1, v, seen => do
    let items ← next v
    items.foldlM (fun seen e =>
      if e ∈ seen then .ok seen else visit outOfFuel next target fuel (target e) (seen.add e))
      seen

/-- A new item is added and continued from, before the other items. -/
theorem Grows.step {items₁ : List E} (hnext : next (target a) = .ok items₁)
    (h₁ : Grows next target items₁ (seen.add a) s₁) (h : Grows next target es s₁ s) :
    Grows next target (a :: es) seen s where
  subset := fun e he => h.subset e (h₁.subset e (InsertionSet.mem_add.mpr (Or.inr he)))
  items := by
    intro e he
    rcases List.mem_cons.mp he with rfl | he
    · exact h.subset e (h₁.subset e (InsertionSet.mem_add.mpr (Or.inl rfl)))
    · exact h.items e he
  explored := by
    -- an item of `s` came last, or with the nested call, or is `a`, or was there before
    intro e he
    rcases h.explored e he with he | hexp
    · rcases h₁.explored e he with he | hexp
      · rcases InsertionSet.mem_add.mp he with rfl | he
        · exact Or.inr ⟨items₁, hnext, fun e' he' => h.subset e' (h₁.items e' he')⟩
        · exact Or.inl he
      · exact Or.inr (hexp.mono h.subset)
    · exact Or.inr hexp
  sound := by
    intro e he
    rcases h.sound e he with he | ⟨e₀, he₀, hd⟩
    · rcases h₁.sound e he with he | ⟨e₀, he₀, hd⟩
      · rcases InsertionSet.mem_add.mp he with rfl | he
        · exact Or.inr ⟨e, List.mem_cons_self, Or.inl rfl⟩
        · exact Or.inl he
      · refine Or.inr ⟨a, List.mem_cons_self, Or.inr ?_⟩
        rcases hd with rfl | hd
        · exact .here hnext he₀
        · exact .there hnext he₀ hd
    · exact Or.inr ⟨e₀, List.mem_cons_of_mem _ he₀, hd⟩

variable {U : List E} {I : V → Prop}

/-- The loop over the items of a vertex, when the nested calls do what they should. -/
private theorem loop_grows {f : V → InsertionSet E → Except ε (InsertionSet E)} {k : ℕ}
    (hf : ∀ v seen, I v → (∀ e ∈ seen, e ∈ U) → k < seen.elements.length →
      ∃ items s, next v = .ok items ∧ f v seen = .ok s ∧ (∀ e ∈ s, e ∈ U) ∧
        Grows next target items seen s)
    (es : List E) (hes : ∀ e ∈ es, e ∈ U ∧ I (target e)) (seen : InsertionSet E)
    (hseen : ∀ e ∈ seen, e ∈ U) (hk : k ≤ seen.elements.length) :
    ∃ s, es.foldlM (fun seen e =>
        if e ∈ seen then .ok seen else f (target e) (seen.add e)) seen = .ok s ∧
      (∀ e ∈ s, e ∈ U) ∧ Grows next target es seen s := by
  induction es generalizing seen with
  | nil => exact ⟨seen, rfl, hseen, .nil seen⟩
  | cons a es ih =>
    have hes' := fun e (he : e ∈ es) => hes e (List.mem_cons_of_mem _ he)
    obtain ⟨haU, haI⟩ := hes a List.mem_cons_self
    rw [List.foldlM_cons]
    by_cases ha : a ∈ seen
    · obtain ⟨s, hs, hsU, hgrow⟩ := ih hes' seen hseen hk
      refine ⟨s, ?_, hsU, hgrow.skip ha⟩
      rw [if_pos ha]
      exact hs
    · have haddU : ∀ e ∈ seen.add a, e ∈ U := fun e he =>
        (InsertionSet.mem_add.mp he).elim (fun heq => heq ▸ haU) (hseen e)
      have haddlen := InsertionSet.length_add_of_notMem ha
      obtain ⟨items₁, s₁, hnext₁, hs₁, hs₁U, hgrow₁⟩ := hf (target a) _ haI haddU (by omega)
      have hlen₁ : (seen.add a).elements.length ≤ s₁.elements.length :=
        InsertionSet.length_le_of_subset hgrow₁.subset
      obtain ⟨s, hs, hsU, hgrow⟩ := ih hes' s₁ hs₁U (by omega)
      refine ⟨s, ?_, hsU, .step hnext₁ hgrow₁ hgrow⟩
      rw [if_neg ha, hs₁]
      exact hs

/-- What `visit` adds when it starts at an explorable vertex. -/
private theorem visit_grows (outOfFuel : ε) (hnext : ∀ v, I v → ∃ items, next v = .ok items ∧
      ∀ e ∈ items, e ∈ U ∧ I (target e)) (fuel : ℕ) (v : V) (hv : I v) (seen : InsertionSet E)
    (hseen : ∀ e ∈ seen, e ∈ U) (hfuel : U.length < fuel + seen.elements.length) :
    ∃ items s, next v = .ok items ∧ visit outOfFuel next target fuel v seen = .ok s ∧
      (∀ e ∈ s, e ∈ U) ∧ Grows next target items seen s := by
  induction fuel generalizing v seen with
  | zero =>
    have hle := InsertionSet.length_le_of_subset hseen
    omega
  | succ fuel ih =>
    obtain ⟨items, hitems, hU⟩ := hnext v hv
    obtain ⟨s, hs, hsU, hgrow⟩ := loop_grows (k := seen.elements.length)
      (fun v seen' hv hseen' hlen => ih v hv seen' hseen' (by omega)) items hU seen hseen
      (Nat.le_refl _)
    refine ⟨items, s, hitems, ?_, hsU, hgrow⟩
    rw [visit, hitems]
    exact hs

/-- **Correctness of the traversal**: started with nothing seen, it ends and adds exactly the
items that can be discovered. -/
theorem exists_visit_eq_ok (outOfFuel : ε) (hnext : ∀ v, I v → ∃ items, next v = .ok items ∧
      ∀ e ∈ items, e ∈ U ∧ I (target e)) {v : V} (hv : I v) :
    ∃ s, visit outOfFuel next target (U.length + 1) v .empty = .ok s ∧
      ∀ e, e ∈ s ↔ Discovers next target v e := by
  obtain ⟨items, s, hitems, hs, -, hgrow⟩ := visit_grows outOfFuel hnext
    (U.length + 1) v hv .empty (by simp) (by simp)
  refine ⟨s, hs, fun e => ⟨fun he => ?_, mem_of_discovers ?_ ⟨items, hitems, hgrow.items⟩⟩⟩
  · rcases hgrow.sound e he with h | ⟨e₀, he₀, rfl | h⟩
    · exact absurd h (InsertionSet.notMem_empty e)
    · exact .here hitems he₀
    · exact .there hitems he₀ h
  · exact fun e he => (hgrow.explored e he).resolve_left (InsertionSet.notMem_empty e)

end Traversal
