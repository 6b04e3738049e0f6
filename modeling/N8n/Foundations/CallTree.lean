import Mathlib.Data.List.Forall2
import Mathlib.Data.Nat.Init
import Mathlib.Logic.Relation
import Mathlib.Tactic.Common

/-!
# Recursive calls

A call either is done or asks for the results of other calls and combines them. `eval` runs it with
a bound for the depth. It returns exactly when the calls that it asks for, those that these ask for
and so on form no infinite path (`exists_returns_iff`).

A property of results that a condition on the call decides, once the calls it asks for have the
property, holds of a whole tree of calls exactly when the tree is finite and the condition holds of
every call in it (`forall_asked_iff`).
-/

universe u v

namespace CallTree

open Relation

variable {C : Type u} {R : Type v}

inductive Step (C : Type u) (R : Type v) where
  | done (r : R)
  | asks (calls : List C) (combine : List R → R)

/-- The result of a call, within a depth. -/
def eval (step : C → Step C R) : ℕ → C → Option R
  | 0, _ => none
  | depth + 1, c =>
    match step c with
    | .done r => some r
    | .asks calls combine => (calls.mapM (eval step depth)).map combine

variable (step : C → Step C R)

def Returns (c : C) (r : R) : Prop := ∃ depth, eval step depth c = some r

def Asks (c next : C) : Prop := ∃ calls combine, step c = .asks calls combine ∧ next ∈ calls

variable {step} {c : C} {r : R}

/-! ### Depth -/

theorem mapM_mono {f g : C → Option R} (h : ∀ c r, f c = some r → g c = some r) {calls : List C}
    {results : List R} (hf : calls.mapM f = some results) : calls.mapM g = some results := by
  induction calls generalizing results with
  | nil => exact hf
  | cons c calls ih =>
    simp only [List.mapM_cons, Option.bind_eq_bind, Option.bind_eq_some_iff] at hf ⊢
    obtain ⟨r, hr, rest, hrest, hresults⟩ := hf
    exact ⟨r, h c r hr, rest, ih hrest, hresults⟩

theorem eval_succ {depth : ℕ} (h : eval step depth c = some r) :
    eval step (depth + 1) c = some r := by
  induction depth generalizing c r with
  | zero => cases h
  | succ depth ih =>
    rw [eval] at h ⊢
    cases hstep : step c with
    | done r' => rwa [hstep] at h
    | asks calls combine =>
      simp only [hstep, Option.map_eq_some_iff] at h ⊢
      obtain ⟨results, hresults, rfl⟩ := h
      exact ⟨results, mapM_mono (fun _ _ => ih) hresults, rfl⟩

theorem eval_of_le {depth depth' : ℕ} (h : eval step depth c = some r) (hle : depth ≤ depth') :
    eval step depth' c = some r := by
  induction depth', hle using Nat.le_induction with
  | base => exact h
  | succ depth' _ ih => exact eval_succ ih

/-- A call has one result. -/
theorem Returns.unique {r' : R} (h : Returns step c r) (h' : Returns step c r') : r = r' := by
  obtain ⟨depth, h⟩ := h
  obtain ⟨depth', h'⟩ := h'
  obtain hle | hle := Nat.le_total depth depth'
  · exact Option.some.inj ((eval_of_le h hle).symm.trans h')
  · exact Option.some.inj (h.symm.trans (eval_of_le h' hle))

theorem returns_of_done (h : step c = .done r) : Returns step c r := ⟨1, by rw [eval, h]⟩

theorem forall₂_of_mapM {depth : ℕ} {calls : List C} {results : List R}
    (h : calls.mapM (eval step depth) = some results) :
    List.Forall₂ (Returns step) calls results := by
  induction calls generalizing results with
  | nil =>
    obtain rfl := Option.some.inj h
    exact .nil
  | cons c calls ih =>
    simp only [List.mapM_cons, Option.bind_eq_bind, Option.bind_eq_some_iff] at h
    obtain ⟨r, hr, rest, hrest, hresults⟩ := h
    obtain rfl := Option.some.inj hresults
    exact .cons ⟨depth, hr⟩ (ih hrest)

/-- Finitely many calls return within a common depth. -/
theorem exists_mapM_of_forall₂ {calls : List C} {results : List R}
    (h : List.Forall₂ (Returns step) calls results) :
    ∃ depth, calls.mapM (eval step depth) = some results := by
  induction h with
  | nil => exact ⟨0, rfl⟩
  | cons hr _ ih =>
    obtain ⟨depth, hr⟩ := hr
    obtain ⟨depth', hrest⟩ := ih
    refine ⟨max depth depth', ?_⟩
    rw [List.mapM_cons, eval_of_le hr (Nat.le_max_left _ _),
      mapM_mono (fun _ _ h => eval_of_le h (Nat.le_max_right depth depth')) hrest]
    rfl

/-- A call returns what it makes of the results of the calls that it asks for. -/
theorem returns_asks_iff {calls : List C} {combine : List R → R}
    (h : step c = .asks calls combine) :
    Returns step c r ↔
      ∃ results, List.Forall₂ (Returns step) calls results ∧ combine results = r := by
  constructor
  · rintro ⟨depth, hr⟩
    cases depth with
    | zero => cases hr
    | succ depth =>
      simp only [eval, h, Option.map_eq_some_iff] at hr
      obtain ⟨results, hresults, heq⟩ := hr
      exact ⟨results, forall₂_of_mapM hresults, heq⟩
  · rintro ⟨results, hall, rfl⟩
    obtain ⟨depth, hresults⟩ := exists_mapM_of_forall₂ hall
    exact ⟨depth + 1, by simp only [eval, h, hresults, Option.map_some]⟩

/-! ### Trees of calls -/

theorem exists_of_forall₂_left {α β : Type*} {P : α → β → Prop} {l : List α} {l' : List β}
    (h : List.Forall₂ P l l') {a : α} (ha : a ∈ l) : ∃ b ∈ l', P a b := by
  induction h with
  | nil => cases ha
  | cons hab _ ih =>
    obtain rfl | ha := List.mem_cons.mp ha
    · exact ⟨_, List.mem_cons_self, hab⟩
    · obtain ⟨b, hb, hab⟩ := ih ha
      exact ⟨b, List.mem_cons_of_mem _ hb, hab⟩

theorem exists_forall₂ {α β : Type*} {P : α → β → Prop} {l : List α}
    (h : ∀ a ∈ l, ∃ b, P a b) : ∃ l', List.Forall₂ P l l' := by
  induction l with
  | nil => exact ⟨[], .nil⟩
  | cons a l ih =>
    obtain ⟨b, hb⟩ := h a List.mem_cons_self
    obtain ⟨l', hl'⟩ := ih fun a ha => h a (List.mem_cons_of_mem _ ha)
    exact ⟨b :: l', .cons hb hl'⟩

/-- **A call returns exactly when its tree is finite.** -/
theorem exists_returns_iff :
    (∃ r, Returns step c r) ↔ Acc (fun next c => Asks step c next) c := by
  constructor
  · rintro ⟨r, depth, h⟩
    induction depth generalizing c r with
    | zero => cases h
    | succ depth ih =>
      refine .intro c ?_
      rintro next ⟨calls, combine, hstep, hmem⟩
      simp only [eval, hstep, Option.map_eq_some_iff] at h
      obtain ⟨results, hresults, -⟩ := h
      have hnext : ∃ r', eval step depth next = some r' := by
        clear hstep
        induction calls generalizing results with
        | nil => cases hmem
        | cons c' calls ihCalls =>
          simp only [List.mapM_cons, Option.bind_eq_bind, Option.bind_eq_some_iff] at hresults
          obtain ⟨r', hr', rest, hrest, -⟩ := hresults
          obtain rfl | hmem := List.mem_cons.mp hmem
          · exact ⟨r', hr'⟩
          · exact ihCalls hmem rest hrest
      obtain ⟨r', hr'⟩ := hnext
      exact ih r' hr'
  · intro h
    induction h with
    | intro c _ ih =>
      cases hstep : step c with
      | done r => exact ⟨r, returns_of_done hstep⟩
      | asks calls combine =>
        obtain ⟨results, hall⟩ :=
          exists_forall₂ fun next hnext => ih next ⟨calls, combine, hstep, hnext⟩
        exact ⟨combine results, (returns_asks_iff hstep).mpr ⟨results, hall, rfl⟩⟩

/-- **A property of all results in a tree.** -/
theorem forall_asked_iff {P : C → R → Prop} {Q : C → Prop}
    (hlocal : ∀ c r, Returns step c r →
      (∀ next, Asks step c next → ∀ r', Returns step next r' → P next r') → (P c r ↔ Q c)) :
    (∀ next, ReflTransGen (Asks step) c next → ∃ r, Returns step next r ∧ P next r) ↔
      Acc (fun next c => Asks step c next) c ∧
        ∀ next, ReflTransGen (Asks step) c next → Q next := by
  constructor
  · intro h
    refine ⟨?_, fun next hnext => ?_⟩
    · obtain ⟨r, hr, -⟩ := h c .refl
      exact exists_returns_iff.mp ⟨r, hr⟩
    · obtain ⟨r, hr, hP⟩ := h next hnext
      refine (hlocal next r hr fun next' hnext' r' hr' => ?_).mp hP
      obtain ⟨r'', hr'', hP'⟩ := h next' (hnext.tail hnext')
      exact hr''.unique hr' ▸ hP'
  · rintro ⟨hacc, hQ⟩ next hnext
    have hacc' : Acc (fun next c => Asks step c next) next := by
      induction hnext with
      | refl => exact hacc
      | tail _ hasks ih => exact ih.inv hasks
    clear hacc
    induction hacc' with
    | intro d _ ih =>
      obtain ⟨r, hr⟩ := exists_returns_iff.mpr (.intro d ‹_›)
      refine ⟨r, hr, (hlocal d r hr fun next' hnext' r' hr' => ?_).mpr (hQ d hnext)⟩
      obtain ⟨r'', hr'', hP⟩ := ih next' hnext' (hnext.tail hnext')
      exact hr''.unique hr' ▸ hP

end CallTree
