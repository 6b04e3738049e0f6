import Mathlib.Algebra.BigOperators.Group.List.Basic
import Mathlib.Algebra.GroupWithZero.Nat
import Mathlib.Data.Prod.Lex
import Mathlib.Order.WellFoundedSet

/-!
# Rankings

Two tools to show that a system halts. Where every element of a finite acyclic relation hands
something on to its successors, there is a weight by which it hands on less than it has
(`exists_weight`). And a system that runs along a stream of inputs, with a rank that is never
raised, can only go on for ever with steps that keep the rank (`exists_idle`).
-/

namespace Ranking

universe u v w

/-! ### Weights on an acyclic relation -/

section Weights

variable {α : Type u} {successors : α → List α}

/-- A relation without cycles in which finitely many elements have a successor has no infinite
path. -/
theorem wellFounded_of_acyclic (hfinite : {a | successors a ≠ []}.Finite)
    (hacyclic : ∀ a, ¬Relation.TransGen (fun a b => b ∈ successors a) a a) :
    WellFounded fun b a => b ∈ successors a := by
  let r : α → α → Prop := fun b a => Relation.TransGen (fun a b => b ∈ successors a) a b
  have hstrict : IsStrictOrder α r := {
    irrefl := hacyclic
    trans := fun _ _ _ hab hbc => Relation.TransGen.trans hbc hab }
  have hon : {a | successors a ≠ []}.WellFoundedOn r := hfinite.wellFoundedOn
  have hacc : ∀ a ∈ {a | successors a ≠ []}, Acc (fun b a => b ∈ successors a) a := by
    intro a ha
    refine hon.induction ha fun a _ ih => ?_
    refine Acc.intro a fun b hb => ?_
    by_cases hsuccessors : successors b = []
    · refine Acc.intro b fun c hc => ?_
      rw [hsuccessors] at hc
      exact absurd hc List.not_mem_nil
    · exact ih b hsuccessors (Relation.TransGen.single hb)
  constructor
  intro a
  refine Acc.intro a fun b hb => ?_
  exact (hacc a (List.ne_nil_of_mem hb)).inv hb

/-- The same when finitely many elements are successors. -/
theorem wellFounded_of_acyclic_of_finite (hfinite : {b | ∃ a, b ∈ successors a}.Finite)
    (hacyclic : ∀ a, ¬Relation.TransGen (fun a b => b ∈ successors a) a a) :
    WellFounded fun b a => b ∈ successors a := by
  let r : α → α → Prop := fun b a => Relation.TransGen (fun a b => b ∈ successors a) a b
  have hstrict : IsStrictOrder α r := {
    irrefl := hacyclic
    trans := fun _ _ _ hab hbc => Relation.TransGen.trans hbc hab }
  have hon : {b | ∃ a, b ∈ successors a}.WellFoundedOn r := hfinite.wellFoundedOn
  have hacc : ∀ b ∈ {b | ∃ a, b ∈ successors a}, Acc (fun b a => b ∈ successors a) b := by
    intro b hb
    refine hon.induction hb fun b _ ih => ?_
    exact Acc.intro b fun c hc => ih c ⟨b, hc⟩ (Relation.TransGen.single hc)
  constructor
  intro a
  exact Acc.intro a fun b hb => hacc b ⟨a, hb⟩

/-- **Weights.** An element weighs more than what it hands on to its successors together, each of
which also costs something of its own. -/
theorem exists_weight (hfinite : {a | successors a ≠ []}.Finite)
    (hacyclic : ∀ a, ¬Relation.TransGen (fun a b => b ∈ successors a) a a) (cost : α → ℕ) :
    ∃ weight : α → ℕ, ∀ a, ((successors a).map fun b => weight b + cost b).sum < weight a := by
  have hwf := wellFounded_of_acyclic hfinite hacyclic
  refine ⟨hwf.fix fun a weight =>
    ((successors a).attach.map fun b => weight b.1 b.2 + cost b.1).sum + 1, fun a => ?_⟩
  rw [hwf.fix_eq]
  refine Nat.lt_succ_of_le (le_of_eq (congrArg List.sum ?_))
  exact List.attach_map_val.symm

end Weights

/-! ### Runs along a stream of inputs -/

section Runs

variable {σ : Type u} {α : Type v} (next : σ → α → Option σ)

/-- The state after the first inputs, if the system gets that far. -/
def stateAt (s : σ) (inputs : ℕ → α) : ℕ → Option σ
  | 0 => some s
  | k + 1 => (stateAt s inputs k).bind fun t => next t (inputs k)

/-- The system takes finitely many steps. -/
def Halts (s : σ) (inputs : ℕ → α) : Prop := ∃ k, stateAt next s inputs k = none

variable {next} {s t : σ} {inputs : ℕ → α} {k : ℕ}

theorem stateAt_succ (h : stateAt next s inputs k = some t) :
    stateAt next s inputs (k + 1) = next t (inputs k) := by
  rw [stateAt, h]
  rfl

/-- After its end the system is in no state. -/
theorem stateAt_eq_none_of_le {n : ℕ} (h : stateAt next s inputs k = none) (hkn : k ≤ n) :
    stateAt next s inputs n = none := by
  induction n, hkn using Nat.le_induction with
  | base => exact h
  | succ n _ ih =>
    rw [stateAt, ih]
    rfl

/-- A system that is always able to go on does not halt. -/
theorem not_halts_of_forall {P : σ → Prop} (hP : ∀ t a, P t → ∃ t', next t a = some t' ∧ P t')
    (hk : stateAt next s inputs k = some t) (ht : P t) : ¬Halts next s inputs := by
  have hgoes : ∀ n ≥ k, ∃ t', stateAt next s inputs n = some t' ∧ P t' := by
    intro n hn
    induction n, hn using Nat.le_induction with
    | base => exact ⟨t, hk, ht⟩
    | succ n _ ih =>
      obtain ⟨t', ht', hPt'⟩ := ih
      obtain ⟨t'', ht'', hPt''⟩ := hP t' (inputs n) hPt'
      exact ⟨t'', (stateAt_succ ht').trans ht'', hPt''⟩
  rintro ⟨n, hn⟩
  obtain ⟨t', ht', _⟩ := hgoes (max k n) (Nat.le_max_left k n)
  cases (stateAt_eq_none_of_le hn (Nat.le_max_right k n)).symm.trans ht'

/-- **Ranking rule.** When from some step on every step either is idle and keeps the rank, or
lowers it, then a run without an end consists of idle steps from some point on. -/
theorem exists_idle {β : Type w} [LinearOrder β] [WellFoundedLT β] (rank : σ → β)
    (idle : σ → α → σ → Prop) {n : ℕ} (hruns : ¬Halts next s inputs)
    (hstep : ∀ k ≥ n, ∀ t t', stateAt next s inputs k = some t → next t (inputs k) = some t' →
      idle t (inputs k) t' ∧ rank t' = rank t ∨ rank t' < rank t) :
    ∃ m ≥ n, ∀ k ≥ m, ∀ t t', stateAt next s inputs k = some t → next t (inputs k) = some t' →
      idle t (inputs k) t' := by
  have hstate : ∀ k, ∃ t, stateAt next s inputs k = some t := fun k =>
    Option.ne_none_iff_exists'.mp fun hnone => hruns ⟨k, hnone⟩
  choose state hstate using hstate
  have hnext : ∀ k, next (state k) (inputs k) = some (state (k + 1)) := fun k =>
    (stateAt_succ (hstate k)).symm.trans (hstate (k + 1))
  -- the rank is lowest at some point, and stays the same from there on
  let ranks : Set β := {b | ∃ k ≥ n, rank (state k) = b}
  have hne : ranks.Nonempty := ⟨_, n, le_rfl, rfl⟩
  obtain ⟨m, hm, hmin⟩ := WellFounded.min_mem (wellFounded_lt (α := β)) ranks hne
  have hle : ∀ k ≥ n, rank (state m) ≤ rank (state k) := fun k hk =>
    hmin ▸ not_lt.mp (WellFounded.not_lt_min wellFounded_lt ranks ⟨k, hk, rfl⟩)
  have hsame : ∀ k ≥ m, rank (state k) = rank (state m) := by
    intro k hk
    induction k, hk using Nat.le_induction with
    | base => rfl
    | succ k hk ih =>
      have hkn : k ≥ n := le_trans hm hk
      obtain ⟨_, hkeep⟩ | hlower := hstep k hkn _ _ (hstate k) (hnext k)
      · exact hkeep.trans ih
      · exact absurd (ih ▸ hlower) (not_lt.mpr (hle (k + 1) (Nat.le_succ_of_le hkn)))
  refine ⟨m, hm, fun k hk t t' ht ht' => ?_⟩
  obtain rfl := Option.some.inj ((hstate k).symm.trans ht)
  obtain rfl := Option.some.inj ((hnext k).symm.trans ht')
  obtain ⟨hidle, _⟩ | hlower := hstep k (le_trans hm hk) _ _ ht ht'
  · exact hidle
  · rw [hsame k hk, hsame (k + 1) (Nat.le_succ_of_le hk)] at hlower
    exact absurd hlower (lt_irrefl _)

end Runs

end Ranking
