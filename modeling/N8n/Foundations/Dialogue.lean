import Mathlib.Tactic.Common

/-!
# Dialogues

A program that only asks: what it asks next depends on the answers that it got. Two machines that
answer it are compared by all that they answer in such a dialogue. When a relation of their states
is kept by every question but those that disturb it, they give the same answers in a dialogue if and
only if it has no disturbing question (`answers_eq_iff`).
-/

universe u v w w'

variable {Q : Type u} {A : Type v} {σ : Type w} {τ : Type w'}

/-- A program that asks questions in `Q` and gets answers in `A`. -/
inductive Dialogue (Q : Type u) (A : Type v) where
  | done
  | ask (question : Q) (next : A → Dialogue Q A)

namespace Dialogue

/-- All that a machine answers. -/
def answers (respond : σ → Q → σ × A) : σ → Dialogue Q A → List A
  | _, .done => []
  | s, .ask question next =>
    (respond s question).2 :: answers respond (respond s question).1 (next (respond s question).2)

/-- A property of the state and the question holds whenever the machine is asked. -/
def Throughout (respond : σ → Q → σ × A) (P : σ → Q → Prop) : σ → Dialogue Q A → Prop
  | _, .done => True
  | s, .ask question next => P s question ∧
    Throughout respond P (respond s question).1 (next (respond s question).2)

variable {respond : σ → Q → σ × A} {respond' : τ → Q → τ × A} {R : σ → τ → Prop}
  {P : σ → Q → Prop}

/-- **Two machines.** If their related states answer alike and stay related where `P` holds, and
answer differently where it does not, then they answer a dialogue alike if and only if `P` holds
throughout. -/
theorem answers_eq_iff
    (hlike : ∀ s t question, R s t → P s question →
      (respond' t question).2 = (respond s question).2 ∧
        R (respond s question).1 (respond' t question).1)
    (hdiffer : ∀ s t question, R s t → ¬ P s question →
      (respond' t question).2 ≠ (respond s question).2)
    {s : σ} {t : τ} (hR : R s t) (dialogue : Dialogue Q A) :
    answers respond' t dialogue = answers respond s dialogue ↔
      Throughout respond P s dialogue := by
  induction dialogue generalizing s t with
  | done => exact iff_of_true rfl trivial
  | ask question next ih =>
    simp only [answers, Throughout, List.cons.injEq]
    by_cases hP : P s question
    · obtain ⟨hanswer, hnext⟩ := hlike s t question hR hP
      rw [hanswer, ih _ hnext]
      exact and_congr (iff_of_true rfl hP) Iff.rfl
    · exact iff_of_false (fun h => hdiffer s t question hR hP h.1) fun h => hP h.1

end Dialogue
