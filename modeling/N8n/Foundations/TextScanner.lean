import Mathlib.Data.List.Basic
import Mathlib.Tactic.Common

/-!
# Scanners

A scanner goes over a text in rounds. In a round it reads the next character and what it wants of
the text after it, puts something out, and goes on with what it has left. `Comes` says that the
scanner gets to a place of a text between two rounds, and what it has put out until then; its output
for the whole text continues from there (`run_of_comes`).
-/

universe u

/-- A round reads the first element of the text with some of the rest: what is put out and what is
left. -/
structure TextScanner (α : Type u) where
  round : α → List α → List α × List α
  length_round : ∀ a rest, (round a rest).2.length ≤ rest.length

namespace TextScanner

variable {α : Type u} (S : TextScanner α) {text text' middle rest out out' : List α}

def run : List α → List α
  | [] => []
  | a :: rest => (S.round a rest).1 ++ run (S.round a rest).2
termination_by text => text.length
decreasing_by exact Nat.lt_succ_of_le (S.length_round a rest)

/-- The texts that are left at the beginning of a round. -/
def places : List α → List (List α)
  | [] => []
  | a :: rest => (a :: rest) :: places (S.round a rest).2
termination_by text => text.length
decreasing_by exact Nat.lt_succ_of_le (S.length_round a rest)

@[simp] theorem run_nil : S.run [] = [] := by rw [run]

theorem run_cons (a : α) (rest : List α) :
    S.run (a :: rest) = (S.round a rest).1 ++ S.run (S.round a rest).2 := by rw [run]

/-- The scanner gets from a text to what is left of it, and puts `out` out. -/
inductive Comes : List α → List α → List α → Prop
  | refl (text : List α) : Comes text [] text
  | round {a : α} {rest out text' : List α} (h : Comes (S.round a rest).2 out text') :
      Comes (a :: rest) ((S.round a rest).1 ++ out) text'

variable {S}

theorem Comes.trans (h : S.Comes text out middle) (h' : S.Comes middle out' rest) :
    S.Comes text (out ++ out') rest := by
  induction h with
  | refl text => exact h'
  | round _ ih =>
    rw [List.append_assoc]
    exact .round (ih h')

theorem Comes.of_round {a : α} (h : S.round a text = (out, rest)) :
    S.Comes (a :: text) out rest := by
  have hround := Comes.round (S := S) (Comes.refl (S.round a text).2)
  rwa [List.append_nil, h] at hround

/-- A scanner that passes each element of a text on passes the text on. -/
theorem Comes.of_forall (h : ∀ a ∈ text, ∀ rest, S.round a rest = ([a], rest)) (rest : List α) :
    S.Comes (text ++ rest) text rest := by
  induction text with
  | nil => exact .refl rest
  | cons a text ih =>
    have hround := Comes.of_round (h a List.mem_cons_self (text ++ rest))
    exact hround.trans (ih fun b hb => h b (List.mem_cons_of_mem a hb))

theorem run_of_comes (h : S.Comes text out rest) : S.run text = out ++ S.run rest := by
  induction h with
  | refl => rfl
  | round _ ih => rw [run_cons, ih, List.append_assoc]

end TextScanner
