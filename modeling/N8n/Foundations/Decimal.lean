import Mathlib.Data.List.Basic
import Mathlib.Data.Nat.Notation
import Mathlib.Tactic.Common

/-!
# Numbers in decimal texts

The texts that programs make of numbers and the numbers that they read back (`parseInt`).
-/

namespace Decimal

theorem toList_toString (n : ℕ) : (toString n).toList = Nat.toDigits 10 n := by
  rw [Nat.toString_eq_repr, Nat.toList_repr]

theorem isDigit_of_mem_toString {n : ℕ} {c : Char} (h : c ∈ (toString n).toList) :
    c.isDigit = true := by
  rw [toList_toString] at h
  exact Nat.isDigit_of_mem_toDigits (by decide) (by decide) h

theorem toString_toList_ne_nil (n : ℕ) : (toString n).toList ≠ [] := by
  rw [toList_toString]
  exact Nat.toDigits_ne_nil

/-- `parseInt` of a text of digits. -/
def parseInt (digits : List Char) : ℕ := Nat.ofDigitChars 10 digits 0

@[simp] theorem parseInt_toString (n : ℕ) : parseInt (toString n).toList = n := by
  rw [toList_toString, parseInt, Nat.ofDigitChars_ten_toDigits]

theorem toDigits_injective : Function.Injective (Nat.toDigits 10) := by
  intro m n h
  rw [← Nat.ofDigitChars_ten_toDigits (n := m), h, Nat.ofDigitChars_ten_toDigits]

theorem toString_injective : Function.Injective (toString : ℕ → String) := by
  intro m n h
  have hparse := parseInt_toString n
  rwa [← h, parseInt_toString] at hparse

end Decimal
