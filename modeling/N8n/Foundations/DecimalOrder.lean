import Mathlib.Algebra.Group.Nat.Defs
import Mathlib.Data.Char
import Mathlib.Data.List.Lex
import Mathlib.Order.Nat
import N8n.Foundations.Decimal

/-!
# The order of decimal texts

Numbers that are sorted as texts are compared digit by digit. Numbers with as many digits as each
other are then in their usual order, but a number comes after a longer one when the first digits of
the longer one, as many as it has itself, are a smaller number (`toDigits_le_iff`).
-/

namespace Decimal

/-- The number of digits. -/
def width (n : ℕ) : ℕ := (Nat.toDigits 10 n).length

theorem width_pos (n : ℕ) : 0 < width n := Nat.length_toDigits_pos

theorem width_le_iff {n k : ℕ} (hk : 0 < k) : width n ≤ k ↔ n < 10 ^ k :=
  Nat.length_toDigits_le_iff (by decide) hk

theorem width_mono {m n : ℕ} (h : m ≤ n) : width m ≤ width n := by
  have hn : n < 10 ^ width n := (width_le_iff (width_pos n)).mp (Nat.le_refl _)
  exact (width_le_iff (width_pos n)).mpr (Nat.lt_of_le_of_lt h hn)

theorem toDigits_of_ten_le {n : ℕ} (h : 10 ≤ n) :
    Nat.toDigits 10 n = Nat.toDigits 10 (n / 10) ++ [(n % 10).digitChar] := by
  rw [Nat.toDigits_of_base_le (by decide) h]

theorem width_of_ten_le {n : ℕ} (h : 10 ≤ n) : width n = width (n / 10) + 1 := by
  rw [width, toDigits_of_ten_le h, List.length_append, List.length_singleton, width]

theorem width_eq_one_iff {n : ℕ} : width n = 1 ↔ n < 10 := by
  have hle : width n ≤ 1 ↔ n < 10 ^ 1 := width_le_iff Nat.one_pos
  have hpos := width_pos n
  omega

theorem digitChar_lt_iff {m n : ℕ} (hm : m < 10) (hn : n < 10) :
    m.digitChar < n.digitChar ↔ m < n := by
  have hlt : m.digitChar < n.digitChar ↔ m.digitChar.toNat < n.digitChar.toNat := Iff.rfl
  rw [hlt, Nat.toNat_digitChar_of_lt_ten hm, Nat.toNat_digitChar_of_lt_ten hn]
  omega

/-- Lists with parts of the same length in front are compared by these first. -/
theorem append_lt_append_iff {p q s t : List Char} (h : p.length = q.length) :
    p ++ s < q ++ t ↔ p < q ∨ p = q ∧ s < t := by
  induction p generalizing q with
  | nil =>
    obtain rfl := List.length_eq_zero_iff.mp h.symm
    simp
  | cons c p ih =>
    obtain ⟨d, q, rfl⟩ := List.exists_cons_of_length_eq_add_one h.symm
    have hlength : p.length = q.length := Nat.succ.inj h
    rw [List.cons_append, List.cons_append, List.cons_lt_cons_iff, ih hlength,
      List.cons_lt_cons_iff, List.cons.injEq]
    tauto

/-- Numbers of the same width are in their usual order. -/
theorem toDigits_lt_iff_of_width_eq {m n : ℕ} (h : width m = width n) :
    Nat.toDigits 10 m < Nat.toDigits 10 n ↔ m < n := by
  induction m using Nat.strongRecOn generalizing n with
  | _ m ih =>
    obtain hm | hm := Nat.lt_or_ge m 10
    · have hn : n < 10 := width_eq_one_iff.mp (h.symm.trans (width_eq_one_iff.mpr hm))
      rw [Nat.toDigits_of_lt_base hm, Nat.toDigits_of_lt_base hn, List.cons_lt_cons_iff,
        digitChar_lt_iff hm hn]
      simp
    · have hn : 10 ≤ n := by
        by_contra hlt
        have hone := width_eq_one_iff.mpr (Nat.lt_of_not_le hlt)
        exact absurd (width_eq_one_iff.mp (h.trans hone)) (Nat.not_lt.mpr hm)
      have hwidth : width (m / 10) = width (n / 10) := by
        rw [width_of_ten_le hm, width_of_ten_le hn] at h
        exact Nat.succ.inj h
      have hlt : m / 10 < m := Nat.div_lt_self (by omega) (by decide)
      have hdigit : (m % 10).digitChar < (n % 10).digitChar ↔ m % 10 < n % 10 :=
        digitChar_lt_iff (Nat.mod_lt _ (by decide)) (Nat.mod_lt _ (by decide))
      rw [toDigits_of_ten_le hm, toDigits_of_ten_le hn, append_lt_append_iff hwidth,
        ih _ hlt hwidth, toDigits_injective.eq_iff, List.cons_lt_cons_iff, hdigit]
      simp only [List.lt_irrefl, and_false, or_false]
      omega

/-- A text of digits starts with those of a quotient. -/
theorem exists_toDigits_append {d n : ℕ} (h : d < width n) :
    ∃ rest, rest.length = d ∧ Nat.toDigits 10 n = Nat.toDigits 10 (n / 10 ^ d) ++ rest := by
  induction d generalizing n with
  | zero => exact ⟨[], rfl, by simp⟩
  | succ d ih =>
    have hn : 10 ≤ n := by
      by_contra hlt
      have hone := width_eq_one_iff.mpr (Nat.lt_of_not_le hlt)
      omega
    obtain ⟨rest, hlength, hrest⟩ := ih (n := n / 10) (by
      rw [width_of_ten_le hn] at h
      omega)
    refine ⟨rest ++ [(n % 10).digitChar], by simp [hlength], ?_⟩
    rw [toDigits_of_ten_le hn, hrest, Nat.div_div_eq_div_mul, ← Nat.pow_succ', List.append_assoc]

/-- **The order of decimal texts**: the text of a number comes before that of a longer one exactly
if the number is at most what the longer one starts with. -/
theorem toDigits_le_iff {m n : ℕ} (h : width m ≤ width n) :
    Nat.toDigits 10 m ≤ Nat.toDigits 10 n ↔ m ≤ n / 10 ^ (width n - width m) := by
  have hpos := width_pos m
  obtain ⟨rest, hlength, hdigits⟩ :=
    exists_toDigits_append (d := width n - width m) (n := n) (by omega)
  have hwidth : width (n / 10 ^ (width n - width m)) = width m := by
    have hsum := congrArg List.length hdigits
    rw [List.length_append, hlength] at hsum
    have hn : width n = width (n / 10 ^ (width n - width m)) + (width n - width m) := hsum
    omega
  have hlt := append_lt_append_iff (s := rest) (t := [])
    (p := Nat.toDigits 10 (n / 10 ^ (width n - width m))) (q := Nat.toDigits 10 m) hwidth
  rw [List.append_nil, ← hdigits, toDigits_lt_iff_of_width_eq hwidth] at hlt
  have hle : Nat.toDigits 10 m ≤ Nat.toDigits 10 n ↔ ¬ Nat.toDigits 10 n < Nat.toDigits 10 m :=
    not_lt.symm
  rw [hle, hlt]
  simp

end Decimal
