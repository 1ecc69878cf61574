import Mathlib
import PubspecTidy.Text.Digit

/-!
# What digits are written

Main statements: the digits of a number, with or without zeros in front, are ASCII digits that have
the number for their value, and the first digit of a positive number is no zero.
-/
namespace PubspecTidy.Text

variable {c : Char} {n width : Nat}

theorem isAsciiDigit_iff : isAsciiDigit c = true ↔ 48 ≤ c.toNat ∧ c.toNat ≤ 57 := by
  unfold isAsciiDigit
  rw [Bool.and_eq_true, decide_eq_true_eq, decide_eq_true_eq]
  exact Iff.rfl

theorem isAsciiDigit_of_mem_digits (h : c ∈ digits n) : isAsciiDigit c = true := by
  have hdigit := Nat.isDigit_of_mem_toDigits (by decide : 0 < 10) (Nat.le_refl 10) h
  exact (isAsciiDigit_iff).mpr (Char.isDigit_iff_toNat.mp hdigit)

theorem head?_digits_ne_zero (h : 0 < n) : (digits n).head? ≠ some '0' := by
  unfold digits
  induction n using Nat.base_induction 10 (by decide) with
  | single m hm =>
    rw [Nat.toDigits_of_lt_base hm, List.head?_cons, ne_eq, Option.some.injEq,
      Nat.digitChar_eq_zero]
    exact Nat.ne_of_gt h
  | digit m k hk hm ih =>
    obtain ⟨c, cs, hdigits⟩ := List.exists_cons_of_ne_nil (Nat.toDigits_ne_nil (n := m) (b := 10))
    have hfirst := ih hm
    rw [← Nat.toDigits_append_toDigits (by decide) hm hk, hdigits]
    rwa [hdigits] at hfirst

theorem length_padDigits (hwidth : 0 < width) (h : n < 10 ^ width) :
    (padDigits width n).length = width := by
  have hle : (digits n).length ≤ width := (Nat.length_toDigits_le_iff (by decide) hwidth).mpr h
  unfold padDigits
  rw [List.length_append, List.length_replicate]
  omega

theorem isAsciiDigit_of_mem_padDigits (h : c ∈ padDigits width n) : isAsciiDigit c = true := by
  rcases List.mem_append.mp h with h | h
  · rw [List.eq_of_mem_replicate h]
    rfl
  · exact isAsciiDigit_of_mem_digits h

theorem ofDigitChars_padDigits (width n : Nat) : Nat.ofDigitChars 10 (padDigits width n) 0 = n := by
  unfold padDigits digits
  rw [Nat.ofDigitChars_append, Nat.ofDigitChars_replicate_zero, Nat.mul_zero,
    Nat.ofDigitChars_ten_toDigits]

end PubspecTidy.Text
