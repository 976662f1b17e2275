import Mathlib.Data.Nat.Digits.Defs
import Snippet.Decimal.Numeral

/-!
# Numerals are read back

The digits of a number, with leading zeros or without, write the number (`nat?_padded`,
`nat?_digitsOf`), and a number below a power of ten has as many digits as it is padded to
(`length_padded`).
-/

namespace Snippet.Decimal

variable {n k : Nat} {c : Char}

theorem isDigit_of_mem_digitsOf (h : c ∈ digitsOf n) : c.isDigit :=
  Nat.isDigit_of_mem_toDigits (by decide) (by decide) h

theorem digitsOf_ne_nil (n : Nat) : digitsOf n ≠ [] := Nat.toDigits_ne_nil

theorem isDigit_of_mem_padded (h : c ∈ padded k n) : c.isDigit := by
  rcases List.mem_append.mp h with h | h
  · rw [List.eq_of_mem_replicate h]
    rfl
  · exact isDigit_of_mem_digitsOf h

theorem length_padded (hk : 0 < k) (h : n < 10 ^ k) : (padded k n).length = k := by
  have hle : (digitsOf n).length ≤ k := (Nat.length_toDigits_le_iff (by decide) hk).mpr h
  simp only [padded, List.leftpad, List.length_append, List.length_replicate]
  omega

theorem natOf_eq (t : Text) : natOf t = Nat.ofDigitChars 10 t 0 := by
  rw [natOf, foldDigits, Nat.ofDigitChars_eq_foldl]
  simp only [Nat.mul_comm]

/-- **Leading zeros do not change the number that digits write.** -/
theorem nat?_padded (k n : Nat) : nat? (padded k n) = some n := by
  have hne : padded k n ≠ [] := List.append_ne_nil_of_right_ne_nil _ (digitsOf_ne_nil n)
  have hdigits : (padded k n).all Char.isDigit := List.all_eq_true.mpr fun _ =>
    isDigit_of_mem_padded
  rw [nat?, hdigits, Bool.and_true, if_pos (by simpa using hne), natOf_eq, padded, List.leftpad,
    Nat.ofDigitChars_append, Nat.ofDigitChars_replicate_zero, Nat.mul_zero, digitsOf,
    Nat.ofDigitChars_ten_toDigits]

theorem padded_zero (n : Nat) : padded 0 n = digitsOf n := by
  rw [padded, List.leftpad, Nat.zero_sub, List.replicate_zero, List.nil_append]

theorem nat?_of_forall {t : Text} (hne : t ≠ []) (h : ∀ x ∈ t, x.isDigit) :
    nat? t = some (natOf t) := by
  rw [nat?, if_pos]
  rw [Bool.and_eq_true, Bool.not_eq_true', List.isEmpty_eq_false_iff]
  exact ⟨hne, List.all_eq_true.mpr h⟩

theorem nat?_digitsOf (n : Nat) : nat? (digitsOf n) = some n := by
  rw [← padded_zero, nat?_padded]

end Snippet.Decimal
