import Snippet.Decimal.Numeral

/-!
# Fixed-point texts of floats

The text of a float with a fixed number of decimal places is that of its exact value, rounded to
the nearest, a half to the even neighbour. A negative float keeps its sign, also where all digits
are zero. Only the places that the exact value has are computed; all further ones are zeros.

The main statement: the text writes the rounded number of units of the last place (`fixed_eq`).
-/

namespace Snippet

namespace Binary

/-- The magnitude of a value in units of the last of `places` decimal places. -/
def units (b : Binary) (places : Nat) : Nat :=
  let (num, den) := b.scaled places
  divToEven num den

/-- A number of decimal places, at least one, in which the value can be written exactly. -/
def exactPlaces (b : Binary) : Nat := max 1 (-b.exponent).toNat

end Binary

namespace Decimal

/-- The text of `n` units in the last of `places` decimal places. -/
def unitsText (n places : Nat) : Text :=
  let whole := digitsOf (n / 10 ^ places)
  if places = 0 then whole else whole ++ '.' :: padded places (n % 10 ^ places)

/-- The text of a float that is not finite. -/
def nonfiniteText (x : Float) : Text :=
  if x.isNaN then "NaN".toList else if x < 0.0 then "-inf".toList else "inf".toList

/-- The magnitude of a value with a fixed number of decimal places. -/
def magnitudeText (b : Binary) (places : Nat) : Text :=
  let written := min places b.exactPlaces
  unitsText (b.units written) written ++ List.replicate (places - written) '0'

/-- The text of a float with a fixed number of decimal places. -/
def fixed (x : Float) (places : Nat) : Text :=
  match Binary.ofFloat? x with
  | none => nonfiniteText x
  | some b => if b.negative then '-' :: magnitudeText b places else magnitudeText b places

end Decimal

/-! ## Places beyond the exact value -/

theorem divToEven_mul (n : Nat) {den : Nat} (h : 0 < den) : divToEven (n * den) den = n := by
  simp [divToEven, Nat.mul_div_cancel _ h, h]

/-- In units of a place beyond the exact value, the value is a multiple of ten. -/
theorem Binary.units_add (b : Binary) {places : Nat} (h : (-b.exponent).toNat ≤ places) (k : Nat) :
    b.units (places + k) = b.units places * 10 ^ k := by
  obtain ⟨j, hj⟩ := Nat.exists_eq_add_of_le h
  have hunits : ∀ i, b.units ((-b.exponent).toNat + i) =
      b.mantissa * 5 ^ (-b.exponent).toNat * 10 ^ i * 2 ^ b.exponent.toNat := by
    intro i
    simp only [units, scaled]
    have hadd : 10 ^ ((-b.exponent).toNat + i) = 10 ^ (-b.exponent).toNat * 10 ^ i :=
      Nat.pow_add 10 _ i
    have hten : 10 ^ (-b.exponent).toNat = 5 ^ (-b.exponent).toNat * 2 ^ (-b.exponent).toNat :=
      Nat.mul_pow 5 2 _
    have hpos : 0 < 2 ^ (-b.exponent).toNat := Nat.two_pow_pos _
    rw [← divToEven_mul (b.mantissa * 5 ^ (-b.exponent).toNat * 10 ^ i * 2 ^ b.exponent.toNat) hpos,
      hadd, hten]
    congr 1
    ac_rfl
  have hk : 10 ^ (j + k) = 10 ^ j * 10 ^ k := Nat.pow_add 10 j k
  rw [hj, Nat.add_assoc, hunits, hunits, hk]
  ac_rfl

namespace Decimal

theorem digitsOf_mul_ten_pow {n : Nat} (h : 0 < n) (k : Nat) :
    digitsOf (n * 10 ^ k) = digitsOf n ++ List.replicate k '0' := by
  induction k with
  | zero => simp
  | succ k ih =>
    have hpos : 0 < n * 10 ^ k := Nat.mul_pos h (Nat.pow_pos (by decide))
    have := Nat.toDigits_append_toDigits (b := 10) (d := 0) (by decide) hpos (by decide)
    rw [Nat.pow_succ, ← Nat.mul_assoc, Nat.mul_comm _ 10, digitsOf, ← Nat.add_zero (10 * _), ← this,
      ← digitsOf, ih, List.replicate_succ', List.append_assoc]
    rfl

theorem padded_mul_ten_pow (places n k : Nat) (h : 0 < places) :
    padded (places + k) (n * 10 ^ k) = padded places n ++ List.replicate k '0' := by
  obtain rfl | hn := Nat.eq_zero_or_pos n
  · have hzero : digitsOf 0 = List.replicate 1 '0' := rfl
    simp only [padded, Nat.zero_mul, hzero, List.leftpad, List.length_replicate,
      List.replicate_append_replicate]
    congr 1
    omega
  · simp only [padded, digitsOf_mul_ten_pow hn, List.leftpad, List.length_append,
      List.length_replicate, List.append_assoc]
    congr 2
    omega

theorem unitsText_mul_ten_pow (n places k : Nat) (h : 0 < places) :
    unitsText (n * 10 ^ k) (places + k) = unitsText n places ++ List.replicate k '0' := by
  have hpow : 0 < 10 ^ k := Nat.pow_pos (by decide)
  have hk : places + k ≠ 0 := by omega
  simp only [unitsText, Nat.pow_add, Nat.mul_div_mul_right _ _ hpow, Nat.mul_mod_mul_right,
    if_neg hk, if_neg (Nat.ne_of_gt h), padded_mul_ten_pow _ _ _ h, List.append_assoc,
    List.cons_append]

/-- The magnitude is the rounded number of units of the last place. -/
theorem magnitudeText_eq (b : Binary) (places : Nat) :
    magnitudeText b places = unitsText (b.units places) places := by
  simp only [magnitudeText]
  by_cases h : places ≤ b.exactPlaces
  · simp [Nat.min_eq_left h]
  · have hle : b.exactPlaces ≤ places := by omega
    obtain ⟨k, rfl⟩ := Nat.exists_eq_add_of_le hle
    have hexact : (-b.exponent).toNat ≤ b.exactPlaces := Nat.le_max_right _ _
    have hpos : 0 < b.exactPlaces := Nat.le_max_left _ _
    rw [Nat.min_eq_right hle, b.units_add hexact, unitsText_mul_ten_pow _ _ _ hpos,
      Nat.add_sub_cancel_left]

/-- The text of a finite float is its sign and the rounded number of units of the last place. -/
theorem fixed_eq {x : Float} {b : Binary} (h : Binary.ofFloat? x = some b) (places : Nat) :
    fixed x places =
      (if b.negative then ['-'] else []) ++ unitsText (b.units places) places := by
  simp only [fixed, h, magnitudeText_eq]
  split <;> rfl

end Decimal

end Snippet
