import Mathlib.Algebra.Field.Rat
import Mathlib.Algebra.Order.Ring.Rat
import Mathlib.Tactic.NormNum
import Mathlib.Tactic.Ring
import Snippet.Number.Display
import Snippet.Proofs.Arithmetic.Scanning
import Snippet.Proofs.Number.FloatParts
import Snippet.Proofs.Number.Numerals
import Snippet.Proofs.Text.Trimming

/-!
# Decimals without trailing zeros

The text of a float with a fixed number of decimal places writes a number of units of the last place
behind a sign (`Decimal.FixedPoint`). Without its trailing zeros it writes the same number, with the
fewest places and without a sign in front of zero (`Number.trimZeros_text`). Such a text is
determined by the number that it writes (`Decimal.FixedPoint.eq_of_value_eq`), so that two decimals
are shown in the same way if they are the same number (`Number.decimalText_canonical`).

All of this is about the texts with any number of places. On a machine there are at most
`Unit.maxPlaces` of them, and the run breaks off where more are asked for.
-/

namespace Snippet

/-! ## The number that a text writes -/

namespace Decimal

variable {n j : Nat} {c : Char}

/-- The number that a numeral writes. -/
def Numeral.value (n : Numeral) : ℚ :=
  (if n.negative then -(n.digits : ℚ) else n.digits) * 10 ^ n.exponent

/-- The number that a text writes, if the text is a numeral. -/
def value? (t : Text) : Option ℚ := (numeral? t).map Numeral.value

/-- A number of units of the last of some decimal places, with a sign. -/
structure FixedPoint where
  negative : Bool
  units : Nat
  places : Nat

namespace FixedPoint

/-- The minus, if there is one. -/
def signText (negative : Bool) : Text := if negative then ['-'] else []

variable (d e : FixedPoint)

/-- The text with all places. -/
def text : Text := signText d.negative ++ unitsText d.units d.places

/-- The units with their sign. -/
def signedUnits : Int := if d.negative then -(d.units : Int) else d.units

def value : ℚ := d.signedUnits / 10 ^ d.places

/-- No place can be left out, and zero has no sign. -/
structure IsTrimmed : Prop where
  last_ne_zero : d.places = 0 ∨ d.units % 10 ≠ 0
  units_ne_zero : d.negative → d.units ≠ 0

end FixedPoint

/-! ### Digits and places -/

theorem unitsText_zero (n : Nat) : unitsText n 0 = digitsOf n := by
  simp [unitsText]

theorem unitsText_of_pos (h : 0 < j) :
    unitsText n j = digitsOf (n / 10 ^ j) ++ '.' :: padded j (n % 10 ^ j) := by
  rw [unitsText, if_neg (Nat.ne_of_gt h)]

theorem natOf_padded (k n : Nat) : natOf (padded k n) = n := by
  have hne : padded k n ≠ [] := List.append_ne_nil_of_right_ne_nil _ (digitsOf_ne_nil n)
  have hread := nat?_padded k n
  rw [nat?_of_forall hne fun _ => isDigit_of_mem_padded] at hread
  exact Option.some.inj hread

theorem natOf_digitsOf (n : Nat) : natOf (digitsOf n) = n := by
  rw [← padded_zero, natOf_padded]

/-- The digits in front of the point and behind it write the units. -/
theorem natOf_append_padded (n : Nat) (h : 0 < j) :
    natOf (digitsOf (n / 10 ^ j) ++ padded j (n % 10 ^ j)) = n := by
  have hlength : (padded j (n % 10 ^ j)).length = j :=
    length_padded h (Nat.mod_lt _ (Nat.pow_pos (by decide)))
  have hwhole := natOf_digitsOf (n / 10 ^ j)
  have hfraction := natOf_padded j (n % 10 ^ j)
  rw [natOf_eq] at hwhole hfraction
  rw [natOf_eq, Nat.ofDigitChars_append, hwhole, Nat.ofDigitChars_eq_ofDigitChars_zero, hfraction,
    hlength, Nat.div_add_mod]

/-- The units are written as a literal. -/
theorem exists_literal_unitsText (n j : Nat) : ∃ l : Arithmetic.Literal, l.text = unitsText n j ∧
    natOf (l.whole ++ l.fraction.getD []) = n ∧ (l.fraction.getD []).length = j := by
  rcases Nat.eq_zero_or_pos j with rfl | hj
  · refine ⟨⟨digitsOf n, none, fun _ => isDigit_of_mem_digitsOf, by simp,
      by simpa using digitsOf_ne_nil n⟩, ?_, ?_, rfl⟩
    · rw [unitsText_zero]
      exact List.append_nil _
    · simpa using natOf_digitsOf n
  · refine ⟨⟨digitsOf (n / 10 ^ j), some (padded j (n % 10 ^ j)), fun _ => isDigit_of_mem_digitsOf,
      fun _ => isDigit_of_mem_padded, List.append_ne_nil_of_left_ne_nil (digitsOf_ne_nil _) _⟩,
      (unitsText_of_pos hj).symm, natOf_append_padded n hj, ?_⟩
    exact length_padded hj (Nat.mod_lt _ (Nat.pow_pos (by decide)))

theorem isNumeric_of_mem_unitsText (h : c ∈ unitsText n j) : Arithmetic.isNumeric c := by
  obtain ⟨l, hl, -⟩ := exists_literal_unitsText n j
  exact l.isNumeric_of_mem (hl ▸ h)

theorem getLast?_digitsOf (n : Nat) : (digitsOf n).getLast? = some (n % 10).digitChar := by
  rw [digitsOf]
  by_cases h : n < 10
  · rw [Nat.toDigits_of_lt_base h, Nat.mod_eq_of_lt h]
    rfl
  · rw [Nat.toDigits_of_base_le (by decide) (Nat.le_of_not_lt h), List.getLast?_concat]

theorem getLast?_padded (j n : Nat) : (padded j n).getLast? = some (n % 10).digitChar := by
  rw [padded, List.leftpad, List.getLast?_append_of_ne_nil _ (digitsOf_ne_nil n), getLast?_digitsOf]

theorem digitChar_ne_zero : ∀ d < 10, d ≠ 0 → Nat.digitChar d ≠ '0' := by decide

/-- The last character behind a point is zero only if the units are a multiple of ten. -/
theorem getLast?_unitsText (n j : Nat) : (unitsText n j).getLast? = some (n % 10).digitChar := by
  rcases Nat.eq_zero_or_pos j with rfl | hj
  · rw [unitsText_zero, getLast?_digitsOf]
  · have hne : padded j (n % 10 ^ j) ≠ [] :=
      List.append_ne_nil_of_right_ne_nil _ (digitsOf_ne_nil _)
    have hten : 10 ∣ 10 ^ j := dvd_pow_self 10 (Nat.ne_of_gt hj)
    rw [unitsText_of_pos hj, List.append_cons, List.getLast?_append_of_ne_nil _ hne,
      getLast?_padded, Nat.mod_mod_of_dvd n hten]

/-! ### The number of a text -/

namespace FixedPoint

variable {d e : FixedPoint}

/-- **The text writes the number.** -/
theorem value?_text (d : FixedPoint) : value? d.text = some d.value := by
  obtain ⟨l, hl, hunits, hplaces⟩ := exists_literal_unitsText d.units d.places
  have hnumeral : numeral? d.text = some ⟨d.negative, d.units, -(d.places : Int)⟩ := by
    have hsign : splitSign d.text = (d.negative, l.text) := by
      rw [text, ← hl, signText]
      cases d.negative with
      | true => rfl
      | false => exact Arithmetic.splitSign_of_isNumeric fun _ => l.isNumeric_of_mem
    rw [numeral?, hsign]
    dsimp only
    rw [l.unsigned?_text, hunits, hplaces]
  rw [value?, hnumeral, Option.map_some, Numeral.value, value, signedUnits]
  rw [zpow_neg, zpow_natCast, div_eq_mul_inv]
  cases d.negative <;> simp

/-- Numbers with different places are compared at the product of both. -/
theorem value_eq_iff : d.value = e.value ↔
    d.signedUnits * 10 ^ e.places = e.signedUnits * 10 ^ d.places := by
  have hpow : ∀ k : Nat, (10 : ℚ) ^ k ≠ 0 := fun k => pow_ne_zero k (by norm_num)
  rw [value, value, div_eq_div_iff (hpow _) (hpow _)]
  exact_mod_cast Iff.rfl

theorem natAbs_signedUnits (d : FixedPoint) : d.signedUnits.natAbs = d.units := by
  rw [signedUnits]
  split <;> simp

/-- **Trimmed, a number has the fewest places** with which it can be written. -/
theorem IsTrimmed.places_le (hd : d.IsTrimmed) (h : d.value = e.value) : d.places ≤ e.places := by
  refine Nat.le_of_not_lt fun hlt => ?_
  obtain ⟨k, hk⟩ := Nat.exists_eq_add_of_lt hlt
  have hmul := congrArg Int.natAbs (value_eq_iff.mp h)
  rw [Int.natAbs_mul, Int.natAbs_mul, natAbs_signedUnits, natAbs_signedUnits, Int.natAbs_pow,
    Int.natAbs_pow] at hmul
  -- a place more than in the other number makes the units a multiple of ten
  have hunits : d.units = e.units * 10 ^ k * 10 := by
    refine Nat.eq_of_mul_eq_mul_right (Nat.pow_pos (n := e.places) (by decide : 0 < 10)) ?_
    refine hmul.trans ?_
    rw [hk, Nat.pow_succ, Nat.pow_add]
    ring
  rcases hd.last_ne_zero with hzero | hlast
  · omega
  · rw [hunits, Nat.mul_mod_left] at hlast
    exact hlast rfl

theorem negative_of_signedUnits_eq (hd : d.IsTrimmed) (h : d.signedUnits = e.signedUnits)
    (hnegative : d.negative) : e.negative := by
  have hunits := hd.units_ne_zero hnegative
  rw [signedUnits, signedUnits, if_pos hnegative] at h
  by_contra hnot
  rw [if_neg hnot] at h
  omega

/-- **A trimmed number is determined by its value.** -/
theorem eq_of_value_eq (hd : d.IsTrimmed) (he : e.IsTrimmed) (h : d.value = e.value) : d = e := by
  have hplaces : d.places = e.places :=
    Nat.le_antisymm (hd.places_le h) (he.places_le h.symm)
  have hsigned : d.signedUnits = e.signedUnits := by
    have hmul := value_eq_iff.mp h
    rw [hplaces] at hmul
    exact Int.eq_of_mul_eq_mul_right (pow_ne_zero _ (by decide)) hmul
  have hunits : d.units = e.units := by
    rw [← natAbs_signedUnits, hsigned, natAbs_signedUnits]
  have hnegative : d.negative = e.negative := Bool.eq_iff_iff.mpr
    ⟨negative_of_signedUnits_eq hd hsigned, negative_of_signedUnits_eq he hsigned.symm⟩
  cases d
  cases e
  exact congr (congr (congrArg FixedPoint.mk hnegative) hunits) hplaces

/-- Units that end in zeros, and the units in front of the zeros; zero has no sign. -/
theorem signedUnits_mul_ten_pow (negative : Bool) (m k p q : Nat) :
    signedUnits ⟨negative, m * 10 ^ k, p⟩ = signedUnits ⟨negative && m != 0, m, q⟩ * 10 ^ k := by
  simp only [signedUnits]
  by_cases hzero : m = 0
  · simp [hzero]
  · rw [bne_iff_ne.mpr hzero, Bool.and_true]
    push_cast
    split <;> ring

/-- Every number is one that needs all its places, with zeros behind it. -/
theorem exists_mul_ten_pow (n p : Nat) :
    ∃ m j k, p = j + k ∧ n = m * 10 ^ k ∧ (j = 0 ∨ m % 10 ≠ 0) := by
  induction p generalizing n with
  | zero => exact ⟨n, 0, 0, rfl, (Nat.mul_one n).symm, .inl rfl⟩
  | succ p ih =>
    by_cases hlast : n % 10 = 0
    · obtain ⟨m, j, k, rfl, hn, hm⟩ := ih (n / 10)
      refine ⟨m, j, k + 1, rfl, ?_, hm⟩
      rw [Nat.pow_succ, ← Nat.mul_assoc, ← hn]
      omega
    · exact ⟨n, p + 1, 0, rfl, (Nat.mul_one n).symm, .inr hlast⟩

end FixedPoint

end Decimal

/-! ## Trailing zeros -/

namespace Number

open Decimal Decimal.FixedPoint

variable {m j k places : Nat} {negative : Bool} {t : Text} {x : Float}

/-- A text without the zeros at its end and then without the point there. -/
def dropZeros (t : Text) : Text :=
  if t.contains '.' then Text.dropWhileEnd (· == '.') (Text.dropWhileEnd (· == '0') t) else t

theorem trimZeros_eq (t : Text) : trimZeros t =
    if dropZeros t = [] || dropZeros t = ['-', '0'] then ['0'] else dropZeros t := rfl

theorem dropZeros_eq_self (hpoint : '.' ∉ t) : dropZeros t = t :=
  if_neg fun hmem => hpoint (List.contains_iff_mem.mp hmem)

/-- Zeros behind a text with a point that ends in neither. -/
theorem dropZeros_append {zeros : Text} (hpoint : '.' ∈ t)
    (hlast : ∀ c ∈ t.getLast?, c ≠ '0' ∧ c ≠ '.') (hzeros : ∀ c ∈ zeros, c = '0') :
    dropZeros (t ++ zeros) = t := by
  have hmem : (t ++ zeros).contains '.' :=
    List.contains_iff_mem.mpr (List.mem_append_left zeros hpoint)
  have hzero : Text.dropWhileEnd (· == '0') (t ++ zeros) = t :=
    Text.dropWhileEnd_append (fun c hc => beq_eq_false_iff_ne.mpr (hlast c hc).1)
      fun c hc => beq_iff_eq.mpr (hzeros c hc)
  have hend : Text.dropWhileEnd (· == '.') (t ++ []) = t :=
    Text.dropWhileEnd_append (fun c hc => beq_eq_false_iff_ne.mpr (hlast c hc).2) (by simp)
  rw [List.append_nil] at hend
  rw [dropZeros, if_pos hmem, hzero, hend]

/-- A point with only zeros behind it. -/
theorem dropZeros_append_point {zeros : Text} (hlast : ∀ c ∈ t.getLast?, c ≠ '.')
    (hzeros : ∀ c ∈ zeros, c = '0') : dropZeros (t ++ '.' :: zeros) = t := by
  have hmem : (t ++ '.' :: zeros).contains '.' :=
    List.contains_iff_mem.mpr (List.mem_append_right t (List.mem_cons_self ..))
  have hzero : Text.dropWhileEnd (· == '0') ((t ++ ['.']) ++ zeros) = t ++ ['.'] :=
    Text.dropWhileEnd_append (by simp) fun c hc => beq_iff_eq.mpr (hzeros c hc)
  have hend : Text.dropWhileEnd (· == '.') (t ++ ['.']) = t :=
    Text.dropWhileEnd_append (fun c hc => beq_eq_false_iff_ne.mpr (hlast c hc)) (by simp)
  rw [← List.append_cons] at hzero
  rw [dropZeros, if_pos hmem, hzero, hend]

/-! ### Units that end in zeros -/

theorem unitsText_whole (m : Nat) (hk : 0 < k) :
    unitsText (m * 10 ^ k) k = digitsOf m ++ '.' :: List.replicate k '0' := by
  have hpow : 0 < 10 ^ k := Nat.pow_pos (by decide)
  have hpadded : padded k 0 = List.replicate k '0' := by
    obtain ⟨i, rfl⟩ : ∃ i, k = i + 1 := ⟨k - 1, by omega⟩
    exact List.replicate_succ'.symm
  rw [unitsText_of_pos hk, Nat.mul_div_cancel _ hpow, Nat.mul_mod_left, hpadded]

theorem getLast?_signText_append (negative : Bool) (n j : Nat) :
    (signText negative ++ unitsText n j).getLast? = some (n % 10).digitChar := by
  rw [List.getLast?_append, getLast?_unitsText]
  rfl

theorem point_not_mem (negative : Bool) (n : Nat) : '.' ∉ signText negative ++ digitsOf n := by
  have hdigits : '.' ∉ digitsOf n := fun hmem => absurd (isDigit_of_mem_digitsOf hmem) (by decide)
  cases negative with
  | false => exact hdigits
  | true => simpa [signText] using hdigits

theorem digitChar_ne_point : ∀ d < 10, Nat.digitChar d ≠ '.' := by decide

/-- **The zeros that are dropped are those that the units end in**, as far as they are behind the
point. -/
theorem dropZeros_text (hm : j = 0 ∨ m % 10 ≠ 0) :
    dropZeros (signText negative ++ unitsText (m * 10 ^ k) (j + k)) =
      signText negative ++ unitsText m j := by
  have hten : m % 10 < 10 := Nat.mod_lt m (by decide)
  have hlast : ∀ c ∈ (signText negative ++ unitsText m j).getLast?, c ≠ '.' := by
    rw [getLast?_signText_append]
    rintro - ⟨⟩
    exact digitChar_ne_point _ hten
  have hzeros : ∀ c ∈ List.replicate k '0', c = '0' := fun c hc => List.eq_of_mem_replicate hc
  rcases Nat.eq_zero_or_pos j with rfl | hj
  · rw [unitsText_zero] at hlast ⊢
    rcases Nat.eq_zero_or_pos k with rfl | hk
    · rw [Nat.pow_zero, Nat.mul_one, unitsText_zero]
      exact dropZeros_eq_self (point_not_mem negative m)
    · rw [Nat.zero_add, unitsText_whole m hk, ← List.append_assoc]
      exact dropZeros_append_point hlast hzeros
  · have hpoint : '.' ∈ signText negative ++ unitsText m j := by
      simp [unitsText_of_pos hj]
    rw [unitsText_mul_ten_pow m j k hj, ← List.append_assoc]
    refine dropZeros_append hpoint (fun c hc => ⟨?_, hlast c hc⟩) hzeros
    rw [getLast?_signText_append] at hc
    cases hc
    exact digitChar_ne_zero _ hten (hm.resolve_left (Nat.ne_of_gt hj))

theorem unitsText_eq_zero_iff (hm : j = 0 ∨ m % 10 ≠ 0) : unitsText m j = ['0'] ↔ m = 0 := by
  constructor
  · intro h
    rcases Nat.eq_zero_or_pos j with rfl | hj
    · have hread := natOf_digitsOf m
      rw [unitsText_zero] at h
      rw [h] at hread
      exact hread.symm
    · have hpoint : '.' ∈ unitsText m j := by simp [unitsText_of_pos hj]
      rw [h] at hpoint
      exact absurd hpoint (by decide)
  · rintro rfl
    obtain rfl : j = 0 := hm.resolve_right fun hne => hne rfl
    rfl

theorem signText_append_ne_nil (negative : Bool) (n j : Nat) :
    signText negative ++ unitsText n j ≠ [] := by
  intro hnil
  have hlast := getLast?_signText_append negative n j
  rw [hnil] at hlast
  cases hlast

theorem signText_append_eq_minus_zero_iff (negative : Bool) (hm : j = 0 ∨ m % 10 ≠ 0) :
    signText negative ++ unitsText m j = ['-', '0'] ↔ negative ∧ m = 0 := by
  cases negative with
  | true => simp [signText, unitsText_eq_zero_iff hm]
  | false =>
    refine iff_of_false (fun heq => ?_) (by simp)
    have hminus : '-' ∈ unitsText m j := by
      rw [signText, if_neg Bool.false_ne_true, List.nil_append] at heq
      simp [heq]
    exact absurd (isNumeric_of_mem_unitsText hminus) (by decide)

/-- Zero loses its sign. -/
theorem trimZeros_eq_of_dropZeros (hm : j = 0 ∨ m % 10 ≠ 0)
    (h : dropZeros t = signText negative ++ unitsText m j) :
    trimZeros t = signText (negative && m != 0) ++ unitsText m j := by
  have hne := signText_append_ne_nil negative m j
  have hzero := signText_append_eq_minus_zero_iff negative hm
  rw [trimZeros_eq, h]
  by_cases hnegative : negative ∧ m = 0
  · obtain ⟨rfl, rfl⟩ := hnegative
    obtain rfl : j = 0 := hm.resolve_right fun hne => hne rfl
    rfl
  · have hsign : (negative && m != 0) = negative := by
      cases negative with
      | false => rfl
      | true => simpa using hnegative
    rw [if_neg (by simp [hne, hzero, hnegative]), hsign]

/-- **Without trailing zeros the same number is written**, trimmed. -/
theorem trimZeros_text (d : FixedPoint) : ∃ e : FixedPoint, e.IsTrimmed ∧ e.value = d.value ∧
    e.places ≤ d.places ∧ trimZeros d.text = e.text := by
  obtain ⟨negative, n, p⟩ := d
  obtain ⟨m, j, k, rfl, rfl, hm⟩ := exists_mul_ten_pow n p
  refine ⟨⟨negative && m != 0, m, j⟩, ⟨hm, by simp⟩, ?_, Nat.le_add_right j k,
    trimZeros_eq_of_dropZeros hm (dropZeros_text hm)⟩
  rw [value_eq_iff, signedUnits_mul_ten_pow negative m k (j + k) j, pow_add]
  ring

/-! ## What is shown -/

/-- A minus if there is one, digits, and behind a point at most some number of digits, the last of
which is not zero. Without digits behind it there is no point, and zero has no minus. -/
structure IsDecimal (places : Nat) (t : Text) : Prop where
  exists_parts : ∃ negative whole fraction,
    t = signText negative ++ (whole ++ if fraction = [] then [] else '.' :: fraction) ∧
      whole ≠ [] ∧ (∀ c ∈ whole, c.isDigit) ∧ (∀ c ∈ fraction, c.isDigit) ∧
      fraction.length ≤ places ∧ fraction.getLast? ≠ some '0'
  ne_nil : t ≠ []
  ne_minus_zero : t ≠ ['-', '0']
  getLast?_ne_point : t.getLast? ≠ some '.'

theorem isDecimal_text {e : FixedPoint} (he : e.IsTrimmed) (h : e.places ≤ places) :
    IsDecimal places e.text := by
  obtain ⟨negative, m, j⟩ := e
  refine ⟨?_, signText_append_ne_nil negative m j, fun hzero => ?_, fun hpoint => ?_⟩
  · rcases Nat.eq_zero_or_pos j with rfl | hj
    · refine ⟨negative, digitsOf m, [], ?_, digitsOf_ne_nil m, fun _ => isDigit_of_mem_digitsOf,
        by simp, Nat.zero_le _, by simp⟩
      rw [FixedPoint.text, unitsText_zero, if_pos rfl, List.append_nil]
    · have hlength : (padded j (m % 10 ^ j)).length = j :=
        length_padded hj (Nat.mod_lt _ (Nat.pow_pos (by decide)))
      have hne : padded j (m % 10 ^ j) ≠ [] :=
        List.append_ne_nil_of_right_ne_nil _ (digitsOf_ne_nil _)
      have hten : 10 ∣ 10 ^ j := dvd_pow_self 10 (Nat.ne_of_gt hj)
      refine ⟨negative, digitsOf (m / 10 ^ j), padded j (m % 10 ^ j), ?_, digitsOf_ne_nil _,
        fun _ => isDigit_of_mem_digitsOf, fun _ => isDigit_of_mem_padded,
        hlength.trans_le h, ?_⟩
      · rw [FixedPoint.text, unitsText_of_pos hj, if_neg hne]
      · rw [getLast?_padded, Nat.mod_mod_of_dvd m hten, ne_eq, Option.some.injEq]
        exact digitChar_ne_zero _ (Nat.mod_lt m (by decide))
          (he.last_ne_zero.resolve_left (Nat.ne_of_gt hj))
  · obtain ⟨hnegative, hunits⟩ :=
      (signText_append_eq_minus_zero_iff negative he.last_ne_zero).mp hzero
    exact he.units_ne_zero hnegative hunits
  · rw [FixedPoint.text, getLast?_signText_append, Option.some.injEq] at hpoint
    exact digitChar_ne_point _ (Nat.mod_lt m (by decide)) hpoint

/-- The text of a finite float with some decimal places writes units of the last one. -/
theorem exists_fixed_eq (hx : x.isFinite) (places : Nat) :
    ∃ d : FixedPoint, d.places = places ∧ fixed x places = d.text := by
  obtain ⟨b, hb⟩ := Binary.exists_ofFloat? hx
  exact ⟨⟨b.negative, b.units places, places⟩, rfl, fixed_eq hb places⟩

/-- Without places there are no zeros to drop. -/
theorem decimalText_zero (hx : x.isFinite) :
    decimalText x 0 = if fixed x 0 = ['-', '0'] then ['0'] else fixed x 0 := by
  obtain ⟨⟨negative, n, _⟩, rfl, hd⟩ := exists_fixed_eq hx 0
  have hdrop : dropZeros (fixed x 0) = fixed x 0 := by
    rw [hd, FixedPoint.text, unitsText_zero]
    exact dropZeros_eq_self (point_not_mem negative n)
  have hne : fixed x 0 ≠ [] := hd ▸ signText_append_ne_nil negative n 0
  rw [decimalText, trimZeros_eq, hdrop]
  simp [hne]

/-- **A decimal is shown canonically.** It has at most the given places and no zeros at its end, and
it writes the number that the text with all places writes. Texts that write the same number, of any
floats and with any places, are shown in the same way. Without places nothing is dropped, except the
sign of zero. -/
theorem decimalText_canonical (hx : x.isFinite) (places : Nat) :
    IsDecimal places (decimalText x places) ∧
    (∃ q, value? (fixed x places) = some q ∧ value? (decimalText x places) = some q) ∧
    (∀ (y : Float) (places' : Nat), y.isFinite →
      value? (fixed y places') = value? (fixed x places) →
        decimalText y places' = decimalText x places) ∧
    decimalText x 0 = if fixed x 0 = ['-', '0'] then ['0'] else fixed x 0 := by
  obtain ⟨d, rfl, hd⟩ := exists_fixed_eq hx places
  obtain ⟨e, he, hvalue, hle, htrim⟩ := trimZeros_text d
  have hshown : decimalText x d.places = e.text := by rw [decimalText, hd, htrim]
  refine ⟨?_, ⟨d.value, ?_, ?_⟩, fun y places' hy h => ?_, ?_⟩
  · rw [hshown]
    exact isDecimal_text he hle
  · rw [hd, value?_text]
  · rw [hshown, value?_text, hvalue]
  · obtain ⟨d', rfl, hd'⟩ := exists_fixed_eq hy places'
    obtain ⟨e', he', hvalue', -, htrim'⟩ := trimZeros_text d'
    rw [hd, hd', value?_text, value?_text, Option.some.injEq] at h
    have hsame : e' = e := eq_of_value_eq he' he (by rw [hvalue', hvalue, h])
    rw [hshown, decimalText, hd', htrim', hsame]
  · exact decimalText_zero hx

/-- The zeros of a whole number are kept, and those behind the point are not. -/
theorem decimalText_canonical_whole : Float.isFinite 1050.0 ∧
    IsDecimal 2 (decimalText 1050.0 2) ∧ decimalText 1050.0 2 = "1050".toList ∧
    value? (decimalText 1050.0 2) = value? "1050.00".toList ∧
    decimalText 1050.0 0 = "1050".toList := by
  have hfinite : Float.isFinite 1050.0 := by decide +kernel
  have hfixed : fixed 1050.0 2 = "1050.00".toList := by decide +kernel
  have hwhole : fixed 1050.0 0 = "1050".toList := by decide +kernel
  have hshown : decimalText 1050.0 2 = "1050".toList := by rw [decimalText, hfixed]; rfl
  obtain ⟨hdecimal, ⟨q, hq, hvalue⟩, -, hzero⟩ := decimalText_canonical hfinite 2
  rw [hfixed] at hq
  rw [hwhole] at hzero
  exact ⟨hfinite, hdecimal, hshown, hvalue.trans hq.symm, hzero⟩

end Number

end Snippet
