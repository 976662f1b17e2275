import Snippet.Decimal.Binary

/-!
# The parts of floats

A float is finite exactly where its bits stand for a sign, a mantissa and a power of two. The
product of two floats has a mantissa of at most 106 bits, of which rounding keeps 53, and rounding
adds at most one to the exponent, so that the product is finite if the exponents of the factors are
small enough (`Exponent.isFinite_mul`). A finite float has an exact value (`Binary.exists_ofFloat?`),
and so has its magnitude, which is not negative (`Binary.exists_ofFloat?_abs`).
-/

namespace Snippet

open Float.Model Float.Model.UnpackedFloat

/-! ## Rounding -/

namespace Exponent

/-- A float is zero, or finite with at most an exponent. -/
inductive AtMost (bound : Int) : UnpackedFloat → Prop
  | zero {s : Sign} : AtMost bound (.zero s)
  | finite {s : Sign} {m : Nat} {e : Int} {hm : 0 < m} (he : e ≤ bound) :
      AtMost bound (.finite s m e hm)

instance (bound : Int) : DecidablePred (AtMost bound)
  | .zero _ => .isTrue .zero
  | .finite _ _ e _ =>
    if he : e ≤ bound then .isTrue (.finite he) else .isFalse fun | .finite h => he h
  | .infinity _ => .isFalse nofun
  | .notANumber => .isFalse nofun

theorem mantissa_shiftRight (em : ExtendedMantissa) (k : Nat) :
    (em >>> k).mantissa = em.mantissa / 2 ^ k := by
  change (k.repeat ExtendedMantissa.shiftRightOne em).mantissa = _
  induction k with
  | zero => simp [Nat.repeat]
  | succ k ih =>
    change (k.repeat ExtendedMantissa.shiftRightOne em).mantissa / 2 = _
    rw [ih, Nat.div_div_eq_div_mul, Nat.pow_succ]

theorem roundedMantissa_le (em : ExtendedMantissa) : em.roundedMantissa ≤ em.mantissa + 1 := by
  obtain ⟨m, _ | _, _ | _⟩ := em
  all_goals
    simp only [ExtendedMantissa.roundedMantissa, ExtendedMantissa.accuracy,
      Accuracy.roundToNearestEven]
    omega

/-- The mantissa that is shifted to the exponent of the format has at most 53 bits. -/
theorem shiftToTargetExponent_exact (m : Nat) (e : Int) :
    ∃ k : Nat, (shiftToTargetExponent Format.binary64 m e .exact).1.mantissa = m / 2 ^ k ∧
      (shiftToTargetExponent Format.binary64 m e .exact).2 = e + k ∧ m.log2 ≤ 52 + k ∧
      e + k = max e (max (m.log2 + e - 52) (-1074)) := by
  refine ⟨_, mantissa_shiftRight _ _, rfl, ?_, ?_⟩
  all_goals
    have hbits : Format.binary64.mantissaBits = 53 := rfl
    simp only [Format.targetExponent, totalExponent, hbits, Format.minExponent]
    omega

theorem div_lt_of_log2_le {m k : Nat} (h : m.log2 ≤ 52 + k) : m / 2 ^ k < 2 ^ 53 := by
  rw [Nat.div_lt_iff_lt_mul (Nat.two_pow_pos k), ← Nat.pow_add]
  exact Nat.lt_of_lt_of_le Nat.lt_log2_self (Nat.pow_le_pow_right (by decide) (by omega))

/-- **Rounding adds at most one to the exponent.** -/
theorem atMost_roundWithAccuracy {s : Sign} {m : Nat} {e bound : Int} (he : e + 1 ≤ bound)
    (hm : m.log2 + e - 51 ≤ bound) (hbound : -1073 ≤ bound) :
    AtMost bound (roundWithAccuracy Format.binary64 s m e .exact) := by
  obtain ⟨k, hmantissa, hexponent, hlog, hmax⟩ := shiftToTargetExponent_exact m e
  have hrounded := roundedMantissa_le (shiftToTargetExponent Format.binary64 m e .exact).1
  rw [hmantissa] at hrounded
  have hbits := div_lt_of_log2_le hlog
  unfold roundWithAccuracy
  generalize shiftToTargetExponent Format.binary64 m e .exact = shifted at hrounded hexponent
  obtain ⟨shifted, e'⟩ := shifted
  obtain rfl : e' = e + k := hexponent
  dsimp only at hrounded ⊢
  generalize shifted.roundedMantissa = r at hrounded
  have hlogr : r.log2 < 54 := by
    rcases Nat.eq_zero_or_pos r with rfl | hr
    · decide
    · exact (Nat.log2_lt (Nat.ne_of_gt hr)).mpr (by omega)
  obtain ⟨l, -, hfinal, -, hmaxr⟩ := shiftToTargetExponent_exact r (e + k)
  by_cases hzero : (shiftToTargetExponent Format.binary64 r (e + k) .exact).1.mantissa = 0
  · rw [dif_pos hzero]
    exact .zero
  · rw [dif_neg hzero]
    refine .finite ?_
    rw [hfinal]
    omega

/-! ## Products -/

/-- The bits of a float stand for no finite float and have an exponent of all ones, or they stand for
one whose mantissa has at most 53 bits and whose exponent is at most 971. -/
theorem unpack_cases (b : BitVec Format.binary64.numBits) :
    (unpackExponent b = -1#_ ∧ (UnpackedFloat.unpack _ b).isFinite = false) ∨
      unpackExponent b ≠ -1#_ ∧ (UnpackedFloat.unpack _ b).isFinite ∧
        ∀ s m e h, UnpackedFloat.unpack _ b = .finite s m e h → m < 2 ^ 53 ∧ e ≤ 971 := by
  unfold UnpackedFloat.unpack
  dsimp only
  by_cases hones : unpackExponent b = -1#_
  · rw [if_pos hones]
    refine .inl ⟨hones, ?_⟩
    split <;> rfl
  rw [if_neg hones]
  have hbias : Format.binary64.exponentBias = 1023 := rfl
  by_cases hsubnormal : unpackExponent b = 0#_
  · rw [if_pos hsubnormal]
    by_cases hzero : unpackMantissa b = 0#_
    · rw [dif_pos hzero]
      refine .inr ⟨hones, rfl, fun s m e h heq => ?_⟩
      cases heq
    · rw [dif_neg hzero]
      refine .inr ⟨hones, rfl, fun s m e h heq => ?_⟩
      injection heq with _ hm he
      rw [← hm, ← he, hsubnormal]
      exact ⟨Nat.lt_of_lt_of_le (BitVec.isLt _) (by decide), by decide⟩
  · rw [if_neg hsubnormal]
    refine .inr ⟨hones, rfl, fun s m e h heq => ?_⟩
    injection heq with _ hm he
    rw [← hm, ← he]
    refine ⟨BitVec.isLt _, ?_⟩
    -- the largest exponent field stands for what is not finite
    have hlt : (unpackExponent b).toNat < 2 ^ 11 := BitVec.isLt _
    have hne : (unpackExponent b).toNat ≠ 2047 := fun hones' => hones (BitVec.eq_of_toNat_eq hones')
    rw [hbias]
    omega

theorem mantissa_lt_of_unpack {x : Float} {s : Sign} {m : Nat} {e : Int} {h : 0 < m}
    (hx : x.toModel.unpack = .finite s m e h) : m < 2 ^ 53 := by
  change UnpackedFloat.unpack Format.binary64 _ = _ at hx
  rcases unpack_cases x.toModel.toBits.toBitVec with ⟨-, hinfinite⟩ | ⟨-, -, hbounds⟩
  · rw [hx] at hinfinite
    cases hinfinite
  · exact (hbounds s m e h hx).1

/-- The exponents of finite floats. -/
theorem atMost_unpack {x : Float} (h : x.isFinite) : AtMost 971 x.toModel.unpack := by
  change (UnpackedFloat.unpack Format.binary64 x.toModel.toBits.toBitVec).isFinite = true at h
  change AtMost 971 (UnpackedFloat.unpack Format.binary64 x.toModel.toBits.toBitVec)
  rcases unpack_cases x.toModel.toBits.toBitVec with ⟨-, hinfinite⟩ | ⟨-, -, hbounds⟩
  · rw [hinfinite] at h
    cases h
  · generalize UnpackedFloat.unpack Format.binary64 x.toModel.toBits.toBitVec = u at h hbounds
    cases u with
    | infinity s => cases h
    | notANumber => cases h
    | zero s => exact .zero
    | finite s m e hm => exact .finite (hbounds s m e hm rfl).2

/-- A float that is packed with a small exponent stays finite. -/
theorem isFinite_pack {x : UnpackedFloat} (h : AtMost 971 x) : (Float.Model.pack x).isFinite := by
  have hfinite : ∀ b : BitVec Format.binary64.numBits, unpackExponent b ≠ -1#_ →
      (UnpackedFloat.unpack Format.binary64 b).isFinite :=
    fun b hb => ((unpack_cases b).resolve_left fun h => hb h.1).2.1
  refine hfinite _ ?_
  cases h with
  | zero =>
    change unpackExponent (packComponents _ _ _ _) ≠ _
    rw [unpackExponent_packComponents]
    decide
  | @finite s m e hm he =>
    change unpackExponent (UnpackedFloat.pack Format.binary64 (.finite s m e hm)) ≠ _
    have hbias : Format.binary64.exponentBias = 1023 := rfl
    unfold UnpackedFloat.pack
    dsimp only
    rw [hbias]
    split
    · omega
    · split
      · rw [unpackExponent_packComponents]
        intro hones
        have hbiased : (e + 1023 + 52).toNat % 2 ^ 11 = 2 ^ 11 - 1 := congrArg BitVec.toNat hones
        omega
      · rw [unpackExponent_packComponents]
        decide

/-- The magnitude of a finite float is finite. -/
theorem isFinite_abs {x : Float} (h : x.isFinite) : x.abs.isFinite := by
  refine isFinite_pack (x := x.toModel.unpack.abs) ?_
  have hbound := atMost_unpack h
  generalize x.toModel.unpack = u at hbound
  cases hbound with
  | zero => exact .zero
  | finite he => exact .finite he

/-- **The product of two floats with small exponents is finite.** -/
theorem isFinite_mul {x y : Float} {a b : Int} (hx : AtMost a x.toModel.unpack)
    (hy : AtMost b y.toModel.unpack) (hab : a + b ≤ 917) : (x * y).isFinite := by
  refine isFinite_pack (x := UnpackedFloat.mul _ x.toModel.unpack y.toModel.unpack) ?_
  generalize hu : x.toModel.unpack = u at hx
  generalize hv : y.toModel.unpack = v at hy
  cases hx with
  | zero => cases hy <;> exact .zero
  | @finite s m e hm he =>
    cases hy with
    | zero => exact .zero
    | @finite s' m' e' hm' he' =>
      have hlog : (m * m').log2 < 106 :=
        (Nat.log2_lt (Nat.ne_of_gt (Nat.mul_pos hm hm'))).mpr <|
          calc m * m' < 2 ^ 53 * 2 ^ 53 :=
                Nat.mul_lt_mul'' (mantissa_lt_of_unpack hu) (mantissa_lt_of_unpack hv)
            _ = 2 ^ 106 := rfl
      exact atMost_roundWithAccuracy (by omega) (by omega) (by decide)

/-! ## Comparisons -/

theorem le_iff_unpack {x y : Float} :
    x ≤ y ↔ x.toModel.unpack.le y.toModel.unpack = true := decide_eq_true_iff

theorem le_zero_of_negative {x : Float} {m : Nat} {e : Int} {hm : 0 < m}
    (hx : x.toModel.unpack = .finite .negative m e hm) : x ≤ 0.0 := by
  have hzero : ∀ z : UnpackedFloat, (z matches .zero _) →
      (UnpackedFloat.finite .negative m e hm).le z = true := by
    intro z hz
    cases z with
    | zero s => rfl
    | _ => cases hz
  rw [le_iff_unpack, hx]
  exact hzero _ (by decide +kernel)

/-- A positive float has at most the exponents of those above it. -/
theorem atMost_of_le {x y : Float} {b : Int} (hfinite : x.isFinite) (hpos : ¬ x ≤ 0.0) (hxy : x ≤ y)
    (hy : AtMost b y.toModel.unpack) : AtMost b x.toModel.unpack := by
  change x.toModel.unpack.isFinite = true at hfinite
  rw [le_iff_unpack] at hxy
  cases hu : x.toModel.unpack with
  | infinity s => rw [hu] at hfinite; cases hfinite
  | notANumber => rw [hu] at hfinite; cases hfinite
  | zero s => exact .zero
  | finite s m e hm =>
    cases s with
    | negative => exact absurd (le_zero_of_negative hu) hpos
    | positive =>
      rw [hu] at hxy
      generalize y.toModel.unpack = v at hxy hy
      cases hy with
      | zero => cases hxy
      | @finite s' m' e' hm' he =>
        cases s' with
        | negative => cases hxy
        | positive =>
          have hle : ((compare e e').then (compare m m')).isLE := hxy
          have hexponent : e ≤ e' := Std.isLE_compare.mp (Ordering.isLE_left_of_isLE_then hle)
          exact .finite (Int.le_trans hexponent he)

end Exponent

/-! ## The sign of a magnitude -/

namespace Binary

theorem msb_packComponents (e : BitVec 11) (m : BitVec 52) :
    (packComponents .binary64 .positive e m).msb = false := by
  have hsign : ((0#1 : BitVec 1) ++ e).msb = false := BitVec.msb_append.trans rfl
  have hall : (((0#1 : BitVec 1) ++ e) ++ m).msb = false := BitVec.msb_append.trans hsign
  exact hall

theorem msb_pack_abs (u : UnpackedFloat) : (UnpackedFloat.pack .binary64 u.abs).msb = false := by
  cases u with
  | infinity s => exact msb_packComponents ..
  | notANumber => exact msb_packComponents ..
  | zero s => exact msb_packComponents ..
  | finite s m e h =>
    unfold UnpackedFloat.abs UnpackedFloat.pack
    dsimp only
    split
    · exact msb_packComponents ..
    · split <;> exact msb_packComponents ..

/-- An absolute value has no sign. -/
theorem negative_of_ofFloat?_abs {x : Float} {b : Binary} (h : ofFloat? x.abs = some b) :
    b.negative = false := by
  have hlt : x.abs.toBits.toNat < 2 ^ 63 :=
    BitVec.toNat_lt_of_msb_false (msb_pack_abs x.toModel.unpack)
  have hsign : (x.abs.toBits.toNat / 2 ^ 63 % 2 == 1) = false := by
    rw [Nat.div_eq_of_lt hlt]
    rfl
  rw [ofFloat?, ofBits?, hsign] at h
  split at h
  · cases h
  · split at h <;> cases h <;> rfl

/-! ## The exact value of a finite float -/

/-- **A finite float has an exact value.** -/
theorem exists_ofFloat? {x : Float} (h : x.isFinite) : ∃ b, ofFloat? x = some b := by
  change (UnpackedFloat.unpack Format.binary64 x.toBits.toBitVec).isFinite = true at h
  have hfield : x.toBits.toNat / 2 ^ 52 % 2 ^ 11 ≠ 2047 := by
    intro hones
    rcases Exponent.unpack_cases x.toBits.toBitVec with ⟨-, hinfinite⟩ | ⟨hne, -⟩
    · rw [hinfinite] at h
      cases h
    · refine hne (BitVec.eq_of_toNat_eq ?_)
      rw [← Nat.shiftRight_eq_div_pow] at hones
      exact hones
  rw [ofFloat?, ofBits?, if_neg hfield]
  split
  · exact ⟨_, rfl⟩
  · exact ⟨_, rfl⟩

/-- **The magnitude of a finite float has an exact value, which is not negative.** -/
theorem exists_ofFloat?_abs {x : Float} (h : x.isFinite) :
    ∃ b, ofFloat? x.abs = some b ∧ b.negative = false := by
  obtain ⟨b, hb⟩ := exists_ofFloat? (Exponent.isFinite_abs h)
  exact ⟨b, hb, negative_of_ofFloat?_abs hb⟩

end Binary

end Snippet
