import Mathlib.Data.List.TakeWhile
import Snippet.Number.Display
import Snippet.Proofs.Calendar.Dateless
import Snippet.Proofs.Number.FloatParts
import Snippet.Proofs.Number.Numerals

/-!
# The figures that are shown

A result is shown as a figure, an optional minus in front of digits with commas, a dollar sign and
at most one point, or as a text without digits for what is no finite number (`IsShown`). So it is
shown by every way to display floats (`isShown_fixed`, `isShown_decimalText`,
`isShown_currencyText?`, `isShown_resultText?`). A figure is without dates.
-/

namespace Snippet

namespace Number

variable {a b t u : Text} {c : Char}

/-! ## Figures -/

/-- A character of a figure, its sign apart. -/
def isFigureChar (c : Char) : Bool := c.isDigit || ['.', ',', '$'].contains c

/-- Digits with commas, a dollar sign and at most one point. -/
structure IsUnsigned (t : Text) : Prop where
  isFigureChar : ∀ c ∈ t, isFigureChar c
  count_le : t.count '.' ≤ 1

/-- An unsigned figure, or one with a minus in front of it. -/
inductive IsFigure : Text → Prop where
  | positive {t : Text} : IsUnsigned t → IsFigure t
  | negative {t : Text} : IsUnsigned t → IsFigure ('-' :: t)

/-- The text has no digit. -/
def IsDigitless (t : Text) : Prop := ∀ c ∈ t, Text.isDigit c = false

instance (t : Text) : Decidable (IsDigitless t) := inferInstanceAs (Decidable (∀ c ∈ t, _))

/-- A figure, or a text for what is no finite number. -/
def IsShown (t : Text) : Prop := IsDigitless t ∨ IsFigure t

theorem IsUnsigned.of_sublist (h : IsUnsigned t) (hu : u.Sublist t) : IsUnsigned u :=
  ⟨fun c hc => h.isFigureChar c (hu.mem hc), (hu.count_le '.').trans h.count_le⟩

theorem IsFigure.of_start (h : IsFigure t) (hu : u <+: t) : IsFigure u := by
  cases h with
  | positive h => exact .positive (h.of_sublist hu.sublist)
  | @negative t h =>
    cases u with
    | nil => exact .positive ⟨by simp, by simp⟩
    | cons c u =>
      obtain ⟨rfl, hrest⟩ := List.cons_prefix_cons.mp hu
      exact .negative (h.of_sublist hrest.sublist)

theorem IsShown.of_start (h : IsShown t) (hu : u <+: t) : IsShown u :=
  h.imp (fun h c hc => h c (hu.subset hc)) fun h => h.of_start hu

/-! ## Texts of floats -/

theorem isUnsigned_of_forall (h : ∀ c ∈ t, c.isDigit) : IsUnsigned t where
  isFigureChar c hc := by rw [Number.isFigureChar, h c hc, Bool.true_or]
  count_le := by
    rw [List.count_eq_zero.mpr fun hmem => absurd (h '.' hmem) (by decide)]
    exact Nat.zero_le 1

/-- Digits with a point between them. -/
theorem IsUnsigned.append_point (ha : IsUnsigned a) (hpoint : a.count '.' = 0)
    (hb : ∀ c ∈ b, c.isDigit) : IsUnsigned (a ++ '.' :: b) where
  isFigureChar c hc := by
    rcases List.mem_append.mp hc with hc | hc
    · exact ha.isFigureChar c hc
    · rcases List.mem_cons.mp hc with rfl | hc
      · decide
      · exact (isUnsigned_of_forall hb).isFigureChar c hc
  count_le := by
    rw [List.count_append, List.count_cons_self, hpoint,
      List.count_eq_zero.mpr fun hmem => absurd (hb '.' hmem) (by decide)]

theorem count_point_eq_zero (h : ∀ c ∈ t, c.isDigit) : t.count '.' = 0 :=
  List.count_eq_zero.mpr fun hmem => absurd (h '.' hmem) (by decide)

theorem isUnsigned_unitsText (n places : Nat) : IsUnsigned (Decimal.unitsText n places) := by
  have hwhole : ∀ c ∈ Decimal.digitsOf (n / 10 ^ places), c.isDigit := fun _ =>
    Decimal.isDigit_of_mem_digitsOf
  rw [Decimal.unitsText]
  split
  · exact isUnsigned_of_forall hwhole
  · exact (isUnsigned_of_forall hwhole).append_point (count_point_eq_zero hwhole) fun _ =>
      Decimal.isDigit_of_mem_padded

theorem isDigitless_nonfiniteText (x : Float) : IsDigitless (Decimal.nonfiniteText x) := by
  rw [Decimal.nonfiniteText]
  split
  · decide
  · split <;> decide

theorem isShown_fixed (x : Float) (places : Nat) : IsShown (Decimal.fixed x places) := by
  rw [Decimal.fixed]
  split
  · exact .inl (isDigitless_nonfiniteText x)
  · rw [Decimal.magnitudeText_eq]
    split
    · exact .inr (.negative (isUnsigned_unitsText ..))
    · exact .inr (.positive (isUnsigned_unitsText ..))

/-- A magnitude is shown without a sign. -/
theorem fixed_abs (x : Float) (places : Nat) :
    IsDigitless (Decimal.fixed x.abs places) ∨ IsUnsigned (Decimal.fixed x.abs places) := by
  rw [Decimal.fixed]
  split
  · exact .inl (isDigitless_nonfiniteText _)
  · rename_i b hb
    rw [Binary.negative_of_ofFloat?_abs hb, Decimal.magnitudeText_eq]
    exact .inr (isUnsigned_unitsText ..)

theorem dropWhileEnd_prefix_self (p : Char → Bool) (t : Text) : Text.dropWhileEnd p t <+: t :=
  ⟨_, Text.dropWhileEnd_append_takeWhileEnd p t⟩

theorem IsShown.trimZeros (h : IsShown t) : IsShown (trimZeros t) := by
  have hzero : IsShown ['0'] := .inr (.positive (isUnsigned_of_forall (by decide)))
  unfold Number.trimZeros
  extract_lets trimmed
  have htrimmed : IsShown trimmed := by
    unfold trimmed
    split
    · exact h.of_start ((dropWhileEnd_prefix_self ..).trans (dropWhileEnd_prefix_self ..))
    · exact h
  split
  · exact hzero
  · exact htrimmed

theorem isShown_decimalText (x : Float) (places : Nat) : IsShown (decimalText x places) :=
  (isShown_fixed x places).trimZeros

theorem mem_groupFrom {n : Nat} (h : c ∈ groupFrom t n) : c ∈ t ∨ c = ',' := by
  fun_induction groupFrom t n with
  | case1 => cases h
  | case2 => exact .inl h
  | case3 size d t ht grouped hsize ih =>
    simp only [List.mem_cons] at h ⊢
    rcases h with rfl | rfl | h
    · exact .inl (.inl rfl)
    · exact .inr rfl
    · exact (ih h).imp_left .inr
  | case4 size d t ht grouped hsize ih =>
    simp only [List.mem_cons] at h ⊢
    exact h.elim (.inl ∘ .inl) fun h => (ih h).imp_left .inr

theorem mem_groupThousands (h : c ∈ groupThousands t) : c ∈ t ∨ c = ',' := mem_groupFrom h

theorem count_point_whole (t : Text) :
    (groupThousands (t.takeWhile (· != '.'))).count '.' = 0 := by
  refine List.count_eq_zero.mpr fun hmem => ?_
  rcases mem_groupThousands hmem with hmem | hmem
  · exact absurd (List.mem_takeWhile_imp hmem) (by decide)
  · cases hmem

/-- The cents stand behind the only point. -/
theorem count_point_cents (h : t.count '.' ≤ 1) :
    (t.dropWhile (· != '.')).tail.count '.' = 0 := by
  cases hdrop : t.dropWhile (· != '.') with
  | nil => rfl
  | cons c cents =>
    have hpoint : c = '.' := by
      have hnot := List.head?_dropWhile_not (· != '.') t
      rw [hdrop] at hnot
      simpa using hnot
    have hcount := ((List.dropWhile_sublist (· != '.')).count_le '.').trans h
    rw [hdrop, hpoint, List.count_cons_self] at hcount
    rw [List.tail_cons]
    omega

/-- An amount of money, with the whole part of a magnitude grouped and its cents behind the point. -/
theorem isShown_amount (h : IsDigitless t ∨ IsUnsigned t) :
    let amount := '$' :: groupThousands (t.takeWhile (· != '.')) ++
      '.' :: (t.dropWhile (· != '.')).tail
    IsDigitless amount ∨ IsUnsigned amount := by
  intro amount
  have hmem : ∀ c ∈ amount, c ∈ t ∨ c = '$' ∨ c = ',' ∨ c = '.' := by
    intro c hc
    simp only [amount, List.cons_append, List.mem_cons, List.mem_append] at hc
    rcases hc with rfl | hc | rfl | hc
    · exact .inr (.inl rfl)
    · exact (mem_groupThousands hc).imp (List.takeWhile_sublist _).mem (.inr ∘ .inl)
    · exact .inr (.inr (.inr rfl))
    · exact .inl ((List.dropWhile_sublist _).mem (List.mem_of_mem_tail hc))
  refine h.imp (fun h c hc => ?_) fun h => ⟨fun c hc => ?_, ?_⟩
  · rcases hmem c hc with hc | rfl | rfl | rfl
    · exact h c hc
    all_goals decide
  · rcases hmem c hc with hc | rfl | rfl | rfl
    · exact h.isFigureChar c hc
    all_goals decide
  · -- the one point of the amount is that between its parts
    simp only [amount, List.cons_append, List.count_cons, List.count_append, count_point_whole,
      count_point_cents h.count_le]
    decide

/-- **An amount of money is shown as a figure.** -/
theorem isShown_currencyText? {x : Float} (h : currencyText? x = some t) : IsShown t := by
  rw [currencyText?] at h
  split at h
  · have hamount := isShown_amount (fixed_abs x 2)
    obtain rfl := Option.some.inj h
    split
    · refine hamount.imp (fun h c hc => ?_) .negative
      rcases List.mem_cons.mp hc with rfl | hc
      · decide
      · exact h c hc
    · exact hamount.imp_right .positive
  · cases h

/-- **A result is shown as a figure.** -/
theorem isShown_resultText? {x : Float} (h : resultText? x = some t) : IsShown t := by
  unfold resultText? at h
  split at h
  · extract_lets rounded at h
    split at h
    · obtain rfl := Option.some.inj h
      split
      · exact .inr (.positive (isUnsigned_of_forall (by decide)))
      · exact isShown_fixed ..
    · obtain rfl := Option.some.inj h
      exact isShown_decimalText ..
  · cases h

end Number

end Snippet
