import Snippet.Number.Display
import Snippet.Proofs.Number.FloatParts
import Snippet.Proofs.Number.Grouping
import Snippet.Proofs.Number.Marks
import Snippet.Proofs.Number.Numerals

/-!
# Amounts are read back

A whole number is shown in groups of three with commas between them (`isThousands_groupThousands`),
and an amount of money in this way with a sign, a dollar sign and its cents. What is shown is read
back as it was before it was grouped (`normalize?_shown`): the sign and the dollar sign are taken
off, the commas are dropped and the point stays.
-/

namespace Snippet.Number

variable {w s t u g f whole cents marks : Text} {mark c : Char} {sign : Option Char}
  {dollar : Bool} {x : Float}

/-! ## Groups between the marks -/

namespace Grouped

theorem ne_nil (h : Grouped mark w s) : s ≠ [] := by
  cases h with
  | first hne _ => exact hne
  | group _ _ => simp

/-- A spelling in groups starts like its digits. -/
theorem head?_eq (h : Grouped mark w s) : s.head? = w.head? := by
  induction h with
  | first _ _ => rfl
  | @group w s g h _ ih =>
    obtain ⟨c, s, rfl⟩ := List.exists_cons_of_ne_nil h.ne_nil
    cases w with
    | nil => cases ih
    | cons d w => exact ih

/-- A spelling in groups ends like its digits. -/
theorem getLast?_eq (h : Grouped mark w s) : s.getLast? = w.getLast? := by
  cases h with
  | first _ _ => rfl
  | @group w s g _ hlength =>
    have hne : g ≠ [] := by
      rintro rfl
      cases hlength
    rw [List.getLast?_append_of_ne_nil _ hne, List.append_cons,
      List.getLast?_append_of_ne_nil _ hne]

/-- The pieces between the marks are the groups. -/
theorem splitOn_eq (h : Grouped mark w s) (hw : mark ∉ w) :
    ∃ first rest, s.splitOn mark = first :: rest ∧ first ≠ [] ∧ first.length ≤ 3 ∧
      ∀ g ∈ rest, g.length = 3 := by
  induction h with
  | @first g hne hlength =>
    exact ⟨g, [], List.splitOn_eq_singleton hw, hne, hlength, by simp⟩
  | @group w s g _ hlength ih =>
    rw [List.mem_append, not_or] at hw
    -- the last group has no mark, so the one in front of it splits it off
    obtain ⟨first, rest, hsplit, hne, hfirst, hrest⟩ := ih hw.1
    refine ⟨first, rest ++ [g], ?_, hne, hfirst, ?_⟩
    · rw [List.splitOn_append_cons_self, hsplit, List.splitOn_eq_singleton hw.2, List.cons_append]
    · rw [List.forall_mem_append, List.forall_mem_singleton]
      exact ⟨hrest, hlength⟩

end Grouped

/-- A text that shows digits in groups of three, counted from the end, with commas between them. -/
structure IsThousands (digits shown : Text) : Prop where
  filter_eq : shown.filter (· != ',') = digits
  head?_ne : shown.head? ≠ some ','
  getLast?_ne : shown.getLast? ≠ some ','
  splitOn_eq : ∃ first rest, shown.splitOn ',' = first :: rest ∧
    (1 ≤ first.length ∧ first.length ≤ 3) ∧ ∀ g ∈ rest, g.length = 3

theorem comma_not_mem (h : ∀ c ∈ w, c.isDigit) : ',' ∉ w := fun hmem =>
  absurd (h ',' hmem) (by decide)

/-- **A whole number is shown in groups of three.** -/
theorem isThousands_groupThousands (hne : w ≠ []) (hw : ∀ c ∈ w, c.isDigit) :
    IsThousands w (groupThousands w) where
  filter_eq := by
    have hgrouped := grouped_groupThousands hne hw
    refine Eq.trans ?_ (hgrouped.digits_eq (by decide) hw)
    refine List.filter_congr fun c hc => ?_
    -- only digits and commas are shown
    rcases hgrouped.mem_or hc with hc | rfl
    · rw [hw c hc, bne_iff_ne]
      rintro rfl
      exact comma_not_mem hw hc
    · rfl
  head?_ne := by
    rw [(grouped_groupThousands hne hw).head?_eq]
    exact fun hhead => comma_not_mem hw (List.mem_of_head? hhead)
  getLast?_ne := by
    rw [(grouped_groupThousands hne hw).getLast?_eq]
    exact fun hlast => comma_not_mem hw (List.mem_of_getLast? hlast)
  splitOn_eq := by
    obtain ⟨first, rest, hsplit, hfirst, hlength, hrest⟩ :=
      (grouped_groupThousands hne hw).splitOn_eq (comma_not_mem hw)
    exact ⟨first, rest, hsplit, ⟨List.length_pos_iff.mpr hfirst, hlength⟩, hrest⟩

/-! ## Signs and dollar signs -/

/-- ASCII digits and separators, with a digit. -/
structure IsRun (u : Text) : Prop where
  isDigit_or : ∀ c ∈ u, c.isDigit || isSeparator c
  exists_isDigit : ∃ c ∈ u, c.isDigit

namespace IsRun

theorem of_isDigit (hne : w ≠ []) (hw : ∀ c ∈ w, c.isDigit) : IsRun w where
  isDigit_or c hc := by rw [hw c hc, Bool.true_or]
  exists_isDigit := ⟨w.head hne, List.head_mem hne, hw _ (List.head_mem hne)⟩

variable (h : IsRun u)
include h

theorem not_mem (hc : (c.isDigit || isSeparator c) = false) : c ∉ u := by
  intro hmem
  rw [h.isDigit_or c hmem] at hc
  cases hc

theorem isWhite_eq_false : ∀ c ∈ u, Text.isWhite c = false := by
  intro c hc
  rcases Bool.or_eq_true_iff.mp (h.isDigit_or c hc) with hdigit | hsep
  · exact Text.isWhite_eq_false_of_isDigit (Text.isDigit_of_isDigit hdigit)
  · rw [isSeparator, Bool.or_eq_true, beq_iff_eq, beq_iff_eq] at hsep
    rcases hsep with rfl | rfl <;> rfl

/-- Nothing can be taken off a run of digits and separators. -/
theorem stripped (hmarks : Marks sign dollar marks) : Stripped (marks ++ u) sign u where
  exists_marks := ⟨[], marks, dollar, [], rfl, hmarks, rfl, by simp,
    fun _ hhead => h.not_mem (by decide) (List.mem_of_head? hhead)⟩
  head?_not_sign _ c hc := by
    rintro (rfl | rfl) <;> exact h.not_mem (by decide) (List.mem_of_mem_head? hc)
  head?_not_white c hc := h.isWhite_eq_false c (List.mem_of_mem_head? hc)
  getLast?_not_white c hc := h.isWhite_eq_false c (List.mem_of_getLast? hc)

theorem splitAmount_append (hmarks : Marks sign dollar marks) :
    splitAmount (marks ++ u) = (sign == some '-', u) := (h.stripped hmarks).splitAmount_eq

theorem splitAmount_eq : splitAmount u = (false, u) := h.splitAmount_append .nothing

theorem splitAmount_dollar : splitAmount ('$' :: u) = (false, u) :=
  h.splitAmount_append (.dollar (w := []) rfl)

theorem splitAmount_neg : splitAmount ('-' :: u) = (true, u) :=
  h.splitAmount_append (.sign (w := []) (.inl rfl) rfl)

theorem splitAmount_minus : splitAmount ('-' :: '$' :: u) = (true, u) :=
  h.splitAmount_append (.signDollar (w := []) (v := []) (.inl rfl) rfl rfl)

/-- A run of digits and separators behind a sign is read as its resolved form. -/
theorem normalize?_eq {negative : Bool} (ht : splitAmount t = (negative, u)) :
    normalize? t = some (if negative then '-' :: resolve u else resolve u) := by
  have hany : u.any Char.isDigit := List.any_eq_true.mpr h.exists_isDigit
  have hall : u.all fun c => c.isDigit || isSeparator c := List.all_eq_true.mpr h.isDigit_or
  rw [normalize?, ht]
  dsimp only
  rw [hany, hall, Bool.true_and, if_pos rfl]

end IsRun

/-! ## Reading back -/

section

variable (hne : w ≠ []) (hw : ∀ c ∈ w, c.isDigit)
include hne hw

theorem isDigit_or_of_mem_groupThousands (hc : c ∈ groupThousands w) : c.isDigit ∨ c = ',' :=
  ((grouped_groupThousands hne hw).mem_or hc).imp_left (hw c)

theorem isRun_groupThousands : IsRun (groupThousands w) where
  isDigit_or c hc := by
    rcases isDigit_or_of_mem_groupThousands hne hw hc with hc | rfl
    · rw [hc, Bool.true_or]
    · rfl
  exists_isDigit := by
    obtain ⟨c, hc, hdigit⟩ := (IsRun.of_isDigit hne hw).exists_isDigit
    have hgrouped := grouped_groupThousands hne hw
    rw [← hgrouped.digits_eq (by decide) hw, digits, List.mem_filter] at hc
    exact ⟨c, hc.1, hdigit⟩

variable (hf : ∀ c ∈ f, c.isDigit)
include hf

theorem isRun_groupThousands_point : IsRun (groupThousands w ++ '.' :: f) where
  isDigit_or := by
    rw [List.forall_mem_append, List.forall_mem_cons]
    exact ⟨(isRun_groupThousands hne hw).isDigit_or, rfl, fun c hc => by rw [hf c hc, Bool.true_or]⟩
  exists_isDigit := by
    obtain ⟨c, hc, hdigit⟩ := (isRun_groupThousands hne hw).exists_isDigit
    exact ⟨c, List.mem_append_left _ hc, hdigit⟩

/-- The point behind the groups is the decimal mark. -/
theorem resolve_groupThousands_point : resolve (groupThousands w ++ '.' :: f) = w ++ '.' :: f := by
  rw [resolve_point (fun c hc => isDigit_or_of_mem_groupThousands hne hw hc) hf,
    (grouped_groupThousands hne hw).digits_eq (by decide) hw]

end

/-! ## Amounts of money -/

/-- The magnitude of a finite float has digits and two decimal places. -/
theorem exists_fixed_abs (h : x.isFinite) : ∃ whole cents, whole ≠ [] ∧ (∀ c ∈ whole, c.isDigit) ∧
    (∀ c ∈ cents, c.isDigit) ∧ Decimal.fixed x.abs 2 = whole ++ '.' :: cents := by
  obtain ⟨b, hb, hnegative⟩ := Binary.exists_ofFloat?_abs h
  refine ⟨Decimal.digitsOf (b.units 2 / 10 ^ 2), Decimal.padded 2 (b.units 2 % 10 ^ 2),
    Decimal.digitsOf_ne_nil _, fun _ => Decimal.isDigit_of_mem_digitsOf,
    fun _ => Decimal.isDigit_of_mem_padded, ?_⟩
  rw [Decimal.fixed_eq hb, hnegative]
  rfl

/-- The amount of a float is shown with a minus: the float is negative, and the digits of its
magnitude are not all zero. -/
def HasMinus (x : Float) : Prop := x < 0.0 ∧ ∃ c ∈ Decimal.fixed x.abs 2, c ≠ '0' ∧ c ≠ '.'

/-- The amount of a finite float shows the digits of its magnitude. -/
theorem currencyText?_eq (h : x.isFinite) (hwhole : ∀ c ∈ whole, c.isDigit)
    (hfixed : Decimal.fixed x.abs 2 = whole ++ '.' :: cents) :
    (HasMinus x → currencyText? x = some ('-' :: '$' :: (groupThousands whole ++ '.' :: cents))) ∧
      (¬ HasMinus x → currencyText? x = some ('$' :: (groupThousands whole ++ '.' :: cents))) := by
  have hpoint : ∀ c ∈ whole, (c != '.') = true := by
    intro c hc
    rw [bne_iff_ne]
    rintro rfl
    exact absurd (hwhole _ hc) (by decide)
  have htake : (whole ++ '.' :: cents).takeWhile (· != '.') = whole := by
    rw [List.takeWhile_append_of_pos hpoint, List.takeWhile_cons_of_neg (by decide),
      List.append_nil]
  have hdrop : (whole ++ '.' :: cents).dropWhile (· != '.') = '.' :: cents := by
    rw [List.dropWhile_append_of_pos hpoint, List.dropWhile_cons_of_neg (by decide)]
  have hminus : (x < 0.0 && (Decimal.fixed x.abs 2).any fun c => c != '0' && c != '.') = true ↔
      HasMinus x := by
    rw [HasMinus, Bool.and_eq_true, decide_eq_true_eq, List.any_eq_true]
    simp only [Bool.and_eq_true, bne_iff_ne]
  rw [← hminus, currencyText?, if_pos h, hfixed]
  dsimp only
  rw [htake, hdrop, List.tail_cons]
  exact ⟨fun hneg => by rw [if_pos hneg]; rfl, fun hneg => by rw [if_neg hneg]; rfl⟩

/-- **What is shown is read back.** A whole number in groups of three is read as its digits, also in
front of a fraction. An amount of money is read as the digits of its magnitude, with a minus exactly
if it is negative and its digits are not all zero. -/
theorem normalize?_shown :
    (∀ w : Text, w ≠ [] → (∀ c ∈ w, c.isDigit) →
      IsThousands w (groupThousands w) ∧ normalize? (groupThousands w) = some w ∧
      ∀ f : Text, (∀ c ∈ f, c.isDigit) →
        normalize? (groupThousands w ++ '.' :: f) = some (w ++ '.' :: f)) ∧
    ∀ x : Float, x.isFinite → ∃ shown, currencyText? x = some shown ∧
      (HasMinus x → normalize? shown = some ('-' :: Decimal.fixed x.abs 2)) ∧
      (¬ HasMinus x → normalize? shown = some (Decimal.fixed x.abs 2)) := by
  refine ⟨fun w hne hw => ⟨isThousands_groupThousands hne hw, ?_, fun f hf => ?_⟩, fun x h => ?_⟩
  · have hrun := isRun_groupThousands hne hw
    rw [hrun.normalize?_eq hrun.splitAmount_eq, if_neg Bool.false_ne_true,
      (grouped_groupThousands hne hw).resolve_eq rfl hw (.inl rfl)]
  · have hrun := isRun_groupThousands_point hne hw hf
    rw [hrun.normalize?_eq hrun.splitAmount_eq, if_neg Bool.false_ne_true,
      resolve_groupThousands_point hne hw hf]
  · obtain ⟨whole, cents, hne, hwhole, hcents, hfixed⟩ := exists_fixed_abs h
    have hshown := currencyText?_eq h hwhole hfixed
    have hrun := isRun_groupThousands_point hne hwhole hcents
    rw [hfixed]
    by_cases hminus : HasMinus x
    · refine ⟨_, hshown.1 hminus, fun _ => ?_, fun hnot => absurd hminus hnot⟩
      rw [hrun.normalize?_eq hrun.splitAmount_minus, if_pos rfl,
        resolve_groupThousands_point hne hwhole hcents]
    · refine ⟨_, hshown.2 hminus, fun hyes => absurd hyes hminus, fun _ => ?_⟩
      rw [hrun.normalize?_eq hrun.splitAmount_dollar, if_neg Bool.false_ne_true,
        resolve_groupThousands_point hne hwhole hcents]

/-- Millions are read back from their groups, and an amount below zero with its sign. -/
theorem normalize?_shown_negative :
    (normalize? (groupThousands "1234567".toList) = some "1234567".toList ∧
      normalize? (groupThousands "1234567".toList ++ '.' :: "089".toList) =
        some "1234567.089".toList) ∧
      ∃ shown, currencyText? (-1234.5) = some shown ∧
        normalize? shown = some "-1234.50".toList := by
  have hw : ∀ c ∈ "1234567".toList, c.isDigit := by decide
  have hf : ∀ c ∈ "089".toList, c.isDigit := by decide
  have hfixed : Decimal.fixed (Float.abs (-1234.5)) 2 = "1234.50".toList := by decide +kernel
  have hminus : HasMinus (-1234.5) := by
    refine ⟨by decide +kernel, '1', ?_, by decide, by decide⟩
    rw [hfixed]
    decide
  obtain ⟨-, hwhole, hpoint⟩ := normalize?_shown.1 "1234567".toList (by decide) hw
  obtain ⟨shown, hshown, hread, -⟩ := normalize?_shown.2 (-1234.5) (by decide +kernel)
  rw [hfixed] at hread
  exact ⟨⟨hwhole, hpoint "089".toList hf⟩, shown, hshown, hread hminus⟩

end Snippet.Number
