import Snippet.Proofs.Arithmetic.Cleaning
import Snippet.Proofs.Arithmetic.Numerals
import Snippet.Proofs.Pattern.Replacement

/-!
# Localized expressions

An expression may have each of its numerals in a spelling of its own (`Localizes`). The resolution
of separators goes through such a text from left to right and finds exactly the numerals, so it
gives back the expression (`Localizes.resolveAll_eq`). With white space and dollar signs anywhere in
it the text cleans to what the expression itself is written out to (`clean?_of_localizes`).
-/

namespace Snippet.Arithmetic

open Regex Pattern Number

variable {e s t u w : Text} {c : Char}

/-- The text is the expression with every numeral in one of its spellings. -/
inductive Localizes : (e s : Text) → Prop where
  | nil : Localizes [] []
  /-- A character that belongs to no number. -/
  | other {c : Char} {e s : Text} : isNumberChar c = false → Localizes e s →
      Localizes (c :: e) (c :: s)
  | numeral {n : Numeral} {u e s : Text} : n.Spells u → NoneNext isNumberChar e → Localizes e s →
      Localizes (n.text ++ e) (u ++ s)

namespace Localizes

/-- What does not go on with a number is not localized to a text that does. -/
theorem noneNext (h : Localizes e s) (he : NoneNext isNumberChar e) : NoneNext isNumberChar s := by
  cases h with
  | nil => exact he
  | other hc _ => exact (StartsOutside.cons hc).noneNext
  | @numeral n u e s hu _ _ =>
    exfalso
    obtain ⟨c, t, ht⟩ := List.exists_cons_of_ne_nil n.text_ne_nil
    have hchar := forall_mem_of_localizedNumber Numeral.Spells.plain.reads c (by
      rw [ht]
      exact List.mem_cons_self ..)
    rw [he c (by rw [ht]; rfl)] at hchar
    cases hchar

/-- Characters that belong to no number, in front of an expression. -/
theorem append (hw : ∀ c ∈ w, isNumberChar c = false) (h : Localizes e s) :
    Localizes (w ++ e) (w ++ s) := by
  induction w with
  | nil => exact h
  | cons c w ih =>
    rw [List.forall_mem_cons] at hw
    exact .other hw.1 (ih hw.2)

/-- The numerals are what the pattern of numbers takes. -/
theorem rewrites (h : Localizes e s) : localizedNumber.Rewrites resolve s e := by
  induction h with
  | nil => exact .nil
  | other hc _ ih =>
    refine .skip (fun u v huv hread => ?_) ih
    obtain ⟨-, hhead, -⟩ := reads_localizedNumber_iff.mp hread
    cases u with
    | nil => cases hhead
    | cons d u =>
      obtain rfl := (List.cons.inj huv).1
      rw [forall_mem_of_localizedNumber hread _ (List.mem_cons_self ..)] at hc
      cases hc
  | @numeral n u e s hu he h ih =>
    have hne : u ≠ [] := by
      rintro rfl
      exact absurd (reads_localizedNumber_iff.mp hu.reads).2.1 Bool.false_ne_true
    rw [← hu.resolve_eq]
    exact .take (takes_localizedNumber hu.reads) hne (h.noneNext he) ih

/-- **Every localized form of an expression is resolved to the expression.** -/
theorem resolveAll_eq (h : Localizes e s) : resolveAll s = e :=
  h.rewrites.replaceAll_eq fun hnil =>
    absurd (reads_localizedNumber_iff.mp hnil).2.1 Bool.false_ne_true

end Localizes

/-! ## The plain form -/

/-- In every stretch of digits and points there is at most one point, with digits on both sides. -/
def PointsAreDecimal (e : Text) : Prop :=
  ∀ run ∈ e.splitOnP (!isNumeric ·),
    run.count '.' ≤ 1 ∧ run.head? ≠ some '.' ∧ run.getLast? ≠ some '.'

instance (e : Text) : Decidable (PointsAreDecimal e) :=
  inferInstanceAs (Decidable (∀ run ∈ e.splitOnP (!isNumeric ·), _))

/-- Digits with a point between them are a numeral. -/
theorem exists_numeral (hne : u ≠ []) (hu : ∀ c ∈ u, isNumeric c) (hcount : u.count '.' ≤ 1)
    (hhead : u.head? ≠ some '.') (hlast : u.getLast? ≠ some '.') : ∃ n : Numeral, n.text = u := by
  have hdigit : ∀ {w : Text}, (∀ c ∈ w, isNumeric c) → '.' ∉ w → ∀ c ∈ w, c.isDigit := by
    intro w hw hpoint c hc
    have hor := hw c hc
    rw [isNumeric, Bool.or_eq_true, beq_iff_eq] at hor
    refine hor.resolve_right ?_
    rintro rfl
    exact hpoint hc
  by_cases hpoint : '.' ∈ u
  · obtain ⟨a, b, rfl⟩ := List.append_of_mem hpoint
    rw [List.forall_mem_append, List.forall_mem_cons] at hu
    rw [List.count_append, List.count_cons_self] at hcount
    have ha : '.' ∉ a := List.count_eq_zero.mp (by omega)
    have hb : '.' ∉ b := List.count_eq_zero.mp (by omega)
    have hane : a ≠ [] := by
      rintro rfl
      exact hhead rfl
    have hbne : b ≠ [] := by
      rintro rfl
      exact hlast List.getLast?_concat
    exact Numeral.exists_of_parts hane (hdigit hu.1 ha) hbne (hdigit hu.2.2 hb)
  · exact Numeral.exists_of_whole hne (hdigit hu hpoint)

theorem splitOnP_eq_singleton (hw : ∀ c ∈ w, isNumeric c) : w.splitOnP (!isNumeric ·) = [w] :=
  List.splitOnP_eq_singleton fun c hc => by simp [hw c hc]

/-- A stretch of digits and points in front of an expression that is localized. -/
theorem localizes_append (hw : ∀ c ∈ w, isNumeric c)
    (hpoints : w.count '.' ≤ 1 ∧ w.head? ≠ some '.' ∧ w.getLast? ≠ some '.')
    (hnext : NoneNext isNumberChar e) (h : Localizes e e) : Localizes (w ++ e) (w ++ e) := by
  by_cases hne : w = []
  · rwa [hne]
  · obtain ⟨n, rfl⟩ := exists_numeral hne hw hpoints.1 hpoints.2.1 hpoints.2.2
    exact .numeral .plain hnext h

/-- A clean character beside digits and points belongs to no number. -/
theorem isNumberChar_of_isClean (hc : isClean c) (hnumeric : isNumeric c = false) :
    isNumberChar c = false := by
  refine isNumberChar_of_isOperatorOrParen ?_
  rw [isNumeric] at hnumeric
  rwa [isClean, hnumeric, Bool.false_or] at hc

/-- An expression with its numerals written plainly is localized. -/
theorem localizes_self (hclean : ∀ c ∈ e, isClean c) (hpoints : PointsAreDecimal e) :
    Localizes e e := by
  -- by induction on what is left behind a stretch of digits and points
  suffices h : ∀ w : Text, (∀ c ∈ w, isNumeric c) → PointsAreDecimal (w ++ e) →
      Localizes (w ++ e) (w ++ e) from h [] (by simp) hpoints
  clear hpoints
  induction e with
  | nil =>
    intro w hw hpoints
    rw [PointsAreDecimal, List.append_nil, splitOnP_eq_singleton hw, List.forall_mem_singleton]
      at hpoints
    exact localizes_append hw hpoints (by simp [NoneNext]) .nil
  | cons c e ih =>
    rw [List.forall_mem_cons] at hclean
    intro w hw hpoints
    by_cases hc : isNumeric c
    · have hmore := ih hclean.2 (w ++ [c]) (by simpa [or_imp, forall_and] using ⟨hw, hc⟩)
      rw [List.append_assoc] at hmore
      exact hmore hpoints
    · rw [Bool.not_eq_true] at hc
      have hsplit := List.splitOnP_append_cons (p := (!isNumeric ·)) w e
        (show (!isNumeric c) = true by rw [hc]; rfl)
      rw [PointsAreDecimal, hsplit, splitOnP_eq_singleton hw, List.singleton_append,
        List.forall_mem_cons] at hpoints
      have hother := isNumberChar_of_isClean hclean.1 hc
      exact localizes_append hw hpoints.1 (StartsOutside.cons hother).noneNext
        (.other hother (ih hclean.2 [] (by simp) hpoints.2))

/-! ## Cleaning -/

/-- **All localized forms of an expression, with white space and dollar signs anywhere, clean to
what the expression is written out to.** -/
theorem clean?_of_localizes (hne : e ≠ []) (hclean : e.all isClean) (hpoints : PointsAreDecimal e) :
    Localizes e e ∧
      ∀ s t, Localizes e s → strip t = s → clean? t = some (expandPercentages e) := by
  refine ⟨localizes_self (List.all_eq_true.mp hclean) hpoints, ?_⟩
  rintro _ t h rfl
  obtain ⟨hne, hclean⟩ := isClean_expandPercentages hne hclean
  rw [clean?_eq_some_iff, h.resolveAll_eq]
  exact ⟨rfl, hne, hclean⟩

/-- A European numeral and an American one in the same text. -/
theorem clean?_of_mixed_spellings :
    clean? "$ 1.234,5 + 1,234,567".toList = some "1234.5+1234567".toList := by
  let price : Numeral :=
    ⟨⟨"1234".toList, some ['5'], by decide, by decide, by decide⟩, by decide, by decide⟩
  let count : Numeral :=
    ⟨⟨"1234567".toList, none, by decide, by decide, by decide⟩, by decide, by decide⟩
  have hprice : price.Spells ("1.234".toList ++ ',' :: ['5']) :=
    .european rfl (.group (g := ['2', '3', '4']) (.first (g := ['1']) (by decide) (by decide)) rfl)
      (.inl (by decide))
  have hcount : count.Spells ("1,234,567".toList ++ []) :=
    .american (.group (g := ['5', '6', '7']) (.group (g := ['2', '3', '4'])
      (.first (g := ['1']) (by decide) (by decide)) rfl) rfl)
  have hlocalizes := Localizes.numeral hprice (StartsOutside.cons (x := '+') rfl).noneNext
    (.other rfl (.numeral hcount (by simp [NoneNext]) .nil))
  have hclean := clean?_of_localizes (e := price.text ++ '+' :: (count.text ++ []))
    (by decide) (by decide) (by decide)
  rw [hclean.2 _ _ hlocalizes (by decide)]
  decide +kernel

end Snippet.Arithmetic
