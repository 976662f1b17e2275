import Snippet.Proofs.Detection.Undetected
import Snippet.Proofs.Number.Figures

/-!
# Figures are undetected

A figure has no operation, so it is not replaced by arithmetic, and it has nothing of the other
shapes but that of a phone number (`Number.IsFigure.undetected`).
-/

namespace Snippet

open Pattern

namespace Number

variable {t : Text} {c : Char}

theorem cases_of_isFigureChar (h : isFigureChar c) : c.isDigit ∨ c = '.' ∨ c = ',' ∨ c = '$' := by
  simpa [isFigureChar] using h

theorem isArithmetic_of_isFigureChar (h : isFigureChar c) : isArithmetic c := by
  rcases cases_of_isFigureChar h with h | rfl | rfl | rfl
  · exact isArithmetic_of_isDigit (Text.isDigit_of_isDigit h)
  all_goals decide

namespace IsFigure

theorem forall_mem {p : Char → Prop} (h : IsFigure t) (hchar : ∀ c, isFigureChar c → p c)
    (hminus : p '-') : ∀ c ∈ t, p c := by
  cases h with
  | positive h => exact fun c hc => hchar c (h.isFigureChar c hc)
  | negative h =>
    rw [List.forall_mem_cons]
    exact ⟨hminus, fun c hc => hchar c (h.isFigureChar c hc)⟩

theorem isArithmetic (h : IsFigure t) : ∀ c ∈ t, Pattern.isArithmetic c :=
  h.forall_mem (fun _ => isArithmetic_of_isFigureChar) (by decide)

theorem count_le {x : Char} (h : IsFigure t) (hx : isFigureChar x = false) : t.count x ≤ 1 := by
  have hbody : ∀ {u}, IsUnsigned u → u.count x = 0 := by
    intro u hu
    refine List.count_eq_zero.mpr fun hmem => ?_
    rw [hu.isFigureChar x hmem] at hx
    cases hx
  cases h with
  | positive h => simp [hbody h]
  | negative h =>
    rw [List.count_cons, hbody h]
    split <;> decide

theorem count_point_le (h : IsFigure t) : t.count '.' ≤ 1 := by
  cases h with
  | positive h => exact h.count_le
  | negative h => simpa using h.count_le

theorem noNumericDate (h : IsFigure t) : NoNumericDate t := by
  refine .of_count ?_ h.count_point_le (h.count_le (by decide))
  exact fun hslash => absurd rfl
    (h.forall_mem (p := (· ≠ '/')) (by rintro _ hc rfl; cases hc) (by decide) _ hslash)

theorem dateless (h : IsFigure t) : Dateless t :=
  .of_noNumericDate h.noNumericDate (.of_isArithmetic h.isArithmetic)

theorem trim_eq (h : IsFigure t) : Text.trim t = t := by
  have hwhite : ∀ c ∈ t, Text.isWhite c = false := by
    refine h.forall_mem (fun c hc => ?_) (by decide)
    rcases cases_of_isFigureChar hc with hc | rfl | rfl | rfl
    · exact Text.isWhite_eq_false_of_isDigit (Text.isDigit_of_isDigit hc)
    all_goals decide
  exact Text.trim_eq_self (fun c hc => hwhite c (List.mem_of_head? hc))
    fun c hc => hwhite c (List.mem_of_getLast? hc)

end IsFigure

/-- A number starts with a digit, so any other first character is kept where it is. -/
theorem resolveAll_cons (hc : Text.isDigit c = false) :
    ∃ s, resolveAll (c :: t) = c :: s := by
  have hreplaces := Pattern.localizedNumber.replaces resolve (c :: t)
  rw [resolveAll]
  generalize Pattern.localizedNumber.replaceAll resolve (c :: t) = t' at hreplaces
  generalize (Pattern.localizedNumber.findAll (c :: t)).map (·.text (c :: t)) = us at hreplaces
  generalize hrest : c :: t = rest at hreplaces
  cases hreplaces with
  | nil => cases hrest
  | keep _ =>
    obtain ⟨rfl, rfl⟩ := List.cons.inj hrest
    exact ⟨_, rfl⟩
  | piece hread _ =>
    obtain ⟨d, v, rfl, hd⟩ := hread.exists_cons (p := (Text.isDigit ·))
      ⟨.inl fun _ => id, fun _ => id⟩
    obtain rfl := (List.cons.inj hrest).1
    rw [hd] at hc
    cases hc

end Number

namespace Arithmetic

variable {t e : Text}

theorem isNumberChar_of_isFigureChar {c : Char} (h : Number.isFigureChar c) (hc : c ≠ '$') :
    isNumberChar c := by
  rcases Number.cases_of_isFigureChar h with h | rfl | rfl | rfl
  · exact isNumberChar_of_isDigit (Text.isDigit_of_isDigit h)
  · rfl
  · rfl
  · exact absurd rfl hc

/-- What cleans to an expression without a percent sign is only stripped and resolved. -/
theorem eq_resolveAll_of_clean? (h : clean? t = some e) (hpercent : '%' ∉ t) :
    e = Number.resolveAll (strip t) := by
  obtain ⟨rfl, -, -⟩ := clean?_eq_some_iff.mp h
  rcases expandPercentages_cases (Number.resolveAll (strip t)) with hkept | ⟨_, _, _, hwrites, -⟩
  · exact hkept
  · have hmem := hwrites.mem_text (.inr (.inr rfl))
    exact absurd (mem_of_mem_resolveAll_strip hmem (by decide)) hpercent

theorem filter_strip_of_isUnsigned (h : Number.IsUnsigned t) :
    (strip t).filter (!isNumberChar ·) = [] := by
  rw [List.filter_eq_nil_iff]
  intro c hc
  obtain ⟨hmem, hc⟩ := List.mem_filter.mp hc
  rw [Bool.and_eq_true, bne_iff_ne] at hc
  simp [isNumberChar_of_isFigureChar (h.isFigureChar c hmem) hc.1]

theorem any_of_hasOperation (h : hasOperation e) : e.any isOperatorOrParen := by
  unfold hasOperation at h
  extract_lets body at h
  refine List.any_eq_true.mpr ?_
  obtain ⟨c, hc, hop⟩ := List.any_eq_true.mp h
  refine ⟨c, ?_, hop⟩
  cases e with
  | nil => exact hc
  | cons d e =>
    have hbody : body = e ∨ body = d :: e := by
      unfold body
      dsimp only
      split
      · exact .inl rfl
      · exact .inr rfl
    rcases hbody with hbody | hbody
    · exact List.mem_cons_of_mem _ (hbody ▸ hc)
    · exact hbody ▸ hc

/-- A figure has no operation. -/
theorem isCandidate_eq_false_of_isFigure (h : Number.IsFigure t) : isCandidate t = false := by
  rw [← Bool.not_eq_true]
  intro hcandidate
  simp only [isCandidate, Bool.and_eq_true, h.trim_eq] at hcandidate
  obtain ⟨e, he, hoperation⟩ := (Option.any_eq_true ..).mp hcandidate.2
  have hpercent : '%' ∉ t := fun hmem => absurd rfl
    (h.forall_mem (p := (· ≠ '%')) (by rintro _ hc rfl; cases hc) (by decide) _ hmem)
  obtain rfl := eq_resolveAll_of_clean? he hpercent
  -- what is no part of a number is kept, and that is the sign in front at most
  have hnone : ∀ s : Text, s.filter (!isNumberChar ·) = [] → s.any isOperatorOrParen = false := by
    intro s hs
    rw [← Bool.not_eq_true, List.any_eq_true]
    rintro ⟨c, hc, hop⟩
    have hnot := List.filter_eq_nil_iff.mp hs c hc
    simp [isNumberChar_of_isOperatorOrParen hop] at hnot
  cases h with
  | positive h =>
    have hfilter := Number.filter_resolveAll (strip t)
    rw [filter_strip_of_isUnsigned h] at hfilter
    have hany := any_of_hasOperation hoperation
    rw [hnone _ hfilter] at hany
    cases hany
  | @negative u h =>
    have hstrip : strip ('-' :: u) = '-' :: strip u := rfl
    obtain ⟨s, hs⟩ := Number.resolveAll_cons (c := '-') (t := strip u) (by decide)
    have hfilter := Number.filter_resolveAll (strip ('-' :: u))
    rw [hstrip, hs] at hfilter
    have hrest : s.filter (!isNumberChar ·) = [] := by
      rw [← filter_strip_of_isUnsigned h]
      exact (List.cons.inj hfilter).2
    rw [hstrip, hs] at hoperation
    have hany : s.any isOperatorOrParen := hoperation
    rw [hnone s hrest] at hany
    cases hany

theorem process_eq_none_of_isFigure (h : Number.IsFigure t) (template : Option Text) :
    process template t = none := by
  rw [process, isCandidate_eq_false_of_isFigure h, if_neg Bool.false_ne_true]

end Arithmetic

theorem Number.IsFigure.undetected {t : Text} {today : Date} (h : IsFigure t)
    (hphone : Phone.detect t = .noMatch) : Undetected today t := by
  have harith : ∀ c ∈ t, isArithmeticOrOf c := fun c hc =>
    isArithmeticOrOf_of_isArithmetic (h.isArithmetic c hc)
  have hlast : (Text.trim t).getLast? ≠ some '%' := by
    intro hlast
    have hpercent := Text.mem_of_mem_trim (List.mem_of_getLast? hlast)
    exact absurd rfl (h.forall_mem (p := (· ≠ '%')) (by rintro _ hc rfl; cases hc) (by decide) _ hpercent)
  exact ⟨h.dateless.ofText?_eq_none today, hphone, Rating.percentage?_eq_none harith (.inr hlast),
    Combination.detect_eq_noMatch harith, Arithmetic.process_eq_none_of_isFigure h,
    Unit.conversion?_eq_none harith, Clock.answer?_eq_none harith⟩

end Snippet
