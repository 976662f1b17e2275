import Snippet.Proofs.Calendar.TokenShape

/-!
# The parts of a written date

A written date has one of the shapes of date tokens (`Date.Written.exists_shaped`), so its month,
day and year are read back (`Date.Written.ofToken?_eq`), whatever today is.
-/

namespace Snippet

namespace Date

open DateToken

variable {d : Date} {n : Nat} {s m : Text}

theorem IsShort.natOf_eq (h : IsShort n m) (hdigits : Digits 2 m) : Decimal.natOf m = n :=
  Option.some_inj.mp ((Decimal.nat?_of_forall hdigits.ne_nil hdigits.isDigit).symm.trans h.nat?)

theorem IsShort.denotes (h : IsShort n m) (hdigits : Digits 2 m) : Denotes m n :=
  h.natOf_eq hdigits ▸ .number hdigits.ne_nil hdigits.isDigit

/-- A written date has the shape of a token. -/
theorem Written.exists_shaped (h : Written d s) (hyear : 0 ≤ d.year ∧ d.year ≤ 9999) :
    ∃ m n, Shaped s m n (some d.fourDigits) ∧ Denotes m d.month ∧ IsShort d.day n := by
  have hdigits := (digits_fourDigits hyear).isNumber
  have hlength := length_fourDigits hyear
  cases h with
  | @monthDayYear sep m n hsep hm hn =>
    have hmonth := digits_month hm
    exact ⟨m, n, .monthDayYear hsep hmonth.isNumber (digits_day hn).isNumber hdigits (.inl hlength),
      hm.denotes hmonth, hn⟩
  | @yearMonthDay sep m n hsep hm hn =>
    have hmonth := digits_month hm
    exact ⟨m, n, .yearMonthDay hsep hdigits hlength hmonth.isNumber (digits_day hn).isNumber,
      hm.denotes hmonth, hn⟩
  | @monthFirst name point n ending comma hname hpoint hn hending hcomma =>
    exact ⟨name, n, .monthFirst hname.isMonthForm hpoint isGap_blank (digits_day hn).isNumber
      hending.isOrdinalForm (.written hcomma isGap_blank hdigits hlength),
      .name d.month_bounds.1 hname, hn⟩
  | @dayFirst name point n ending comma hname hpoint hn hending hcomma =>
    exact ⟨name, n, .dayFirst hname.isMonthForm hpoint isGap_blank (digits_day hn).isNumber
      hending.isOrdinalForm (.written hcomma isGap_blank hdigits hlength),
      .name d.month_bounds.1 hname, hn⟩

theorem of?_eq (d : Date) (year : Option Int) :
    DateParts.of? d.month d.day year = some ⟨d.month, d.day, year, false⟩ := by
  have hmonth := d.month_bounds
  have hday := d.day_bounds.1
  have hday' := d.day_le
  simp [DateParts.of?, hmonth, hday, hday']

/-- The four digits of a year stand for the year. -/
theorem yearOf_fourDigits (hyear : 0 ≤ d.year ∧ d.year ≤ 9999) (today : Date) :
    yearOf today d.fourDigits = d.year := by
  have hdigits := digits_fourDigits hyear
  have hnat : Decimal.natOf d.fourDigits = d.year.natAbs := Option.some_inj.mp
    ((Decimal.nat?_of_forall hdigits.ne_nil hdigits.isDigit).symm.trans (nat?_fourDigits d))
  rw [yearOf, length_fourDigits hyear, if_neg (by decide), hnat, Int.natAbs_of_nonneg hyear.1]

/-- **The parts of a written date are read back.** -/
theorem Written.ofToken?_eq (h : Written d s) (hyear : 0 ≤ d.year ∧ d.year ≤ 9999) (today : Date) :
    DateParts.ofToken? today s = some ⟨d.month, d.day, some d.year, false⟩ := by
  obtain ⟨m, n, hshaped, hm, hn⟩ := h.exists_shaped hyear
  have hday := digits_day hn
  have hfour : ∀ y ∈ some d.fourDigits, ∀ x ∈ y, x.isDigit := by
    rintro y ⟨⟩
    exact (digits_fourDigits hyear).isDigit
  rw [hshaped.ofToken?_eq hm hday.isDigit hfour, hn.natOf_eq hday, Option.map_some,
    yearOf_fourDigits hyear, of?_eq]

end Date

end Snippet
