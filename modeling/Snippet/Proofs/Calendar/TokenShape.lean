import Snippet.Proofs.Calendar.TokenItems
import Snippet.Proofs.Text.Trimming

/-!
# The shapes of date tokens

A date token has one of five shapes (`DateToken.Shaped`), with digits of any script. One of the
patterns for the parts of a date matches it as a whole (`Shaped.exists_matchesAll`). The patterns
are tried one after the other, and none before the right one reads a text of another shape, so the
parts that are read are the month, the day and the year as they are written (`Shaped.ofToken?_eq`).
-/

namespace Snippet

open Regex Date

namespace DateToken

open Pattern

/-- The year behind a date with the name of a month, with the digits of the year. It may be left
out. -/
inductive YearBehind : Text → Option Text → Prop where
  | missing : YearBehind [] none
  | written {comma gap y : Text} : IsOptional ',' comma → IsGap gap → IsNumber 4 y → y.length = 4 →
      YearBehind (comma ++ (gap ++ y)) (some y)

/-- The shapes of date tokens, with the texts of the month, the day and the year. -/
inductive Shaped : Text → (month day : Text) → (year : Option Text) → Prop where
  | yearMonthDay {sep : Char} {y m n : Text} : sep ∈ dateSeparators → IsNumber 4 y → y.length = 4 →
      IsNumber 2 m → IsNumber 2 n → Shaped (y ++ sep :: (m ++ sep :: n)) m n (some y)
  | monthDayYear {sep : Char} {m n y : Text} : sep ∈ dateSeparators → IsNumber 2 m →
      IsNumber 2 n → IsNumber 4 y → y.length = 4 ∨ y.length = 2 →
      Shaped (m ++ sep :: (n ++ sep :: y)) m n (some y)
  | monthDay {m n : Text} : IsNumber 2 m → IsNumber 2 n → Shaped (m ++ '/' :: n) m n none
  | monthFirst {month : Nat} {name point gap n ending tail : Text} {year : Option Text} :
      Calendar.IsMonthForm month name → IsOptional '.' point → IsGap gap → IsNumber 2 n →
      IsOrdinalForm ending → YearBehind tail year →
      Shaped (name ++ (point ++ (gap ++ (n ++ (ending ++ tail))))) name n year
  | dayFirst {month : Nat} {name point gap n ending tail : Text} {year : Option Text} :
      Calendar.IsMonthForm month name → IsOptional '.' point → IsGap gap → IsNumber 2 n →
      IsOrdinalForm ending → YearBehind tail year →
      Shaped (n ++ (ending ++ (gap ++ (name ++ (point ++ tail))))) name n year

/-- The month that a text denotes, by its number or by its name. -/
inductive Denotes : Text → Nat → Prop where
  | number {m : Text} : m ≠ [] → (∀ x ∈ m, x.isDigit) → Denotes m (Decimal.natOf m)
  | name {month : Nat} {m : Text} : 1 ≤ month → Calendar.IsMonthName month m → Denotes m month

/-- The year that digits stand for: two digits for one near today, four digits for themselves. -/
def yearOf (today : Date) (y : Text) : Int :=
  if y.length = 2 then DateParts.expandYear today (Decimal.natOf y) else Decimal.natOf y

end DateToken

namespace Pattern

variable {r₁ r₂ r₃ : Regex} {sep : Char} {a b m n s t y : Text} {next : Text → Prop}
  {f : Char → Nat → Regex}

/-! ## The alternatives with a separator -/

/-- The alternative with a separator, in its row of groups. -/
theorem exists_row (hsep : sep ∈ dateSeparators) (hf : ∀ sep i, SeparatedBy sep (f sep i)) :
    ∃ k < 3, ∃ before after, [f '/' 1, f '.' 4, f '-' 7] = before ++ f sep (k * 3 + 1) :: after ∧
      ∀ s ∈ before, ∃ sep', Text.isDigit sep' = false ∧ sep ≠ sep' ∧ SeparatedBy sep' s := by
  simp only [dateSeparators, List.mem_cons, List.not_mem_nil, or_false] at hsep
  rcases hsep with rfl | rfl | rfl
  · exact ⟨0, by decide, [], [f '.' 4, f '-' 7], rfl, by simp⟩
  · refine ⟨1, by decide, [f '/' 1], [f '-' 7], rfl, ?_⟩
    rw [List.forall_mem_singleton]
    exact ⟨'/', by decide, by decide, hf _ _⟩
  · refine ⟨2, by decide, [f '/' 1, f '.' 4], [], rfl, ?_⟩
    rw [List.forall_mem_cons, List.forall_mem_singleton]
    exact ⟨⟨'/', by decide, by decide, hf _ _⟩, '.', by decide, by decide, hf _ _⟩

theorem exists_of_mem_row {r : Regex} (hr : r ∈ [f '/' 1, f '.' 4, f '-' 7]) :
    ∃ sep ∈ dateSeparators, ∃ i, r = f sep i := by
  simp only [List.mem_cons, List.not_mem_nil, or_false] at hr
  rcases hr with rfl | rfl | rfl
  · exact ⟨'/', by decide, 1, rfl⟩
  · exact ⟨'.', by decide, 4, rfl⟩
  · exact ⟨'-', by decide, 7, rfl⟩

/-- The parts of a date that starts with the year. -/
theorem exists_iso (hsep : sep ∈ dateSeparators) (hy : IsNumber 4 y) (hlength : y.length = 4)
    (hm : IsNumber 2 m) (hn : IsNumber 2 n) :
    ∃ mt, datePartIso.full? (y ++ sep :: (m ++ sep :: n)) = some mt ∧
      mt.alternative? (y ++ sep :: (m ++ sep :: n)) 3 3 = some [y, m, n] := by
  obtain ⟨k, hk, before, after, heq, hbefore⟩ := exists_row (f := isoParts) hsep
    fun _ _ => .mk fullYear_over
  exact exists_alternative? (p := datePartIso) hk (congrArg anyOf heq)
    (isDigit_eq_false_of_mem_dateSeparators sep hsep) hbefore hy.isDigit
    (takes_fullYear hy hlength).of_anything (takes_shortNumber hm) (takes_shortNumber hn)
    (by simp [NoneNext])

/-- A year of four or of two digits, with nothing behind it. -/
theorem takes_anyYear (h : IsNumber 4 y) (hlength : y.length = 4 ∨ y.length = 2) :
    Takes year y (· = []) noGroups := by
  rcases hlength with hlength | hlength
  · exact (takes_year h hlength).of_anything
  · have htwo : Takes (times digit 2) y Anything noGroups := .times hlength h.isDigit
    intro c v hc hv
    refine .right (outcomes_eq_nil fun a w haw hread => ?_) (htwo hc trivial)
    have hlengths := congrArg List.length (hc.symm.trans haw)
    rw [hv, List.append_nil, List.length_append, length_of_fullYear hread] at hlengths
    omega

/-- A number of four digits is no month. -/
theorem not_reads_datePartIso (hsep : Text.isDigit sep = false) (hm : IsNumber 2 m) :
    ¬ datePartIso.regex.Reads (m ++ sep :: b) := by
  intro hread
  obtain ⟨r, hr, hread⟩ := reads_anyOf_iff.mp hread
  obtain ⟨sep', hsep', i, rfl⟩ := exists_of_mem_row (f := isoParts) hr
  have hyear := (eq_of_reads_separated (r := group i fullYear) fullYear_over hsep
    (isDigit_eq_false_of_mem_dateSeparators sep' hsep') hm.isDigit hread
    (List.append_nil _).symm).1
  have hlength := length_of_fullYear (reads_group_iff.mp hyear)
  have := hm.length_le
  omega

/-- Digits are no separators. -/
theorem filter_isDateSeparator_digits (h : ∀ x ∈ t, Text.isDigit x) :
    t.filter isDateSeparator = [] := by
  refine List.filter_eq_nil_iff.mpr fun x hx => ?_
  rw [isDateSeparator_eq_false_of_isDigit (h x hx)]
  exact Bool.false_ne_true

/-- Three parts have two separators. -/
theorem two_le_length_filter (hsep : isDateSeparator sep)
    (h : (all [r₁, Regex.char sep, r₂, Regex.char sep, r₃]).Reads t) :
    2 ≤ (t.filter isDateSeparator).length := by
  obtain ⟨a, b, e, rfl, -⟩ := exists_of_separated h
  simp only [List.filter_append, List.filter_cons_of_pos hsep, List.length_append,
    List.length_cons]
  omega

/-- Month and day have one separator. -/
theorem not_reads_datePartMdy (hm : IsNumber 2 m) (hn : IsNumber 2 n) :
    ¬ datePartMdy.regex.Reads (m ++ '/' :: n) := by
  intro hread
  obtain ⟨r, hr, hread⟩ := reads_anyOf_iff.mp hread
  obtain ⟨sep', hsep', i, rfl⟩ := exists_of_mem_row (f := mdyParts) hr
  have htwo := two_le_length_filter (List.contains_iff_mem.mpr hsep') hread
  rw [List.filter_append, filter_isDateSeparator_digits hm.isDigit,
    List.filter_cons_of_pos (by decide), filter_isDateSeparator_digits hn.isDigit] at htwo
  exact absurd htwo (by decide)

/-- The parts of a date that ends with the year. -/
theorem exists_mdy (hsep : sep ∈ dateSeparators) (hm : IsNumber 2 m) (hn : IsNumber 2 n)
    (hy : IsNumber 4 y) (hlength : y.length = 4 ∨ y.length = 2) :
    ∃ mt, datePartMdy.full? (m ++ sep :: (n ++ sep :: y)) = some mt ∧
      mt.alternative? (m ++ sep :: (n ++ sep :: y)) 3 3 = some [m, n, y] := by
  obtain ⟨k, hk, before, after, heq, hbefore⟩ := exists_row (f := mdyParts) hsep
    fun _ _ => .mk shortNumber_over
  exact exists_alternative? (p := datePartMdy) hk (congrArg anyOf heq)
    (isDigit_eq_false_of_mem_dateSeparators sep hsep) hbefore hm.isDigit (takes_shortNumber hm)
    (takes_shortNumber hn) (takes_anyYear hy hlength) rfl

/-- The parts of a date without a year. -/
theorem exists_md (hm : IsNumber 2 m) (hn : IsNumber 2 n) :
    ∃ mt, datePartMd.full? (m ++ '/' :: n) = some mt ∧ mt.text? (m ++ '/' :: n) 1 = some m ∧
      mt.text? (m ++ '/' :: n) 2 = some n := by
  have hlast := (Takes.char '/').andThen ((takes_shortNumber hn).group 2)
  have htakes := ((takes_shortNumber hm).group 1).followedBy hlast (.cons (by decide))
  refine ⟨_, full?_of_takes (p := datePartMd) htakes (by simp [NoneNext]), ?_⟩
  refine text?_of_pair rfl ?_ ?_
  · exact Span.of_eq [] m ('/' :: n) rfl rfl
  · exact Span.of_eq (m ++ ['/']) n [] (by simp) (by simp)

end Pattern

namespace DateToken

open Pattern

variable {month : Nat} {name point gap m n ending tail s : Text} {year : Option Text}

/-! ## The groups of a date with the name of a month -/

/-- What stands behind a date is read up to its end, and the digits of the year are its group. -/
theorem YearBehind.exists_takes (h : YearBehind tail year) :
    ∃ next gs, Takes (writtenYear (group 3 fullYear)) tail next gs ∧ next [] ∧
      (∀ v, next v → IsTail (tail ++ v)) ∧ ∀ k front, k = front.length →
        (∀ i < 3, (gs k).lookup i = none) ∧
          ((gs k).lookup 3).map (·.of (front ++ tail)) = year := by
  cases h with
  | missing =>
    refine ⟨(· = []), noGroups, Takes.opt_end fun hread => ?_, rfl, ?_, fun _ _ _ =>
      ⟨fun _ _ => rfl, rfl⟩⟩
    · obtain ⟨x, hx, -⟩ := hread.exists_mem (p := (Text.isWhite ·))
        (needs_all_iff.mpr ⟨many1 white, by simp, .inl fun _ => id⟩)
      cases hx
    · rintro - rfl
      simp [IsTail]
  | @written comma gap y hcomma hgap hy hlength =>
    refine ⟨_, _, takes_writtenYear hcomma hgap hy ((takes_fullYear hy hlength).group 3), trivial,
      fun v _ => isTail_year hcomma hgap _ v, fun k front hk => ⟨fun i hi => ?_, ?_⟩⟩
    · have hne : (i == 3) = false := beq_eq_false_iff_ne.mpr hi.ne
      simp [noGroups, List.lookup_cons, hne]
    · simp only [noGroups, List.lookup_cons, BEq.rfl, Option.map_some]
      refine congrArg some ?_
      exact Span.of_eq (front ++ (comma ++ gap)) y [] (by simp) (by simp [hk])

/-- The parts of a date that starts with the name of the month. -/
theorem exists_monthDay (hname : Calendar.IsMonthForm month name) (hpoint : IsOptional '.' point)
    (hgap : IsGap gap) (hn : IsNumber 2 n) (hending : IsOrdinalForm ending)
    (htail : YearBehind tail year)
    (hs : s = name ++ (point ++ (gap ++ (n ++ (ending ++ tail))))) :
    ∃ mt, datePartMonthDay.full? s = some mt ∧ mt.text? s 1 = some name ∧ mt.text? s 2 = some n ∧
      mt.text? s 3 = year := by
  obtain ⟨next, gs, htakes, hend, hbehind, hgroups⟩ := htail.exists_takes
  have hall := takes_monthFirst ((takes_monthName hname).group 1) hpoint hgap hn
    ((takes_shortNumber hn).group 2) hending htakes hbehind
  refine ⟨_, full?_of_takes (p := datePartMonthDay) (hs ▸ hall) hend, ?_⟩
  have hfront : s = name ++ (point ++ (gap ++ (n ++ ending))) ++ tail := by simp [hs]
  refine text?_of_append _ rfl (hfront ▸ hgroups _ _ ?_) ?_ ?_
  · simp
  · exact Span.of_eq [] name _ hs rfl
  · exact Span.of_eq (name ++ (point ++ gap)) n (ending ++ tail) (by simp [hs]) (by simp)

/-- The parts of a date that starts with the day and names the month. -/
theorem exists_dayMonth (hname : Calendar.IsMonthForm month name) (hpoint : IsOptional '.' point)
    (hgap : IsGap gap) (hn : IsNumber 2 n) (hending : IsOrdinalForm ending)
    (htail : YearBehind tail year)
    (hs : s = n ++ (ending ++ (gap ++ (name ++ (point ++ tail))))) :
    ∃ mt, datePartDayMonth.full? s = some mt ∧ mt.text? s 1 = some n ∧ mt.text? s 2 = some name ∧
      mt.text? s 3 = year := by
  obtain ⟨next, gs, htakes, hend, hbehind, hgroups⟩ := htail.exists_takes
  have hall := takes_dayFirst ((takes_shortNumber hn).group 1) hending hgap
    ((takes_monthName hname).group 2) hname.startsOutside hpoint htakes hbehind
  refine ⟨_, full?_of_takes (p := datePartDayMonth) (hs ▸ hall) hend, ?_⟩
  have hfront : s = n ++ (ending ++ (gap ++ (name ++ point))) ++ tail := by simp [hs]
  refine text?_of_append _ rfl (hfront ▸ hgroups _ _ ?_) ?_ ?_
  · simp
  · exact Span.of_eq [] n _ hs rfl
  · exact Span.of_eq (n ++ (ending ++ gap)) name (point ++ tail) (by simp [hs]) (by simp)

/-- **One of the patterns for the parts of a date matches a text of a shape.** -/
theorem Shaped.exists_matchesAll (h : Shaped s m n year) :
    ∃ p ∈ [datePartIso, datePartMdy, datePartMd, datePartMonthDay, datePartDayMonth],
      p.matchesAll s := by
  have hmatches : ∀ {p : Pattern} {t : Text} {mt : Match}, p.full? t = some mt →
      p.matchesAll t := fun hfull => by rw [matchesAll, hfull, Option.isSome_some]
  cases h with
  | yearMonthDay hsep hy hlength hm hn =>
    obtain ⟨mt, hfull, -⟩ := exists_iso hsep hy hlength hm hn
    exact ⟨datePartIso, by simp, hmatches hfull⟩
  | monthDayYear hsep hm hn hy hlength =>
    obtain ⟨mt, hfull, -⟩ := exists_mdy hsep hm hn hy hlength
    exact ⟨datePartMdy, by simp, hmatches hfull⟩
  | monthDay hm hn =>
    obtain ⟨mt, hfull, -⟩ := exists_md hm hn
    exact ⟨datePartMd, by simp, hmatches hfull⟩
  | monthFirst hname hpoint hgap hn hending htail =>
    obtain ⟨mt, hfull, -⟩ := exists_monthDay hname hpoint hgap hn hending htail rfl
    exact ⟨datePartMonthDay, by simp, hmatches hfull⟩
  | dayFirst hname hpoint hgap hn hending htail =>
    obtain ⟨mt, hfull, -⟩ := exists_dayMonth hname hpoint hgap hn hending htail rfl
    exact ⟨datePartDayMonth, by simp, hmatches hfull⟩

/-! ## The parts as they are written -/

/-- The shapes of numeric dates have no white space. -/
theorem numericPart_over : ∀ p ∈ [datePartIso, datePartMdy, datePartMd],
    p.regex.Over (Text.isWhite · = false) := by
  have hshort := shortNumber_over_white
  have hfull := fullYear_over_white
  have hyear : year.Over (Text.isWhite · = false) :=
    ⟨hfull, over_times (digit_over.mono fun _ => Text.isWhite_eq_false_of_isDigit) 2⟩
  have hchar : ∀ sep, Text.isWhite sep = false →
      (Regex.char sep).Over (Text.isWhite · = false) := by
    intro sep hsep x hx
    rwa [beq_iff_eq.mp hx]
  have hslash := hchar '/' rfl
  have hpoint := hchar '.' rfl
  have hdash := hchar '-' rfl
  simp only [List.forall_mem_cons, List.not_mem_nil, false_imp_iff, implies_true, and_true]
  exact ⟨⟨⟨hfull, hslash, hshort, hslash, hshort⟩, ⟨hfull, hpoint, hshort, hpoint, hshort⟩,
      hfull, hdash, hshort, hdash, hshort⟩,
    ⟨⟨hshort, hslash, hshort, hslash, hyear⟩, ⟨hshort, hpoint, hshort, hpoint, hyear⟩,
      hshort, hdash, hshort, hdash, hyear⟩, hshort, hslash, hshort⟩

theorem full?_eq_none_of_gap {p : Pattern} (hp : p ∈ [datePartIso, datePartMdy, datePartMd])
    (hgap : IsGap gap) {a b : Text} (hs : s = a ++ (gap ++ b)) : p.full? s = none := by
  refine full?_eq_none fun hread => ?_
  obtain ⟨x, gap, rfl⟩ := List.exists_cons_of_ne_nil hgap.1
  have hwhite := Text.isWhite_of_isBlank hgap.2 (List.mem_cons_self ..)
  have hnot := hread.forall_mem (numericPart_over p hp) x (by simp [hs])
  rw [hwhite] at hnot
  cases hnot

theorem Denotes.nat? {k : Nat} (h : Denotes m k) (hm : ∀ x ∈ m, Text.isDigit x) :
    Decimal.nat? m = some k := by
  cases h with
  | number hne hdigit => exact Decimal.nat?_of_forall hne hdigit
  | name _ hname =>
    obtain ⟨x, t, rfl, hx⟩ := hname.isMonthForm.exists_cons
    rw [Text.isForm_eq_false_of_isDigit (hm x (List.mem_cons_self ..))] at hx
    cases hx

theorem Denotes.monthNumber? {k : Nat} (h : Denotes name k)
    (hname : Calendar.IsMonthForm month name) : DateParts.monthNumber? name = some k := by
  cases h with
  | number _ hdigit =>
    obtain ⟨x, t, rfl, hx⟩ := hname.exists_cons
    have hdigit := Text.isDigit_of_isDigit (hdigit x (List.mem_cons_self ..))
    rw [Text.isForm_eq_false_of_isDigit hdigit] at hx
    cases hx
  | name hmonth hname => exact DateParts.monthNumber?_of_isMonthName hname hmonth

theorem nat?_of_isNumber {k : Nat} (h : IsNumber k n) (hdigit : ∀ x ∈ n, x.isDigit) :
    Decimal.nat? n = some (Decimal.natOf n) :=
  Decimal.nat?_of_forall h.ne_nil hdigit

/-- The year behind a date is read as it is written. -/
theorem YearBehind.optionalYear?_eq (h : YearBehind tail year)
    (hyear : ∀ y ∈ year, ∀ x ∈ y, x.isDigit) (today : Date) :
    DateParts.optionalYear? year = some (year.map (yearOf today)) := by
  cases h with
  | missing => rfl
  | @written comma gap y _ _ hy hlength =>
    have hnat := nat?_of_isNumber hy (hyear y rfl)
    simp [DateParts.optionalYear?, hnat, yearOf, hlength]

/-- **The parts of a date token are read as they are written.** -/
theorem Shaped.ofToken?_eq {month : Nat} (h : Shaped s m n year) (hm : Denotes m month)
    (hn : ∀ x ∈ n, x.isDigit) (hyear : ∀ y ∈ year, ∀ x ∈ y, x.isDigit) (today : Date) :
    DateParts.ofToken? today s =
      DateParts.of? month (Decimal.natOf n) (year.map (yearOf today)) := by
  cases h with
  | @yearMonthDay sep y m n hsep hy hlength hmonth hday =>
    obtain ⟨mt, hfull, halt⟩ := exists_iso hsep hy hlength hmonth hday
    rw [DateParts.ofToken?, hfull]
    simp [DateParts.ofIso?, halt, hm.nat? hmonth.isDigit, nat?_of_isNumber hday hn,
      nat?_of_isNumber hy (hyear y rfl), yearOf, hlength]
  | @monthDayYear sep m n y hsep hmonth hday hy hlength =>
    have hsepDigit := isDigit_eq_false_of_mem_dateSeparators sep hsep
    obtain ⟨mt, hfull, halt⟩ := exists_mdy hsep hmonth hday hy hlength
    rw [DateParts.ofToken?, full?_eq_none (not_reads_datePartIso hsepDigit hmonth), hfull]
    simp [DateParts.ofMdy?, halt, hm.nat? hmonth.isDigit, nat?_of_isNumber hday hn,
      DateParts.year?, nat?_of_isNumber hy (hyear y rfl), yearOf]
  | @monthDay m n hmonth hday =>
    obtain ⟨mt, hfull, hone, htwo⟩ := exists_md hmonth hday
    rw [DateParts.ofToken?, full?_eq_none (not_reads_datePartIso (by decide) hmonth),
      full?_eq_none (not_reads_datePartMdy hmonth hday), hfull]
    simp [DateParts.ofMd?, hone, htwo, hm.nat? hmonth.isDigit, nat?_of_isNumber hday hn]
  | @monthFirst _ _ point gap _ ending tail _ hname hpoint hgap hday hending htail =>
    have hnone : ∀ p ∈ [datePartIso, datePartMdy, datePartMd],
        p.full? (m ++ (point ++ (gap ++ (n ++ (ending ++ tail))))) = none := fun p hp =>
      full?_eq_none_of_gap hp hgap (List.append_assoc m point _).symm
    obtain ⟨mt, hfull, hone, htwo, hthree⟩ :=
      exists_monthDay hname hpoint hgap hday hending htail rfl
    rw [DateParts.ofToken?, hnone _ (by simp), hnone _ (by simp), hnone _ (by simp), hfull]
    simp [DateParts.ofNamed?, hone, htwo, hthree, htail.optionalYear?_eq hyear today,
      hm.monthNumber? hname, nat?_of_isNumber hday hn]
  | @dayFirst _ _ point gap _ ending tail _ hname hpoint hgap hday hending htail =>
    have hnone : ∀ p ∈ [datePartIso, datePartMdy, datePartMd],
        p.full? (n ++ (ending ++ (gap ++ (m ++ (point ++ tail))))) = none := fun p hp =>
      full?_eq_none_of_gap hp hgap (List.append_assoc n ending _).symm
    obtain ⟨mt, hfull, hone, htwo, hthree⟩ :=
      exists_dayMonth hname hpoint hgap hday hending htail rfl
    have hmonthDay : ¬ datePartMonthDay.regex.Reads
        (n ++ (ending ++ (gap ++ (m ++ (point ++ tail))))) := by
      obtain ⟨x, n, rfl, hx⟩ := hday.exists_cons
      exact not_reads_monthFirst (fun v hv => reads_group_iff.mp hv) hx (List.append_nil _)
    rw [DateParts.ofToken?, hnone _ (by simp), hnone _ (by simp), hnone _ (by simp),
      full?_eq_none hmonthDay, hfull]
    simp [DateParts.ofNamed?, hone, htwo, hthree, htail.optionalYear?_eq hyear today,
      hm.monthNumber? hname, nat?_of_isNumber hday hn]

end DateToken

end Snippet
