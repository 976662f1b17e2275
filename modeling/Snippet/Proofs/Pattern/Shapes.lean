import Snippet.Pattern.Catalog
import Snippet.Proofs.Pattern.Occurrences

/-!
# The shapes of the catalog

What the languages of the catalog say about the characters of a match. An arithmetic text has the
characters of arithmetic and the letters of one "of" (`isArithmeticOrOf`). The shapes of units,
durations and combined values need a character beyond these, and so do dates with the name of a
month; a numeric date starts with a digit and has a separator inside.
-/

namespace Snippet.Pattern

open Regex

/-- The letters of "of". -/
def isOfLetter (c : Char) : Bool := "oOfF".toList.contains c

/-- The characters of arithmetic and the letters of "of". -/
def isArithmeticOrOf (c : Char) : Bool := isArithmetic c || isOfLetter c

/-- A digit of any script, a point or a comma. -/
def isNumberChar (c : Char) : Bool := Text.isDigit c || c == '.' || c == ','

/-- The separator of a numeric date. -/
def isDateSeparator (c : Char) : Bool := dateSeparators.contains c

variable {u : Text}

theorem isArithmeticOrOf_of_isArithmetic {c : Char} (h : isArithmetic c) : isArithmeticOrOf c := by
  rw [isArithmeticOrOf, h, Bool.true_or]

theorem isArithmetic_of_isDigit {c : Char} (h : Text.isDigit c) : isArithmetic c := by
  rw [isArithmetic, h, Bool.true_or, Bool.true_or]

theorem isArithmetic_of_isArithmeticLead {c : Char} (h : isArithmeticLead c) : isArithmetic c := by
  simp only [isArithmeticLead, Bool.or_eq_true, List.contains_iff_mem] at h
  simp only [isArithmetic, Bool.or_eq_true, List.contains_iff_mem]
  rcases h with h | h
  · exact .inl (.inr h)
  · refine .inr ?_
    simp only [String.reduceToList, List.mem_cons, List.not_mem_nil, or_false] at h ⊢
    rcases h with rfl | rfl | rfl <;> simp

/-- The characters of an arithmetic text. -/
theorem forall_mem_of_arithmeticCandidate (h : arithmeticCandidate.regex.Reads u) :
    ∀ c ∈ u, isArithmeticOrOf c := by
  have hlead : ∀ c, isArithmeticLead c → isArithmeticOrOf c := fun c hc =>
    isArithmeticOrOf_of_isArithmetic (isArithmetic_of_isArithmeticLead hc)
  have harith : ∀ c, isArithmetic c → isArithmeticOrOf c := fun c =>
    isArithmeticOrOf_of_isArithmetic
  have hsign : ∀ c, ['-', '+'].contains c → isArithmeticOrOf c := by
    intro c hc
    simp only [List.contains_iff_mem, List.mem_cons, List.not_mem_nil, or_false] at hc
    rcases hc with rfl | rfl <;> decide
  have hdigit : ∀ c, Text.isDigit c → isArithmeticOrOf c := fun c hc =>
    harith c (isArithmetic_of_isDigit hc)
  have hof : (word "of").Over (isArithmeticOrOf ·) := over_word_iff.mpr (by decide)
  refine h.forall_mem ?_
  simp only [arithmeticCandidate, ofRegex, over_all_iff, List.forall_mem_cons, many, opt, charIn,
    digit, many1, Over, List.not_mem_nil, false_imp_iff, implies_true, and_true]
  exact ⟨hlead, hsign, hlead, hdigit, harith, hof, harith, harith⟩

/-- Combined values need the letter c. -/
theorem exists_mem_of_combination (h : combination.regex.Reads u) :
    ∃ c ∈ u, isArithmeticOrOf c = false := by
  have hletter : (charIn ['c', 'C']).Needs (isArithmeticOrOf · = false) := by
    intro c hc
    simp only [List.contains_iff_mem, List.mem_cons, List.not_mem_nil, or_false] at hc
    rcases hc with rfl | rfl <;> decide
  have hround : (all [many white, charIn ['c', 'C'], many white, decimalNumber, many white,
      opt (char '%')]).Needs (isArithmeticOrOf · = false) :=
    needs_all_iff.mpr ⟨_, by simp, hletter⟩
  refine h.exists_mem ?_
  simp only [combination, ofRegex, needs_all_iff]
  exact ⟨_, List.mem_cons_of_mem _ (List.mem_cons_of_mem _ (List.mem_cons_of_mem _
    (List.mem_singleton.mpr rfl))), .inl hround⟩

theorem exists_mem_of_unitConversion (h : unitConversion.regex.Reads u) :
    ∃ c ∈ u, isArithmeticOrOf c = false := by
  have hword : (words ["to", "into", "in", "as"]).Needs (isArithmeticOrOf · = false) := by
    simp only [words, needs_anyOf_iff, List.forall_mem_map, needs_word_iff]
    decide
  refine h.exists_mem ?_
  simp only [unitConversion, ofRegex, needs_all_iff]
  exact ⟨_, by simp, hword⟩

/-- A duration like a clock needs a colon. -/
theorem exists_mem_of_durationClock (h : durationClock.regex.Reads u) :
    ∃ c ∈ u, isArithmeticOrOf c = false := by
  have hcolon : (clockPart (group 2 (times digit 2))).Needs (isArithmeticOrOf · = false) := by
    refine needs_all_iff.mpr ⟨char ':', by simp, ?_⟩
    intro c hc
    obtain rfl := beq_iff_eq.mp hc
    decide
  refine h.exists_mem ?_
  simp only [durationClock, ofRegex, needs_all_iff]
  exact ⟨_, by simp, hcolon⟩

/-- A part of a duration needs the first letter of its unit. -/
theorem exists_mem_of_durationPart (h : durationPart.regex.Reads u) :
    ∃ c ∈ u, isArithmeticOrOf c = false := by
  have hword : (group 2 (words ["days", "day", "d", "hours", "hour", "hrs", "hr", "h", "minutes",
      "minute", "mins", "min", "m", "seconds", "second", "secs", "sec", "s"])).Needs
        (isArithmeticOrOf · = false) := by
    simp only [Needs, words, needs_anyOf_iff, List.forall_mem_map, needs_word_iff]
    decide
  refine h.exists_mem ?_
  simp only [durationPart, ofRegex, needs_all_iff]
  exact ⟨_, by simp, hword⟩

/-! ## Numbers and percentages -/

theorem decimalNumber_starts : decimalNumber.Starts (Text.isDigit ·) := .inl (.inl fun _ => id)

theorem isNumberChar_of_isDigit {c : Char} (h : Text.isDigit c) : isNumberChar c := by
  rw [isNumberChar, h]
  rfl

theorem decimalNumber_over : decimalNumber.Over (isNumberChar ·) := by
  have hdigit : digit.Over (isNumberChar ·) := fun _ => isNumberChar_of_isDigit
  have hpoint : (char '.').Over (isNumberChar ·) := by
    intro c hc
    obtain rfl := beq_iff_eq.mp hc
    rfl
  exact ⟨⟨hdigit, hdigit⟩, ⟨hpoint, hdigit, hdigit⟩, trivial⟩

theorem isOfLetter_eq_false_of_isNumberChar {c : Char} (h : isNumberChar c) :
    isOfLetter c = false := by
  rw [isOfLetter, ← Bool.not_eq_true, List.contains_iff_mem]
  intro hmem
  simp only [String.reduceToList, List.mem_cons, List.not_mem_nil, or_false] at hmem
  rcases hmem with rfl | rfl | rfl | rfl <;> exact absurd h (by decide)

/-- Beside its numbers, a percentage of a number has the percent sign and the word "of". -/
theorem filter_percentageOf (h : percentageOf.regex.Reads u) :
    ∃ x y, u.filter (!isNumberChar ·) = ['%', x, y] ∧ y ≠ '%' := by
  simp only [percentageOf, ofRegex, all, word, String.reduceToList, List.map, reads_seq_iff,
    reads_group_iff] at h
  obtain ⟨a, -, rfl, ha, b, -, rfl, hb, -, d, rfl, ⟨o, f, rfl, ho, hf⟩, hd⟩ := h
  obtain ⟨x, rfl, hx⟩ := reads_one_iff.mp hb
  obtain ⟨y, rfl, hy⟩ := reads_one_iff.mp ho
  obtain ⟨z, rfl, hz⟩ := reads_one_iff.mp hf
  obtain rfl := beq_iff_eq.mp hx
  rw [← mem_letterForms_iff] at hy hz
  have hnumber : ∀ v : Text, decimalNumber.Reads v → v.filter (!isNumberChar ·) = [] := by
    intro v hv
    rw [List.filter_eq_nil_iff]
    intro c hc
    simp [hv.forall_mem decimalNumber_over c hc]
  have hforms : ∀ c ∈ letterForms 'o' ++ letterForms 'f', isNumberChar c = false ∧ c ≠ '%' := by
    have hall : (letterForms 'o' ++ letterForms 'f').all fun c => !isNumberChar c && c != '%' := by
      decide
    intro c hc
    simpa using List.all_eq_true.mp hall c hc
  have hy' := hforms y (List.mem_append_left _ hy)
  have hz' := hforms z (List.mem_append_right _ hz)
  refine ⟨y, z, ?_, hz'.2⟩
  simp only [List.filter_append, List.filter_cons, hnumber a ha, hnumber d hd, hy'.1, hz'.1]
  rfl

/-! ## Dates -/

/-- The characters of a class without separators do not separate the parts of a date. -/
theorem isDateSeparator_eq_false_of {p : Char → Bool} {c : Char} (h : p c)
    (hp : ∀ sep ∈ dateSeparators, p sep = false) : isDateSeparator c = false := by
  rw [isDateSeparator, ← Bool.not_eq_true, List.contains_iff_mem]
  intro hmem
  rw [hp c hmem] at h
  cases h

theorem isDateSeparator_eq_false_of_isDigit {c : Char} (h : Text.isDigit c) :
    isDateSeparator c = false :=
  isDateSeparator_eq_false_of h (by decide)

theorem isDateSeparator_eq_false_of_isWhite {c : Char} (h : Text.isWhite c) :
    isDateSeparator c = false :=
  isDateSeparator_eq_false_of h (by decide)

/-- The shapes of numeric dates. -/
inductive NumericDate : Regex → Prop where
  | monthDayYear {sep : Char} : sep ∈ dateSeparators → NumericDate (monthDayYear sep)
  | yearMonthDay {sep : Char} : sep ∈ dateSeparators → NumericDate (yearMonthDay sep)
  | monthDay : NumericDate monthDay

theorem NumericDate.starts {r : Regex} (h : NumericDate r) : r.Starts (Text.isDigit ·) := by
  cases h with
  | monthDayYear _ => exact .inl (.inl fun _ => id)
  | yearMonthDay _ => exact .inl (.inl fun _ => id)
  | monthDay => exact .inl (.inl fun _ => id)

theorem NumericDate.needs {r : Regex} (h : NumericDate r) : r.Needs (isDateSeparator ·) := by
  have hsep : ∀ sep ∈ dateSeparators, (char sep).Needs (isDateSeparator ·) := by
    intro sep hsep c hc
    obtain rfl := beq_iff_eq.mp hc
    simpa [isDateSeparator] using hsep
  cases h with
  | monthDayYear h => exact needs_all_iff.mpr ⟨char _, by simp, hsep _ h⟩
  | yearMonthDay h => exact needs_all_iff.mpr ⟨char _, by simp, hsep _ h⟩
  | monthDay => exact needs_all_iff.mpr ⟨char '/', by simp, hsep '/' (by decide)⟩

/-- A numeric date token starts with a digit and has a separator. -/
theorem numericDate_of_dateToken (h : dateToken.regex.Reads u ∨ dateTokenIso.regex.Reads u) :
    (∃ c v, u = c :: v ∧ Text.isDigit c) ∧ ∃ c ∈ u, isDateSeparator c := by
  have hnumeric : ∃ rs : List Regex, (∀ r ∈ rs, NumericDate r) ∧
      (all [wordBoundary, anyOf rs, wordBoundary]).Reads u := by
    rcases h with h | h
    · refine ⟨_, ?_, h⟩
      simp only [List.mem_append, List.mem_map, List.mem_singleton]
      rintro r (⟨sep, hsep, rfl⟩ | rfl)
      · exact .monthDayYear hsep
      · exact .monthDay
    · refine ⟨_, ?_, h⟩
      simp only [List.mem_map]
      rintro r ⟨sep, hsep, rfl⟩
      exact .yearMonthDay hsep
  obtain ⟨rs, hrs, hread⟩ := hnumeric
  refine ⟨hread.exists_cons ?_, hread.exists_mem ?_⟩
  · exact .inr ⟨rfl, .inl (starts_anyOf fun r hr => (hrs r hr).starts)⟩
  · exact .inr (.inl (needs_anyOf_iff.mpr fun r hr => (hrs r hr).needs))

/-- Every name of a month has a letter other than those of "of". -/
theorem needs_monthName : monthName.Needs (isArithmeticOrOf · = false) := by
  simp only [monthName, stem, opt, needs_anyOf_iff, List.forall_mem_cons, Needs, needs_word_iff,
    and_false, or_false, List.not_mem_nil, false_imp_iff, implies_true, and_true]
  decide

theorem exists_mem_of_dateTokenText (h : dateTokenText.regex.Reads u) :
    ∃ c ∈ u, isArithmeticOrOf c = false := by
  refine h.exists_mem ⟨?_, ?_⟩
  · exact needs_all_iff.mpr ⟨_, by simp, needs_monthName⟩
  · exact needs_all_iff.mpr ⟨_, by simp, needs_monthName⟩

/-! ## Ratings -/

/-- A rating code has a letter, or it ends with a percent sign and has no separator of dates. -/
theorem cases_of_percentageCode (h : percentageCode.regex.Reads u) :
    (∃ c ∈ u, isArithmeticOrOf c = false) ∨
      (∀ c ∈ u, isDateSeparator c = false) ∧ ∃ v, u = v ++ ['%'] := by
  rw [percentageCode, ofRegex, reads_alt_iff] at h
  rcases h with h | h
  · have hword : (words ["pd", "rating"]).Needs (isArithmeticOrOf · = false) := by
      simp only [words, needs_anyOf_iff, List.forall_mem_map, needs_word_iff]
      decide
    exact .inl (h.exists_mem (needs_all_iff.mpr ⟨_, List.mem_cons_self .., hword⟩))
  · have hdigit : digit.Over (isDateSeparator · = false) := fun _ =>
      isDateSeparator_eq_false_of_isDigit
    have hwhite : (many white).Over (isDateSeparator · = false) := fun _ =>
      isDateSeparator_eq_false_of_isWhite
    have hpercent : (char '%').Over (isDateSeparator · = false) := by
      intro c hc
      obtain rfl := beq_iff_eq.mp hc
      decide
    refine .inr ⟨h.forall_mem ?_, ?_⟩
    · exact ⟨⟨over_times hdigit 1, over_upTo hdigit 2⟩, hwhite, hpercent⟩
    · simp only [all, reads_seq_iff] at h
      obtain ⟨a, -, rfl, -, b, c, rfl, -, hc⟩ := h
      obtain ⟨x, rfl, hx⟩ := reads_one_iff.mp hc
      obtain rfl := beq_iff_eq.mp hx
      exact ⟨a ++ b, by simp⟩

end Snippet.Pattern
