import Snippet.Proofs.Detection.Figures
import Snippet.Proofs.Detection.PhoneNumber
import Snippet.Proofs.Pipeline.Splits
import Snippet.Proofs.Pipeline.Surroundings
import Snippet.Proofs.Rating.Code
import Snippet.Proofs.Rating.Payment

/-!
# Rating codes in the pipeline

A rating code is neither a date nor a phone number, so the detector of rating codes has the first
match (`Pipeline.IsStandard.head?_log_code`). The pipeline tries the seed of the text first. The
seed is all of a code or a part that is undetected, but for one case: where white space stands
behind the word and a percent sign behind the digits, the digits with their sign are the seed, and
they are a code themselves. There the word is kept in front of the payment, and in all other cases
the payment replaces the whole code (`Pipeline.process_code`).
-/

namespace Snippet

open Pattern Regex

/-- A text with fewer than ten digits is no phone number. -/
theorem Phone.detect_eq_noMatch_of_length {t : Text} (h : (t.filter Text.isDigit).length < 10) :
    detect t = .noMatch := by
  refine detect_eq_noMatch fun w n r ht _ hread => ?_
  obtain ⟨code, rest, hfilter, -, hlength⟩ := filter_isDigit_of_reads hread
  have hle := ((List.infix_append w n r).sublist.filter Text.isDigit).length_le
  rw [List.append_assoc, ← ht, hfilter, List.length_append] at hle
  omega

namespace Rating.Code

variable (c : Code)

/-! ## The characters of a code -/

theorem map_foldCase_word :
    c.word = [] ∨ ∃ w ∈ ["pd", "rating"], c.word.map Text.foldCase = w.toList := by
  have hlower : ∀ w ∈ ["pd", "rating"], w.toList.all Char.isLower := by decide
  refine c.lower_word.imp And.left fun hword => ?_
  obtain ⟨w, hw, heq⟩ : ∃ w ∈ ["pd", "rating"], Text.lower c.word = w.toList := by simpa using hword
  exact ⟨w, hw, Text.map_foldCase_eq_of_lower (hlower w hw) heq⟩

theorem isForm_of_mem_word {x : Char} (hx : x ∈ c.word) : Text.isForm x :=
  isForm_of_mem_ratingName c.map_foldCase_word x hx

/-- What stands behind the word. -/
theorem cases_of_mem {x : Char} (hx : x ∈ c.gap ++ (c.digits ++ c.mark)) :
    Text.isWhite x ∨ x.isDigit ∨ x = '%' := by
  rcases List.mem_append.mp hx with hx | hx
  · exact .inl (Text.isWhite_of_isBlank c.isBlank_gap hx)
  · rcases List.mem_append.mp hx with hx | hx
    · exact .inr (.inl (c.isDigit_digits x hx))
    · exact (c.isPercentMark.mem_cases hx).imp_right .inr

theorem isArithmetic_of_mem {x : Char} (hx : x ∈ c.gap ++ (c.digits ++ c.mark)) :
    isArithmetic x := by
  rcases c.cases_of_mem hx with hx | hx | rfl
  · exact isArithmetic_of_isWhite hx
  · exact isArithmetic_of_isDigit (Text.isDigit_of_isDigit hx)
  · decide

theorem filter_text : c.text.filter Text.isDigit = c.digits := by
  have hword : c.word.filter Text.isDigit = [] := List.filter_eq_nil_iff.mpr fun x hx hdigit => by
    have hform := c.isForm_of_mem_word hx
    rw [Text.isForm_eq_false_of_isDigit hdigit] at hform
    cases hform
  have hgap : c.gap.filter Text.isDigit = [] := List.filter_eq_nil_iff.mpr fun x hx hdigit =>
    Text.not_mem_of_isBlank c.isBlank_gap (Text.isWhite_eq_false_of_isDigit hdigit) hx
  have hmark : c.mark.filter Text.isDigit = [] := List.filter_eq_nil_iff.mpr fun x hx => by
    simp [c.isPercentMark.isDigit_eq_false hx]
  have hdigits : c.digits.filter Text.isDigit = c.digits := List.filter_eq_self.mpr fun x hx =>
    Text.isDigit_of_isDigit (c.isDigit_digits x hx)
  simp [text, hword, hgap, hmark, hdigits]

theorem not_phone : Phone.detect c.text = .noMatch :=
  Phone.detect_eq_noMatch_of_length (by
    have := c.length_digits
    rw [c.filter_text]
    omega)

theorem trim_text : Text.trim c.text = c.text := by
  refine Text.trim_eq_self (fun x hx => ?_) fun x hx => ?_
  · rcases c.lower_word with ⟨hword, hgap⟩ | hword
    · obtain ⟨y, t, hdigits⟩ := List.exists_cons_of_ne_nil c.digits_ne_nil
      obtain rfl : y = x := by simpa [text, hword, hgap, hdigits] using hx
      exact Text.isWhite_eq_false_of_isDigit
        (Text.isDigit_of_isDigit (c.isDigit_digits y (by simp [hdigits])))
    · have hne : c.word ≠ [] := by
        intro hnil
        rw [hnil] at hword
        exact absurd hword (by decide)
      rw [text, List.head?_append_of_ne_nil _ hne] at hx
      exact Text.isWhite_eq_false_of_isForm (c.isForm_of_mem_word (List.mem_of_mem_head? hx))
  · rw [text, ← List.append_assoc, ← List.append_assoc] at hx
    by_cases hmark : c.mark = []
    · rw [hmark, List.append_nil, List.getLast?_append_of_ne_nil _ c.digits_ne_nil] at hx
      exact Text.isWhite_eq_false_of_isDigit
        (Text.isDigit_of_isDigit (c.isDigit_digits x (List.mem_of_getLast? hx)))
    · rw [List.getLast?_append_of_ne_nil _ hmark] at hx
      rw [c.isPercentMark.getLast?_eq x hx]
      rfl

theorem not_isBlank : ¬ Text.isBlank c.text := by
  intro hblank
  have hnil := c.trim_text
  rw [Text.trim_eq_nil_iff.mpr hblank] at hnil
  exact c.digits_ne_nil (by simp [← c.filter_text, ← hnil])

theorem leadingWhite_text : Text.leadingWhite c.text = [] := by
  rw [← c.trim_text, Text.leadingWhite_trim]

theorem trailingWhite_text : Text.trailingWhite c.text = [] := by
  rw [← c.trim_text, Text.trailingWhite_trim]

/-- A code does not have a separator of dates. -/
theorem not_mem_text {x : Char} (hx : x ∈ dateSeparators) : x ∉ c.text := by
  intro hmem
  have hform : ∀ x ∈ dateSeparators, Text.isForm x = false := by decide
  have hother : ∀ x ∈ dateSeparators, Text.isWhite x = false ∧ x.isDigit = false ∧ x ≠ '%' := by
    decide
  rcases List.mem_append.mp hmem with hword | hrest
  · have := c.isForm_of_mem_word hword
    rw [hform x hx] at this
    cases this
  · obtain ⟨hwhite, hdigit, hne⟩ := hother x hx
    rcases c.cases_of_mem hrest with h | h | h
    · rw [hwhite] at h
      cases h
    · rw [hdigit] at h
      cases h
    · exact hne h

theorem namesNoMonth : NamesNoMonth c.text := by
  obtain ⟨x, rest, hrest, hx⟩ := c.startsOutside_gap
  have hbehind : NamesNoMonth rest := .of_isArithmetic fun y hy =>
    c.isArithmetic_of_mem (hrest ▸ List.mem_cons_of_mem x hy)
  have hword : NamesNoMonth c.word := by
    rcases c.map_foldCase_word with hnil | ⟨w, hw, heq⟩
    · rw [hnil]
      exact .of_forall (by simp)
    · have hall : ∀ w ∈ ["pd", "rating"], ∀ s ∈ w.toList.tails, ∀ names ∈ Calendar.monthNames,
          ∀ w' ∈ names, w'.toList <+: s → (s.drop w'.length).head?.any Char.isLower := by
        decide
      exact .of_tails (heq ▸ hall w hw)
  rw [text, hrest]
  exact hword.append_cons hbehind hx

theorem dateless : Dateless c.text := by
  have hcount : ∀ x ∈ dateSeparators, c.text.count x ≤ 1 := fun x hx => by
    rw [List.count_eq_zero.mpr (c.not_mem_text hx)]
    exact Nat.zero_le 1
  exact .of_noNumericDate
    (.of_count (c.not_mem_text (by decide)) (hcount '.' (by decide)) (hcount '-' (by decide)))
    c.namesNoMonth

/-! ## The seed of a code -/

/-- The digits of a code with their percent sign. -/
def bare (hmark : c.mark ≠ []) : Code where
  word := []
  gap := []
  digits := c.digits
  mark := c.mark
  lower_word := .inl ⟨rfl, rfl⟩
  isBlank_gap := rfl
  digits_ne_nil := c.digits_ne_nil
  length_digits := c.length_digits
  isDigit_digits := c.isDigit_digits
  isPercentMark := c.isPercentMark
  word_or_mark := .inr hmark

theorem undetected_digits (today : Date) : Undetected today c.digits := by
  refine Number.IsFigure.undetected (.positive (Number.isUnsigned_of_forall c.isDigit_digits))
    (Phone.detect_eq_noMatch_of_length ?_)
  have := (List.filter_sublist (p := Text.isDigit) (l := c.digits)).length_le
  have := c.length_digits
  omega

/-- The word and the digits are not cut. -/
theorem opensSeed_eq_false {x : Char} (hx : x ∈ c.word ++ c.digits) : Seed.opensSeed x = false := by
  have hbracket : ∀ x ∈ ['(', '[', '\x7b'], Text.isForm x = false ∧ x.isDigit = false := by decide
  rw [Seed.opensSeed, Bool.or_eq_false_iff, ← Bool.not_eq_true, ← Bool.not_eq_true,
    List.contains_iff_mem]
  rcases List.mem_append.mp hx with hx | hx
  · have hform := c.isForm_of_mem_word hx
    refine ⟨fun hwhite => ?_, fun hmem => ?_⟩
    · rw [Text.isForm_eq_false_of_isWhite hwhite] at hform
      cases hform
    · rw [(hbracket x hmem).1] at hform
      cases hform
  · have hdigit := c.isDigit_digits x hx
    refine ⟨fun hwhite => ?_, fun hmem => ?_⟩
    · rw [Text.isWhite_eq_false_of_isDigit (Text.isDigit_of_isDigit hdigit)] at hwhite
      cases hwhite
    · rw [(hbracket x hmem).2] at hdigit
      cases hdigit

/-- The word ends with a letter that stands in no run of arithmetic. -/
theorem exists_last_word (h : c.word ≠ []) : ∃ name d, c.word = name ++ [d] ∧ isRun d = false := by
  obtain ⟨w, hw, heq⟩ := c.map_foldCase_word.resolve_left h
  obtain ⟨name, d, hword⟩ := (List.eq_nil_or_concat' c.word).resolve_left h
  refine ⟨name, d, hword, ?_⟩
  have hlast : ∀ w ∈ ["pd", "rating"], ∀ x ∈ w.toList.getLast?, x ∈ ['d', 'g'] := by decide
  have hmem : Text.foldCase d ∈ ['d', 'g'] := hlast w hw _ (by simp [← heq, hword])
  have hform := c.isForm_of_mem_word (x := d) (by simp [hword])
  rw [isRun, isArithmetic_eq_false_of_isForm hform, Bool.false_or, Bool.or_eq_false_iff,
    beq_eq_false_iff_ne, beq_eq_false_iff_ne]
  constructor <;> rintro rfl <;> exact absurd hmem (by decide)

/-- Without white space behind the word, the seed is all of the code or has none of its digits. -/
theorem seed_of_gap_eq_nil (h : c.gap = []) :
    (Seed.ofText c.text).lead = [] ∨ ∀ x ∈ (Seed.ofText c.text).body, Text.isDigit x = false := by
  have hseed := Seed.ofText_trim c.not_isBlank
  rw [c.trim_text] at hseed
  rw [hseed]
  cases hstart : Seed.start? c.text with
  | none => exact .inl rfl
  | some k =>
    have htext : c.text = [] ++ ((c.word ++ c.digits) ++ c.mark) := by simp [text, h]
    have hsplits := Seed.splitsAt_of_start? c.dateless.dateStart?_eq_none hstart
    rw [htext] at hsplits
    rcases hsplits.drop_cases fun x hx => c.opensSeed_eq_false hx with ⟨s, hs, hdrop⟩ | hsuffix
    · -- nothing is dropped
      rw [List.suffix_nil.mp hs, ← htext] at hdrop
      have hall := List.take_append_drop k c.text
      rw [hdrop] at hall
      exact .inl (List.append_left_eq_self.mp hall)
    · exact .inr fun x hx => c.isPercentMark.isDigit_eq_false (hsuffix.mem (htext ▸ hx))

/-- Behind white space, the digits and their percent sign are the seed. -/
theorem seed_of_gap_ne_nil (h : c.gap ≠ []) :
    Seed.ofText c.text = ⟨c.word ++ c.gap, c.digits ++ c.mark⟩ := by
  have hword : c.word ≠ [] := fun hnil => by
    rcases c.lower_word with ⟨-, hgap⟩ | hword
    · exact h hgap
    · rw [hnil] at hword
      exact absurd hword (by decide)
  obtain ⟨name, d, hlast, hd⟩ := c.exists_last_word hword
  have htext : c.text = name ++ d :: (c.gap ++ (c.digits ++ c.mark)) := by simp [text, hlast]
  have hdate := c.dateless.dateStart?_eq_none
  have hfirst : ∀ x ∈ (c.digits ++ c.mark).head?, Text.isWhite x = false := fun x hx => by
    rw [List.head?_append_of_ne_nil _ c.digits_ne_nil] at hx
    exact Text.isWhite_eq_false_of_isDigit
      (Text.isDigit_of_isDigit (c.isDigit_digits x (List.mem_of_mem_head? hx)))
  have hoperand : Seed.hasOperand (c.digits ++ c.mark) := by
    obtain ⟨x, t, hdigits⟩ := List.exists_cons_of_ne_nil c.digits_ne_nil
    refine List.any_eq_true.mpr ⟨x, by simp [hdigits], ?_⟩
    rw [c.isDigit_digits x (by simp [hdigits]), Bool.true_or]
  have hseed := Seed.ofText_trim c.not_isBlank
  rw [c.trim_text] at hseed
  rw [htext] at hdate
  rw [hseed, htext, Seed.start?_of_label h c.isBlank_gap (by simp [c.digits_ne_nil])
    (fun x hx => by rw [isRun, c.isArithmetic_of_mem (List.mem_append_right _ hx)]; rfl) hfirst hd
    hoperand hdate]
  have hsplit : name ++ d :: (c.gap ++ (c.digits ++ c.mark)) =
      (name ++ d :: c.gap) ++ (c.digits ++ c.mark) := by simp
  dsimp only
  rw [hsplit, List.take_left, List.drop_left, hlast, List.append_assoc]
  rfl

/-- The seed is all of the code or is undetected, unless there is white space behind the word and a
percent sign. -/
theorem seed_cases (today : Date) (h : c.gap = [] ∨ c.mark = []) :
    (Seed.ofText c.text).lead = [] ∨ Undetected today (Seed.ofText c.text).body := by
  by_cases hgap : c.gap = []
  · exact (c.seed_of_gap_eq_nil hgap).imp_right undetected_of_forall
  · rw [c.seed_of_gap_ne_nil hgap, h.resolve_left hgap, List.append_nil]
    exact .inr (c.undetected_digits today)

end Rating.Code

/-! ## Codes in a pipeline -/

namespace Pipeline

variable {config : Config} {today : Date} {p : Pipeline} {ratings : RatingTable} {weeks : Float}
  {amount : Text}

open Rating (Code)

theorem IsStandard.withRatings (hp : p.IsStandard config today) (ratings : RatingTable) :
    (p.withRatings ratings).IsStandard config today :=
  ⟨hp.config_eq, hp.today_eq, hp.detectors_eq⟩

/-- What the pipeline pays for a percentage. -/
structure Pays (p : Pipeline) (config : Config) (percentage : Nat) (amount : Text) : Prop where
  isDisabled_eq : config.isDisabled "rating" = false
  exists_weeks : ∃ weeks, p.ratings.weeks? percentage = some weeks ∧
    Number.currencyText? (weeks * config.weeklyRate) = some amount

/-- **A code is matched first by the detector of rating codes.** -/
theorem IsStandard.head?_log_code (hp : p.IsStandard config today) (c : Code)
    (hpays : p.Pays config c.percentage amount) (scope : Scope) :
    (p.dispatch scope c.text).log.head? = some ⟨"rating", amount⟩ := by
  obtain ⟨hkept, weeks, hweeks, hamount⟩ := hpays
  rw [hp.head?_log_dispatch]
  obtain ⟨base, hbase⟩ : ∃ base : Context, base = ⟨config, p.ratings, today, scope, []⟩ := ⟨_, rfl⟩
  have hdate : (Detector.dateRange DateRange.formatter).keptMatch? base c.text = none := by
    refine Detector.keptMatch?_eq_none_iff.mpr (.inr ?_)
    rw [Detector.firstMatch?_dateRange, c.dateless.ofText?_eq_none]
    rfl
  have hphone : Phone.detector.keptMatch? base c.text = none := by
    refine Detector.keptMatch?_eq_none_iff.mpr (.inr ?_)
    rw [Detector.firstMatch?_phone, c.not_phone]
    rfl
  have hrating : Rating.detector.keptMatch? base c.text = some ⟨"rating", amount⟩ := by
    have hdetect : Rating.detector.detect { base with log := [] } c.text = .ok (.text amount) := by
      change Rating.detect _ c.text = _
      rw [Rating.detect, c.trim_text, c.percentage?_text, hbase]
      simp only [hweeks, hamount]
      rfl
    have hkept : ¬ base.config.isDisabled Rating.detector.id := by
      rw [hbase, Bool.not_eq_true]
      exact hkept
    rw [Detector.keptMatch?, if_neg hkept, Detector.firstMatch?, Detector.outcome, hdetect]
    rfl
  rw [← hbase, Detector.standard, List.findSome?_cons, hdate, List.findSome?_cons, hphone,
    List.findSome?_cons, hrating]

/-- The first match of a code is of all of it, or of the digits with their percent sign where these
are the seed. -/
theorem IsStandard.output_code (hp : p.IsStandard config today) (c : Code)
    (hpays : p.Pays config c.percentage amount) :
    (p.process c.text).matchedId = some "rating" ∧
      (p.process c.text).text =
        (if c.gap = [] ∨ c.mark = [] then [] else c.word ++ c.gap) ++ amount := by
  have htrim := c.trim_text
  by_cases hcut : c.gap = [] ∨ c.mark = []
  · -- the seed is the code or has no match
    have hseed : (Seed.ofText (Text.trim c.text)).lead = [] ∨
        (p.dispatch .seed (Seed.ofText (Text.trim c.text)).body).log = [] := by
      rw [htrim]
      refine (c.seed_cases today hcut).imp_right fun hundetected => ?_
      rw [← List.head?_eq_none_iff, Option.eq_none_iff_forall_ne_some]
      intro first hfirst
      cases (hp.head?_log_of_undetected hundetected hfirst).2
    have hwhole : (p.dispatch .whole (Text.trim c.text)).log.head? = some ⟨"rating", amount⟩ := by
      rw [htrim]
      exact hp.head?_log_code c hpays .whole
    have hout := process_of_head?_whole c.not_isBlank hseed hwhole
    rw [if_pos hcut, List.nil_append]
    rwa [c.leadingWhite_text, c.trailingWhite_text, List.nil_append, List.append_nil] at hout
  · rw [if_neg hcut]
    rw [not_or] at hcut
    obtain ⟨hgap, hmark⟩ := hcut
    have hseed : Seed.ofText (Text.trim c.text) = ⟨c.word ++ c.gap, (c.bare hmark).text⟩ := by
      rw [htrim]
      exact c.seed_of_gap_ne_nil hgap
    have hlead : (Seed.ofText (Text.trim c.text)).lead ≠ [] := by
      rw [hseed]
      exact fun hnil => hgap (List.append_eq_nil_iff.mp hnil).2
    have hfirst := hp.head?_log_code (c.bare hmark) hpays .seed
    have hout := process_of_head?_seed c.not_isBlank hlead (by rw [hseed]; exact hfirst)
    rwa [c.leadingWhite_text, c.trailingWhite_text, hseed, List.nil_append, List.append_nil] at hout

/-- **What the pipeline pays for a rating code.** It pays the weeks of the table at the weekly rate.
The payment replaces all of the code exactly if there is no white space behind the word or no
percent sign; otherwise the word is kept in front of it. -/
theorem process_code (hp : standard config today = .ok p) (ratings : RatingTable) (c : Code)
    (hkept : config.isDisabled "rating" = false)
    (hweeks : ratings.weeks? c.percentage = some weeks)
    (hfinite : (weeks * config.weeklyRate).isFinite) :
    ∃ amount, Number.currencyText? (weeks * config.weeklyRate) = some amount ∧
      ∀ w₁ w₂, Text.isBlank w₁ → Text.isBlank w₂ →
        ((p.withRatings ratings).process (w₁ ++ c.text ++ w₂)).matchedId = some "rating" ∧
        (((p.withRatings ratings).process (w₁ ++ c.text ++ w₂)).text = w₁ ++ amount ++ w₂ ↔
          c.gap = [] ∨ c.mark = []) ∧
        (c.gap ≠ [] → c.mark ≠ [] →
          ((p.withRatings ratings).process (w₁ ++ c.text ++ w₂)).text =
            w₁ ++ (c.word ++ c.gap ++ amount) ++ w₂) := by
  have hsome : Number.currencyText? (weeks * config.weeklyRate) ≠ none := fun hnone => by
    rw [Number.currencyText?_eq_none_iff.mp hnone] at hfinite
    cases hfinite
  obtain ⟨amount, hamount⟩ := Option.ne_none_iff_exists'.mp hsome
  refine ⟨amount, hamount, fun w₁ w₂ h₁ h₂ => ?_⟩
  have hpays : (p.withRatings ratings).Pays config c.percentage amount :=
    ⟨hkept, weeks, hweeks, hamount⟩
  obtain ⟨hid, htext⟩ := ((isStandard_of_standard hp).withRatings ratings).output_code c hpays
  rw [matchedId_process_between _ _ h₁ h₂, text_process_between _ _ h₁ h₂, htext]
  refine ⟨hid, ⟨fun heq => ?_, fun hcut => by rw [if_pos hcut, List.nil_append]⟩,
    fun hgap hmark => by rw [if_neg (by simp [hgap, hmark])]⟩
  by_contra hcut
  rw [if_neg hcut, List.append_left_inj, List.append_right_inj, List.append_left_eq_self] at heq
  exact hcut (.inl (List.append_eq_nil_iff.mp heq).2)

/-- A code with a word, white space and no percent sign, between white space. -/
theorem process_word_and_number : ∃ p, standard {} ⟨2026, 10, 19, by decide⟩ = .ok p ∧
    ((p.withRatings .standard).process " PD  025 ".toList).matchedId = some "rating" ∧
    ((p.withRatings .standard).process " PD  025 ".toList).text = " $29,870.00 ".toList := by
  have hvalid : (standard {} ⟨2026, 10, 19, by decide⟩).toOption.any fun _ => true := by
    decide +kernel
  obtain ⟨p, hp, -⟩ := exists_of_any_standard hvalid
  let c : Code := ⟨"PD".toList, "  ".toList, "025".toList, [], by decide, by decide, by decide,
    by decide, by decide, .none, by decide⟩
  have hweeks : RatingTable.standard.weeks? c.percentage = some 103.0 := by decide +kernel
  obtain ⟨amount, hamount, hout⟩ :=
    process_code hp .standard c (by decide) hweeks (by decide +kernel)
  obtain ⟨hid, htext, -⟩ := hout [' '] [' '] (by decide) (by decide)
  have hpaid : Number.currencyText? (103.0 * ({} : Config).weeklyRate) =
      some "$29,870.00".toList := by
    decide +kernel
  obtain rfl : "$29,870.00".toList = amount := Option.some.inj (hpaid.symm.trans hamount)
  exact ⟨p, hp, hid, htext.mpr (.inr rfl)⟩

/-- With a percent sign behind it, a number is paid for itself where white space stands in front of
it, but not where the word does. -/
theorem process_word_and_percentage : ∃ p, standard {} ⟨2026, 10, 19, by decide⟩ = .ok p ∧
    ((p.withRatings .standard).process "rating 12%".toList).text = "rating $11,310.00".toList ∧
    ((p.withRatings .standard).process "rating12%".toList).text = "$11,310.00".toList := by
  have hvalid : (standard {} ⟨2026, 10, 19, by decide⟩).toOption.any fun _ => true := by
    decide +kernel
  obtain ⟨p, hp, -⟩ := exists_of_any_standard hvalid
  have hstandard := (isStandard_of_standard hp).withRatings .standard
  let spaced : Code := ⟨"rating".toList, [' '], "12".toList, ['%'], by decide, by decide, by decide,
    by decide, by decide, .sign (w := []) rfl, by decide⟩
  let joined : Code := ⟨"rating".toList, [], "12".toList, ['%'], by decide, by decide, by decide,
    by decide, by decide, .sign (w := []) rfl, by decide⟩
  have hweeks : RatingTable.standard.weeks? 12 = some 39.0 := by decide +kernel
  have hpaid : Number.currencyText? (39.0 * ({} : Config).weeklyRate) =
      some "$11,310.00".toList := by
    decide +kernel
  have hpays : (p.withRatings .standard).Pays {} 12 "$11,310.00".toList :=
    ⟨by decide, 39.0, hweeks, hpaid⟩
  exact ⟨p, hp, (hstandard.output_code spaced hpays).2, (hstandard.output_code joined hpays).2⟩

end Pipeline

end Snippet
