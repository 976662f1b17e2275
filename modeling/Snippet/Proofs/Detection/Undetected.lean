import Snippet.Proofs.Calendar.Dateless
import Snippet.Proofs.Detection.ArithmeticText
import Snippet.Proofs.Detection.Standard
import Snippet.Proofs.Pipeline.Navigation
import Snippet.Proofs.Text.Fields

/-!
# Texts that no detector matches

A text is undetected if no standard detector matches it, navigation apart (`Undetected`). A pipeline
keeps such a text if its seed is undetected too (`Pipeline.IsStandard.text_of_undetected`). A text
without digits is undetected (`undetected_of_forall`), and so is most of what has a word in front of
its digits (`undetected_behind`).
-/

namespace Snippet

open Pattern

/-! ## Phone numbers -/

/-- A phone number that is detected stands in front of all but white space, and where the text has
no fields behind it, it is all of the text. -/
theorem Phone.exists_number {t v : Text} (h : detect t = .text v) :
    ∃ w n r, t = w ++ (n ++ r) ∧ Text.isBlank w ∧ phone.regex.Reads n ∧
      (';' ∉ t → n = Text.trim t) := by
  obtain ⟨fields, hfields⟩ := Text.splitWhere_eq (· == ';') (Text.trim t)
  generalize hfield : (Text.trim t).takeWhile (!· == ';') = field at hfields
  have hread : phone.regex.Reads (Text.trim field) := by
    rw [detect, hfields] at h
    dsimp only at h
    split at h
    · exact reads_of_matchesAll ‹_›
    · cases h
  have hblank : ¬ Text.isBlank field := by
    intro hblank
    have hlength := (starts_of_phone hread).2
    rw [Text.trim_eq_nil_iff.mpr hblank] at hlength
    exact absurd hlength (by decide)
  have htrim : field ++ (Text.trim t).dropWhile (!· == ';') = Text.trim t := by
    rw [← hfield, List.takeWhile_append_dropWhile]
  have ht : ¬ Text.isBlank t := by
    intro ht
    rw [Text.trim_eq_nil_iff.mpr ht, List.append_eq_nil_iff] at htrim
    exact hblank (htrim.1 ▸ rfl)
  refine ⟨Text.leadingWhite t ++ Text.leadingWhite field, Text.trim field, Text.trailingWhite field ++
    ((Text.trim t).dropWhile (!· == ';') ++ Text.trailingWhite t), ?_, ?_, hread, fun hnone => ?_⟩
  · conv_lhs => rw [← Text.leadingWhite_append_trim_append_trailingWhite ht, ← htrim,
      ← Text.leadingWhite_append_trim_append_trailingWhite hblank]
    simp only [List.append_assoc]
  · exact Text.isBlank_append.mpr ⟨Text.isBlank_leadingWhite t, Text.isBlank_leadingWhite field⟩
  · have hall : (Text.trim t).takeWhile (!· == ';') = Text.trim t := by
      refine List.takeWhile_eq_self_iff.mpr fun c hc => ?_
      have hne : c ≠ ';' := by
        rintro rfl
        exact hnone (Text.mem_of_mem_trim hc)
      simpa using hne
    rw [← hfield, hall, Text.trim_trim]

theorem Phone.detect_eq_noMatch {t : Text}
    (h : ∀ w n r, t = w ++ (n ++ r) → Text.isBlank w → phone.regex.Reads n →
      ¬ (';' ∉ t → n = Text.trim t)) : detect t = .noMatch := by
  cases hdetect : detect t with
  | noMatch => rfl
  | text v =>
    obtain ⟨w, n, r, ht, hw, hread, hn⟩ := exists_number hdetect
    exact absurd hn (h w n r ht hw hread)
  | sideEffect v effect =>
    have heffect := effect?_detect t
    rw [hdetect] at heffect
    cases heffect

/-! ## Other shapes that do not fit -/

section

variable {t : Text}

theorem Rating.percentage?_eq_none_of_not_reads (h : ¬ percentageCode.regex.Reads (Text.trim t)) :
    Rating.percentage? (Text.trim t) = none := by
  have hfull : percentageCode.full? (Text.trim t) = none := by
    rw [Option.eq_none_iff_forall_ne_some]
    exact fun m hm => h (occurrence_of_full? hm).reads
  simp [Rating.percentage?, hfull]

theorem Combination.detect_eq_noMatch_of_not_reads (h : ¬ combination.regex.Reads (Text.trim t)) :
    Combination.detect t = .noMatch := by
  rw [Combination.detect]
  exact if_neg fun hmatch => h (reads_of_matchesAll hmatch)

theorem Arithmetic.isCandidate_eq_false_of_not_reads
    (h : ¬ arithmeticCandidate.regex.Reads (Text.trim t)) : Arithmetic.isCandidate t = false := by
  rw [← Bool.not_eq_true]
  refine fun hcandidate => h ?_
  simp only [Arithmetic.isCandidate, Bool.and_eq_true] at hcandidate
  exact reads_of_matchesAll hcandidate.1.2

theorem Arithmetic.process_eq_none_of_not_reads
    (h : ¬ arithmeticCandidate.regex.Reads (Text.trim t)) (template : Option Text) :
    Arithmetic.process template t = none := by
  rw [Arithmetic.process, Arithmetic.isCandidate_eq_false_of_not_reads h,
    if_neg Bool.false_ne_true]

theorem Unit.conversion?_eq_none_of_not_reads (h : ¬ unitConversion.regex.Reads (Text.trim t)) :
    Unit.conversion? t = none := by
  have hfull : unitConversion.full? (Text.trim t) = none := by
    rw [Option.eq_none_iff_forall_ne_some]
    exact fun m hm => h (occurrence_of_full? hm).reads
  simp [Unit.conversion?, Unit.parts?, hfull]

theorem Clock.answer?_eq_none_of_not_reads (h : ¬ timeCalc.regex.Reads (Text.trim t)) :
    Clock.answer? t = none := by
  have hfull : timeCalc.full? (Text.trim t) = none := by
    rw [Option.eq_none_iff_forall_ne_some]
    exact fun m hm => h (occurrence_of_full? hm).reads
  simp [Clock.answer?, Clock.parts?, hfull]

end

/-! ## Undetected texts -/

/-- No standard detector matches the text, navigation apart. -/
structure Undetected (today : Date) (t : Text) : Prop where
  dateRange_eq : DateRange.ofText? today t = none
  phone_eq : Phone.detect t = .noMatch
  rating_eq : Rating.percentage? (Text.trim t) = none
  combination_eq : Combination.detect t = .noMatch
  arithmetic_eq : ∀ template, Arithmetic.process template t = none
  unit_eq : Unit.conversion? t = none
  clock_eq : Clock.answer? t = none

variable {today : Date} {name t v w : Text} {c : Char}

/-- The shapes that need a digit do not fit a text without one. -/
theorem not_reads_of_forall {p : Pattern} {u : Text}
    (hp : p ∈ [phone, combination, arithmeticCandidate, unitConversion, timeCalc])
    (h : ∀ c ∈ u, Text.isDigit c = false) : ¬ p.regex.Reads u := by
  intro hread
  obtain ⟨a, c, b, rfl, -, hdigit⟩ := hread.exists_append_cons (leads_digit p hp)
  rw [h c (by simp)] at hdigit
  cases hdigit

/-- A text without dates that fits none of the shapes is undetected. -/
theorem undetected_of_not_reads (hdate : Dateless t)
    (hphone : ∀ w n r, t = w ++ (n ++ r) → Text.isBlank w → ¬ phone.regex.Reads n)
    (hrating : ¬ percentageCode.regex.Reads (Text.trim t))
    (h : ∀ p ∈ [combination, arithmeticCandidate, unitConversion, timeCalc],
      ¬ p.regex.Reads (Text.trim t)) : Undetected today t where
  dateRange_eq := hdate.ofText?_eq_none today
  phone_eq := Phone.detect_eq_noMatch fun w n r hsplit hw hn => absurd hn (hphone w n r hsplit hw)
  rating_eq := Rating.percentage?_eq_none_of_not_reads hrating
  combination_eq := Combination.detect_eq_noMatch_of_not_reads (h _ (by simp))
  arithmetic_eq := Arithmetic.process_eq_none_of_not_reads (h _ (by simp))
  unit_eq := Unit.conversion?_eq_none_of_not_reads (h _ (by simp))
  clock_eq := Clock.answer?_eq_none_of_not_reads (h _ (by simp))

/-- **A text without digits is undetected.** -/
theorem undetected_of_forall (h : ∀ c ∈ t, Text.isDigit c = false) : Undetected today t := by
  refine undetected_of_not_reads (.of_forall h) ?_ (fun hread => ?_) fun p hp =>
    not_reads_of_forall (List.mem_cons_of_mem _ hp) fun c hc => h c (Text.mem_of_mem_trim hc)
  · rintro w n r rfl -
    exact not_reads_of_forall (by simp) fun c hc => h c (by simp [hc])
  · obtain ⟨c, hc, hdigit⟩ := hread.exists_mem (needs_digit percentageCode (by simp))
    rw [h c (Text.mem_of_mem_trim hc)] at hdigit
    cases hdigit

section

variable (hname : ∀ x ∈ name, Text.isDigit x = false) (hc : isArithmetic c = false)
include hname hc

/-- A digit behind the name has a character in front of it that is not of arithmetic. -/
theorem isDigit_eq_false_behind {a b : Text} {x : Char} (h : name ++ c :: v = a ++ x :: b)
    (ha : ∀ y ∈ a, isArithmetic y) : Text.isDigit x = false := by
  have hother : ∀ x, isArithmetic x → x ≠ c := by
    rintro x hx rfl
    rw [hc] at hx
    cases hx
  rw [← Bool.not_eq_true]
  intro hdigit
  have hmem : c ∉ a ++ [x] := by
    intro hmem
    rcases List.mem_append.mp hmem with hmem | hmem
    · exact hother c (ha c hmem) rfl
    · exact hother x (isArithmetic_of_isDigit hdigit) (List.mem_singleton.mp hmem).symm
  obtain ⟨z, rfl, -⟩ := Text.exists_of_not_mem_left (h.trans (List.append_cons a x b)) hmem
  rw [hname x (by simp)] at hdigit
  cases hdigit

/-- The shapes with only characters of arithmetic in front of their first digit do not fit. -/
theorem not_reads_behind {p : Pattern}
    (hp : p ∈ [phone, combination, arithmeticCandidate, unitConversion, timeCalc]) {n r : Text}
    (hw : Text.isBlank w) (h : name ++ c :: v = w ++ (n ++ r)) : ¬ p.regex.Reads n := by
  intro hread
  obtain ⟨a, x, b, rfl, ha, hdigit⟩ := hread.exists_append_cons (leads_digit p hp)
  have hsplit : name ++ c :: v = (w ++ a) ++ x :: (b ++ r) := by simp [h]
  rw [isDigit_eq_false_behind hname hc hsplit] at hdigit
  · cases hdigit
  · intro y hy
    rcases List.mem_append.mp hy with hy | hy
    · exact isArithmetic_of_isWhite (Text.isWhite_of_isBlank hw hy)
    · exact ha y hy

/-- **A text without dates and ratings is undetected if a character that is not of arithmetic stands
in front of its digits.** -/
theorem undetected_behind (hdate : Dateless (name ++ c :: v))
    (hrating : ¬ percentageCode.regex.Reads (Text.trim (name ++ c :: v))) :
    Undetected today (name ++ c :: v) := by
  have hblank : ¬ Text.isBlank (name ++ c :: v) := by
    intro hblank
    rw [isArithmetic_of_isWhite (Text.isWhite_of_isBlank hblank (by simp))] at hc
    cases hc
  refine undetected_of_not_reads hdate ?_ hrating fun p hp => ?_
  · exact fun w n r hsplit hw => not_reads_behind hname hc (by simp) hw hsplit
  · exact not_reads_behind hname hc (List.mem_cons_of_mem _ hp) (Text.isBlank_leadingWhite _)
      (Text.leadingWhite_append_trim_append_trailingWhite hblank).symm

end

/-- White space in front of a text changes nothing. -/
theorem Undetected.white_append (hw : Text.isBlank w) (h : Undetected today t) (hdate : Dateless t) :
    Undetected today (w ++ t) := by
  have htrim : Text.trim (w ++ t) = Text.trim t := by
    simpa using Text.trim_between hw (show Text.isBlank [] from rfl)
  refine ⟨(hdate.white_append hw).ofText?_eq_none today, ?_, ?_, ?_, fun template => ?_, ?_, ?_⟩
  · rw [← h.phone_eq, Phone.detect, Phone.detect, htrim]
  · rw [htrim, h.rating_eq]
  · rw [← h.combination_eq, Combination.detect, Combination.detect, htrim]
  · have harith := h.arithmetic_eq template
    rw [Arithmetic.process, Arithmetic.isCandidate] at harith ⊢
    rwa [htrim]
  · rw [← h.unit_eq, Unit.conversion?, Unit.conversion?, htrim]
  · rw [← h.clock_eq, Clock.answer?, Clock.answer?, htrim]

/-! ## Undetected texts in a pipeline -/

namespace Undetected

variable {base : Context} {d : Detector}

theorem firstMatch?_eq_none (h : Undetected base.today t)
    (hd : d ∈ Detector.textual DateRange.formatter Arithmetic.formatter) :
    d.firstMatch? base t = none := by
  simp only [Detector.textual, List.mem_cons, List.not_mem_nil, or_false] at hd
  rcases hd with rfl | rfl | rfl | rfl | rfl | rfl | rfl
  · rw [Detector.firstMatch?_dateRange, h.dateRange_eq]
    rfl
  · rw [Detector.firstMatch?_phone, h.phone_eq]
    rfl
  · refine Detector.firstMatch?_eq_none_of_detect ?_
    show Rating.detect _ t = _
    rw [Rating.detect, h.rating_eq]
    rfl
  · refine Detector.firstMatch?_eq_none_of_detect ?_
    show Except.ok (Combination.detect t) = _
    rw [h.combination_eq]
  · rw [Detector.firstMatch?_arithmetic, h.arithmetic_eq]
    rfl
  · refine Detector.firstMatch?_eq_none_of_detect ?_
    simp only [Unit.detector, h.unit_eq]
    rfl
  · refine Detector.firstMatch?_eq_none_of_detect ?_
    show Except.ok (Outcome.ofOption (Clock.answer? t)) = _
    rw [h.clock_eq]
    rfl

end Undetected

namespace Pipeline.IsStandard

variable {p : Pipeline} {config : Config} {raw : Text}

/-- An undetected text has no match, or it is the whole input and kept by navigation. -/
theorem head?_log_of_undetected (hp : p.IsStandard config today) (h : Undetected today t)
    {scope : Scope} {first : MatchRecord} (hfirst : (p.dispatch scope t).log.head? = some first) :
    first = ⟨"navigation", t⟩ ∧ scope = .whole := by
  rw [hp.head?_log_dispatch, Detector.standard_eq, List.findSome?_append, List.findSome?_eq_none_iff.mpr
    fun d hd => Detector.keptMatch?_eq_none_iff.mpr (.inr (h.firstMatch?_eq_none hd)), Option.none_or,
    List.findSome?_singleton] at hfirst
  obtain ⟨-, hfirst⟩ := Detector.firstMatch?_of_keptMatch? hfirst
  change (Navigation.detect _ t).record? _ = some first at hfirst
  rcases Navigation.detect_cases ⟨config, p.ratings, today, scope, []⟩ t with
    hnone | ⟨effect, heffect, -, -, hscope, -⟩
  · rw [hnone] at hfirst
    cases hfirst
  · rw [heffect] at hfirst
    cases hfirst
    exact ⟨rfl, hscope⟩

/-- **A pipeline keeps an undetected text, if its seed is the whole text or undetected too.** -/
theorem text_of_undetected (hp : p.IsStandard config today) (h : Undetected today (Text.trim raw))
    (hseed : (Seed.ofText (Text.trim raw)).lead = [] ∨
      Undetected today (Seed.ofText (Text.trim raw)).body) :
    (p.process raw).text = raw := by
  by_cases hraw : Text.isBlank raw
  · rw [process_of_isBlank hraw]
    rfl
  · have hseed : p.seedMatch? (Text.trim raw) = none := by
      refine (seedMatch?_eq_none_iff _).mpr (hseed.imp_right fun hseed => ?_)
      rw [← List.head?_eq_none_iff, Option.eq_none_iff_forall_ne_some]
      intro first hfirst
      cases (hp.head?_log_of_undetected hseed hfirst).2
    rw [process_of_seedMatch?_eq_none hraw hseed, (p.wellFormed_dispatch ..).primary_eq]
    cases hfirst : (p.dispatch .whole (Text.trim raw)).log.head? with
    | none => rfl
    | some first =>
      have hkept := (hp.head?_log_of_undetected h hfirst).1
      simp only [Option.map_some, Option.getD_some, Output.ofDispatch, hkept, List.append_assoc]
      exact Text.leadingWhite_append_trim_append_trailingWhite hraw

end Pipeline.IsStandard

end Snippet
