import Snippet.Detection.Standard
import Snippet.Proofs.Arithmetic.Cleaning
import Snippet.Proofs.Calendar.DateToken
import Snippet.Proofs.Detection.Dispatch
import Snippet.Proofs.Text.Trimming

/-!
# What the detectors make of arithmetic texts

A text of arithmetic has neither the letters of a combined value, of a unit or of a duration nor the
colon of a clock, so only the detectors of date ranges, of phone numbers, of ratings and of
arithmetic may match it, and navigation where all of the input is looked at. A rating is told by the
percent sign at its end.
-/

namespace Snippet

open Pattern (isArithmeticOrOf isDateSeparator isOfLetter)

theorem Match.mem_of_mem_text? {m : Match} {t y : Text} {index : Nat} (h : m.text? t index = some y)
    {c : Char} (hc : c ∈ y) : c ∈ t := by
  obtain ⟨span, -, rfl⟩ := Option.map_eq_some_iff.mp h
  exact ((List.take_sublist _ _).trans (List.drop_sublist _ _)).mem hc

namespace Arithmetic

variable {template : Option Text} {t v : Text}

theorem forall_mem_of_isCandidate (h : isCandidate t) : ∀ c ∈ Text.trim t, isArithmeticOrOf c := by
  simp only [isCandidate, Bool.and_eq_true] at h
  obtain ⟨⟨-, hshape⟩, -⟩ := h
  exact Pattern.forall_mem_of_arithmeticCandidate (Pattern.reads_of_matchesAll hshape)

/-- A text that is replaced is arithmetic, and it cleans to an expression with a value. -/
theorem of_process (h : process template t = some v) :
    isCandidate t ∧ ∃ e x, clean? (Text.trim t) = some e ∧ evaluate e = some x := by
  unfold process at h
  split at h
  · rename_i hcandidate
    obtain ⟨a, ha, -⟩ := Option.map_eq_some_iff.mp h
    obtain ⟨e, he, ha⟩ := Option.bind_eq_some_iff.mp ha
    obtain ⟨x, hx, -⟩ := Option.bind_eq_some_iff.mp ha
    exact ⟨hcandidate, e, x, he, hx⟩
  · cases h

/-- What is known of a trimmed text that is replaced by its value. -/
structure Valued (t : Text) : Prop where
  isArithmeticOrOf : ∀ c ∈ t, Pattern.isArithmeticOrOf c
  exists_isDigit : ∃ c ∈ t, c.isDigit
  /-- It is not a rating, if it has the word "of". -/
  getLast?_ne : ∀ c ∈ t, isOfLetter c → t.getLast? ≠ some '%'

theorem valued_of_process (h : process template t = some v) : Valued (Text.trim t) := by
  obtain ⟨hcandidate, e, x, he, hx⟩ := of_process h
  refine ⟨forall_mem_of_isCandidate hcandidate, exists_isDigit_of_clean? he hx, ?_⟩
  exact fun c hc hletter => getLast?_ne_percent_of_clean? he hc hletter

end Arithmetic

section

variable {t : Text} (ht : ∀ c ∈ t, isArithmeticOrOf c)
include ht

theorem not_exists_mem_trim : ¬ ∃ c ∈ Text.trim t, isArithmeticOrOf c = false := by
  rintro ⟨c, hc, hother⟩
  rw [ht c (Text.mem_of_mem_trim hc)] at hother
  cases hother

theorem Combination.detect_eq_noMatch : Combination.detect t = .noMatch := by
  unfold Combination.detect
  dsimp only
  rw [if_neg]
  intro h
  exact not_exists_mem_trim ht
    (Pattern.exists_mem_of_combination (Pattern.reads_of_matchesAll h))

theorem Unit.conversion?_eq_none : Unit.conversion? t = none := by
  have hfull : Pattern.unitConversion.full? (Text.trim t) = none := by
    rw [Option.eq_none_iff_forall_ne_some]
    intro m hm
    exact not_exists_mem_trim ht
      (Pattern.exists_mem_of_unitConversion (Pattern.occurrence_of_full? hm).reads)
  simp [Unit.conversion?, Unit.parts?, hfull]

theorem Duration.seconds?_eq_none : Duration.seconds? t = none := by
  have hclock : Pattern.durationClock.full? (Text.trim t) = none := by
    rw [Option.eq_none_iff_forall_ne_some]
    intro m hm
    exact not_exists_mem_trim ht
      (Pattern.exists_mem_of_durationClock (Pattern.occurrence_of_full? hm).reads)
  have hparts : Pattern.durationPart.findAll (Text.trim t) = [] := by
    rw [List.eq_nil_iff_forall_not_mem]
    intro m hm
    obtain ⟨a, u, b, hsplit, hoccurs⟩ := Pattern.occurrence_of_mem_findAll hm
    obtain ⟨c, hc, hletter⟩ := Pattern.exists_mem_of_durationPart hoccurs.reads
    exact not_exists_mem_trim ht ⟨c, by simp [hsplit, hc], hletter⟩
  simp [Duration.seconds?, hclock, Duration.ofParts?, hparts]

/-- A text of arithmetic is not a duration, and what is taken off a time is one of its parts. -/
theorem Clock.answer?_eq_none : Clock.answer? t = none := by
  cases hparts : Clock.parts? (Text.trim t) with
  | none => simp [Clock.answer?, hparts]
  | some parts =>
    obtain ⟨time, sign, duration⟩ := parts
    have hduration : ∀ c ∈ duration, isArithmeticOrOf c := by
      intro c hc
      simp only [Clock.parts?, Option.bind_eq_bind, Option.bind_eq_some_iff] at hparts
      obtain ⟨m, -, x, -, y, -, z, hz, hparts⟩ := hparts
      cases hparts
      exact ht c (Text.mem_of_mem_trim (Match.mem_of_mem_text? hz hc))
    have hseconds := Duration.seconds?_eq_none hduration
    simp [Clock.answer?, hparts, hseconds]

/-- A text of arithmetic with a separator of dates, or without a percent sign at its end, is not a
rating. -/
theorem Rating.percentage?_eq_none (hrating : (∃ c ∈ Text.trim t, isDateSeparator c) ∨
    (Text.trim t).getLast? ≠ some '%') : Rating.percentage? (Text.trim t) = none := by
  have hfull : Pattern.percentageCode.full? (Text.trim t) = none := by
    rw [Option.eq_none_iff_forall_ne_some]
    intro m hm
    have hreads := (Pattern.occurrence_of_full? hm).reads
    rcases Pattern.cases_of_percentageCode hreads with hletter | ⟨hnone, u, hu⟩
    · exact not_exists_mem_trim ht hletter
    · rcases hrating with ⟨c, hc, hsep⟩ | hlast
      · rw [hnone c hc] at hsep
        cases hsep
      · exact hlast (by rw [hu, List.getLast?_concat])
  simp [Rating.percentage?, hfull]

end

/-! ## First matches -/

section

variable {base : Context} {t : Text}

theorem DateRange.isCandidate_of_ofText? {today : Date} {r : DateRange}
    (h : ofText? today t = some r) : isCandidate today t := by
  unfold ofText? at h
  split at h
  · rename_i hcue
    split at h
    · rename_i a b rest hparts
      simp [isCandidate, hcue, hparts]
    · cases h
  · cases h

/-- The detector of date ranges matches the texts with a date range. -/
theorem Detector.firstMatch?_dateRange :
    (dateRange DateRange.formatter).firstMatch? base t =
      (DateRange.ofText? base.today t).map fun r => ⟨"date_range", r.describe⟩ := by
  change Outcome.record? _ (if DateRange.isCandidate base.today t then
    .ofOption ((DateRange.ofText? base.today t).map DateRange.describe) else .noMatch) = _
  cases hrange : DateRange.ofText? base.today t with
  | none => simp [Outcome.ofOption, Outcome.record?, Outcome.display?]
  | some r =>
    rw [if_pos (DateRange.isCandidate_of_ofText? hrange)]
    rfl

/-- The detector of arithmetic matches the texts that its formatter replaces. -/
theorem Detector.firstMatch?_arithmetic :
    (arithmetic Arithmetic.formatter).firstMatch? base t =
      (Arithmetic.process base.config.template t).map (MatchRecord.mk "arithmetic") := by
  change Outcome.record? _ (if Arithmetic.isCandidate t then
    .ofOption (Arithmetic.process base.config.template t) else .noMatch) = _
  cases hvalue : Arithmetic.process base.config.template t with
  | none => simp [Outcome.ofOption, Outcome.record?, Outcome.display?]
  | some v =>
    rw [if_pos (Arithmetic.of_process hvalue).1]
    rfl

theorem Detector.firstMatch?_phone :
    Phone.detector.firstMatch? base t = (Phone.detect t).record? "phone" := rfl

theorem Detector.firstMatch?_eq_none_of_detect {d : Detector}
    (h : d.detect { base with log := [] } t = .ok .noMatch) : d.firstMatch? base t = none := by
  rw [firstMatch?, outcome, h]
  rfl

/-- Of the other detectors, none matches a part of the input that is a text of arithmetic, if it is
not a rating. -/
theorem Detector.firstMatch?_eq_none (ht : ∀ c ∈ t, isArithmeticOrOf c)
    (hrating : (∃ c ∈ Text.trim t, isDateSeparator c) ∨ (Text.trim t).getLast? ≠ some '%')
    (hscope : base.scope = .seed) {d : Detector}
    (hd : d ∈ [Rating.detector, Combination.detector, Unit.detector, Clock.detector,
      Navigation.detector]) : d.firstMatch? base t = none := by
  refine firstMatch?_eq_none_of_detect ?_
  simp only [List.mem_cons, List.not_mem_nil, or_false] at hd
  rcases hd with rfl | rfl | rfl | rfl | rfl
  · show Rating.detect _ t = _
    rw [Rating.detect, Rating.percentage?_eq_none ht hrating]
    rfl
  · show Except.ok (Combination.detect t) = _
    rw [Combination.detect_eq_noMatch ht]
  · simp only [Unit.detector, Unit.conversion?_eq_none ht]
    rfl
  · show Except.ok (Outcome.ofOption (Clock.answer? t)) = _
    rw [Clock.answer?_eq_none ht]
    rfl
  · show Except.ok (Navigation.detect _ t) = _
    simp [Navigation.detect, hscope]

end

end Snippet
