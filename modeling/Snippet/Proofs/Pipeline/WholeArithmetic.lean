import Snippet.Proofs.Detection.ArithmeticText
import Snippet.Proofs.Detection.Standard
import Snippet.Proofs.Pipeline.Recombination

/-!
# Arithmetic texts in the pipeline

A text that is arithmetic as a whole is replaced by its value, unless a part of it is tried first
and matches. The seed of such a text is a proper part only where a date token or the word "of"
stands in it (`Seed.lead_eq_nil_iff`), and only the detectors of date ranges, of phone numbers and
of arithmetic may match that part (`Pipeline.IsStandard.head?_log_seed`). So `process_eq_iff_agrees`
says when the pipeline shows the value of the text: where the seed is the text, or the lead and the
value of the seed make up the value of the text.
-/

namespace Snippet

open Pattern (isArithmetic isArithmeticOrOf isDateSeparator isOfLetter)

/-! ## Where an arithmetic text is split -/

namespace Seed

variable {t : Text} {k : Nat}

/-- A text of arithmetic is split in front of its first date. -/
theorem start?_of_dateStart? (ht : ∀ c ∈ t, isArithmeticOrOf c) (h : dateStart? t = some k) :
    start? t = some k := by
  obtain ⟨c, hc, -⟩ := exists_isDateSeparator_of_dateStart? ht h
  have hlt : k < t.length := by
    by_contra hle
    rw [List.drop_eq_nil_of_le (by omega)] at hc
    cases hc
  simp [start?, h, hlt]

/-- A text of arithmetic that has no date and not the word "of" is its own seed. -/
theorem start?_of_forall_isArithmetic (ht : ∀ c ∈ t, isArithmetic c)
    (hdigit : ∃ c ∈ t, c.isDigit) (hlead : Text.leadingWhite t = []) (hdate : dateStart? t = none) :
    start? t = some 0 := by
  obtain ⟨d, hd, hdigit⟩ := hdigit
  have hpos : 0 < t.length := List.length_pos_of_mem hd
  have hrun : Pattern.arithmeticRun.matchesAll t := by
    rw [Pattern.matchesAll_iff_reads rfl, Pattern.arithmeticRun, Pattern.ofRegex,
      Regex.reads_many1_one_iff]
    refine ⟨List.ne_nil_of_mem hd, fun c hc => ?_⟩
    rw [Pattern.isRun, ht c hc, Bool.true_or, Bool.true_or]
  have hoperand : hasOperand t := List.any_eq_true.mpr ⟨d, hd, by rw [hdigit, Bool.true_or]⟩
  have harithmetic : arithmeticStart? t = some 0 := by
    rw [arithmeticStart?, hrun, hoperand, hlead]
    rfl
  simp [start?, hdate, harithmetic, hpos]

section

variable {raw : Text} (hraw : ¬ Text.isBlank raw) (hvalued : Arithmetic.Valued (Text.trim raw))
include hraw hvalued

/-- **An arithmetic text without the word "of" is split exactly where a date stands in it and not at
its start.** -/
theorem lead_eq_nil_iff (harith : ∀ c ∈ Text.trim raw, isArithmetic c) :
    (ofText (Text.trim raw)).lead = [] ↔ ∀ k, dateStart? (Text.trim raw) = some k → k = 0 := by
  have hne : Text.trim raw ≠ [] := fun hnil => hraw (Text.trim_eq_nil_iff.mp hnil)
  rw [ofText_trim hraw]
  cases hdate : dateStart? (Text.trim raw) with
  | none =>
    rw [start?_of_forall_isArithmetic harith hvalued.exists_isDigit (Text.leadingWhite_trim raw)
      hdate]
    simp
  | some k =>
    rw [start?_of_dateStart? hvalued.isArithmeticOrOf hdate]
    simp [hne]

/-- An arithmetic text that is split without a date has the word "of". -/
theorem exists_isOfLetter (hlead : (ofText (Text.trim raw)).lead ≠ [])
    (hdate : dateStart? (Text.trim raw) = none) : ∃ c ∈ Text.trim raw, isOfLetter c := by
  obtain ⟨c, hc, hother⟩ : ∃ c ∈ Text.trim raw, ¬ isArithmetic c := by
    by_contra hnone
    push Not at hnone
    refine hlead ((lead_eq_nil_iff hraw hvalued hnone).mpr ?_)
    intro k hk
    rw [hdate] at hk
    cases hk
  have hchar := hvalued.isArithmeticOrOf c hc
  rw [isArithmeticOrOf, Bool.or_eq_true] at hchar
  exact ⟨c, hc, hchar.resolve_left hother⟩

/-- The seed of an arithmetic text that is split is not a rating: it has the separator of a date, or
the text has the word "of" and does not end with a percent sign. -/
theorem body_not_rating (hlead : (ofText (Text.trim raw)).lead ≠ []) :
    (∃ c ∈ Text.trim (ofText (Text.trim raw)).body, isDateSeparator c) ∨
      (Text.trim (ofText (Text.trim raw)).body).getLast? ≠ some '%' := by
  rw [trim_body hraw]
  cases hdate : dateStart? (Text.trim raw) with
  | some k =>
    obtain ⟨c, hc, hsep⟩ := exists_isDateSeparator_of_dateStart? hvalued.isArithmeticOrOf hdate
    refine .inl ⟨c, Text.mem_trimStart ?_ ?_, hsep⟩
    · rw [← Bool.not_eq_true]
      intro hwhite
      rw [Pattern.isDateSeparator_eq_false_of_isWhite hwhite] at hsep
      cases hsep
    · rw [ofText_trim hraw, start?_of_dateStart? hvalued.isArithmeticOrOf hdate]
      exact hc
  | none =>
    obtain ⟨c, hc, hletter⟩ := exists_isOfLetter hraw hvalued hlead hdate
    refine .inr fun hlast => hvalued.getLast?_ne c hc hletter ?_
    rw [← getLast?_body hraw, ← Text.getLast?_trimStart, hlast]
    intro hnil
    rw [hnil] at hlast
    cases hlast

end

/-- What a standard pipeline shows for an arithmetic text with value `v` is `v`: the text is not
split, or its seed is neither a date range nor a phone number, and the lead and the value of the
seed, if it has one, make up `v`. -/
def Agrees (config : Config) (today : Date) (seed : Seed) (v : Text) : Prop :=
  seed.lead = [] ∨
    (config.isDisabled "date_range" ∨ DateRange.ofText? today seed.body = none) ∧
      (config.isDisabled "phone" ∨ Phone.detect seed.body = .noMatch) ∧
      ∀ w ∈ Arithmetic.process config.template seed.body, seed.lead ++ w = v

instance (config : Config) (today : Date) (seed : Seed) (v : Text) :
    Decidable (seed.Agrees config today v) :=
  inferInstanceAs (Decidable (_ ∨ _))

end Seed

/-! ## The matches of a seed -/

namespace Detector

theorem keptMatch?_dateRange_eq_none_iff (base : Context) (t : Text) :
    (dateRange DateRange.formatter).keptMatch? base t = none ↔
      base.config.isDisabled "date_range" ∨ DateRange.ofText? base.today t = none := by
  rw [keptMatch?_eq_none_iff, firstMatch?_dateRange, Option.map_eq_none_iff]
  rfl

theorem keptMatch?_phone_eq_none_iff (base : Context) (t : Text) :
    Phone.detector.keptMatch? base t = none ↔
      base.config.isDisabled "phone" ∨ Phone.detect t = .noMatch := by
  rw [keptMatch?_eq_none_iff, firstMatch?_phone]
  refine or_congr Iff.rfl ?_
  cases Phone.detect t <;> simp [Outcome.record?, Outcome.display?]

theorem keptMatch?_arithmetic {base : Context} (h : base.config.isDisabled "arithmetic" = false)
    (t : Text) :
    (arithmetic Arithmetic.formatter).keptMatch? base t =
      (Arithmetic.process base.config.template t).map (MatchRecord.mk "arithmetic") := by
  rw [← firstMatch?_arithmetic, keptMatch?, if_neg]
  rw [Bool.not_eq_true]
  exact h

end Detector

/-! ## What the pipeline shows for an arithmetic text -/

namespace Pipeline

variable {config : Config} {today : Date} {p : Pipeline} {raw v : Text}

namespace IsStandard

/-- **A part of the input that is a text of arithmetic and not a rating is matched as a date range,
as a phone number or as arithmetic.** -/
theorem head?_log_seed (hp : p.IsStandard config today) {t : Text}
    (ht : ∀ c ∈ t, isArithmeticOrOf c)
    (hrating : (∃ c ∈ Text.trim t, isDateSeparator c) ∨ (Text.trim t).getLast? ≠ some '%')
    {base : Context} (hbase : base = ⟨config, p.ratings, today, .seed, []⟩) :
    (p.dispatch .seed t).log.head? =
      ((Detector.dateRange DateRange.formatter).keptMatch? base t).or
        ((Phone.detector.keptMatch? base t).or
          ((Detector.arithmetic Arithmetic.formatter).keptMatch? base t)) := by
  have hnone : ∀ d ∈ [Rating.detector, Combination.detector, Unit.detector, Clock.detector,
      Navigation.detector], d.keptMatch? base t = none := by
    intro d hd
    refine Detector.keptMatch?_eq_none_iff.mpr (.inr ?_)
    exact Detector.firstMatch?_eq_none ht hrating (by rw [hbase]) hd
  simp only [List.forall_mem_cons] at hnone
  obtain ⟨hrating, hcombination, hunit, hclock, hnavigation, -⟩ := hnone
  rw [hp.head?_log_dispatch, ← hbase, Detector.standard]
  simp only [List.findSome?_cons, List.findSome?_nil, hrating, hcombination, hunit, hclock,
    hnavigation]
  cases (Detector.dateRange DateRange.formatter).keptMatch? base t with
  | some first => rfl
  | none =>
    cases Phone.detector.keptMatch? base t with
    | some first => rfl
    | none => cases (Detector.arithmetic Arithmetic.formatter).keptMatch? base t <;> rfl

/-- The first match is arithmetic where the detector is not left out and the formatter replaces the
text. -/
theorem of_head?_arithmetic (hp : p.IsStandard config today) {scope : Scope} {t : Text}
    {first : MatchRecord} (hfirst : (p.dispatch scope t).log.head? = some first)
    (hid : first.id = "arithmetic") :
    config.isDisabled "arithmetic" = false ∧
      Arithmetic.process config.template t = some first.raw := by
  rw [hp.head?_log_dispatch] at hfirst
  obtain ⟨d, hd, hmatch⟩ := List.exists_of_findSome?_eq_some hfirst
  obtain ⟨hkept, hmatch⟩ := Detector.firstMatch?_of_keptMatch? hmatch
  have hdid : d.id = "arithmetic" := (Detector.id_of_firstMatch? hmatch).symm.trans hid
  have harithmetic : d = Detector.arithmetic Arithmetic.formatter := by
    simp only [Detector.standard, List.mem_cons, List.not_mem_nil, or_false] at hd
    rcases hd with rfl | rfl | rfl | rfl | rfl | rfl | rfl | rfl
    case inr.inr.inr.inr.inl => rfl
    all_goals exact absurd hdid (by decide)
  subst harithmetic
  rw [Detector.firstMatch?_arithmetic, Option.map_eq_some_iff] at hmatch
  obtain ⟨w, hw, rfl⟩ := hmatch
  exact ⟨hkept, hw⟩

/-- A seed agrees with a value if its first match, where there is one, is by arithmetic and makes up
the value together with the lead. -/
theorem agrees_iff_head?_seed (hp : p.IsStandard config today)
    (hkept : config.isDisabled "arithmetic" = false) {seed : Seed} (hlead : seed.lead ≠ [])
    (hbody : ∀ c ∈ seed.body, isArithmeticOrOf c)
    (hrating : (∃ c ∈ Text.trim seed.body, isDateSeparator c) ∨
      (Text.trim seed.body).getLast? ≠ some '%') :
    seed.Agrees config today v ↔ ∀ first ∈ (p.dispatch .seed seed.body).log.head?,
      first.id = "arithmetic" ∧ seed.lead ++ first.raw = v := by
  obtain ⟨base, hbase⟩ : ∃ base : Context, base = ⟨config, p.ratings, today, .seed, []⟩ := ⟨_, rfl⟩
  have hconfig : base.config = config := by rw [hbase]
  have htoday : base.today = today := by rw [hbase]
  have hagrees : seed.Agrees config today v ↔ _ := or_iff_right hlead
  rw [hagrees, hp.head?_log_seed hbody hrating hbase, ← hconfig, ← htoday,
    ← Detector.keptMatch?_dateRange_eq_none_iff, ← Detector.keptMatch?_phone_eq_none_iff,
    Detector.keptMatch?_arithmetic (by rw [hconfig]; exact hkept)]
  cases hdate : (Detector.dateRange DateRange.formatter).keptMatch? base seed.body with
  | some first =>
    have hid := Detector.id_of_firstMatch? (Detector.firstMatch?_of_keptMatch? hdate).2
    have hne : first.id ≠ "arithmetic" := by rw [hid]; decide
    simp [hne]
  | none =>
    cases hphone : Phone.detector.keptMatch? base seed.body with
    | some first =>
      have hid := Detector.id_of_firstMatch? (Detector.firstMatch?_of_keptMatch? hphone).2
      have hne : first.id ≠ "arithmetic" := by rw [hid]; decide
      simp [hne]
    | none => simp

end IsStandard

/-- Where the text is split and all of it is matched as arithmetic, the output shows the same value
exactly if the first match of the seed does so. -/
theorem process_eq_iff_head?_seed (hraw : ¬ Text.isBlank raw)
    (hlead : (Seed.ofText (Text.trim raw)).lead ≠ [])
    (hwhole : (p.dispatch .whole (Text.trim raw)).log.head? = some ⟨"arithmetic", v⟩) :
    (p.process raw).matchedId = some "arithmetic" ∧
        (p.process raw).text = Text.leadingWhite raw ++ v ++ Text.trailingWhite raw ↔
      ∀ first ∈ (p.dispatch .seed (Seed.ofText (Text.trim raw)).body).log.head?,
        first.id = "arithmetic" ∧ (Seed.ofText (Text.trim raw)).lead ++ first.raw = v := by
  cases hseed : (p.dispatch .seed (Seed.ofText (Text.trim raw)).body).log.head? with
  | none =>
    rw [List.head?_eq_none_iff] at hseed
    have hout := process_of_head?_whole hraw (.inr hseed) hwhole
    exact iff_of_true hout (by simp)
  | some first =>
    obtain ⟨hmatched, htext⟩ := process_of_head?_seed hraw hlead hseed
    rw [hmatched, htext, List.append_left_inj, List.append_right_inj]
    simp

/-- **When an arithmetic text is replaced by its value.** Let the trimmed text have the value `v`,
and let arithmetic be the first match of all of it. Then the output is `v` between the white space
around the text exactly if the seed agrees with it; and a text without the word "of" is split
exactly where a date stands in it and not at its start. -/
theorem process_eq_iff_agrees (hp : standard config today = .ok p)
    (hvalue : Arithmetic.process config.template (Text.trim raw) = some v)
    (hfirst : (p.dispatch .whole (Text.trim raw)).matchedId = some "arithmetic") :
    ((p.process raw).matchedId = some "arithmetic" ∧
        (p.process raw).text = Text.leadingWhite raw ++ v ++ Text.trailingWhite raw ↔
      (Seed.ofText (Text.trim raw)).Agrees config today v) ∧
    ((∀ c ∈ Text.trim raw, isArithmetic c) →
      ((Seed.ofText (Text.trim raw)).lead = [] ↔
        ∀ k, Seed.dateStart? (Text.trim raw) = some k → k = 0)) := by
  have hstandard := isStandard_of_standard hp
  have hvalued := Arithmetic.valued_of_process hvalue
  rw [Text.trim_trim] at hvalued
  have hraw : ¬ Text.isBlank raw := by
    intro hblank
    obtain ⟨c, hc, -⟩ := hvalued.exists_isDigit
    rw [Text.trim_eq_nil_iff.mpr hblank] at hc
    cases hc
  refine ⟨?_, Seed.lead_eq_nil_iff hraw hvalued⟩
  -- all of the text is matched as arithmetic, so its first match shows `v`
  rw [(p.wellFormed_dispatch .whole (Text.trim raw)).matchedId_eq] at hfirst
  obtain ⟨whole, hwhole, hid⟩ := Option.map_eq_some_iff.mp hfirst
  obtain ⟨hkept, hprocess⟩ := hstandard.of_head?_arithmetic hwhole hid
  obtain rfl : v = whole.raw := Option.some.inj (hvalue.symm.trans hprocess)
  by_cases hlead : (Seed.ofText (Text.trim raw)).lead = []
  · have hout := process_of_head?_whole hraw (.inl hlead) hwhole
    rw [hid] at hout
    exact ⟨fun _ => .inl hlead, fun _ => hout⟩
  · have hbody : ∀ c ∈ (Seed.ofText (Text.trim raw)).body, isArithmeticOrOf c :=
      fun c hc => hvalued.isArithmeticOrOf c (Seed.mem_of_mem_body hraw hc)
    rw [process_eq_iff_head?_seed hraw hlead (hid ▸ hwhole),
      hstandard.agrees_iff_head?_seed hkept hlead hbody (Seed.body_not_rating hraw hvalued hlead)]

set_option maxRecDepth 100000 in
/-- A fraction with a sign is split behind the sign, and its value is the same. -/
theorem process_signed_fraction : ∃ p, standard {} ⟨2026, 10, 19, by decide⟩ = .ok p ∧
    Arithmetic.process none (Text.trim "-3/4".toList) = some "-0.75".toList ∧
    (p.dispatch .whole (Text.trim "-3/4".toList)).matchedId = some "arithmetic" ∧
    (Seed.ofText (Text.trim "-3/4".toList)).lead = ['-'] ∧
    (p.process "-3/4".toList).text = "-0.75".toList := by
  have hrun : (standard {} ⟨2026, 10, 19, by decide⟩).toOption.any fun p =>
      (p.dispatch .whole (Text.trim "-3/4".toList)).matchedId == some "arithmetic" := by
    decide +kernel
  obtain ⟨p, hp, hfirst⟩ := exists_of_any_standard hrun
  have hvalue : Arithmetic.process none (Text.trim "-3/4".toList) = some "-0.75".toList := by
    decide +kernel
  have hseed : Seed.ofText (Text.trim "-3/4".toList) = ⟨['-'], "3/4".toList⟩ := by decide +kernel
  have hagrees : (Seed.ofText (Text.trim "-3/4".toList)).Agrees {} ⟨2026, 10, 19, by decide⟩
      "-0.75".toList := by
    rw [hseed]
    decide +kernel
  have hout := ((process_eq_iff_agrees hp hvalue (by simpa using hfirst)).1.mpr hagrees).2
  exact ⟨p, hp, hvalue, by simpa using hfirst, by rw [hseed], hout.trans (by decide +kernel)⟩

set_option maxRecDepth 100000 in
/-- A difference is split in front of a fraction that looks like a date. -/
theorem process_difference_of_fraction : ∃ p, standard {} ⟨2026, 10, 19, by decide⟩ = .ok p ∧
    Arithmetic.process none (Text.trim "10-3/4".toList) = some "9.25".toList ∧
    (p.dispatch .whole (Text.trim "10-3/4".toList)).matchedId = some "arithmetic" ∧
    (p.process "10-3/4".toList).text = "10-0.75".toList ∧
    (p.process "10-3/4".toList).text ≠ Text.leadingWhite "10-3/4".toList ++ "9.25".toList ++
      Text.trailingWhite "10-3/4".toList := by
  have hrun : (standard {} ⟨2026, 10, 19, by decide⟩).toOption.any fun p =>
      (p.dispatch .whole (Text.trim "10-3/4".toList)).matchedId == some "arithmetic" &&
        (p.process "10-3/4".toList).text == "10-0.75".toList := by
    decide +kernel
  obtain ⟨p, hp, hout⟩ := exists_of_any_standard hrun
  rw [Bool.and_eq_true, beq_iff_eq, beq_iff_eq] at hout
  refine ⟨p, hp, by decide +kernel, hout.1, hout.2, ?_⟩
  rw [hout.2]
  decide +kernel

end Pipeline

end Snippet
