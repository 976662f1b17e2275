import Snippet.Proofs.Pipeline.Labels
import Snippet.Proofs.Pipeline.Surroundings

/-!
# Stable outputs

A standard pipeline without a template keeps a text exactly if nothing matches it, or its first match
is navigation, or a date range that is already written as its description
(`Pipeline.IsStandard.text_eq_iff`). Its output is stable behind a label, or without a lead, if the
first match is one that lasts (`Pipeline.IsStandard.text_stable`): no phone number with further
fields, no result of arithmetic in the shape of a phone number, no date range beyond four digits of
the year.
-/

namespace Snippet

open Pattern Number

/-- A match that is not taken for something else, once it is part of the text. -/
structure Lasting (m : MatchRecord) : Prop where
  /-- There are no further fields behind a phone number. -/
  phone : m.id = "phone" → ';' ∉ m.raw
  /-- A result is not in the shape of a phone number. -/
  arithmetic : m.id = "arithmetic" → ¬ Pattern.phone.matchesAll m.raw
  /-- The years of a date range have four digits. -/
  dateRange : m.id = "date_range" → ∃ r : DateRange, m.raw = r.describe ∧ r.start ≤ r.stop ∧
    0 ≤ r.start.year ∧ r.stop.year ≤ 9999

namespace Pipeline

variable {config : Config} {today : Date} {p : Pipeline} {raw : Text} {first : MatchRecord}

/-- The lead that stays in front of the first match; there is none where all of the text is tried. -/
def keptLead (p : Pipeline) (raw : Text) : Text :=
  ((p.seedMatch? (Text.trim raw)).map (·.1)).getD []

/-- What the detectors make the first match of. -/
def tried (p : Pipeline) (raw : Text) : Text :=
  if (p.seedMatch? (Text.trim raw)).isSome then (Seed.ofText (Text.trim raw)).body
  else Text.trim raw

/-! ## What the first match replaces -/

/-- The first match replaces what was tried, behind the lead and between the white space. -/
structure Replaces (p : Pipeline) (raw : Text) (first : MatchRecord) : Prop where
  not_isBlank : ¬ Text.isBlank raw
  head?_eq : (p.process raw).log.head? = some first
  exists_scope : ∃ scope, (p.dispatch scope (p.tried raw)).log.head? = some first
  trim_eq : Text.trim raw = p.keptLead raw ++ p.tried raw
  text_eq : (p.process raw).text =
    Text.leadingWhite raw ++ (p.keptLead raw ++ first.raw) ++ Text.trailingWhite raw

theorem untouched_or_replaces (p : Pipeline) (raw : Text) :
    Untouched raw (p.process raw) ∨ ∃ first, p.Replaces raw first := by
  by_cases hraw : Text.isBlank raw
  · rw [process_of_isBlank hraw]
    exact .inl (untouched_unchanged raw)
  · cases hseed : p.seedMatch? (Text.trim raw) with
    | some found =>
      obtain ⟨lead, primary, r⟩ := found
      obtain ⟨rfl, hlead, rfl, hprimary⟩ := of_seedMatch? hseed
      rw [(p.wellFormed_dispatch ..).primary_eq, Option.map_eq_some_iff] at hprimary
      obtain ⟨first, hfirst, rfl⟩ := hprimary
      have hprocess := process_of_seedMatch?_eq_some hraw hseed
      refine .inr ⟨first, hraw, ?_, ⟨.seed, ?_⟩, ?_, ?_⟩
      · rw [hprocess]
        exact hfirst
      · simpa [tried, hseed] using hfirst
      · simpa [tried, keptLead, hseed] using (Seed.lead_append_body hraw).symm
      · simp [hprocess, keptLead, hseed, Output.ofDispatch]
    | none =>
      refine (untouched_or_recombined_whole hraw hseed).imp_right ?_
      rintro ⟨first, rest, -, -, hlog, -⟩
      have hhead : (p.process raw).log.head? = some first := by rw [hlog, List.head?_cons]
      have hfirst : (p.dispatch .whole (Text.trim raw)).log.head? = some first := by
        rw [← hhead, process_of_seedMatch?_eq_none hraw hseed]
        rfl
      refine ⟨first, hraw, hhead, ⟨.whole, ?_⟩, ?_, ?_⟩
      · simpa [tried, hseed] using hfirst
      · simp [tried, keptLead, hseed]
      · have htext := (process_of_head?_whole hraw ((seedMatch?_eq_none_iff _).mp hseed) hfirst).2
        simpa [keptLead, hseed] using htext

theorem Replaces.isWhite_head? (h : p.Replaces raw first) :
    ∀ c ∈ (p.keptLead raw).head?, Text.isWhite c = false := by
  intro c hc
  refine Text.isWhite_eq_false_of_head?_trim (t := raw) ?_
  rw [h.trim_eq, List.head?_append, Option.mem_def.mp hc]
  rfl

/-- Whatever part of the text is tried, its first match is that of the seed. -/
theorem process_of_ofText {lead body : Text} (htrim : Text.trim (lead ++ body) = lead ++ body)
    (hbody : body ≠ []) (hseed : Seed.ofText (lead ++ body) = ⟨lead, body⟩)
    (hfirst : ∀ scope, (p.dispatch scope body).log.head? = some first) :
    (p.process (lead ++ body)).log.head? = some first ∧
      (p.process (lead ++ body)).text = lead ++ first.raw := by
  have hraw : ¬ Text.isBlank (lead ++ body) := by
    rw [← Text.trim_eq_nil_iff, htrim, List.append_eq_nil_iff]
    exact fun h => hbody h.2
  have hprimary : ∀ scope, (p.dispatch scope body).primary = some first.raw := fun scope => by
    rw [(p.wellFormed_dispatch ..).primary_eq, hfirst, Option.map_some]
  have hleading : Text.leadingWhite (lead ++ body) = [] := by rw [← htrim, Text.leadingWhite_trim]
  have htrailing : Text.trailingWhite (lead ++ body) = [] := by
    rw [← htrim, Text.trailingWhite_trim]
  by_cases hlead : lead = []
  · subst hlead
    have hnone : p.seedMatch? (Text.trim ([] ++ body)) = none :=
      (seedMatch?_eq_none_iff _).mpr (.inl (by rw [htrim, hseed]))
    rw [process_of_seedMatch?_eq_none hraw hnone, htrim, hleading, htrailing, List.nil_append,
      hprimary]
    exact ⟨hfirst .whole, List.append_nil _⟩
  · have hsome : p.seedMatch? (Text.trim (lead ++ body)) =
        some (lead, first.raw, p.dispatch .seed body) := by
      simp [seedMatch?, htrim, hseed, hlead, hprimary]
    rw [process_of_seedMatch?_eq_some hraw hsome, hleading, htrailing]
    exact ⟨hfirst .seed, List.append_nil _⟩

/-- A text is kept exactly if the first match shows what was tried. -/
theorem Replaces.text_eq_iff (h : p.Replaces raw first) :
    (p.process raw).text = raw ↔ first.raw = p.tried raw := by
  have hraw : raw =
      Text.leadingWhite raw ++ (p.keptLead raw ++ p.tried raw) ++ Text.trailingWhite raw := by
    rw [← h.trim_eq, List.append_assoc]
    exact (Text.leadingWhite_append_trim_append_trailingWhite h.not_isBlank).symm
  rw [h.text_eq]
  conv_lhs => rhs; rw [hraw]
  rw [List.append_left_inj, List.append_right_inj, List.append_right_inj]

/-- The output is stable exactly if the lead with the first match is kept. -/
theorem Replaces.stable_iff (h : p.Replaces raw first) :
    (p.process (p.process raw).text).text = (p.process raw).text ↔
      (p.process (p.keptLead raw ++ first.raw)).text = p.keptLead raw ++ first.raw := by
  rw [h.text_eq]
  exact p.text_process_between_eq_iff _ (Text.isBlank_leadingWhite raw)
    (Text.isBlank_trailingWhite raw)

/-! ## Texts that are kept -/

namespace IsStandard

/-- A match by navigation shows what it was given. -/
theorem raw_eq_of_navigation (hp : p.IsStandard config today) {scope : Scope} {t : Text}
    (hfirst : (p.dispatch scope t).log.head? = some first) (hid : first.id = "navigation") :
    first.raw = t := by
  rcases hp.firstMatch_or_navigation hfirst with ⟨d, hd, hmatch⟩ | rfl
  · have hdid := (Detector.id_of_firstMatch? hmatch).symm.trans hid
    exact absurd hdid (Detector.id_ne_navigation hd)
  · rfl

/-- Only navigation and the detector of date ranges show what they were given. -/
theorem id_of_raw_eq (hp : p.IsStandard config today) (htemplate : config.template = none)
    {scope : Scope} {t : Text} (hfirst : (p.dispatch scope t).log.head? = some first)
    (hraw : first.raw = t) : first.id = "navigation" ∨ first.id = "date_range" := by
  have hundetected : Undetected today t → first.id = "navigation" := fun h => by
    rw [(hp.head?_log_of_undetected h hfirst).1]
  cases hp.shown_of_head? htemplate hfirst with
  | dateRange hr => exact .inr rfl
  | phone hv =>
    obtain rfl : _ = t := hraw
    have hnone := Phone.detect_of_detect hv
    rw [hv] at hnone
    cases hnone
  | rating hfigure _ hphone => exact .inl (hundetected (hraw ▸ hfigure.undetected hphone))
  | arithmetic hfigure _ hv =>
    obtain rfl : _ = t := hraw
    rw [Arithmetic.process_eq_none_of_isFigure hfigure] at hv
    cases hv
  | quantity h => exact .inl (hundetected (hraw ▸ h.undetected))
  | digitless h => exact .inl (hundetected (hraw ▸ undetected_of_forall h))
  | navigation => exact .inl rfl

/-- **A text is kept exactly if nothing matches it, or its first match is navigation, or a date range
in the form in which it is described.** -/
theorem text_eq_iff (hp : p.IsStandard config today) (htemplate : config.template = none)
    (raw : Text) :
    (p.process raw).text = raw ↔ ∀ first ∈ (p.process raw).log.head?,
      first.id = "navigation" ∨ first.id = "date_range" ∧ first.raw = p.tried raw := by
  rcases p.untouched_or_replaces raw with h | ⟨first, h⟩
  · refine iff_of_true h.text_eq fun first hfirst => ?_
    rw [h.log_eq] at hfirst
    cases hfirst
  · obtain ⟨scope, hfirst⟩ := h.exists_scope
    rw [h.text_eq_iff, h.head?_eq]
    constructor
    · rintro hraw first ⟨⟩
      exact (hp.id_of_raw_eq htemplate hfirst hraw).imp_right fun hid => ⟨hid, hraw⟩
    · intro hall
      rcases hall first rfl with hid | ⟨-, hraw⟩
      · exact hp.raw_eq_of_navigation hfirst hid
      · exact hraw

/-! ## Outputs that are kept -/

section

variable {lead u v w : Text} (hp : p.IsStandard config today) (hlead : lead = [] ∨ IsLabel lead)
  (hhead : ∀ c ∈ lead.head?, Text.isWhite c = false)
include hp hlead hhead

/-- A text of arithmetic that is undetected is kept. -/
theorem text_of_isArithmetic (hv : ∀ c ∈ v, isArithmetic c) (hdigit : ∃ c ∈ v, c.isDigit)
    (htrim : Text.trim v = v) (hnumeric : NoNumericDate v) (h : Undetected today v) :
    (p.process (lead ++ v)).text = lead ++ v := by
  have hseed := Seed.ofText_of_isArithmetic hlead hhead hv hdigit htrim hnumeric
  obtain ⟨c, hc, -⟩ := hdigit
  have hall := Text.trim_append hhead htrim (List.ne_nil_of_mem hc)
  refine hp.text_of_undetected ?_ (.inr ?_)
  · rw [hall]
    rcases hlead with rfl | hlabel
    · exact h
    · exact hlabel.undetected_append hnumeric (.of_isArithmetic hv) hall
  · rw [hall, hseed]
    exact h

/-- A quantity is kept. -/
theorem text_of_quantity (h : Quantity w u) :
    (p.process (lead ++ (w ++ u))).text = lead ++ (w ++ u) := by
  have hall := Text.trim_append hhead h.trim_eq (by simp [h.ne_nil])
  refine hp.text_of_undetected ?_ ?_
  · rw [hall]
    rcases hlead with rfl | hlabel
    · exact h.undetected
    · exact hlabel.undetected_append h.noNumericDate h.namesNoMonth hall
  · rw [hall]
    exact Seed.undetected_of_quantity hlead h hall

omit hhead in
/-- A text without digits is kept. -/
theorem text_of_isDigitless (h : IsDigitless v) : (p.process (lead ++ v)).text = lead ++ v := by
  have hall : ∀ c ∈ lead ++ v, Text.isDigit c = false := by
    rw [List.forall_mem_append]
    refine ⟨?_, h⟩
    rcases hlead with rfl | hlabel
    · simp
    · exact hlabel.isDigit_eq_false
  by_cases hraw : Text.isBlank (lead ++ v)
  · rw [process_of_isBlank hraw]
    rfl
  · refine hp.text_of_undetected (undetected_of_forall fun c hc => ?_)
      (.inr (undetected_of_forall fun c hc => ?_))
    · exact hall c (Text.mem_of_mem_trim hc)
    · exact hall c (Text.mem_of_mem_trim (Seed.mem_of_mem_body hraw hc))

/-- The description of a date range is kept. -/
theorem text_of_describe {r : DateRange} (hkept : config.isDisabled "date_range" = false)
    (hle : r.start ≤ r.stop) (hstart : 0 ≤ r.start.year ∧ r.start.year ≤ 9999)
    (hstop : 0 ≤ r.stop.year ∧ r.stop.year ≤ 9999) :
    (p.process (lead ++ r.describe)).text = lead ++ r.describe := by
  have hne : r.describe ≠ [] := by simp [DateRange.describe]
  have htrim := Text.trim_append hhead (DateRange.trim_describe hstart) hne
  have hstart? : Seed.start? (lead ++ r.describe) = some lead.length := by
    have hpos := List.length_pos_iff.mpr hne
    have hlt : lead.length < (lead ++ r.describe).length := by
      rw [List.length_append]
      omega
    rw [Seed.start?, List.findSome?_cons, Seed.dateStart?_describe hlead hstart, Option.filter_some,
      if_pos (decide_eq_true hlt)]
  have hseed : Seed.ofText (lead ++ r.describe) = ⟨lead, r.describe⟩ := by
    rw [Seed.ofText_eq htrim (by simp [hne]) hstart?, List.take_left, List.drop_left]
  have hfirst : ∀ scope, (p.dispatch scope r.describe).log.head? = some ⟨"date_range", r.describe⟩ := by
    intro scope
    have hmatch : (Detector.dateRange DateRange.formatter).keptMatch?
        ⟨config, p.ratings, today, scope, []⟩ r.describe = some ⟨"date_range", r.describe⟩ := by
      rw [Detector.keptMatch?, if_neg, Detector.firstMatch?_dateRange,
        DateRange.ofText?_of_le hle hstart hstop, Option.map_some]
      rw [Bool.not_eq_true]
      exact hkept
    rw [hp.head?_log_dispatch, Detector.standard, List.findSome?_cons, hmatch]
  exact (process_of_ofText htrim hne hseed hfirst).2

end

/-- A match is that of a detector that is not left out. -/
theorem isDisabled_eq_false_of_head? (hp : p.IsStandard config today) {scope : Scope} {t : Text}
    (hfirst : (p.dispatch scope t).log.head? = some first) : config.isDisabled first.id = false := by
  rw [hp.head?_log_dispatch] at hfirst
  obtain ⟨d, -, hmatch⟩ := List.exists_of_findSome?_eq_some hfirst
  obtain ⟨hkept, hmatch⟩ := Detector.firstMatch?_of_keptMatch? hmatch
  rw [Detector.id_of_firstMatch? hmatch]
  exact hkept

/-- **An output is stable without a lead or behind a label, if the first match lasts.** -/
theorem text_stable (hp : p.IsStandard config today) (htemplate : config.template = none)
    (hlead : p.keptLead raw = [] ∨ IsLabel (p.keptLead raw))
    (hlasting : ∀ first ∈ (p.process raw).log.head?, Lasting first) :
    (p.process (p.process raw).text).text = (p.process raw).text := by
  rcases p.untouched_or_replaces raw with h | ⟨first, h⟩
  · rw [h.text_eq, h.text_eq]
  obtain ⟨scope, hfirst⟩ := h.exists_scope
  have hlasting := hlasting first h.head?_eq
  have hhead := h.isWhite_head?
  have hfigure : ∀ {v}, IsFigure v → (∃ c ∈ v, c.isDigit) → Phone.detect v = .noMatch →
      (p.process (p.keptLead raw ++ v)).text = p.keptLead raw ++ v :=
    fun hv hdigit hphone => hp.text_of_isArithmetic hlead hhead hv.isArithmetic hdigit hv.trim_eq
      hv.noNumericDate (hv.undetected hphone)
  rw [h.stable_iff]
  cases hp.shown_of_head? htemplate hfirst with
  | dateRange _ =>
    obtain ⟨r, hraw, hle, hstart, hstop⟩ := hlasting.dateRange rfl
    have hyear := Date.year_le_of_le hle
    dsimp only at hraw ⊢
    rw [hraw]
    exact hp.text_of_describe hlead hhead (hp.isDisabled_eq_false_of_head? hfirst) hle
      ⟨hstart, by omega⟩ ⟨by omega, hstop⟩
  | phone hv =>
    obtain ⟨digits, hdigits, rfl | ⟨r, rfl⟩⟩ := Phone.exists_of_detect hv
    · obtain ⟨u, x, hu, hx⟩ := Phone.exists_last_display hdigits
      exact hp.text_of_isArithmetic hlead hhead (Phone.isArithmetic_display hdigits)
        ⟨x, by simp [hu], hx⟩ (Phone.trim_display hdigits) (Phone.noNumericDate_display hdigits)
        (Phone.undetected_display hdigits)
    · exact absurd (by simp) (hlasting.phone rfl)
  | rating hv hdigit hphone => exact hfigure hv hdigit hphone
  | arithmetic hv hdigit _ =>
    refine hfigure hv hdigit (Phone.detect_eq_noMatch fun w n r hsplit hw hread hn => ?_)
    have hlist : ';' ∉ _ := fun hmem =>
      absurd (hv.isArithmetic ';' hmem) (by decide)
    rw [hn hlist, hv.trim_eq] at hread
    exact hlasting.arithmetic rfl ((matchesAll_iff_reads rfl).mpr hread)
  | quantity hv => exact hp.text_of_quantity hlead hhead hv
  | digitless hv => exact hp.text_of_isDigitless hlead hv
  | navigation =>
    rw [← h.stable_iff, h.text_eq_iff.mpr rfl, h.text_eq_iff.mpr rfl]

/-- A figure in the shape of a phone number is first matched as one. -/
theorem head?_log_of_phone (hp : p.IsStandard config today) (hkept : config.isDisabled "phone" = false)
    {v w : Text} (hv : IsFigure v) (hphone : Phone.detect v = .text w) (scope : Scope) :
    (p.dispatch scope v).log.head? = some ⟨"phone", w⟩ := by
  have hdate : (Detector.dateRange DateRange.formatter).keptMatch?
      ⟨config, p.ratings, today, scope, []⟩ v = none :=
    (Detector.keptMatch?_dateRange_eq_none_iff ..).mpr (.inr (hv.dateless.ofText?_eq_none today))
  have hmatch : Phone.detector.keptMatch? ⟨config, p.ratings, today, scope, []⟩ v =
      some ⟨"phone", w⟩ := by
    rw [Detector.keptMatch?, if_neg, Detector.firstMatch?_phone, hphone]
    · rfl
    · rw [Bool.not_eq_true]
      exact hkept
  rw [hp.head?_log_dispatch, Detector.standard, List.findSome?_cons, hdate, List.findSome?_cons,
    hmatch]

/-- **A result in the shape of a phone number is taken for one.** -/
theorem text_ne_of_phone (hp : p.IsStandard config today) (htemplate : config.template = none)
    (hkept : config.isDisabled "phone" = false)
    (hlead : p.keptLead raw = [] ∨ IsLabel (p.keptLead raw))
    (hhead : (p.process raw).log.head? = some first) (hid : first.id = "arithmetic")
    (hphone : Pattern.phone.matchesAll first.raw) :
    (p.process (p.process raw).text).text ≠ (p.process raw).text := by
  have hread := reads_of_matchesAll hphone
  rcases p.untouched_or_replaces raw with h | ⟨first', h⟩
  · rw [h.log_eq] at hhead
    cases hhead
  obtain rfl : first = first' := Option.some.inj (hhead.symm.trans h.head?_eq)
  obtain ⟨scope, hfirst⟩ := h.exists_scope
  have hvalue := (hp.of_head?_arithmetic hfirst hid).2
  rw [htemplate] at hvalue
  obtain ⟨hfigure, hdigit⟩ := (Arithmetic.isShown_of_process hvalue).cases.resolve_left fun hnone => by
    obtain ⟨a, c, b, hsplit, -, hdigit⟩ := hread.exists_append_cons (leads_digit _ (by simp))
    rw [hnone c (by simp [hsplit])] at hdigit
    cases hdigit
  obtain ⟨w, hw⟩ := Phone.exists_text_of_reads hread hfigure.isDigit_of_mem hfigure.trim_eq
  have hne : first.raw ≠ [] := by
    obtain ⟨c, hc, -⟩ := hdigit
    exact List.ne_nil_of_mem hc
  -- the value is the seed of the output, so it is tried alone
  have hseed := Seed.ofText_of_isArithmetic hlead h.isWhite_head? hfigure.isArithmetic hdigit
    hfigure.trim_eq hfigure.noNumericDate
  have hout := process_of_ofText (Text.trim_append h.isWhite_head? hfigure.trim_eq hne) hne hseed
    (hp.head?_log_of_phone hkept hfigure hw)
  rw [Ne, h.stable_iff, hp.text_eq_iff htemplate, hout.1]
  intro hall
  rcases hall _ rfl with hid | ⟨hid, -⟩ <;> exact absurd hid (by decide : "phone" ≠ _)

end IsStandard

/-- **When an output is stable.** It is so exactly if nothing matches it, or its first match is
navigation, or a date range in the form in which it is described. Where there was no lead, or the
lead is a label, this is the case after every first match that lasts; and after a result of
arithmetic it is the case exactly if the result is not in the shape of a phone number. -/
theorem process_process_eq_iff (hp : standard {} today = .ok p) (raw : Text) :
    ((p.process (p.process raw).text).text = (p.process raw).text ↔
      ∀ first ∈ (p.process (p.process raw).text).log.head?, first.id = "navigation" ∨
        first.id = "date_range" ∧ first.raw = p.tried (p.process raw).text) ∧
    (p.keptLead raw = [] ∨ IsLabel (p.keptLead raw) →
      ((∀ first ∈ (p.process raw).log.head?, Lasting first) →
        (p.process (p.process raw).text).text = (p.process raw).text) ∧
      ∀ first ∈ (p.process raw).log.head?, first.id = "arithmetic" →
        ((p.process (p.process raw).text).text = (p.process raw).text ↔
          ¬ Pattern.phone.matchesAll first.raw)) := by
  have hp := isStandard_of_standard hp
  refine ⟨hp.text_eq_iff rfl _, fun hlead => ⟨hp.text_stable rfl hlead, fun first hfirst hid => ?_⟩⟩
  refine ⟨fun hstable hphone => hp.text_ne_of_phone rfl rfl hlead hfirst hid hphone hstable,
    fun hphone => hp.text_stable rfl hlead ?_⟩
  rintro first' hfirst'
  obtain rfl : first = first' := Option.some.inj (hfirst.symm.trans hfirst')
  refine ⟨fun hid' => ?_, fun _ => hphone, fun hid' => ?_⟩
  · exact absurd (hid.symm.trans hid') (by decide)
  · exact absurd (hid.symm.trans hid') (by decide)

set_option maxRecDepth 100000 in
/-- A sum behind a label. -/
theorem process_process_sum_behind_label : ∃ p, standard {} ⟨2026, 10, 19, by decide⟩ = .ok p ∧
    (p.process "Total: 5+5".toList).text = "Total: 10".toList ∧
    (p.process "Total: 10".toList).text = "Total: 10".toList := by
  have hrun : (standard {} ⟨2026, 10, 19, by decide⟩).toOption.any fun p =>
      (p.process "Total: 5+5".toList).text == "Total: 10".toList &&
        (p.process "Total: 5+5".toList).log.head? == some ⟨"arithmetic", "10".toList⟩ &&
        p.keptLead "Total: 5+5".toList == "Total: ".toList := by
    decide +kernel
  obtain ⟨p, hp, hout⟩ := exists_of_any_standard hrun
  simp only [Bool.and_eq_true, beq_iff_eq] at hout
  obtain ⟨⟨htext, hfirst⟩, hlead⟩ := hout
  have hlabel : IsLabel "Total: ".toList :=
    ⟨by decide +kernel, ⟨"Total".toList, ':', [' '], by decide, by decide +kernel, by decide, by decide⟩,
      .of_tails (by decide +kernel), by decide +kernel⟩
  have hstable := ((process_process_eq_iff hp "Total: 5+5".toList).2 (.inr (hlead ▸ hlabel))).2 _ hfirst
    rfl
  rw [htext] at hstable
  exact ⟨p, hp, htext, hstable.mpr (by decide +kernel)⟩

set_option maxRecDepth 100000 in
/-- The value of a fraction, with ten decimals, is taken for a phone number behind the country code.
-/
theorem process_process_four_thirds : ∃ p, standard {} ⟨2026, 10, 19, by decide⟩ = .ok p ∧
    (p.process "4/3".toList).text = "1.3333333333".toList ∧
    (p.process "1.3333333333".toList).text = "(333) 333-3333".toList ∧
    (p.process (p.process "4/3".toList).text).text ≠ (p.process "4/3".toList).text := by
  have hrun : (standard {} ⟨2026, 10, 19, by decide⟩).toOption.any fun p =>
      (p.process "4/3".toList).text == "1.3333333333".toList &&
        (p.process "1.3333333333".toList).text == "(333) 333-3333".toList := by
    decide +kernel
  obtain ⟨p, hp, hout⟩ := exists_of_any_standard hrun
  rw [Bool.and_eq_true, beq_iff_eq, beq_iff_eq] at hout
  refine ⟨p, hp, hout.1, hout.2, ?_⟩
  rw [hout.1, hout.2]
  decide +kernel

end Pipeline

end Snippet
