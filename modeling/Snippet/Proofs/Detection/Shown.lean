import Snippet.Proofs.Detection.PhoneNumber
import Snippet.Proofs.Unit.UnitName

/-!
# What the detectors show

The standard detectors show dates, phone numbers, figures, quantities or texts without digits, and
navigation shows what it was given (`Shown`). So it is for the first match of a standard pipeline
without a template (`Pipeline.IsStandard.shown_of_head?`).
-/

namespace Snippet

open Pattern Number

variable {t u v w : Text}

/-! ## Arithmetic -/

theorem Text.filter_trim {q : Char → Bool} (hq : ∀ c, isWhite c → q c = false) (t : Text) :
    (trim t).filter q = t.filter q := by
  have hblank : ∀ {w}, isBlank w → w.filter q = [] := fun hw =>
    List.filter_eq_nil_iff.mpr fun c hc => by simp [hq c (isWhite_of_isBlank hw hc)]
  have hstart := congrArg (List.filter q) (leadingWhite_append_trimStart (trimEnd t))
  have hend := congrArg (List.filter q) (trimEnd_append_trailingWhite t)
  rw [List.filter_append, hblank (isBlank_leadingWhite _), List.nil_append] at hstart
  rw [List.filter_append, hblank (isBlank_trailingWhite t), List.append_nil] at hend
  exact hstart.trans hend

/-- A text with other letters than those of the word "of" is not arithmetic. -/
theorem Arithmetic.process_eq_none_of_filter
    (h : (t.filter (!isArithmetic ·)).map Text.foldCase ∉ [[], "of".toList])
    (template : Option Text) : process template t = none := by
  refine process_eq_none_of_not_reads (fun hread => h ?_) template
  have hwhite : ∀ c, Text.isWhite c → (!isArithmetic c) = false := fun c hc => by
    rw [isArithmetic_of_isWhite hc, Bool.not_true]
  rw [← Text.filter_trim hwhite]
  exact filter_of_arithmeticCandidate hread

/-! ## Figures -/

theorem Number.IsFigure.isQuantityChar (h : IsFigure t) : ∀ c ∈ t, isQuantityChar c :=
  h.forall_mem (fun c hc => by simp [Snippet.isQuantityChar, hc]) (by decide)

theorem Number.IsFigure.not_mem_tail (h : IsFigure t) : '-' ∉ t.tail := by
  intro hmem
  cases h with
  | positive h => exact absurd (h.isFigureChar _ (List.mem_of_mem_tail hmem)) (by decide)
  | negative h => exact absurd (h.isFigureChar _ hmem) (by decide)

/-- The digits of a figure are those of ASCII. -/
theorem Number.IsFigure.isDigit_of_mem (h : IsFigure t) :
    ∀ c ∈ t, Text.isDigit c → c.isDigit := by
  refine h.forall_mem (fun c hc hdigit => ?_) fun hdigit => absurd hdigit (by decide)
  rcases cases_of_isFigureChar hc with hc | rfl | rfl | rfl
  · exact hc
  all_goals cases hdigit

/-- What is shown has no digits, or it is a figure with a digit. -/
theorem Number.IsShown.cases (h : IsShown t) :
    IsDigitless t ∨ IsFigure t ∧ ∃ c ∈ t, c.isDigit := by
  refine or_iff_not_imp_left.mpr fun hnot => ?_
  have hfigure := h.resolve_left hnot
  rw [IsDigitless] at hnot
  push Not at hnot
  obtain ⟨c, hc, hdigit⟩ := hnot
  exact ⟨hfigure, c, hc, hfigure.isDigit_of_mem c hc (by simpa using hdigit)⟩

/-- What is shown with a caption behind it is a quantity. -/
theorem Caption.quantity_of_isShown (hu : Caption u)
    (hother : (u.filter (!isArithmetic ·)).map Text.foldCase ∉ [[], "of".toList])
    (hw : IsShown w) : IsDigitless (w ++ u) ∨ Quantity w u := by
  rcases hw.cases with hw | ⟨hw, x, hx, hdigit⟩
  · refine .inl fun c hc => ?_
    exact (List.mem_append.mp hc).elim (hw c) (hu.isDigit_eq_false c)
  · right
    refine hu.quantity (List.ne_nil_of_mem hx) hw.isQuantityChar hw.not_mem_tail hw.count_point_le ?_ ?_
    · obtain ⟨a, b, rfl⟩ := List.append_of_mem hx
      refine ⟨a, x, b ++ u, by simp, Text.isDigit_of_isDigit hdigit, ?_⟩
      obtain ⟨c, hc⟩ : ∃ c, c ∈ u.filter (!isArithmetic ·) := by
        refine List.exists_mem_of_ne_nil _ fun hnil => ?_
        rw [hnil] at hother
        exact hother (List.mem_cons_self ..)
      obtain ⟨hc, hother⟩ := List.mem_filter.mp hc
      exact ⟨c, List.mem_append_right b hc, by simpa using hother⟩
    · refine Arithmetic.process_eq_none_of_filter ?_
      have hnone : w.filter (!isArithmetic ·) = [] :=
        List.filter_eq_nil_iff.mpr fun c hc => by simp [hw.isArithmetic c hc]
      rwa [List.filter_append, hnone, List.nil_append]

/-! ## Phone numbers -/

/-- An amount of money is no phone number. -/
theorem Phone.detect_currencyText? {x : Float} (h : currencyText? x = some v) :
    detect v = .noMatch := by
  rw [currencyText?] at h
  split at h
  · obtain rfl := Option.some.inj h
    split <;> exact detect_cons_eq_noMatch (by decide) (by decide) (by decide)
  · cases h

/-! ## Times -/

/-- What stands behind a time. -/
def halves : List Text := ["", " AM", " PM"].map String.toList

theorem Caption.of_mem_halves (hu : u ∈ halves) : Caption u := by
  simp only [halves, List.map_cons, List.map_nil, List.mem_cons, List.not_mem_nil, or_false] at hu
  rcases hu with rfl | rfl | rfl
  · exact .nil
  all_goals
    exact ⟨by decide, by decide, by decide, by decide, by decide, .of_tails (by decide +kernel)⟩

/-- An hour with what stands behind it. -/
structure IsTime (t : Text) : Prop where
  isDigit_or_eq : ∀ c ∈ t, c.isDigit ∨ c = ':'
  exists_hour : ∃ a x b, t = a ++ x :: ':' :: b ∧ x.isDigit

namespace ClockReading

/-- A time is rendered as its parts with colons between them, and perhaps the half of the day. -/
theorem exists_render_eq (r : ClockReading) (time : Time) :
    ∃ w u, r.render time = w ++ u ∧ IsTime w ∧ u ∈ halves := by
  have hpadded : ∀ k n, ∀ c ∈ Decimal.padded k n, c.isDigit := fun k n c =>
    Decimal.isDigit_of_mem_padded
  have htime : ∀ hour : Text, hour ≠ [] → (∀ c ∈ hour, c.isDigit) →
      IsTime (hour ++ (':' :: Decimal.padded 2 time.minute) ++
        if r.withSeconds then ':' :: Decimal.padded 2 time.second else []) := by
    intro hour hne hhour
    refine ⟨fun c hc => ?_, ?_⟩
    · rw [List.append_assoc, List.mem_append, List.mem_append, List.mem_cons] at hc
      rcases hc with hc | (hc | hc) | hc
      · exact .inl (hhour c hc)
      · exact .inr hc
      · exact .inl (hpadded 2 _ c hc)
      · split at hc
        · exact (List.mem_cons.mp hc).symm.imp_left (hpadded 2 _ c)
        · cases hc
    · obtain ⟨a, x, rfl⟩ := (List.eq_nil_or_concat' hour).resolve_left hne
      exact ⟨a, x, _, by rw [List.append_assoc, List.append_assoc]; rfl, hhour x (by simp)⟩
  unfold render
  dsimp only
  split
  · refine ⟨_, _, rfl, htime _ (Decimal.digitsOf_ne_nil _) fun c => Decimal.isDigit_of_mem_digitsOf, ?_⟩
    split <;> decide
  · exact ⟨_, [], (List.append_nil _).symm,
      htime _ (List.append_ne_nil_of_right_ne_nil _ (Decimal.digitsOf_ne_nil _)) (hpadded 2 _),
      by decide⟩

end ClockReading

/-- **A time, perhaps with the half of the day, is a quantity.** -/
theorem IsTime.quantity (hw : IsTime w) (hu : u ∈ halves) : Quantity w u := by
  have hnot : ∀ x, Char.isDigit x = false → x ≠ ':' → x ∉ w := by
    intro x hx hx' hmem
    rcases hw.isDigit_or_eq x hmem with h | h
    · rw [hx] at h
      cases h
    · exact hx' h
  obtain ⟨a, x, b, hsplit, hx⟩ := hw.exists_hour
  refine (Caption.of_mem_halves hu).quantity ?_ (fun c hc => ?_) ?_ ?_ ?_ ?_
  · simp [hsplit]
  · rcases hw.isDigit_or_eq c hc with hc | rfl
    · simp [isQuantityChar, isFigureChar, hc]
    · decide
  · exact fun hmem => hnot '-' (by decide) (by decide) (List.mem_of_mem_tail hmem)
  · rw [List.count_eq_zero.mpr (hnot '.' (by decide) (by decide))]
    exact Nat.zero_le 1
  · exact ⟨a, x, ':' :: (b ++ u), by simp [hsplit], Text.isDigit_of_isDigit hx, ':', by simp, by decide⟩
  · -- the colon is neither of arithmetic nor in the word "of"
    refine Arithmetic.process_eq_none_of_filter fun hmem => ?_
    have hcolon : ':' ∈ ((w ++ u).filter (!isArithmetic ·)).map Text.foldCase :=
      List.mem_map.mpr ⟨':', List.mem_filter.mpr ⟨by simp [hsplit], by decide⟩, by decide⟩
    have hnone : ∀ v ∈ [[], "of".toList], ':' ∉ v := by decide
    exact hnone _ hmem hcolon

/-! ## What is shown -/

/-- A match, by what it shows for a text. -/
inductive Shown (today : Date) (t : Text) : MatchRecord → Prop where
  | dateRange {r : DateRange} : DateRange.ofText? today t = some r →
      Shown today t ⟨"date_range", r.describe⟩
  | phone {v : Text} : Phone.detect t = .text v → Shown today t ⟨"phone", v⟩
  | rating {v : Text} : IsFigure v → (∃ c ∈ v, c.isDigit) → Phone.detect v = .noMatch →
      Shown today t ⟨"rating", v⟩
  | arithmetic {v : Text} : IsFigure v → (∃ c ∈ v, c.isDigit) →
      Arithmetic.process none t = some v → Shown today t ⟨"arithmetic", v⟩
  | quantity {id : String} {w u : Text} : Quantity w u → Shown today t ⟨id, w ++ u⟩
  | digitless {id : String} {v : Text} : IsDigitless v → Shown today t ⟨id, v⟩
  | navigation : Shown today t ⟨"navigation", t⟩

section

variable {base : Context} {d : Detector} {m : MatchRecord} {id : String}

/-- A first match is what the detector shows. -/
theorem Detector.detect_of_firstMatch? (h : d.firstMatch? base t = some m) :
    ∃ o, d.detect { base with log := [] } t = .ok o ∧ o.record? d.id = some m := by
  rw [firstMatch?, outcome] at h
  split at h
  · exact ⟨_, ‹_›, h⟩
  · cases h

theorem Combination.exists_describe (h : (detect t).record? id = some m) :
    ∃ ps, m = ⟨id, describe ps⟩ := by
  unfold detect at h
  dsimp only at h
  split at h
  · split at h
    · split at h
      · cases h
        exact ⟨_, rfl⟩
      · cases h
    · cases h
  · cases h

/-- A combined value is shown as a percentage with a caption. -/
theorem Combination.shown {today : Date} (h : (detect t).record? id = some m) : Shown today t m := by
  have hcaption : Caption "% combined".toList :=
    ⟨by decide, by decide, by decide, by decide, by decide, .of_tails (by decide +kernel)⟩
  obtain ⟨ps, rfl⟩ := exists_describe h
  rcases hcaption.quantity_of_isShown (by decide +kernel) (isShown_fixed _ 0) with hv | hv
  · exact .digitless hv
  · exact .quantity hv

theorem Rating.exists_amount {ctx : Context} {o : Outcome} (h : detect ctx t = .ok o)
    (hm : o.record? id = some m) : ∃ x amount, currencyText? x = some amount ∧ m = ⟨id, amount⟩ := by
  unfold detect at h
  split at h
  · cases h
    cases hm
  · split at h
    · cases h
      cases hm
    · split at h
      · rename_i amount hamount
        cases h
        cases hm
        exact ⟨_, amount, hamount, rfl⟩
      · cases h

/-- A rating is shown as an amount of money. -/
theorem Rating.shown {ctx : Context} {o : Outcome} {today : Date} (h : detect ctx t = .ok o)
    (hm : o.record? "rating" = some m) : Shown today t m := by
  obtain ⟨x, amount, hamount, rfl⟩ := exists_amount h hm
  rcases (isShown_currencyText? hamount).cases with hv | ⟨hv, hdigit⟩
  · exact .digitless hv
  · exact .rating hv hdigit (Phone.detect_currencyText? hamount)

/-- A value of arithmetic is shown as an amount of money or as a result. -/
theorem Arithmetic.texts_of_process {v : Text} (h : process none t = some v) :
    ∃ x, currencyText? x = some v ∨ resultText? x = some v := by
  rw [process] at h
  split at h
  · obtain ⟨⟨numeric, shown⟩, hanswer, rfl⟩ := Option.map_eq_some_iff.mp h
    simp only [answer?, Option.bind_eq_bind, Option.bind_eq_some_iff, Option.pure_def] at hanswer
    obtain ⟨e, -, x, -, numeric', hnumeric, hanswer⟩ := hanswer
    split at hanswer
    · obtain ⟨amount, hamount, heq⟩ := Option.bind_eq_some_iff.mp hanswer
      cases heq
      exact ⟨x, .inl hamount⟩
    · cases hanswer
      exact ⟨x, .inr hnumeric⟩
  · cases h

theorem Arithmetic.isShown_of_process {v : Text} (h : process none t = some v) : IsShown v := by
  obtain ⟨x, hamount | hresult⟩ := texts_of_process h
  · exact isShown_currencyText? hamount
  · exact isShown_resultText? hresult

/-- **A result is not arithmetic again**, whether it is an amount of money, an integer or a decimal.
-/
theorem Arithmetic.isCandidate_result {settings : Settings} {v : Text}
    (htemplate : settings.config.template = none) (h : formatter.process settings t = some v)
    (again : Settings) :
    formatter.isCandidate again v = false ∧ formatter.process again v = none := by
  have hprocess : process none t = some v := htemplate ▸ h
  have hcandidate : isCandidate v = false := by
    rcases isShown_of_process hprocess with hdigitless | hfigure
    · exact isCandidate_eq_false_of_not_reads <| not_reads_of_forall (by simp) fun c hc =>
        hdigitless c (Text.mem_of_mem_trim hc)
    · exact isCandidate_eq_false_of_isFigure hfigure
  refine ⟨hcandidate, ?_⟩
  show process again.config.template v = none
  rw [process, hcandidate, if_neg Bool.false_ne_true]

set_option maxRecDepth 100000 in
/-- An amount below zero has its minus in front of the dollar sign. -/
theorem Arithmetic.isCandidate_negative_amount :
    formatter.process ⟨{}, ⟨2026, 10, 19, by decide⟩⟩ "$5 - $1,010.50".toList =
        some "-$1,005.50".toList ∧
      formatter.isCandidate ⟨{}, ⟨2026, 10, 19, by decide⟩⟩ "-$1,005.50".toList = false ∧
      formatter.process ⟨{}, ⟨2026, 10, 19, by decide⟩⟩ "-$1,005.50".toList = none := by
  have hprocess : formatter.process ⟨{}, ⟨2026, 10, 19, by decide⟩⟩ "$5 - $1,010.50".toList =
      some "-$1,005.50".toList := by
    decide +kernel
  exact ⟨hprocess, isCandidate_result rfl hprocess _⟩

theorem Unit.exists_conversion {ctx : Context} {o : Outcome} (h : detector.detect ctx t = .ok o)
    (hm : o.record? id = some m) : ∃ x places name, conversion? t = some (x, name) ∧
      m = ⟨id, Number.decimalText x places ++ ' ' :: name⟩ := by
  simp only [detector] at h
  split at h
  · cases h
    cases hm
  · rename_i x name hconversion
    split at h
    · cases h
      cases hm
      exact ⟨x, _, name, hconversion, rfl⟩
    · cases h

/-- A converted value is shown with the name of the unit. -/
theorem Unit.shown {ctx : Context} {o : Outcome} {today : Date} (h : detector.detect ctx t = .ok o)
    (hm : o.record? id = some m) : Shown today t m := by
  obtain ⟨x, places, name, hconversion, rfl⟩ := exists_conversion h hm
  obtain ⟨hcaption, hother⟩ := caption_of_conversion? hconversion
  have hblank : (' ' :: name).filter (!isArithmetic ·) = name.filter (!isArithmetic ·) := rfl
  rcases hcaption.quantity_of_isShown (hblank ▸ hother) (isShown_decimalText ..) with hv | hv
  · exact .digitless hv
  · exact .quantity hv

/-- A time is shown like the one that was given, as a quantity. -/
theorem Clock.exists_quantity (h : (Outcome.ofOption (answer? t)).record? id = some m) :
    ∃ w u, Quantity w u ∧ m = ⟨id, w ++ u⟩ := by
  cases hanswer : answer? t with
  | none =>
    rw [hanswer] at h
    cases h
  | some v =>
    rw [hanswer] at h
    cases h
    simp only [answer?, Option.bind_eq_bind, Option.bind_eq_some_iff] at hanswer
    obtain ⟨⟨time, sign, duration⟩, -, reading, -, seconds, -, hif⟩ := hanswer
    split at hif
    · cases hif
    · cases hif
      obtain ⟨w, u, htext, hw, hu⟩ := reading.exists_render_eq (reading.time.shift _)
      exact ⟨w, u, hw.quantity hu, by rw [htext]⟩

theorem Clock.shown {today : Date} (h : (Outcome.ofOption (answer? t)).record? id = some m) :
    Shown today t m := by
  obtain ⟨w, u, hquantity, rfl⟩ := exists_quantity h
  exact .quantity hquantity

/-- **What a standard detector shows, navigation apart.** -/
theorem Detector.shown_of_firstMatch? (htemplate : base.config.template = none)
    (hd : d ∈ textual DateRange.formatter Arithmetic.formatter)
    (h : d.firstMatch? base t = some m) : Shown base.today t m := by
  simp only [textual, List.mem_cons, List.not_mem_nil, or_false] at hd
  rcases hd with rfl | rfl | rfl | rfl | rfl | rfl | rfl
  · rw [firstMatch?_dateRange, Option.map_eq_some_iff] at h
    obtain ⟨r, hr, rfl⟩ := h
    exact .dateRange hr
  · rw [firstMatch?_phone] at h
    have heffect := Phone.effect?_detect t
    cases hphone : Phone.detect t with
    | noMatch =>
      rw [hphone] at h
      cases h
    | text v =>
      rw [hphone] at h
      cases h
      exact .phone hphone
    | sideEffect v effect =>
      rw [hphone] at heffect
      cases heffect
  · obtain ⟨o, ho, hm⟩ := detect_of_firstMatch? h
    exact Rating.shown ho hm
  · obtain ⟨o, ho, hm⟩ := detect_of_firstMatch? h
    cases ho
    exact Combination.shown hm
  · rw [firstMatch?_arithmetic, htemplate, Option.map_eq_some_iff] at h
    obtain ⟨v, hv, rfl⟩ := h
    rcases (Arithmetic.isShown_of_process hv).cases with hshown | ⟨hfigure, hdigit⟩
    · exact .digitless hshown
    · exact .arithmetic hfigure hdigit hv
  · obtain ⟨o, ho, hm⟩ := detect_of_firstMatch? h
    exact Unit.shown ho hm
  · obtain ⟨o, ho, hm⟩ := detect_of_firstMatch? h
    cases ho
    exact Clock.shown hm

end

/-- The first match of a standard pipeline is that of a detector, or of navigation, which shows what
it was given. -/
theorem Pipeline.IsStandard.firstMatch_or_navigation {p : Pipeline} {config : Config} {today : Date}
    (hp : p.IsStandard config today) {scope : Scope} {first : MatchRecord}
    (h : (p.dispatch scope t).log.head? = some first) :
    (∃ d ∈ Detector.textual DateRange.formatter Arithmetic.formatter,
      d.firstMatch? ⟨config, p.ratings, today, scope, []⟩ t = some first) ∨
        first = ⟨"navigation", t⟩ := by
  rw [hp.head?_log_dispatch] at h
  obtain ⟨d, hd, hmatch⟩ := List.exists_of_findSome?_eq_some h
  obtain ⟨-, hfirst⟩ := Detector.firstMatch?_of_keptMatch? hmatch
  rw [Detector.standard_eq, List.mem_append] at hd
  rcases hd with hd | hd
  · exact .inl ⟨d, hd, hfirst⟩
  · obtain rfl := List.mem_singleton.mp hd
    obtain ⟨o, ho, hm⟩ := Detector.detect_of_firstMatch? hfirst
    cases ho
    rcases Navigation.detect_cases _ t with hnone | ⟨effect, heffect, -⟩
    · rw [hnone] at hm
      cases hm
    · rw [heffect] at hm
      cases hm
      exact .inr rfl

/-- **What the first match of a standard pipeline shows.** -/
theorem Pipeline.IsStandard.shown_of_head? {p : Pipeline} {config : Config} {today : Date}
    (hp : p.IsStandard config today) (htemplate : config.template = none) {scope : Scope}
    {first : MatchRecord} (h : (p.dispatch scope t).log.head? = some first) :
    Shown today t first := by
  rcases hp.firstMatch_or_navigation h with ⟨d, hd, hfirst⟩ | rfl
  · exact Detector.shown_of_firstMatch? htemplate hd hfirst
  · exact .navigation

end Snippet
