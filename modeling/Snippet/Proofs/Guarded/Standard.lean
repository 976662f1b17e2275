import Snippet.Detection.Standard
import Snippet.Proofs.Guarded.Dates
import Snippet.Proofs.Guarded.Quantities
import Snippet.Proofs.Rating.Payment

/-!
# Guarded standard detectors

The standard detectors, guarded (`Guarded.standard`). Each answers what the detector answers
(`forall₂_standard`), and under a valid configuration that is an outcome, except for a rating code
whose payment is beyond the floats (`standard_answers`).
-/

namespace Snippet

namespace Guarded

variable {ctx : Context} {t : Text}

/-! ## Times -/

/-- The parts of a calculation. -/
def clockParts? (t : Text) : Guarded (Text × Text × Text) := do
  let m ← captures Pattern.timeCalc t
  return (← option (m.text? t 1), ← option (m.text? t 2), ← option (m.text? t 3))

/-- The reading of a written time, whose groups are cut out. -/
def reading? (t : Text) : Guarded ClockReading := do
  let _ ← captures Pattern.timeOfDay (Text.trim t)
  option (ClockReading.ofText? t)

/-- The seconds of a duration that is written like a clock, counted in words of 64 bits. -/
def clockSeconds? (t : Text) (m : Match) : Guarded Nat := do
  let hours ← option (Decimal.nat? (← option (m.text? t 1)))
  let minutes ← option (Decimal.nat? (← option (m.text? t 2)))
  let seconds ← option (Duration.optionalPart? (m.text? t 3))
  if minutes < 60 && seconds < 60 then
    let withinHour ← signed 64 (60 * minutes)
    let _ ← signed 64 (withinHour + seconds)
    let total := 3600 * hours + 60 * minutes + seconds
    if total < Duration.bound then return total else failure
  else failure

/-- The seconds of a number with its unit. -/
def partSeconds? (part : Text) : Guarded Float := do
  let m ← captures Pattern.durationPart part
  let x ← option (Decimal.float? (← option (m.text? part 1)))
  let y ← option (Duration.unitSeconds? (← option (m.text? part 2)))
  return x * y

/-- The seconds of a list of numbers with their units; what is left between them is cut out. -/
def partsSeconds? (t : Text) : Guarded Nat := do
  let parts ← occurrences Pattern.durationPart t
  let total ← parts.foldlM (fun sum m => do return sum + (← partSeconds? (m.text t))) 0.0
  let left ← replace (fun _ => pure []) t 0 parts
  if parts.isEmpty || !Duration.isFiller left then failure else option (Duration.wholeSeconds? total)

/-- The seconds of a written duration. -/
def seconds? (t : Text) : Guarded Nat := do
  let body := Text.trim t
  match ← attempt (captures Pattern.durationClock body) with
  | some m => clockSeconds? body m
  | none => partsSeconds? body

/-- The replacement of a calculation, for which the seconds are moved in a word of 64 bits. -/
def clock (t : Text) : Guarded Text := do
  let (time, sign, duration) ← clockParts? (Text.trim t)
  let reading ← reading? time
  let seconds ← seconds? duration
  if Clock.longestShift < seconds then failure
  else
    let shift : Int := if sign = ['-'] then -(seconds : Int) else seconds
    let _ ← signed 64 (reading.time.seconds + shift)
    return reading.render (reading.time.shift shift)

theorem clockParts?_eq (t : Text) : clockParts? t = option (Clock.parts? t) := by
  rw [clockParts?, captures_eq]
  exact option_bind_congr fun m _ => option_bind_congr fun time _ =>
    option_bind_congr fun sign _ => option_bind_congr fun duration _ => rfl

theorem reading?_eq (t : Text) : reading? t = option (ClockReading.ofText? t) := by
  rw [reading?, captures_eq, ClockReading.ofText?]
  cases Pattern.timeOfDay.full? (Text.trim t) <;> rfl

theorem clockSeconds?_eq (t : Text) (m : Match) :
    clockSeconds? t m = option (Duration.ofClock? t m) := by
  refine option_bind_congr fun _ _ => option_bind_congr fun hours _ => ?_
  refine option_bind_congr fun _ _ => option_bind_congr fun minutes _ => ?_
  refine option_bind_congr fun seconds _ => ?_
  by_cases h : minutes < 60 && seconds < 60
  · have hbounds : minutes < 60 ∧ seconds < 60 := by simpa using h
    rw [if_pos h, signed_eq (by omega), pure_bind, signed_eq (by omega), pure_bind]
    simp only [h, Bool.true_and, decide_eq_true_eq, apply_ite option, option_some, option_none]
  · simp only [Bool.eq_false_iff.mpr h, Bool.false_and]
    rfl

theorem partSeconds?_eq (part : Text) : partSeconds? part = option (Duration.partSeconds? part) := by
  rw [partSeconds?, captures_eq]
  exact option_bind_congr fun m _ => option_bind_congr fun _ _ => option_bind_congr fun x _ =>
    option_bind_congr fun _ _ => option_bind_congr fun y _ => rfl

theorem foldlM_option {α β : Type} {f : β → α → Guarded β} {g : β → α → Option β}
    (h : ∀ b a, f b a = option (g b a)) (as : List α) (b : β) :
    as.foldlM f b = option (as.foldlM g b) := by
  induction as generalizing b with
  | nil => rfl
  | cons a as ih =>
    rw [List.foldlM_cons, List.foldlM_cons, h]
    exact option_bind_congr fun b _ => ih b

theorem partsSeconds?_eq (t : Text) : partsSeconds? t = option (Duration.ofParts? t) := by
  have hstep : ∀ (sum : Float) (m : Match), (do return sum + (← partSeconds? (m.text t)) : Guarded Float) =
      option ((Duration.partSeconds? (m.text t)).map (sum + ·)) := by
    intro sum m
    rw [partSeconds?_eq]
    cases Duration.partSeconds? (m.text t) <;> rfl
  rw [partsSeconds?, occurrences_eq, pure_bind, foldlM_option hstep]
  refine option_bind_congr fun total _ => ?_
  rw [replace_eq (fun _ => rfl), pure_bind]
  exact (apply_ite option _ _ _).symm

theorem seconds?_eq (t : Text) : seconds? t = option (Duration.seconds? t) := by
  simp only [seconds?, captures_eq, attempt_option, pure_bind, clockSeconds?_eq, partsSeconds?_eq]
  rw [Duration.seconds?]
  cases Pattern.durationClock.full? (Text.trim t) <;> rfl

theorem clock_eq (t : Text) : clock t = option (Clock.answer? t) := by
  rw [clock, clockParts?_eq]
  refine option_bind_congr fun (time, sign, duration) _ => ?_
  simp only [reading?_eq, seconds?_eq]
  refine option_bind_congr fun reading _ => option_bind_congr fun seconds _ => ?_
  split
  · rfl
  · rename_i hshift
    have hlongest : Clock.longestShift = 9223372036854775 := rfl
    have htime := reading.time.isLt
    have hday : daySeconds = 86400 := rfl
    have hword : -9223372036854775 ≤ (if sign = ['-'] then -(seconds : Int) else seconds) ∧
        (if sign = ['-'] then -(seconds : Int) else seconds) ≤ 9223372036854775 := by
      split <;> omega
    rw [signed_eq (by omega), pure_bind]
    rfl

/-! ## Navigation -/

/-- The web address of a target that is a domain name. -/
def domainAddress? (target : Text) : Guarded WebAddress := do
  let m ← captures Pattern.domain target
  let ending ← option (m.text? target 1)
  if Navigation.knownEndings.contains (String.ofList (Text.lower ending)) then
    option (WebAddress.ofText? ("https://".toList ++ target))
  else failure

/-- The web search for a text. -/
def search (searchUrl query : Text) : Guarded SideEffect := do
  let payload ← render searchUrl [("query".toList, Percent.formEncode query)]
  return { Navigation.search searchUrl query with payload }

/-- The action for a target. -/
def effect? (config : Config) (target : Text) : Guarded SideEffect :=
  match Navigation.webAddress? target with
  | some address => pure (Navigation.openUrl address.toText)
  | none =>
    if Pattern.appUrl.matchesAll target then pure (Navigation.openUrl target)
    else do
      match ← attempt (domainAddress? target) with
      | some address => return Navigation.openUrl address.toText
      | none =>
        if Pattern.filePath.matchesAll target then return Navigation.openPath target
        else if Navigation.isSearchable config target then search config.searchUrl target
        else failure

/-- The run of the detector of targets. -/
def navigation (ctx : Context) (t : Text) : Guarded Outcome :=
  let target := Text.trim t
  if !ctx.config.navigationEnabled || ctx.scope ≠ .whole || !ctx.log.isEmpty || target.isEmpty then
    failure
  else do return .sideEffect t (← effect? ctx.config target)

theorem domainAddress?_eq (target : Text) :
    domainAddress? target = option (Navigation.domainAddress? target) := by
  rw [domainAddress?, captures_eq, Navigation.domainAddress?, Navigation.hasKnownEnding]
  cases Pattern.domain.full? target with
  | none => rfl
  | some m =>
    obtain hending | ⟨ending, hending⟩ := Option.eq_none_or_eq_some (m.text? target 1)
    · simp only [option_some, pure_bind, Option.bind_some, hending]
      rfl
    · simp only [option_some, pure_bind, Option.bind_some, hending, Option.any_some]
      exact (apply_ite option _ _ _).symm

theorem search_eq (searchUrl query : Text) :
    search searchUrl query = pure (Navigation.search searchUrl query) := by
  rw [search, render_eq, pure_bind, Navigation.search]

theorem effect?_eq (config : Config) (target : Text) :
    effect? config target = option (Navigation.effect? config target) := by
  simp only [effect?, domainAddress?_eq, attempt_option, pure_bind, search_eq, Navigation.effect?]
  cases Navigation.webAddress? target with
  | some address => rfl
  | none =>
    simp only [apply_ite option]
    cases Navigation.domainAddress? target <;> simp only [apply_ite option, option_some, option_none]

theorem navigation_eq (ctx : Context) (t : Text) :
    answer (navigation ctx t) = pure (Navigation.detect ctx t) := by
  simp only [navigation, Navigation.detect, effect?_eq]
  split
  · rfl
  · cases Navigation.effect? ctx.config (Text.trim t) <;> rfl

/-! ## The standard detectors -/

/-- The run of a detector that runs a formatter. -/
def formatted (isCandidate : Guarded Bool) (process : Guarded Text) : Guarded Outcome := do
  if ← isCandidate then return .ofOption (← attempt process) else failure

/-- The standard detectors, guarded, in the order in which they run. -/
def standard : List Detector :=
  [⟨"date_range", 10, fun ctx t => answer (formatted (isRange ctx.today t) (dateRange ctx.today t))⟩,
    ⟨"phone", 20, fun _ t => answer (phone t)⟩,
    ⟨"rating", 30, fun ctx t => answer (rating ctx t)⟩,
    ⟨"combinations", 40, fun _ t => answer (combination t)⟩,
    ⟨"arithmetic", 50, fun ctx t =>
      answer (formatted (isArithmetic t) (arithmetic ctx.config.template t))⟩,
    ⟨"units", 60, fun ctx t => answer (unit ctx t)⟩,
    ⟨"time_calc", 70, fun _ t => answer (.ofOption <$> attempt (clock t))⟩,
    ⟨"navigation", 1000, fun ctx t => answer (navigation ctx t)⟩]

theorem formatted_eq (b : Bool) (o : Option Text) :
    answer (formatted (pure b) (option o)) = pure (if b then .ofOption o else .noMatch) := by
  rw [formatted, pure_bind, attempt_option]
  split <;> rfl

theorem answer_dateRange (ctx : Context) (t : Text) :
    answer (formatted (isRange ctx.today t) (dateRange ctx.today t)) =
      (Detector.dateRange DateRange.formatter).detect ctx t := by
  rw [isRange_eq, dateRange_eq, formatted_eq]
  rfl

theorem answer_arithmetic (ctx : Context) (t : Text) :
    answer (formatted (isArithmetic t) (arithmetic ctx.config.template t)) =
      (Detector.arithmetic Arithmetic.formatter).detect ctx t := by
  rw [isArithmetic_eq, arithmetic_eq, formatted_eq]
  rfl

theorem answer_clock (ctx : Context) (t : Text) :
    answer (.ofOption <$> attempt (clock t)) = Clock.detector.detect ctx t := by
  rw [clock_eq, attempt_option]
  rfl

/-- **A guarded detector answers what the detector answers.** -/
theorem forall₂_standard :
    List.Forall₂ (fun guarded detector => guarded.id = detector.id ∧
      guarded.priority = detector.priority ∧ guarded.detect = detector.detect)
      standard (Detector.standard DateRange.formatter Arithmetic.formatter) := by
  refine .cons ⟨rfl, rfl, ?_⟩ <| .cons ⟨rfl, rfl, ?_⟩ <| .cons ⟨rfl, rfl, ?_⟩ <|
    .cons ⟨rfl, rfl, ?_⟩ <| .cons ⟨rfl, rfl, ?_⟩ <| .cons ⟨rfl, rfl, ?_⟩ <|
    .cons ⟨rfl, rfl, ?_⟩ <| .cons ⟨rfl, rfl, ?_⟩ .nil
  all_goals funext ctx t
  · exact answer_dateRange ctx t
  · exact phone_eq t
  · exact rating_eq ctx t
  · exact combination_eq t
  · exact answer_arithmetic ctx t
  · exact unit_eq ctx t
  · exact answer_clock ctx t
  · exact navigation_eq ctx t

/-! ## Answers -/

theorem detect_eq_of_id_eq_rating {d : Detector} (hd : d ∈ standard) (hid : d.id = "rating") :
    d.detect ctx t = Rating.detect ctx t := by
  simp only [standard, List.mem_cons, List.not_mem_nil, or_false] at hd
  obtain rfl | rfl | rfl | rfl | rfl | rfl | rfl | rfl := hd
  case inr.inr.inl => exact rating_eq ctx t
  all_goals exact absurd hid (by decide)

/-- The other detectors have an outcome, where a value may be written with the places that are set. -/
theorem exists_outcome_of_id_ne_rating {d : Detector} (hd : d ∈ standard) (hid : d.id ≠ "rating")
    (hplaces : ctx.config.precision ≤ Unit.maxPlaces) : ∃ o, d.detect ctx t = .ok o := by
  simp only [standard, List.mem_cons, List.not_mem_nil, or_false] at hd
  obtain rfl | rfl | rfl | rfl | rfl | rfl | rfl | rfl := hd
  · exact ⟨_, answer_dateRange ctx t⟩
  · exact ⟨_, phone_eq t⟩
  · exact absurd rfl hid
  · exact ⟨_, combination_eq t⟩
  · exact ⟨_, answer_arithmetic ctx t⟩
  · simp only [unit, conversion?_eq, decimalText_eq _ hplaces]
    cases Unit.conversion? t with
    | none => exact ⟨_, rfl⟩
    | some conversion => exact ⟨_, rfl⟩
  · exact ⟨_, answer_clock ctx t⟩
  · exact ⟨_, navigation_eq ctx t⟩

/-- **The standard detectors fail only for a payment that is beyond the floats.** Under a valid
configuration and with the standard table, the guarded detectors answer what the detectors answer,
they never break off, and the only failure is that of the detector of rating codes for a payment
beyond the floats, which needs an excessive weekly rate. -/
theorem standard_answers (h : ctx.config.validate = .ok ()) (hratings : ctx.ratings = .standard)
    (t : Text) :
    List.Forall₂ (fun guarded detector => guarded.id = detector.id ∧
        guarded.priority = detector.priority ∧ guarded.detect = detector.detect)
      standard (Detector.standard DateRange.formatter Arithmetic.formatter) ∧
    (∀ d ∈ standard, ∀ fault, d.detect ctx t = .error fault ↔ d.id = "rating" ∧
      ∃ percentage, Rating.Overflows ctx t percentage ∧ fault = Rating.notFinite percentage) ∧
    (ctx.config.weeklyRate ≤ RatingTable.highRate →
      ∀ d ∈ standard, ∃ o, d.detect ctx t = .ok o) := by
  have hvalid := Config.validate_eq_ok_iff.mp h
  have hplaces : ctx.config.precision ≤ Unit.maxPlaces :=
    Nat.le_trans hvalid.precision_le (by decide)
  have hfault : ∀ d ∈ standard, ∀ fault, d.detect ctx t = .error fault ↔ d.id = "rating" ∧
      ∃ percentage, Rating.Overflows ctx t percentage ∧ fault = Rating.notFinite percentage := by
    intro d hd fault
    by_cases hid : d.id = "rating"
    · rw [detect_eq_of_id_eq_rating hd hid, Rating.detect_eq_error_iff]
      exact (and_iff_right hid).symm
    · obtain ⟨o, ho⟩ := exists_outcome_of_id_ne_rating (t := t) hd hid hplaces
      constructor
      · intro herror
        rw [ho] at herror
        cases herror
      · exact fun hrating => absurd hrating.1 hid
  refine ⟨forall₂_standard, hfault, fun hrate d hd => ?_⟩
  cases hdetect : d.detect ctx t with
  | ok o => exact ⟨o, rfl⟩
  | error fault =>
    obtain ⟨-, percentage, hoverflows, -⟩ := (hfault d hd fault).mp hdetect
    exact absurd hrate (hoverflows.not_le_highRate hvalid hratings)

theorem standard_answers_at_default_rate :
    let ctx : Context := ⟨{}, .standard, ⟨2026, 10, 19, by decide⟩, .whole, []⟩
    ctx.config.validate = .ok () ∧ ctx.config.weeklyRate ≤ RatingTable.highRate ∧
      ∀ d ∈ standard, ∃ o, d.detect ctx "PD 99".toList = .ok o := by
  intro ctx
  have hvalid : ctx.config.validate = .ok () :=
    Config.validate_eq_ok_iff.mpr (Config.isValid_default nofun)
  have hrate : ctx.config.weeklyRate ≤ RatingTable.highRate := by decide +kernel
  exact ⟨hvalid, hrate, (standard_answers hvalid rfl "PD 99".toList).2.2 hrate⟩

/-- **A failure under a valid configuration**: the weekly rate is excessive. -/
theorem failure_at_excessive_rate :
    let config : Config := { weeklyRate := 1e308 }
    let ctx : Context := ⟨config, .standard, ⟨2026, 10, 19, by decide⟩, .whole, []⟩
    config.validate = .ok () ∧
      Rating.detector ∈ Detector.standard DateRange.formatter Arithmetic.formatter ∧
      Rating.detector.detect ctx "PD 99".toList =
        .error (.failed "payout for 99% is not finite".toList) := by
  intro config ctx
  have hdefault : Config.IsValid {} := Config.isValid_default nofun
  have hvalid : config.IsValid :=
    { hdefault with
      isFinite_rate := by decide +kernel
      rate_pos := by decide +kernel }
  refine ⟨Config.validate_eq_ok_iff.mpr hvalid, by simp [Detector.standard], ?_⟩
  decide +kernel

end Guarded

end Snippet
