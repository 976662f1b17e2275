import Snippet.Proofs.Detection.Calls
import Snippet.Proofs.Pipeline.Recombination

/-!
# Navigation in the pipeline

Navigation is the last of the standard detectors and the only one that asks for an action, and it
matches only where all of the input is looked at and nothing else has matched. So a dispatch of the
standard detectors asks for an action exactly if navigation is its only match
(`DetectorRegistry.dispatch_standard_cases`), whatever formatters the host has stored, and a
pipeline that asks for an action keeps its text (`Pipeline.effect_only_of_navigation`).
-/

namespace Snippet

/-! ## Detectors that ask for no action -/

variable {ctx : Context} {t : Text} {o : Outcome}

theorem Formatter.effect?_eq_none {f : Formatter} {id : String} {priority : Int}
    (h : (f.toDetector id priority).detect ctx t = .ok o) : o.effect? = none := by
  cases h
  split
  · cases f.process ctx.settings t <;> rfl
  · rfl

theorem Phone.effect?_detect (t : Text) : (Phone.detect t).effect? = none := by
  unfold Phone.detect
  split
  · rfl
  · dsimp only
    split
    · split <;> rfl
    · rfl

theorem Rating.effect?_eq_none (h : Rating.detect ctx t = .ok o) : o.effect? = none := by
  unfold Rating.detect at h
  split at h
  · cases h
    rfl
  · split at h
    · cases h
      rfl
    · split at h <;> cases h
      rfl

theorem Combination.effect?_detect (t : Text) : (Combination.detect t).effect? = none := by
  unfold Combination.detect
  dsimp only
  split
  · split
    · split <;> rfl
    · rfl
  · rfl

theorem Unit.effect?_eq_none (h : Unit.detector.detect ctx t = .ok o) : o.effect? = none := by
  simp only [Unit.detector] at h
  split at h
  · cases h
    rfl
  · split at h <;> cases h
    rfl

namespace Navigation

/-- Navigation declines, or asks for the action of a target of which it keeps the text. -/
theorem detect_cases (ctx : Context) (t : Text) :
    detect ctx t = .noMatch ∨
      ∃ effect, detect ctx t = .sideEffect t effect ∧
        effect? ctx.config (Text.trim t) = some effect ∧ ctx.config.navigationEnabled = true ∧
        ctx.scope = .whole ∧ ctx.log = [] := by
  unfold detect
  dsimp only
  split
  · exact .inl rfl
  · rename_i hopen
    simp only [Bool.or_eq_true, not_or, Bool.not_eq_true, Bool.not_eq_false',
      decide_eq_false_iff_not, Decidable.not_not, List.isEmpty_iff] at hopen
    obtain ⟨⟨⟨henabled, hscope⟩, hlog⟩, -⟩ := hopen
    split
    · rename_i effect heffect
      exact .inr ⟨effect, rfl, heffect, henabled, hscope, hlog⟩
    · exact .inl rfl

end Navigation

/-! ## The standard detectors -/

namespace Detector

variable {f g : Formatter} {d : Detector}

/-- The standard detectors without navigation. -/
def textual (dateRangeFormatter arithmeticFormatter : Formatter) : List Detector :=
  [dateRange dateRangeFormatter, Phone.detector, Rating.detector, Combination.detector,
    arithmetic arithmeticFormatter, Unit.detector, Clock.detector]

theorem standard_eq (f g : Formatter) : standard f g = textual f g ++ [Navigation.detector] := rfl

/-- The order of the priorities does not depend on the formatters. -/
theorem pairwise_standard_of (f g : Formatter) :
    (standard f g).Pairwise (·.priority ≤ ·.priority) := by
  have hpriorities : ((standard f g).map Detector.priority).Pairwise (· ≤ ·) := by
    change List.Pairwise (· ≤ ·) [10, 20, 30, 40, 50, 60, 70, 1000]
    decide
  exact List.pairwise_map.mp hpriorities

theorem id_ne_navigation (hd : d ∈ textual f g) : d.id ≠ "navigation" := by
  have hids : ∀ id ∈ (textual f g).map Detector.id, id ≠ "navigation" := by
    change ∀ id ∈ ["date_range", "phone", "rating", "combinations", "arithmetic", "units",
      "time_calc"], id ≠ "navigation"
    decide
  exact hids d.id (List.mem_map_of_mem hd)

/-- **No standard detector but navigation asks for an action.** -/
theorem effect?_eq_none (hd : d ∈ textual f g) (h : d.detect ctx t = .ok o) : o.effect? = none := by
  simp only [textual, List.mem_cons, List.not_mem_nil, or_false] at hd
  rcases hd with rfl | rfl | rfl | rfl | rfl | rfl | rfl
  · exact Formatter.effect?_eq_none h
  · cases h
    exact Phone.effect?_detect t
  · exact Rating.effect?_eq_none h
  · cases h
    exact Combination.effect?_detect t
  · exact Formatter.effect?_eq_none h
  · exact Unit.effect?_eq_none h
  · cases h
    cases Clock.answer? t <;> rfl

end Detector

namespace DetectorRegistry

open DispatchResult (reflects_empty)

variable {base : Context} {detectors : List Detector} {f g : Formatter}

/-- What the detectors without navigation return: no action, and no match by navigation. -/
theorem foldl_textual (base : Context) (t : Text) (h : ∀ d ∈ detectors, d ∈ Detector.textual f g) :
    (detectors.foldl (runNext base t) {}).WellFormed ∧
      (detectors.foldl (runNext base t) {}).effect = none ∧
      (detectors.foldl (runNext base t) {}).matchedId ≠ some "navigation" := by
  have hreflects : (detectors.foldl (runNext base t) {}).Reflects (callsFrom base t {} detectors) :=
    reflects_foldl detectors reflects_empty
  refine ⟨hreflects.toWellFormed, hreflects.effect_eq_none_iff.mpr fun c hc => ?_, fun hid => ?_⟩
  · obtain ⟨before, after, hsplit⟩ := List.append_of_mem hc
    have hcall := eq_call_of_callsFrom_eq hsplit
    have hd : c.detector ∈ detectors := by
      rw [← map_detector_callsFrom base t {} detectors]
      exact List.mem_map_of_mem hc
    rw [hcall, Call.effect?, Call.outcome, Detector.call]
    cases hanswer : c.detector.detect _ t with
    | ok o => exact Detector.effect?_eq_none (h _ hd) hanswer
    | error fault => rfl
  · rw [hreflects.matchedId_eq, Option.map_eq_some_iff] at hid
    obtain ⟨first, hfirst, hid⟩ := hid
    have hmem := (Call.sublist_ids (callsFrom base t {} detectors)).subset
      (hreflects.log_eq ▸ List.mem_map_of_mem (List.mem_of_head? hfirst))
    rw [map_detector_callsFrom, List.mem_map] at hmem
    obtain ⟨d, hd, hdid⟩ := hmem
    exact Detector.id_ne_navigation (h d hd) (hdid.trans hid)

/-- The dispatch asks for no action, and navigation is not its first match. -/
def Inactive (r : DispatchResult) : Prop := r.effect = none ∧ r.matchedId ≠ some "navigation"

/-- Navigation is the only match of the dispatch of a whole text, and asks for an action. -/
def Navigates (r : DispatchResult) (base : Context) (t : Text) : Prop :=
  base.scope = .whole ∧ base.config.navigationEnabled = true ∧
    ∃ effect, Navigation.effect? base.config (Text.trim t) = some effect ∧
      r = ⟨some t, some "navigation", [⟨"navigation", t⟩], some effect, true⟩

/-- Navigation behind the detectors that ask for no action. -/
theorem runNext_navigation {r : DispatchResult} (hwell : r.WellFormed) (hinactive : Inactive r) :
    Inactive (runNext base t r Navigation.detector) ∨
      Navigates (runNext base t r Navigation.detector) base t := by
  have hrun : runNext base t r Navigation.detector =
      r.addOutcome "navigation" (Navigation.detect { base with log := r.log } t) := rfl
  rw [hrun]
  rcases Navigation.detect_cases { base with log := r.log } t with
    hnone | ⟨effect, heffect, htarget, henabled, hscope, hlog⟩
  · rw [hnone]
    exact .inl hinactive
  · -- nothing has matched before, so the result is that of navigation alone
    have hlog : r.log = [] := hlog
    have hprimary : r.primary = none := by rw [hwell.primary_eq, hlog]; rfl
    refine .inr ⟨hscope, henabled, effect, htarget, ?_⟩
    rw [heffect]
    simp [DispatchResult.addOutcome, DispatchResult.addMatch, hprimary, hlog, Navigation.id]

/-- The detectors of a standard registry, whatever formatters the host has stored. -/
theorem exists_detectors_eq_filter {formatters : FormatterRegistry} {config : Config}
    {registry : DetectorRegistry} (h : standard formatters config = .ok registry) :
    ∃ f g, registry.detectors = (Detector.standard f g).filter fun d => !config.isDisabled d.id := by
  cases hf : formatters.get "date_range" with
  | error e =>
    rw [standard, hf] at h
    cases h
  | ok f =>
    cases hg : formatters.get "arithmetic" with
    | error e =>
      rw [standard, hf, hg] at h
      cases h
    | ok g =>
      have hsorted := (Detector.pairwise_standard_of f g).filter fun d => !config.isDisabled d.id
      have hholds := (Starts.standard hf hg h).holds
      exact ⟨f, g, by rw [hholds.detectors_eq, sortByPriority_eq_self hsorted]⟩

/-- **A dispatch of standard detectors asks for no action, or navigation is kept and is its only
match.** -/
theorem dispatch_standard_cases {formatters : FormatterRegistry} {config : Config}
    {registry : DetectorRegistry} (h : standard formatters config = .ok registry) (base : Context)
    (t : Text) :
    Inactive (registry.dispatch base t) ∨
      config.isDisabled "navigation" = false ∧ Navigates (registry.dispatch base t) base t := by
  obtain ⟨f, g, hdetectors⟩ := exists_detectors_eq_filter h
  have htextual : ∀ d ∈ (Detector.textual f g).filter fun d => !config.isDisabled d.id,
      d ∈ Detector.textual f g := fun d hd => (List.mem_filter.mp hd).1
  obtain ⟨hwell, hinactive⟩ := foldl_textual base t htextual
  rw [dispatch, hdetectors, Detector.standard_eq, List.filter_append, List.foldl_append]
  cases hkept : config.isDisabled "navigation" with
  | true =>
    rw [List.filter_cons_of_neg (by simp [Navigation.detector, Navigation.id, hkept])]
    exact .inl hinactive
  | false =>
    rw [List.filter_cons_of_pos (by simp [Navigation.detector, Navigation.id, hkept])]
    exact (runNext_navigation hwell hinactive).imp_right fun hnav => ⟨rfl, hnav⟩

end DetectorRegistry

/-! ## The pipeline -/

namespace Pipeline

open DetectorRegistry (Inactive Navigates)

variable {config : Config} {formatters : FormatterRegistry} {today : Date} {p : Pipeline}

/-- What a pipeline is built of. -/
theorem of_withFormatters (h : withFormatters config formatters today = .ok p) :
    p.config = config ∧ DetectorRegistry.standard formatters config = .ok p.detectors := by
  unfold withFormatters at h
  cases hvalid : config.validate with
  | error e =>
    rw [hvalid] at h
    cases h
  | ok =>
    rw [hvalid] at h
    cases hstandard : DetectorRegistry.standard formatters config with
    | error e =>
      rw [hstandard] at h
      cases h
    | ok registry =>
      rw [hstandard] at h
      cases h
      exact ⟨rfl, rfl⟩

theorem dispatch_cases (h : DetectorRegistry.standard formatters p.config = .ok p.detectors)
    (scope : Scope) (t : Text) :
    Inactive (p.dispatch scope t) ∨
      p.config.isDisabled "navigation" = false ∧
        Navigates (p.dispatch scope t) ⟨p.config, p.ratings, p.today, scope, []⟩ t :=
  DetectorRegistry.dispatch_standard_cases h _ t

/-- **A part of the input never asks for an action.** -/
theorem inactive_dispatch_seed (h : DetectorRegistry.standard formatters p.config = .ok p.detectors)
    (t : Text) : Inactive (p.dispatch .seed t) := by
  rcases dispatch_cases h .seed t with hinactive | ⟨-, hscope, -⟩
  · exact hinactive
  · cases hscope

/-- The output navigates: navigation is the only match, it is that of the whole text, and nothing is
changed. -/
structure NavigatesTo (p : Pipeline) (raw : Text) (effect : SideEffect) : Prop where
  isDisabled_eq : p.config.isDisabled "navigation" = false
  navigationEnabled_eq : p.config.navigationEnabled = true
  target_eq : Navigation.effect? p.config (Text.trim raw) = some effect
  seedMatch?_eq : p.seedMatch? (Text.trim raw) = none
  reports : Reports (p.process raw) (p.dispatch .whole (Text.trim raw))
  effect_eq : (p.process raw).effect = some effect
  matchedId_eq : (p.process raw).matchedId = some "navigation"
  log_eq : (p.process raw).log = [⟨"navigation", Text.trim raw⟩]
  text_eq : (p.process raw).text = raw
  changed_eq : (p.process raw).changed = false

/-- **A pipeline navigates or asks for no action.** -/
theorem navigatesTo_or_inactive
    (h : DetectorRegistry.standard formatters p.config = .ok p.detectors) (raw : Text) :
    (∃ effect, p.NavigatesTo raw effect) ∨
      (p.process raw).effect = none ∧ (p.process raw).matchedId ≠ some "navigation" := by
  by_cases hblank : Text.isBlank raw
  · rw [process_of_isBlank hblank]
    exact .inr ⟨rfl, nofun⟩
  · cases hseed : p.seedMatch? (Text.trim raw) with
    | some found =>
      obtain ⟨lead, primary, r⟩ := found
      rw [process_of_seedMatch?_eq_some hblank hseed]
      obtain ⟨-, -, rfl, -⟩ := of_seedMatch? hseed
      exact .inr (inactive_dispatch_seed h _)
    | none =>
      have hprocess := process_of_seedMatch?_eq_none hblank hseed
      rcases dispatch_cases h .whole (Text.trim raw) with
        hinactive | ⟨hkept, -, henabled, effect, htarget, hdispatch⟩
      · rw [hprocess]
        exact .inr hinactive
      · rw [hdispatch] at hprocess
        rw [Text.trim_trim] at htarget
        have hraw : Text.leadingWhite raw ++ Text.trim raw ++ Text.trailingWhite raw = raw := by
          rw [List.append_assoc, Text.leadingWhite_append_trim_append_trailingWhite hblank]
        simp only [Option.map_some, Option.getD_some, hraw] at hprocess
        refine .inl ⟨effect, hkept, henabled, htarget, hseed, ?_, ?_, ?_, ?_, ?_, ?_⟩
        · rw [hdispatch, hprocess]
          exact ⟨rfl, rfl⟩
        all_goals rw [hprocess]; simp [Output.ofDispatch]

/-- **Navigation is a fallback that never edits text.** For every pipeline of standard detectors,
with any formatters of the host and any rating table: the output has an action exactly if it matched
by navigation, then the match is that of the whole text and the only one, and the text is the input.
There is no action if navigation is off or left out, nor ever for a part of the input. -/
theorem effect_only_of_navigation (hp : withFormatters config formatters today = .ok p)
    (ratings : RatingTable) (raw : Text) :
    (((p.withRatings ratings).process raw).effect.isSome ↔
      ((p.withRatings ratings).process raw).matchedId = some "navigation") ∧
    (((p.withRatings ratings).process raw).effect.isSome →
      ∃ effect, (p.withRatings ratings).NavigatesTo raw effect) ∧
    (config.navigationEnabled = false ∨ config.isDisabled "navigation" →
      ((p.withRatings ratings).process raw).effect = none) ∧
    ∀ t, ((p.withRatings ratings).dispatch .seed t).effect = none := by
  obtain ⟨hconfig, hstandard⟩ := of_withFormatters hp
  have hbuilt : DetectorRegistry.standard formatters (p.withRatings ratings).config =
      .ok (p.withRatings ratings).detectors := hconfig ▸ hstandard
  have hconfig' : (p.withRatings ratings).config = config := hconfig
  have hseed := fun t => (inactive_dispatch_seed hbuilt t).1
  rcases navigatesTo_or_inactive hbuilt raw with ⟨effect, hnav⟩ | ⟨heffect, hid⟩
  · refine ⟨by simp [hnav.effect_eq, hnav.matchedId_eq], fun _ => ⟨effect, hnav⟩, ?_, hseed⟩
    have henabled := hnav.navigationEnabled_eq
    have hkept := hnav.isDisabled_eq
    rw [hconfig'] at henabled hkept
    simp [henabled, hkept]
  · exact ⟨by simp [heffect, hid], by simp [heffect], fun _ => heffect, hseed⟩

/-- The host has exchanged the formatter for arithmetic, so a sum is a target, with the white space
around it. -/
theorem effect_of_sum_to_search :
    let formatters : FormatterRegistry :=
      ⟨[⟨"arithmetic", fun _ _ => false, fun _ _ => none⟩, DateRange.formatter]⟩
    ∃ p, withFormatters {} formatters ⟨2026, 10, 19, by decide⟩ = .ok p ∧
      ((p.withRatings {}).process " 1+2\n".toList).matchedId = some "navigation" ∧
      ((p.withRatings {}).process " 1+2\n".toList).effect.isSome ∧
      ∃ effect, (p.withRatings {}).NavigatesTo " 1+2\n".toList effect := by
  intro formatters
  have hrun : (withFormatters {} formatters ⟨2026, 10, 19, by decide⟩).toOption.any fun p =>
      ((p.withRatings {}).process " 1+2\n".toList).matchedId == some "navigation" := by
    decide +kernel
  cases hp : withFormatters {} formatters ⟨2026, 10, 19, by decide⟩ with
  | error e =>
    rw [hp] at hrun
    cases hrun
  | ok p =>
    rw [hp] at hrun
    have hid := beq_iff_eq.mp hrun
    obtain ⟨hiff, hnav, -, -⟩ := effect_only_of_navigation hp {} " 1+2\n".toList
    exact ⟨p, rfl, hid, hiff.mpr hid, hnav (hiff.mpr hid)⟩

end Pipeline

end Snippet
