import Snippet.Pipeline
import Snippet.Proofs.Detection.Dispatch
import Snippet.Proofs.Detection.Registration

/-!
# The detectors of a standard pipeline

The standard detectors are registered in the order of their priorities, so they are kept in that
order (`detectors_of_standard`). A standard pipeline runs the standard detectors one after the
other, without those that its configuration leaves out (`Pipeline.isStandard_of_standard`), and the
first match is that of the first of them that matches (`Pipeline.IsStandard.head?_log_dispatch`).
-/

namespace Snippet

/-- The standard formatters are stored in the order of their names. -/
theorem FormatterRegistry.standard_eq :
    FormatterRegistry.standard = .ok ⟨[Arithmetic.formatter, DateRange.formatter]⟩ := rfl

/-- The standard detectors are listed in the order of their priorities. -/
theorem Detector.pairwise_standard :
    (standard DateRange.formatter Arithmetic.formatter).Pairwise (·.priority ≤ ·.priority) := by
  decide

theorem DetectorRegistry.detectors_of_standard {config : Config} {r : DetectorRegistry}
    (h : standard ⟨[Arithmetic.formatter, DateRange.formatter]⟩ config = .ok r) :
    r.detectors = (Detector.standard DateRange.formatter Arithmetic.formatter).filter
      fun d => !config.isDisabled d.id := by
  have hsorted := Detector.pairwise_standard.filter fun d => !config.isDisabled d.id
  have hstart := Starts.standard rfl rfl h
  rw [hstart.holds.detectors_eq, sortByPriority_eq_self hsorted]

namespace Pipeline

/-- The pipeline keeps its configuration and its date, and it runs the standard detectors that the
configuration does not leave out. -/
structure IsStandard (p : Pipeline) (config : Config) (today : Date) : Prop where
  config_eq : p.config = config
  today_eq : p.today = today
  detectors_eq : p.detectors.detectors =
    (Detector.standard DateRange.formatter Arithmetic.formatter).filter
      fun d => !config.isDisabled d.id

/-- What a run of a standard pipeline shows holds of a pipeline that is built. -/
theorem exists_of_any_standard {config : Config} {today : Date} {f : Pipeline → Bool}
    (h : (standard config today).toOption.any f) : ∃ p, standard config today = .ok p ∧ f p := by
  cases hp : standard config today with
  | error e =>
    rw [hp] at h
    cases h
  | ok p =>
    rw [hp] at h
    exact ⟨p, rfl, h⟩

theorem isStandard_of_standard {config : Config} {today : Date} {p : Pipeline}
    (h : standard config today = .ok p) : p.IsStandard config today := by
  rw [standard, FormatterRegistry.standard_eq] at h
  change withFormatters config _ today = .ok p at h
  unfold withFormatters at h
  cases hvalid : config.validate with
  | error e =>
    rw [hvalid] at h
    cases h
  | ok =>
    rw [hvalid] at h
    cases hstandard : DetectorRegistry.standard ⟨[Arithmetic.formatter, DateRange.formatter]⟩
        config with
    | error e =>
      rw [hstandard] at h
      cases h
    | ok r =>
      rw [hstandard] at h
      cases h
      exact ⟨rfl, rfl, DetectorRegistry.detectors_of_standard hstandard⟩

end Pipeline

/-- The first match of a detector that the configuration does not leave out. -/
def Detector.keptMatch? (base : Context) (t : Text) (d : Detector) : Option MatchRecord :=
  if base.config.isDisabled d.id then none else d.firstMatch? base t

section

variable {base : Context} {t : Text} {d : Detector} {record : MatchRecord}

theorem Detector.keptMatch?_eq_none_iff :
    d.keptMatch? base t = none ↔ base.config.isDisabled d.id ∨ d.firstMatch? base t = none := by
  unfold keptMatch?
  split <;> simp_all

theorem Detector.firstMatch?_of_keptMatch? (h : d.keptMatch? base t = some record) :
    base.config.isDisabled d.id = false ∧ d.firstMatch? base t = some record := by
  unfold keptMatch? at h
  split at h
  · cases h
  · rename_i hkept
    exact ⟨by simpa using hkept, h⟩

theorem Detector.id_of_firstMatch? (h : d.firstMatch? base t = some record) : record.id = d.id := by
  obtain ⟨-, -, rfl⟩ := Option.map_eq_some_iff.mp h
  rfl

end

/-- **The first match in a standard pipeline is that of the first standard detector that is not left
out and matches.** -/
theorem Pipeline.IsStandard.head?_log_dispatch {p : Pipeline} {config : Config} {today : Date}
    (hp : p.IsStandard config today) (scope : Scope) (t : Text) :
    (p.dispatch scope t).log.head? =
      (Detector.standard DateRange.formatter Arithmetic.formatter).findSome?
        (Detector.keptMatch? ⟨config, p.ratings, today, scope, []⟩ t) := by
  rw [dispatch, DetectorRegistry.head?_log_dispatch, hp.detectors_eq, hp.config_eq, hp.today_eq,
    ← List.head?_filterMap, List.filterMap_filter, List.head?_filterMap]
  congr 1
  funext d
  cases hkept : config.isDisabled d.id with
  | false => simp [Detector.keptMatch?, hkept]
  | true => simp [Detector.keptMatch?, hkept]

end Snippet
