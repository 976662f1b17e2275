import Snippet.Proofs.Detection.Construction
import Snippet.Proofs.Detection.Standard

/-!
# Leaving detectors out

No standard detector but navigation looks at the log, and none looks at the list of the detectors
that are left out (`Detector.isSecluded`). So the matches of the others do not depend on which of
them are left out, only whether they are there does, and navigation is there to fill an empty log
(`DetectorRegistry.log_dispatch`). Together this is `DetectorRegistry.disabled_removes_records`.
-/

namespace Snippet

/-- The context of a configuration that leaves out other detectors. -/
def Context.leavingOut (ctx : Context) (disabled : List String) : Context :=
  { ctx with config := { ctx.config with disabled } }

namespace Detector

variable {base : Context} {t : Text} {d : Detector} {detectors : List Detector}

/-- The detector answers the same whatever has matched before and whatever is left out. -/
def IsSecluded (d : Detector) : Prop :=
  ∀ ctx disabled log t, d.detect { ctx.leavingOut disabled with log } t = d.detect ctx t

/-- **No standard detector but navigation looks at the others.** -/
theorem isSecluded (hd : d ∈ textual DateRange.formatter Arithmetic.formatter) : d.IsSecluded := by
  simp only [textual, List.mem_cons, List.not_mem_nil, or_false] at hd
  rcases hd with rfl | rfl | rfl | rfl | rfl | rfl | rfl
  all_goals exact fun _ _ _ _ => rfl

theorem IsSecluded.outcome_eq (h : d.IsSecluded) (ctx : Context) (log : List MatchRecord)
    (t : Text) : d.outcome { ctx with log } t = d.outcome { ctx with log := [] } t := by
  have heq : ∀ log, d.detect { ctx with log } t = d.detect ctx t :=
    fun log => h ctx ctx.config.disabled log t
  rw [outcome, outcome, heq, heq []]

theorem IsSecluded.firstMatch?_leavingOut (h : d.IsSecluded) (base : Context)
    (disabled : List String) (t : Text) :
    d.firstMatch? (base.leavingOut disabled) t = d.firstMatch? base t := by
  have heq : d.detect { base.leavingOut disabled with log := [] } t =
      d.detect { base with log := [] } t := by
    rw [h base disabled [] t]
    exact (h base base.config.disabled [] t).symm
  rw [firstMatch?, firstMatch?, outcome, outcome, heq]

/-- The matches of detectors, each with an empty log. -/
def firstMatches (base : Context) (t : Text) (detectors : List Detector) : List MatchRecord :=
  detectors.filterMap (firstMatch? base t)

/-- The match of a detector carries its id, so leaving out detectors leaves out their matches. -/
theorem firstMatches_filter (base : Context) (t : Text) (kept : String → Bool)
    (detectors : List Detector) :
    firstMatches base t (detectors.filter fun d => kept d.id) =
      (firstMatches base t detectors).filter fun record => kept record.id := by
  induction detectors with
  | nil => rfl
  | cons d detectors ih =>
    simp only [firstMatches] at ih ⊢
    cases hd : d.firstMatch? base t with
    | none =>
      rw [List.filterMap_cons_none hd, ← ih]
      cases hkept : kept d.id <;> simp [hkept, hd]
    | some record =>
      have hid := id_of_firstMatch? hd
      rw [List.filterMap_cons_some hd]
      cases hkept : kept d.id <;> simp [hkept, hd, hid, ih]

end Detector

namespace DetectorRegistry

open Detector (firstMatches firstMatches_filter)

variable {base : Context} {t : Text} {r : DispatchResult} {detectors : List Detector}

/-- Detectors that do not look at the log match as with an empty one. -/
theorem log_foldl_of_isSecluded (h : ∀ d ∈ detectors, d.IsSecluded) :
    (detectors.foldl (runNext base t) r).log = r.log ++ firstMatches base t detectors := by
  induction detectors generalizing r with
  | nil => exact (List.append_nil _).symm
  | cons d detectors ih =>
    rw [List.forall_mem_cons] at h
    have hlog : (runNext base t r d).log = r.log ++ (d.firstMatch? base t).toList := by
      rw [runNext, r.log_addOutcome, h.1.outcome_eq base r.log t]
      rfl
    rw [List.foldl_cons, ih h.2, hlog, List.append_assoc]
    cases hd : d.firstMatch? base t <;> simp [firstMatches, hd]

/-- The matches of the standard detectors that are not left out, navigation aside. -/
def textualMatches (base : Context) (t : Text) (disabled : List String) : List MatchRecord :=
  (firstMatches base t (Detector.textual DateRange.formatter Arithmetic.formatter)).filter
    fun record => !disabled.contains record.id

theorem id_ne_of_mem_textualMatches {disabled : List String} {record : MatchRecord}
    (h : record ∈ textualMatches base t disabled) : record.id ≠ "navigation" := by
  obtain ⟨d, hd, hrecord⟩ := List.mem_filterMap.mp (List.mem_filter.mp h).1
  rw [Detector.id_of_firstMatch? hrecord]
  exact Detector.id_ne_navigation hd

/-- The standard detectors that are not left out. -/
def standardWithout (disabled : List String) : DetectorRegistry :=
  ⟨(Detector.standard DateRange.formatter Arithmetic.formatter).filter fun d =>
    !disabled.contains d.id⟩

/-- **The log of a dispatch of standard detectors:** the matches of those that are not left out,
and behind them that of navigation, which sees them. -/
theorem log_dispatch (base : Context) (t : Text) (disabled : List String) :
    ((standardWithout disabled).dispatch (base.leavingOut disabled) t).log =
      textualMatches base t disabled ++
        if disabled.contains "navigation" then []
        else
          ((Navigation.detect { base with log := textualMatches base t disabled } t).record?
            "navigation").toList := by
  let textual := Detector.textual DateRange.formatter Arithmetic.formatter
  have hsecluded : ∀ d ∈ textual.filter fun d => !disabled.contains d.id, d.IsSecluded :=
    fun d hd => Detector.isSecluded (List.mem_filter.mp hd).1
  have hlog : ((textual.filter fun d => !disabled.contains d.id).foldl
      (runNext (base.leavingOut disabled) t) {}).log = textualMatches base t disabled := by
    have hfilter := firstMatches_filter base t (fun id => !disabled.contains id) textual
    rw [log_foldl_of_isSecluded hsecluded, List.nil_append, textualMatches, ← hfilter]
    exact List.filterMap_congr fun d hd => (hsecluded d hd).firstMatch?_leavingOut base disabled t
  rw [dispatch, standardWithout, Detector.standard_eq, List.filter_append, List.foldl_append]
  cases hkept : disabled.contains "navigation" with
  | true =>
    rw [List.filter_cons_of_neg (by simpa [Navigation.detector, Navigation.id] using hkept)]
    simpa using hlog
  | false =>
    rw [List.filter_cons_of_pos (by simpa [Navigation.detector, Navigation.id] using hkept),
      List.filter_nil, List.foldl_cons, List.foldl_nil, runNext, DispatchResult.log_addOutcome,
      hlog]
    rfl

/-- The matches in a log that are not those of navigation. -/
def withoutNavigation (log : List MatchRecord) : List MatchRecord :=
  log.filter fun record => record.id != "navigation"

theorem withoutNavigation_log (base : Context) (t : Text) (disabled : List String) :
    withoutNavigation ((standardWithout disabled).dispatch (base.leavingOut disabled) t).log =
      textualMatches base t disabled := by
  have hself : withoutNavigation (textualMatches base t disabled) = textualMatches base t disabled :=
    List.filter_eq_self.mpr fun record hrecord =>
      bne_iff_ne.mpr (id_ne_of_mem_textualMatches hrecord)
  rw [log_dispatch, withoutNavigation, List.filter_append, ← withoutNavigation, hself]
  split
  · exact List.append_nil _
  · cases Navigation.detect _ t <;> simp [Outcome.record?, Outcome.display?]

/-- Navigation matches exactly if it is there and the log is empty where it runs. -/
theorem navigation_mem_log_iff (base : Context) (t : Text) (disabled : List String) :
    "navigation" ∈ ((standardWithout disabled).dispatch (base.leavingOut disabled) t).log.map
        MatchRecord.id ↔
      "navigation" ∉ disabled ∧ textualMatches base t disabled = [] ∧
        (Navigation.detect { base with log := [] } t).isMatch := by
  have hnot : "navigation" ∉ (textualMatches base t disabled).map MatchRecord.id := by
    intro hmem
    obtain ⟨record, hrecord, hid⟩ := List.mem_map.mp hmem
    exact id_ne_of_mem_textualMatches hrecord hid
  rw [log_dispatch, List.map_append, List.mem_append, or_iff_right hnot]
  by_cases hkept : "navigation" ∈ disabled
  · simp [hkept]
  · rw [if_neg (by simpa using hkept)]
    cases hmatched : textualMatches base t disabled with
    | nil =>
      cases Navigation.detect { base with log := [] } t <;>
        simp [Outcome.record?, Outcome.display?, Outcome.isMatch, hkept]
    | cons first rest =>
      -- with a match in the log, navigation declines
      rcases Navigation.detect_cases { base with log := first :: rest } t with
        hnone | ⟨-, -, -, -, -, hlog⟩
      · simp [hnone, Outcome.record?, Outcome.display?]
      · cases hlog

/-- **Leaving out detectors removes exactly their matches.** The standard registry has the standard
ids without those that are left out, in the same order. For every text and context, the matches that
are not those of navigation are the ones of all detectors without those of detectors that are left
out; navigation matches exactly if it is not left out, none of these matches is left, and it would
match with an empty log. -/
theorem disabled_removes_records (config : Config) (disabled : List String) :
    ∃ formatters all kept, FormatterRegistry.standard = .ok formatters ∧
      standard formatters { config with disabled := [] } = .ok all ∧
      standard formatters { config with disabled } = .ok kept ∧
      kept.ids = standardIds.filter (fun id => !disabled.contains id) ∧
      ∀ ratings today scope log t,
        let full := all.dispatch ⟨{ config with disabled := [] }, ratings, today, scope, log⟩ t
        let part := kept.dispatch ⟨{ config with disabled }, ratings, today, scope, log⟩ t
        withoutNavigation part.log =
          (withoutNavigation full.log).filter (fun record => !disabled.contains record.id) ∧
        ("navigation" ∈ part.log.map MatchRecord.id ↔
          "navigation" ∉ disabled ∧ withoutNavigation part.log = [] ∧
            (Navigation.detect ⟨{ config with disabled }, ratings, today, scope, []⟩ t).isMatch) := by
  refine ⟨_, standardWithout [], standardWithout disabled, FormatterRegistry.standard_eq,
    standard_eq _ _, standard_eq _ _, ?_, ?_⟩
  · rw [ids, ← Detector.ids_standard DateRange.formatter Arithmetic.formatter, List.filter_map]
    rfl
  · intro ratings today scope log t full part
    let base : Context := ⟨config, ratings, today, scope, log⟩
    have hfull : withoutNavigation full.log = textualMatches base t [] :=
      withoutNavigation_log base t []
    have hpart : withoutNavigation part.log = textualMatches base t disabled :=
      withoutNavigation_log base t disabled
    refine ⟨?_, ?_⟩
    · rw [hfull, hpart, textualMatches, textualMatches, List.filter_filter]
      simp
    · rw [hpart]
      exact navigation_mem_log_iff base t disabled

end DetectorRegistry

end Snippet
