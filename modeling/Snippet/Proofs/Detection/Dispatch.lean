import Snippet.Detection.Registry

/-!
# What a dispatch returns

The text and the id that a dispatch returns are those of the first match in its log, and without a
match there is no action (`WellFormed`). The first match is that of the first detector which matches
with an empty log (`head?_log_dispatch`): what a detector sees of those before it matters only
behind the first match.
-/

namespace Snippet

/-- The match that an outcome adds to the log. -/
def Outcome.record? (id : String) (o : Outcome) : Option MatchRecord :=
  o.display?.map (MatchRecord.mk id)

namespace DispatchResult

variable {r : DispatchResult}

/-- The parts of a result agree on its first match. -/
structure WellFormed (r : DispatchResult) : Prop where
  primary_eq : r.primary = r.log.head?.map MatchRecord.raw
  matchedId_eq : r.matchedId = r.log.head?.map MatchRecord.id
  effect_eq : r.log = [] → r.effect = none

theorem wellFormed_empty : WellFormed {} := ⟨rfl, rfl, fun _ => rfl⟩

theorem log_addOutcome (r : DispatchResult) (id : String) (o : Outcome) :
    (r.addOutcome id o).log = r.log ++ (o.record? id).toList := by
  cases o with
  | noMatch => exact (List.append_nil _).symm
  | text t => rfl
  | sideEffect t effect => rfl

theorem WellFormed.addMatch (h : r.WellFormed) (id : String) (display : Text)
    (effect : Option SideEffect) : (r.addMatch id display effect).WellFormed := by
  cases hlog : r.log with
  | nil =>
    have hprimary : r.primary = none := by rw [h.primary_eq, hlog]; rfl
    refine ⟨?_, ?_, ?_⟩
    · simp [DispatchResult.addMatch, hlog, hprimary]
    · simp [DispatchResult.addMatch, hlog, hprimary]
    · simp [DispatchResult.addMatch]
  | cons first rest =>
    have hprimary : r.primary = some first.raw := by rw [h.primary_eq, hlog]; rfl
    have hid : r.matchedId = some first.id := by rw [h.matchedId_eq, hlog]; rfl
    refine ⟨?_, ?_, ?_⟩
    · simp [DispatchResult.addMatch, hlog, hprimary]
    · simp [DispatchResult.addMatch, hlog, hprimary, hid]
    · simp [DispatchResult.addMatch]

theorem WellFormed.addOutcome (h : r.WellFormed) (id : String) (o : Outcome) :
    (r.addOutcome id o).WellFormed := by
  cases o with
  | noMatch => exact h
  | text t => exact h.addMatch id t none
  | sideEffect t effect => exact h.addMatch id t (some effect)

end DispatchResult

/-- The match of a detector that is the first to match. -/
def Detector.firstMatch? (base : Context) (t : Text) (d : Detector) : Option MatchRecord :=
  (d.outcome { base with log := [] } t).record? d.id

namespace DetectorRegistry

variable {base : Context} {t : Text} {r : DispatchResult}

theorem wellFormed_foldl (detectors : List Detector) (h : r.WellFormed) :
    (detectors.foldl (runNext base t) r).WellFormed := by
  induction detectors generalizing r with
  | nil => exact h
  | cons d detectors ih => exact ih (h.addOutcome d.id _)

/-- **The parts of what a dispatch returns agree on its first match.** -/
theorem wellFormed_dispatch (registry : DetectorRegistry) (base : Context) (t : Text) :
    (registry.dispatch base t).WellFormed :=
  wellFormed_foldl registry.detectors DispatchResult.wellFormed_empty

/-- A match that was found first stays the first. -/
theorem head?_log_foldl_of_ne_nil (detectors : List Detector) (h : r.log ≠ []) :
    (detectors.foldl (runNext base t) r).log.head? = r.log.head? := by
  induction detectors generalizing r with
  | nil => rfl
  | cons d detectors ih =>
    have hlog : (runNext base t r d).log = r.log ++ _ := r.log_addOutcome d.id _
    obtain ⟨first, rest, hr⟩ := List.exists_cons_of_ne_nil h
    rw [List.foldl_cons, ih (by simp [hlog, h]), hlog, hr]
    rfl

theorem head?_log_foldl (detectors : List Detector) (h : r.log = []) :
    (detectors.foldl (runNext base t) r).log.head? =
      detectors.findSome? (Detector.firstMatch? base t) := by
  induction detectors generalizing r with
  | nil => simp [h]
  | cons d detectors ih =>
    have hlog : (runNext base t r d).log = (d.firstMatch? base t).toList := by
      rw [runNext, r.log_addOutcome, h]
      rfl
    rw [List.foldl_cons, List.findSome?_cons]
    cases hd : d.firstMatch? base t with
    | none => exact ih (by rw [hlog, hd]; rfl)
    | some record =>
      rw [head?_log_foldl_of_ne_nil detectors (by simp [hlog, hd]), hlog, hd]
      rfl

/-- **The first match of a dispatch is that of the first detector that matches with an empty log.**
-/
theorem head?_log_dispatch (registry : DetectorRegistry) (base : Context) (t : Text) :
    (registry.dispatch base t).log.head? =
      registry.detectors.findSome? (Detector.firstMatch? base t) :=
  head?_log_foldl registry.detectors rfl

end DetectorRegistry

end Snippet
