import Snippet.Proofs.Detection.Dispatch
import Snippet.Proofs.Detection.Registration

/-!
# The calls of a dispatch

A dispatch whose detectors leave a record of their calls calls each of them once, in the order of
the registry, and returns what a dispatch returns (`run_dispatchWith_recorded`). Each is shown the
matches of the calls before it (`eq_call_of_callsFrom_eq`), and what the dispatch returns can be
read off the calls alone (`reflects_foldl`, with `DispatchResult.Reflects.addOutcome` for one call).
Together this is `dispatch_reflects_calls`.
-/

namespace Snippet

/-- The outcome that an answer counts as: a failure counts as no match. -/
def Outcome.ofAnswer : Except Fault Outcome → Outcome
  | .ok o => o
  | .error _ => .noMatch

/-- A call of a detector: what it is given and what it answers. -/
structure Call where
  detector : Detector
  context : Context
  text : Text
  answer : Except Fault Outcome

/-- The call of a detector with a context and a text. -/
def Detector.call (d : Detector) (ctx : Context) (t : Text) : Call := ⟨d, ctx, t, d.detect ctx t⟩

/-- Runs a detector and leaves a record of the call behind those that were made before. -/
def Detector.recorded (d : Detector) (ctx : Context) (t : Text) :
    StateM (List Call) (Except Fault Outcome) := do
  modify fun calls => calls ++ [d.call ctx t]
  return d.detect ctx t

namespace Call

/-- The outcome of a call. -/
def outcome (c : Call) : Outcome := .ofAnswer c.answer

/-- The match that a call adds to the log. -/
def record? (c : Call) : Option MatchRecord := c.outcome.record? c.detector.id

/-- The action that a call asks for. -/
def effect? (c : Call) : Option SideEffect := c.outcome.effect?

/-- The last of the calls that ask for an action. -/
def lastAction? (calls : List Call) : Option Call :=
  (calls.filter fun c => c.effect?.isSome).getLast?

theorem id_of_record? {c : Call} {record : MatchRecord} (h : c.record? = some record) :
    record.id = c.detector.id := by
  obtain ⟨-, -, rfl⟩ := Option.map_eq_some_iff.mp h
  rfl

/-- The ids of the matches are those of detectors that were called, in the order of the calls. -/
theorem sublist_ids (calls : List Call) :
    ((calls.filterMap record?).map MatchRecord.id).Sublist
      ((calls.map detector).map Detector.id) := by
  induction calls with
  | nil => exact .slnil
  | cons c calls ih =>
    rw [List.filterMap_cons]
    cases hrecord : c.record? with
    | none => exact ih.cons _
    | some record =>
      rw [List.map_cons, List.map_cons, List.map_cons, id_of_record? hrecord]
      exact ih.cons_cons _

theorem lastAction?_concat (calls : List Call) (c : Call) :
    lastAction? (calls ++ [c]) = if c.effect?.isSome then some c else lastAction? calls := by
  unfold lastAction?
  by_cases h : c.effect?.isSome
  · simp [h]
  · simp [h]

theorem lastAction?_eq_none_iff {calls : List Call} :
    lastAction? calls = none ↔ ∀ c ∈ calls, c.effect? = none := by
  simp [lastAction?]

theorem isSome_effect?_of_lastAction? {calls : List Call} {c : Call}
    (h : lastAction? calls = some c) : c.effect?.isSome :=
  (List.mem_filter.mp (List.mem_of_getLast? h)).2

end Call

namespace DispatchResult

variable {r : DispatchResult} {calls : List Call}

/-- What a dispatch returns, read off its calls: the log has their matches, the text and the id are
those of the first match, and the action is that of the last call that asks for one. -/
structure Reflects (r : DispatchResult) (calls : List Call) : Prop extends r.WellFormed where
  log_eq : r.log = calls.filterMap Call.record?
  effect_eq_bind : r.effect = (Call.lastAction? calls).bind Call.effect?
  byNavigation_eq : r.byNavigation = (Call.lastAction? calls).any (·.detector.id == "navigation")

theorem reflects_empty : Reflects {} [] := ⟨wellFormed_empty, rfl, rfl, rfl⟩

theorem effect_addOutcome (r : DispatchResult) (id : String) (o : Outcome) :
    (r.addOutcome id o).effect = if o.effect?.isSome then o.effect? else r.effect := by
  cases o with
  | noMatch => rfl
  | text t => rfl
  | sideEffect t effect => rfl

theorem byNavigation_addOutcome (r : DispatchResult) (id : String) (o : Outcome) :
    (r.addOutcome id o).byNavigation =
      if o.effect?.isSome then id == "navigation" else r.byNavigation := by
  cases o with
  | noMatch => rfl
  | text t => rfl
  | sideEffect t effect => rfl

/-- **One more call.** -/
theorem Reflects.addOutcome (h : r.Reflects calls) (c : Call) :
    (r.addOutcome c.detector.id c.outcome).Reflects (calls ++ [c]) where
  toWellFormed := h.toWellFormed.addOutcome _ _
  log_eq := by
    rw [log_addOutcome, h.log_eq, List.filterMap_append]
    change _ ++ c.record?.toList = _ ++ [c].filterMap Call.record?
    cases hc : c.record? <;> simp [hc]
  effect_eq_bind := by
    rw [effect_addOutcome, Call.lastAction?_concat, h.effect_eq_bind, ← Call.effect?]
    split <;> rfl
  byNavigation_eq := by
    rw [byNavigation_addOutcome, Call.lastAction?_concat, h.byNavigation_eq, ← Call.effect?]
    split <;> rfl

theorem Reflects.effect_eq_none_iff (h : r.Reflects calls) :
    r.effect = none ↔ ∀ c ∈ calls, c.effect? = none := by
  rw [h.effect_eq_bind, ← Call.lastAction?_eq_none_iff]
  cases hlast : Call.lastAction? calls with
  | none => simp
  | some c =>
    have hsome := Call.isSome_effect?_of_lastAction? hlast
    rw [Option.isSome_iff_ne_none] at hsome
    simp [hsome]

theorem Reflects.byNavigation_iff (h : r.Reflects calls) :
    r.byNavigation ↔ ∃ c, Call.lastAction? calls = some c ∧ c.detector.id = "navigation" := by
  rw [h.byNavigation_eq]
  cases Call.lastAction? calls with
  | none => simp
  | some c => simp

end DispatchResult

namespace DetectorRegistry

variable {base : Context} {t : Text} {r : DispatchResult}

/-- Runs a detector by `detect`, which may have effects, after those whose result is given. -/
def runNextWith {m : Type → Type} [Monad m]
    (detect : Detector → Context → Text → m (Except Fault Outcome)) (base : Context) (t : Text)
    (r : DispatchResult) (d : Detector) : m DispatchResult := do
  let answer ← detect d { base with log := r.log } t
  return r.addOutcome d.id (.ofAnswer answer)

/-- A dispatch that runs the detectors by `detect`. -/
def dispatchWith {m : Type → Type} [Monad m]
    (detect : Detector → Context → Text → m (Except Fault Outcome)) (registry : DetectorRegistry)
    (base : Context) (t : Text) : m DispatchResult :=
  registry.detectors.foldlM (runNextWith detect base t) {}

/-- The calls of a dispatch that has come as far as to a result and to the detectors left. -/
def callsFrom (base : Context) (t : Text) : DispatchResult → List Detector → List Call
  | _, [] => []
  | r, d :: detectors =>
    d.call { base with log := r.log } t :: callsFrom base t (runNext base t r d) detectors

/-- The calls of a dispatch, in order. -/
def calls (registry : DetectorRegistry) (base : Context) (t : Text) : List Call :=
  callsFrom base t {} registry.detectors

theorem run_foldlM_recorded (detectors : List Detector) (before : List Call) :
    (detectors.foldlM (runNextWith Detector.recorded base t) r).run before =
      (detectors.foldl (runNext base t) r, before ++ callsFrom base t r detectors) := by
  induction detectors generalizing r before with
  | nil =>
    rw [callsFrom, List.append_nil]
    rfl
  | cons d detectors ih =>
    have hrest := ih (r := runNext base t r d) (before ++ [d.call { base with log := r.log } t])
    rw [List.append_assoc] at hrest
    rw [List.foldlM_cons]
    exact hrest

/-- **A dispatch that records its calls makes those of `calls` and returns what a dispatch
returns.** -/
theorem run_dispatchWith_recorded (registry : DetectorRegistry) (base : Context) (t : Text) :
    (dispatchWith Detector.recorded registry base t).run [] =
      (registry.dispatch base t, registry.calls base t) :=
  run_foldlM_recorded registry.detectors []

theorem map_detector_callsFrom (base : Context) (t : Text) (r : DispatchResult)
    (detectors : List Detector) :
    (callsFrom base t r detectors).map Call.detector = detectors := by
  induction detectors generalizing r with
  | nil => rfl
  | cons d detectors ih => rw [callsFrom, List.map_cons, ih, Detector.call]

theorem log_runNext (r : DispatchResult) (d : Detector) :
    (runNext base t r d).log =
      r.log ++ (d.call { base with log := r.log } t).record?.toList :=
  r.log_addOutcome d.id _

/-- **A detector is shown the matches of the calls before it.** -/
theorem eq_call_of_callsFrom_eq {detectors : List Detector} {before after : List Call} {c : Call}
    (h : callsFrom base t r detectors = before ++ c :: after) :
    c = c.detector.call { base with log := r.log ++ before.filterMap Call.record? } t := by
  induction before generalizing r detectors with
  | nil =>
    cases detectors with
    | nil => cases h
    | cons d detectors =>
      rw [callsFrom] at h
      obtain ⟨rfl, -⟩ := List.cons.inj h
      rw [List.filterMap_nil, List.append_nil]
      rfl
  | cons first before ih =>
    cases detectors with
    | nil => cases h
    | cons d detectors =>
      rw [callsFrom] at h
      obtain ⟨rfl, hrest⟩ := List.cons.inj h
      have hc := ih hrest
      rw [log_runNext, List.append_assoc] at hc
      rw [List.filterMap_cons]
      cases hrecord : (d.call { base with log := r.log } t).record? with
      | none => simpa [hrecord] using hc
      | some record => simpa [hrecord] using hc

/-- The result of a dispatch reflects its calls. -/
theorem reflects_foldl {before : List Call} (detectors : List Detector) (h : r.Reflects before) :
    (detectors.foldl (runNext base t) r).Reflects (before ++ callsFrom base t r detectors) := by
  induction detectors generalizing r before with
  | nil => simpa [callsFrom] using h
  | cons d detectors ih =>
    rw [List.foldl_cons, callsFrom, List.append_cons]
    exact ih (h.addOutcome (d.call { base with log := r.log } t))

/-- **What a dispatch returns is what its calls make of it.** For every registry that detectors were
registered in: each detector is called once, in the order of the registry, on the text and with the
matches of the calls before it, whatever log the context had; and what is returned reflects the
calls. -/
theorem dispatch_reflects_calls {detectors : List Detector} {registry : DetectorRegistry}
    (hregistry : detectors.foldlM register {} = .ok registry) (base : Context) (t : Text) :
    (dispatchWith Detector.recorded registry base t).run [] =
      (registry.dispatch base t, registry.calls base t) ∧
    (registry.calls base t).map Call.detector = registry.detectors ∧
    (∀ before c after, registry.calls base t = before ++ c :: after →
      c = c.detector.call { base with log := before.filterMap Call.record? } t) ∧
    (registry.dispatch base t).Reflects (registry.calls base t) ∧
    ((registry.dispatch base t).log.map MatchRecord.id).Sublist registry.ids ∧
    ((registry.dispatch base t).log.map MatchRecord.id).Nodup ∧
    ((registry.dispatch base t).primary = none ↔ (registry.dispatch base t).log = []) ∧
    ((registry.dispatch base t).matchedId = none ↔ (registry.dispatch base t).log = []) ∧
    ((registry.dispatch base t).effect = none ↔
      ∀ c ∈ registry.calls base t, c.effect? = none) ∧
    ((registry.dispatch base t).byNavigation ↔
      ∃ c, Call.lastAction? (registry.calls base t) = some c ∧ c.detector.id = "navigation") := by
  have hreflects : (registry.dispatch base t).Reflects (registry.calls base t) :=
    reflects_foldl registry.detectors DispatchResult.reflects_empty
  have hcalled : (registry.calls base t).map Call.detector = registry.detectors :=
    map_detector_callsFrom base t {} registry.detectors
  have hholds := holds_empty.of_foldlM_register hregistry
  have hsub := Call.sublist_ids (registry.calls base t)
  rw [hcalled, ← hreflects.log_eq] at hsub
  refine ⟨run_dispatchWith_recorded registry base t, hcalled,
    fun before c after h => by simpa using eq_call_of_callsFrom_eq h, hreflects, hsub,
    hholds.perm_ids.nodup_iff.mpr hholds.nodup_ids |>.sublist hsub, ?_, ?_, ?_, ?_⟩
  · rw [hreflects.primary_eq]
    simp
  · rw [hreflects.matchedId_eq]
    simp
  · exact hreflects.effect_eq_none_iff
  · exact hreflects.byNavigation_iff

/-- Of two actions the second one is kept, a detector that breaks off in between is passed over, and
the log that the context had is not shown. -/
theorem dispatch_of_two_actions :
    let detectors : List Detector := [
      ⟨"count", 30, fun ctx _ => pure (.text (Nat.toDigits 10 ctx.log.length))⟩,
      ⟨"files", 25, fun _ t => pure (.sideEffect ['f'] ⟨.openPath, t, []⟩)⟩,
      ⟨"broken", 20, fun _ _ => throw .aborted⟩,
      ⟨"navigation", 10, fun _ t => pure (.sideEffect ['n'] ⟨.openUrl, t, []⟩)⟩]
    let base : Context := ⟨{}, .standard, ⟨2026, 10, 19, by decide⟩, .whole, [⟨"old", ['o']⟩]⟩
    ∃ registry, detectors.foldlM register {} = .ok registry ∧
      registry.dispatch base ['a'] = ⟨some ['n'], some "navigation",
        [⟨"navigation", ['n']⟩, ⟨"files", ['f']⟩, ⟨"count", ['2']⟩],
        some ⟨.openPath, ['a'], []⟩, false⟩ ∧
      (registry.calls base ['a']).map Call.detector = registry.detectors ∧
      (registry.dispatch base ['a']).Reflects (registry.calls base ['a']) ∧
      ¬ ∃ c, Call.lastAction? (registry.calls base ['a']) = some c ∧
        c.detector.id = "navigation" := by
  intro detectors base
  have hregistry : detectors.foldlM register {} = .ok ⟨detectors.reverse⟩ := by rfl
  obtain ⟨-, hcalled, -, hreflects, -, -, -, -, -, hnavigation⟩ :=
    dispatch_reflects_calls hregistry base ['a']
  have hdispatch : dispatch ⟨detectors.reverse⟩ base ['a'] = ⟨some ['n'], some "navigation",
      [⟨"navigation", ['n']⟩, ⟨"files", ['f']⟩, ⟨"count", ['2']⟩],
      some ⟨.openPath, ['a'], []⟩, false⟩ := by
    decide
  refine ⟨_, hregistry, hdispatch, hcalled, hreflects, hnavigation.not.mp ?_⟩
  rw [hdispatch]
  decide

end DetectorRegistry

end Snippet
