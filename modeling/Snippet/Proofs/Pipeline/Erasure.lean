import Snippet.Proofs.Detection.Calls
import Snippet.Proofs.Detection.Standard

/-!
# Detectors that stay silent

A call that is declined or fails leaves the result of a dispatch as it was, so the detectors of such
calls can be left out (`dispatch_filter`). A detector that stays silent whatever it is given can be
added to a pipeline and changes nothing, wherever its priority puts it
(`dispatch_insertByPriority`). Together this is `Pipeline.silent_detectors_erase`.
-/

namespace Snippet

/-- The detector declines or fails. -/
def Call.IsSilent (c : Call) : Prop := c.answer = .ok .noMatch ∨ ∃ fault, c.answer = .error fault

theorem Call.IsSilent.outcome_eq {c : Call} (h : c.IsSilent) : c.outcome = .noMatch := by
  rcases h with h | ⟨fault, h⟩
  · rw [outcome, h]
    rfl
  · rw [outcome, h]
    rfl

namespace DetectorRegistry

variable {base : Context} {t : Text} {r : DispatchResult} {d : Detector}

/-! ## Leaving detectors out -/

theorem runNext_of_isSilent (h : (d.call { base with log := r.log } t).IsSilent) :
    runNext base t r d = r := by
  change r.addOutcome d.id (d.call { base with log := r.log } t).outcome = r
  rw [h.outcome_eq]
  rfl

theorem foldl_runNext_filter {removed : Detector → Bool} {detectors : List Detector}
    (h : ∀ c ∈ callsFrom base t r detectors, removed c.detector → c.IsSilent) :
    (detectors.filter fun d => !removed d).foldl (runNext base t) r =
      detectors.foldl (runNext base t) r := by
  induction detectors generalizing r with
  | nil => rfl
  | cons d detectors ih =>
    rw [callsFrom, List.forall_mem_cons] at h
    rw [List.foldl_cons]
    by_cases hd : removed d
    · -- the result, and so what the others are shown, is as if `d` had not been called
      rw [List.filter_cons_of_neg (by simpa using hd), ← ih h.2, runNext_of_isSilent (h.1 hd)]
    · rw [List.filter_cons_of_pos (by simpa using hd), List.foldl_cons, ih h.2]

/-- **Detectors that stay silent in a dispatch can be left out of it.** -/
theorem dispatch_filter {registry : DetectorRegistry} {removed : Detector → Bool}
    (h : ∀ c ∈ registry.calls base t, removed c.detector → c.IsSilent) :
    (mk (registry.detectors.filter fun d => !removed d)).dispatch base t =
      registry.dispatch base t :=
  foldl_runNext_filter h

/-! ## Adding a detector -/

/-- A detector is put between the detectors that are there. -/
theorem exists_insertByPriority (d : Detector) (detectors : List Detector) :
    ∃ before after, detectors = before ++ after ∧
      insertByPriority d detectors = before ++ d :: after := by
  induction detectors with
  | nil => exact ⟨[], [], rfl, rfl⟩
  | cons e detectors ih =>
    unfold insertByPriority
    split
    · exact ⟨[], e :: detectors, rfl, rfl⟩
    · obtain ⟨before, after, hsplit, hinsert⟩ := ih
      exact ⟨e :: before, after, by rw [hsplit, List.cons_append],
        by rw [hinsert, List.cons_append]⟩

/-- Wherever a silent detector is put, the dispatch returns the same. -/
theorem dispatch_insertByPriority (registry : DetectorRegistry) (base : Context) (t : Text)
    (h : ∀ ctx, (d.call ctx t).IsSilent) :
    (mk (insertByPriority d registry.detectors)).dispatch base t = registry.dispatch base t := by
  obtain ⟨before, after, hsplit, hinsert⟩ := exists_insertByPriority d registry.detectors
  rw [dispatch, dispatch, hinsert, hsplit, List.foldl_append, List.foldl_cons,
    runNext_of_isSilent (h _), List.foldl_append]

end DetectorRegistry

namespace Pipeline

variable {p p' : Pipeline} {d : Detector}

/-- What a pipeline makes of a text depends on its detectors only by what they return. -/
theorem process_congr (h : ∀ scope t, p'.dispatch scope t = p.dispatch scope t) (raw : Text) :
    p'.process raw = p.process raw := by
  simp only [process, seedMatch?, h]

theorem withDetector_eq_ok (hblank : isBlankId d.id = false) (hnew : d.id ∉ p.detectors.ids) :
    p.withDetector d =
      .ok { p with detectors := ⟨DetectorRegistry.insertByPriority d p.detectors.detectors⟩ } := by
  have hregister : p.detectors.register d =
      .ok ⟨DetectorRegistry.insertByPriority d p.detectors.detectors⟩ := by
    simp [DetectorRegistry.register, hblank, hnew]
    rfl
  rw [withDetector, hregister]
  rfl

/-- **Detectors that stay silent leave no trace.** Of a dispatch, any of those can be left out that
decline or fail in it. So a detector that does so whatever it is given can be added to every
pipeline, if its id is new, and then the pipeline makes the same of every text. -/
theorem silent_detectors_erase :
    (∀ (registry : DetectorRegistry) (base : Context) (t : Text) (removed : Detector → Bool),
      (∀ c ∈ registry.calls base t, removed c.detector → c.IsSilent) →
        (DetectorRegistry.mk (registry.detectors.filter fun d => !removed d)).dispatch base t =
          registry.dispatch base t) ∧
    ∀ (p : Pipeline) (d : Detector), isBlankId d.id = false → d.id ∉ p.detectors.ids →
      (∀ ctx t, (d.call ctx t).IsSilent) →
        ∃ p', p.withDetector d = .ok p' ∧ d ∈ p'.detectors.detectors ∧
          ∀ raw, p'.process raw = p.process raw := by
  refine ⟨fun registry base t removed h => DetectorRegistry.dispatch_filter h,
    fun p d hblank hnew hsilent => ⟨_, withDetector_eq_ok hblank hnew, ?_, ?_⟩⟩
  · obtain ⟨before, after, -, hinsert⟩ :=
      DetectorRegistry.exists_insertByPriority d p.detectors.detectors
    simp [hinsert]
  · exact process_congr fun scope t =>
      p.detectors.dispatch_insertByPriority _ t fun ctx => hsilent ctx t

/-- A detector that would match an empty log and one that breaks off are left out of a dispatch, and
the latter is added to a standard pipeline, where its priority is the lowest number. -/
theorem silent_detectors_erase_broken :
    let first : Detector := ⟨"first", 10, fun _ t => pure (.text t)⟩
    let shy : Detector :=
      ⟨"shy", 20, fun ctx _ => pure (if ctx.log.isEmpty then .text ['s'] else .noMatch)⟩
    let broken : Detector := ⟨"broken", 0, fun _ _ => throw .aborted⟩
    let base : Context := ⟨{}, .standard, ⟨2026, 10, 19, by decide⟩, .whole, []⟩
    (∀ c ∈ DetectorRegistry.calls ⟨[broken, first, shy]⟩ base ['a'],
      c.detector.id != "first" → c.IsSilent) ∧
    DetectorRegistry.dispatch ⟨[first]⟩ base ['a'] =
      DetectorRegistry.dispatch ⟨[broken, first, shy]⟩ base ['a'] ∧
    ∃ p p', standard {} ⟨2026, 10, 19, by decide⟩ = .ok p ∧ p.withDetector broken = .ok p' ∧
      broken ∈ p'.detectors.detectors ∧
      (p'.process "1+2".toList).text = "3".toList := by
  intro first shy broken base
  have hcalls : ∀ c ∈ DetectorRegistry.calls ⟨[broken, first, shy]⟩ base ['a'],
      c.detector.id != "first" → c.IsSilent := by
    intro c hc hid
    simp only [DetectorRegistry.calls, DetectorRegistry.callsFrom, List.mem_cons,
      List.not_mem_nil, or_false] at hc
    rcases hc with rfl | rfl | rfl
    · exact .inr ⟨.aborted, rfl⟩
    · exact absurd hid (by decide)
    · exact .inl rfl
  have hrun : (standard {} ⟨2026, 10, 19, by decide⟩).toOption.any fun p =>
      p.detectors.ids == standardIds && (p.process "1+2".toList).text == "3".toList := by
    decide +kernel
  obtain ⟨p, hp, hout⟩ := exists_of_any_standard hrun
  rw [Bool.and_eq_true, beq_iff_eq, beq_iff_eq] at hout
  obtain ⟨p', hp', hmem, hprocess⟩ := silent_detectors_erase.2 p broken (by decide)
    (by rw [hout.1]; decide) fun _ _ => .inr ⟨.aborted, rfl⟩
  exact ⟨hcalls, silent_detectors_erase.1 _ base ['a'] (fun d => d.id != "first") hcalls, p, p', hp,
    hp', hmem, by rw [hprocess, hout.2]⟩

end Pipeline

end Snippet
