import Snippet.Proofs.Pipeline.Navigation

/-!
# Standard registries are built

The ids of the standard detectors are different and not blank, so all of them are accepted, and the
order in which they are registered is that of their priorities. A standard registry is built exactly
if the formatters for date ranges and for arithmetic are stored, whether their detectors are left
out or not (`DetectorRegistry.standard_eq`).
-/

namespace Snippet.DetectorRegistry

variable {r : DetectorRegistry} {acc detectors : List Detector}

/-- Detectors whose ids are new and not blank are all accepted. -/
theorem Holds.foldlM_register (h : r.Holds acc) (hblank : ∀ d ∈ detectors, isBlankId d.id = false)
    (hids : ((acc ++ detectors).map Detector.id).Nodup) :
    detectors.foldlM register r = .ok ⟨sortByPriority (acc ++ detectors)⟩ := by
  induction detectors generalizing r acc with
  | nil =>
    rw [List.append_nil, ← h.detectors_eq]
    rfl
  | cons d detectors ih =>
    have hd : isBlankId d.id = false := hblank d (.head _)
    have hnew : d.id ∉ acc.map Detector.id := by
      rw [List.map_append, List.map_cons] at hids
      exact fun hmem => (List.nodup_append.mp hids).2.2 _ hmem _ (.head _) rfl
    rw [List.append_cons] at hids ⊢
    rw [List.foldlM_cons, h.register_eq, if_neg (by simp [hd]), if_neg hnew]
    exact ih (h.concat hd hnew) (fun e he => hblank e (.tail _ he)) hids

/-- **What a standard registry is built of.** It needs both formatters, and nothing else can fail;
it has the standard detectors that are not left out, in the order in which they are listed. -/
theorem standard_eq (formatters : FormatterRegistry) (config : Config) :
    standard formatters config = do
      let f ← formatters.get "date_range"
      let g ← formatters.get "arithmetic"
      return ⟨(Detector.standard f g).filter fun d => !config.isDisabled d.id⟩ := by
  unfold standard
  cases formatters.get "date_range" with
  | error e => rfl
  | ok f =>
    cases formatters.get "arithmetic" with
    | error e => rfl
    | ok g =>
      let kept := fun d : Detector => !config.isDisabled d.id
      have hsub : ((Detector.standard f g).filter kept).Sublist (Detector.standard f g) :=
        List.filter_sublist
      have hids : ((Detector.standard f g).map Detector.id).Nodup := by
        rw [Detector.ids_standard]
        decide
      have hblank : ∀ id ∈ (Detector.standard f g).map Detector.id, isBlankId id = false := by
        rw [Detector.ids_standard]
        decide
      have hrun := holds_empty.foldlM_register
        (fun d hd => hblank d.id (List.mem_map_of_mem (hsub.subset hd)))
        (hids.sublist (hsub.map Detector.id))
      rw [List.nil_append,
        sortByPriority_eq_self ((Detector.pairwise_standard_of f g).filter kept)] at hrun
      exact hrun

end Snippet.DetectorRegistry
