import Snippet.Detection.Registry

/-!
# Detectors in the order of their priorities

A list in the order of priorities that keeps the order of detectors of equal priority is determined
by what it is made from (`eq_of_filter_eq`). So to sort, to append a detector and to sort again
comes to one sort of all of them (`sortByPriority_concat`), and to put the detector into its place
comes to the same (`insertByPriority_sortByPriority`).
-/

namespace Snippet.DetectorRegistry

variable {d : Detector} {detectors sorted : List Detector}

/-- Whether a detector may stand in front of another one. -/
def precedes (d e : Detector) : Bool := decide (d.priority ≤ e.priority)

/-- The detectors in the order of their priorities; those of equal priority stay in the order in
which they are given. -/
def sortByPriority (detectors : List Detector) : List Detector := detectors.mergeSort precedes

/-- The first list has the detectors of the second one, no more and no fewer, in the order of their
priorities, and those of equal priority in the order of the second list. -/
structure IsStableSort (sorted detectors : List Detector) : Prop where
  perm : sorted.Perm detectors
  pairwise : sorted.Pairwise (·.priority ≤ ·.priority)
  filter_eq : ∀ k, sorted.filter (·.priority == k) = detectors.filter (·.priority == k)

/-! ## Sorting -/

theorem precedes_trans (a b c : Detector) (hab : precedes a b) (hbc : precedes b c) :
    precedes a c :=
  decide_eq_true (Int.le_trans (of_decide_eq_true hab) (of_decide_eq_true hbc))

theorem precedes_total (a b : Detector) : (precedes a b || precedes b a) = true := by
  simpa [precedes] using Int.le_total a.priority b.priority

/-- The detectors of one priority are in order, so sorting keeps them as they are. -/
theorem filter_sortByPriority (detectors : List Detector) (k : Int) :
    (sortByPriority detectors).filter (·.priority == k) = detectors.filter (·.priority == k) := by
  have hordered : (detectors.filter (·.priority == k)).Pairwise (precedes · ·) := by
    refine List.pairwise_of_forall_mem_list fun a ha b hb => decide_eq_true ?_
    have hak : a.priority = k := by simpa using (List.mem_filter.mp ha).2
    have hbk : b.priority = k := by simpa using (List.mem_filter.mp hb).2
    omega
  have hsub : (detectors.filter (·.priority == k)).Sublist (sortByPriority detectors) :=
    List.sublist_mergeSort precedes_trans precedes_total hordered List.filter_sublist
  have hfilter := hsub.filter (·.priority == k)
  simp only [List.filter_filter, Bool.and_self] at hfilter
  have hperm : (sortByPriority detectors).Perm detectors := List.mergeSort_perm ..
  exact (hfilter.eq_of_length (hperm.filter _).length_eq.symm).symm

/-- **Sorting by priority is stable.** -/
theorem isStableSort_sortByPriority (detectors : List Detector) :
    IsStableSort (sortByPriority detectors) detectors where
  perm := List.mergeSort_perm ..
  pairwise :=
    (List.pairwise_mergeSort precedes_trans precedes_total detectors).imp of_decide_eq_true
  filter_eq := filter_sortByPriority detectors

theorem sortByPriority_eq_self (h : detectors.Pairwise (·.priority ≤ ·.priority)) :
    sortByPriority detectors = detectors :=
  List.mergeSort_of_pairwise (h.imp decide_eq_true)

/-! ## Only one list is the sorted one -/

theorem mem_of_filter_eq {l l' : List Detector}
    (hfilter : ∀ k, l.filter (·.priority == k) = l'.filter (·.priority == k)) (hd : d ∈ l) :
    d ∈ l' := by
  have hmem : d ∈ l.filter (·.priority == d.priority) := List.mem_filter.mpr ⟨hd, by simp⟩
  rw [hfilter] at hmem
  exact (List.mem_filter.mp hmem).1

/-- **Two lists in the order of priorities are equal if they have the same detectors of each
priority, in the same order.** -/
theorem eq_of_filter_eq {l l' : List Detector} (h : l.Pairwise (·.priority ≤ ·.priority))
    (h' : l'.Pairwise (·.priority ≤ ·.priority))
    (hfilter : ∀ k, l.filter (·.priority == k) = l'.filter (·.priority == k)) : l = l' := by
  induction l generalizing l' with
  | nil =>
    cases l' with
    | nil => rfl
    | cons e l' => exact absurd (mem_of_filter_eq (fun k => (hfilter k).symm) (.head l')) (by simp)
  | cons d l ih =>
    cases l' with
    | nil => exact absurd (mem_of_filter_eq hfilter (.head l)) (by simp)
    | cons e l' =>
      rw [List.pairwise_cons] at h h'
      -- each head is a detector of the other list, which starts with its lowest priority
      have hde : d.priority ≤ e.priority := by
        have hmem : e ∈ d :: l := mem_of_filter_eq (fun k => (hfilter k).symm) (.head l')
        rcases List.mem_cons.mp hmem with he | he
        · exact Int.le_of_eq (congrArg Detector.priority he.symm)
        · exact h.1 e he
      have hed : e.priority ≤ d.priority := by
        rcases List.mem_cons.mp (mem_of_filter_eq hfilter (.head l)) with hd | hd
        · exact Int.le_of_eq (congrArg Detector.priority hd.symm)
        · exact h'.1 d hd
      have hpriority : e.priority = d.priority := Int.le_antisymm hed hde
      have hhead := hfilter d.priority
      rw [List.filter_cons_of_pos (by simp), List.filter_cons_of_pos (by simp [hpriority])] at hhead
      obtain ⟨rfl, htail⟩ := List.cons.inj hhead
      refine congrArg (d :: ·) (ih h.2 h'.2 fun k => ?_)
      by_cases hk : d.priority = k
      · rw [← hk, htail]
      · have htails := hfilter k
        rwa [List.filter_cons_of_neg (by simpa using hk),
          List.filter_cons_of_neg (by simpa using hk)] at htails

theorem IsStableSort.eq_sortByPriority (h : IsStableSort sorted detectors) :
    sorted = sortByPriority detectors :=
  eq_of_filter_eq h.pairwise (isStableSort_sortByPriority detectors).pairwise fun k =>
    (h.filter_eq k).trans (filter_sortByPriority detectors k).symm

/-- To sort, to append a detector and to sort again is to sort all of them once. -/
theorem sortByPriority_concat (detectors : List Detector) (d : Detector) :
    sortByPriority (sortByPriority detectors ++ [d]) = sortByPriority (detectors ++ [d]) := by
  refine IsStableSort.eq_sortByPriority ⟨?_, (isStableSort_sortByPriority _).pairwise, fun k => ?_⟩
  · exact (isStableSort_sortByPriority _).perm.trans
      ((isStableSort_sortByPriority detectors).perm.append_right [d])
  · rw [filter_sortByPriority, List.filter_append, filter_sortByPriority, List.filter_append]

/-- Of each priority there is at most one detector, so its place in the order does not matter. -/
theorem filter_eq_of_perm {detectors' : List Detector} (hperm : detectors.Perm detectors')
    (hpriorities : (detectors.map Detector.priority).Nodup) (k : Int) :
    detectors.filter (·.priority == k) = detectors'.filter (·.priority == k) := by
  have hfilter := hperm.filter (·.priority == k)
  cases hk : detectors.filter (·.priority == k) with
  | nil => rw [hk] at hfilter; exact hfilter.nil_eq
  | cons a rest =>
    cases rest with
    | nil => rw [hk] at hfilter; exact (List.perm_singleton.mp hfilter.symm).symm
    | cons b rest =>
      have hmem : ∀ e ∈ a :: b :: rest, e.priority = k := by
        intro e he
        rw [← hk] at he
        simpa using (List.mem_filter.mp he).2
      have hsub : (detectors.filter (·.priority == k)).Sublist detectors := List.filter_sublist
      have hnodup := hpriorities.sublist (hsub.map Detector.priority)
      rw [hk, List.map_cons, List.nodup_cons, hmem a (by simp)] at hnodup
      exact absurd (List.mem_map.mpr ⟨b, by simp, hmem b (by simp)⟩) hnodup.1

/-! ## Putting a detector into its place -/

theorem perm_insertByPriority (d : Detector) (detectors : List Detector) :
    (insertByPriority d detectors).Perm (d :: detectors) := by
  induction detectors with
  | nil => exact .refl _
  | cons e detectors ih =>
    unfold insertByPriority
    split
    · exact .refl _
    · exact (ih.cons e).trans (.swap d e detectors)

theorem pairwise_insertByPriority (h : sorted.Pairwise (·.priority ≤ ·.priority)) :
    (insertByPriority d sorted).Pairwise (·.priority ≤ ·.priority) := by
  induction sorted with
  | nil => exact List.pairwise_singleton _ d
  | cons e sorted ih =>
    have hall := List.pairwise_cons.mp h
    unfold insertByPriority
    split
    · rename_i hlt
      refine List.pairwise_cons.mpr ⟨fun a ha => ?_, h⟩
      rcases List.mem_cons.mp ha with rfl | ha
      · exact Int.le_of_lt hlt
      · exact Int.le_trans (Int.le_of_lt hlt) (hall.1 a ha)
    · rename_i hle
      refine List.pairwise_cons.mpr ⟨fun a ha => ?_, ih hall.2⟩
      rcases List.mem_cons.mp ((perm_insertByPriority d sorted).mem_iff.mp ha) with rfl | ha
      · exact Int.not_lt.mp hle
      · exact hall.1 a ha

/-- In a list in order, a detector comes behind all others of its priority. -/
theorem filter_insertByPriority (h : sorted.Pairwise (·.priority ≤ ·.priority)) (k : Int) :
    (insertByPriority d sorted).filter (·.priority == k) =
      (sorted ++ [d]).filter (·.priority == k) := by
  induction sorted with
  | nil => rfl
  | cons e sorted ih =>
    have hall := List.pairwise_cons.mp h
    unfold insertByPriority
    split
    · rename_i hlt
      by_cases hk : d.priority = k
      · -- all others have a higher priority number
        have hnone : (e :: sorted).filter (·.priority == k) = [] := by
          refine List.filter_eq_nil_iff.mpr fun a ha => ?_
          have hea : e.priority ≤ a.priority := by
            rcases List.mem_cons.mp ha with rfl | ha
            · exact Int.le_refl _
            · exact hall.1 a ha
          simp only [beq_iff_eq]
          omega
        rw [List.filter_append, hnone, List.filter_cons_of_pos (by simpa using hk), hnone,
          List.nil_append, List.filter_cons_of_pos (by simpa using hk), List.filter_nil]
      · rw [List.filter_append, List.filter_cons_of_neg (by simpa using hk),
          List.filter_cons_of_neg (p := (·.priority == k)) (a := d) (by simpa using hk),
          List.filter_nil, List.append_nil]
    · rw [List.cons_append, List.filter_cons, List.filter_cons, ih hall.2]

/-- **To put a detector into its place is to append it and to sort.** -/
theorem insertByPriority_sortByPriority (detectors : List Detector) (d : Detector) :
    insertByPriority d (sortByPriority detectors) = sortByPriority (detectors ++ [d]) := by
  have hsort := isStableSort_sortByPriority detectors
  refine IsStableSort.eq_sortByPriority
    ⟨?_, pairwise_insertByPriority hsort.pairwise, fun k => ?_⟩
  · exact (perm_insertByPriority d _).trans
      ((hsort.perm.cons d).trans (List.perm_append_singleton d detectors).symm)
  · rw [filter_insertByPriority hsort.pairwise, List.filter_append, hsort.filter_eq,
      List.filter_append]

end Snippet.DetectorRegistry
