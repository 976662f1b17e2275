import Mathlib.Data.List.Nodup
import Mathlib.Data.List.Perm.Basic
import Snippet.Detection.Standard
import Snippet.Proofs.Detection.PriorityOrder

/-!
# What a sequence of registrations leaves behind

A registry that is held as a state is added to by appending a detector and sorting again, unless
its id is refused (`add`); that is what `register` computes (`Holds.run_add_eq_register`). After any
sequence of attempts the registry is the stable sort of the detectors that were accepted
(`Holds.run_addEach`). The next attempt is refused exactly if its id is blank or was accepted
before, a refusal changes nothing, and the order of the attempts matters only for detectors that
share an id or a priority (`attempts_sort_accepted`).
-/

namespace Snippet

/-- A detector that matches nothing. -/
def Detector.silent (id : String) (priority : Int) : Detector where
  id := id
  priority := priority
  detect _ _ := pure .noMatch

namespace DetectorRegistry

variable {r r' : DetectorRegistry} {d : Detector} {acc detectors : List Detector}

/-! ## Registration in place -/

/-- Adds a detector to the registry that is the state. -/
def add (d : Detector) : EStateM RegistryError DetectorRegistry Unit := do
  if isBlankId d.id then throw .emptyId
  if (← get).ids.contains d.id then throw (.duplicateId d.id)
  modify fun r => ⟨r.detectors ++ [d]⟩
  modify fun r => ⟨sortByPriority r.detectors⟩

/-- Tries to add a detector and goes on from whatever state that leaves behind. -/
def tryAdd (d : Detector) : StateM DetectorRegistry (Except RegistryError Unit) := fun r =>
  match (add d).run r with
  | .ok () r => (.ok (), r)
  | .error e r => (.error e, r)

/-- Tries to add detectors one after the other, and lists the answers. -/
def addEach (detectors : List Detector) :
    StateM DetectorRegistry (List (Except RegistryError Unit)) :=
  detectors.mapM tryAdd

/-- The detectors for which the answer is no error, in the order in which they were accepted. -/
def accepted : List Detector → List (Except RegistryError Unit) → List Detector
  | d :: detectors, .ok () :: answers => d :: accepted detectors answers
  | _ :: detectors, .error _ :: answers => accepted detectors answers
  | _, _ => []

/-- The registry is the stable sort of the detectors that it accepted. -/
structure Holds (r : DetectorRegistry) (acc : List Detector) : Prop where
  detectors_eq : r.detectors = sortByPriority acc
  nodup_ids : (acc.map Detector.id).Nodup
  isBlankId_eq : ∀ d ∈ acc, isBlankId d.id = false

theorem holds_empty : Holds {} [] where
  detectors_eq := List.mergeSort_nil.symm
  nodup_ids := List.nodup_nil
  isBlankId_eq := by simp

theorem Holds.isStableSort (h : r.Holds acc) : IsStableSort r.detectors acc :=
  h.detectors_eq ▸ isStableSort_sortByPriority acc

theorem Holds.perm_ids (h : r.Holds acc) : r.ids.Perm (acc.map Detector.id) :=
  h.isStableSort.perm.map Detector.id

/-! ## One attempt -/

/-- What a registration in place does: it fails with the registry as it was, or puts the detector
among those that were accepted. -/
theorem Holds.run_add (h : r.Holds acc) (d : Detector) :
    (add d).run r =
      if isBlankId d.id then .error .emptyId r
      else if d.id ∈ acc.map Detector.id then .error (.duplicateId d.id) r
      else .ok () ⟨sortByPriority (acc ++ [d])⟩ := by
  unfold add
  by_cases hblank : isBlankId d.id
  · simp [hblank]
  · by_cases hmem : d.id ∈ acc.map Detector.id
    · simp [hblank, hmem, h.perm_ids.mem_iff]
    · simp [hblank, hmem, h.perm_ids.mem_iff, h.detectors_eq, sortByPriority_concat]

/-- What a registration returns. -/
theorem Holds.register_eq (h : r.Holds acc) (d : Detector) :
    r.register d =
      if isBlankId d.id then .error .emptyId
      else if d.id ∈ acc.map Detector.id then .error (.duplicateId d.id)
      else .ok ⟨sortByPriority (acc ++ [d])⟩ := by
  unfold register
  by_cases hblank : isBlankId d.id
  · rw [if_pos hblank, if_pos hblank]
    rfl
  · rw [if_neg hblank, if_neg hblank, List.contains_eq_mem]
    by_cases hmem : d.id ∈ acc.map Detector.id
    · rw [if_pos (decide_eq_true (h.perm_ids.mem_iff.mpr hmem)), if_pos hmem]
      rfl
    · rw [if_neg (by rwa [decide_eq_true_eq, h.perm_ids.mem_iff]), if_neg hmem, h.detectors_eq,
        insertByPriority_sortByPriority]
      rfl

/-- The registration in place and the one that returns a new registry agree. -/
theorem Holds.run_add_eq_register (h : r.Holds acc) (d : Detector) :
    (add d).run r =
      match r.register d with
      | .ok r' => .ok () r'
      | .error e => .error e r := by
  rw [h.run_add, h.register_eq]
  split
  · rfl
  · split <;> rfl

theorem Holds.run_tryAdd (h : r.Holds acc) (d : Detector) :
    (tryAdd d).run r =
      if isBlankId d.id then (.error .emptyId, r)
      else if d.id ∈ acc.map Detector.id then (.error (.duplicateId d.id), r)
      else (.ok (), ⟨sortByPriority (acc ++ [d])⟩) := by
  change (match (add d).run r with
    | .ok () r => (Except.ok (), r)
    | .error e r => (.error e, r)) = _
  rw [h.run_add]
  by_cases hblank : isBlankId d.id
  · rw [if_pos hblank, if_pos hblank]
  · rw [if_neg hblank, if_neg hblank]
    by_cases hmem : d.id ∈ acc.map Detector.id
    · rw [if_pos hmem, if_pos hmem]
    · rw [if_neg hmem, if_neg hmem]

/-- A detector that is accepted is held behind the others. -/
theorem Holds.concat (h : r.Holds acc) (hblank : isBlankId d.id = false)
    (hnew : d.id ∉ acc.map Detector.id) : Holds ⟨sortByPriority (acc ++ [d])⟩ (acc ++ [d]) where
  detectors_eq := rfl
  nodup_ids := by
    rw [List.map_append, List.map_singleton, ← List.concat_eq_append]
    exact h.nodup_ids.concat hnew
  isBlankId_eq := by
    intro e he
    rcases List.mem_append.mp he with he | he
    · exact h.isBlankId_eq e he
    · rw [List.mem_singleton.mp he, hblank]

/-! ## A sequence of attempts -/

theorem run_addEach_nil (r : DetectorRegistry) : (addEach []).run r = ([], r) := rfl

theorem run_addEach_cons (r : DetectorRegistry) (d : Detector) (detectors : List Detector) :
    (addEach (d :: detectors)).run r =
      (((tryAdd d).run r).1 :: ((addEach detectors).run ((tryAdd d).run r).2).1,
        ((addEach detectors).run ((tryAdd d).run r).2).2) := by
  rw [addEach, List.mapM_cons]
  rfl

theorem length_run_addEach (r : DetectorRegistry) (detectors : List Detector) :
    ((addEach detectors).run r).1.length = detectors.length := by
  induction detectors generalizing r with
  | nil => rfl
  | cons d detectors ih => rw [run_addEach_cons, List.length_cons, List.length_cons, ih]

theorem run_addEach_concat (r : DetectorRegistry) (detectors : List Detector) (d : Detector) :
    (addEach (detectors ++ [d])).run r =
      (((addEach detectors).run r).1 ++ [((tryAdd d).run ((addEach detectors).run r).2).1],
        ((tryAdd d).run ((addEach detectors).run r).2).2) := by
  induction detectors generalizing r with
  | nil => rfl
  | cons e detectors ih =>
    rw [List.cons_append, run_addEach_cons, run_addEach_cons, ih]
    rfl

/-- **After any sequence of attempts a registry holds the detectors that were accepted.** -/
theorem Holds.run_addEach (h : r.Holds acc) (detectors : List Detector) :
    ((addEach detectors).run r).2.Holds
      (acc ++ accepted detectors ((addEach detectors).run r).1) := by
  induction detectors generalizing r acc with
  | nil => simpa [run_addEach_nil, accepted] using h
  | cons d detectors ih =>
    rw [run_addEach_cons, h.run_tryAdd]
    split
    · exact ih h
    · split
      · exact ih h
      · rename_i hblank hnew
        have hconcat := ih (h.concat (by simpa using hblank) hnew)
        rwa [List.append_assoc] at hconcat

/-- Whether a detector is accepted in addition to others. -/
def isNew (acc : List Detector) (d : Detector) : Bool :=
  !isBlankId d.id && !(acc.map Detector.id).contains d.id

theorem isNew_eq_true_iff :
    isNew acc d = true ↔ isBlankId d.id = false ∧ d.id ∉ acc.map Detector.id := by
  simp [isNew]

/-- Of detectors with different ids, those are accepted that are new from the start. -/
theorem Holds.accepted_eq_filter (h : r.Holds acc) (hids : (detectors.map Detector.id).Nodup) :
    accepted detectors ((addEach detectors).run r).1 = detectors.filter (isNew acc) := by
  induction detectors generalizing r acc with
  | nil => rfl
  | cons d detectors ih =>
    rw [List.map_cons, List.nodup_cons] at hids
    rw [run_addEach_cons, h.run_tryAdd]
    by_cases hblank : isBlankId d.id
    · rw [if_pos hblank, List.filter_cons_of_neg (by simp [isNew, hblank])]
      exact ih h hids.2
    · rw [if_neg hblank]
      by_cases hmem : d.id ∈ acc.map Detector.id
      · rw [if_pos hmem, List.filter_cons_of_neg (by simp [isNew, hmem])]
        exact ih h hids.2
      · have hnew : isNew acc d = true :=
          isNew_eq_true_iff.mpr ⟨by simpa using hblank, hmem⟩
        rw [if_neg hmem, List.filter_cons_of_pos hnew, accepted,
          ih (h.concat (by simpa using hblank) hmem) hids.2]
        -- no detector behind `d` has the id of `d`
        refine congrArg (d :: ·) (List.filter_congr fun e he => ?_)
        have hne : e.id ≠ d.id := fun heq => hids.1 (heq ▸ List.mem_map_of_mem he)
        simp [isNew, hne]

/-- **The order in which detectors are registered does not matter**, if their ids are different and
their priorities are. -/
theorem Holds.run_addEach_perm (h : r.Holds acc) {detectors' : List Detector}
    (hperm : detectors.Perm detectors') (hids : (detectors.map Detector.id).Nodup)
    (hpriorities : (detectors.map Detector.priority).Nodup) :
    ((addEach detectors').run r).2 = ((addEach detectors).run r).2 := by
  have hsort := (h.run_addEach detectors).isStableSort
  have hsort' := (h.run_addEach detectors').isStableSort
  rw [h.accepted_eq_filter hids] at hsort
  rw [h.accepted_eq_filter ((hperm.map Detector.id).nodup_iff.mp hids)] at hsort'
  refine congrArg DetectorRegistry.mk (eq_of_filter_eq hsort'.pairwise hsort.pairwise fun k => ?_)
  have hnew : ((detectors.filter (isNew acc)).map Detector.priority).Nodup :=
    hpriorities.sublist (List.filter_sublist.map Detector.priority)
  rw [hsort'.filter_eq, hsort.filter_eq, List.filter_append, List.filter_append,
    filter_eq_of_perm (hperm.filter (isNew acc)) hnew k]

/-! ## Sequences from the empty or the standard registry -/

/-- Detectors that are all accepted are held behind the others. -/
theorem Holds.of_foldlM_register (h : r.Holds acc) (hrun : detectors.foldlM register r = .ok r') :
    r'.Holds (acc ++ detectors) := by
  induction detectors generalizing r acc with
  | nil =>
    cases hrun
    simpa using h
  | cons d detectors ih =>
    rw [List.foldlM_cons, h.register_eq] at hrun
    by_cases hblank : isBlankId d.id
    · rw [if_pos hblank] at hrun
      cases hrun
    · rw [if_neg hblank] at hrun
      by_cases hmem : d.id ∈ acc.map Detector.id
      · rw [if_pos hmem] at hrun
        cases hrun
      · rw [if_neg hmem] at hrun
        have hconcat := ih (h.concat (by simpa using hblank) hmem) hrun
        rwa [List.append_assoc] at hconcat

/-- The registries that a sequence of attempts starts from, with the detectors that they accepted,
in the order in which they did. -/
inductive Starts : DetectorRegistry → List Detector → Prop
  | empty : Starts {} []
  | standard {formatters : FormatterRegistry} {config : Config} {dateRange arithmetic : Formatter}
      {r : DetectorRegistry} (hdateRange : formatters.get "date_range" = .ok dateRange)
      (harithmetic : formatters.get "arithmetic" = .ok arithmetic)
      (hstandard : DetectorRegistry.standard formatters config = .ok r) :
      Starts r ((Detector.standard dateRange arithmetic).filter fun d => !config.isDisabled d.id)

theorem Starts.holds {start : DetectorRegistry} {initial : List Detector}
    (h : Starts start initial) : start.Holds initial := by
  cases h with
  | empty => exact holds_empty
  | standard hdateRange harithmetic hstandard =>
    unfold DetectorRegistry.standard at hstandard
    rw [hdateRange, harithmetic] at hstandard
    exact holds_empty.of_foldlM_register hstandard

/-- **What a sequence of attempts to register leaves behind.** It starts from the empty or a
standard registry, and the next attempt makes a longer sequence of it, so this holds after each
step. -/
theorem attempts_sort_accepted {start : DetectorRegistry} {initial : List Detector}
    (hstart : Starts start initial) (detectors : List Detector) :
    ∃ answers r, (addEach detectors).run start = (answers, r) ∧
      answers.length = detectors.length ∧
      -- the registry is the stable sort of what was accepted, which has no blank or double id
      r.detectors = sortByPriority (initial ++ accepted detectors answers) ∧
      IsStableSort r.detectors (initial ++ accepted detectors answers) ∧
      (∀ d ∈ r.detectors, isBlankId d.id = false) ∧ r.ids.Nodup ∧
      -- the next attempt
      (∀ d, (addEach (detectors ++ [d])).run start =
        (answers ++ [((tryAdd d).run r).1], ((tryAdd d).run r).2)) ∧
      (∀ d, (tryAdd d).run r =
        if isBlankId d.id then (.error .emptyId, r)
        else if d.id ∈ (initial ++ accepted detectors answers).map Detector.id then
          (.error (.duplicateId d.id), r)
        else (.ok (), ⟨sortByPriority (initial ++ accepted detectors answers ++ [d])⟩)) ∧
      (∀ d, (add d).run r =
        match r.register d with
        | .ok r' => .ok () r'
        | .error e => .error e r) ∧
      -- another order of the same attempts
      ∀ detectors' : List Detector, detectors.Perm detectors' →
        (detectors.map Detector.id).Nodup → (detectors.map Detector.priority).Nodup →
          ((addEach detectors').run start).2 = r := by
  have hholds := hstart.holds.run_addEach detectors
  refine ⟨_, _, rfl, length_run_addEach start detectors, hholds.detectors_eq, hholds.isStableSort,
    fun d hd => hholds.isBlankId_eq d (hholds.isStableSort.perm.mem_iff.mp hd),
    hholds.perm_ids.nodup_iff.mpr hholds.nodup_ids, run_addEach_concat start detectors,
    hholds.run_tryAdd, hholds.run_add_eq_register,
    fun detectors' hperm hids hpriorities => ?_⟩
  exact hstart.holds.run_addEach_perm hperm hids hpriorities

/-- Beside the standard detectors, two are accepted, each behind those of its priority; an id of
white space and an id that is there are refused. -/
theorem attempts_beside_standard :
    let attempts := [.silent "a" 50, .silent " " 5, .silent "phone" 1, .silent "b" 20]
    let standard := Detector.standard DateRange.formatter Arithmetic.formatter
    ∃ initial answers r, Starts ⟨standard⟩ initial ∧
      (addEach attempts).run ⟨standard⟩ = (answers, r) ∧
      accepted attempts answers = [.silent "a" 50, .silent "b" 20] ∧
      r.ids = ["date_range", "phone", "b", "rating", "combinations", "arithmetic", "a", "units",
        "time_calc", "navigation"] ∧
      (tryAdd (.silent " " 5)).run r = (.error .emptyId, r) ∧
      (tryAdd (.silent "a" 1)).run r = (.error (.duplicateId "a"), r) ∧
      (attempts.map Detector.id).Nodup ∧ (attempts.map Detector.priority).Nodup ∧
      ((addEach attempts.reverse).run ⟨standard⟩).2 = r := by
  intro attempts standard
  have hstandard : DetectorRegistry.standard ⟨[Arithmetic.formatter, DateRange.formatter]⟩ {} =
      .ok ⟨standard⟩ := rfl
  have hstart : Starts ⟨standard⟩ standard := .standard rfl rfl hstandard
  have hids : (attempts.map Detector.id).Nodup := by decide
  obtain ⟨answers, r, hrun, -, hdetectors, -, -, -, -, hnext, -, hperm⟩ :=
    attempts_sort_accepted hstart attempts
  have haccepted : accepted attempts answers = [.silent "a" 50, .silent "b" 20] := by
    have hfilter := hstart.holds.accepted_eq_filter hids
    rwa [hrun] at hfilter
  have hsorted : r.detectors =
      insertByPriority (.silent "b" 20) (insertByPriority (.silent "a" 50) standard) := by
    have hself : sortByPriority standard = standard := sortByPriority_eq_self (by decide)
    rw [hdetectors, haccepted, List.append_cons, ← insertByPriority_sortByPriority,
      ← insertByPriority_sortByPriority, hself]
  refine ⟨standard, answers, r, hstart, hrun, haccepted, ?_, ?_, ?_, hids, by decide,
    hperm _ (List.reverse_perm attempts).symm hids (by decide)⟩
  · rw [ids, hsorted]
    decide
  · rw [hnext, if_pos (by decide)]
  · rw [hnext, if_neg (by decide), haccepted, if_pos (by decide)]
    rfl

end DetectorRegistry

end Snippet
