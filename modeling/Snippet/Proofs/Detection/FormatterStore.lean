import Mathlib.Data.String.Basic
import Snippet.Detection.Standard

/-!
# What a sequence of changes stores

A registry of formatters that is held as a state is changed by adding a formatter under a new name
and by exchanging the one that has a name. Both store the formatter under its name (`store`) if they
are not refused, and leave the registry as it was if they are (`Holds.run_apply`); that is what
`register` and `replace` compute (`Holds.run_apply_eq`). After any sequence of changes the registry
is a finite map: under each name is the formatter that was stored last, and the names are in
increasing order (`Holds.run_applyEach`).
-/

namespace Snippet.FormatterRegistry

variable {r : FormatterRegistry} {f : Formatter} {formatters stored : List Formatter}

/-! ## Storing a formatter -/

/-- Puts a formatter in its place in the order of names; it takes the place of one of its name. -/
def insertOver (f : Formatter) : List Formatter → List Formatter
  | [] => [f]
  | g :: gs =>
    if f.name < g.name then f :: g :: gs
    else if f.name = g.name then f :: gs
    else g :: insertOver f gs

/-- Stores a formatter under its name. -/
def store (f : Formatter) (r : FormatterRegistry) : FormatterRegistry := ⟨insertOver f r.formatters⟩

/-- **What is found under a name after a formatter was stored.** -/
theorem find?_store (f : Formatter) (r : FormatterRegistry) (name : String) :
    (store f r).find? name = if f.name = name then some f else r.find? name := by
  obtain ⟨formatters⟩ := r
  simp only [find?, store]
  induction formatters with
  | nil => by_cases h : f.name = name <;> simp [insertOver, h]
  | cons g formatters ih =>
    unfold insertOver
    split
    · by_cases h : f.name = name <;> simp [h]
    · split
      · rename_i hfg
        by_cases h : f.name = name
        · simp [h]
        · simp [h, ← hfg]
      · rename_i hfg
        by_cases hg : g.name = name
        · have hf : f.name ≠ name := fun h => hfg (h.trans hg.symm)
          simp [hg, hf]
        · simp [hg, ih]

theorem mem_insertOver {g : Formatter} (h : g ∈ insertOver f formatters) :
    g = f ∨ g ∈ formatters := by
  induction formatters with
  | nil => exact .inl (List.mem_singleton.mp h)
  | cons e formatters ih =>
    unfold insertOver at h
    split at h
    · exact List.mem_cons.mp h
    · split at h
      · exact (List.mem_cons.mp h).imp_right (.tail e)
      · rcases List.mem_cons.mp h with rfl | h
        · exact .inr (.head _)
        · exact (ih h).imp_right (.tail e)

theorem pairwise_insertOver (h : formatters.Pairwise (·.name < ·.name)) :
    (insertOver f formatters).Pairwise (·.name < ·.name) := by
  induction formatters with
  | nil => exact List.pairwise_singleton _ f
  | cons g formatters ih =>
    have hall := List.pairwise_cons.mp h
    unfold insertOver
    split
    · rename_i hlt
      refine List.pairwise_cons.mpr ⟨fun e he => ?_, h⟩
      rcases List.mem_cons.mp he with rfl | he
      · exact hlt
      · exact hlt.trans (hall.1 e he)
    · rename_i hle
      split
      · rename_i heq
        exact List.pairwise_cons.mpr ⟨fun e he => heq ▸ hall.1 e he, hall.2⟩
      · rename_i hne
        refine List.pairwise_cons.mpr ⟨fun e he => ?_, ih hall.2⟩
        rcases mem_insertOver he with rfl | he
        · exact lt_of_le_of_ne (not_lt.mp hle) fun heq => hne heq.symm
        · exact hall.1 e he

theorem find?_eq_none_iff {name : String} :
    r.find? name = none ↔ ∀ f ∈ r.formatters, f.name ≠ name := by
  simp [find?]

theorem isSome_find?_iff {name : String} : (r.find? name).isSome ↔ name ∈ r.names := by
  simp [find?, names]

/-- A formatter with a new name is put in front of the first one with a larger name. -/
theorem insertOver_of_new (h : ∀ g ∈ formatters, g.name ≠ f.name) :
    insertOver f formatters = insertSorted f formatters := by
  induction formatters with
  | nil => rfl
  | cons g formatters ih =>
    rw [List.forall_mem_cons] at h
    rw [insertOver, insertSorted, if_neg h.1.symm, ih h.2]

/-- In the order of names, a formatter is exchanged in its place. -/
theorem insertOver_of_mem (h : formatters.Pairwise (·.name < ·.name))
    (hmem : f.name ∈ formatters.map Formatter.name) :
    insertOver f formatters = formatters.map fun g => if g.name == f.name then f else g := by
  induction formatters with
  | nil => cases hmem
  | cons g formatters ih =>
    have hall := List.pairwise_cons.mp h
    have hself : ∀ g' : Formatter, (∀ e ∈ formatters, g'.name < e.name) →
        formatters.map (fun e => if e.name == g'.name then g' else e) = formatters :=
      fun g' hlt => (List.map_congr_left fun e he => if_neg (by simpa using (hlt e he).ne')).trans
        (List.map_id' formatters)
    by_cases heq : f.name = g.name
    · rw [insertOver, if_neg (by simp [heq]), if_pos heq, List.map_cons, if_pos (by simp [heq]),
        hself f (heq ▸ hall.1)]
    · have htail := (List.mem_cons.mp hmem).resolve_left heq
      -- a name that is stored behind `g` is larger
      obtain ⟨e, he, hname⟩ := List.mem_map.mp htail
      have hgf : g.name < f.name := hname ▸ hall.1 e he
      rw [insertOver, if_neg (not_lt.mpr hgf.le), if_neg heq, List.map_cons,
        if_neg (by simpa using Ne.symm heq), ih hall.2 htail]

/-! ## Changes in place -/

/-- A call that changes a registry. -/
inductive Change where
  /-- A formatter is added under a new name. -/
  | register (f : Formatter)
  /-- A formatter takes the place of the one that has its name. -/
  | replace (f : Formatter)

namespace Change

/-- The formatter that a change stores. -/
def formatter : Change → Formatter
  | register f | replace f => f

/-- Makes a change in the registry that is the state. -/
def apply : Change → EStateM RegistryError FormatterRegistry Unit
  | register f => do
    if isBlankId f.name then throw .emptyId
    if ((← getThe FormatterRegistry).find? f.name).isSome then throw (.duplicateId f.name)
    modify (store f)
  | replace f => do
    if ((← getThe FormatterRegistry).find? f.name).isNone then throw (.missingFormatter f.name)
    modify (store f)

/-- The registry that a change returns. -/
def result (c : Change) (r : FormatterRegistry) : Except RegistryError FormatterRegistry :=
  match c with
  | register f => r.register f
  | replace f => r.replace f

/-- Why a registry with these contents refuses a change. -/
def refusal? (contents : String → Option Formatter) : Change → Option RegistryError
  | register f =>
    if isBlankId f.name then some .emptyId
    else if (contents f.name).isSome then some (.duplicateId f.name)
    else none
  | replace f => if (contents f.name).isSome then none else some (.missingFormatter f.name)

/-- Tries a change and goes on from whatever state that leaves behind. -/
def attempt (c : Change) : StateM FormatterRegistry (Except RegistryError Unit) := fun r =>
  match c.apply.run r with
  | .ok () r => (.ok (), r)
  | .error e r => (.error e, r)

end Change

/-- Tries changes one after the other, and lists the answers. -/
def applyEach (changes : List Change) : StateM FormatterRegistry (List (Except RegistryError Unit)) :=
  changes.mapM Change.attempt

/-- The formatters of the changes for which the answer is no error, in their order. -/
def accepted : List Change → List (Except RegistryError Unit) → List Formatter
  | c :: changes, .ok () :: answers => c.formatter :: accepted changes answers
  | _ :: changes, .error _ :: answers => accepted changes answers
  | _, _ => []

/-- Of formatters that were stored one after the other, the last with a name. -/
def lastStored (stored : List Formatter) (name : String) : Option Formatter :=
  stored.reverse.find? fun f => f.name == name

theorem lastStored_concat (stored : List Formatter) (f : Formatter) (name : String) :
    lastStored (stored ++ [f]) name = if f.name = name then some f else lastStored stored name := by
  by_cases h : f.name = name <;> simp [lastStored, h]

/-- The registry is the finite map of the formatters that it has stored. -/
structure Holds (r : FormatterRegistry) (stored : List Formatter) : Prop where
  find?_eq : ∀ name, r.find? name = lastStored stored name
  pairwise_names : r.formatters.Pairwise (·.name < ·.name)

theorem holds_empty : Holds {} [] := ⟨fun _ => rfl, .nil⟩

/-- **One more formatter is stored.** -/
theorem Holds.store (h : r.Holds stored) (f : Formatter) :
    (r.store f).Holds (stored ++ [f]) where
  find?_eq name := by rw [find?_store, lastStored_concat, h.find?_eq]
  pairwise_names := pairwise_insertOver h.pairwise_names

/-- What a change in place does: it is refused with the registry as it was, or it stores its
formatter. -/
theorem Holds.run_apply (h : r.Holds stored) (c : Change) :
    c.apply.run r =
      match c.refusal? (lastStored stored) with
      | some e => .error e r
      | none => .ok () (r.store c.formatter) := by
  cases c with
  | register f =>
    by_cases hblank : isBlankId f.name
    · simp [Change.apply, Change.refusal?, hblank]
    · cases hfound : lastStored stored f.name <;>
        simp [Change.apply, Change.refusal?, Change.formatter, hblank, h.find?_eq, hfound]
  | replace f =>
    cases hfound : lastStored stored f.name <;>
      simp [Change.apply, Change.refusal?, Change.formatter, h.find?_eq, hfound]

/-- What a change returns. -/
theorem Holds.result_eq (h : r.Holds stored) (c : Change) :
    c.result r =
      match c.refusal? (lastStored stored) with
      | some e => .error e
      | none => .ok (r.store c.formatter) := by
  cases c with
  | register f =>
    simp only [Change.result, register, Change.refusal?, ← h.find?_eq]
    by_cases hblank : isBlankId f.name
    · rw [if_pos hblank, if_pos hblank]
      rfl
    · rw [if_neg hblank, if_neg hblank]
      cases hfound : r.find? f.name with
      | some g => rfl
      | none =>
        rw [find?_eq_none_iff] at hfound
        simp [Change.formatter, FormatterRegistry.store, insertOver_of_new hfound]
        rfl
  | replace f =>
    simp only [Change.result, replace, Change.refusal?, ← h.find?_eq]
    by_cases hfound : (r.find? f.name).isSome
    · have hmem := isSome_find?_iff.mp hfound
      simp [hfound, Change.formatter, FormatterRegistry.store,
        insertOver_of_mem h.pairwise_names hmem]
      rfl
    · simp [hfound]
      rfl

/-- The change in place and the one that returns a new registry agree. -/
theorem Holds.run_apply_eq (h : r.Holds stored) (c : Change) :
    c.apply.run r =
      match c.result r with
      | .ok r' => .ok () r'
      | .error e => .error e r := by
  rw [h.run_apply, h.result_eq]
  cases c.refusal? (lastStored stored) <;> rfl

theorem Holds.run_attempt (h : r.Holds stored) (c : Change) :
    c.attempt.run r =
      match c.refusal? (lastStored stored) with
      | some e => (.error e, r)
      | none => (.ok (), r.store c.formatter) := by
  change (match c.apply.run r with
    | .ok () r => (Except.ok (), r)
    | .error e r => (.error e, r)) = _
  rw [h.run_apply]
  cases c.refusal? (lastStored stored) <;> rfl

/-! ## A sequence of changes -/

theorem run_applyEach_nil (r : FormatterRegistry) : (applyEach []).run r = ([], r) := rfl

theorem run_applyEach_cons (r : FormatterRegistry) (c : Change) (changes : List Change) :
    (applyEach (c :: changes)).run r =
      ((c.attempt.run r).1 :: ((applyEach changes).run (c.attempt.run r).2).1,
        ((applyEach changes).run (c.attempt.run r).2).2) := by
  rw [applyEach, List.mapM_cons]
  rfl

theorem length_run_applyEach (r : FormatterRegistry) (changes : List Change) :
    ((applyEach changes).run r).1.length = changes.length := by
  induction changes generalizing r with
  | nil => rfl
  | cons c changes ih => rw [run_applyEach_cons, List.length_cons, List.length_cons, ih]

theorem run_applyEach_concat (r : FormatterRegistry) (changes : List Change) (c : Change) :
    (applyEach (changes ++ [c])).run r =
      (((applyEach changes).run r).1 ++ [(c.attempt.run ((applyEach changes).run r).2).1],
        (c.attempt.run ((applyEach changes).run r).2).2) := by
  induction changes generalizing r with
  | nil => rfl
  | cons first changes ih =>
    rw [List.cons_append, run_applyEach_cons, run_applyEach_cons, ih]
    rfl

/-- **After any sequence of changes the registry is the finite map of what was stored.** -/
theorem Holds.run_applyEach (h : r.Holds stored) (changes : List Change) :
    ((applyEach changes).run r).2.Holds
      (stored ++ accepted changes ((applyEach changes).run r).1) := by
  induction changes generalizing r stored with
  | nil => simpa [run_applyEach_nil, accepted] using h
  | cons c changes ih =>
    rw [run_applyEach_cons, h.run_attempt]
    cases hrefusal : c.refusal? (lastStored stored) with
    | some e => exact ih h
    | none =>
      have hconcat := ih (h.store c.formatter)
      rwa [List.append_assoc] at hconcat

/-- The registries that a sequence of changes starts from, with the formatters that they have
stored. -/
inductive Starts : FormatterRegistry → List Formatter → Prop
  | empty : Starts {} []
  | standard {r : FormatterRegistry} (h : FormatterRegistry.standard = .ok r) :
      Starts r [Arithmetic.formatter, DateRange.formatter]

theorem Starts.holds (h : Starts r stored) : r.Holds stored := by
  cases h with
  | empty => exact holds_empty
  | standard h =>
    cases h
    exact (holds_empty.store Arithmetic.formatter).store DateRange.formatter

theorem Holds.get_eq (h : r.Holds stored) (name : String) :
    r.get name =
      match lastStored stored name with
      | some f => .ok f
      | none => .error (.missingFormatter name) := by
  rw [get, h.find?_eq]
  cases lastStored stored name <;> rfl

end Snippet.FormatterRegistry
