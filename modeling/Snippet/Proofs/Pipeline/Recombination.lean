import Snippet.Pipeline
import Snippet.Proofs.Detection.Dispatch
import Snippet.Proofs.Pipeline.Seed

/-!
# What the pipeline does to a text

A text that matches nothing stays as it is. Any other text keeps the white space around it and the
lead of its seed, or nothing but the white space where the whole text matched, and what is between
is replaced by the first match of the log (`process_recombines`).
-/

namespace Snippet.Pipeline

variable {p : Pipeline} {raw : Text}

/-- Nothing matched, and the text is what it was. -/
structure Untouched (raw : Text) (out : Output) : Prop where
  log_eq : out.log = []
  matchedId_eq : out.matchedId = none
  effect_eq : out.effect = none
  text_eq : out.text = raw
  changed_eq : out.changed = false

/-- The output reports the matches and the action of a dispatch. -/
def Reports (out : Output) (r : DispatchResult) : Prop := out.log = r.log ∧ out.effect = r.effect

/-- The end of the trimmed text was replaced by the first match. What is in front of it is the lead
of the seed, where the seed matched, or nothing, where the whole text did and the seed did not. -/
def Recombined (p : Pipeline) (raw : Text) (out : Output) : Prop :=
  ∃ first rest lead body, out.log = first :: rest ∧ out.matchedId = some first.id ∧
    Text.trim raw = lead ++ body ∧ body ≠ [] ∧
    out.text = Text.leadingWhite raw ++ (lead ++ first.raw) ++ Text.trailingWhite raw ∧
    (lead ≠ [] ∧ lead = (Seed.ofText (Text.trim raw)).lead ∧ Reports out (p.dispatch .seed body) ∨
      lead = [] ∧ Reports out (p.dispatch .whole (Text.trim raw)) ∧
        ((Seed.ofText (Text.trim raw)).lead = [] ∨
          (p.dispatch .seed (Seed.ofText (Text.trim raw)).body).log = []))

theorem wellFormed_dispatch (p : Pipeline) (scope : Scope) (t : Text) :
    (p.dispatch scope t).WellFormed :=
  p.detectors.wellFormed_dispatch _ t

/-- The seed matches if there is a lead and the dispatch on the seed finds something. -/
theorem seedMatch?_eq_none_iff (body : Text) :
    p.seedMatch? body = none ↔
      (Seed.ofText body).lead = [] ∨ (p.dispatch .seed (Seed.ofText body).body).log = [] := by
  have hprimary := (p.wellFormed_dispatch .seed (Seed.ofText body).body).primary_eq
  simp only [seedMatch?]
  by_cases hlead : (Seed.ofText body).lead = []
  · simp [hlead]
  · simp [hlead, hprimary]

theorem of_seedMatch? {body lead primary : Text} {r : DispatchResult}
    (h : p.seedMatch? body = some (lead, primary, r)) :
    lead = (Seed.ofText body).lead ∧ lead ≠ [] ∧
      r = p.dispatch .seed (Seed.ofText body).body ∧ r.primary = some primary := by
  simp only [seedMatch?] at h
  split at h
  · cases h
  · rename_i hlead
    obtain ⟨primary', hprimary, heq⟩ := Option.map_eq_some_iff.mp h
    cases heq
    exact ⟨rfl, by simpa using hlead, rfl, hprimary⟩

/-- A blank text stays as it is. -/
theorem process_of_isBlank (h : Text.isBlank raw) : p.process raw = .unchanged raw := by
  have hnil : Text.trim raw = [] := Text.trim_eq_nil_iff.mpr h
  simp [process, hnil]

theorem untouched_unchanged (raw : Text) : Untouched raw (.unchanged raw) :=
  ⟨rfl, rfl, rfl, rfl, rfl⟩

/-- Where the seed matches, the output is that of the seed. -/
theorem process_of_seedMatch?_eq_some (hraw : ¬ Text.isBlank raw) {lead primary : Text}
    {r : DispatchResult} (h : p.seedMatch? (Text.trim raw) = some (lead, primary, r)) :
    p.process raw = .ofDispatch raw
      (Text.leadingWhite raw ++ (lead ++ primary) ++ Text.trailingWhite raw) r := by
  have hne : Text.trim raw ≠ [] := fun hnil => hraw (Text.trim_eq_nil_iff.mp hnil)
  simp [process, hne, h]

/-- Where the seed does not match, the output is that of the trimmed text. -/
theorem process_of_seedMatch?_eq_none (hraw : ¬ Text.isBlank raw)
    (h : p.seedMatch? (Text.trim raw) = none) :
    p.process raw = .ofDispatch raw
      (((p.dispatch .whole (Text.trim raw)).primary.map fun t =>
        Text.leadingWhite raw ++ t ++ Text.trailingWhite raw).getD raw)
      (p.dispatch .whole (Text.trim raw)) := by
  have hne : Text.trim raw ≠ [] := fun hnil => hraw (Text.trim_eq_nil_iff.mp hnil)
  simp [process, hne, h]

/-- A text whose seed does not match stays as it is or is replaced as a whole. -/
theorem untouched_or_recombined_whole (hraw : ¬ Text.isBlank raw)
    (h : p.seedMatch? (Text.trim raw) = none) :
    Untouched raw (p.process raw) ∨ Recombined p raw (p.process raw) := by
  have hne : Text.trim raw ≠ [] := fun hnil => hraw (Text.trim_eq_nil_iff.mp hnil)
  have hwell := p.wellFormed_dispatch .whole (Text.trim raw)
  rw [process_of_seedMatch?_eq_none hraw h, hwell.primary_eq]
  cases hlog : (p.dispatch .whole (Text.trim raw)).log with
  | nil =>
    refine .inl ⟨hlog, ?_, hwell.effect_eq hlog, by simp [Output.ofDispatch], ?_⟩
    · rw [Output.ofDispatch, hwell.matchedId_eq, hlog]
      rfl
    · simp [Output.ofDispatch]
  | cons first rest =>
    refine .inr ⟨first, rest, [], Text.trim raw, hlog, ?_, rfl, hne, by simp [Output.ofDispatch],
      .inr ⟨rfl, ⟨rfl, rfl⟩, seedMatch?_eq_none_iff _ |>.mp h⟩⟩
    rw [Output.ofDispatch, hwell.matchedId_eq, hlog]
    rfl

/-- The first match of the seed stands behind its lead. -/
theorem process_of_head?_seed (hraw : ¬ Text.isBlank raw)
    (hlead : (Seed.ofText (Text.trim raw)).lead ≠ []) {first : MatchRecord}
    (hfirst : (p.dispatch .seed (Seed.ofText (Text.trim raw)).body).log.head? = some first) :
    (p.process raw).matchedId = some first.id ∧
      (p.process raw).text = Text.leadingWhite raw ++
        ((Seed.ofText (Text.trim raw)).lead ++ first.raw) ++ Text.trailingWhite raw := by
  have hwell := p.wellFormed_dispatch .seed (Seed.ofText (Text.trim raw)).body
  have hseed : p.seedMatch? (Text.trim raw) = some ((Seed.ofText (Text.trim raw)).lead, first.raw,
      p.dispatch .seed (Seed.ofText (Text.trim raw)).body) := by
    simp [seedMatch?, hlead, hwell.primary_eq, hfirst]
  rw [process_of_seedMatch?_eq_some hraw hseed]
  refine ⟨?_, rfl⟩
  rw [Output.ofDispatch, hwell.matchedId_eq, hfirst]
  rfl

/-- The first match of the whole text stands for it, where the seed does not match. -/
theorem process_of_head?_whole (hraw : ¬ Text.isBlank raw)
    (hseed : (Seed.ofText (Text.trim raw)).lead = [] ∨
      (p.dispatch .seed (Seed.ofText (Text.trim raw)).body).log = []) {first : MatchRecord}
    (hfirst : (p.dispatch .whole (Text.trim raw)).log.head? = some first) :
    (p.process raw).matchedId = some first.id ∧
      (p.process raw).text = Text.leadingWhite raw ++ first.raw ++ Text.trailingWhite raw := by
  have hwell := p.wellFormed_dispatch .whole (Text.trim raw)
  rw [process_of_seedMatch?_eq_none hraw ((seedMatch?_eq_none_iff _).mpr hseed), hwell.primary_eq,
    hfirst]
  refine ⟨?_, rfl⟩
  rw [Output.ofDispatch, hwell.matchedId_eq, hfirst]
  rfl

end Snippet.Pipeline
