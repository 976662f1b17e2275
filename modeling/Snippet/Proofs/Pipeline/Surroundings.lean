import Snippet.Proofs.Detection.Standard
import Snippet.Proofs.Pipeline.Recombination

/-!
# White space around a text

Detectors and seeds are given the trimmed text, so white space that is put around a text changes
nothing but the text of the output, which stands between the same white space
(`process_between`).
-/

namespace Snippet

/-- An output with something put around its text. -/
def Output.between (w₁ w₂ : Text) (out : Output) : Output :=
  { out with text := w₁ ++ out.text ++ w₂ }

theorem Output.unchanged_between (w₁ raw w₂ : Text) :
    unchanged (w₁ ++ raw ++ w₂) = (unchanged raw).between w₁ w₂ := rfl

/-- A text is changed exactly if it is changed between the same surroundings. -/
theorem Output.ofDispatch_between (w₁ raw text w₂ : Text) (r : DispatchResult) :
    ofDispatch (w₁ ++ raw ++ w₂) (w₁ ++ text ++ w₂) r = (ofDispatch raw text r).between w₁ w₂ := by
  have hchanged : (w₁ ++ text ++ w₂ != w₁ ++ raw ++ w₂) = (text != raw) := by
    rw [Bool.eq_iff_iff, bne_iff_ne, bne_iff_ne, Ne, List.append_left_inj, List.append_right_inj]
  rw [ofDispatch, hchanged]
  rfl

namespace Pipeline

section

variable (p : Pipeline) (raw : Text) {w₁ w₂ : Text} (h₁ : Text.isBlank w₁) (h₂ : Text.isBlank w₂)
include h₁ h₂

/-- The output of a text between white space. The text may be blank, have a seed that matches, match
as a whole or not at all. -/
theorem process_eq_between : p.process (w₁ ++ raw ++ w₂) = (p.process raw).between w₁ w₂ := by
  by_cases h : Text.isBlank raw
  · have hall : Text.isBlank (w₁ ++ raw ++ w₂) := by simp [Text.isBlank_append, h₁, h₂, h]
    rw [process_of_isBlank hall, process_of_isBlank h, Output.unchanged_between]
  · have hall : ¬ Text.isBlank (w₁ ++ raw ++ w₂) := by simp [Text.isBlank_append, h]
    have htrim : Text.trim (w₁ ++ raw ++ w₂) = Text.trim raw := Text.trim_between h₁ h₂
    -- what the trimmed text was replaced by stands between the longer white space
    have haround : ∀ t : Text, Text.leadingWhite (w₁ ++ raw ++ w₂) ++ t ++
        Text.trailingWhite (w₁ ++ raw ++ w₂) =
          w₁ ++ (Text.leadingWhite raw ++ t ++ Text.trailingWhite raw) ++ w₂ := by
      intro t
      rw [Text.leadingWhite_between h₁ h, Text.trailingWhite_between h₂ h]
      simp only [List.append_assoc]
    cases hseed : p.seedMatch? (Text.trim raw) with
    | some m =>
      obtain ⟨lead, primary, r⟩ := m
      rw [process_of_seedMatch?_eq_some h hseed,
        process_of_seedMatch?_eq_some hall (htrim ▸ hseed), haround, Output.ofDispatch_between]
    | none =>
      rw [process_of_seedMatch?_eq_none h hseed,
        process_of_seedMatch?_eq_none hall (htrim ▸ hseed), htrim, ← Output.ofDispatch_between]
      cases (p.dispatch .whole (Text.trim raw)).primary with
      | none => rfl
      | some primary => simp only [Option.map_some, Option.getD_some, haround]

theorem text_process_between :
    (p.process (w₁ ++ raw ++ w₂)).text = w₁ ++ (p.process raw).text ++ w₂ := by
  rw [p.process_eq_between raw h₁ h₂]
  rfl

theorem matchedId_process_between :
    (p.process (w₁ ++ raw ++ w₂)).matchedId = (p.process raw).matchedId := by
  rw [p.process_eq_between raw h₁ h₂]
  rfl

/-- A text is kept exactly if it is kept between white space. -/
theorem text_process_between_eq_iff :
    (p.process (w₁ ++ raw ++ w₂)).text = w₁ ++ raw ++ w₂ ↔ (p.process raw).text = raw := by
  rw [p.text_process_between raw h₁ h₂, List.append_left_inj, List.append_right_inj]

end

/-- **White space around a text comes back around the output, and changes nothing else.** -/
theorem process_between (p : Pipeline) (raw : Text) {w₁ w₂ : Text} (h₁ : Text.isBlank w₁)
    (h₂ : Text.isBlank w₂) :
    p.process (w₁ ++ raw ++ w₂) =
      { p.process raw with text := w₁ ++ (p.process raw).text ++ w₂ } :=
  p.process_eq_between raw h₁ h₂

/-- An ideographic space and a line break come back around the value of a sum behind its lead. -/
theorem process_sum_between : ∃ p, standard {} ⟨2026, 10, 19, by decide⟩ = .ok p ∧
    Text.isBlank ['\u3000'] ∧ Text.isBlank ['\n'] ∧
    p.process " n: 1+2".toList =
      ⟨" n: 3".toList, true, some "arithmetic", none, [⟨"arithmetic", "3".toList⟩]⟩ ∧
    p.process (['\u3000'] ++ " n: 1+2".toList ++ ['\n']) =
      ⟨['\u3000'] ++ " n: 3".toList ++ ['\n'], true, some "arithmetic", none,
        [⟨"arithmetic", "3".toList⟩]⟩ := by
  have hrun : (standard {} ⟨2026, 10, 19, by decide⟩).toOption.any fun p =>
      p.process " n: 1+2".toList == ⟨" n: 3".toList, true, some "arithmetic", none,
        [⟨"arithmetic", "3".toList⟩]⟩ := by
    decide +kernel
  obtain ⟨p, hp, hout⟩ := exists_of_any_standard hrun
  rw [beq_iff_eq] at hout
  refine ⟨p, hp, by decide, by decide, hout, ?_⟩
  rw [process_between p _ (by decide) (by decide), hout]

end Pipeline

end Snippet
