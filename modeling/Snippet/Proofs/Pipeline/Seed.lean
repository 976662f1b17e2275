import Snippet.Proofs.Text.Trimming
import Snippet.Seed

/-!
# The parts of a seed

Whatever strategy finds the start of a seed, it lies inside the text, so the lead and the body of
the seed of a trimmed text make up the text (`lead_append_body`) and the body is not empty.
-/

namespace Snippet.Seed

variable {t : Text}

theorem lt_of_start? {k : Nat} (h : start? t = some k) : k < t.length := by
  obtain ⟨strategy, -, hk⟩ := List.exists_of_findSome?_eq_some h
  obtain ⟨-, hlt⟩ := Option.filter_eq_some_iff.mp hk
  exact of_decide_eq_true hlt

/-- One of the strategies starts the seed. -/
theorem exists_strategy_of_start? {k : Nat} (h : start? t = some k) :
    dateStart? t = some k ∨ arithmeticStart? t = some k ∨ separatorStart? t = some k ∨
      wordStart? t = some k := by
  obtain ⟨strategy, hmem, hk⟩ := List.exists_of_findSome?_eq_some h
  have hk := (Option.filter_eq_some_iff.mp hk).1
  simp only [List.mem_cons, List.not_mem_nil, or_false] at hmem
  rcases hmem with rfl | rfl | rfl | rfl
  · exact .inl hk
  · exact .inr (.inl hk)
  · exact .inr (.inr (.inl hk))
  · exact .inr (.inr (.inr hk))

/-- The seed of a text starts where a strategy says, or the trimmed text is the seed. -/
theorem ofText_of_not_isBlank (h : ¬ Text.isBlank t) :
    ofText t =
      match start? (Text.trimEnd t) with
      | some start => ⟨(Text.trimEnd t).take start, (Text.trimEnd t).drop start⟩
      | none => ⟨[], Text.trim t⟩ := by
  have hblank : Text.isBlank (Text.trimEnd t) = false := by
    rw [← Bool.not_eq_true, Text.isBlank_trimEnd]
    exact h
  cases hstart : start? (Text.trimEnd t) with
  | some start => simp [ofText, hblank, hstart]
  | none => simp [ofText, hblank, hstart, Text.trim]

/-- The seed of a trimmed text starts where a strategy says, or the text is its own seed. -/
theorem ofText_trim (h : ¬ Text.isBlank t) :
    ofText (Text.trim t) =
      match start? (Text.trim t) with
      | some start => ⟨(Text.trim t).take start, (Text.trim t).drop start⟩
      | none => ⟨[], Text.trim t⟩ := by
  rw [ofText_of_not_isBlank fun hblank => h (Text.isBlank_trim.mp hblank), Text.trimEnd_trim,
    Text.trim_trim]

/-- **The lead and the body of the seed make up the trimmed text.** -/
theorem lead_append_body (h : ¬ Text.isBlank t) :
    (ofText (Text.trim t)).lead ++ (ofText (Text.trim t)).body = Text.trim t := by
  rw [ofText_trim h]
  split
  · exact List.take_append_drop _ _
  · rfl

theorem body_ne_nil (h : ¬ Text.isBlank t) : (ofText (Text.trim t)).body ≠ [] := by
  rw [ofText_trim h]
  split
  · rename_i start hstart
    have hlt := lt_of_start? hstart
    rw [Ne, List.drop_eq_nil_iff]
    omega
  · exact fun hnil => h (Text.trim_eq_nil_iff.mp hnil)

theorem mem_of_mem_body (h : ¬ Text.isBlank t) {c : Char} (hc : c ∈ (ofText (Text.trim t)).body) :
    c ∈ Text.trim t := by
  rw [← lead_append_body h]
  exact List.mem_append_right _ hc

/-- The body of the seed ends like the trimmed text. -/
theorem getLast?_body (h : ¬ Text.isBlank t) :
    (ofText (Text.trim t)).body.getLast? = (Text.trim t).getLast? := by
  have happend := congrArg List.getLast? (lead_append_body h)
  rwa [List.getLast?_append_of_ne_nil _ (body_ne_nil h)] at happend

/-- There is no white space at the end of the body. -/
theorem trim_body (h : ¬ Text.isBlank t) :
    Text.trim (ofText (Text.trim t)).body = Text.trimStart (ofText (Text.trim t)).body := by
  rw [Text.trim, Text.trimEnd_eq_self]
  intro c hc
  rw [getLast?_body h, ← Text.trimEnd_trim] at hc
  exact Text.isWhite_eq_false_of_getLast?_trimEnd hc

end Snippet.Seed
