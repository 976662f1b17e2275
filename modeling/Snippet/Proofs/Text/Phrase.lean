import Snippet.Text.Basic

/-!
# Phrases in a text

`Text.find?` finds a phrase exactly if it stands somewhere (`find?_eq_none_iff`), what it splits off
has no earlier occurrence (`find?_eq_none_of_find?`), and text behind the phrase changes nothing
(`find?_append_of_find?`). A stretch of the text that does not have some character lies on one side
of where it stands (`cases_of_append_cons`).
-/

namespace Snippet.Text

variable {phrase t a b u x y : Text} {c : Char}

/-! ## The sides of a character -/

/-- A start of the text without the character ends in front of it. -/
theorem exists_of_not_mem_left (h : a ++ c :: b = x ++ y) (hc : c ∉ x) :
    ∃ z, a = x ++ z ∧ y = z ++ c :: b := by
  rcases List.append_eq_append_iff.mp h with ⟨z, rfl, hz⟩ | ⟨z, rfl, rfl⟩
  · cases z with
    | nil => exact ⟨[], by simp, hz.symm⟩
    | cons d z =>
      obtain ⟨rfl, -⟩ := List.cons.inj hz
      exact absurd (by simp) hc
  · exact ⟨z, rfl, rfl⟩

/-- An end of the text without the character begins behind it. -/
theorem exists_of_not_mem_right (h : a ++ c :: b = x ++ y) (hc : c ∉ y) :
    ∃ z, x = a ++ c :: z ∧ b = z ++ y := by
  rcases List.append_eq_append_iff.mp h with ⟨z, rfl, hz⟩ | ⟨z, -, rfl⟩
  · cases z with
    | nil =>
      rw [List.nil_append] at hz
      exact absurd (hz ▸ List.mem_cons_self ..) hc
    | cons d z =>
      obtain ⟨rfl, rfl⟩ := List.cons.inj hz
      exact ⟨z, rfl, rfl⟩
  · exact absurd (by simp) hc

/-- A stretch of the text without the character lies on one side of it. -/
theorem cases_of_append_cons (h : a ++ c :: b = x ++ (u ++ y)) (hc : c ∉ u) :
    (∃ z, a = x ++ (u ++ z) ∧ y = z ++ c :: b) ∨ ∃ z, x = a ++ c :: z ∧ b = z ++ (u ++ y) := by
  rcases List.append_eq_append_iff.mp h with ⟨z, rfl, hz⟩ | ⟨z, rfl, hz⟩
  · cases z with
    | nil =>
      rw [List.nil_append, ← List.nil_append (c :: b)] at hz
      obtain ⟨z, hnil, rfl⟩ := exists_of_not_mem_left hz hc
      exact .inl ⟨z, by simp [← hnil], rfl⟩
    | cons d z =>
      obtain ⟨rfl, rfl⟩ := List.cons.inj hz
      exact .inr ⟨z, rfl, rfl⟩
  · obtain ⟨z, rfl, rfl⟩ := exists_of_not_mem_left hz.symm hc
    exact .inl ⟨z, rfl, rfl⟩

/-! ## Occurrences of a phrase -/

theorem dropPhrase?_append (p t : Text) : dropPhrase? p (p ++ t) = some t := by
  induction p with
  | nil => rfl
  | cons c p ih => rw [List.cons_append, dropPhrase?, if_pos rfl, ih]

theorem dropPhrase?_append_of_dropPhrase? (h : dropPhrase? phrase t = some a) (r : Text) :
    dropPhrase? phrase (t ++ r) = some (a ++ r) := by
  rw [eq_append_of_dropPhrase? h, List.append_assoc, dropPhrase?_append]

theorem dropPhrase?_eq_none_of_append {r : Text} (h : dropPhrase? phrase (t ++ r) = none) :
    dropPhrase? phrase t = none := by
  cases hdrop : dropPhrase? phrase t with
  | none => rfl
  | some a => simp [dropPhrase?_append_of_dropPhrase? hdrop r] at h

/-- Only a text shorter than the phrase can be made to start with it. -/
theorem dropPhrase?_append_eq_none (h : dropPhrase? phrase t = none)
    (hlength : phrase.length ≤ t.length) (r : Text) : dropPhrase? phrase (t ++ r) = none := by
  cases hdrop : dropPhrase? phrase (t ++ r) with
  | none => rfl
  | some a =>
    obtain ⟨b, rfl⟩ : phrase <+: t :=
      List.prefix_of_prefix_length_le ⟨a, (eq_append_of_dropPhrase? hdrop).symm⟩
        (List.prefix_append t r) hlength
    simp [dropPhrase?_append] at h

theorem hasPhrase_append (p a b : Text) : hasPhrase p (a ++ (p ++ b)) := by
  rw [hasPhrase]
  induction a with
  | nil =>
    rw [List.nil_append]
    cases h : p ++ b with
    | nil => rw [find?, ← h, dropPhrase?_append]; rfl
    | cons c t => rw [find?, ← h, dropPhrase?_append]; rfl
  | cons c a ih =>
    rw [List.cons_append, find?]
    split
    · rfl
    · rwa [Option.isSome_map]

theorem hasPhrase_iff : hasPhrase phrase t ↔ ∃ a b, t = a ++ (phrase ++ b) := by
  constructor
  · intro h
    obtain ⟨⟨a, b⟩, hfind⟩ := Option.isSome_iff_exists.mp h
    exact ⟨a, b, by simpa using eq_append_of_find? hfind⟩
  · rintro ⟨a, b, rfl⟩
    exact hasPhrase_append phrase a b

theorem find?_eq_none_iff : find? phrase t = none ↔ ∀ a b, t ≠ a ++ (phrase ++ b) := by
  constructor
  · rintro h a b rfl
    have hphrase := hasPhrase_append phrase a b
    rw [hasPhrase, h] at hphrase
    cases hphrase
  · intro h
    cases hfind : find? phrase t with
    | none => rfl
    | some s => exact absurd (by simpa using eq_append_of_find? hfind) (h s.1 s.2)

theorem find?_cons_eq_none_iff :
    find? phrase (c :: t) = none ↔ dropPhrase? phrase (c :: t) = none ∧ find? phrase t = none := by
  rw [find?]
  cases dropPhrase? phrase (c :: t) <;> simp

/-- In front of the first occurrence of a phrase there is no other. -/
theorem find?_eq_none_of_find? (h : find? phrase t = some (a, b)) (hphrase : phrase ≠ []) :
    find? phrase a = none := by
  induction t generalizing a b with
  | nil =>
    obtain ⟨p, ps, rfl⟩ := List.exists_cons_of_ne_nil hphrase
    simp [find?, dropPhrase?] at h
  | cons c t ih =>
    rw [find?] at h
    split at h
    · rename_i r _
      cases h
      obtain ⟨p, ps, rfl⟩ := List.exists_cons_of_ne_nil hphrase
      rfl
    · rename_i hdrop
      obtain ⟨⟨u, v⟩, hfind, heq⟩ := Option.map_eq_some_iff.mp h
      cases heq
      refine find?_cons_eq_none_iff.mpr ⟨?_, ih hfind⟩
      rw [eq_append_of_find? hfind, List.append_assoc] at hdrop
      exact dropPhrase?_eq_none_of_append hdrop

/-- The first occurrence of a phrase stays the first, whatever is put behind the text. -/
theorem find?_append_of_find? (h : find? phrase t = some (a, b)) (r : Text) :
    find? phrase (t ++ r) = some (a, b ++ r) := by
  induction t generalizing a b with
  | nil =>
    obtain ⟨s, hs, heq⟩ := Option.map_eq_some_iff.mp h
    cases heq
    cases phrase with
    | nil =>
      cases hs
      cases r <;> rfl
    | cons => cases hs
  | cons c t ih =>
    rw [find?] at h
    rw [List.cons_append, find?]
    split at h
    · rename_i s hs
      cases h
      have hstart := dropPhrase?_append_of_dropPhrase? hs r
      rw [List.cons_append] at hstart
      rw [hstart]
    · rename_i hdrop
      obtain ⟨⟨u, v⟩, hfind, heq⟩ := Option.map_eq_some_iff.mp h
      cases heq
      have hlength : phrase.length ≤ (c :: t).length := by
        simp [eq_append_of_find? hfind]
        omega
      have hlater := dropPhrase?_append_eq_none hdrop hlength r
      rw [List.cons_append] at hlater
      rw [hlater, ih hfind]
      rfl

theorem find?_singleton_eq_none_iff : find? [c] t = none ↔ c ∉ t := by
  rw [find?_eq_none_iff, List.mem_iff_append]
  simp

theorem find?_singleton_append (h : c ∉ a) (b : Text) : find? [c] (a ++ c :: b) = some (a, b) := by
  induction a with
  | nil => simp [find?, dropPhrase?]
  | cons d a ih =>
    rw [List.mem_cons, not_or] at h
    simp [find?, dropPhrase?, h.1, ih h.2]

end Snippet.Text
