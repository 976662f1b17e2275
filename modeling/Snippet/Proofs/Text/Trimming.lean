import Mathlib.Data.List.DropRight
import Mathlib.Data.List.TakeWhile
import Mathlib.Tactic.Conv
import Snippet.Text.Basic

/-!
# Trimming

A text that is not blank is its leading white space, the trimmed text and its trailing white space
(`leadingWhite_append_trim_append_trailingWhite`); a blank text is trimmed to nothing. The trimmed
text has no white space at either end, and trimming changes nothing there.
-/

namespace Snippet.Text

variable {t : Text}

theorem trimStart_eq_nil_iff : trimStart t = [] ↔ isBlank t := by
  rw [trimStart, List.dropWhile_eq_nil_iff]
  simp [isBlank]

theorem isWhite_of_isBlank {c : Char} (h : isBlank t) (hc : c ∈ t) : isWhite c :=
  List.all_eq_true.mp h c hc

theorem not_mem_of_isBlank {c : Char} (h : isBlank t) (hc : isWhite c = false) : c ∉ t := by
  intro hmem
  rw [isWhite_of_isBlank h hmem] at hc
  cases hc

theorem isBlank_append {u : Text} : isBlank (t ++ u) ↔ isBlank t ∧ isBlank u := by
  simp [isBlank]

theorem isBlank_trailingWhite (t : Text) : isBlank (trailingWhite t) := by
  rw [isBlank, trailingWhite, takeWhileEnd, List.all_reverse, List.all_eq_true]
  exact fun c => List.mem_takeWhile_imp

theorem isBlank_leadingWhite (t : Text) : isBlank (leadingWhite t) := by
  rw [isBlank, leadingWhite, List.all_eq_true]
  exact fun c => List.mem_takeWhile_imp

theorem isBlank_trimEnd : isBlank (trimEnd t) ↔ isBlank t := by
  conv_rhs => rw [← trimEnd_append_trailingWhite t, isBlank_append]
  simp [isBlank_trailingWhite]

theorem isBlank_trimStart : isBlank (trimStart t) ↔ isBlank t := by
  conv_rhs => rw [← leadingWhite_append_trimStart t, isBlank_append]
  simp [isBlank_leadingWhite]

theorem isBlank_trim : isBlank (trim t) ↔ isBlank t := by
  rw [trim, isBlank_trimStart, isBlank_trimEnd]

theorem trim_eq_nil_iff : trim t = [] ↔ isBlank t := by
  rw [trim, trimStart_eq_nil_iff, isBlank_trimEnd]

/-- What a text starts with is not changed by white space behind a character that is none. -/
theorem leadingWhite_append {u : Text} (h : ¬ isBlank t) :
    leadingWhite (t ++ u) = leadingWhite t := by
  rw [leadingWhite, leadingWhite, List.takeWhile_append, if_neg]
  intro hlength
  have hall : t.takeWhile isWhite = t :=
    List.IsPrefix.eq_of_length (List.takeWhile_prefix _) hlength
  refine h ?_
  rw [isBlank, List.all_eq_true]
  exact List.takeWhile_eq_self_iff.mp hall

theorem isBlank_reverse : isBlank t.reverse ↔ isBlank t := by
  simp [isBlank]

/-- White space in front of a text is trimmed away first. -/
theorem trimStart_append_left {w : Text} (hw : isBlank w) : trimStart (w ++ t) = trimStart t :=
  List.dropWhile_append_of_pos (List.all_eq_true.mp hw)

/-- White space behind a text is trimmed away first. -/
theorem trimEnd_append_right {w : Text} (hw : isBlank w) : trimEnd (t ++ w) = trimEnd t := by
  have hrev : isBlank w.reverse := isBlank_reverse.mpr hw
  rw [trimEnd, dropWhileEnd, List.reverse_append,
    List.dropWhile_append_of_pos (List.all_eq_true.mp hrev)]
  rfl

theorem leadingWhite_append_left {w : Text} (hw : isBlank w) :
    leadingWhite (w ++ t) = w ++ leadingWhite t :=
  List.takeWhile_append_of_pos (List.all_eq_true.mp hw)

theorem trailingWhite_eq_reverse (t : Text) : trailingWhite t = (leadingWhite t.reverse).reverse :=
  rfl

theorem trailingWhite_append_right {w : Text} (hw : isBlank w) :
    trailingWhite (t ++ w) = trailingWhite t ++ w := by
  rw [trailingWhite_eq_reverse, List.reverse_append,
    leadingWhite_append_left (isBlank_reverse.mpr hw), List.reverse_append, List.reverse_reverse]
  rfl

/-- What a text ends with is not changed by anything in front of a character that is no white
space. -/
theorem trailingWhite_append {u : Text} (h : ¬ isBlank t) :
    trailingWhite (u ++ t) = trailingWhite t := by
  have hrev : ¬ isBlank t.reverse := fun hblank => h (isBlank_reverse.mp hblank)
  rw [trailingWhite_eq_reverse, List.reverse_append, leadingWhite_append hrev]
  rfl

theorem trimEnd_append {u : Text} (h : ¬ isBlank t) : trimEnd (u ++ t) = u ++ trimEnd t := by
  have hsplit := trimEnd_append_trailingWhite (u ++ t)
  rw [trailingWhite_append h] at hsplit
  conv_rhs at hsplit => rw [← trimEnd_append_trailingWhite t, ← List.append_assoc]
  exact List.append_cancel_right hsplit

/-- White space around a text is trimmed away first. -/
theorem trim_between {w₁ w₂ : Text} (h₁ : isBlank w₁) (h₂ : isBlank w₂) :
    trim (w₁ ++ t ++ w₂) = trim t := by
  by_cases h : isBlank t
  · have hall : isBlank (w₁ ++ t ++ w₂) := by simp [isBlank_append, h₁, h₂, h]
    rw [trim_eq_nil_iff.mpr hall, trim_eq_nil_iff.mpr h]
  · rw [trim, trimEnd_append_right h₂, trimEnd_append h, trimStart_append_left h₁, trim]

/-- The white space in front of a text is the first part of the white space it starts with. -/
theorem leadingWhite_between {w₁ w₂ : Text} (h₁ : isBlank w₁) (h : ¬ isBlank t) :
    leadingWhite (w₁ ++ t ++ w₂) = w₁ ++ leadingWhite t := by
  rw [List.append_assoc, leadingWhite_append_left h₁, leadingWhite_append h]

/-- The white space behind a text is the last part of the white space it ends with. -/
theorem trailingWhite_between {w₁ w₂ : Text} (h₂ : isBlank w₂) (h : ¬ isBlank t) :
    trailingWhite (w₁ ++ t ++ w₂) = trailingWhite t ++ w₂ := by
  rw [trailingWhite_append_right h₂, trailingWhite_append h]

/-- **A text that is not blank is its leading white space, the trimmed text and its trailing white
space.** -/
theorem leadingWhite_append_trim_append_trailingWhite (h : ¬ isBlank t) :
    leadingWhite t ++ (trim t ++ trailingWhite t) = t := by
  have hlead : leadingWhite t = leadingWhite (trimEnd t) := by
    conv_lhs => rw [← trimEnd_append_trailingWhite t]
    exact leadingWhite_append fun hblank => h (isBlank_trimEnd.mp hblank)
  rw [hlead, trim, ← List.append_assoc, leadingWhite_append_trimStart, trimEnd_append_trailingWhite]

theorem dropWhileEnd_append {p : Char → Bool} {b : Text} (ht : ∀ c ∈ t.getLast?, p c = false)
    (hb : ∀ c ∈ b, p c) : dropWhileEnd p (t ++ b) = t := by
  rw [dropWhileEnd, List.reverse_append, List.dropWhile_append_of_pos (by simpa using hb),
    List.reverse_eq_iff]
  cases hr : t.reverse with
  | nil => rfl
  | cons c r =>
    have hlast : t.getLast? = some c := by rw [← List.head?_reverse, hr, List.head?_cons]
    rw [List.dropWhile_cons_of_neg]
    simp [ht c hlast]

theorem eq_false_of_getLast?_dropWhileEnd {p : Char → Bool} {c : Char}
    (h : (dropWhileEnd p t).getLast? = some c) : p c = false := by
  rw [dropWhileEnd, List.getLast?_reverse] at h
  have hnot := List.head?_dropWhile_not p t.reverse
  rw [h] at hnot
  exact hnot

/-- The last character of a text without the white space at its end. -/
theorem isWhite_eq_false_of_getLast?_trimEnd {c : Char} (h : (trimEnd t).getLast? = some c) :
    isWhite c = false :=
  eq_false_of_getLast?_dropWhileEnd h

theorem trimEnd_eq_self (h : ∀ c, t.getLast? = some c → isWhite c = false) : trimEnd t = t := by
  have hend := dropWhileEnd_append (b := []) h (by simp)
  rwa [List.append_nil] at hend

theorem getLast?_trimStart (h : trimStart t ≠ []) : (trimStart t).getLast? = t.getLast? := by
  conv_rhs => rw [← leadingWhite_append_trimStart t]
  exact (List.getLast?_append_of_ne_nil _ h).symm

/-- There is no white space at the end of a trimmed text. -/
theorem trimEnd_trim (t : Text) : trimEnd (trim t) = trim t := by
  refine trimEnd_eq_self fun c hc => ?_
  have hne : trimStart (trimEnd t) ≠ [] := by
    intro hnil
    rw [trim, hnil] at hc
    cases hc
  rw [trim, getLast?_trimStart hne] at hc
  exact isWhite_eq_false_of_getLast?_trimEnd hc

/-- There is no white space at the start of a trimmed text. -/
theorem trimStart_trim (t : Text) : trimStart (trim t) = trim t := by
  rw [trim, trimStart, trimStart, List.dropWhile_idempotent]

theorem trim_trim (t : Text) : trim (trim t) = trim t := by
  rw [trim, trimEnd_trim, trimStart_trim]

theorem leadingWhite_trim (t : Text) : leadingWhite (trim t) = [] := by
  have hsplit := leadingWhite_append_trimStart (trim t)
  rw [trimStart_trim] at hsplit
  exact List.append_left_eq_self.mp hsplit

theorem trailingWhite_trim (t : Text) : trailingWhite (trim t) = [] := by
  have hsplit := trimEnd_append_trailingWhite (trim t)
  rw [trimEnd_trim] at hsplit
  exact List.append_right_eq_self.mp hsplit

theorem trimStart_eq_self (h : ∀ c ∈ t.head?, isWhite c = false) : trimStart t = t := by
  cases t with
  | nil => rfl
  | cons c t => rw [trimStart, List.dropWhile_cons, h c rfl]; rfl

/-- A text without white space at its ends. -/
theorem trim_eq_self (hhead : ∀ c ∈ t.head?, isWhite c = false)
    (hlast : ∀ c ∈ t.getLast?, isWhite c = false) : trim t = t := by
  rw [trim, trimEnd_eq_self hlast, trimStart_eq_self hhead]

theorem trim_trimEnd (t : Text) : trim (trimEnd t) = trim t := by
  rw [trim, trimEnd_eq_self fun c => isWhite_eq_false_of_getLast?_trimEnd, trim]

/-- Of a text behind one that does not start with white space, the end is trimmed. -/
theorem trim_append_of_not_isBlank {u : Text} (hu : ∀ c ∈ u.head?, isWhite c = false)
    (hne : u ≠ []) (ht : ¬ isBlank t) : trim (u ++ t) = u ++ trimEnd t := by
  rw [trim, trimEnd_append ht, trimStart_eq_self]
  rwa [List.head?_append_of_ne_nil _ hne]

/-- The first character of a text without the white space at its start. -/
theorem isWhite_eq_false_of_head?_trimStart {c : Char} (h : (trimStart t).head? = some c) :
    isWhite c = false := by
  have hnot := List.head?_dropWhile_not isWhite t
  rw [← trimStart, h] at hnot
  exact hnot

/-- A trimmed text does not start with white space. -/
theorem isWhite_eq_false_of_head?_trim {c : Char} (h : (trim t).head? = some c) :
    isWhite c = false :=
  isWhite_eq_false_of_head?_trimStart h

/-- A trimmed text behind one that does not start with white space. -/
theorem trim_append {u : Text} (hu : ∀ c ∈ u.head?, isWhite c = false) (ht : trim t = t)
    (hne : t ≠ []) : trim (u ++ t) = u ++ t := by
  refine trim_eq_self (fun c hc => ?_) fun c hc => ?_
  · cases u with
    | nil =>
      rw [List.nil_append, ← ht] at hc
      exact isWhite_eq_false_of_head?_trim hc
    | cons d u => exact hu c hc
  · rw [List.getLast?_append_of_ne_nil u hne, ← ht, ← trimEnd_trim] at hc
    exact isWhite_eq_false_of_getLast?_trimEnd hc

theorem mem_of_mem_trim {c : Char} (h : c ∈ trim t) : c ∈ t := by
  have hend : c ∈ trimEnd t := (List.dropWhile_sublist _).mem h
  rw [← trimEnd_append_trailingWhite t]
  exact List.mem_append_left _ hend

/-- A character that is no white space is not trimmed away. -/
theorem mem_trimStart {c : Char} (hc : isWhite c = false) (h : c ∈ t) : c ∈ trimStart t := by
  rw [← leadingWhite_append_trimStart t] at h
  rcases List.mem_append.mp h with h | h
  · exact absurd h (not_mem_of_isBlank (isBlank_leadingWhite t) hc)
  · exact h

end Snippet.Text
