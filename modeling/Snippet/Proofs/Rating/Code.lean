import Snippet.Proofs.Pattern.Demands
import Snippet.Proofs.Text.Trimming
import Snippet.Rating.Detector

/-!
# Written rating codes

A rating code has up to three digits, a word in front of them, a percent sign behind them, or both
(`Rating.Code`). The pattern reads the same percentage off every way to write it
(`Rating.Code.percentage?_text`).
-/

namespace Snippet

open Regex Pattern

variable {v : Text} {x : Char}

/-! ## Percent signs -/

/-- Nothing, or a percent sign behind white space. -/
inductive IsPercentMark : Text → Prop where
  | none : IsPercentMark []
  | sign {w : Text} : Text.isBlank w → IsPercentMark (w ++ ['%'])

namespace IsPercentMark

theorem mem_cases (h : IsPercentMark v) (hx : x ∈ v) : Text.isWhite x ∨ x = '%' := by
  cases h with
  | none => cases hx
  | sign hw =>
    rcases List.mem_append.mp hx with hx | hx
    · exact .inl (Text.isWhite_of_isBlank hw hx)
    · exact .inr (List.mem_singleton.mp hx)

theorem exists_of_ne_nil (h : IsPercentMark v) (hne : v ≠ []) :
    ∃ w, Text.isBlank w ∧ v = w ++ ['%'] := by
  cases h with
  | none => exact absurd rfl hne
  | @sign w hw => exact ⟨w, hw, rfl⟩

theorem getLast?_eq (h : IsPercentMark v) : ∀ x ∈ v.getLast?, x = '%' := by
  cases h with
  | none => simp
  | sign hw => simp

theorem isDigit_eq_false (h : IsPercentMark v) (hx : x ∈ v) : Text.isDigit x = false := by
  rcases h.mem_cases hx with hwhite | rfl
  · rw [← Bool.not_eq_true]
    intro hdigit
    rw [Text.isWhite_eq_false_of_isDigit hdigit] at hwhite
    cases hwhite
  · decide

/-- The white space and the sign are read one after the other. -/
theorem exists_reads (h : IsPercentMark v) :
    ∃ a b, v = a ++ b ∧ (many white).Reads a ∧ (opt (Regex.char '%')).Reads b := by
  cases h with
  | none => exact ⟨[], [], rfl, .stop, .right .empty⟩
  | @sign w hw =>
    exact ⟨w, ['%'], rfl, reads_star_one_iff.mpr (List.all_eq_true.mp hw), .left (.one rfl)⟩

theorem takes (h : IsPercentMark v) :
    Takes (all [many white, opt (Regex.char '%')]) v (· = []) noGroups := by
  have hstarts : (Regex.char '%').Starts (· == '%') := fun _ => id
  cases h with
  | none =>
    have hblank : Text.isBlank [] := rfl
    exact (Takes.white hblank).seq ((Takes.opt_nil hstarts).mono noneNext_of_eq_nil)
      noneNext_of_eq_nil
  | sign hw => exact (Takes.white hw).followedBy (Takes.char '%').opt.of_anything (.cons rfl)

end IsPercentMark

/-! ## Codes -/

namespace Rating

/-- The branch of the pattern with a word. -/
def wordedCode : Regex :=
  all [words ["pd", "rating"], many white, group 1 (timesUpTo digit 1 2), many white,
    opt (Regex.char '%')]

/-- The branch of the pattern without a word. -/
def bareCode : Regex := all [group 2 (timesUpTo digit 1 2), many white, Regex.char '%']

/-- A rating code as it is written. -/
structure Code where
  word : Text
  /-- The white space behind the word. -/
  gap : Text
  digits : Text
  mark : Text
  lower_word : word = [] ∧ gap = [] ∨ Text.lower word ∈ ["pd".toList, "rating".toList]
  isBlank_gap : Text.isBlank gap
  digits_ne_nil : digits ≠ []
  length_digits : digits.length ≤ 3
  isDigit_digits : ∀ c ∈ digits, c.isDigit
  isPercentMark : IsPercentMark mark
  /-- There is a word or a percent sign. -/
  word_or_mark : word ≠ [] ∨ mark ≠ []

namespace Code

/-- The text of a code. -/
def text (c : Code) : Text := c.word ++ (c.gap ++ (c.digits ++ c.mark))

/-- The percentage that a code states. -/
def percentage (c : Code) : Nat := Decimal.natOf c.digits

variable (c : Code)

theorem nat?_digits : Decimal.nat? c.digits = some c.percentage := by
  have hall : c.digits.all Char.isDigit := List.all_eq_true.mpr c.isDigit_digits
  have hne : c.digits.isEmpty = false := List.isEmpty_eq_false_iff.mpr c.digits_ne_nil
  rw [Decimal.nat?, hall, hne]
  rfl

theorem takes_digits : Takes (timesUpTo digit 1 2) c.digits (NoneNext Text.isDigit) noGroups :=
  .timesUpTo (List.length_pos_iff.mpr c.digits_ne_nil) c.length_digits fun x hx =>
    Text.isDigit_of_isDigit (c.isDigit_digits x hx)

theorem noneNext_mark : NoneNext Text.isDigit c.mark := fun _ hx =>
  c.isPercentMark.isDigit_eq_false (List.mem_of_mem_head? hx)

/-- No class without digits goes on at the digits. -/
theorem startsOutside_digits {p : Char → Bool} (hp : ∀ x : Char, x.isDigit → p x = false) :
    StartsOutside p c.digits := by
  obtain ⟨x, t, hdigits⟩ := List.exists_cons_of_ne_nil c.digits_ne_nil
  rw [hdigits]
  exact .cons (hp x (c.isDigit_digits x (by simp [hdigits])))

/-- No letter comes behind the word. -/
theorem startsOutside_gap : StartsOutside Text.isForm (c.gap ++ (c.digits ++ c.mark)) := by
  cases hgap : c.gap with
  | nil =>
    exact (c.startsOutside_digits fun x hx =>
      Text.isForm_eq_false_of_isDigit (Text.isDigit_of_isDigit hx)).append _
  | cons x t =>
    have hblank := c.isBlank_gap
    rw [hgap] at hblank
    have hwhite := Text.isWhite_of_isBlank hblank (List.mem_cons_self ..)
    exact .cons (Text.isForm_eq_false_of_isWhite hwhite)

/-- The word of a code is read as one of the two. -/
theorem takes_word (h : Text.lower c.word ∈ ["pd".toList, "rating".toList]) :
    Takes (words ["pd", "rating"]) c.word (NoneNext Text.isForm) noGroups := by
  have hlower : ∀ w ∈ ["pd", "rating"], w.toList.all Char.isLower := by decide
  obtain ⟨w, hw, heq⟩ : ∃ w ∈ ["pd", "rating"], Text.lower c.word = w.toList := by
    simpa using h
  exact spells_words hlower (by decide) hw (Text.map_foldCase_eq_of_lower (hlower w hw) heq)

/-- A word, white space, the digits and a percent sign or none. -/
theorem takes_worded (h : Text.lower c.word ∈ ["pd".toList, "rating".toList]) :
    Takes wordedCode c.text (· = []) fun k => [(1, ⟨k + c.word.length + c.gap.length,
      k + c.word.length + c.gap.length + c.digits.length⟩)] := by
  have hdigits := (c.takes_digits.group 1).seq c.isPercentMark.takes fun v hv => by
    rw [hv, List.append_nil]
    exact c.noneNext_mark
  have hgap := (Takes.white c.isBlank_gap).followedBy hdigits
    ((c.startsOutside_digits fun x hx =>
      Text.isWhite_eq_false_of_isDigit (Text.isDigit_of_isDigit hx)).append _)
  exact (c.takes_word h).followedBy hgap c.startsOutside_gap

/-- The digits and a percent sign. -/
theorem takes_bare (h : c.mark ≠ []) :
    Takes bareCode (c.digits ++ c.mark) Anything fun k => [(2, ⟨k, k + c.digits.length⟩)] := by
  obtain ⟨w, hw, hmark⟩ := c.isPercentMark.exists_of_ne_nil h
  have hsign := (Takes.white hw).followedBy (Takes.char '%') (.cons rfl)
  have hdigits := c.noneNext_mark
  rw [hmark] at hdigits ⊢
  refine (c.takes_digits.group 2).seq hsign fun v _ x hx => hdigits x ?_
  rwa [List.head?_append_of_ne_nil _ (by simp)] at hx

/-- A code without a word is read by the second branch, as a digit is not the start of a word. -/
theorem prefers_bare (hword : c.word = []) (htext : c.text = c.digits ++ c.mark) :
    percentageCode.regex.Prefers (.start (.start c.text)) c.text []
      [(2, ⟨0, 0 + c.digits.length⟩)] := by
  have hnone : wordedCode.outcomes (.start (.start c.text)) = [] := by
    have hlower : ∀ w ∈ ["pd", "rating"], w.toList.all Char.isLower ∧ w.toList ≠ [] := by decide
    refine outcomes_eq_nil_of_starts (p := (Text.isForm ·)) (.inl (starts_anyOf ?_)) ?_
    · rw [List.forall_mem_map]
      exact fun w hw => starts_word (hlower w hw).1 (hlower w hw).2
    · obtain ⟨x, t, hdigits, hx⟩ := c.startsOutside_digits (p := Text.isForm) fun x hx =>
        Text.isForm_eq_false_of_isDigit (Text.isDigit_of_isDigit hx)
      simp [Cursor.start, Place.start, htext, hdigits, hx]
  have hmark : c.mark ≠ [] := c.word_or_mark.neg_resolve_left hword
  have hread : Prefers bareCode (.start (.start c.text)) (c.digits ++ c.mark) [] _ :=
    c.takes_bare hmark (by simp [Cursor.start, Place.start, htext]) trivial
  rw [← htext] at hread
  exact .right hnone hread

/-- The digits are those of the group that was recorded. -/
theorem percentage?_eq {t : Text} {m : Match} {span : Span} {i : Nat} (hi : i = 1 ∨ i = 2)
    (hfull : percentageCode.full? t = some m) (hgroups : m.groups = [(i, span)]) :
    percentage? t = Decimal.nat? (span.of t) := by
  obtain ⟨whole, groups⟩ := m
  obtain rfl : groups = _ := hgroups
  rw [percentage?, hfull]
  rcases hi with rfl | rfl <;> rfl

/-- **A code states its percentage however it is written.** -/
theorem percentage?_text : percentage? c.text = some c.percentage := by
  rcases c.lower_word with ⟨hword, hgap⟩ | hword
  · have htext : c.text = c.digits ++ c.mark := by rw [text, hword, hgap]; rfl
    rw [percentage?_eq (.inr rfl) (full?_of_prefers (c.prefers_bare hword htext)) rfl,
      Span.of_eq (i := 0) [] c.digits c.mark htext rfl, c.nat?_digits]
  · rw [percentage?_eq (.inl rfl) (full?_of_takes (c.takes_worded hword).left rfl) rfl,
      Span.of_eq (c.word ++ c.gap) c.digits c.mark (by simp [text]) (by simp), c.nat?_digits]

end Code

end Rating

end Snippet
