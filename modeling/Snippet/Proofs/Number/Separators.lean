import Mathlib.Data.List.TakeWhile
import Snippet.Number.Separators
import Snippet.Proofs.Pattern.Shapes
import Snippet.Proofs.Text.Fields

/-!
# What the resolution of separators keeps

Separators are resolved inside numbers only, so every character that belongs to no number is kept in
order (`filter_resolveAll`), and no character comes up that was not there, the point apart
(`mem_of_mem_resolveAll`).
-/

namespace Snippet.Number

open Pattern (isNumberChar)

variable {t u : Text} {c : Char}

theorem forall_mem_of_localizedNumber (h : Pattern.localizedNumber.regex.Reads u) :
    ∀ c ∈ u, isNumberChar c := by
  have hdigit : Regex.digit.Over (isNumberChar ·) := fun _ => Pattern.isNumberChar_of_isDigit
  exact h.forall_mem ⟨⟨hdigit, fun _ => id, hdigit⟩, hdigit⟩

/-- The parts around the last separator make up the text. -/
theorem eq_append_of_splitLastSeparator? {before after : Text}
    (h : splitLastSeparator? t = some (before, c, after)) : t = before ++ c :: after := by
  unfold splitLastSeparator? at h
  split at h
  · cases h
  · rename_i mark before' hdrop
    obtain ⟨rfl, rfl, rfl⟩ : before'.reverse = before ∧ mark = c ∧ _ = after := by simpa using h
    have hparts := List.takeWhile_append_dropWhile (p := fun c => !isSeparator c) (l := t.reverse)
    rw [hdrop] at hparts
    simpa [Text.takeWhileEnd] using (congrArg List.reverse hparts).symm

theorem splitLastSeparator?_eq_none (h : ∀ c ∈ t, isSeparator c = false) :
    splitLastSeparator? t = none := by
  have hdrop : t.reverse.dropWhile (fun c => !isSeparator c) = [] :=
    List.dropWhile_eq_nil_iff.mpr fun c hc => by simp [h c (List.mem_reverse.mp hc)]
  rw [splitLastSeparator?, hdrop]

theorem splitLastSeparator?_append {before after : Text} (hc : isSeparator c)
    (h : ∀ x ∈ after, isSeparator x = false) :
    splitLastSeparator? (before ++ c :: after) = some (before, c, after) := by
  have hrest : ∀ x ∈ after.reverse, !isSeparator x := fun x hx => by
    simp [h x (List.mem_reverse.mp hx)]
  have hreverse : (before ++ c :: after).reverse = after.reverse ++ c :: before.reverse := by simp
  have hdrop : (before ++ c :: after).reverse.dropWhile (fun c => !isSeparator c) =
      c :: before.reverse := by
    rw [hreverse, List.dropWhile_append_of_pos hrest, List.dropWhile_cons_of_neg (by simp [hc])]
  have htake : Text.takeWhileEnd (fun c => !isSeparator c) (before ++ c :: after) = after := by
    rw [Text.takeWhileEnd, hreverse, List.takeWhile_append_of_pos hrest,
      List.takeWhile_cons_of_neg (by simp [hc]), List.append_nil, List.reverse_reverse]
  rw [splitLastSeparator?, hdrop, htake]
  simp

/-- A text with a separator, split at the last one. -/
theorem exists_last_separator (h : ∃ c ∈ t, isSeparator c) : ∃ before mark after,
    isSeparator mark ∧ (∀ x ∈ after, isSeparator x = false) ∧ t = before ++ mark :: after := by
  rcases Text.forall_or_exists_last isSeparator t with hnone | ⟨before, mark, after, ht, hmark, hafter⟩
  · obtain ⟨c, hc, hsep⟩ := h
    rw [hnone c hc] at hsep
    cases hsep
  · exact ⟨before, mark, after, hmark, hafter, ht⟩

/-! ## What a run is resolved to -/

/-- A run without separators is kept. -/
theorem resolve_eq_self (h : ∀ c ∈ t, isSeparator c = false) : resolve t = t := by
  rw [resolve, splitLastSeparator?_eq_none h]

theorem resolve_append {before after : Text} (hc : isSeparator c)
    (h : ∀ x ∈ after, isSeparator x = false) :
    resolve (before ++ c :: after) =
      if isDecimalMark before c after then digits before ++ '.' :: digits after
      else digits (before ++ c :: after) := by
  rw [resolve, splitLastSeparator?_append hc h]

/-- A run is resolved to its own characters and a point. -/
theorem mem_of_mem_resolve (h : c ∈ resolve u) : c ∈ u ∨ c = '.' := by
  unfold resolve at h
  split at h
  · exact .inl h
  · rename_i before mark after hsplit
    have hu := eq_append_of_splitLastSeparator? hsplit
    split at h
    · rcases List.mem_append.mp h with h | h
      · exact .inl (by simp [hu, (List.mem_filter.mp h).1])
      · rcases List.mem_cons.mp h with rfl | h
        · exact .inr rfl
        · exact .inl (by simp [hu, (List.mem_filter.mp h).1])
    · exact .inl (List.mem_filter.mp h).1

/-- A run of characters of numbers is resolved to such characters. -/
theorem forall_mem_resolve (h : ∀ c ∈ u, isNumberChar c) : ∀ c ∈ resolve u, isNumberChar c := by
  intro c hc
  rcases mem_of_mem_resolve hc with hc | rfl
  · exact h c hc
  · decide

/-- **Whatever belongs to no number is kept in order.** -/
theorem filter_resolveAll (t : Text) :
    (resolveAll t).filter (!isNumberChar ·) = t.filter (!isNumberChar ·) := by
  have hnil : ∀ u : Text, (∀ c ∈ u, isNumberChar c) → u.filter (!isNumberChar ·) = [] := by
    intro u hu
    rw [List.filter_eq_nil_iff]
    intro c hc
    simp [hu c hc]
  have hreplaces := Pattern.localizedNumber.replaces resolve t
  refine hreplaces.eq_of_hom (fun a b => List.filter_append ..) fun u hu => ?_
  have hchars := forall_mem_of_localizedNumber (hreplaces.reads hu)
  rw [hnil u hchars, hnil _ (forall_mem_resolve hchars)]

theorem mem_of_mem_resolveAll (h : c ∈ resolveAll t) : c ∈ t ∨ c = '.' := by
  rcases (Pattern.localizedNumber.replaces resolve t).mem_or h with h | ⟨u, hu, h⟩
  · exact .inl h
  · exact (mem_of_mem_resolve h).imp_left (hu c)

/-- A character that belongs to no number is not lost. -/
theorem mem_resolveAll (hc : isNumberChar c = false) (h : c ∈ t) : c ∈ resolveAll t := by
  have hmem : c ∈ t.filter (!isNumberChar ·) := List.mem_filter.mpr ⟨h, by simp [hc]⟩
  rw [← filter_resolveAll] at hmem
  exact (List.mem_filter.mp hmem).1

end Snippet.Number
