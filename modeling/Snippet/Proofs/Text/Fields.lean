import Snippet.Proofs.Text.Trimming

/-!
# The fields of a text

The pieces of a text between the characters of a class are those of the library
(`splitWhere_eq_splitOnP`), so the first piece is what stands in front of the first such character
(`splitWhere_eq`). White space around the text only comes to the first and the last piece, and is
trimmed away with theirs (`map_trim_splitOnP_trim`).
-/

namespace Snippet.Text

variable {p : Char → Bool} {t w : Text}

theorem splitWhere_eq_splitOnP (p : Char → Bool) (t : Text) : splitWhere p t = t.splitOnP p := by
  induction t with
  | nil => rfl
  | cons c t ih =>
    rw [splitWhere, List.splitOnP_cons_eq_if_modifyHead, ih]
    split
    · rfl
    · obtain ⟨field, fields, hfields⟩ := List.exists_cons_of_ne_nil (List.splitOnP_ne_nil p t)
      rw [hfields]
      rfl

/-- A text without characters of a class, or split at the first of them. -/
theorem forall_or_exists_first (p : Char → Bool) (t : Text) :
    (∀ x ∈ t, p x = false) ∨ ∃ a c b, t = a ++ c :: b ∧ p c ∧ ∀ x ∈ a, p x = false := by
  cases hfind : List.find? p t with
  | none =>
    refine .inl fun x hx => ?_
    simpa using List.find?_eq_none.mp hfind x hx
  | some c =>
    obtain ⟨hc, a, b, rfl, ha⟩ := List.find?_eq_some_iff_append.mp hfind
    exact .inr ⟨a, c, b, rfl, hc, fun x hx => by simpa using ha x hx⟩

/-- A text without characters of a class, or split at the last of them. -/
theorem forall_or_exists_last (p : Char → Bool) (t : Text) :
    (∀ x ∈ t, p x = false) ∨ ∃ a c b, t = a ++ c :: b ∧ p c ∧ ∀ x ∈ b, p x = false := by
  rcases forall_or_exists_first p t.reverse with h | ⟨a, c, b, hsplit, hc, ha⟩
  · exact .inl fun x hx => h x (List.mem_reverse.mpr hx)
  · refine .inr ⟨b.reverse, c, a.reverse, ?_, hc, fun x hx => ha x (List.mem_reverse.mp hx)⟩
    rw [← List.reverse_reverse t, hsplit]
    simp

theorem splitWhere_eq (p : Char → Bool) (t : Text) :
    ∃ ws, splitWhere p t = t.takeWhile (!p ·) :: ws := by
  rw [splitWhere_eq_splitOnP]
  rcases forall_or_exists_first p t with h | ⟨a, c, b, rfl, hc, ha⟩
  · refine ⟨[], ?_⟩
    rw [List.splitOnP_eq_singleton h, List.takeWhile_eq_self_iff.mpr fun x hx => by simp [h x hx]]
  · refine ⟨b.splitOnP p, ?_⟩
    rw [List.splitOnP_append_cons_of_forall_mem ha c hc,
      List.takeWhile_append_of_pos fun x hx => by simp [ha x hx],
      List.takeWhile_cons_of_neg (by simp [hc]), List.append_nil]

/-- Joined fields are the first one and the others, each behind a separator. -/
theorem join_cons (sep t : Text) (ts : List Text) :
    join sep (t :: ts) = t ++ ts.flatMap (sep ++ ·) := by
  induction ts generalizing t with
  | nil => exact (List.append_nil t).symm
  | cons u ts ih =>
    rw [join, ih, List.flatMap_cons, List.append_assoc, List.append_assoc]
    exact List.cons_ne_nil u ts

section

variable (hp : ∀ c, isWhite c → p c = false)
include hp

/-- White space in front of a text is trimmed away from its first piece. -/
theorem map_trim_splitOnP_append_left (hw : isBlank w) :
    ((w ++ t).splitOnP p).map trim = (t.splitOnP p).map trim := by
  have hwp : ∀ x ∈ w, p x = false := fun x hx => hp x (isWhite_of_isBlank hw hx)
  have htrim : ∀ a, trim (w ++ a) = trim a := fun a => by
    simpa using trim_between (t := a) hw (rfl : isBlank ([] : Text))
  rcases forall_or_exists_first p t with h | ⟨a, c, b, rfl, hc, ha⟩
  · rw [List.splitOnP_eq_singleton (List.forall_mem_append.mpr ⟨hwp, h⟩),
      List.splitOnP_eq_singleton h, List.map_singleton, List.map_singleton, htrim]
  · rw [← List.append_assoc,
      List.splitOnP_append_cons_of_forall_mem (List.forall_mem_append.mpr ⟨hwp, ha⟩) c hc,
      List.splitOnP_append_cons_of_forall_mem ha c hc, List.map_cons, List.map_cons, htrim]

/-- White space behind a text is trimmed away from its last piece. -/
theorem map_trim_splitOnP_append_right (hw : isBlank w) :
    ((t ++ w).splitOnP p).map trim = (t.splitOnP p).map trim := by
  have hwp : ∀ x ∈ w, p x = false := fun x hx => hp x (isWhite_of_isBlank hw hx)
  have hlast : ∀ a, (∀ x ∈ a, p x = false) →
      ((a ++ w).splitOnP p).map trim = (a.splitOnP p).map trim := fun a ha => by
    have htrim : trim (a ++ w) = trim a := trim_between (rfl : isBlank ([] : Text)) hw
    rw [List.splitOnP_eq_singleton (List.forall_mem_append.mpr ⟨ha, hwp⟩),
      List.splitOnP_eq_singleton ha, List.map_singleton, List.map_singleton, htrim]
  rcases forall_or_exists_last p t with h | ⟨a, c, b, rfl, hc, hb⟩
  · exact hlast t h
  · rw [List.append_assoc, List.cons_append, List.splitOnP_append_cons _ _ hc,
      List.splitOnP_append_cons _ _ hc, List.map_append, List.map_append, hlast b hb]

/-- **The trimmed pieces of a text are those of the trimmed text.** -/
theorem map_trim_splitOnP_trim (t : Text) :
    ((trim t).splitOnP p).map trim = (t.splitOnP p).map trim := by
  by_cases h : isBlank t
  · have hall : ∀ x ∈ t, p x = false := fun x hx => hp x (List.all_eq_true.mp h x hx)
    rw [trim_eq_nil_iff.mpr h, List.splitOnP_eq_singleton hall, List.map_singleton,
      trim_eq_nil_iff.mpr h]
    rfl
  · conv_rhs => rw [← leadingWhite_append_trim_append_trailingWhite h]
    rw [map_trim_splitOnP_append_left hp (isBlank_leadingWhite t),
      map_trim_splitOnP_append_right hp (isBlank_trailingWhite t)]

end

end Snippet.Text
