import Snippet.Proofs.Number.Separators
import Snippet.Proofs.Pattern.Letters
import Snippet.Proofs.Pattern.Taking

/-!
# Numbers with separators

What the last separator of a run of digits means is told by the separators in front of it and the
digits behind it (`resolve_point`, `resolve_comma`, `resolve_grouping`). A whole number may be
written in groups of three with a mark between them (`Grouped`), as the numbers that are shown are
(`grouped_groupThousands`), and is resolved to its digits (`Grouped.resolve_eq`).

In a text, a number is made of digits and separators, with a digit at both ends
(`reads_localizedNumber_iff`). It is read to its end where neither a digit nor a separator follows
(`takes_localizedNumber`).
-/

namespace Snippet

open Regex Pattern Number

variable {t u v w s g f : Text} {c mark : Char}

namespace Number

/-! ## Runs of digits and separators -/

theorem isSeparator_eq_false_of_isDigit (h : Text.isDigit c) : isSeparator c = false := by
  rw [isSeparator, Bool.or_eq_false_iff, beq_eq_false_iff_ne, beq_eq_false_iff_ne]
  constructor <;> rintro rfl <;> exact absurd h (by decide)

theorem isDigit_eq_false_of_isSeparator (h : isSeparator c) : c.isDigit = false := by
  rw [← Bool.not_eq_true]
  intro hdigit
  rw [isSeparator_eq_false_of_isDigit (Text.isDigit_of_isDigit hdigit)] at h
  cases h

/-- Digits of ASCII are no separators. -/
theorem forall_isSeparator_eq_false (h : ∀ c ∈ u, c.isDigit) : ∀ c ∈ u, isSeparator c = false :=
  fun c hc => isSeparator_eq_false_of_isDigit (Text.isDigit_of_isDigit (h c hc))

theorem digits_eq_self (h : ∀ c ∈ u, c.isDigit) : digits u = u := List.filter_eq_self.mpr h

theorem digits_append (a b : Text) : digits (a ++ b) = digits a ++ digits b := List.filter_append ..

theorem digits_cons (h : mark.isDigit = false) (t : Text) : digits (mark :: t) = digits t :=
  List.filter_cons_of_neg (by simp [h])

/-- Digits, and one kind of separator. -/
theorem any_isSeparator_eq_false (h : ∀ c ∈ s, c.isDigit ∨ c = mark) :
    s.any (fun c => isSeparator c && c != mark) = false := by
  rw [List.any_eq_false]
  intro c hc
  rcases h c hc with h | rfl
  · simp [isSeparator_eq_false_of_isDigit (Text.isDigit_of_isDigit h)]
  · simp

/-- A point behind digits and commas is the decimal mark. -/
theorem resolve_point (hs : ∀ c ∈ s, c.isDigit ∨ c = ',') (hf : ∀ c ∈ f, c.isDigit) :
    resolve (s ++ '.' :: f) = digits s ++ '.' :: f := by
  have hpoint : s.contains '.' = false := by
    rw [← Bool.not_eq_true, List.contains_iff_mem]
    intro hmem
    rcases hs '.' hmem with h | h <;> cases h
  have hmark : isDecimalMark s '.' f := by
    rw [isDecimalMark, hpoint]
    split <;> rfl
  rw [resolve_append rfl (forall_isSeparator_eq_false hf), if_pos hmark, digits_eq_self hf]

/-- A comma behind digits and points is the decimal mark if there is a point, or if the number of
digits behind it is not three. -/
theorem resolve_comma (hs : ∀ c ∈ s, c.isDigit ∨ c = '.') (hf : ∀ c ∈ f, c.isDigit)
    (h : '.' ∈ s ∨ f ≠ [] ∧ f.length ≠ 3) : resolve (s ++ ',' :: f) = digits s ++ '.' :: f := by
  have hcomma : s.contains ',' = false := by
    rw [← Bool.not_eq_true, List.contains_iff_mem]
    intro hmem
    rcases hs ',' hmem with h | h <;> cases h
  have hmark : isDecimalMark s ',' f := by
    rw [isDecimalMark, hcomma, Text.utf8Size_of_isDigit hf]
    rcases h with h | ⟨hne, hlength⟩
    · rw [if_pos (List.any_eq_true.mpr ⟨'.', h, rfl⟩)]
    · split
      · rfl
      · simp [hne, hlength]
  rw [resolve_append rfl (forall_isSeparator_eq_false hf), if_pos hmark, digits_eq_self hf]

/-- Separators of one kind group if there are several, and so does a comma in front of three
digits. -/
theorem resolve_grouping (hmark : isSeparator mark) (hs : ∀ c ∈ s, c.isDigit ∨ c = mark)
    (hg : ∀ c ∈ g, c.isDigit) (h : mark ∈ s ∨ mark = ',' ∧ g.length = 3) :
    resolve (s ++ mark :: g) = digits (s ++ mark :: g) := by
  have hgroups : isDecimalMark s mark g = false := by
    rw [isDecimalMark, any_isSeparator_eq_false hs, if_neg Bool.false_ne_true,
      Text.utf8Size_of_isDigit hg]
    rcases h with h | ⟨rfl, hlength⟩
    · rw [if_pos (List.contains_iff_mem.mpr h)]
    · split
      · rfl
      · simp [hlength]
  rw [resolve_append hmark (forall_isSeparator_eq_false hg), hgroups, if_neg Bool.false_ne_true]

/-! ## Groups of three -/

/-- The digits of a whole number in groups of three, counted from the end, with a mark in front of
every group but the first. -/
inductive Grouped (mark : Char) : (digits spelled : Text) → Prop where
  | first {g : Text} : g ≠ [] → g.length ≤ 3 → Grouped mark g g
  | group {w s g : Text} : Grouped mark w s → g.length = 3 → Grouped mark (w ++ g) (s ++ mark :: g)

namespace Grouped

theorem mem_or (h : Grouped mark w s) (hc : c ∈ s) : c ∈ w ∨ c = mark := by
  induction h with
  | first _ _ => exact .inl hc
  | group _ _ ih =>
    simp only [List.mem_append, List.mem_cons] at hc ⊢
    rcases hc with hc | rfl | hc
    · exact (ih hc).imp_left .inl
    · exact .inr rfl
    · exact .inl (.inr hc)

theorem digits_eq (h : Grouped mark w s) (hmark : mark.isDigit = false) (hw : ∀ c ∈ w, c.isDigit) :
    digits s = w := by
  induction h with
  | first _ _ => exact digits_eq_self hw
  | group _ _ ih =>
    rw [List.forall_mem_append] at hw
    rw [digits_append, digits_cons hmark, ih hw.1, digits_eq_self hw.2]

/-- A spelling with a mark, split at the last of its marks. -/
theorem eq_or_exists_group (h : Grouped mark w s) :
    s = w ∧ w.length ≤ 3 ∨ ∃ w' s' g, Grouped mark w' s' ∧ g.length = 3 ∧ w = w' ++ g ∧
      s = s' ++ mark :: g := by
  cases h with
  | first _ hlength => exact .inl ⟨rfl, hlength⟩
  | group h hlength => exact .inr ⟨_, _, _, h, hlength, rfl, rfl⟩

theorem mem_of_lt (h : Grouped mark w s) (hlength : 3 < w.length) : mark ∈ s := by
  rcases h.eq_or_exists_group with ⟨-, hle⟩ | ⟨w', s', g, -, -, -, rfl⟩
  · omega
  · simp

/-- A whole number in groups is resolved to its digits, if it has commas or at least two marks. -/
theorem resolve_eq (h : Grouped mark w s) (hmark : isSeparator mark) (hw : ∀ c ∈ w, c.isDigit)
    (hmarks : mark = ',' ∨ 7 ≤ w.length) : resolve s = w := by
  have hs : ∀ c ∈ s, c.isDigit ∨ c = mark := fun c hc => (h.mem_or hc).imp_left (hw c)
  have hdigits := h.digits_eq (isDigit_eq_false_of_isSeparator hmark) hw
  rcases h.eq_or_exists_group with ⟨rfl, -⟩ | ⟨w', s', g, hgroups, hlast, rfl, rfl⟩
  · exact resolve_eq_self (forall_isSeparator_eq_false hw)
  · rw [List.forall_mem_append] at hs hw
    refine (resolve_grouping hmark hs.1 hw.2 ?_).trans hdigits
    rcases hmarks with rfl | hlength
    · exact .inr ⟨rfl, hlast⟩
    · -- in front of the last group there are two at least
      rw [List.length_append] at hlength
      exact .inl (hgroups.mem_of_lt (by omega))

end Grouped

/-! ## The groups that are shown -/

theorem groupFrom_cons_cons (c d : Char) (t : Text) (n : Nat) :
    groupFrom (c :: d :: t) (n + 1) =
      if n % 3 = 0 then c :: ',' :: groupFrom (d :: t) n else c :: groupFrom (d :: t) n := by
  rw [groupFrom]
  · rfl
  · simp

theorem groupFrom_of_length_le (h : t.length ≤ 3) : groupFrom t t.length = t := by
  match t, h with
  | [], _ => rfl
  | [_], _ => rfl
  | [_, _], _ => rfl
  | [_, _, _], _ => rfl

/-- The last three digits are a group of their own. -/
theorem groupFrom_append (hne : t ≠ []) (hg : g.length = 3) :
    groupFrom (t ++ g) (t.length + 3) = groupFrom t t.length ++ ',' :: g := by
  induction t with
  | nil => exact absurd rfl hne
  | cons c t ih =>
    cases t with
    | nil =>
      match g, hg with
      | [x, y, z], _ =>
        have hlast : groupFrom [x, y, z] 3 = [x, y, z] := groupFrom_of_length_le (Nat.le_refl 3)
        exact (groupFrom_cons_cons c x [y, z] 3).trans (by rw [hlast]; rfl)
    | cons d t =>
      have hrest := ih (List.cons_ne_nil d t)
      rw [List.cons_append] at hrest
      rw [List.cons_append, List.cons_append, List.length_cons, Nat.add_right_comm,
        groupFrom_cons_cons, groupFrom_cons_cons, Nat.add_mod_right, hrest]
      split <;> rfl

/-- **A whole number is grouped in the American manner.** -/
theorem grouped_groupThousands (hne : t ≠ []) (h : ∀ c ∈ t, c.isDigit) :
    Grouped ',' t (groupThousands t) := by
  rw [groupThousands, Text.utf8Size_of_isDigit h]
  clear h
  induction hn : t.length using Nat.strong_induction_on generalizing t with
  | _ n ih =>
    subst hn
    by_cases hle : t.length ≤ 3
    · rw [groupFrom_of_length_le hle]
      exact .first hne hle
    · obtain ⟨w, g, rfl, hg⟩ : ∃ w g, t = w ++ g ∧ g.length = 3 :=
        ⟨t.take (t.length - 3), t.drop (t.length - 3), by simp, by simp; omega⟩
      rw [List.length_append, hg] at hle
      have hwne : w ≠ [] := by
        rintro rfl
        simp at hle
      rw [List.length_append, hg, groupFrom_append hwne hg]
      exact .group (ih w.length (by simp [hg]) hwne rfl) hg

end Number

namespace Pattern

/-! ## Numbers in a text -/

theorem isNumberChar_of_isSeparator (h : isSeparator c) : isNumberChar c := by
  rw [isNumberChar, Bool.or_assoc]
  exact Bool.or_eq_true_iff.mpr (.inr h)

/-- A number is made of digits and separators, and starts and ends with a digit. -/
theorem reads_localizedNumber_iff : localizedNumber.regex.Reads u ↔
    (∀ c ∈ u, isNumberChar c) ∧ u.head?.any Text.isDigit ∧ u.getLast?.any Text.isDigit := by
  constructor
  · refine fun h => ⟨forall_mem_of_localizedNumber h, ?_⟩
    rcases reads_alt_iff.mp h with h | h
    · obtain ⟨a, t, rfl, ha, ht⟩ := reads_seq_iff.mp h
      obtain ⟨x, rfl, hx⟩ := reads_one_iff.mp ha
      obtain ⟨m, b, rfl, -, hb⟩ := reads_seq_iff.mp ht
      obtain ⟨y, rfl, hy⟩ := reads_one_iff.mp hb
      refine ⟨hx, ?_⟩
      rw [← List.append_assoc, List.getLast?_concat]
      exact hy
    · obtain ⟨x, rfl, hx⟩ := reads_one_iff.mp h
      exact ⟨hx, hx⟩
  · rintro ⟨h, hhead, hlast⟩
    cases u with
    | nil => cases hhead
    | cons c u =>
      rcases List.eq_nil_or_concat u with rfl | ⟨m, d, rfl⟩
      · exact .right (.one hhead)
      · rw [List.concat_eq_append, ← List.cons_append, List.getLast?_concat] at hlast
        have hm : ∀ x ∈ m, isNumberChar x := fun x hx => h x (by simp [hx])
        rw [List.concat_eq_append]
        exact .left (.seq (u := [c]) (.one hhead) (.seq (reads_star_one_iff.mpr hm) (.one hlast)))

theorem reads_localizedNumber_of_forall (hne : u ≠ []) (h : ∀ c ∈ u, c.isDigit) :
    localizedNumber.regex.Reads u := by
  have hdigit : ∀ c ∈ u, Text.isDigit c := fun c hc => Text.isDigit_of_isDigit (h c hc)
  rw [reads_localizedNumber_iff, List.head?_eq_some_head hne, List.getLast?_eq_some_getLast hne]
  exact ⟨fun c hc => isNumberChar_of_isDigit (hdigit c hc), hdigit _ (List.head_mem hne),
    hdigit _ (List.getLast_mem hne)⟩

/-- Two numbers with a separator between them are a number. -/
theorem reads_localizedNumber_append (hu : localizedNumber.regex.Reads u)
    (hmark : isSeparator mark) (hv : localizedNumber.regex.Reads v) :
    localizedNumber.regex.Reads (u ++ mark :: v) := by
  obtain ⟨huchars, hhead, -⟩ := reads_localizedNumber_iff.mp hu
  obtain ⟨hvchars, -, hlast⟩ := reads_localizedNumber_iff.mp hv
  refine reads_localizedNumber_iff.mpr ⟨?_, ?_, ?_⟩
  · exact List.forall_mem_append.mpr
      ⟨huchars, List.forall_mem_cons.mpr ⟨isNumberChar_of_isSeparator hmark, hvchars⟩⟩
  · cases u with
    | nil => cases hhead
    | cons c u => exact hhead
  · rcases List.eq_nil_or_concat v with rfl | ⟨v, d, rfl⟩
    · cases hlast
    · rw [List.concat_eq_append, List.getLast?_concat] at hlast
      rw [List.concat_eq_append, ← List.cons_append, ← List.append_assoc, List.getLast?_concat]
      exact hlast

/-- A number is read to its end where neither a digit nor a separator follows. -/
theorem takes_localizedNumber (h : localizedNumber.regex.Reads u) :
    Takes localizedNumber.regex u (NoneNext isNumberChar) noGroups := by
  intro c v hc hv
  rcases reads_alt_iff.mp h with h | h
  · obtain ⟨a, -, rfl, ha, m, b, rfl, hm, hb⟩ := by simpa only [all, reads_seq_iff] using h
    obtain ⟨x, rfl, hx⟩ := reads_one_iff.mp ha
    obtain ⟨y, rfl, hy⟩ := reads_one_iff.mp hb
    rw [List.append_assoc, List.append_assoc] at hc
    have hend : ∀ z ∈ v.head?, ¬ isNumberChar z := fun z hz => by simp [hv z hz]
    have hrest := Prefers.many_one (p := isNumberChar) (c := c.after [x] (m ++ y :: v) [])
      (fun _ => isNumberChar_of_isDigit) rfl (reads_star_one_iff.mp hm) hy hend
    exact ((Prefers.one (p := Text.isDigit) hc hx).seq hrest).left
  · obtain ⟨x, rfl, hx⟩ := reads_one_iff.mp h
    refine .right (outcomes_eq_nil fun a b hab hread => ?_) (.one hc hx)
    -- a longer number would go on with a character of a number
    have hchars := forall_mem_of_localizedNumber (.left hread)
    obtain ⟨a, t, rfl, ha, ht⟩ := reads_seq_iff.mp hread
    obtain ⟨z, rfl, hz⟩ := reads_one_iff.mp ha
    obtain ⟨m, d, rfl, -, hd⟩ := reads_seq_iff.mp ht
    obtain ⟨y, rfl, hy⟩ := reads_one_iff.mp hd
    have hv' : v = m ++ [y] ++ b := (List.cons.inj (hc.symm.trans hab)).2
    obtain ⟨e, t, ht⟩ := List.exists_cons_of_ne_nil (show m ++ [y] ≠ [] by simp)
    have hfalse := hv e (by rw [hv', ht]; rfl)
    rw [hchars e (by simp [ht])] at hfalse
    cases hfalse

end Pattern

/-- A whole number in groups is a number. -/
theorem Number.Grouped.reads (h : Grouped mark w s) (hmark : isSeparator mark)
    (hw : ∀ c ∈ w, c.isDigit) : localizedNumber.regex.Reads s := by
  induction h with
  | first hne _ => exact reads_localizedNumber_of_forall hne hw
  | @group w s g _ hlength ih =>
    have hne : g ≠ [] := by
      rintro rfl
      cases hlength
    rw [List.forall_mem_append] at hw
    exact reads_localizedNumber_append (ih hw.1) hmark (reads_localizedNumber_of_forall hne hw.2)

end Snippet
