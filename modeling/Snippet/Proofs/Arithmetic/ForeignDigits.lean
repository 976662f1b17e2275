import Snippet.Proofs.Arithmetic.Cleaning
import Snippet.Proofs.Arithmetic.Numerals

/-!
# Digits of other scripts

The resolution of separators keeps the digits of ASCII only, but finds numbers in the digits of any
script. So it loses exactly the digits of other scripts in numbers with a separator
(`withoutSeparators_resolveAll_iff`). Where there are none, a text cleans to an expression only if
it has no other characters than those of clean expressions, of one percentage, and those that are
dropped (`isPermitted_of_clean?`).
-/

namespace Snippet

open Pattern

namespace Number

variable {s t t' u : Text} {us : List Text} {c : Char}

/-! ## Lost digits -/

/-- The characters of a text beside points and commas. -/
def withoutSeparators (t : Text) : Text := t.filter (!isSeparator ·)

/-- A run has a separator, and something else that is no digit of ASCII. -/
def LosesDigit (u : Text) : Prop :=
  (∃ c ∈ u, isSeparator c) ∧ ∃ c ∈ u, isSeparator c = false ∧ c.isDigit = false

instance (u : Text) : Decidable (LosesDigit u) :=
  decidable_of_iff (u.any isSeparator ∧ u.any fun c => !isSeparator c && !c.isDigit)
    (by simp [LosesDigit])

theorem withoutSeparators_append (a b : Text) :
    withoutSeparators (a ++ b) = withoutSeparators a ++ withoutSeparators b := List.filter_append ..

theorem mem_withoutSeparators : c ∈ withoutSeparators t ↔ c ∈ t ∧ isSeparator c = false := by
  simp [withoutSeparators]

theorem withoutSeparators_digits (t : Text) : withoutSeparators (digits t) = digits t := by
  rw [withoutSeparators, List.filter_eq_self]
  intro c hc
  simp [isSeparator_eq_false_of_isDigit (Text.isDigit_of_isDigit (List.mem_filter.mp hc).2)]

theorem digits_eq_filter (t : Text) : digits t = (withoutSeparators t).filter Char.isDigit := by
  rw [withoutSeparators, List.filter_filter]
  refine List.filter_congr fun c _ => ?_
  cases hc : c.isDigit
  · rfl
  · simp [isSeparator_eq_false_of_isDigit (Text.isDigit_of_isDigit hc)]

/-- Of a run with a separator its digits are kept. -/
theorem withoutSeparators_resolve (h : ∃ c ∈ u, isSeparator c) :
    withoutSeparators (resolve u) = digits u := by
  obtain ⟨before, mark, after, hmark, hafter, rfl⟩ := exists_last_separator h
  rw [resolve_append hmark hafter]
  split
  · have hpoint : withoutSeparators ('.' :: digits after) = digits after :=
      (List.filter_cons_of_neg (by decide)).trans (withoutSeparators_digits after)
    rw [withoutSeparators_append, withoutSeparators_digits, hpoint, digits_append,
      digits_cons (isDigit_eq_false_of_isSeparator hmark)]
  · exact withoutSeparators_digits _

/-- **A run keeps its digits exactly if it has no separator or all its digits are of ASCII.** -/
theorem withoutSeparators_resolve_eq_iff :
    withoutSeparators (resolve u) = withoutSeparators u ↔ ¬ LosesDigit u := by
  by_cases h : ∃ c ∈ u, isSeparator c
  · rw [withoutSeparators_resolve h, digits_eq_filter, List.filter_eq_self]
    simp only [mem_withoutSeparators, LosesDigit, h, true_and, not_exists, not_and, and_imp,
      Bool.not_eq_false]
  · have hnone : ∀ c ∈ u, isSeparator c = false := by simpa using h
    rw [resolve_eq_self hnone]
    exact iff_of_true rfl fun hloses => h hloses.1

theorem length_withoutSeparators_resolve_le (u : Text) :
    (withoutSeparators (resolve u)).length ≤ (withoutSeparators u).length := by
  by_cases h : ∃ c ∈ u, isSeparator c
  · rw [withoutSeparators_resolve h, digits_eq_filter]
    exact List.length_filter_le ..
  · have hnone : ∀ c ∈ u, isSeparator c = false := by simpa using h
    rw [resolve_eq_self hnone]

/-- **The resolution of separators keeps every digit of a text exactly if no number of the text
loses one.** -/
theorem withoutSeparators_resolveAll_iff (s : Text) :
    withoutSeparators (resolveAll s) = withoutSeparators s ↔
      ∀ m ∈ localizedNumber.findAll s, ¬ LosesDigit (m.text s) := by
  have hiff := ((localizedNumber.replaces resolve s).eq_iff_of_hom withoutSeparators_append
    fun u _ => length_withoutSeparators_resolve_le u).2
  simp only [List.forall_mem_map, withoutSeparators_resolve_eq_iff] at hiff
  exact hiff

/-! ## Texts in which no digit is lost -/

section

variable (h : Replaces localizedNumber.regex resolve t us t') (hus : ∀ u ∈ us, ¬ LosesDigit u)

include h

/-- A character outside of numbers does not come of one. -/
theorem not_mem_resolve_of_replaces (hc : isNumberChar c = false) : ∀ u ∈ us, c ∉ resolve u := by
  intro u hu hmem
  rw [forall_mem_resolve (forall_mem_of_localizedNumber (h.reads hu)) c hmem] at hc
  cases hc

include hus

theorem mem_of_replaces (hc : c ∈ t) (hsep : isSeparator c = false) : c ∈ t' := by
  have hkept : withoutSeparators t' = withoutSeparators t :=
    h.eq_of_hom withoutSeparators_append fun u hu => withoutSeparators_resolve_eq_iff.mpr (hus u hu)
  have hmem := mem_withoutSeparators.mpr ⟨hc, hsep⟩
  rw [← hkept] at hmem
  exact (mem_withoutSeparators.mp hmem).1

/-- Nothing is left only of nothing. -/
theorem eq_nil_of_replaces (ht' : t' = []) : t = [] := by
  have hkept : ∀ c ∈ t, isSeparator c = false → c ∈ t' := fun c => mem_of_replaces h hus
  cases h with
  | nil => rfl
  | keep _ => cases ht'
  | @piece u v v' us hread _ =>
    obtain ⟨-, hhead, -⟩ := reads_localizedNumber_iff.mp hread
    obtain ⟨c, hc, hdigit⟩ := (Option.any_eq_true ..).mp hhead
    have hmem := hkept c (List.mem_append_left v (List.mem_of_head? hc))
      (isSeparator_eq_false_of_isDigit hdigit)
    rw [ht'] at hmem
    cases hmem

/-- A word that comes of a text is a word of the text. -/
theorem exists_eq_append_of_replaces {w y : Text} (hw : ∀ c ∈ w, isNumberChar c = false)
    (ht' : t' = w ++ y) : ∃ b us', t = w ++ b ∧ Replaces localizedNumber.regex resolve b us' y ∧
      ∀ u ∈ us', ¬ LosesDigit u := by
  induction w generalizing t us t' with
  | nil =>
    rw [List.nil_append] at ht'
    exact ⟨t, us, rfl, ht' ▸ h, hus⟩
  | cons c w ih =>
    rw [List.forall_mem_cons] at hw
    obtain ⟨a, b, us₁, us₂, rfl, rfl, ha, hb⟩ :=
      h.exists_append_cons (not_mem_resolve_of_replaces h hw.1)
        (show t' = [] ++ c :: (w ++ y) from ht')
    rw [List.forall_mem_append] at hus
    obtain rfl := eq_nil_of_replaces ha hus.1 rfl
    obtain ⟨b, us', rfl, hb, hus'⟩ := ih hb hus.2 hw.2 rfl
    exact ⟨b, us', rfl, hb, hus'⟩

end

end Number

namespace Arithmetic

open Number

variable {t t' e : Text} {us : List Text} {c : Char}

/-! ## Texts that clean to an expression -/

/-- A character of clean expressions, or a comma. -/
def isPlain (c : Char) : Bool := isClean c || c == ','

/-- What is left of the text when it is stripped has the characters of clean expressions and commas
only, beside a percent sign and the word "of" at one place. -/
def IsPermitted (t : Text) : Prop :=
  (∀ c ∈ strip t, isPlain c) ∨ ∃ x word y : Text, strip t = x ++ '%' :: (word ++ y) ∧
    Text.lower word = "of".toList ∧ ∀ c ∈ x ++ y, isPlain c

/-- The characters of a permitted text. -/
theorem IsPermitted.isPlain_or (h : IsPermitted t) :
    ∀ c ∈ strip t, isPlain c ∨ c.toLower ∈ "of".toList := by
  intro c hc
  rcases h with h | ⟨x, word, y, ht, hword, hplain⟩
  · exact .inl (h c hc)
  · rw [List.forall_mem_append] at hplain
    simp only [ht, List.mem_append, List.mem_cons] at hc
    rcases hc with hc | rfl | hc | hc
    · exact .inl (hplain.1 c hc)
    · exact .inl rfl
    · exact .inr (hword ▸ List.mem_map_of_mem hc)
    · exact .inl (hplain.2 c hc)

theorem isPlain_of_replaces (h : Replaces localizedNumber.regex resolve t us t')
    (hus : ∀ u ∈ us, ¬ LosesDigit u) (hclean : ∀ c ∈ t', isClean c) : ∀ c ∈ t, isPlain c := by
  intro c hc
  by_cases hsep : isSeparator c
  · rw [isSeparator, Bool.or_eq_true, beq_iff_eq, beq_iff_eq] at hsep
    rcases hsep with rfl | rfl <;> decide
  · rw [Bool.not_eq_true] at hsep
    rw [isPlain, hclean c (mem_of_replaces h hus hc hsep), Bool.true_or]

theorem toLower_of_foldCase {x : Char} (h : Text.foldCase x = c) (hs : c ≠ 's') (hk : c ≠ 'k') :
    x.toLower = c := by
  rw [Text.foldCase] at h
  split at h
  · exact absurd h.symm hs
  · split at h
    · exact absurd h.symm hk
    · exact h

theorem lower_of_map_foldCase {word : Text} (h : word.map Text.foldCase = "of".toList) :
    Text.lower word = "of".toList := by
  rw [← h, Text.lower]
  refine List.map_congr_left fun c hc => ?_
  have hmem : Text.foldCase c ∈ "of".toList := h ▸ List.mem_map_of_mem hc
  refine toLower_of_foldCase rfl ?_ ?_ <;> intro heq <;> exact absurd (heq ▸ hmem) (by decide)

/-- **A text that cleans to an expression, and none of whose numbers loses a digit, has no
characters but those of clean expressions, of one percentage, and those that are dropped.** -/
theorem isPermitted_of_clean? (h : clean? t = some e)
    (hkeeps : ∀ m ∈ localizedNumber.findAll (strip t), ¬ LosesDigit (m.text (strip t))) :
    IsPermitted t := by
  obtain ⟨rfl, -, hall⟩ := clean?_eq_some_iff.mp h
  have hreplaces := localizedNumber.replaces resolve (strip t)
  have hus : ∀ u ∈ (localizedNumber.findAll (strip t)).map (·.text (strip t)), ¬ LosesDigit u :=
    List.forall_mem_map.mpr hkeeps
  change Replaces _ _ _ _ (resolveAll (strip t)) at hreplaces
  generalize (localizedNumber.findAll (strip t)).map (·.text (strip t)) = us at hreplaces hus
  rcases expandPercentages_cases (resolveAll (strip t)) with hkept | ⟨s, x, y, hwrites, hkept⟩
  · rw [hkept] at hall
    exact .inl (isPlain_of_replaces hreplaces hus (List.all_eq_true.mp hall))
  · rw [hkept, Shorthand.all_isClean_expansion_iff, List.all_eq_true, List.all_eq_true] at hall
    obtain ⟨-, -, word, hword, htext⟩ := hwrites
    have hsigned : ∀ c, isClean c → (∀ d ∈ y ++ c :: (x ++ ['%']), isClean d) := by
      intro c hc d hd
      simp only [List.mem_append, List.mem_cons, List.not_mem_nil, or_false] at hd
      rcases hd with hd | rfl | hd | rfl
      · exact hall.2 d hd
      · exact hc
      · exact hall.1 d hd
      · decide
    cases s with
    | share =>
      right
      obtain ⟨a, b, us₁, us₂, ht, rfl, ha, hb⟩ :=
        hreplaces.exists_append_cons (c := '%') (not_mem_resolve_of_replaces hreplaces rfl) htext
      rw [List.forall_mem_append] at hus
      have hnumber : ∀ c ∈ word, isNumberChar c = false := fun c hc =>
        (not_isClean_of_isOfLetter (Shorthand.isOfLetter_of_mem hword c hc)).2.1
      obtain ⟨b, us', rfl, hb, hus'⟩ := exists_eq_append_of_replaces hb hus.2 hnumber rfl
      refine ⟨a, word, b, ht, lower_of_map_foldCase hword, ?_⟩
      exact List.forall_mem_append.mpr
        ⟨isPlain_of_replaces ha hus.1 hall.1, isPlain_of_replaces hb hus' hall.2⟩
    | increase =>
      rw [htext] at hreplaces
      exact .inl (isPlain_of_replaces hreplaces hus (hsigned '+' rfl))
    | decrease =>
      rw [htext] at hreplaces
      exact .inl (isPlain_of_replaces hreplaces hus (hsigned '-' rfl))

/-- **The resolution of separators keeps every digit exactly if no number loses one. Where none
does, a text with other characters than those of clean expressions, of one percentage, and those
that are dropped does not clean to an expression.** -/
theorem clean?_rejects_foreign_characters (t : Text) :
    (withoutSeparators (resolveAll t) = withoutSeparators t ↔
      ∀ m ∈ localizedNumber.findAll t, ¬ LosesDigit (m.text t)) ∧
    ((∀ m ∈ localizedNumber.findAll (strip t), ¬ LosesDigit (m.text (strip t))) →
      ¬ IsPermitted t → clean? t = none) := by
  refine ⟨withoutSeparators_resolveAll_iff t, fun hkeeps ht => ?_⟩
  rw [Option.eq_none_iff_forall_ne_some]
  exact fun e he => ht (isPermitted_of_clean? he hkeeps)

/-- A digit of another script is kept in a number of its own, and the text is rejected. -/
theorem clean?_rejects_foreign_digit :
    withoutSeparators (resolveAll "٣+1,250.5".toList) = withoutSeparators "٣+1,250.5".toList ∧
      clean? "٣+1,250.5".toList = none := by
  obtain ⟨hiff, hrejects⟩ := clean?_rejects_foreign_characters "٣+1,250.5".toList
  refine ⟨hiff.mpr (by decide +kernel), hrejects (by decide +kernel) fun h => ?_⟩
  exact absurd (h.isPlain_or '٣' (by decide)) (by decide)

/-- In a number with a separator the digit of another script is dropped. -/
theorem clean?_drops_foreign_digit :
    withoutSeparators (resolveAll "1.٣+2".toList) ≠ withoutSeparators "1.٣+2".toList ∧
      ¬ IsPermitted "1.٣+2".toList ∧ clean? "1.٣+2".toList = some "1.+2".toList := by
  refine ⟨by decide +kernel, fun h => ?_, by decide +kernel⟩
  exact absurd (h.isPlain_or '٣' (by decide)) (by decide)

end Arithmetic

end Snippet
