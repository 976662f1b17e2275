import Snippet.Arithmetic.Formatter
import Snippet.Proofs.Arithmetic.Deficit
import Snippet.Proofs.Arithmetic.Shorthands
import Snippet.Proofs.Number.Separators

/-!
# Arithmetic texts and their expressions

What a value tells about the text that it is computed from. An expression with a value has a digit
(`exists_isDigit_of_evaluate`), and it is the text itself or a shorthand written out. So a text with
a value has a digit of ASCII (`exists_isDigit_of_clean?`), and a text with the word "of" does not
end with a percent sign (`getLast?_ne_percent_of_clean?`).
-/

namespace Snippet.Arithmetic

open Pattern (isNumberChar)

/-! ## A value needs a digit -/

/-- No number is read, and none is being read that could be ended. -/
structure Scan.Blank (s : Scan) : Prop where
  digits_eq : ∀ c ∈ s.digits, isNumeric c ∧ c.isDigit = false
  weight_le : weight s.symbols ≤ 0

namespace Scan.Blank

variable {s s' : Scan}

/-- A number without a digit cannot be ended. -/
theorem eq_of_endNumber? (h : s.Blank) {s₁ : Scan} (hend : s.endNumber? = some s₁) : s₁ = s := by
  rcases endNumber?_cases hend with rfl | ⟨hne, -⟩
  · rfl
  · exfalso
    have hopen : s.digits.isEmpty = false := by simpa using hne
    rw [endNumber?, hopen, if_neg Bool.false_ne_true, Option.map_eq_some_iff] at hend
    obtain ⟨x, hx, -⟩ := hend
    obtain ⟨n, hn⟩ := exists_literal_of_float? (d := s.digits.reverse) (by simpa using hne)
      (fun c hc => (h.digits_eq c (List.mem_reverse.mp hc)).1) hx
    obtain ⟨c, hc, hdigit⟩ := n.exists_isDigit
    rw [hn, List.mem_reverse] at hc
    rw [(h.digits_eq c hc).2] at hdigit
    cases hdigit

theorem readDigit (h : s.Blank) {c : Char} (hc : isNumeric c) (hdigit : c.isDigit = false) :
    (s.readDigit c).Blank := by
  have hdigits : ∀ b ∈ c :: s.digits, isNumeric b ∧ b.isDigit = false :=
    List.forall_mem_cons.mpr ⟨⟨hc, hdigit⟩, h.digits_eq⟩
  have hweight := h.weight_le
  unfold Scan.readDigit
  split
  · refine ⟨hdigits, ?_⟩
    simp only [push, weight_cons, Symbol.weight]
    omega
  · exact ⟨hdigits, hweight⟩

theorem step? (h : s.Blank) {c : Char} (hc : isClean c) (hdigit : c.isDigit = false)
    (hstep : s.step? c = some s') : s'.Blank := by
  have hweight := h.weight_le
  rcases step?_cases hc hstep with ⟨hnum, rfl⟩ | ⟨-, negative, rfl⟩ | ⟨s₁, h₁, hs'⟩
  · exact h.readDigit hnum hdigit
  · exact ⟨h.digits_eq, hweight⟩
  · obtain rfl := h.eq_of_endNumber? h₁
    rcases hs' with rfl | rfl | ⟨op, rfl⟩
    · unfold openGroup
      split
      · exact ⟨h.digits_eq, by simpa [Symbol.weight] using hweight⟩
      · split <;> refine ⟨h.digits_eq, ?_⟩ <;>
          simp only [push, weight_cons, Symbol.weight] at hweight ⊢ <;> omega
    · exact ⟨h.digits_eq, by simpa [push, Symbol.weight] using hweight⟩
    · refine ⟨h.digits_eq, ?_⟩
      simp only [push, weight_cons, Symbol.weight]
      omega

theorem foldlM {t : Text} (h : s.Blank) (ht : ∀ c ∈ t, isClean c ∧ c.isDigit = false)
    (hfold : t.foldlM Scan.step? s = some s') : s'.Blank := by
  induction t generalizing s with
  | nil =>
    obtain rfl := Option.some.inj hfold
    exact h
  | cons c t ih =>
    rw [List.forall_mem_cons] at ht
    rw [List.foldlM_cons] at hfold
    obtain ⟨s₁, hstep, hfold⟩ := Option.bind_eq_some_iff.mp hfold
    exact ih (h.step? ht.1.1 ht.1.2 hstep) ht.2 hfold

end Scan.Blank

/-- **A clean expression with a value has a digit.** -/
theorem exists_isDigit_of_evaluate {s : Text} {v : Float} (hs : s.all isClean)
    (h : evaluate s = some v) : ∃ c ∈ s, c.isDigit := by
  by_contra hnone
  have hclean : ∀ c ∈ s, isClean c ∧ c.isDigit = false := by
    intro c hc
    refine ⟨List.all_eq_true.mp hs c hc, ?_⟩
    rw [← Bool.not_eq_true]
    exact fun hdigit => hnone ⟨c, hc, hdigit⟩
  obtain ⟨s₁, s₂, hreads, hend, hweight, -⟩ := exists_scan_of_evaluate h
  have hblank : s₁.Blank := Scan.Blank.foldlM ⟨by simp, Int.le_refl _⟩ hclean hreads
  obtain rfl := hblank.eq_of_endNumber? hend
  have hle := hblank.weight_le
  omega

/-! ## Characters of clean expressions -/

/-- A digit of a clean expression is one of ASCII. -/
theorem isDigit_of_isClean {c : Char} (hc : isClean c) (hdigit : Text.isDigit c) : c.isDigit := by
  simp only [isClean, Bool.or_eq_true, beq_iff_eq] at hc
  rcases hc with (hc | rfl) | hc
  · exact hc
  · exact absurd hdigit (by decide)
  · simp only [isOperatorOrParen, List.contains_iff_mem, String.reduceToList, List.mem_cons,
      List.not_mem_nil, or_false] at hc
    rcases hc with rfl | rfl | rfl | rfl | rfl | rfl | rfl | rfl <;> exact absurd hdigit (by decide)

theorem isNumberChar_of_isOperatorOrParen {c : Char} (h : isOperatorOrParen c) :
    isNumberChar c = false := by
  have hall : "+-*/%^()".toList.all fun c => !isNumberChar c := by decide
  simpa using List.all_eq_true.mp hall c (List.contains_iff_mem.mp h)

/-! ## Clean expressions -/

/-- What is left of a text before its separators are resolved. -/
def strip (t : Text) : Text := t.filter fun c => c != '$' && !Text.isWhite c

variable {t e : Text}

theorem clean?_eq_some_iff :
    clean? t = some e ↔
      e = expandPercentages (Number.resolveAll (strip t)) ∧ e ≠ [] ∧ e.all isClean := by
  generalize hexpr : expandPercentages (Number.resolveAll (strip t)) = expr
  have hclean : clean? t = if !expr.isEmpty && expr.all isClean then some expr else none := by
    rw [← hexpr]
    rfl
  rw [hclean]
  constructor
  · intro h
    split at h
    · rename_i hexpr
      obtain rfl := Option.some.inj h
      simpa using hexpr
    · cases h
  · rintro ⟨rfl, hne, hall⟩
    rw [if_pos]
    simpa [hne] using hall

/-- A character of a text whose separators are resolved is one of the text, or a point. -/
theorem mem_of_mem_resolveAll_strip {c : Char} (h : c ∈ Number.resolveAll (strip t))
    (hc : c ≠ '.') : c ∈ t := by
  rcases Number.mem_of_mem_resolveAll h with h | rfl
  · exact (List.mem_filter.mp h).1
  · exact absurd rfl hc

/-- **A text that cleans to an expression with a value has a digit.** -/
theorem exists_isDigit_of_clean? {v : Float} (h : clean? t = some e) (hv : evaluate e = some v) :
    ∃ c ∈ t, c.isDigit := by
  obtain ⟨rfl, -, hall⟩ := clean?_eq_some_iff.mp h
  have hpoint : ∀ c : Char, c.isDigit → c ≠ '.' := by
    rintro c hc rfl
    cases hc
  rcases expandPercentages_cases (Number.resolveAll (strip t)) with
    hkept | ⟨s, x, y, hwrites, hkept⟩
  · rw [hkept] at hall hv
    obtain ⟨c, hc, hdigit⟩ := exists_isDigit_of_evaluate hall hv
    exact ⟨c, mem_of_mem_resolveAll_strip hc (hpoint c hdigit), hdigit⟩
  · -- a shorthand has its numbers from the text, and writes them out
    rw [hkept, Shorthand.all_isClean_expansion_iff] at hall
    obtain ⟨c, x, rfl, hc⟩ := hwrites.reads_percentage.exists_cons Pattern.decimalNumber_starts
    have hclean := List.all_eq_true.mp hall.1 c (List.mem_cons_self ..)
    have hdigit := isDigit_of_isClean hclean hc
    have hmem := hwrites.mem_text (.inl (List.mem_cons_self ..))
    exact ⟨c, mem_of_mem_resolveAll_strip hmem (hpoint c hdigit), hdigit⟩

/-- A percent sign at the end is kept there. -/
theorem filter_strip_percent (u : Text) :
    (strip (u ++ ['%'])).filter (!isNumberChar ·) =
      (strip u).filter (!isNumberChar ·) ++ ['%'] := by
  rw [strip, List.filter_append, List.filter_append]
  rfl

theorem not_isClean_of_isOfLetter {c : Char} (h : Pattern.isOfLetter c) :
    isClean c = false ∧ isNumberChar c = false ∧ (c != '$' && !Text.isWhite c) := by
  simp only [Pattern.isOfLetter, List.contains_iff_mem, String.reduceToList, List.mem_cons,
    List.not_mem_nil, or_false] at h
  rcases h with rfl | rfl | rfl | rfl <;> decide

/-- **A text that cleans to an expression and has a letter of "of" does not end with a percent
sign.** The letter is there to name a percentage, so what comes last is the number that it is taken
of. -/
theorem getLast?_ne_percent_of_clean? (h : clean? t = some e) {c : Char} (hc : c ∈ t)
    (hletter : Pattern.isOfLetter c) : t.getLast? ≠ some '%' := by
  obtain ⟨rfl, -, hall⟩ := clean?_eq_some_iff.mp h
  obtain ⟨hclean, hnumber, hstrip⟩ := not_isClean_of_isOfLetter hletter
  have hmem : c ∈ Number.resolveAll (strip t) :=
    Number.mem_resolveAll hnumber (List.mem_filter.mpr ⟨hc, hstrip⟩)
  rcases expandPercentages_cases (Number.resolveAll (strip t)) with hkept | ⟨s, x, y, hwrites, -⟩
  · rw [hkept] at hall
    rw [List.all_eq_true.mp hall c hmem] at hclean
    cases hclean
  · obtain rfl : .share = s := hwrites.eq_of_ofMark? hmem (if_pos hletter)
    obtain ⟨x, y, hfilter, hy⟩ := Pattern.filter_percentageOf hwrites.reads_pattern
    rw [Number.filter_resolveAll] at hfilter
    intro hlast
    obtain ⟨u, rfl⟩ := List.getLast?_eq_some_iff.mp hlast
    have hlast := congrArg List.getLast? (hfilter.symm.trans (filter_strip_percent u))
    rw [List.getLast?_concat] at hlast
    exact hy (by simpa using hlast)

end Snippet.Arithmetic
