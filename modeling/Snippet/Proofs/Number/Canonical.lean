import Snippet.Proofs.Arithmetic.Numerals
import Snippet.Proofs.Unit.Value

/-!
# The plain form of a number

A text has a plain form exactly if it is a run of digits and separators that is left when the marks
in front of a number are taken off (`Stripped.normalize?_eq_none_iff`). The plain form is a literal
behind the minus, if there is one. It keeps the digits of the text, it is read as a float, and it is
its own plain form (`normalize?_canonical`).
-/

namespace Snippet.Number

variable {t rest marks : Text} {sign : Option Char} {dollar : Bool}

/-- The minus in front of a number, if the sign is one. -/
def minusOf (sign : Option Char) : Text := if sign = some '-' then ['-'] else []

/-- No digit is in white space. -/
theorem digits_of_isBlank (h : Text.isBlank t) : digits t = [] := by
  rw [digits, List.filter_eq_nil_iff]
  intro c hc hdigit
  have hwhite := Text.isWhite_eq_false_of_isDigit (Text.isDigit_of_isDigit hdigit)
  exact Text.not_mem_of_isBlank h hwhite hc

theorem Marks.digits_eq (h : Marks sign dollar marks) : digits marks = [] := by
  have hmark : ∀ {c : Char} {w : Text}, c.isDigit = false → Text.isBlank w → digits (c :: w) = [] :=
    fun hc hw => (digits_cons hc _).trans (digits_of_isBlank hw)
  cases h with
  | nothing => rfl
  | sign hc hw => exact hmark hc.isDigit_eq_false hw
  | dollar hw => exact hmark rfl hw
  | signDollar hc hw hv =>
    rw [← List.cons_append, digits_append, hmark hc.isDigit_eq_false hw, hmark rfl hv]
    rfl
  | dollarSign hc hw hv =>
    rw [← List.cons_append, digits_append, hmark rfl hw, hmark hc.isDigit_eq_false hv]
    rfl

/-- **The separators are resolved without a change of the digits.** -/
theorem digits_resolve (u : Text) : digits (resolve u) = digits u := by
  have hdigits : ∀ t, digits (digits t) = digits t := fun t =>
    digits_eq_self fun c hc => (List.mem_filter.mp hc).2
  by_cases hsep : ∃ c ∈ u, isSeparator c
  · obtain ⟨before, mark, after, hmark, hafter, rfl⟩ := exists_last_separator hsep
    rw [resolve_append hmark hafter]
    split
    · rw [digits_append, digits_append, digits_cons rfl, hdigits, hdigits,
        digits_cons (isDigit_eq_false_of_isSeparator hmark)]
    · exact hdigits _
  · rw [resolve_eq_self (by simpa using hsep)]

theorem isRun_text (n : Arithmetic.Literal) : IsRun n.text where
  isDigit_or c hc := by
    have hnumeric := n.isNumeric_of_mem hc
    rw [Arithmetic.isNumeric, Bool.or_eq_true] at hnumeric
    rw [Bool.or_eq_true]
    exact hnumeric.imp_right fun hpoint => by rw [isSeparator, hpoint, Bool.true_or]
  exists_isDigit := n.exists_isDigit

/-- **A literal behind a minus, or behind none, is its own plain form.** -/
theorem normalize?_minusOf_append (sign : Option Char) (n : Arithmetic.Literal) :
    normalize? (minusOf sign ++ n.text) = some (minusOf sign ++ n.text) := by
  have hrun := isRun_text n
  rw [minusOf]
  split
  · have hsplit : splitAmount (['-'] ++ n.text) = (true, n.text) := hrun.splitAmount_neg
    rw [hrun.normalize?_eq hsplit, n.resolve_text]
    rfl
  · rw [List.nil_append, hrun.normalize?_eq hrun.splitAmount_eq, n.resolve_text]
    rfl

theorem isSome_float?_minusOf_append (sign : Option Char) (n : Arithmetic.Literal) :
    (Decimal.float? (minusOf sign ++ n.text)).isSome := by
  rw [minusOf]
  split
  · exact Option.isSome_iff_exists.mpr ⟨_, n.float?_minus⟩
  · exact Option.isSome_iff_exists.mpr ⟨_, n.float?_text⟩

theorem minus_mem_iff (sign : Option Char) (n : Arithmetic.Literal) :
    '-' ∈ minusOf sign ++ n.text ↔ sign = some '-' := by
  have hnot : '-' ∉ n.text := fun hmem => absurd (n.isNumeric_of_mem hmem) (by decide)
  rw [minusOf]
  split
  · rename_i hminus
    exact ⟨fun _ => hminus, fun _ => List.mem_cons_self ..⟩
  · rename_i hminus
    exact ⟨fun hmem => absurd hmem hnot, fun h => absurd h hminus⟩

namespace Stripped

variable (h : Stripped t sign rest)
include h

theorem digits_eq : digits t = digits rest := by
  obtain ⟨before, marks, dollar, after, hbefore, hmarks, hafter, rfl, -⟩ := h.exists_marks
  rw [digits_append, digits_append, digits_append, digits_of_isBlank hbefore, hmarks.digits_eq,
    digits_of_isBlank hafter, List.append_nil]
  rfl

theorem normalize?_eq (hrun : IsRun rest) : normalize? t = some (minusOf sign ++ resolve rest) := by
  rw [hrun.normalize?_eq h.splitAmount_eq, minusOf]
  by_cases hminus : sign = some '-' <;> simp [hminus]

theorem isRun_of_normalize? {n : Text} (hn : normalize? t = some n) : IsRun rest := by
  rw [normalize?, h.splitAmount_eq] at hn
  dsimp only at hn
  split at hn
  · rename_i hrun
    rw [Bool.and_eq_true, List.any_eq_true, List.all_eq_true] at hrun
    exact ⟨hrun.2, hrun.1⟩
  · cases hn

theorem normalize?_eq_none_iff : normalize? t = none ↔
    (∀ c ∈ rest, ¬ c.isDigit) ∨ ∃ c ∈ rest, ¬ (c.isDigit ∨ c = ',' ∨ c = '.') := by
  have hrun : IsRun rest ↔
      (∃ c ∈ rest, c.isDigit) ∧ ∀ c ∈ rest, c.isDigit ∨ c = ',' ∨ c = '.' := by
    have hchar : ∀ c : Char, c.isDigit || isSeparator c ↔ c.isDigit ∨ c = ',' ∨ c = '.' := by
      intro c
      rw [isSeparator, Bool.or_eq_true, Bool.or_eq_true, beq_iff_eq, beq_iff_eq,
        or_comm (b := c = ',')]
    simp only [← hchar]
    exact ⟨fun h => ⟨h.exists_isDigit, h.isDigit_or⟩, fun h => ⟨h.2, h.1⟩⟩
  have hnone : normalize? t = none ↔ ¬ IsRun rest := by
    rw [Option.eq_none_iff_forall_ne_some]
    exact ⟨fun hnone hrun => hnone _ (h.normalize?_eq hrun),
      fun hnot n hn => hnot (h.isRun_of_normalize? hn)⟩
  rw [hnone, hrun, not_and_or]
  exact or_congr (by simp only [not_exists, not_and]) (by simp only [not_forall, exists_prop])

end Stripped

/-- **The plain form is canonical.** Marks and white space can be taken off a text in exactly one
way. There is no plain form exactly if what is left has no digit, or a character that is no digit
and no separator. A plain form is a literal behind a minus if there is one in front of the number; it
has the digits of the text, it is read as a float, and it is its own plain form. -/
theorem normalize?_canonical (t : Text) :
    (∃! p : Option Char × Text, Stripped t p.1 p.2) ∧
    ∀ sign rest, Stripped t sign rest →
      (normalize? t = none ↔
        (∀ c ∈ rest, ¬ c.isDigit) ∨ ∃ c ∈ rest, ¬ (c.isDigit ∨ c = ',' ∨ c = '.')) ∧
      ∀ n, normalize? t = some n →
        (∃ l : Arithmetic.Literal, n = minusOf sign ++ l.text) ∧
        ('-' ∈ n ↔ sign = some '-') ∧ digits n = digits t ∧
        (Decimal.float? n).isSome ∧ normalize? n = some n := by
  refine ⟨⟨signAndRest t, stripped_iff.mpr rfl, fun p hp => (stripped_iff.mp hp).symm⟩,
    fun sign rest h => ⟨h.normalize?_eq_none_iff, fun n hn => ?_⟩⟩
  have hrun := h.isRun_of_normalize? hn
  obtain ⟨l, hl⟩ := hrun.exists_literal
  have hplain : n = minusOf sign ++ l.text := by
    rw [hl]
    exact Option.some.inj (hn.symm.trans (h.normalize?_eq hrun))
  have hdigits : digits n = digits t := by
    rw [hplain, hl, h.digits_eq, digits_append, digits_resolve, minusOf]
    split <;> rfl
  subst hplain
  exact ⟨⟨l, rfl⟩, minus_mem_iff sign l, hdigits, isSome_float?_minusOf_append sign l,
    normalize?_minusOf_append sign l⟩

/-- A minus behind a dollar sign is put in front of the digits. -/
theorem normalize?_canonical_dollar : Stripped " $ -1.234,50".toList (some '-') "1.234,50".toList ∧
    normalize? " $ -1.234,50".toList = some "-1234.50".toList ∧
    (Decimal.float? "-1234.50".toList).isSome ∧
    normalize? "-1234.50".toList = some "-1234.50".toList := by
  have hstripped : Stripped " $ -1.234,50".toList (some '-') "1.234,50".toList :=
    stripped_iff.mpr (by decide +kernel)
  have hplain : normalize? " $ -1.234,50".toList = some "-1234.50".toList := by decide +kernel
  obtain ⟨-, -, -, hfloat, hself⟩ :=
    ((normalize?_canonical " $ -1.234,50".toList).2 _ _ hstripped).2 _ hplain
  exact ⟨hstripped, hplain, hfloat, hself⟩

end Snippet.Number
