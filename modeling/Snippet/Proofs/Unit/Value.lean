import Snippet.Proofs.Arithmetic.Scanning
import Snippet.Proofs.Number.Amounts
import Snippet.Proofs.Pattern.Taking
import Snippet.Unit.Detector

/-!
# The value of a conversion

The value of a conversion has an optional minus, and digits with commas and an optional fraction, or
a fraction alone. The pattern reads all of it in front of anything else (`Pattern.takes_unitValue`),
and its separators are resolved to a number (`Unit.exists_float?`).
-/

namespace Snippet

open Regex Pattern

variable {s u v m : Text}

namespace Pattern

/-! ## What is read -/

/-- The characters of a value behind its sign. -/
def isValueChar (c : Char) : Bool := Text.isDigit c || c == ',' || c == '.'

/-- The fraction of a value: a point and digits. -/
def fractionPart : Regex := all [Regex.char '.', many1 digit]

/-- Digits with commas and an optional fraction. -/
def wholePart : Regex :=
  all [digit, many (one fun c => Text.isDigit c || c == ','), opt fractionPart]

theorem minus_of_reads (h : (opt (Regex.char '-')).Reads s) : s = [] ∨ s = ['-'] := by
  refine (reads_opt_iff.mp h).imp_right fun h => ?_
  obtain ⟨x, rfl, hx⟩ := reads_one_iff.mp h
  rw [beq_iff_eq.mp hx]

/-- A value is a sign, or none, and what it is a sign of. -/
theorem exists_of_unitValue (h : unitValue.Reads v) :
    ∃ s m, v = s ++ m ∧ (s = [] ∨ s = ['-']) ∧ (wholePart.Reads m ∨ fractionPart.Reads m) := by
  rcases reads_alt_iff.mp h with h | h
  · obtain ⟨s, m, rfl, hs, hm⟩ := reads_seq_iff.mp h
    exact ⟨s, m, rfl, minus_of_reads hs, .inl hm⟩
  · obtain ⟨s, m, rfl, hs, hm⟩ := reads_seq_iff.mp h
    exact ⟨s, m, rfl, minus_of_reads hs, .inr hm⟩

theorem takes_minus (hs : s = [] ∨ s = ['-']) :
    Takes (opt (Regex.char '-')) s (NoneNext (· == '-')) noGroups := by
  rcases hs with rfl | rfl
  · exact .opt_nil fun _ => id
  · exact (Takes.char '-').opt.of_anything

theorem takes_fractionPart (h : fractionPart.Reads m) :
    Takes fractionPart m (NoneNext isValueChar) noGroups := by
  obtain ⟨a, g, rfl, ha, hg⟩ := reads_seq_iff.mp h
  obtain ⟨x, rfl, hx⟩ := reads_one_iff.mp ha
  obtain rfl : x = '.' := beq_iff_eq.mp hx
  obtain ⟨hne, hg⟩ := reads_many1_one_iff.mp hg
  have hread := (Takes.char '.').andThen (Takes.many1 hne hg)
  refine hread.mono fun v (hv : NoneNext isValueChar v) => hv.mono fun c hc => ?_
  rw [isValueChar, hc]
  rfl

theorem takes_wholePart (h : wholePart.Reads m) :
    Takes wholePart m (NoneNext isValueChar) noGroups := by
  obtain ⟨a, b, rfl, ha, h⟩ := reads_seq_iff.mp h
  obtain ⟨w, f, rfl, hw, hf⟩ := reads_seq_iff.mp h
  obtain ⟨d, rfl, hd⟩ := reads_one_iff.mp ha
  have hdigits : Takes (many (one fun c => Text.isDigit c || c == ',')) w _ noGroups :=
    .many (reads_star_one_iff.mp hw)
  have hfraction : Takes (opt fractionPart) f (NoneNext isValueChar) noGroups := by
    rcases reads_opt_iff.mp hf with rfl | hf
    · have hnone : Takes (opt fractionPart) [] (NoneNext (· == '.')) noGroups :=
        .opt_nil (.inl fun _ => id)
      refine hnone.mono fun v (hv : NoneNext isValueChar v) => hv.mono fun c hc => ?_
      rw [isValueChar, hc, Bool.or_true]
    · exact (takes_fractionPart hf).opt
  refine (Takes.one hd).andThen (hdigits.seq hfraction fun v hv => ?_)
  rcases reads_opt_iff.mp hf with rfl | hf
  · refine hv.mono fun c hc => ?_
    rw [isValueChar, hc, Bool.true_or]
  · obtain ⟨b, g, rfl, hb, -⟩ := reads_seq_iff.mp hf
    obtain ⟨x, rfl, hx⟩ := reads_one_iff.mp hb
    rw [beq_iff_eq.mp hx]
    exact (StartsOutside.cons (by decide)).noneNext

theorem exists_cons_of_wholePart (h : wholePart.Reads m) : ∃ d r, m = d :: r ∧ Text.isDigit d := by
  obtain ⟨a, b, rfl, ha, -⟩ := reads_seq_iff.mp h
  obtain ⟨d, rfl, hd⟩ := reads_one_iff.mp ha
  exact ⟨d, b, rfl, hd⟩

theorem ne_of_isDigit {c d : Char} (hc : Text.isDigit c = false) (hd : Text.isDigit d) : c ≠ d := by
  rintro rfl
  rw [hc] at hd
  cases hd

/-- **A value is read in front of anything else.** -/
theorem takes_unitValue (h : unitValue.Reads v) :
    Takes unitValue v (NoneNext isValueChar) noGroups := by
  obtain ⟨s, m, rfl, hs, hm | hm⟩ := exists_of_unitValue h
  · obtain ⟨d, r, rfl, hd⟩ := exists_cons_of_wholePart hm
    have hfirst : (d == '-') = false :=
      beq_eq_false_iff_ne.mpr (ne_of_isDigit (by decide) hd).symm
    exact ((takes_minus hs).followedBy (takes_wholePart hm) (.cons hfirst)).left
  · obtain ⟨a, g, rfl, ha, hg⟩ := reads_seq_iff.mp hm
    obtain ⟨x, rfl, hx⟩ := reads_one_iff.mp ha
    obtain rfl : x = '.' := beq_iff_eq.mp hx
    -- without a digit in front of the point, the other shape is not there
    have hother : ∀ a v w, s ++ ('.' :: g) ++ v = a ++ w →
        ¬ (Regex.seq (opt (Regex.char '-')) wholePart).Reads a := by
      intro a v w haw hread
      obtain ⟨s', m, rfl, hs', hm⟩ := reads_seq_iff.mp hread
      obtain ⟨d, r, rfl, hd⟩ := exists_cons_of_wholePart hm
      have hpoint := ne_of_isDigit (c := '.') (by decide) hd
      have hminus := ne_of_isDigit (c := '-') (by decide) hd
      rcases hs with rfl | rfl <;> rcases minus_of_reads hs' with rfl | rfl
      · exact hpoint (List.cons.inj haw).1
      · exact absurd (List.cons.inj haw).1 (by decide)
      · exact hminus (List.cons.inj haw).1
      · exact hpoint (List.cons.inj (List.cons.inj haw).2).1
    have hread := (takes_minus hs).followedBy (takes_fractionPart hm) (.cons (by decide))
    have hall : Takes (anyOf ([Regex.seq (opt (Regex.char '-')) wholePart] ++
        Regex.seq (opt (Regex.char '-')) fractionPart :: [])) (s ++ '.' :: g) _ _ :=
      .anyOf (List.forall_mem_singleton.mpr hother) hread
    exact hall

theorem isWhite_eq_false_of_unitValue (h : unitValue.Reads v) :
    ∀ c ∈ v, Text.isWhite c = false := by
  have hdigit : digit.Over (Text.isWhite · = false) := fun _ => Text.isWhite_eq_false_of_isDigit
  have hchar : ∀ c, Text.isWhite c = false → (Regex.char c).Over (Text.isWhite · = false) :=
    fun c hc _ hx => beq_iff_eq.mp hx ▸ hc
  have hcomma : ∀ c, Text.isDigit c || c == ',' → Text.isWhite c = false := by
    intro c hc
    rw [Bool.or_eq_true, beq_iff_eq] at hc
    rcases hc with hc | rfl
    · exact Text.isWhite_eq_false_of_isDigit hc
    · rfl
  have hminus := hchar '-' rfl
  have hpoint := hchar '.' rfl
  exact h.forall_mem ⟨⟨⟨hminus, trivial⟩, hdigit, hcomma, ⟨hpoint, hdigit, hdigit⟩, trivial⟩,
    ⟨hminus, trivial⟩, hpoint, hdigit, hdigit⟩

theorem ne_nil_of_unitValue (h : unitValue.Reads v) : v ≠ [] := by
  obtain ⟨c, hc, -⟩ := h.exists_mem (p := (Text.isDigit ·))
    ⟨.inr (.inl fun _ => id), .inr (.inr (.inl fun _ => id))⟩
  exact List.ne_nil_of_mem hc

/-- A magnitude has digits, commas and points, and a digit. -/
theorem isRun_of_reads (h : wholePart.Reads m ∨ fractionPart.Reads m)
    (hascii : ∀ c ∈ m, c.toNat < 128) : Number.IsRun m := by
  have hdigit : digit.Over (isValueChar ·) := fun c (hc : Text.isDigit c) => by
    simp [isValueChar, hc]
  have hfraction : fractionPart.Over (isValueChar ·) :=
    ⟨fun c hc => by simp [isValueChar, beq_iff_eq.mp hc], hdigit, hdigit⟩
  have hwhole : wholePart.Over (isValueChar ·) :=
    ⟨hdigit, fun c (hc : Text.isDigit c || c == ',') => by simp [isValueChar, hc], hfraction,
      trivial⟩
  have hneeds : digit.Needs (Text.isDigit ·) := fun _ => id
  have hchars : ∀ c ∈ m, isValueChar c :=
    h.elim (fun h => h.forall_mem hwhole) fun h => h.forall_mem hfraction
  obtain ⟨d, hd, hdigit⟩ : ∃ d ∈ m, Text.isDigit d :=
    h.elim (fun h => h.exists_mem (.inl hneeds)) fun h => h.exists_mem (.inr (.inl hneeds))
  have hplain : ∀ c ∈ m, Text.isDigit c → c.isDigit := fun c hc hdigit =>
    Text.isDigit_of_ascii hdigit (hascii c hc)
  refine ⟨fun c hc => ?_, d, hd, hplain d hd hdigit⟩
  have hvalue := hchars c hc
  rw [isValueChar, Bool.or_assoc, Bool.or_eq_true] at hvalue
  rw [Bool.or_eq_true]
  refine hvalue.imp (hplain c hc) fun hmark => ?_
  rwa [Number.isSeparator, Bool.or_comm]

end Pattern

/-! ## The number -/

namespace Number

variable (h : IsRun u)
include h

/-- A run of digits and separators is resolved to a literal. -/
theorem IsRun.exists_literal : ∃ n : Arithmetic.Literal, n.text = resolve u := by
  have hdigits : ∀ t : Text, ∀ c ∈ digits t, c.isDigit := fun t c hc => (List.mem_filter.mp hc).2
  obtain ⟨d, hd, hdigit⟩ := h.exists_isDigit
  have hmem : d ∈ digits u := List.mem_filter.mpr ⟨hd, hdigit⟩
  by_cases hsep : ∃ c ∈ u, isSeparator c
  · obtain ⟨before, mark, after, hmark, hafter, rfl⟩ := exists_last_separator hsep
    rw [resolve_append hmark hafter]
    split
    · refine ⟨⟨digits before, some (digits after), hdigits before, hdigits after, ?_⟩, rfl⟩
      have hsplit : digits (before ++ mark :: after) = digits before ++ digits after := by
        have hnone : mark.isDigit = false := by
          rw [isSeparator, Bool.or_eq_true, beq_iff_eq, beq_iff_eq] at hmark
          rcases hmark with rfl | rfl <;> rfl
        simp [digits, hnone]
      exact List.ne_nil_of_mem (hsplit ▸ hmem)
    · refine ⟨⟨digits _, none, hdigits _, by simp, ?_⟩, List.append_nil _⟩
      exact List.append_ne_nil_of_left_ne_nil (List.ne_nil_of_mem hmem) _
  · have hnone : ∀ c ∈ u, isSeparator c = false := by simpa using hsep
    rw [resolve_eq_self hnone]
    refine ⟨⟨u, none, fun c hc => ?_, by simp, ?_⟩, List.append_nil _⟩
    · have hor := h.isDigit_or c hc
      rwa [hnone c hc, Bool.or_false] at hor
    · exact List.append_ne_nil_of_left_ne_nil (List.ne_nil_of_mem hd) _

end Number

namespace Unit

/-- **The separators of a value are resolved to a number.** -/
theorem exists_float? (hv : unitValue.Reads v) (hascii : ∀ c ∈ v, c.toNat < 128) :
    ∃ plain x, Number.normalize? v = some plain ∧ Decimal.float? plain = some x := by
  obtain ⟨s, m, rfl, hs, hm⟩ := exists_of_unitValue hv
  have hrun := isRun_of_reads hm fun c hc => hascii c (List.mem_append_right s hc)
  obtain ⟨n, hn⟩ := hrun.exists_literal
  rcases hs with rfl | rfl
  · refine ⟨_, n.value, hrun.normalize?_eq hrun.splitAmount_eq, ?_⟩
    rw [if_neg Bool.false_ne_true, ← hn, n.float?_text]
  · refine ⟨_, -n.value, hrun.normalize?_eq hrun.splitAmount_neg, ?_⟩
    rw [if_pos rfl, ← hn, n.float?_minus]

end Unit

end Snippet
