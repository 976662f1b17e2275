import Snippet.Arithmetic.Clean
import Snippet.Proofs.Pattern.Shapes
import Snippet.Proofs.Pattern.Spelling

/-!
# The shorthands of percentages

There are three shorthands: a share, `x% of y`, an increase, `y + x%`, and a decrease, `y - x%`
(`Shorthand.text`). Their numbers may be written in the digits of any script. A shorthand is written
out with the numbers that stand in it (`Shorthand.Writes.expandPercentages_eq`), and every other
text is kept (`expandPercentages_eq_self`).
-/

namespace Snippet

open Regex

variable {t u x y : Text}

/-! ## Decimal numbers -/

namespace Pattern

/-- A digit or a point. -/
def isDecimalChar (c : Char) : Bool := Text.isDigit c || c == '.'

/-- A decimal number is read as far as its digits go, where neither a digit nor a point follows. -/
theorem takes_decimalNumber (h : decimalNumber.Reads u) :
    Takes decimalNumber u (NoneNext isDecimalChar) noGroups := by
  have hdigit : ∀ v, NoneNext isDecimalChar v → NoneNext Text.isDigit v := fun v hv c hc =>
    (Bool.or_eq_false_iff.mp (hv c hc)).1
  have hpoint : ∀ v, NoneNext isDecimalChar v → NoneNext (· == '.') v := fun v hv c hc =>
    (Bool.or_eq_false_iff.mp (hv c hc)).2
  obtain ⟨whole, rest, rfl, hwhole, hrest⟩ := reads_seq_iff.mp h
  obtain ⟨hne, hwhole⟩ := reads_many1_one_iff.mp hwhole
  have hfirst : Takes (many1 digit) whole (NoneNext Text.isDigit) noGroups := .many1 hne hwhole
  rcases reads_opt_iff.mp hrest with rfl | hrest
  · have hstarts : (all [char '.', many1 digit]).Starts (· == '.') := .inl fun _ => id
    exact hfirst.seq ((Takes.opt_nil hstarts).mono hpoint) hdigit
  · obtain ⟨point, fraction, rfl, hpoint, hfraction⟩ := reads_seq_iff.mp hrest
    obtain ⟨c, rfl, hc⟩ := reads_one_iff.mp hpoint
    obtain rfl := beq_iff_eq.mp hc
    obtain ⟨hfne, hfraction⟩ := reads_many1_one_iff.mp hfraction
    have hlast : Takes (many1 digit) fraction (NoneNext isDecimalChar) noGroups :=
      (Takes.many1 hfne hfraction).mono hdigit
    exact hfirst.followedBy ((Takes.char '.').andThen hlast).opt (.cons rfl)

end Pattern

namespace Arithmetic

open Pattern

/-! ## Two numbers in a match -/

/-- The two numbers of a full match. -/
def numbers? (p : Pattern) (t : Text) : Option (Text × Text) :=
  (p.full? t).bind fun m =>
    match m.text? t 1, m.text? t 2 with
    | some a, some b => some (a, b)
    | _, _ => none

theorem numbers?_eq_none {p : Pattern} (h : ¬ p.regex.Reads t) : numbers? p t = none := by
  have hnone : p.full? t = none := by
    rw [Option.eq_none_iff_forall_ne_some]
    exact fun m hm => h (occurrence_of_full? hm).reads
  rw [numbers?, hnone, Option.bind_none]

/-- A pattern that records two parts of the text it takes. -/
theorem numbers?_of_takes {p : Pattern} {a b gap rest : Text} {next : Text → Prop}
    {gs : Nat → List (Nat × Span)} (h : p.regex.Takes (a ++ (gap ++ (b ++ rest))) next gs)
    (hnext : next []) (hgs : gs 0 =
      [(2, ⟨(a ++ gap).length, (a ++ gap).length + b.length⟩), (1, ⟨0, a.length⟩)]) :
    numbers? p (a ++ (gap ++ (b ++ rest))) = some (a, b) := by
  have hfirst : Span.of ⟨0, a.length⟩ (a ++ (gap ++ (b ++ rest))) = a := by
    simpa using Span.of_append [] a (gap ++ (b ++ rest))
  have hsecond : Span.of ⟨(a ++ gap).length, (a ++ gap).length + b.length⟩
      (a ++ (gap ++ (b ++ rest))) = b := by
    rw [← List.append_assoc]
    exact Span.of_append (a ++ gap) b rest
  rw [numbers?, full?_of_takes h hnext, hgs]
  change some (Span.of ⟨0, a.length⟩ _, Span.of ⟨(a ++ gap).length, _⟩ _) = _
  rw [hfirst, hsecond]

/-! ## The texts of shorthands -/

/-- The shorthands of percentages. -/
inductive Shorthand where
  /-- A percentage of a number. -/
  | share
  /-- A number and a percentage of it. -/
  | increase
  /-- A number less a percentage of it. -/
  | decrease
  deriving DecidableEq

namespace Shorthand

/-- The shape of a shorthand. -/
def pattern : Shorthand → Pattern
  | share => percentageOf
  | increase => percentageAdd
  | decrease => percentageSub

/-- The shorthand of the percentage `x` and the number `y`. A share has a word between them. -/
def text (s : Shorthand) (word x y : Text) : Text :=
  match s with
  | share => x ++ '%' :: (word ++ y)
  | increase => y ++ '+' :: (x ++ ['%'])
  | decrease => y ++ '-' :: (x ++ ['%'])

/-- The shorthand written out. -/
def expansion (s : Shorthand) (x y : Text) : Text :=
  match s with
  | share => '(' :: x ++ "/100*".toList ++ y ++ [')']
  | increase => y ++ "*(1+".toList ++ x ++ "/100)".toList
  | decrease => y ++ "*(1-".toList ++ x ++ "/100)".toList

/-- The shapes are tried one after the other. -/
theorem expandPercentages_eq (t : Text) :
    expandPercentages t =
      match numbers? share.pattern t with
      | some (x, y) => share.expansion x y
      | none =>
        match numbers? increase.pattern t with
        | some (y, x) => increase.expansion x y
        | none =>
          match numbers? decrease.pattern t with
          | some (y, x) => decrease.expansion x y
          | none => t :=
  rfl

/-- A text is the shorthand of two decimal numbers. -/
structure Writes (s : Shorthand) (x y t : Text) : Prop where
  reads_percentage : decimalNumber.Reads x
  reads_number : decimalNumber.Reads y
  exists_word : ∃ word : Text, word.map Text.foldCase = "of".toList ∧ t = s.text word x y

variable {s r : Shorthand}

/-- A shape reads shorthands only. -/
theorem exists_writes (h : s.pattern.regex.Reads t) : ∃ x y, s.Writes x y t := by
  have hof : "of".toList.map Text.foldCase = "of".toList := by decide
  have hsigned : ∀ c,
      (all [group 1 decimalNumber, char c, group 2 decimalNumber, char '%']).Reads t →
        ∃ x y, decimalNumber.Reads x ∧ decimalNumber.Reads y ∧ t = y ++ c :: (x ++ ['%']) := by
    intro c h
    simp only [all, reads_seq_iff, reads_group_iff, char, reads_one_iff] at h
    obtain ⟨y, -, rfl, hy, -, -, rfl, ⟨d, rfl, hd⟩, x, -, rfl, hx, e, rfl, he⟩ := h
    exact ⟨x, y, hx, hy, by rw [beq_iff_eq.mp hd, beq_iff_eq.mp he]; rfl⟩
  cases s with
  | share =>
    simp only [pattern, percentageOf, ofRegex, reads_all_cons_iff, reads_group_iff] at h
    obtain ⟨x, -, rfl, hx, percent, -, rfl, hpercent, word, -, rfl, hword, y, rest, rfl, hy, hrest⟩ :=
      h
    obtain rfl := reads_empty_iff.mp hrest
    obtain ⟨c, rfl, hc⟩ := reads_one_iff.mp hpercent
    obtain rfl := beq_iff_eq.mp hc
    exact ⟨x, y, hx, hy, word, (reads_word_iff (by decide)).mp hword, by simp [text]⟩
  | increase =>
    obtain ⟨x, y, hx, hy, ht⟩ := hsigned '+' h
    exact ⟨x, y, hx, hy, _, hof, ht⟩
  | decrease =>
    obtain ⟨x, y, hx, hy, ht⟩ := hsigned '-' h
    exact ⟨x, y, hx, hy, _, hof, ht⟩

/-- A shape reads its shorthands. -/
theorem Writes.reads_pattern (h : s.Writes x y t) : s.pattern.regex.Reads t := by
  obtain ⟨hx, hy, word, hword, rfl⟩ := h
  have hchar : ∀ c, (char c).Reads [c] := fun _ => .one BEq.rfl
  cases s with
  | share => exact .seq (.group hx) (.seq (hchar '%') (.seq ((reads_word_iff (by decide)).mpr hword)
      (.group hy)))
  | increase => exact .seq (.group hy) (.seq (hchar '+') (.seq (.group hx) (hchar '%')))
  | decrease => exact .seq (.group hy) (.seq (hchar '-') (.seq (.group hx) (hchar '%')))

/-! ## Marks -/

theorem isOfLetter_of_mem {word : Text} (hword : word.map Text.foldCase = "of".toList) :
    ∀ c ∈ word, isOfLetter c := by
  have hof : (Regex.word "of").Over (isOfLetter ·) := over_word_iff.mpr (by decide)
  exact ((reads_word_iff (by decide)).mpr hword).forall_mem hof

/-- The shorthand that a character is the mark of. -/
def ofMark? (c : Char) : Option Shorthand :=
  if isOfLetter c then some share
  else if c = '+' then some increase
  else if c = '-' then some decrease
  else none

theorem ofMark?_of_isNumberChar {c : Char} (h : isNumberChar c) : ofMark? c = none := by
  have hne : c ≠ '+' ∧ c ≠ '-' := by constructor <;> rintro rfl <;> exact absurd h (by decide)
  rw [ofMark?, isOfLetter_eq_false_of_isNumberChar h, if_neg Bool.false_ne_true, if_neg hne.1,
    if_neg hne.2]

theorem needs_mark (s : Shorthand) : s.pattern.regex.Needs (ofMark? · = some s) := by
  have hchar : ∀ c, ofMark? c = some s → (char c).Needs (ofMark? · = some s) := by
    intro c hc x hx
    rwa [beq_iff_eq.mp hx]
  cases s with
  | share => exact needs_all_iff.mpr ⟨Regex.word "of", by simp, needs_word_iff.mpr (by decide)⟩
  | increase => exact needs_all_iff.mpr ⟨char '+', by simp, hchar '+' rfl⟩
  | decrease => exact needs_all_iff.mpr ⟨char '-', by simp, hchar '-' rfl⟩

/-- A shorthand has no mark of another. -/
theorem Writes.ofMark?_of_mem (h : s.Writes x y t) {c : Char} (hc : c ∈ t) :
    ofMark? c = none ∨ ofMark? c = some s := by
  obtain ⟨hx, hy, word, hword, rfl⟩ := h
  have hnumber : ∀ {u}, decimalNumber.Reads u → c ∈ u → ofMark? c = none := fun hu hc =>
    ofMark?_of_isNumberChar (hu.forall_mem decimalNumber_over c hc)
  cases s with
  | share =>
    simp only [text, List.mem_append, List.mem_cons] at hc
    rcases hc with hc | rfl | hc | hc
    · exact .inl (hnumber hx hc)
    · exact .inl rfl
    · exact .inr (if_pos (isOfLetter_of_mem hword c hc))
    · exact .inl (hnumber hy hc)
  | increase | decrease =>
    simp only [text, List.mem_append, List.mem_cons, List.not_mem_nil, or_false] at hc
    rcases hc with hc | rfl | hc | rfl
    · exact .inl (hnumber hy hc)
    · exact .inr rfl
    · exact .inl (hnumber hx hc)
    · exact .inl rfl

theorem Writes.eq_of_ofMark? (h : s.Writes x y t) {c : Char} (hc : c ∈ t)
    (hmark : ofMark? c = some r) : r = s := by
  rcases h.ofMark?_of_mem hc with hnone | hsome
  · cases hmark.symm.trans hnone
  · exact Option.some.inj (hmark.symm.trans hsome)

theorem Writes.numbers?_eq_none (h : s.Writes x y t) (hr : r ≠ s) :
    numbers? r.pattern t = none := by
  refine Arithmetic.numbers?_eq_none fun hread => hr ?_
  obtain ⟨c, hc, hmark⟩ := hread.exists_mem r.needs_mark
  exact h.eq_of_ofMark? hc hmark

/-! ## Writing out -/

/-- The first number of a shorthand as it is written, and the second. -/
def operands (s : Shorthand) (x y : Text) : Text × Text :=
  match s with
  | share => (x, y)
  | increase | decrease => (y, x)

/-- A number, a sign and a percentage. -/
theorem takes_signed {c : Char} (hc : isDecimalChar c = false) (hx : decimalNumber.Reads x)
    (hy : decimalNumber.Reads y) :
    Takes (all [group 1 decimalNumber, char c, group 2 decimalNumber, char '%'])
      (y ++ ([c] ++ (x ++ ['%']))) Anything
      fun k => [(2, ⟨(k + y.length) + 1, (k + y.length) + 1 + x.length⟩), (1, ⟨k, k + y.length⟩)] :=
  ((takes_decimalNumber hy).group 1).followedBy ((Takes.char c).andThen
    (((takes_decimalNumber hx).group 2).followedBy (.char '%') (.cons rfl))) (.cons hc)

theorem Writes.numbers?_eq (h : s.Writes x y t) :
    numbers? s.pattern t = some (s.operands x y) := by
  obtain ⟨hx, hy, word, hword, rfl⟩ := h
  cases s with
  | share =>
    have htakes := ((takes_decimalNumber hx).group 1).followedBy ((Takes.char '%').andThen
      ((takes_word (by decide) hword).andThen ((takes_decimalNumber hy).group 2))) (.cons rfl)
    have htext : x ++ (['%'] ++ (word ++ y)) = x ++ ('%' :: word ++ (y ++ [])) := by simp
    rw [htext] at htakes
    have hnumbers : numbers? percentageOf (x ++ ('%' :: word ++ (y ++ []))) = some (x, y) :=
      numbers?_of_takes htakes (by simp [NoneNext])
        (by simp [noGroups, Nat.add_assoc, Nat.add_comm 1])
    rw [← htext] at hnumbers
    exact hnumbers
  | increase =>
    exact numbers?_of_takes (p := percentageAdd) (takes_signed (c := '+') rfl hx hy) trivial
      (by simp)
  | decrease =>
    exact numbers?_of_takes (p := percentageSub) (takes_signed (c := '-') rfl hx hy) trivial
      (by simp)

theorem mem_expansion_iff {c : Char} :
    c ∈ s.expansion x y ↔ c ∈ x ∨ c ∈ y ∨ c ∈ s.expansion [] [] := by
  cases s <;> simp [expansion] <;> tauto

/-- A shorthand of clean numbers is written out to a clean expression. -/
theorem all_isClean_expansion_iff :
    (s.expansion x y).all isClean ↔ x.all isClean ∧ y.all isClean := by
  have hrest : ∀ c ∈ s.expansion [] [], isClean c := by cases s <;> decide
  simp only [List.all_eq_true]
  constructor
  · exact fun h => ⟨fun c hc => h c (mem_expansion_iff.mpr (.inl hc)),
      fun c hc => h c (mem_expansion_iff.mpr (.inr (.inl hc)))⟩
  · rintro ⟨hx, hy⟩ c hc
    rcases mem_expansion_iff.mp hc with hc | hc | hc
    · exact hx c hc
    · exact hy c hc
    · exact hrest c hc

theorem Writes.mem_text (h : s.Writes x y t) {c : Char} (hc : c ∈ x ∨ c ∈ y ∨ c = '%') : c ∈ t := by
  obtain ⟨-, -, word, -, rfl⟩ := h
  cases s <;> simp only [text, List.mem_append, List.mem_cons, List.not_mem_nil, or_false] <;> tauto

/-- **A shorthand is written out with its numbers.** -/
theorem Writes.expandPercentages_eq (h : s.Writes x y t) :
    expandPercentages t = s.expansion x y := by
  have hnumbers := h.numbers?_eq
  have hother : ∀ r, r ≠ s → numbers? r.pattern t = none := fun _ => h.numbers?_eq_none
  rw [Shorthand.expandPercentages_eq]
  cases s with
  | share =>
    rw [hnumbers]
    rfl
  | increase =>
    rw [hother share (by decide), hnumbers]
    rfl
  | decrease =>
    rw [hother share (by decide), hother increase (by decide), hnumbers]
    rfl

end Shorthand

/-- **What is no shorthand is kept.** -/
theorem expandPercentages_eq_self (h : ∀ s : Shorthand, ∀ x y, ¬ s.Writes x y t) :
    expandPercentages t = t := by
  have hnone : ∀ s : Shorthand, numbers? s.pattern t = none := by
    intro s
    refine numbers?_eq_none fun hread => ?_
    obtain ⟨x, y, hwrites⟩ := s.exists_writes hread
    exact h s x y hwrites
  rw [Shorthand.expandPercentages_eq, hnone, hnone, hnone]

theorem expandPercentages_cases (t : Text) :
    expandPercentages t = t ∨
      ∃ (s : Shorthand) (x y : Text), s.Writes x y t ∧ expandPercentages t = s.expansion x y := by
  by_cases h : ∃ (s : Shorthand) (x y : Text), s.Writes x y t
  · obtain ⟨s, x, y, h⟩ := h
    exact .inr ⟨s, x, y, h, h.expandPercentages_eq⟩
  · simp only [not_exists] at h
    exact .inl (expandPercentages_eq_self h)

/-- What is written out of a clean expression is a clean expression. -/
theorem isClean_expandPercentages (hne : t ≠ []) (h : t.all isClean) :
    expandPercentages t ≠ [] ∧ (expandPercentages t).all isClean := by
  rcases expandPercentages_cases t with heq | ⟨s, x, y, hwrites, heq⟩
  · rw [heq]
    exact ⟨hne, h⟩
  · rw [List.all_eq_true] at h
    rw [heq, Shorthand.all_isClean_expansion_iff, List.all_eq_true, List.all_eq_true]
    refine ⟨?_, fun c hc => h c (hwrites.mem_text (.inl hc)), fun c hc =>
      h c (hwrites.mem_text (.inr (.inl hc)))⟩
    cases s <;> simp [Shorthand.expansion]

end Arithmetic

end Snippet
