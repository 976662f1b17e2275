import Snippet.Proofs.Calendar.DateOrder
import Snippet.Proofs.Calendar.MonthName
import Snippet.Proofs.Number.Numerals
import Snippet.Proofs.Pattern.Shapes

/-!
# Written dates

A date with its year can be written in numbers with one separator, with the month or the year in
front, or with the name of the month, in front of the day or behind it (`Date.Written`). The parts
of a date are read one after the other, with digits of any script and any white space between them,
whatever is read behind them (`Pattern.takes_monthFirst`, `Pattern.takes_dayFirst`,
`Pattern.takes_separated`).
-/

namespace Snippet

namespace Date

/-- The text of a month or a day, with a leading zero or without. -/
def IsShort (n : Nat) (m : Text) : Prop := m = Decimal.digitsOf n ∨ m = Decimal.padded 2 n

/-- The year in four digits. -/
def fourDigits (d : Date) : Text := Decimal.padded 4 d.year.natAbs

/-- The ending of an ordinal number, in any case, or nothing. -/
def IsOrdinalEnding (t : Text) : Prop :=
  t = [] ∨ ∃ w ∈ ["st", "nd", "rd", "th"], Text.lower t = w.toList

/-- The same, where a letter beyond ASCII may stand for one that it is a form of. -/
def IsOrdinalForm (t : Text) : Prop :=
  t = [] ∨ ∃ w ∈ ["st", "nd", "rd", "th"], t.map Text.foldCase = w.toList

/-- A mark that may be left out. -/
def IsOptional (mark : Char) (t : Text) : Prop := t = [] ∨ t = [mark]

/-- White space between two parts of a date. -/
def IsGap (t : Text) : Prop := t ≠ [] ∧ Text.isBlank t

theorem isGap_blank : IsGap [' '] := ⟨List.cons_ne_nil _ _, rfl⟩

/-- What is left starts with a comma or white space, if with anything. -/
def IsTail (t : Text) : Prop := ∀ x ∈ t.head?, x = ',' ∨ Text.isWhite x

/-- The ways to write a date with its year. -/
inductive Written (d : Date) : Text → Prop where
  | monthDayYear {sep : Char} {m n : Text} : sep ∈ Pattern.dateSeparators → IsShort d.month m →
      IsShort d.day n → Written d (m ++ sep :: (n ++ sep :: d.fourDigits))
  | yearMonthDay {sep : Char} {m n : Text} : sep ∈ Pattern.dateSeparators → IsShort d.month m →
      IsShort d.day n → Written d (d.fourDigits ++ sep :: (m ++ sep :: n))
  | monthFirst {name point n ending comma : Text} : Calendar.IsMonthName d.month name →
      IsOptional '.' point → IsShort d.day n → IsOrdinalEnding ending → IsOptional ',' comma →
      Written d (name ++ (point ++ ' ' :: (n ++ (ending ++ (comma ++ ' ' :: d.fourDigits)))))
  | dayFirst {name point n ending comma : Text} : Calendar.IsMonthName d.month name →
      IsOptional '.' point → IsShort d.day n → IsOrdinalEnding ending → IsOptional ',' comma →
      Written d (n ++ (ending ++ ' ' :: (name ++ (point ++ (comma ++ ' ' :: d.fourDigits)))))

/-! ## The digits of a written date -/

variable {d : Date} {n k : Nat} {m : Text}

theorem IsShort.nat? (h : IsShort n m) : Decimal.nat? m = some n := by
  rcases h with rfl | rfl
  · exact Decimal.nat?_digitsOf n
  · exact Decimal.nat?_padded 2 n

theorem nat?_fourDigits (d : Date) : Decimal.nat? d.fourDigits = some d.year.natAbs :=
  Decimal.nat?_padded ..

theorem isLower_ordinalEndings : ∀ w ∈ ["st", "nd", "rd", "th"], w.toList.all Char.isLower := by
  decide

theorem IsOrdinalEnding.isOrdinalForm {t : Text} (h : IsOrdinalEnding t) : IsOrdinalForm t :=
  h.imp id fun ⟨w, hw, hlower⟩ =>
    ⟨w, hw, Text.map_foldCase_eq_of_lower (isLower_ordinalEndings w hw) hlower⟩

/-- Digits of any script, at most `k` of them. -/
structure IsNumber (k : Nat) (m : Text) : Prop where
  ne_nil : m ≠ []
  length_le : m.length ≤ k
  isDigit : ∀ x ∈ m, Text.isDigit x

/-- Digits of a given number, at most. -/
structure Digits (k : Nat) (m : Text) : Prop where
  ne_nil : m ≠ []
  length_le : m.length ≤ k
  isDigit : ∀ x ∈ m, x.isDigit

theorem IsShort.digits (h : IsShort n m) (hn : n < 100) : Digits 2 m := by
  rcases h with rfl | rfl
  · exact ⟨Decimal.digitsOf_ne_nil n, (Nat.length_toDigits_le_iff (by decide) (by decide)).mpr hn,
      fun _ => Decimal.isDigit_of_mem_digitsOf⟩
  · have hlength := Decimal.length_padded (k := 2) (by decide) hn
    exact ⟨List.ne_nil_of_length_pos (by omega), hlength.le, fun _ => Decimal.isDigit_of_mem_padded⟩

theorem Digits.isNumber (h : Digits k m) : IsNumber k m :=
  ⟨h.ne_nil, h.length_le, fun x hx => Text.isDigit_of_isDigit (h.isDigit x hx)⟩

/-- A number starts with a digit. -/
theorem IsNumber.exists_cons (h : IsNumber k m) : ∃ x t, m = x :: t ∧ Text.isDigit x := by
  obtain ⟨x, t, rfl⟩ := List.exists_cons_of_ne_nil h.ne_nil
  exact ⟨x, t, rfl, h.isDigit x (List.mem_cons_self ..)⟩

/-- The first digit. -/
theorem Digits.exists_cons (h : Digits k m) : ∃ x t, m = x :: t ∧ x.isDigit := by
  obtain ⟨x, t, rfl⟩ := List.exists_cons_of_ne_nil h.ne_nil
  exact ⟨x, t, rfl, h.isDigit x (List.mem_cons_self ..)⟩

theorem digits_month (h : IsShort d.month m) : Digits 2 m :=
  h.digits (by have := d.month_bounds; omega)

theorem digits_day (h : IsShort d.day m) : Digits 2 m := h.digits (by have := d.day_le; omega)

variable (hyear : 0 ≤ d.year ∧ d.year ≤ 9999)
include hyear

theorem length_fourDigits : d.fourDigits.length = 4 :=
  Decimal.length_padded (by decide) (by omega)

theorem digits_fourDigits : Digits 4 d.fourDigits where
  ne_nil := List.ne_nil_of_length_pos (by rw [length_fourDigits hyear]; decide)
  length_le := (length_fourDigits hyear).le
  isDigit _ := Decimal.isDigit_of_mem_padded

end Date

namespace Pattern

open Regex Date

variable {r r₁ r₂ s y : Regex} {m n name point ending comma t w : Text} {next : Text → Prop}
  {g g₁ g₂ : Nat → List (Nat × Span)}

/-! ## The parts of the expressions -/

theorem takes_shortNumber (h : IsNumber 2 m) :
    Takes shortNumber m (NoneNext Text.isDigit) noGroups :=
  .timesUpTo (List.length_pos_iff.mpr h.ne_nil) h.length_le h.isDigit

theorem takes_fullYear (h : IsNumber 4 m) (hlength : m.length = 4) :
    Takes fullYear m Anything noGroups :=
  .times hlength h.isDigit

theorem takes_year (h : IsNumber 4 m) (hlength : m.length = 4) : Takes year m Anything noGroups :=
  (takes_fullYear h hlength).left

theorem takes_ordinalEnding (h : IsOrdinalForm t) :
    Takes ordinalEnding t (NoneNext Text.isForm) noGroups := by
  rcases h with rfl | ⟨w, hw, hfold⟩
  · have hne : ∀ w ∈ ["st", "nd", "rd", "th"], w.toList ≠ [] := by decide
    refine .opt_nil (starts_anyOf ?_)
    rw [List.forall_mem_map]
    exact fun w hw => starts_word (isLower_ordinalEndings w hw) (hne w hw)
  · have hspells : Spells (words ["st", "nd", "rd", "th"]) w :=
      spells_words isLower_ordinalEndings (by decide) hw
    exact (hspells hfold).opt

theorem takes_optional {mark : Char} (h : IsOptional mark t) :
    Takes (opt (char mark)) t (NoneNext (· == mark)) noGroups := by
  rcases h with rfl | rfl
  · exact .opt_nil fun _ => id
  · exact (Takes.char mark).opt.of_anything

theorem takes_gap (h : IsGap w) : Takes (many1 white) w (NoneNext Text.isWhite) noGroups :=
  .white1 h.1 h.2

/-! ## Where one part ends and the next begins -/

theorem startsOutside_number {k : Nat} (h : IsNumber k m) : StartsOutside Text.isWhite m := by
  obtain ⟨x, t, rfl, hx⟩ := h.exists_cons
  exact .cons (Text.isWhite_eq_false_of_isDigit hx)

theorem startsOutside_optional {p : Char → Bool} {mark : Char} {v : Text} (h : IsOptional mark t)
    (hmark : p mark = false) (hv : StartsOutside p v) : StartsOutside p (t ++ v) := by
  rcases h with rfl | rfl
  · exact hv
  · exact .cons hmark

theorem startsOutside_gap {p : Char → Bool} (h : IsGap w) (hp : ∀ x, Text.isWhite x → p x = false) :
    StartsOutside p w := by
  obtain ⟨x, w, rfl⟩ := List.exists_cons_of_ne_nil h.1
  exact .cons (hp x (List.all_eq_true.mp h.2 x (List.mem_cons_self ..)))

theorem noneNext_of_isTail {p : Char → Bool} {v : Text} (h : IsTail v) (hcomma : p ',' = false)
    (hwhite : ∀ x, Text.isWhite x → p x = false) : NoneNext p v := by
  intro x hx
  rcases h x hx with rfl | hx
  · exact hcomma
  · exact hwhite x hx

theorem isDigit_eq_false_of_isWhite {x : Char} (h : Text.isWhite x) : Text.isDigit x = false := by
  rw [← Bool.not_eq_true]
  intro hdigit
  rw [Text.isWhite_eq_false_of_isDigit hdigit] at h
  cases h

theorem isPoint_eq_false_of_isWhite (x : Char) (h : Text.isWhite x) : (x == '.') = false := by
  rw [beq_eq_false_iff_ne]
  rintro rfl
  cases h

theorem isDigit_of_isTail {v : Text} (h : IsTail v) : NoneNext Text.isDigit v :=
  noneNext_of_isTail h (by decide) fun _ => isDigit_eq_false_of_isWhite

theorem isForm_of_isTail {v : Text} (h : IsTail v) : NoneNext Text.isForm v :=
  noneNext_of_isTail h (by decide) fun _ => Text.isForm_eq_false_of_isWhite

/-- The ending of an ordinal number starts with a letter. -/
theorem noneNext_ordinalEnding {v : Text} (h : IsOrdinalForm t) (hv : NoneNext Text.isDigit v) :
    NoneNext Text.isDigit (t ++ v) := by
  rcases h with rfl | ⟨w, hw, hfold⟩
  · exact hv
  · have hlower : ∀ w ∈ ["st", "nd", "rd", "th"], ∃ x u, w.toList = x :: u ∧ x.isLower := by
      simp
    obtain ⟨y, u, hy, hylower⟩ := hlower w hw
    obtain ⟨x, t, rfl, rfl, -⟩ := List.map_eq_cons_iff.mp (hfold.trans hy)
    refine (StartsOutside.cons ?_).noneNext
    rw [← Bool.not_eq_true]
    intro hdigit
    have hform := Text.isForm_eq_false_of_isDigit hdigit
    rw [Text.isForm, hylower] at hform
    cases hform

theorem noneNext_optional {p : Char → Bool} {mark : Char} {v : Text} (h : IsOptional mark t)
    (hmark : p mark = false) (hv : NoneNext p v) : NoneNext p (t ++ v) := by
  rcases h with rfl | rfl
  · exact hv
  · exact (StartsOutside.cons hmark).noneNext

/-! ## The shapes -/

/-- The year behind a written date starts with a comma or white space. -/
theorem isTail_year (hcomma : IsOptional ',' comma) (hgap : IsGap w) (t v : Text) :
    IsTail (comma ++ (w ++ t) ++ v) := by
  rcases hcomma with rfl | rfl
  · obtain ⟨x, w, rfl⟩ := List.exists_cons_of_ne_nil hgap.1
    intro y hy
    obtain rfl : x = y := by simpa using hy
    exact .inr (List.all_eq_true.mp hgap.2 x (List.mem_cons_self ..))
  · intro y hy
    obtain rfl : ',' = y := by simpa using hy
    exact .inl rfl

/-- The year behind a written date, read as `y`. -/
theorem takes_writtenYear (hcomma : IsOptional ',' comma) (hgap : IsGap w) (hyear : IsNumber 4 t)
    (hy : Takes y t next g) :
    Takes (writtenYear y) (comma ++ (w ++ t)) next fun k => g (k + (comma.length + w.length)) := by
  have hblank := (takes_gap hgap).followedBy hy (startsOutside_number hyear)
  have hall := (takes_optional hcomma).followedBy hblank
    ((startsOutside_gap hgap fun x hx => by
      rw [beq_eq_false_iff_ne]
      rintro rfl
      cases hx).append _)
  refine hall.opt.congr fun k => ?_
  simp [noGroups, Nat.add_assoc]

/-- The month, named as read by `r₁`, the day, read by `r₂`, and what is left, read by `s`. -/
theorem takes_monthFirst (hname : Takes r₁ name (NoneNext Text.isForm) g₁)
    (hpoint : IsOptional '.' point) (hgap : IsGap w) (hday : IsNumber 2 n)
    (hn : Takes r₂ n (NoneNext Text.isDigit) g₂) (hending : IsOrdinalForm ending)
    (ht : Takes s t next g) (htail : ∀ v, next v → IsTail (t ++ v)) :
    Takes (all [r₁, opt (char '.'), many1 white, r₂, ordinalEnding, s])
      (name ++ (point ++ (w ++ (n ++ (ending ++ t))))) next
      fun k => g (k + (name.length + (point.length + (w.length + (n.length + ending.length))))) ++
        (g₂ (k + (name.length + (point.length + w.length))) ++ g₁ k) := by
  have hendings := (takes_ordinalEnding hending).seq ht fun v hv => isForm_of_isTail (htail v hv)
  have hdays := hn.seq hendings fun v hv => by
    rw [List.append_assoc]
    exact noneNext_ordinalEnding hending (isDigit_of_isTail (htail v hv))
  have hblank := (takes_gap hgap).followedBy hdays ((startsOutside_number hday).append _)
  have hpoints := (takes_optional hpoint).followedBy hblank
    ((startsOutside_gap hgap isPoint_eq_false_of_isWhite).append _)
  have hall := hname.followedBy hpoints (startsOutside_optional hpoint (by decide)
    ((startsOutside_gap hgap fun _ => Text.isForm_eq_false_of_isWhite).append _))
  refine hall.congr fun k => ?_
  simp [noGroups, Nat.add_assoc]

/-- The day, read by `r₁`, the month, named as read by `r₂`, and what is left, read by `s`. -/
theorem takes_dayFirst (hn : Takes r₁ n (NoneNext Text.isDigit) g₁)
    (hending : IsOrdinalForm ending) (hgap : IsGap w)
    (hname : Takes r₂ name (NoneNext Text.isForm) g₂)
    (hnameStart : StartsOutside Text.isWhite name) (hpoint : IsOptional '.' point)
    (ht : Takes s t next g) (htail : ∀ v, next v → IsTail (t ++ v)) :
    Takes (all [r₁, ordinalEnding, many1 white, r₂, opt (char '.'), s])
      (n ++ (ending ++ (w ++ (name ++ (point ++ t))))) next
      fun k => g (k + (n.length + (ending.length + (w.length + (name.length + point.length))))) ++
        (g₂ (k + (n.length + (ending.length + w.length))) ++ g₁ k) := by
  have hpoints := (takes_optional hpoint).seq ht fun v hv =>
    noneNext_of_isTail (htail v hv) (by decide) isPoint_eq_false_of_isWhite
  have hnames := hname.seq hpoints fun v hv => by
    rw [List.append_assoc]
    exact noneNext_optional hpoint (by decide) (isForm_of_isTail (htail v hv))
  have hblank := (takes_gap hgap).followedBy hnames (hnameStart.append _)
  have hendings := (takes_ordinalEnding hending).followedBy hblank
    ((startsOutside_gap hgap fun _ => Text.isForm_eq_false_of_isWhite).append _)
  have hall := hn.seq hendings fun v _ => by
    rw [List.append_assoc, List.append_assoc]
    refine noneNext_ordinalEnding hending (StartsOutside.noneNext ?_)
    exact (startsOutside_gap hgap fun _ => isDigit_eq_false_of_isWhite).append _
  refine hall.congr fun k => ?_
  simp [noGroups, Nat.add_assoc]

/-- Three numbers with one separator. -/
theorem takes_separated {sep : Char} {r₃ : Regex} {g₃ : Nat → List (Nat × Span)}
    (hsep : Text.isDigit sep = false) (hm : Takes r₁ m (NoneNext Text.isDigit) g₁)
    (hn : Takes r₂ n (NoneNext Text.isDigit) g₂) (ht : Takes r₃ t next g₃) :
    Takes (all [r₁, char sep, r₂, char sep, r₃]) (m ++ ([sep] ++ (n ++ ([sep] ++ t)))) next
      fun k => g₃ (k + (m.length + (1 + (n.length + 1)))) ++
        (g₂ (k + (m.length + 1)) ++ g₁ k) := by
  have hlast := (Takes.char sep).andThen ht
  have hsecond := (Takes.char sep).andThen (hn.followedBy hlast (.cons hsep))
  refine (hm.followedBy hsecond (.cons hsep)).congr fun k => ?_
  simp [noGroups, Nat.add_assoc]

/-! ## What reads no start of a written date -/

theorem append_cons_inj {p : Char → Prop} {a b c : Text} {x z : Char} (hm : ∀ e ∈ m, p e)
    (hx : ¬ p x) (ha : ∀ e ∈ a, p e) (hz : ¬ p z) (h : m ++ x :: b = a ++ z :: c) :
    m = a ∧ x = z := by
  induction m generalizing a with
  | nil =>
    cases a with
    | nil => exact ⟨rfl, (List.cons.inj h).1⟩
    | cons e a =>
      obtain rfl := (List.cons.inj h).1
      exact absurd (ha x (List.mem_cons_self ..)) hx
  | cons e m ih =>
    rw [List.forall_mem_cons] at hm
    cases a with
    | nil =>
      obtain rfl := (List.cons.inj h).1
      exact absurd hm.1 hz
    | cons f a =>
      rw [List.forall_mem_cons] at ha
      obtain ⟨rfl, hrest⟩ := List.cons.inj h
      obtain ⟨rfl, rfl⟩ := ih hm.2 ha.2 hrest
      exact ⟨rfl, rfl⟩

/-- Three numbers with a separator are read where digits and this separator come next. -/
theorem eq_of_reads_separated {sep sep' : Char} {r r₃ : Regex} {a b w : Text}
    (hr : r.Over (Text.isDigit ·)) (hsep : Text.isDigit sep = false)
    (hsep' : Text.isDigit sep' = false) (hm : ∀ x ∈ m, Text.isDigit x)
    (hread : (all [r, char sep', r₂, char sep', r₃]).Reads a) (h : m ++ sep :: b = a ++ w) :
    r.Reads m ∧ sep = sep' := by
  obtain ⟨a₁, a₂, rfl, ha₁, ha₂⟩ := reads_all_cons_iff.mp hread
  obtain ⟨z, a₃, rfl, hz, -⟩ := reads_all_cons_iff.mp ha₂
  obtain ⟨x, rfl, hx⟩ := reads_one_iff.mp hz
  obtain rfl := beq_iff_eq.mp hx
  have hdigits := ha₁.forall_mem hr
  obtain ⟨rfl, rfl⟩ := append_cons_inj hm (by simp [hsep]) hdigits (by simp [hsep'])
    (h.trans (by simp : a₁ ++ ([x] ++ a₃) ++ w = a₁ ++ x :: (a₃ ++ w)))
  exact ⟨ha₁, rfl⟩

end Pattern

end Snippet
