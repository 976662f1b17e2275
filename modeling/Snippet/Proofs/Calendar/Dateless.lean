import Mathlib.Data.List.Infix
import Snippet.Proofs.Pattern.Demands
import Snippet.Proofs.Pattern.Leftmost
import Snippet.Proofs.Text.Phrase
import Snippet.Proofs.Text.Trimming

/-!
# Texts without dates

A text is without dates if none of its stretches is read as a date token up to the end of a word
(`Dateless`). Then it has no token and is no date range. Such is a text without numeric dates that
does not have the name of a month at the end of a word (`Dateless.of_noNumericDate`).
-/

namespace Snippet

open Pattern Regex

/-- No stretch of the text that ends at the boundary of a word is read as a date. -/
def Dateless (t : Text) : Prop :=
  ∀ a u b, t = a ++ (u ++ b) → (Place.between u b).atWordBoundary →
    ∀ p ∈ [dateTokenIso, dateToken, dateTokenText], ¬ p.regex.Reads u

/-- No stretch of the text is read as a numeric date. -/
def NoNumericDate (t : Text) : Prop :=
  ∀ u, u <:+: t → ∀ p ∈ [dateTokenIso, dateToken], ¬ p.regex.Reads u

/-- No name of a month stands in the text without a letter behind it. -/
def NamesNoMonth (t : Text) : Prop :=
  ∀ a name b, t = a ++ (name ++ b) → monthName.Reads name → ¬ NoneNext Text.isForm b

variable {a b s t w : Text} {c : Char}

theorem monthName_over : monthName.Over (Text.isForm ·) := by
  simp only [monthName, stem, opt, anyOf, Over, over_word_iff, and_true]
  decide

/-! ## Texts that name no month -/

namespace NamesNoMonth

theorem of_forall (h : ∀ c ∈ t, Text.isForm c = false) : NamesNoMonth t := by
  rintro a name b rfl hname -
  obtain ⟨x, v, rfl, hx⟩ := exists_cons_of_monthName hname
  rw [h x (by simp)] at hx
  cases hx

theorem of_isArithmetic (h : ∀ c ∈ t, isArithmetic c) : NamesNoMonth t := by
  refine of_forall fun c hc => ?_
  rw [← Bool.not_eq_true]
  intro hform
  have harith := h c hc
  rw [isArithmetic_eq_false_of_isForm hform] at harith
  cases harith

theorem of_append (h : NamesNoMonth (a ++ b)) : NamesNoMonth b := by
  rintro x name y rfl
  exact h (a ++ x) name y (by simp)

/-- It can be read off the ends of the text in small letters. -/
theorem of_tails (h : ∀ s ∈ (t.map Text.foldCase).tails, ∀ names ∈ Calendar.monthNames, ∀ w ∈ names,
    w.toList <+: s → (s.drop w.length).head?.any Char.isLower) : NamesNoMonth t := by
  rintro a name b rfl hname hnext
  obtain ⟨names, hnames, w, hw, heq⟩ := exists_name_of_monthName hname
  have htail : w.toList ++ b.map Text.foldCase ∈ ((a ++ (name ++ b)).map Text.foldCase).tails := by
    rw [List.mem_tails, List.map_append, List.map_append, heq]
    exact List.suffix_append ..
  have hletter := h _ htail names hnames w hw (List.prefix_append ..)
  rw [← String.length_toList, List.drop_left] at hletter
  cases b with
  | nil => cases hletter
  | cons c b =>
    have hform : Text.isForm c := hletter
    rw [hnext c rfl] at hform
    cases hform

/-- A character between two texts that is no letter. -/
theorem append_cons (ha : NamesNoMonth a) (hb : NamesNoMonth b) (hc : Text.isForm c = false) :
    NamesNoMonth (a ++ c :: b) := by
  intro x name y h hname hnext
  have hmem : c ∉ name := by
    intro hmem
    rw [hname.forall_mem monthName_over c hmem] at hc
    cases hc
  rcases Text.cases_of_append_cons h hmem with ⟨z, rfl, rfl⟩ | ⟨z, rfl, rfl⟩
  · refine ha x name z rfl hname fun d hd => hnext d ?_
    rw [List.head?_append, Option.mem_def.mp hd]
    rfl
  · exact hb z name y rfl hname hnext

/-- A text in front of a character that is no letter. -/
theorem of_append_cons (h : NamesNoMonth (a ++ c :: b)) (hc : Text.isForm c = false) :
    NamesNoMonth a := by
  rintro x name y rfl hname hnext
  refine h x name (y ++ c :: b) (by simp) hname fun d hd => ?_
  cases y with
  | nil =>
    obtain rfl : c = d := by simpa using hd
    exact hc
  | cons e y => exact hnext d hd

end NamesNoMonth

/-! ## Texts without numeric dates -/

namespace NoNumericDate

theorem of_forall (h : ∀ c ∈ t, Text.isDigit c = false) : NoNumericDate t := by
  intro u hu p hp hread
  obtain ⟨c, hc, hdigit⟩ := hread.exists_mem (needs_digit p (by
    exact List.mem_append_left [dateTokenText, percentageCode] hp))
  rw [h c (hu.subset hc)] at hdigit
  cases hdigit

/-- Numbers without a slash and with at most one point and one dash. -/
theorem of_count (hslash : '/' ∉ t) (hpoint : t.count '.' ≤ 1) (hdash : t.count '-' ≤ 1) :
    NoNumericDate t := by
  intro u hu p hp hread
  have hpoint' := hu.sublist.count_le '.'
  have hdash' := hu.sublist.count_le '-'
  rcases separators_of_numericToken hp hread with h | h | h
  · exact hslash (hu.subset h)
  · omega
  · omega

/-- A character between two texts that stands in no numeric date. -/
theorem append_cons (ha : NoNumericDate a) (hb : NoNumericDate b) (hc : Text.isDigit c = false)
    (hsep : c ∉ dateSeparators) : NoNumericDate (a ++ c :: b) := by
  rintro u ⟨x, y, h⟩ p hp hread
  have hmem : c ∉ u := fun hmem =>
    (hread.forall_mem (DateToken.numericToken_over p hp) c hmem).elim (by simp [hc]) hsep
  rw [List.append_assoc] at h
  rcases Text.cases_of_append_cons h.symm hmem with ⟨z, rfl, -⟩ | ⟨z, -, rfl⟩
  · exact ha u ⟨x, z, by simp⟩ p hp hread
  · exact hb u ⟨z, y, by simp⟩ p hp hread

end NoNumericDate

/-! ## Texts without dates -/

/-- The patterns for tokens stop at the boundary of a word. -/
theorem DateToken.atWordBoundary_of_mem_outcomes {p : Pattern} {c d : Cursor}
    (hp : p ∈ [dateTokenIso, dateToken, dateTokenText]) (h : d ∈ p.regex.outcomes c) :
    d.atWordBoundary := by
  have hall : ∀ rs, d ∈ (Regex.all (rs ++ [wordBoundary])).outcomes c → d.atWordBoundary := by
    intro rs hd
    rw [outcomes_all_concat] at hd
    obtain ⟨e, -, he⟩ := List.mem_flatMap.mp hd
    rw [outcomes] at he
    split at he
    · obtain rfl := List.mem_singleton.mp he
      assumption
    · cases he
  simp only [List.mem_cons, List.not_mem_nil, or_false] at hp
  rcases hp with rfl | rfl | rfl
  · exact hall [_, _] h
  · exact hall [_, _] h
  · rcases List.mem_append.mp h with h | h
    · exact hall [_, _, _, _, _, _, _] h
    · exact hall [_, _, _, _, _, _, _] h

namespace Dateless

/-- **A text without numeric dates and without the name of a month is without dates.** -/
theorem of_noNumericDate (hnumeric : NoNumericDate t) (hmonth : NamesNoMonth t) : Dateless t := by
  rintro a u b rfl hend p hp hread
  simp only [List.mem_cons, List.not_mem_nil, or_false] at hp
  rcases hp with rfl | rfl | rfl
  · exact hnumeric u ⟨a, b, by simp⟩ _ (by simp) hread
  · exact hnumeric u ⟨a, b, by simp⟩ _ (by simp) hread
  · obtain ⟨x, name, y, rfl, hname, hnext, -⟩ := exists_monthName_of_dateTokenText hread
    refine hmonth (a ++ x) name (y ++ b) (by simp) hname ?_
    cases y with
    | cons c y => exact hnext
    | nil =>
      -- the stretch ends with the name, so no letter comes next
      obtain ⟨c, hc⟩ : ∃ c, name.getLast? = some c := by
        obtain ⟨c, v, rfl, -⟩ := exists_cons_of_monthName hname
        exact ⟨_, List.getLast?_eq_some_getLast (List.cons_ne_nil c v)⟩
      have hword := Text.isWord_of_isForm (hname.forall_mem monthName_over c (List.mem_of_getLast? hc))
      intro d hd
      rw [← Bool.not_eq_true]
      intro hform
      have hd : b.head? = some d := hd
      simp [Place.atWordBoundary, Place.between, hc, hd, hword, Text.isWord_of_isForm hform,
        List.getLast?_append] at hend

theorem of_forall (h : ∀ c ∈ t, Text.isDigit c = false) : Dateless t := by
  rintro a u b rfl - p hp hread
  obtain ⟨c, hc, hdigit⟩ := hread.exists_mem (needs_digit p (by
    exact List.mem_append_left [percentageCode] hp))
  rw [h c (by simp [hc])] at hdigit
  cases hdigit

theorem of_append (h : Dateless (a ++ b)) : Dateless b := by
  rintro x u y rfl
  exact h (a ++ x) u y (by simp)

/-- White space in front of a text. -/
theorem white_append (hw : Text.isBlank w) (h : Dateless t) : Dateless (w ++ t) := by
  intro a u b hsplit hend p hp hread
  obtain ⟨c, v, rfl, hc⟩ := (DateToken.items_of_reads hp hread).1.exists_cons
  have hwhite := hc.elim Text.isWhite_eq_false_of_isDigit Text.isWhite_eq_false_of_isForm
  obtain ⟨z, -, rfl⟩ :=
    Text.exists_of_not_mem_left hsplit.symm (Text.not_mem_of_isBlank hw hwhite)
  exact h z _ b rfl hend p hp hread

theorem all_eq_nil (h : Dateless t) : DateToken.all t = [] := by
  rw [List.eq_nil_iff_forall_not_mem]
  intro token htoken
  obtain ⟨p, hp, m, hm, -⟩ := DateToken.exists_match_of_mem_all htoken
  obtain ⟨a, b, c, rfl, hc, -⟩ := Pattern.exists_mem_outcomes_of_mem_findAll hm
  have hle : c.pos ≤ a.length + b.length := by
    obtain ⟨u, hrest, -, hpos, -⟩ := Occurrence.of_mem_outcomes hc
    obtain rfl : b = u ++ c.rest := hrest
    rw [hpos, List.length_append, ← Nat.add_assoc]
    exact Nat.le_add_right _ _
  have hend := DateToken.atWordBoundary_of_mem_outcomes hp hc
  rw [← List.append_nil b] at hc
  obtain ⟨u, z, rfl, hread, -, hplace⟩ := exists_toPlace_eq hc hle
  obtain ⟨x, v, rfl, -⟩ := (DateToken.items_of_reads hp hread).1.exists_cons
  refine h a (x :: v) z rfl ?_ p hp hread
  have hlast : (a ++ x :: v).getLast? = (x :: v).getLast? :=
    List.getLast?_append_of_ne_nil a (List.cons_ne_nil x v)
  rwa [hplace, List.append_nil, Place.atWordBoundary, Place.between, hlast] at hend

theorem ofText?_eq_none (h : Dateless t) (today : Date) : DateRange.ofText? today t = none := by
  rw [DateRange.ofText?, DateRange.parts, h.all_eq_nil]
  split <;> rfl

theorem dateStart?_eq_none (h : Dateless t) : Seed.dateStart? t = none := by
  rw [Seed.dateStart?, h.all_eq_nil]
  rfl

end Dateless

end Snippet
