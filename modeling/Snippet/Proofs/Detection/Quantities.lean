import Snippet.Proofs.Detection.Figures

/-!
# Quantities are undetected

Many detectors show a figure or a time with a unit or another word behind it (`Quantity`). A quantity
fits no shape, as there is neither a sign inside nor a further digit behind the word
(`Quantity.undetected`).
-/

namespace Snippet

open Pattern

/-- A character of a figure or a time. -/
def isQuantityChar (c : Char) : Bool := Number.isFigureChar c || c == '-' || c == ':'

/-- A figure or a time `w`, and what stands behind it. -/
structure Quantity (w u : Text) : Prop where
  ne_nil : w ≠ []
  isQuantityChar : ∀ c ∈ w, isQuantityChar c
  isDigit_eq_false : ∀ c ∈ u, Text.isDigit c = false
  /-- A sign stands in front of all, and nothing is listed. -/
  not_mem : ∀ c ∈ w.tail ++ u, c ∉ ['+', '-', ';']
  isWhite_getLast? : ∀ c ∈ (w ++ u).getLast?, Text.isWhite c = false
  /-- It does not go on with a name and a word. -/
  countP_le : ∀ b, b <:+ u → (∃ c v, b = c :: v ∧ isUnitLead c) → b.countP Text.isWhite ≤ 1
  /-- Something behind a digit tells it from a phone number and a rating code. -/
  exists_other : ∃ a x b, w ++ u = a ++ x :: b ∧ Text.isDigit x ∧ ∃ c ∈ b, isArithmetic c = false
  noNumericDate : NoNumericDate (w ++ u)
  namesNoMonth : NamesNoMonth (w ++ u)
  process_eq_none : ∀ template, Arithmetic.process template (w ++ u) = none

/-- There is no rating code with a character behind a digit that is not of arithmetic. -/
theorem Pattern.not_percentageCode {a b : Text} {x c : Char} (hx : Text.isDigit x) (hc : c ∈ b)
    (hother : isArithmetic c = false) : ¬ percentageCode.regex.Reads (Text.trim (a ++ x :: b)) := by
  intro hread
  obtain ⟨name, rest, htrim, hrest, hname⟩ := parts_of_percentageCode hread
  have hblank : ¬ Text.isBlank (a ++ x :: b) := by
    intro hblank
    exact Text.not_mem_of_isBlank hblank (Text.isWhite_eq_false_of_isDigit hx) (by simp)
  have hsplit := Text.leadingWhite_append_trim_append_trailingWhite hblank
  rw [htrim, List.append_assoc, ← List.append_assoc] at hsplit
  -- the digit is behind the name, and so is the other character
  have hdigit : x ∉ Text.leadingWhite (a ++ x :: b) ++ name := by
    intro hmem
    rcases List.mem_append.mp hmem with hmem | hmem
    · exact Text.not_mem_of_isBlank (Text.isBlank_leadingWhite _)
        (Text.isWhite_eq_false_of_isDigit hx) hmem
    · have hform := isForm_of_mem_ratingName hname x hmem
      rw [Text.isForm_eq_false_of_isDigit hx] at hform
      cases hform
  obtain ⟨z, -, hz⟩ := Text.exists_of_not_mem_left hsplit.symm hdigit
  have hmem : c ∈ rest ++ Text.trailingWhite (a ++ x :: b) := hz ▸ by simp [hc]
  rcases List.mem_append.mp hmem with hmem | hmem
  · rw [hrest c hmem] at hother
    cases hother
  · rw [isArithmetic_of_isWhite (Text.isWhite_of_isBlank (Text.isBlank_trailingWhite _) hmem)] at hother
    cases hother

/-! ## Characters of quantities -/

section

variable {c : Char}

theorem cases_of_isQuantityChar (h : isQuantityChar c) :
    c.isDigit ∨ c = '.' ∨ c = ',' ∨ c = '$' ∨ c = '-' ∨ c = ':' := by
  simpa [isQuantityChar, Number.isFigureChar, or_assoc] using h

theorem isWhite_of_isQuantityChar (h : isQuantityChar c) : Text.isWhite c = false := by
  rcases cases_of_isQuantityChar h with h | rfl | rfl | rfl | rfl | rfl
  · exact Text.isWhite_eq_false_of_isDigit (Text.isDigit_of_isDigit h)
  all_goals decide

theorem isForm_of_isQuantityChar (h : isQuantityChar c) : Text.isForm c = false := by
  rcases cases_of_isQuantityChar h with h | rfl | rfl | rfl | rfl | rfl
  · exact Text.isForm_eq_false_of_isDigit (Text.isDigit_of_isDigit h)
  all_goals decide

theorem isUnitLead_of_isQuantityChar (h : isQuantityChar c) : isUnitLead c = false := by
  rcases cases_of_isQuantityChar h with h | rfl | rfl | rfl | rfl | rfl
  · have hmark : ∀ x ∈ "°µ'\"".toList, Text.isDigit x = false := by decide
    rw [← Bool.not_eq_true, isUnitLead, Bool.or_eq_true]
    rintro (halpha | hmem)
    · have hdigit := Text.isDigit_eq_false_of_isAlpha halpha
      rw [Text.isDigit_of_isDigit h] at hdigit
      cases hdigit
    · have hdigit := hmark c (List.contains_iff_mem.mp hmem)
      rw [Text.isDigit_of_isDigit h] at hdigit
      cases hdigit
  all_goals decide

end

/-! ## The shapes do not fit -/

namespace Quantity

variable {today : Date} {w u : Text} (h : Quantity w u)
include h

theorem trim_eq : Text.trim (w ++ u) = w ++ u := by
  refine Text.trim_eq_self (fun c hc => ?_) h.isWhite_getLast?
  obtain ⟨d, v, rfl⟩ := List.exists_cons_of_ne_nil h.ne_nil
  obtain rfl : d = c := by simpa using hc
  exact isWhite_of_isQuantityChar (h.isQuantityChar d (List.mem_cons_self ..))

theorem not_phone : Phone.detect (w ++ u) = .noMatch := by
  refine Phone.detect_eq_noMatch fun a n r _ _ hread hn => ?_
  have hlist : ';' ∉ w ++ u := by
    intro hmem
    obtain ⟨d, v, rfl⟩ := List.exists_cons_of_ne_nil h.ne_nil
    rcases List.mem_cons.mp hmem with rfl | hmem
    · exact absurd (h.isQuantityChar ';' (List.mem_cons_self ..)) (by decide)
    · exact h.not_mem ';' hmem (by simp)
  obtain ⟨a, x, b, hsplit, -, c, hc, hother⟩ := h.exists_other
  rw [hn hlist, h.trim_eq, hsplit] at hread
  rw [hread.forall_mem phone_over c (by simp [hc])] at hother
  cases hother

theorem not_percentageCode : ¬ percentageCode.regex.Reads (Text.trim (w ++ u)) := by
  obtain ⟨a, x, b, hsplit, hx, c, hc, hother⟩ := h.exists_other
  rw [hsplit]
  exact Pattern.not_percentageCode hx hc hother

theorem not_combination : ¬ combination.regex.Reads (w ++ u) := by
  intro hread
  obtain ⟨a, x, b, hsplit, hx, d, hd, hdigit⟩ := exists_letter_of_combination hread
  have hletter : x ∉ w := by
    intro hmem
    have hchar := h.isQuantityChar x hmem
    simp only [List.mem_cons, List.not_mem_nil, or_false] at hx
    rcases hx with rfl | rfl <;> exact absurd hchar (by decide)
  -- the digit would stand behind the letter, and there are letters behind the quantity only
  obtain ⟨z, -, rfl⟩ := Text.exists_of_not_mem_left hsplit.symm hletter
  rw [h.isDigit_eq_false d (by simp [hd])] at hdigit
  cases hdigit

theorem not_unitConversion : ¬ unitConversion.regex.Reads (w ++ u) := by
  intro hread
  obtain ⟨a, b, hsplit, ⟨c, v, rfl, hlead⟩, hcount⟩ := exists_name_of_unitConversion hread
  have hmem : c ∉ w := by
    intro hmem
    rw [isUnitLead_of_isQuantityChar (h.isQuantityChar c hmem)] at hlead
    cases hlead
  obtain ⟨z, -, rfl⟩ := Text.exists_of_not_mem_left hsplit.symm hmem
  have hle := h.countP_le (c :: v) (List.suffix_append ..) ⟨c, v, rfl, hlead⟩
  omega

theorem not_timeCalc : ¬ timeCalc.regex.Reads (w ++ u) := by
  intro hread
  obtain ⟨c, a, x, b, hsplit, hx⟩ := exists_sign_of_timeCalc hread
  obtain ⟨d, w, rfl⟩ := List.exists_cons_of_ne_nil h.ne_nil
  have hrest : w ++ u = a ++ x :: b := (List.cons.inj hsplit).2
  refine h.not_mem x ?_ (List.mem_append_left [';'] hx)
  rw [List.tail_cons, hrest]
  simp

theorem dateless : Dateless (w ++ u) := .of_noNumericDate h.noNumericDate h.namesNoMonth

/-- **A quantity is undetected.** -/
theorem undetected : Undetected today (w ++ u) where
  dateRange_eq := h.dateless.ofText?_eq_none today
  phone_eq := h.not_phone
  rating_eq := Rating.percentage?_eq_none_of_not_reads h.not_percentageCode
  combination_eq :=
    Combination.detect_eq_noMatch_of_not_reads (h.trim_eq.symm ▸ h.not_combination)
  arithmetic_eq := h.process_eq_none
  unit_eq := Unit.conversion?_eq_none_of_not_reads (h.trim_eq.symm ▸ h.not_unitConversion)
  clock_eq := Clock.answer?_eq_none_of_not_reads (h.trim_eq.symm ▸ h.not_timeCalc)

end Quantity

/-! ## Captions -/

/-- Words that are shown behind a figure or a time. -/
structure Caption (u : Text) : Prop where
  mem_head? : ∀ c ∈ u.head?, c ∈ [' ', '%']
  isDigit_eq_false : ∀ c ∈ u, Text.isDigit c = false
  not_mem : ∀ c ∈ u, c ∉ ['+', '-', ';']
  isWhite_getLast? : ∀ c ∈ u.getLast?, Text.isWhite c = false
  countP_le : u.tail.countP Text.isWhite ≤ 1
  namesNoMonth : NamesNoMonth u

namespace Caption

variable {w u : Text}

theorem nil : Caption [] where
  mem_head? := by simp
  isDigit_eq_false := by simp
  not_mem := by simp
  isWhite_getLast? := by simp
  countP_le := Nat.zero_le 1
  namesNoMonth := .of_forall (by simp)

/-- A letter in a caption stands behind its first blank. -/
theorem countP_of_suffix (hu : Caption u) {b : Text} (hb : b <:+ u)
    (hlead : ∃ c v, b = c :: v ∧ isUnitLead c) : b.countP Text.isWhite ≤ 1 := by
  obtain ⟨z, rfl⟩ := hb
  obtain ⟨c, v, rfl, hlead⟩ := hlead
  cases z with
  | nil =>
    have hnot : ∀ c ∈ [' ', '%'], isUnitLead c = false := by decide
    rw [hnot c (hu.mem_head? c rfl)] at hlead
    cases hlead
  | cons d z =>
    have hle := hu.countP_le
    rw [List.cons_append, List.tail_cons, List.countP_append] at hle
    omega

section

variable (hu : Caption u) (hw : ∀ c ∈ w, isQuantityChar c)
include hu hw

theorem not_mem_tail_append (hsign : '-' ∉ w.tail) : ∀ c ∈ w.tail ++ u, c ∉ ['+', '-', ';'] := by
  intro c hc
  rcases List.mem_append.mp hc with hc | hc
  · intro hmem
    have hchar := hw c (List.mem_of_mem_tail hc)
    simp only [List.mem_cons, List.not_mem_nil, or_false] at hmem
    rcases hmem with rfl | rfl | rfl
    · exact absurd hchar (by decide)
    · exact hsign hc
    · exact absurd hchar (by decide)
  · exact hu.not_mem c hc

theorem isWhite_getLast?_append : ∀ c ∈ (w ++ u).getLast?, Text.isWhite c = false := by
  intro c hc
  cases u with
  | nil =>
    rw [List.append_nil] at hc
    exact isWhite_of_isQuantityChar (hw c (List.mem_of_getLast? hc))
  | cons d u =>
    rw [List.getLast?_append_of_ne_nil w (List.cons_ne_nil d u)] at hc
    exact hu.isWhite_getLast? c hc

/-- One sign in front and one point do not separate the parts of a date. -/
theorem noNumericDate_append (hsign : '-' ∉ w.tail) (hpoint : w.count '.' ≤ 1) :
    NoNumericDate (w ++ u) := by
  have hcount : w.count '-' ≤ 1 := by
    cases w with
    | nil => decide
    | cons d v =>
      rw [List.count_cons, List.count_eq_zero.mpr (show '-' ∉ v from hsign)]
      split <;> decide
  have hbefore : NoNumericDate w := .of_count
    (fun hslash => absurd (hw '/' hslash) (by decide)) hpoint hcount
  cases u with
  | nil => rwa [List.append_nil]
  | cons c u =>
    have hsep : ∀ c ∈ [' ', '%'], c ∉ dateSeparators := by decide
    exact hbefore.append_cons (.of_forall fun d hd => hu.isDigit_eq_false d (by simp [hd]))
      (hu.isDigit_eq_false c (by simp)) (hsep c (hu.mem_head? c rfl))

theorem namesNoMonth_append : NamesNoMonth (w ++ u) := by
  have hbefore : NamesNoMonth w := .of_forall fun c hc => isForm_of_isQuantityChar (hw c hc)
  cases u with
  | nil => rwa [List.append_nil]
  | cons c u =>
    have hform : ∀ c ∈ [' ', '%'], Text.isForm c = false := by decide
    exact hbefore.append_cons (.of_append (a := [c]) hu.namesNoMonth) (hform c (hu.mem_head? c rfl))

end

/-- **A figure or a time with a caption is a quantity.** -/
theorem quantity (hu : Caption u) (hne : w ≠ []) (hw : ∀ c ∈ w, isQuantityChar c)
    (hsign : '-' ∉ w.tail) (hpoint : w.count '.' ≤ 1)
    (hother : ∃ a x b, w ++ u = a ++ x :: b ∧ Text.isDigit x ∧ ∃ c ∈ b, isArithmetic c = false)
    (harith : ∀ template, Arithmetic.process template (w ++ u) = none) : Quantity w u where
  ne_nil := hne
  isQuantityChar := hw
  isDigit_eq_false := hu.isDigit_eq_false
  not_mem := hu.not_mem_tail_append hw hsign
  isWhite_getLast? := hu.isWhite_getLast?_append hw
  countP_le _ := hu.countP_of_suffix
  exists_other := hother
  noNumericDate := hu.noNumericDate_append hw hsign hpoint
  namesNoMonth := hu.namesNoMonth_append hw
  process_eq_none := harith

end Caption

end Snippet
