import Snippet.Proofs.Calendar.ReadBack
import Snippet.Proofs.Detection.Shown
import Snippet.Proofs.Pipeline.Splits
import Snippet.Proofs.Pipeline.WholeArithmetic

/-!
# Labels in front of a seed

A label has no digits, names no month and no rating, and ends with white space behind a character
that is no run of arithmetic (`IsLabel`). So nothing that a detector looks for begins in a label, and
what stands behind it is taken as the seed.
-/

namespace Snippet

open Pattern

variable {lead s t u v w : Text} {today : Date}

/-! ## Tokens that begin in a text without digits -/

section

variable {y b z : Text} (hy : ∀ c ∈ y, Text.isDigit c = false)
include hy

/-- There is a digit in a token, so it reaches over the end of the text. -/
theorem exists_eq_append_of_digitless {p : Pattern} (h : y ++ b = u ++ z)
    (hp : p ∈ [dateTokenIso, dateToken, dateTokenText]) (hread : p.regex.Reads u) :
    ∃ r, u = y ++ r := by
  rcases List.append_eq_append_iff.mp h with ⟨r, hr, -⟩ | ⟨r, rfl, -⟩
  · exact ⟨r, hr⟩
  · obtain ⟨d, hd, hdigit⟩ := hread.exists_mem (needs_digit p (List.mem_append_left [_] hp))
    rw [hy d (List.mem_append_left r hd)] at hdigit
    cases hdigit

/-- A token with the name of a month starts with this name. -/
theorem exists_monthName_of_digitless (hne : y ≠ []) (hread : dateTokenText.regex.Reads (y ++ b)) :
    ∃ name rest, y ++ b = name ++ rest ∧ monthName.Reads name ∧
      Regex.NoneNext Text.isForm rest := by
  obtain ⟨a, name, rest, hsplit, hname, hnext, ha⟩ := exists_monthName_of_dateTokenText hread
  cases a with
  | nil => exact ⟨name, rest, hsplit, hname, hnext⟩
  | cons d a =>
    obtain ⟨c, y, rfl⟩ := List.exists_cons_of_ne_nil hne
    obtain rfl : c = d := (List.cons.inj hsplit).1
    have hdigit := ha c rfl
    rw [hy c (List.mem_cons_self ..)] at hdigit
    cases hdigit

end

/-! ## Labels -/

/-- A label that stands in front of a seed. -/
structure IsLabel (lead : Text) : Prop where
  isDigit_eq_false : ∀ c ∈ lead, Text.isDigit c = false
  /-- The character in front of the white space at its end is no run. -/
  exists_name : ∃ name d space, lead = name ++ d :: space ∧ isRun d = false ∧ space ≠ [] ∧
    Text.isBlank space
  namesNoMonth : NamesNoMonth lead
  not_rating : ∀ w ∈ ["pd", "rating"], (Text.trim lead).map Text.foldCase ≠ w.toList

namespace IsLabel

/-- There is white space at the end. -/
theorem exists_front (h : IsLabel lead) : ∃ front c, lead = front ++ [c] ∧ Text.isWhite c := by
  obtain ⟨name, d, space, rfl, -, hne, hspace⟩ := h.exists_name
  obtain ⟨space, c, rfl⟩ := (List.eq_nil_or_concat' space).resolve_left hne
  exact ⟨name ++ d :: space, c, by simp, List.all_eq_true.mp hspace c (by simp)⟩

/-! ## Dates behind a label -/

/-- No token begins in a label. -/
theorem beginsNoToken (h : IsLabel lead) : DateToken.BeginsNoToken lead := by
  intro x y u b z hlead hy hyu p hp hread
  obtain ⟨front, c, hfront, hc⟩ := h.exists_front
  obtain ⟨y, e, rfl⟩ := (List.eq_nil_or_concat' y).resolve_left hy
  obtain rfl : e = c := by
    have hlast := congrArg List.getLast? (hlead.symm.trans hfront)
    simpa using hlast
  have hdigits : ∀ d ∈ y ++ [e], Text.isDigit d = false := fun d hd =>
    h.isDigit_eq_false d (hlead ▸ List.mem_append_right x hd)
  obtain ⟨r, rfl⟩ := exists_eq_append_of_digitless hdigits hyu hp hread
  simp only [List.mem_cons, List.not_mem_nil, or_false] at hp
  rcases hp with rfl | rfl | rfl
  · rw [DateToken.isWhite_eq_false_of_numeric (by simp) hread e (by simp)] at hc
    cases hc
  · rw [DateToken.isWhite_eq_false_of_numeric (by simp) hread e (by simp)] at hc
    cases hc
  · -- the token starts with the name of a month, and the white space is behind the name
    obtain ⟨name, b', hsplit, hname, hnext⟩ := exists_monthName_of_digitless hdigits (by simp) hread
    have hmem : e ∉ name := by
      intro hmem
      have hform := hname.forall_mem monthName_over e hmem
      rw [Text.isForm_eq_false_of_isWhite hc] at hform
      cases hform
    have hsplit : y ++ e :: r = [] ++ (name ++ b') := by simpa using hsplit
    rcases Text.cases_of_append_cons hsplit hmem with ⟨w, rfl, rfl⟩ | ⟨w, hw, -⟩
    · refine h.namesNoMonth x name (w ++ [e]) (by simp [hlead]) hname fun d hd => hnext d ?_
      rw [List.head?_append] at hd ⊢
      exact hd
    · simp at hw

theorem isWord_getLast? (h : IsLabel lead) : lead.getLast?.any Text.isWord = false := by
  obtain ⟨front, c, rfl, hc⟩ := h.exists_front
  simpa using Text.isWord_eq_false_of_isWhite hc

theorem joinsNumber_reverse (h : IsLabel lead) : DateToken.joinsNumber lead.reverse = false := by
  obtain ⟨front, c, rfl, hc⟩ := h.exists_front
  have hmark : (c == '.' || c == ',') = false := by
    rw [Bool.or_eq_false_iff, beq_eq_false_iff_ne, beq_eq_false_iff_ne]
    constructor
    · rintro rfl
      cases hc
    · rintro rfl
      cases hc
  rw [List.reverse_concat]
  cases front.reverse with
  | nil => rfl
  | cons d v => rw [DateToken.joinsNumber, hmark, Bool.false_and]

/-! ## Texts without dates behind a label -/

theorem dateless_append (h : IsLabel lead) (hnumeric : NoNumericDate v) (hmonth : NamesNoMonth v) :
    Dateless (lead ++ v) := by
  obtain ⟨front, c, rfl, hc⟩ := h.exists_front
  have hform := Text.isForm_eq_false_of_isWhite hc
  have hdigits : ∀ d ∈ front, Text.isDigit d = false := fun d hd =>
    h.isDigit_eq_false d (List.mem_append_left _ hd)
  have hsep : c ∉ dateSeparators := by
    have hall : ∀ s ∈ dateSeparators, Text.isWhite s = false := by decide
    intro hmem
    rw [hall c hmem] at hc
    cases hc
  rw [← List.append_cons]
  exact .of_noNumericDate
    ((NoNumericDate.of_forall hdigits).append_cons hnumeric (h.isDigit_eq_false c (by simp)) hsep)
    ((h.namesNoMonth.of_append_cons hform).append_cons hmonth hform)

/-- What stands behind a label is no rating. -/
theorem not_percentageCode (h : IsLabel lead) (v : Text) :
    ¬ percentageCode.regex.Reads (lead ++ v) := by
  intro hread
  obtain ⟨a, b, hsplit, hb, ha⟩ := parts_of_percentageCode hread
  have hform := isForm_of_mem_ratingName ha
  obtain ⟨name, d, space, rfl, hd, hne, hspace⟩ := h.exists_name
  obtain ⟨c, space, rfl⟩ := List.exists_cons_of_ne_nil hne
  have hmem : c ∉ a := by
    intro hmem
    exact Text.not_mem_of_isBlank hspace (Text.isWhite_eq_false_of_isForm (hform c hmem))
      (List.mem_cons_self ..)
  have hsplit : name ++ [d] ++ c :: (space ++ v) = [] ++ (a ++ b) := by simpa using hsplit
  rcases Text.cases_of_append_cons hsplit hmem with ⟨z, hname, rfl⟩ | ⟨z, hz, -⟩
  · -- the character that is no run belongs to the word of the rating, which is all of the label
    rw [List.nil_append] at hname
    obtain rfl : z = [] := by
      rcases List.eq_nil_or_concat' z with rfl | ⟨z, e, rfl⟩
      · rfl
      · rw [← List.append_assoc] at hname
        obtain ⟨-, hde⟩ := List.append_inj' hname rfl
        obtain rfl := (List.cons.inj hde).1
        rw [isRun, hb d (by simp), Bool.true_or, Bool.true_or] at hd
        cases hd
    rw [List.append_nil] at hname
    have hwhite : ∀ x ∈ name ++ [d], Text.isWhite x = false := fun x hx =>
      Text.isWhite_eq_false_of_isForm (hform x (hname ▸ hx))
    have htrim : Text.trim (name ++ d :: c :: space) = name ++ [d] := by
      rw [List.append_cons]
      have hbetween := Text.trim_between (t := name ++ [d]) (show Text.isBlank [] from rfl) hspace
      rw [List.nil_append] at hbetween
      rw [hbetween]
      exact Text.trim_eq_self (fun x hx => hwhite x (List.mem_of_head? hx))
        fun x hx => hwhite x (List.mem_of_getLast? hx)
    obtain ⟨w, hw, hfold⟩ := ha.resolve_left fun hnil => by simp [hnil] at hname
    exact h.not_rating w hw (by rw [htrim, hname, hfold])
  · simp at hz

/-- **A text without dates behind a label is undetected.** -/
theorem undetected_append (h : IsLabel lead) (hnumeric : NoNumericDate v) (hmonth : NamesNoMonth v)
    (htrim : Text.trim (lead ++ v) = lead ++ v) : Undetected today (lead ++ v) := by
  have hdate := h.dateless_append hnumeric hmonth
  have hrating := h.not_percentageCode v
  rw [← htrim] at hrating
  obtain ⟨name, d, space, rfl, hd, -, -⟩ := h.exists_name
  have harith : isArithmetic d = false := by
    rw [isRun, Bool.or_eq_false_iff, Bool.or_eq_false_iff] at hd
    exact hd.1.1
  rw [List.append_assoc, List.cons_append] at hdate hrating ⊢
  exact undetected_behind (fun x hx => h.isDigit_eq_false x (by simp [hx])) harith hdate hrating

/-- **An end of a label in front of a quantity is undetected.** -/
theorem undetected_suffix (h : IsLabel lead) (hs : s <:+ lead) (hv : Quantity w u) :
    Undetected today (s ++ (w ++ u)) := by
  have hdate := h.dateless_append hv.noNumericDate hv.namesNoMonth
  obtain ⟨name, d, space, rfl, hd, -, hspace⟩ := h.exists_name
  obtain ⟨r, hr⟩ := hs
  rw [← hr, List.append_assoc] at hdate
  have hdate := hdate.of_append
  have hbehind : ∀ z, z <:+ name → s = z ++ d :: space → Undetected today (s ++ (w ++ u)) := by
    rintro z hz rfl
    have harith : isArithmetic d = false := by
      rw [isRun, Bool.or_eq_false_iff, Bool.or_eq_false_iff] at hd
      exact hd.1.1
    have hrating : ¬ percentageCode.regex.Reads (Text.trim (z ++ d :: space ++ (w ++ u))) := by
      obtain ⟨a, x, b, hsplit, hx, c, hc, hother⟩ := hv.exists_other
      rw [hsplit, ← List.append_assoc]
      exact Pattern.not_percentageCode hx hc hother
    rw [List.append_assoc, List.cons_append] at hdate hrating ⊢
    exact undetected_behind (fun x hx => h.isDigit_eq_false x (by simp [hz.subset hx])) harith hdate
      hrating
  rcases List.append_eq_append_iff.mp hr with ⟨z, hname, hz⟩ | ⟨z, -, hz⟩
  · exact hbehind z ⟨r, hname.symm⟩ hz
  · cases z with
    | nil => exact hbehind [] List.nil_suffix hz.symm
    | cons e z =>
      -- only white space is left of the label
      obtain ⟨-, rfl⟩ := List.cons.inj hz
      exact hv.undetected.white_append (Text.isBlank_append.mp hspace).2 hv.dateless

end IsLabel

/-! ## The seed behind a lead -/

theorem DateRange.trim_describe {r : DateRange} (hstart : 0 ≤ r.start.year ∧ r.start.year ≤ 9999) :
    Text.trim r.describe = r.describe := by
  obtain ⟨x, t, hx, halnum⟩ := (written_slashed hstart).starts hstart
  refine Text.trim_eq_self (fun c hc => ?_) fun c hc => ?_
  · obtain rfl : x = c := by simpa [describe, hx] using hc
    exact Text.isWhite_eq_false_of_isAlphanum halnum
  · rw [describe, List.getLast?_append_of_ne_nil _ (by decide)] at hc
    obtain rfl : 's' = c := Option.some.inj hc
    decide

namespace Seed

variable {k : Nat} {r : DateRange}

theorem ofText_eq (htrim : Text.trim t = t) (hne : t ≠ []) (h : start? t = some k) :
    ofText t = ⟨t.take k, t.drop k⟩ := by
  have hblank : ¬ Text.isBlank t := by rwa [← Text.trim_eq_nil_iff, htrim]
  have hseed := ofText_trim hblank
  rwa [htrim, h] at hseed

theorem lead_eq_nil_of_start?_eq_none (htrim : Text.trim t = t) (hne : t ≠ [])
    (h : start? t = none) : (ofText t).lead = [] := by
  have hblank : ¬ Text.isBlank t := by rwa [← Text.trim_eq_nil_iff, htrim]
  have hseed := ofText_trim hblank
  rw [htrim, h] at hseed
  rw [hseed]

/-- **A date range behind a label is found there.** -/
theorem dateStart?_describe (hlead : lead = [] ∨ IsLabel lead)
    (hstart : 0 ≤ r.start.year ∧ r.start.year ≤ 9999) :
    dateStart? (lead ++ r.describe) = some lead.length := by
  have htext : r.describe = r.start.slashed ++ ' ' :: ("to ".toList ++ r.stop.slashed ++
      ", ".toList ++ DateRange.intText r.days ++ " days".toList) := by
    simp [DateRange.describe]
  have hfirst := fun ha hnumber => DateToken.start_of_beginsNoToken (a := lead)
    (b := ' ' :: ("to ".toList ++ r.stop.slashed ++ ", ".toList ++ DateRange.intText r.days ++
      " days".toList)) (DateRange.written_slashed hstart) hstart ha hnumber
    (by simp [Date.Delimited]) (DateToken.joinsNumber_blank _)
  rw [dateStart?, htext]
  rcases hlead with rfl | hlabel
  · exact hfirst rfl rfl fun x y u b c hxy hy => absurd (List.append_eq_nil_iff.mp hxy.symm).2 hy
  · exact hfirst hlabel.isWord_getLast? hlabel.joinsNumber_reverse hlabel.beginsNoToken

/-- **A quantity behind a label is not cut, so the seed is undetected.** -/
theorem undetected_of_quantity (hlead : lead = [] ∨ IsLabel lead) (h : Quantity w u)
    (htrim : Text.trim (lead ++ (w ++ u)) = lead ++ (w ++ u)) :
    (ofText (lead ++ (w ++ u))).lead = [] ∨
      Undetected today (ofText (lead ++ (w ++ u))).body := by
  have hne : lead ++ (w ++ u) ≠ [] := by simp [h.ne_nil]
  have hdate : dateStart? (lead ++ (w ++ u)) = none := by
    rcases hlead with rfl | hlabel
    · exact h.dateless.dateStart?_eq_none
    · exact (hlabel.dateless_append h.noNumericDate h.namesNoMonth).dateStart?_eq_none
  have hw : ∀ c ∈ w, opensSeed c = false := by
    intro c hc
    rw [opensSeed, isWhite_of_isQuantityChar (h.isQuantityChar c hc), Bool.false_or,
      ← Bool.not_eq_true, List.contains_iff_mem]
    intro hmem
    have hall : ∀ c ∈ ['(', '[', '\x7b'], isQuantityChar c = false := by decide
    have hchar := h.isQuantityChar c hc
    rw [hall c hmem] at hchar
    cases hchar
  cases hstart : start? (lead ++ (w ++ u)) with
  | none => exact .inl (lead_eq_nil_of_start?_eq_none htrim hne hstart)
  | some k =>
    rw [ofText_eq htrim hne hstart]
    right
    rcases (splitsAt_of_start? hdate hstart).drop_cases hw with ⟨s, hs, hdrop⟩ | hdrop
    · dsimp only
      rw [hdrop]
      rcases hlead with rfl | hlabel
      · rw [List.suffix_nil.mp hs, List.nil_append]
        exact h.undetected
      · exact hlabel.undetected_suffix hs h
    · exact undetected_of_forall fun c hc => h.isDigit_eq_false c (hdrop.subset hc)

/-- **A text of arithmetic without dates is the seed behind a label.** -/
theorem ofText_of_isArithmetic (hlead : lead = [] ∨ IsLabel lead)
    (hhead : ∀ c ∈ lead.head?, Text.isWhite c = false) (hv : ∀ c ∈ v, isArithmetic c)
    (hdigit : ∃ c ∈ v, c.isDigit) (htrim : Text.trim v = v) (hnumeric : NoNumericDate v) :
    ofText (lead ++ v) = ⟨lead, v⟩ := by
  obtain ⟨x, hx, hxdigit⟩ := hdigit
  have hvne : v ≠ [] := List.ne_nil_of_mem hx
  have hoperand : hasOperand v := List.any_eq_true.mpr ⟨x, hx, by rw [hxdigit, Bool.true_or]⟩
  have hrun : ∀ c ∈ v, isRun c := fun c hc => by
    rw [isRun, hv c hc, Bool.true_or, Bool.true_or]
  have hmonth : NamesNoMonth v := .of_isArithmetic hv
  have hstart : start? (lead ++ v) = some lead.length := by
    rcases hlead with rfl | hlabel
    · exact start?_of_forall_isArithmetic hv ⟨x, hx, hxdigit⟩ (htrim ▸ Text.leadingWhite_trim v)
        (Dateless.of_noNumericDate hnumeric hmonth).dateStart?_eq_none
    · have hdate := (hlabel.dateless_append hnumeric hmonth).dateStart?_eq_none
      obtain ⟨name, d, space, rfl, hd, hne, hspace⟩ := hlabel.exists_name
      rw [List.append_assoc, List.cons_append] at hdate ⊢
      exact start?_of_label hne hspace hvne hrun
        (fun c hc => Text.isWhite_eq_false_of_head?_trim (htrim.symm ▸ hc)) hd hoperand hdate
  rw [ofText_eq (Text.trim_append hhead htrim hvne) (by simp [hvne]) hstart, List.take_left,
    List.drop_left]

end Seed

end Snippet
