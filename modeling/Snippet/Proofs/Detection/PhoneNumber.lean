import Snippet.Proofs.Detection.Figures

/-!
# Phone numbers in their form

A phone number that is detected is shown in a form that starts with a parenthesis
(`Phone.exists_of_detect`). Without further fields the form is undetected, as no detector takes a
number whose area code stands in parentheses (`Phone.undetected_display`).
-/

namespace Snippet

open Pattern Regex

namespace Phone

variable {digits number t v : Text} {today : Date}

/-- A text that starts with another character than a phone number does. -/
theorem detect_cons_eq_noMatch {c : Char} (hwhite : Text.isWhite c = false)
    (hdigit : Text.isDigit c = false) (hplus : c ≠ '+') : detect (c :: t) = .noMatch := by
  refine detect_eq_noMatch fun w n r hsplit hw hread _ => ?_
  obtain ⟨⟨d, v, rfl, hd⟩, -⟩ := starts_of_phone hread
  cases w with
  | nil =>
    obtain rfl := (List.cons.inj hsplit).1
    rw [hdigit] at hd
    exact hd.elim Bool.false_ne_true hplus
  | cons d w =>
    obtain rfl := (List.cons.inj hsplit).1
    exact Text.not_mem_of_isBlank hw hwhite (List.mem_cons_self ..)

/-- Ten digits of ASCII. -/
structure IsNational (digits : Text) : Prop where
  length_eq : digits.length = 10
  isDigit : ∀ c ∈ digits, c.isDigit

theorem isNational_of_nationalDigits? (h : nationalDigits? number = some digits) :
    IsNational digits := by
  have hdigit : ∀ c ∈ number.filter Char.isDigit, c.isDigit := fun c hc =>
    (List.mem_filter.mp hc).2
  unfold nationalDigits? at h
  dsimp only at h
  split at h
  · obtain rfl := Option.some.inj h
    exact ⟨‹_›, hdigit⟩
  · split at h
    · rename_i rest hrest
      split at h
      · obtain rfl := Option.some.inj h
        exact ⟨‹_›, fun c hc => hdigit c (hrest ▸ List.mem_cons_of_mem _ hc)⟩
      · cases h
    · cases h

/-- A text that is shown as a phone number starts with one, and the fields behind it are kept. -/
theorem exists_fields_of_detect (h : detect t = .text v) :
    ∃ field fields digits, Text.splitWhere (· == ';') (Text.trim t) = field :: fields ∧
      phone.regex.Reads (Text.trim field) ∧ nationalDigits? (Text.trim field) = some digits ∧
      v = Text.join "; ".toList (display digits :: extras fields) := by
  unfold detect at h
  dsimp only at h
  split at h
  · cases h
  · rename_i field fields hfields
    split at h
    · rename_i hmatch
      split at h
      · rename_i digits hdigits
        cases h
        exact ⟨field, fields, digits, hfields, (matchesAll_iff_reads rfl).mp hmatch, hdigits, rfl⟩
      · cases h
    · cases h

/-- The form of a number, and behind a semicolon the fields that follow it. -/
theorem exists_of_detect (h : detect t = .text v) :
    ∃ digits, IsNational digits ∧ (v = display digits ∨ ∃ r, v = display digits ++ ';' :: r) := by
  obtain ⟨field, fields, digits, -, -, hdigits, rfl⟩ := exists_fields_of_detect h
  refine ⟨digits, isNational_of_nationalDigits? hdigits, ?_⟩
  rw [Text.join_cons]
  cases extras fields with
  | nil => exact .inl (List.append_nil _)
  | cons field fields => exact .inr ⟨_, rfl⟩

/-- What is shown for a phone number is none. -/
theorem detect_of_detect (h : detect t = .text v) : detect v = .noMatch := by
  obtain ⟨digits, -, rfl | ⟨r, rfl⟩⟩ := exists_of_detect h
  all_goals exact detect_cons_eq_noMatch (by decide) (by decide) (by decide)

theorem filter_isDigit_of_phoneSeparator (h : phoneSeparator.Reads v) :
    v.filter Text.isDigit = [] := by
  refine List.filter_eq_nil_iff.mpr fun c hc hdigit => ?_
  rcases reads_opt_iff.mp h with rfl | h
  · cases hc
  · obtain ⟨x, rfl, hx⟩ := reads_one_iff.mp h
    obtain rfl := List.mem_singleton.mp hc
    simp only [Bool.or_eq_true, beq_iff_eq] at hx
    rcases hx with (hx | rfl) | rfl
    · rw [Text.isWhite_eq_false_of_isDigit hdigit] at hx
      cases hx
    · cases hdigit
    · cases hdigit

/-- The only digit of a country code is a one. -/
theorem filter_isDigit_of_countryCode
    (h : (opt (Regex.all [opt (Regex.char '+'), Regex.char '1', phoneSeparator])).Reads v) :
    v.filter Text.isDigit ∈ [[], ['1']] := by
  rcases reads_opt_iff.mp h with rfl | h
  · exact List.mem_cons_self ..
  · simp only [reads_all_cons_iff] at h
    obtain ⟨plus, -, rfl, hplus, one, -, rfl, hone, sep, e, rfl, hs, he⟩ := h
    obtain rfl := reads_empty_iff.mp he
    obtain ⟨x, rfl, hx⟩ := reads_one_iff.mp hone
    obtain rfl := beq_iff_eq.mp hx
    have hplus : plus.filter Text.isDigit = [] := by
      rcases reads_opt_iff.mp hplus with rfl | hplus
      · rfl
      · obtain ⟨y, rfl, hy⟩ := reads_one_iff.mp hplus
        obtain rfl := beq_iff_eq.mp hy
        rfl
    rw [List.append_nil, List.filter_append, List.filter_append, hplus,
      filter_isDigit_of_phoneSeparator hs]
    exact List.mem_cons_of_mem _ (List.mem_cons_self ..)

/-- A phone number has ten decimal digits, or a one in front of ten decimal digits. -/
theorem filter_isDigit_of_reads (h : phone.regex.Reads v) :
    ∃ code rest, v.filter Text.isDigit = code ++ rest ∧ code ∈ [[], ['1']] ∧ rest.length = 10 := by
  have hkept : ∀ {u : Text} {n : Nat}, (times digit n).Reads u →
      u.filter Text.isDigit = u ∧ u.length = n := fun hu =>
    ⟨List.filter_eq_self.mpr (hu.forall_mem (over_times (r := digit) (fun _ => id) _)),
      length_of_times hu⟩
  simp only [phone, ofRegex, reads_all_cons_iff] at h
  obtain ⟨code, -, rfl, hcode, a, -, rfl, ha, s₁, -, rfl, hs₁, b, -, rfl, hb, s₂, -, rfl, hs₂, c, e,
    rfl, hc, he⟩ := h
  obtain rfl := reads_empty_iff.mp he
  obtain ⟨ha, halength⟩ := hkept ha
  obtain ⟨hb, hblength⟩ := hkept hb
  obtain ⟨hc, hclength⟩ := hkept hc
  refine ⟨code.filter Text.isDigit, a ++ (b ++ c), ?_, filter_isDigit_of_countryCode hcode, ?_⟩
  · simp only [List.filter_append, ha, hb, hc, filter_isDigit_of_phoneSeparator hs₁,
      filter_isDigit_of_phoneSeparator hs₂, List.nil_append, List.append_nil]
  · simp only [List.length_append, halength, hblength, hclength]

/-- Where all decimal digits are of ASCII, the digits of ASCII are the decimal ones. -/
theorem filter_isDigit_eq (hascii : ∀ c ∈ v, Text.isDigit c → c.isDigit) :
    v.filter Char.isDigit = v.filter Text.isDigit :=
  List.filter_congr fun c hc => Bool.eq_iff_iff.mpr ⟨Text.isDigit_of_isDigit, hascii c hc⟩

/-- **A text of ASCII digits in the shape of a phone number is shown in its form.** -/
theorem exists_text_of_reads (h : phone.regex.Reads v)
    (hascii : ∀ c ∈ v, Text.isDigit c → c.isDigit) (htrim : Text.trim v = v) :
    ∃ w, detect v = .text w := by
  obtain ⟨code, rest, hfilter, hcode, hlength⟩ := filter_isDigit_of_reads h
  obtain ⟨digits, hdigits⟩ : ∃ digits, nationalDigits? v = some digits := by
    simp only [List.mem_cons, List.not_mem_nil, or_false] at hcode
    rw [nationalDigits?, filter_isDigit_eq hascii, hfilter]
    rcases hcode with rfl | rfl
    · exact ⟨rest, if_pos hlength⟩
    · refine ⟨rest, ?_⟩
      simp [hlength]
  have hfield : v.takeWhile (!· == ';') = v := by
    refine List.takeWhile_eq_self_iff.mpr fun c hc => ?_
    have hne : c ≠ ';' := by
      rintro rfl
      exact absurd (h.forall_mem phone_over ';' hc) (by decide)
    simpa using hne
  obtain ⟨fields, hfields⟩ := Text.splitWhere_eq (· == ';') v
  rw [hfield] at hfields
  rw [detect, htrim, hfields]
  simp [htrim, (matchesAll_iff_reads rfl).mpr h, hdigits]

section

variable (h : IsNational digits)
include h

theorem mem_display : ∀ c ∈ display digits, c.isDigit ∨ c ∈ ['(', ')', ' ', '-'] := by
  intro c hc
  have htake : ∀ n, c ∈ digits.take n → c.isDigit := fun n hc =>
    h.isDigit c ((List.take_sublist ..).mem hc)
  have hdrop : ∀ n, c ∈ digits.drop n → c.isDigit := fun n hc =>
    h.isDigit c ((List.drop_sublist ..).mem hc)
  simp only [display, List.cons_append, List.mem_cons, List.mem_append] at hc
  rcases hc with rfl | ((hc | hc) | hc) | rfl | hc
  · exact .inr (by decide)
  · exact .inl (htake 3 hc)
  · exact .inr ((by decide : ∀ c ∈ ") ".toList, c ∈ ['(', ')', ' ', '-']) c hc)
  · exact .inl (hdrop 3 ((List.take_sublist ..).mem hc))
  · exact .inr (by decide)
  · exact .inl (hdrop 6 hc)

theorem reads_phoneFormatted : phoneFormatted.regex.Reads (display digits) := by
  have htimes : ∀ {u : Text} {n : Nat}, u.length = n → (∀ c ∈ u, c ∈ digits) →
      (times digit n).Reads u := fun hlength hu =>
    reads_times hlength fun c hc => Text.isDigit_of_isDigit (h.isDigit c (hu c hc))
  have hlength := h.length_eq
  have harea := htimes (u := digits.take 3) (n := 3) (by simp [hlength]) fun c hc =>
    (List.take_sublist ..).mem hc
  have hexchange := htimes (u := (digits.drop 3).take 3) (n := 3) (by simp [hlength]) fun c hc =>
    (List.drop_sublist ..).mem ((List.take_sublist ..).mem hc)
  have hline := htimes (u := digits.drop 6) (n := 4) (by simp [hlength]) fun c hc =>
    (List.drop_sublist ..).mem hc
  have htext : display digits = ['('] ++ (digits.take 3 ++ ([')'] ++ ([' '] ++
      ((digits.drop 3).take 3 ++ (['-'] ++ digits.drop 6))))) := by
    simp [display]
  rw [htext]
  exact .seq (.one rfl) (.seq harea (.seq (.one rfl) (.seq (.left (.one rfl)) (.seq hexchange
    (.seq (.one rfl) hline)))))

theorem isArithmetic_display : ∀ c ∈ display digits, isArithmetic c := by
  intro c hc
  rcases mem_display h c hc with hdigit | hmem
  · exact isArithmetic_of_isDigit (Text.isDigit_of_isDigit hdigit)
  · exact (by decide : ∀ c ∈ ['(', ')', ' ', '-'], isArithmetic c) c hmem

theorem noNumericDate_display : NoNumericDate (display digits) := by
  have hnone : ∀ x, Char.isDigit x = false → x ∉ digits := by
    intro x hx hmem
    rw [h.isDigit x hmem] at hx
    cases hx
  have hcount : ∀ x, x ∉ ['(', ')', ' ', '-'] → Char.isDigit x = false → x ∉ display digits := by
    intro x hx hx' hmem
    rcases mem_display h x hmem with hdigit | hmem
    · rw [hx'] at hdigit
      cases hdigit
    · exact hx hmem
  refine .of_count (hcount '/' (by decide) (by decide)) ?_ ?_
  · rw [List.count_eq_zero.mpr (hcount '.' (by decide) (by decide))]
    exact Nat.zero_le 1
  · have hzero : ∀ {u : Text}, (∀ c ∈ u, c ∈ digits) → u.count '-' = 0 := fun hu =>
      List.count_eq_zero.mpr fun hmem => hnone '-' (by decide) (hu _ hmem)
    have harea := hzero (u := digits.take 3) fun c hc => (List.take_sublist ..).mem hc
    have hexchange := hzero (u := (digits.drop 3).take 3) fun c hc =>
      (List.drop_sublist ..).mem ((List.take_sublist ..).mem hc)
    have hline := hzero (u := digits.drop 6) fun c hc => (List.drop_sublist ..).mem hc
    simp [display, List.count_append, harea, hexchange, hline]

theorem exists_last_display : ∃ u x, display digits = u ++ [x] ∧ x.isDigit := by
  have hne : digits.drop 6 ≠ [] := by
    rw [Ne, List.drop_eq_nil_iff, h.length_eq]
    decide
  obtain ⟨u, x, hu⟩ := (List.eq_nil_or_concat' (digits.drop 6)).resolve_left hne
  refine ⟨'(' :: digits.take 3 ++ ") ".toList ++ (digits.drop 3).take 3 ++ '-' :: u, x, ?_, ?_⟩
  · rw [display, hu, List.append_assoc _ ('-' :: u)]
    rfl
  · exact h.isDigit x ((List.drop_sublist 6 digits).mem (hu ▸ by simp))

theorem trim_display : Text.trim (display digits) = display digits := by
  obtain ⟨u, x, hu, hx⟩ := exists_last_display h
  refine Text.trim_eq_self (fun c hc => ?_) fun c hc => ?_
  · obtain rfl : '(' = c := by simpa [display] using hc
    decide
  · rw [hu, List.getLast?_concat] at hc
    cases hc
    exact Text.isWhite_eq_false_of_isDigit (Text.isDigit_of_isDigit hx)

/-- **The form of a phone number is undetected.** -/
theorem undetected_display : Undetected today (display digits) := by
  have harith : ∀ c ∈ display digits, isArithmeticOrOf c := fun c hc =>
    isArithmeticOrOf_of_isArithmetic (isArithmetic_display h c hc)
  have hdate : Dateless (display digits) :=
    .of_noNumericDate (noNumericDate_display h) (.of_isArithmetic (isArithmetic_display h))
  have hlast : (Text.trim (display digits)).getLast? ≠ some '%' := by
    obtain ⟨u, x, hu, hx⟩ := exists_last_display h
    rw [trim_display h, hu, List.getLast?_concat]
    rintro ⟨⟩
    cases hx
  refine ⟨hdate.ofText?_eq_none today, detect_cons_eq_noMatch (by decide) (by decide) (by decide),
    Rating.percentage?_eq_none harith (.inr hlast), Combination.detect_eq_noMatch harith,
    fun template => ?_, Unit.conversion?_eq_none harith, Clock.answer?_eq_none harith⟩
  have hformatted : phoneFormatted.matchesAll (Text.trim (display digits)) := by
    rw [trim_display h]
    exact (matchesAll_iff_reads rfl).mpr (reads_phoneFormatted h)
  rw [Arithmetic.process, Arithmetic.isCandidate, hformatted]
  simp

end

end Phone

end Snippet
