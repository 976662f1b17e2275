import Snippet.Proofs.Detection.PhoneNumber

/-!
# The digits of a phone number

The pattern of phone numbers reads the decimal digits of every script, ten of them behind an
optional country code, but only those of ASCII are shown. So the digits shown are always the last
ten of ASCII, and they are the last ten of all decimal digits exactly if every decimal digit of the
number is of ASCII (`Phone.detect_keeps_digits`).
-/

namespace Snippet

open Pattern

namespace Phone

variable {digits number t v : Text} {fields : List Text}

theorem rtake_append {a b : Text} {n : Nat} (h : b.length = n) : (a ++ b).rtake n = b := by
  rw [List.rtake, List.length_append, h, Nat.add_sub_cancel, List.drop_left]

/-- The digits that are shown are those of ASCII, behind an optional country code. -/
theorem filter_isDigit_of_nationalDigits? (h : nationalDigits? number = some digits) :
    ∃ code, number.filter Char.isDigit = code ++ digits ∧ code ∈ [[], ['1']] := by
  unfold nationalDigits? at h
  dsimp only at h
  split at h
  · exact ⟨[], Option.some.inj h, List.mem_cons_self ..⟩
  · split at h
    · rename_i rest hrest
      obtain rfl := Option.some.inj (Option.ite_none_right_eq_some.mp h).2
      exact ⟨['1'], hrest, by simp⟩
    · cases h

/-- **The digits that are shown are the last ten decimal digits exactly if all decimal digits are of
ASCII.** -/
theorem eq_rtake_iff (hreads : phone.regex.Reads number)
    (h : nationalDigits? number = some digits) :
    digits = (number.filter Text.isDigit).rtake 10 ↔
      ∀ c ∈ number, Text.isDigit c → c.isDigit := by
  have hnational := isNational_of_nationalDigits? h
  obtain ⟨code, rest, hdecimal, hcode, hlength⟩ := filter_isDigit_of_reads hreads
  constructor
  · rw [hdecimal, rtake_append hlength]
    rintro rfl c hc hdigit
    -- a decimal digit of the number is shown or is the country code
    have hmem : c ∈ code ++ digits := by
      rw [← hdecimal]
      exact List.mem_filter.mpr ⟨hc, hdigit⟩
    have hones : ∀ code ∈ [[], ['1']], ∀ c ∈ code, Char.isDigit c := by decide
    exact (List.mem_append.mp hmem).elim (hones code hcode c) (hnational.isDigit c)
  · intro hascii
    obtain ⟨code', hshown, -⟩ := filter_isDigit_of_nationalDigits? h
    rw [← filter_isDigit_eq hascii, hshown, rtake_append hnational.length_eq]

/-- The fields that are kept are those that are not blank, trimmed. -/
theorem extras_eq (fields : List Text) :
    extras fields = (fields.filter fun f => !Text.isBlank f).map Text.trim := by
  rw [extras, List.filter_map]
  congr 1
  refine List.filter_congr fun f _ => congrArg not (Bool.eq_iff_iff.mpr ?_)
  exact List.isEmpty_iff.trans Text.trim_eq_nil_iff

/-- The fields of the trimmed text are, when they are trimmed, those of the text. -/
theorem exists_fields_of_splitWhere {field : Text}
    (h : Text.splitWhere (· == ';') (Text.trim t) = field :: fields) :
    ∃ field' fields', t.splitOn ';' = field' :: fields' ∧ Text.trim field' = Text.trim field ∧
      extras fields' = extras fields := by
  have hsemicolon : ∀ c, Text.isWhite c → (c == ';') = false := by
    intro c hc
    rw [beq_eq_false_iff_ne]
    rintro rfl
    cases hc
  obtain ⟨field', fields', hsplit⟩ := List.exists_cons_of_ne_nil (List.splitOnP_ne_nil (· == ';') t)
  have hmap := Text.map_trim_splitOnP_trim hsemicolon t
  rw [← Text.splitWhere_eq_splitOnP, h, hsplit, List.map_cons, List.map_cons,
    List.cons.injEq] at hmap
  refine ⟨field', fields', (List.splitOn_eq_splitOnP ..).trans hsplit, hmap.1.symm, ?_⟩
  rw [extras, extras, hmap.2]

/-- **What is shown for a phone number.** Let the number be what stands in front of the first
semicolon. It is shown in its form, and behind it each later field that is not blank, trimmed. The
ten digits shown are the last ten of ASCII. They are the last ten decimal digits exactly if all
decimal digits of the number are of ASCII, and then the number has no others or just a country code
in front of them. What is shown is no phone number. -/
theorem detect_keeps_digits (h : detect t = .text v) :
    ∃ field fields digits, t.splitOn ';' = field :: fields ∧ IsNational digits ∧
      v = display digits ++
        ((fields.filter fun f => !Text.isBlank f).map Text.trim).flatMap ("; ".toList ++ ·) ∧
      digits = ((Text.trim field).filter Char.isDigit).rtake 10 ∧
      (digits = ((Text.trim field).filter Text.isDigit).rtake 10 ↔
        ∀ c ∈ Text.trim field, Text.isDigit c → c.isDigit) ∧
      ((∀ c ∈ Text.trim field, Text.isDigit c → c.isDigit) →
        (Text.trim field).filter Text.isDigit = digits ∨
          (Text.trim field).filter Text.isDigit = '1' :: digits) ∧
      detect v = .noMatch := by
  have hagain := detect_of_detect h
  obtain ⟨field', fields', digits, hsplit, hreads, hdigits, hv⟩ := exists_fields_of_detect h
  obtain ⟨field, fields, ht, hfield, hextras⟩ := exists_fields_of_splitWhere hsplit
  rw [← hfield] at hreads hdigits
  have hnational := isNational_of_nationalDigits? hdigits
  obtain ⟨code, hshown, hcode⟩ := filter_isDigit_of_nationalDigits? hdigits
  refine ⟨field, fields, digits, ht, hnational, ?_, ?_, eq_rtake_iff hreads hdigits, ?_, hagain⟩
  · rw [hv, Text.join_cons, ← hextras, extras_eq]
  · rw [hshown, rtake_append hnational.length_eq]
  · intro hascii
    rw [← filter_isDigit_eq hascii, hshown]
    simp only [List.mem_cons, List.not_mem_nil, or_false] at hcode
    rcases hcode with rfl | rfl
    · exact .inl (List.nil_append _)
    · exact .inr rfl

/-- The country code is not shown, and a field behind the number is kept. -/
theorem detect_keeps_digits_behind_country_code :
    detect " +1 555.123 4567 ;; ext. 9 ".toList = .text "(555) 123-4567; ext. 9".toList ∧
      detect "(555) 123-4567; ext. 9".toList = .noMatch := by
  have hdetect : detect " +1 555.123 4567 ;; ext. 9 ".toList =
      .text "(555) 123-4567; ext. 9".toList := by
    decide +kernel
  obtain ⟨_, _, _, -, -, -, -, -, -, hagain⟩ := detect_keeps_digits hdetect
  exact ⟨hdetect, hagain⟩

/-- With a digit of another script, the country code is shown and this digit is lost. -/
theorem detect_shows_country_code :
    detect "1555123456٣".toList = .text "(155) 512-3456".toList ∧
      ("1555123456٣".toList.filter Text.isDigit).rtake 10 = "555123456٣".toList ∧
      "(155) 512-3456".toList ≠ display "555123456٣".toList := by
  decide +kernel

end Phone

end Snippet
