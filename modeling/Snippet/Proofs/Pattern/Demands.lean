import Snippet.Proofs.Calendar.TokenItems

/-!
# What the shapes demand

What a text must have in order to be read by one of the shapes that the detectors look for. All of
the shapes need a digit, and but for tokens and rating codes, only characters of arithmetic may
stand in front of the first digit (`leads_digit`).
-/

namespace Snippet.Pattern

open Regex

variable {u : Text} {c : Char}

/-! ## Digits -/

theorem isArithmetic_of_isWhite (h : Text.isWhite c) : isArithmetic c := by
  rw [isArithmetic, h, Bool.or_true, Bool.true_or]

theorem needs_times {r : Regex} {q : Char → Prop} (h : r.Needs q) (n : Nat) :
    (times r (n + 1)).Needs q :=
  needs_all_iff.mpr ⟨r, List.mem_replicate.mpr ⟨Nat.succ_ne_zero n, rfl⟩, h⟩

/-- Tokens and rating codes need a digit. -/
theorem needs_digit : ∀ p ∈ [dateTokenIso, dateToken, dateTokenText, percentageCode],
    p.regex.Needs (Text.isDigit ·) := by
  have hdigit : digit.Needs (Text.isDigit ·) := fun _ => id
  have hshort : shortNumber.Needs (Text.isDigit ·) := .inl hdigit
  have hfull : fullYear.Needs (Text.isDigit ·) := needs_times hdigit 3
  have hnumeric : ∀ rs : List Regex, (∀ r ∈ rs, r.Needs (Text.isDigit ·)) →
      (all [wordBoundary, anyOf rs, wordBoundary]).Needs (Text.isDigit ·) := fun rs hrs =>
    .inr (.inl (needs_anyOf_iff.mpr hrs))
  simp only [List.forall_mem_cons, List.not_mem_nil, false_imp_iff, implies_true, and_true]
  refine ⟨hnumeric _ ?_, hnumeric _ ?_, ⟨?_, ?_⟩, .inr (.inr (.inl (.inl hdigit))),
    .inl (.inl hdigit)⟩
  · simp only [List.forall_mem_map]
    exact fun sep _ => .inl hfull
  · simp only [List.forall_mem_append, List.forall_mem_map, List.forall_mem_singleton]
    exact ⟨fun sep _ => .inl hshort, .inl hshort⟩
  · exact .inr (.inr (.inr (.inr (.inl hshort))))
  · exact .inr (.inl hshort)

theorem arithmeticLead_over : (many (one isArithmeticLead)).Over (isArithmetic ·) := fun _ =>
  isArithmetic_of_isArithmeticLead

theorem arithmeticSign_over : (opt (charIn ['-', '+'])).Over (isArithmetic ·) := by
  refine ⟨fun x hx => ?_, trivial⟩
  have hall : ∀ x ∈ ['-', '+'], isArithmetic x := by decide
  exact hall x (List.contains_iff_mem.mp hx)

theorem phoneSeparator_over : phoneSeparator.Over (isArithmetic ·) := by
  refine ⟨fun x hx => ?_, trivial⟩
  simp only [Bool.or_eq_true, beq_iff_eq] at hx
  rcases hx with (hx | rfl) | rfl
  · exact isArithmetic_of_isWhite hx
  · decide
  · decide

/-- **The other shapes need a digit behind characters of arithmetic.** -/
theorem leads_digit :
    ∀ p ∈ [phone, combination, arithmeticCandidate, unitConversion, timeCalc],
      p.regex.Leads (isArithmetic ·) (Text.isDigit ·) := by
  have hdigit : digit.Leads (isArithmetic ·) (Text.isDigit ·) := fun _ => id
  have hchar : ∀ x, isArithmetic x → (Regex.char x).Over (isArithmetic ·) :=
    fun x hx y hy => beq_iff_eq.mp hy ▸ hx
  have hopt : ∀ x, isArithmetic x → (opt (Regex.char x)).Over (isArithmetic ·) :=
    fun x hx => ⟨hchar x hx, trivial⟩
  simp only [List.forall_mem_cons, List.not_mem_nil, false_imp_iff, implies_true, and_true]
  refine ⟨.inr ⟨?_, .inl (.inl hdigit)⟩, .inl (.inl (.inl hdigit)),
    .inr ⟨arithmeticLead_over, .inr ⟨arithmeticSign_over, .inr ⟨arithmeticLead_over, .inl hdigit⟩⟩⟩,
    .inl ⟨?_, ?_⟩, .inl (.inl (.inl hdigit))⟩
  · exact ⟨⟨hopt '+' (by decide), hchar '1' (by decide), phoneSeparator_over⟩, trivial⟩
  · exact .inr ⟨hopt '-' (by decide), .inl hdigit⟩
  · exact .inr ⟨hopt '-' (by decide), .inr ⟨hchar '.' (by decide), .inl hdigit⟩⟩

/-! ## Dates -/

/-- Between word boundaries, one of the alternatives is read. -/
theorem exists_reads_of_wordBounded {rs : List Regex}
    (h : (all [wordBoundary, anyOf rs, wordBoundary]).Reads u) : ∃ r ∈ rs, r.Reads u := by
  simp only [all, reads_seq_iff] at h
  obtain ⟨e, -, rfl, he, v, e', rfl, hv, he'⟩ := h
  obtain rfl := he.eq_nil rfl
  obtain rfl := he'.eq_nil rfl
  rw [List.nil_append, List.append_nil]
  exact reads_anyOf_iff.mp hv

/-- A numeric token has a slash or one of the other separators twice. -/
theorem separators_of_numericToken {p : Pattern} (hp : p ∈ [dateTokenIso, dateToken])
    (h : p.regex.Reads u) : '/' ∈ u ∨ 2 ≤ u.count '.' ∨ 2 ≤ u.count '-' := by
  have hthree : ∀ {r₁ r₂ r₃ : Regex}, ∀ sep ∈ dateSeparators,
      (all [r₁, Regex.char sep, r₂, Regex.char sep, r₃]).Reads u →
      '/' ∈ u ∨ 2 ≤ u.count '.' ∨ 2 ≤ u.count '-' := by
    intro r₁ r₂ r₃ sep hsep hread
    obtain ⟨a, b, e, rfl, -⟩ := exists_of_separated hread
    have hcount : 2 ≤ (a ++ sep :: (b ++ sep :: e)).count sep := by
      simp only [List.count_append, List.count_cons_self]
      omega
    simp only [dateSeparators, List.mem_cons, List.not_mem_nil, or_false] at hsep
    rcases hsep with rfl | rfl | rfl
    · exact .inl (by simp)
    · exact .inr (.inl hcount)
    · exact .inr (.inr hcount)
  simp only [List.mem_cons, List.not_mem_nil, or_false] at hp
  rcases hp with rfl | rfl
  · obtain ⟨r, hr, hread⟩ := exists_reads_of_wordBounded h
    obtain ⟨sep, hsep, rfl⟩ := List.mem_map.mp hr
    exact hthree sep hsep hread
  · obtain ⟨r, hr, hread⟩ := exists_reads_of_wordBounded h
    rcases List.mem_append.mp hr with hr | hr
    · obtain ⟨sep, hsep, rfl⟩ := List.mem_map.mp hr
      exact hthree sep hsep hread
    · obtain rfl := List.mem_singleton.mp hr
      have hslash : monthDay.Needs (· = '/') :=
        needs_all_iff.mpr ⟨Regex.char '/', by simp, fun _ hx => beq_iff_eq.mp hx⟩
      obtain ⟨x, hx, rfl⟩ := hread.exists_mem hslash
      exact .inl hx

theorem opt_char_over_noForm {x : Char} (hx : Text.isForm x = false) :
    (opt (Regex.char x)).Over (Text.isForm · = false) :=
  ⟨fun _ hy => beq_iff_eq.mp hy ▸ hx, trivial⟩

/-- A token with the name of a month has no letter behind the name, and in front of it nothing or
what begins with a digit. -/
theorem exists_monthName_of_dateTokenText (h : dateTokenText.regex.Reads u) :
    ∃ a name b, u = a ++ (name ++ b) ∧ monthName.Reads name ∧ NoneNext Text.isForm b ∧
      ∀ x ∈ a.head?, Text.isDigit x := by
  have hpoint : (opt (Regex.char '.')).Over (Text.isForm · = false) :=
    opt_char_over_noForm (by decide)
  have hwhite : (many1 white).Over (Text.isForm · = false) :=
    ⟨fun _ => Text.isForm_eq_false_of_isWhite, fun _ => Text.isForm_eq_false_of_isWhite⟩
  cases DateToken.readsText_of_reads h with
  | @monthFirst name point gap n ending tail hname hpointRead hgap _ _ _ =>
    refine ⟨[], name, _, rfl, hname, fun x hx => ?_, by simp⟩
    -- behind the point there is white space
    obtain ⟨y, gap, rfl⟩ := List.exists_cons_of_ne_nil (reads_many1_one_iff.mp hgap).1
    cases point with
    | nil =>
      obtain rfl : y = x := by simpa using hx
      exact hgap.forall_mem hwhite y (List.mem_cons_self ..)
    | cons z point =>
      obtain rfl : z = x := by simpa using hx
      exact hpointRead.forall_mem hpoint z (List.mem_cons_self ..)
  | @dayFirst name point gap n ending tail hname hpointRead _ hn _ htail =>
    obtain ⟨y, n, rfl, hdigit⟩ := hn.exists_cons (p := (Text.isDigit ·)) (.inl fun _ => id)
    refine ⟨y :: n ++ (ending ++ gap), name, point ++ tail, by simp, hname, fun x hx => ?_, by
      simpa using hdigit⟩
    have hyearOver : (writtenYear fullYear).Over (Text.isForm · = false) := by
      refine ⟨⟨opt_char_over_noForm (by decide), hwhite, ?_⟩, trivial⟩
      exact fullYear_over.mono fun _ => Text.isForm_eq_false_of_isDigit
    rcases List.mem_append.mp (List.mem_of_mem_head? hx) with hx | hx
    · exact hpointRead.forall_mem hpoint x hx
    · exact htail.forall_mem hyearOver x hx

/-! ## The other shapes -/

theorem length_of_times {q : Char → Bool} {n : Nat} (h : (times (one q) n).Reads u) :
    u.length = n := by
  rw [times] at h
  induction n generalizing u with
  | zero => rw [reads_empty_iff.mp h, List.length_nil]
  | succ n ih =>
    obtain ⟨a, b, rfl, ha, hb⟩ := reads_all_cons_iff.mp h
    obtain ⟨x, rfl, -⟩ := reads_one_iff.mp ha
    rw [List.singleton_append, List.length_cons, ih hb]

theorem reads_times {q : Char → Bool} {n : Nat} (hlength : u.length = n) (hu : ∀ x ∈ u, q x) :
    (times (one q) n).Reads u := by
  rw [times]
  induction u generalizing n with
  | nil =>
    subst hlength
    exact .empty
  | cons x u ih =>
    subst hlength
    rw [List.forall_mem_cons] at hu
    exact reads_all_cons_iff.mpr ⟨[x], u, rfl, .one hu.1, ih rfl hu.2⟩

/-- A phone number starts with a digit or a plus and has ten digits. -/
theorem starts_of_phone (h : phone.regex.Reads u) :
    (∃ c v, u = c :: v ∧ (Text.isDigit c ∨ c = '+')) ∧ 10 ≤ u.length := by
  simp only [phone, ofRegex, reads_all_cons_iff] at h
  obtain ⟨code, -, rfl, hcode, a, -, rfl, ha, -, -, rfl, -, b, -, rfl, hb, -, -, rfl, -, c, -, rfl, hc,
    -⟩ := h
  refine ⟨?_, ?_⟩
  · have hdigits := ha.exists_cons (p := fun x => Text.isDigit x ∨ x = '+') (.inl fun _ => .inl)
    rcases reads_opt_iff.mp hcode with rfl | hcode
    · obtain ⟨x, v, rfl, hx⟩ := hdigits
      exact ⟨x, _, rfl, hx⟩
    · simp only [reads_all_cons_iff] at hcode
      obtain ⟨plus, -, rfl, hplus, one, -, rfl, hone, -⟩ := hcode
      obtain ⟨x, rfl, hx⟩ := reads_one_iff.mp hone
      rcases reads_opt_iff.mp hplus with rfl | hplus
      · refine ⟨x, _, rfl, .inl ?_⟩
        rw [beq_iff_eq.mp hx]
        rfl
      · obtain ⟨y, rfl, hy⟩ := reads_one_iff.mp hplus
        exact ⟨y, _, rfl, .inr (beq_iff_eq.mp hy)⟩
  · have hlength := length_of_times ha
    have hlength' := length_of_times hb
    have hlength'' := length_of_times hc
    simp only [List.length_append]
    omega

theorem phone_over : phone.regex.Over (isArithmetic ·) := by
  have hdigit : digit.Over (isArithmetic ·) := fun _ => isArithmetic_of_isDigit
  have hchar : ∀ x, isArithmetic x → (Regex.char x).Over (isArithmetic ·) :=
    fun x hx _ hy => beq_iff_eq.mp hy ▸ hx
  have hsep := phoneSeparator_over
  exact ⟨⟨⟨⟨hchar '+' (by decide), trivial⟩, hchar '1' (by decide), hsep⟩, trivial⟩,
    over_times hdigit 3, hsep, over_times hdigit 3, hsep, over_times hdigit 4⟩

/-- A rating code is a word and a number, or a number with a percent sign. -/
theorem parts_of_percentageCode (h : percentageCode.regex.Reads u) :
    ∃ a b, u = a ++ b ∧ (∀ c ∈ b, isArithmetic c) ∧
      (a = [] ∨ ∃ w ∈ ["pd", "rating"], a.map Text.foldCase = w.toList) := by
  have hdigit : digit.Over (isArithmetic ·) := fun _ => isArithmetic_of_isDigit
  have hnumber : (timesUpTo digit 1 2).Over (isArithmetic ·) :=
    ⟨over_times hdigit 1, over_upTo hdigit 2⟩
  have hwhite : (many white).Over (isArithmetic ·) := fun _ => isArithmetic_of_isWhite
  have hpercent : (Regex.char '%').Over (isArithmetic ·) := fun _ hx => beq_iff_eq.mp hx ▸ by decide
  rw [percentageCode, ofRegex, reads_alt_iff] at h
  rcases h with h | h
  · obtain ⟨a, b, rfl, ha, hb⟩ := reads_all_cons_iff.mp h
    refine ⟨a, b, rfl, hb.forall_mem ⟨hwhite, hnumber, hwhite, hpercent, trivial⟩, .inr ?_⟩
    obtain ⟨r, hr, ha⟩ := reads_anyOf_iff.mp ha
    obtain ⟨w, hw, rfl⟩ := List.mem_map.mp hr
    have hlower : ∀ w ∈ ["pd", "rating"], w.toList.all Char.isLower := by decide
    exact ⟨w, hw, (reads_word_iff (hlower w hw)).mp ha⟩
  · exact ⟨[], u, rfl, h.forall_mem ⟨hnumber, hwhite, hpercent⟩, .inl rfl⟩

theorem isForm_of_mem_ratingName {name : Text}
    (h : name = [] ∨ ∃ w ∈ ["pd", "rating"], name.map Text.foldCase = w.toList) :
    ∀ c ∈ name, Text.isForm c := by
  rcases h with rfl | ⟨w, hw, hname⟩
  · simp
  · have hlower : ∀ w ∈ ["pd", "rating"], w.toList.all Char.isLower := by decide
    exact Text.isForm_of_map_foldCase (hlower w hw) hname

theorem isArithmetic_eq_false_of_isForm (h : Text.isForm c) : isArithmetic c = false := by
  have hmark : ∀ x ∈ "$.,()+-*/%^".toList, Text.isForm x = false := by decide
  rw [← Bool.not_eq_true, isArithmetic, Bool.or_eq_true, Bool.or_eq_true, List.contains_iff_mem]
  rintro ((hdigit | hwhite) | hmem)
  · rw [Text.isForm_eq_false_of_isDigit hdigit] at h
    cases h
  · rw [Text.isForm_eq_false_of_isWhite hwhite] at h
    cases h
  · rw [hmark c hmem] at h
    cases h

/-- What is not of arithmetic in an arithmetic text is the word "of". -/
theorem filter_of_arithmeticCandidate (h : arithmeticCandidate.regex.Reads u) :
    (u.filter (!isArithmetic ·)).map Text.foldCase ∈ [[], "of".toList] := by
  have hnone : ∀ {r : Regex} {v : Text}, r.Reads v → r.Over (isArithmetic ·) →
      v.filter (!isArithmetic ·) = [] := fun hv hover =>
    List.filter_eq_nil_iff.mpr fun x hx => by simp [hv.forall_mem hover x hx]
  have hdigit : digit.Over (isArithmetic ·) := fun _ => isArithmetic_of_isDigit
  have harith : (many (one isArithmetic)).Over (isArithmetic ·) := fun _ => id
  simp only [arithmeticCandidate, ofRegex, reads_all_cons_iff] at h
  obtain ⟨a, -, rfl, ha, b, -, rfl, hb, c, -, rfl, hc, d, -, rfl, hd, e, -, rfl, he, z, w, rfl, hz,
    hrest⟩ := h
  obtain rfl := reads_empty_iff.mp hrest
  simp only [List.filter_append, hnone ha arithmeticLead_over, hnone hb arithmeticSign_over,
    hnone hc arithmeticLead_over, hnone hd hdigit, hnone he harith, List.nil_append,
    List.append_nil]
  rcases reads_opt_iff.mp hz with rfl | hz
  · exact List.mem_cons_self ..
  · obtain ⟨word, v, rfl, hword, hv⟩ := reads_all_cons_iff.mp hz
    have hof := (reads_word_iff (by decide)).mp hword
    have hall : word.filter (!isArithmetic ·) = word := by
      refine List.filter_eq_self.mpr fun x hx => ?_
      have hmem : Text.foldCase x ∈ "of".toList := hof ▸ List.mem_map_of_mem hx
      have hlower : "of".toList.all Char.isLower := by decide
      rw [isArithmetic_eq_false_of_isForm (List.all_eq_true.mp hlower _ hmem), Bool.not_false]
    rw [List.filter_append, hall, hnone hv ⟨harith, harith⟩, List.append_nil, hof]
    exact List.mem_cons_of_mem _ (List.mem_cons_self ..)

/-- In a combination there is a digit behind the letter c. -/
theorem exists_letter_of_combination (h : combination.regex.Reads u) :
    ∃ a x b, u = a ++ x :: b ∧ x ∈ ['c', 'C'] ∧ ∃ d ∈ b, Text.isDigit d := by
  simp only [combination, ofRegex, many1, reads_all_cons_iff, reads_seq_iff] at h
  obtain ⟨a, -, rfl, -, b, -, rfl, -, c, -, rfl, -, rounds, tail, rfl, ⟨round, more, rfl, ⟨d, -, rfl,
    -, l, -, rfl, hl, e, -, rfl, -, n, rest, rfl, hn, -⟩, -⟩, -⟩ := h
  obtain ⟨x, rfl, hx⟩ := reads_one_iff.mp hl
  obtain ⟨y, hy, hdigit⟩ := hn.exists_mem (p := (Text.isDigit ·)) (.inl (.inl fun _ => id))
  exact ⟨a ++ (b ++ (c ++ d)), x, e ++ (n ++ (rest ++ (more ++ tail))), by simp,
    List.contains_iff_mem.mp hx, y, by simp [hy], hdigit⟩

/-- A conversion goes on behind its value with a name, and then with a word between white space. -/
theorem exists_name_of_unitConversion (h : unitConversion.regex.Reads u) :
    ∃ a b, u = a ++ b ∧ (∃ c v, b = c :: v ∧ isUnitLead c) ∧ 2 ≤ b.countP Text.isWhite := by
  simp only [unitConversion, ofRegex, reads_all_cons_iff, reads_group_iff] at h
  obtain ⟨value, -, rfl, -, blank, -, rfl, -, name, -, rfl, hname, w, -, rfl, hw, word, -, rfl, -,
    w', rest, rfl, hw', -⟩ := h
  refine ⟨value ++ blank, name ++ (w ++ (word ++ (w' ++ rest))), by simp, ?_, ?_⟩
  · obtain ⟨c, v, rfl, hc⟩ := hname.exists_cons (p := (isUnitLead ·)) (.inl fun _ => id)
    exact ⟨c, _, rfl, hc⟩
  · have hpos : ∀ v, (many1 white).Reads v → 1 ≤ v.countP Text.isWhite := by
      intro v hv
      obtain ⟨hne, hall⟩ := reads_many1_one_iff.mp hv
      obtain ⟨x, v, rfl⟩ := List.exists_cons_of_ne_nil hne
      exact List.countP_pos_iff.mpr ⟨x, List.mem_cons_self .., hall x (List.mem_cons_self ..)⟩
    have hfirst := hpos w hw
    have hsecond := hpos w' hw'
    simp only [List.countP_append]
    omega

/-- A calculation with a time has a sign behind its first digit. -/
theorem exists_sign_of_timeCalc (h : timeCalc.regex.Reads u) :
    ∃ c a x b, u = c :: a ++ x :: b ∧ x ∈ ['+', '-'] := by
  simp only [timeCalc, ofRegex, reads_all_cons_iff, reads_group_iff] at h
  obtain ⟨time, -, rfl, ⟨n, rest, rfl, hn, -⟩, white, -, rfl, -, sign, b, rfl, hsign, -⟩ := h
  obtain ⟨c, v, rfl, -⟩ := hn.exists_cons (p := (Text.isDigit ·)) (.inl fun _ => id)
  obtain ⟨x, rfl, hx⟩ := reads_one_iff.mp hsign
  exact ⟨c, v ++ rest ++ white, x, b, by simp, List.contains_iff_mem.mp hx⟩

end Snippet.Pattern
