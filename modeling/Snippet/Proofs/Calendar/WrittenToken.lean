import Snippet.Proofs.Calendar.WrittenDate

/-!
# Written dates as tokens

One of the patterns for date tokens takes the whole of a written date between word boundaries
(`Date.Written.exists_prefers`). What separates the parts of a date tells the patterns in numbers
apart (`takes_anyOf_separated`), and what the names of the months begin with tells these from numbers.
-/

namespace Snippet

open Regex

namespace Pattern

variable {r₁ r₂ r₃ : Regex} {sep : Char} {a b e m t u : Text} {next : Text → Prop}
  {g : Nat → List (Nat × Span)}

/-! ## Separators -/

theorem isDigit_eq_false_of_mem_dateSeparators :
    ∀ sep ∈ dateSeparators, Text.isDigit sep = false := by
  decide

theorem digit_over : digit.Over (Text.isDigit ·) := fun _ => id

theorem shortNumber_over : shortNumber.Over (Text.isDigit ·) :=
  ⟨over_times digit_over 1, over_upTo digit_over 1⟩

theorem fullYear_over : fullYear.Over (Text.isDigit ·) := over_times digit_over 4

theorem length_of_fullYear (h : fullYear.Reads u) : u.length = 4 := by
  have hall : (all [digit, digit, digit, digit]).Reads u := h
  simp only [all, reads_seq_iff, digit, reads_one_iff] at hall
  obtain ⟨-, -, rfl, ⟨_, rfl, -⟩, -, -, rfl, ⟨_, rfl, -⟩, -, -, rfl, ⟨_, rfl, -⟩, _, rfl, -⟩ := hall
  rfl

/-- Digits and two numbers more, with one separator. -/
inductive SeparatedBy (sep : Char) : Regex → Prop where
  | mk {r₁ r₂ r₃ : Regex} : r₁.Over (Text.isDigit ·) →
      SeparatedBy sep (all [r₁, Regex.char sep, r₂, Regex.char sep, r₃])

/-- Three parts with one separator. -/
theorem exists_of_separated (h : (all [r₁, Regex.char sep, r₂, Regex.char sep, r₃]).Reads u) :
    ∃ a b e, u = a ++ sep :: (b ++ sep :: e) ∧ r₁.Reads a ∧ r₂.Reads b ∧ r₃.Reads e := by
  simp only [all, reads_seq_iff, Regex.char, reads_one_iff, beq_iff_eq] at h
  obtain ⟨a, -, rfl, ha, -, -, rfl, ⟨x, rfl, rfl⟩, b, -, rfl, hb, -, e, rfl, ⟨y, rfl, rfl⟩, he⟩ := h
  exact ⟨a, b, e, rfl, ha, hb, he⟩

/-- Of expressions with different separators, the one with the separator that comes next reads the
text. -/
theorem takes_anyOf_separated {r : Regex} {before : List Regex} (after : List Regex)
    (hsep : Text.isDigit sep = false)
    (hbefore : ∀ s ∈ before, ∃ sep', Text.isDigit sep' = false ∧ sep ≠ sep' ∧ SeparatedBy sep' s)
    (hm : ∀ x ∈ m, Text.isDigit x) (h : Takes r (m ++ sep :: b) next g) :
    Takes (anyOf (before ++ r :: after)) (m ++ sep :: b) next g := by
  refine Takes.anyOf (fun s hs a v w haw hread => ?_) h
  obtain ⟨sep', hsep', hne, ⟨hr⟩⟩ := hbefore s hs
  rw [List.append_assoc] at haw
  exact hne (eq_of_reads_separated hr hsep hsep' hm hread haw).2

/-- The groups of one of three alternatives. -/
theorem alternative?_row {m : Match} {k : Nat} (hk : k < 3) {s₁ s₂ s₃ : Span}
    (h : m.groups = [(k * 3 + 3, s₃), (k * 3 + 2, s₂), (k * 3 + 1, s₁)]) (t : Text) :
    m.alternative? t 3 3 = some [s₁.of t, s₂.of t, s₃.of t] := by
  obtain ⟨span, groups⟩ := m
  obtain rfl : groups = _ := h
  match k, hk with
  | 0, _ => rfl
  | 1, _ => rfl
  | 2, _ => rfl

/-- The parts of a numeric date. -/
theorem exists_alternative? {p : Pattern} {k : Nat} {before after : List Regex} (hk : k < 3)
    (hp : p.regex = anyOf (before ++ all [group (k * 3 + 1) r₁, Regex.char sep,
      group (k * 3 + 2) r₂, Regex.char sep, group (k * 3 + 3) r₃] :: after))
    (hsep : Text.isDigit sep = false)
    (hbefore : ∀ s ∈ before, ∃ sep', Text.isDigit sep' = false ∧ sep ≠ sep' ∧ SeparatedBy sep' s)
    (ha : ∀ x ∈ a, Text.isDigit x) (h₁ : Takes r₁ a (NoneNext Text.isDigit) noGroups)
    (h₂ : Takes r₂ b (NoneNext Text.isDigit) noGroups) (h₃ : Takes r₃ e next noGroups)
    (hnext : next []) :
    ∃ m, p.full? (a ++ sep :: (b ++ sep :: e)) = some m ∧
      m.alternative? (a ++ sep :: (b ++ sep :: e)) 3 3 = some [a, b, e] := by
  have hall := takes_separated hsep (h₁.group (k * 3 + 1)) (h₂.group (k * 3 + 2))
    (h₃.group (k * 3 + 3))
  have htakes := takes_anyOf_separated after hsep hbefore ha hall
  rw [← hp] at htakes
  refine ⟨_, full?_of_takes htakes hnext, ?_⟩
  rw [alternative?_row hk rfl]
  refine congrArg some ?_
  congr 1
  · exact Span.of_eq [] a (sep :: (b ++ sep :: e)) rfl rfl
  · congr 1
    · exact Span.of_eq (a ++ [sep]) b (sep :: e) (by simp) (by simp)
    · congr 1
      exact Span.of_eq (a ++ sep :: (b ++ [sep])) e [] (by simp) (by simp; omega)

/-! ## Names of months -/

/-- What the expression for month names reads is a name of a month. -/
theorem exists_name_of_monthName (h : monthName.Reads u) :
    ∃ names ∈ Calendar.monthNames, ∃ w ∈ names, u.map Text.foldCase = w.toList := by
  obtain ⟨rs, heq, hrs⟩ := exists_forall₂_names
  rw [heq, reads_anyOf_iff] at h
  obtain ⟨r, hr, hread⟩ := h
  obtain ⟨i, hi, rfl⟩ := List.getElem_of_mem hr
  have hi' : i < Calendar.monthNames.length := hrs.length_eq ▸ hi
  exact ⟨_, List.getElem_mem hi', (hrs.get hi hi').reads hread⟩

/-- The names of the months begin with three letters that tell them apart. -/
theorem exists_prefix_of_monthName (h : monthName.Reads u) :
    ∃ l ∈ Calendar.monthStems, l <+: u.map Text.foldCase := by
  obtain ⟨names, hnames, w, hw, hu⟩ := exists_name_of_monthName h
  exact ⟨_, List.mem_map_of_mem hnames, hu ▸ Calendar.monthStems_prefix names hnames w hw⟩

/-- A name of a month starts with a letter. -/
theorem exists_cons_of_monthName (h : monthName.Reads u) :
    ∃ x v, u = x :: v ∧ Text.isForm x := by
  have hlower : ∀ l ∈ Calendar.monthStems, (l.head?.any Char.isLower) = true := by decide
  obtain ⟨l, hl, hopens⟩ := exists_prefix_of_monthName h
  obtain ⟨c, hc, hclower⟩ := (Option.any_eq_true ..).mp (hlower l hl)
  obtain ⟨m, rfl⟩ := List.head?_eq_some_iff.mp hc
  obtain ⟨b, hb⟩ := hopens
  obtain ⟨x, v, rfl, rfl, -⟩ := List.map_eq_cons_iff.mp hb.symm
  exact ⟨x, v, rfl, hclower⟩

/-- What starts with a digit does not start with the name of a month, as read by `r₁`. -/
theorem not_reads_monthFirst {rs : List Regex} {x : Char} (hr₁ : ∀ v, r₁.Reads v → monthName.Reads v)
    (hx : Text.isDigit x) (h : u ++ t = x :: b) : ¬ (all (r₁ :: rs)).Reads u := by
  intro hread
  obtain ⟨v, w, rfl, hv, -⟩ := reads_all_cons_iff.mp hread
  obtain ⟨y, v, rfl, hy⟩ := exists_cons_of_monthName (hr₁ v hv)
  obtain rfl := (List.cons.inj h).1
  rw [Text.isForm_eq_false_of_isDigit hx] at hy
  cases hy

end Pattern

namespace Calendar

variable {month : Nat} {name : Text}

/-- A name of a month is made of letters. -/
theorem IsMonthName.isAlpha (h : IsMonthName month name) : ∀ x ∈ name, x.isAlpha := by
  obtain ⟨names, hnames, w, hw, hlower⟩ := h
  obtain ⟨hi, rfl⟩ := List.getElem?_eq_some_iff.mp hnames
  intro x hx
  refine Text.isAlpha_of_toLower ?_
  refine List.all_eq_true.mp (isLower_of_mem_monthNames _ (List.getElem_mem hi) w hw) _ ?_
  rw [← hlower]
  exact List.mem_map_of_mem hx

theorem IsMonthForm.isForm (h : IsMonthForm month name) : ∀ x ∈ name, Text.isForm x := by
  obtain ⟨names, hnames, w, hw, hfold⟩ := h
  have hlower := isLower_of_mem_monthNames names (List.mem_of_getElem? hnames) w hw
  exact Text.isForm_of_map_foldCase hlower hfold

theorem IsMonthForm.exists_cons (h : IsMonthForm month name) :
    ∃ x t, name = x :: t ∧ Text.isForm x := by
  have hne : name ≠ [] := by
    obtain ⟨names, hnames, w, hw, hfold⟩ := h
    have hall : ∀ names ∈ monthNames, ∀ w ∈ names, w.toList ≠ [] := by decide
    rintro rfl
    exact hall names (List.mem_of_getElem? hnames) w hw hfold.symm
  obtain ⟨x, t, rfl⟩ := List.exists_cons_of_ne_nil hne
  exact ⟨x, t, rfl, h.isForm x (List.mem_cons_self ..)⟩

theorem IsMonthForm.startsOutside (h : IsMonthForm month name) :
    StartsOutside Text.isWhite name := by
  obtain ⟨x, t, rfl, hx⟩ := h.exists_cons
  exact .cons (Text.isWhite_eq_false_of_isForm hx)

theorem IsMonthName.exists_cons (h : IsMonthName month name) :
    ∃ x t, name = x :: t ∧ x.isAlpha := by
  obtain ⟨x, t, rfl, -⟩ := h.isMonthForm.exists_cons
  exact ⟨x, t, rfl, h.isAlpha x (List.mem_cons_self ..)⟩

end Calendar

namespace Date

open Pattern

variable {d : Date} {s m t : Text} {k : Nat}

theorem Digits.append_starts (h : Digits k m) (t : Text) :
    ∃ x u, m ++ t = x :: u ∧ x.isAlphanum := by
  obtain ⟨x, m, rfl, hx⟩ := h.exists_cons
  exact ⟨x, m ++ t, rfl, Text.isAlphanum_of_isDigit hx⟩

theorem Digits.append_ends (h : Digits k m) (t : Text) : ∃ u x, t ++ m = u ++ [x] ∧ x.isDigit := by
  refine ⟨t ++ m.dropLast, m.getLast h.ne_nil, ?_, h.isDigit _ (List.getLast_mem h.ne_nil)⟩
  rw [List.append_assoc, List.dropLast_append_getLast h.ne_nil]

/-- A written date starts with a letter or a digit. -/
theorem Written.starts (h : Written d s) (hyear : 0 ≤ d.year ∧ d.year ≤ 9999) :
    ∃ x t, s = x :: t ∧ x.isAlphanum := by
  cases h with
  | monthDayYear _ hm _ => exact (digits_month hm).append_starts _
  | yearMonthDay _ _ _ => exact (digits_fourDigits hyear).append_starts _
  | monthFirst hname _ _ _ _ =>
    obtain ⟨x, t, rfl, hx⟩ := hname.exists_cons
    exact ⟨x, _, rfl, Text.isAlphanum_of_isAlpha hx⟩
  | dayFirst _ _ hn _ _ => exact (digits_day hn).append_starts _

/-- A written date ends with a digit. -/
theorem Written.ends (h : Written d s) (hyear : 0 ≤ d.year ∧ d.year ≤ 9999) :
    ∃ t x, s = t ++ [x] ∧ x.isDigit := by
  have hdigits := digits_fourDigits hyear
  cases h with
  | @monthDayYear sep m n _ _ _ => simpa using hdigits.append_ends (m ++ sep :: (n ++ [sep]))
  | @yearMonthDay sep m n _ _ hn =>
    simpa using (digits_day hn).append_ends (d.fourDigits ++ sep :: (m ++ [sep]))
  | @monthFirst name point n ending comma _ _ _ _ _ =>
    simpa using hdigits.append_ends
      (name ++ (point ++ ' ' :: (n ++ (ending ++ (comma ++ [' '])))))
  | @dayFirst name point n ending comma _ _ _ _ _ =>
    simpa using hdigits.append_ends
      (n ++ (ending ++ ' ' :: (name ++ (point ++ (comma ++ [' '])))))

/-- What may stand behind a date: a blank or a comma, if anything. -/
def Delimited (v : Text) : Prop := ∀ x ∈ v.head?, x = ' ' ∨ x = ','

theorem Delimited.noneNext {v : Text} {p : Char → Bool} (h : Delimited v) (hblank : p ' ' = false)
    (hcomma : p ',' = false) : NoneNext p v := by
  intro x hx
  rcases h x hx with rfl | rfl
  · exact hblank
  · exact hcomma

/-- The separators in front of one in the list of separators. -/
theorem exists_dateSeparators_eq {sep : Char} (hsep : sep ∈ dateSeparators) {f : Char → Regex}
    (hf : ∀ sep, SeparatedBy sep (f sep)) :
    ∃ before after, dateSeparators.map f = before ++ f sep :: after ∧ ∀ s ∈ before,
      ∃ sep', Text.isDigit sep' = false ∧ sep ≠ sep' ∧ SeparatedBy sep' s := by
  obtain ⟨before, after, heq, hnot⟩ := List.eq_append_cons_of_mem hsep
  refine ⟨before.map f, after.map f, by rw [heq, List.map_append, List.map_cons], ?_⟩
  rw [List.forall_mem_map]
  refine fun sep' hsep' => ⟨sep', ?_, ?_, hf sep'⟩
  · exact isDigit_eq_false_of_mem_dateSeparators sep' (by simp [heq, hsep'])
  · rintro rfl
    exact hnot hsep'

/-- Of expressions with different separators, followed by others, the one with the separator of the
date takes it. -/
theorem takes_dateSeparators {sep : Char} (hsep : sep ∈ dateSeparators) {f : Char → Regex}
    (hf : ∀ sep, SeparatedBy sep (f sep)) (others : List Regex) (hm : ∀ x ∈ m, Text.isDigit x)
    {next : Text → Prop} {g : Nat → List (Nat × Span)} (h : Takes (f sep) (m ++ sep :: t) next g) :
    Takes (anyOf (dateSeparators.map f ++ others)) (m ++ sep :: t) next g := by
  obtain ⟨before, after, heq, hbefore⟩ := exists_dateSeparators_eq hsep hf
  rw [heq, List.append_assoc, List.cons_append]
  exact takes_anyOf_separated (after ++ others) (isDigit_eq_false_of_mem_dateSeparators sep hsep)
    hbefore hm h

/-- What starts with the name of a month has no outcome where a digit is next. -/
theorem outcomes_monthFirst_eq_nil {c : Cursor} {x : Char} (rs : List Regex) (hx : Text.isDigit x)
    (hc : c.rest = x :: t) : (Regex.all (wordBoundary :: monthName :: rs)).outcomes c = [] := by
  refine outcomes_eq_nil fun a w haw hread => ?_
  obtain ⟨e, a, rfl, he, ha⟩ := reads_all_cons_iff.mp hread
  obtain rfl := he.eq_nil rfl
  rw [hc] at haw
  exact not_reads_monthFirst (fun _ => id) hx haw.symm ha

/-- **One of the patterns for tokens takes the whole of a written date.** -/
theorem Written.exists_prefers (h : Written d s) (hyear : 0 ≤ d.year ∧ d.year ≤ 9999) :
    ∃ p ∈ [dateTokenIso, dateToken, dateTokenText], ∀ ⦃c : Cursor⦄ ⦃v : Text⦄, c.rest = s ++ v →
      c.last.any Text.isWord = false → Delimited v → Prefers p.regex c s v [] := by
  have hdigits := (digits_fourDigits hyear).isNumber
  have hlength := length_fourDigits hyear
  have hfirst : s.head?.any Text.isWord := by
    obtain ⟨x, t, rfl, hx⟩ := h.starts hyear
    exact Text.isWord_of_isAlphanum hx
  have hlast : s.getLast?.any Text.isWord := by
    obtain ⟨t, x, rfl, hx⟩ := h.ends hyear
    rw [List.getLast?_concat]
    exact Text.isWord_of_isAlphanum (Text.isAlphanum_of_isDigit hx)
  cases h with
  | @monthDayYear sep m n hsep hm hn =>
    have hm := (digits_month hm).isNumber
    have htakes := takes_dateSeparators (f := Pattern.monthDayYear) hsep
      (fun _ => .mk shortNumber_over) [monthDay] hm.isDigit
      (takes_separated (isDigit_eq_false_of_mem_dateSeparators sep hsep) (takes_shortNumber hm)
        (takes_shortNumber (digits_day hn).isNumber) (takes_year hdigits hlength))
    exact ⟨dateToken, by simp, fun c v hc hbehind hv => Takes.wordBounded [_] htakes hfirst
      hlast hc hbehind (hv.noneNext rfl rfl) trivial⟩
  | @yearMonthDay sep m n hsep hm hn =>
    have htakes := takes_dateSeparators (f := Pattern.yearMonthDay) hsep
      (fun _ => .mk fullYear_over) [] hdigits.isDigit
      (takes_separated (isDigit_eq_false_of_mem_dateSeparators sep hsep)
        (takes_fullYear hdigits hlength).of_anything (takes_shortNumber (digits_month hm).isNumber)
        (takes_shortNumber (digits_day hn).isNumber))
    rw [List.append_nil] at htakes
    exact ⟨dateTokenIso, by simp, fun c v hc hbehind hv => Takes.wordBounded [_] htakes
      hfirst hlast hc hbehind (hv.noneNext rfl rfl) (hv.noneNext rfl rfl)⟩
  | @monthFirst name point n ending comma hname hpoint hn hending hcomma =>
    have hn := (digits_day hn).isNumber
    have htakes := takes_monthFirst (takes_monthName hname.isMonthForm) hpoint isGap_blank hn
      (takes_shortNumber hn) hending.isOrdinalForm (takes_writtenYear hcomma isGap_blank hdigits
        (takes_fullYear hdigits hlength)) fun v _ => isTail_year hcomma isGap_blank _ v
    exact ⟨dateTokenText, by simp, fun c v hc hbehind hv => .left (Takes.wordBounded
      [_, _, _, _, _, _] htakes hfirst hlast hc hbehind (hv.noneNext rfl rfl) trivial)⟩
  | @dayFirst name point n ending comma hname hpoint hn hending hcomma =>
    have hn := (digits_day hn).isNumber
    have htakes := takes_dayFirst (takes_shortNumber hn) hending.isOrdinalForm isGap_blank
      (takes_monthName hname.isMonthForm) hname.isMonthForm.startsOutside hpoint
      (takes_writtenYear hcomma isGap_blank hdigits (takes_fullYear hdigits hlength))
      fun v _ => isTail_year hcomma isGap_blank _ v
    refine ⟨dateTokenText, by simp, fun c v hc hbehind hv => .right ?_ (Takes.wordBounded
      [_, _, _, _, _, _] htakes hfirst hlast hc hbehind (hv.noneNext rfl rfl) trivial)⟩
    -- the other branch starts with the name of a month
    obtain ⟨y, z, hy, hdigit⟩ := hn.exists_cons
    rw [hy] at hc
    exact outcomes_monthFirst_eq_nil _ hdigit hc

end Date

end Snippet
