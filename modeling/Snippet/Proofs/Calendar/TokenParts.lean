import Snippet.Proofs.Calendar.TokenList
import Snippet.Proofs.Calendar.TokenShape
import Snippet.Proofs.Pattern.Demands

/-!
# The parts of date tokens

What the patterns for date tokens read has one of the shapes of tokens, up to a point at its end
(`shapedUpTo_of_reads`), and this point is taken off with the punctuation at the edges of a match.
So every token of a text has a shape. In ASCII it is read if its month and its day occur in some
year, and its parts are then the month, the day and the year that are written
(`ofToken?_of_mem_all`).
-/

namespace Snippet

open Regex Date Pattern

namespace DateToken

variable {t u v s m n : Text} {year : Option Text}

/-! ## What the parts of the patterns read -/

theorem isNumber_of_shortNumber (h : shortNumber.Reads u) : IsNumber 2 u := by
  obtain ⟨x, w, rfl, -⟩ := h.exists_cons (p := (Text.isDigit ·)) (.inl fun _ => id)
  refine ⟨List.cons_ne_nil x w, ?_, h.forall_mem shortNumber_over⟩
  obtain ⟨a, b, heq, ha, hb⟩ := reads_seq_iff.mp h
  have hlength : b.length ≤ 1 := by
    rcases reads_opt_iff.mp hb with rfl | hb
    · exact Nat.zero_le 1
    · obtain ⟨c, d, rfl, hc, hd⟩ := reads_seq_iff.mp hb
      obtain ⟨y, rfl, -⟩ := reads_one_iff.mp hc
      rw [reads_empty_iff.mp hd, List.append_nil, List.length_singleton]
  rw [heq, List.length_append, length_of_times ha]
  omega

theorem isNumber_of_fullYear (h : fullYear.Reads u) : IsNumber 4 u ∧ u.length = 4 := by
  have hlength := length_of_fullYear h
  exact ⟨⟨List.ne_nil_of_length_pos (by omega), hlength.le, h.forall_mem fullYear_over⟩, hlength⟩

theorem isNumber_of_year (h : Pattern.year.Reads u) :
    IsNumber 4 u ∧ (u.length = 4 ∨ u.length = 2) := by
  rcases reads_alt_iff.mp h with h | h
  · exact (isNumber_of_fullYear h).imp_right .inl
  · have hlength := length_of_times h
    refine ⟨⟨List.ne_nil_of_length_pos (by omega), by omega, ?_⟩, .inr hlength⟩
    exact h.forall_mem (over_times digit_over 2)

theorem exists_isMonthForm (h : monthName.Reads u) : ∃ month, Calendar.IsMonthForm month u := by
  obtain ⟨names, hnames, hname⟩ := exists_name_of_monthName h
  obtain ⟨i, hi, rfl⟩ := List.getElem_of_mem hnames
  exact ⟨i + 1, _, List.getElem?_eq_getElem hi, hname⟩

theorem isOrdinalForm_of_reads (h : ordinalEnding.Reads u) : IsOrdinalForm u := by
  refine (reads_opt_iff.mp h).imp id fun h => ?_
  obtain ⟨r, hr, hread⟩ := reads_anyOf_iff.mp h
  obtain ⟨w, hw, rfl⟩ := List.mem_map.mp hr
  exact ⟨w, hw, (reads_word_iff (isLower_ordinalEndings w hw)).mp hread⟩

theorem isOptional_of_reads {mark : Char} (h : (opt (Regex.char mark)).Reads u) :
    IsOptional mark u := by
  refine (reads_opt_iff.mp h).imp id fun h => ?_
  obtain ⟨x, rfl, hx⟩ := reads_one_iff.mp h
  rw [beq_iff_eq.mp hx]

theorem isGap_of_reads (h : (many1 white).Reads u) : IsGap u :=
  (reads_many1_one_iff.mp h).imp id List.all_eq_true.mpr

theorem exists_yearBehind (h : (writtenYear fullYear).Reads u) : ∃ year, YearBehind u year := by
  rcases reads_opt_iff.mp h with rfl | h
  · exact ⟨none, .missing⟩
  · simp only [Regex.all, reads_seq_iff] at h
    obtain ⟨comma, -, rfl, hcomma, gap, y, rfl, hgap, hy⟩ := h
    obtain ⟨hnumber, hlength⟩ := isNumber_of_fullYear hy
    exact ⟨some y, .written (isOptional_of_reads hcomma) (isGap_of_reads hgap) hnumber hlength⟩

/-! ## Where a shape ends -/

/-- No punctuation stands at the end. -/
def EndsClean (t : Text) : Prop := ∀ c ∈ t.getLast?, isEdgePunctuation c = false

theorem endsClean_of_forall (h : ∀ c ∈ t, isEdgePunctuation c = false) : EndsClean t :=
  fun c hc => h c (List.mem_of_getLast? hc)

theorem EndsClean.append (hu : EndsClean u) (hv : EndsClean v) : EndsClean (u ++ v) := by
  intro c hc
  rw [List.getLast?_append, Option.mem_def, Option.or_eq_some_iff] at hc
  rcases hc with hc | ⟨-, hc⟩
  · exact hv c hc
  · exact hu c hc

theorem EndsClean.of_right (hv : EndsClean v) (hne : v ≠ []) (u : Text) : EndsClean (u ++ v) := by
  intro c hc
  rw [List.getLast?_append_of_ne_nil _ hne] at hc
  exact hv c hc

theorem endsClean_number {k : Nat} (h : IsNumber k n) : EndsClean n :=
  endsClean_of_forall fun c hc => isEdgePunctuation_eq_false_of_isDigit (h.isDigit c hc)

theorem endsClean_forms (h : ∀ c ∈ t, Text.isForm c) : EndsClean t :=
  endsClean_of_forall fun c hc => isEdgePunctuation_eq_false (.inr (h c hc))

theorem endsClean_ordinalForm (h : IsOrdinalForm t) : EndsClean t := by
  rcases h with rfl | ⟨w, hw, hfold⟩
  · exact endsClean_of_forall (by simp)
  · exact endsClean_forms (Text.isForm_of_map_foldCase (isLower_ordinalEndings w hw) hfold)

theorem YearBehind.endsClean (h : YearBehind t year) : EndsClean t := by
  cases h with
  | missing => exact endsClean_of_forall (by simp)
  | @written comma gap y _ _ hy _ =>
    rw [← List.append_assoc]
    exact (endsClean_number hy).of_right hy.ne_nil _

/-- The text has a shape, and punctuation may stand behind it. -/
inductive ShapedUpTo : Text → Prop where
  | intro {s v m n : Text} {year : Option Text} : Shaped s m n year → EndsClean s →
      (∀ c ∈ v, isEdgePunctuation c) → ShapedUpTo (s ++ v)

theorem Shaped.upTo (h : Shaped s m n year) (hs : EndsClean s) : ShapedUpTo s := by
  rw [← List.append_nil s]
  exact .intro h hs (by simp)

/-- A date token in numbers. -/
theorem shapedUpTo_of_numeric {p : Pattern} (hp : p ∈ [dateTokenIso, dateToken])
    (h : p.regex.Reads u) : ShapedUpTo u := by
  simp only [List.mem_cons, List.not_mem_nil, or_false] at hp
  rcases hp with rfl | rfl
  · obtain ⟨r, hr, hread⟩ := exists_reads_of_wordBounded h
    obtain ⟨sep, hsep, rfl⟩ := List.mem_map.mp hr
    obtain ⟨y, m, n, rfl, hy, hm, hn⟩ := exists_of_separated hread
    obtain ⟨hyear, hlength⟩ := isNumber_of_fullYear hy
    have hday := isNumber_of_shortNumber hn
    refine (Shaped.yearMonthDay hsep hyear hlength (isNumber_of_shortNumber hm) hday).upTo ?_
    simpa using (endsClean_number hday).of_right hday.ne_nil (y ++ sep :: (m ++ [sep]))
  · obtain ⟨r, hr, hread⟩ := exists_reads_of_wordBounded h
    rcases List.mem_append.mp hr with hr | hr
    · obtain ⟨sep, hsep, rfl⟩ := List.mem_map.mp hr
      obtain ⟨m, n, y, rfl, hm, hn, hy⟩ := exists_of_separated hread
      obtain ⟨hyear, hlength⟩ := isNumber_of_year hy
      refine (Shaped.monthDayYear hsep (isNumber_of_shortNumber hm) (isNumber_of_shortNumber hn)
        hyear hlength).upTo ?_
      simpa using (endsClean_number hyear).of_right hyear.ne_nil (m ++ sep :: (n ++ [sep]))
    · obtain rfl := List.mem_singleton.mp hr
      simp only [monthDay, Regex.all, reads_seq_iff, Regex.char, reads_one_iff, beq_iff_eq] at hread
      obtain ⟨m, -, rfl, hm, -, n, rfl, ⟨x, rfl, rfl⟩, hn⟩ := hread
      have hday := isNumber_of_shortNumber hn
      refine (Shaped.monthDay (isNumber_of_shortNumber hm) hday).upTo ?_
      simpa using (endsClean_number hday).of_right hday.ne_nil (m ++ ['/'])

/-- A date token with the name of a month. -/
theorem shapedUpTo_of_text (h : dateTokenText.regex.Reads u) : ShapedUpTo u := by
  cases readsText_of_reads h with
  | @monthFirst name point gap n ending tail hname hpoint hgap hn hending htail =>
    obtain ⟨month, hname⟩ := exists_isMonthForm hname
    obtain ⟨year, htail⟩ := exists_yearBehind htail
    have hday := isNumber_of_shortNumber hn
    have hending := isOrdinalForm_of_reads hending
    refine (Shaped.monthFirst hname (isOptional_of_reads hpoint) (isGap_of_reads hgap) hday
      hending htail).upTo ?_
    have hclean : EndsClean (n ++ (ending ++ tail)) :=
      (endsClean_number hday).append ((endsClean_ordinalForm hending).append htail.endsClean)
    simpa using hclean.of_right (List.append_ne_nil_of_left_ne_nil hday.ne_nil _)
      (name ++ (point ++ gap))
  | @dayFirst name point gap n ending tail hname hpoint hgap hn hending htail =>
    obtain ⟨month, hname⟩ := exists_isMonthForm hname
    obtain ⟨year, htail⟩ := exists_yearBehind htail
    have hday := isNumber_of_shortNumber hn
    have hending := isOrdinalForm_of_reads hending
    have hgap := isGap_of_reads hgap
    have hpoint := isOptional_of_reads hpoint
    cases htail with
    | missing =>
      -- without a year, a point behind the month is punctuation
      have hshaped := Shaped.dayFirst hname (.inl rfl) hgap hday hending .missing
      have hnameNe : name ≠ [] := by
        obtain ⟨x, name, rfl, -⟩ := hname.exists_cons
        exact List.cons_ne_nil x name
      have hclean : EndsClean (n ++ (ending ++ (gap ++ (name ++ ([] ++ []))))) := by
        simpa using (endsClean_forms hname.isForm).of_right hnameNe (n ++ (ending ++ gap))
      have hedge : ∀ c ∈ point, isEdgePunctuation c := by
        rcases hpoint with rfl | rfl
        · simp
        · simp [isEdgePunctuation]
      simpa using ShapedUpTo.intro hshaped hclean hedge
    | @written comma gap' y hcomma hgap' hy hlength =>
      refine (Shaped.dayFirst hname hpoint hgap hday hending
        (.written hcomma hgap' hy hlength)).upTo ?_
      simpa using (endsClean_number hy).of_right hy.ne_nil
        (n ++ (ending ++ (gap ++ (name ++ (point ++ (comma ++ gap'))))))

/-- **What the patterns for date tokens read has a shape, up to punctuation at its end.** -/
theorem shapedUpTo_of_reads {p : Pattern} (hp : p ∈ [dateTokenIso, dateToken, dateTokenText])
    (h : p.regex.Reads u) : ShapedUpTo u := by
  simp only [List.mem_cons, List.not_mem_nil, or_false] at hp
  rcases hp with rfl | rfl | rfl
  · exact shapedUpTo_of_numeric (by simp) h
  · exact shapedUpTo_of_numeric (by simp) h
  · exact shapedUpTo_of_text h

/-- **Every token of a text has a shape.** -/
theorem exists_shaped_of_mem_candidates {x : DateToken} (h : x ∈ candidates t) :
    ∃ m n year, Shaped x.text m n year := by
  obtain ⟨p, -, mt, -, htrims, -⟩ := mem_candidates_iff.mp h
  obtain ⟨-, v, -, -, -, ⟨p, hp, hread⟩, hv, -⟩ := exists_trims h
  have hdrop := Text.dropWhileEnd_append htrims.endsOutside.last hv
  generalize x.text ++ v = u at hread hdrop
  obtain ⟨hshaped, hclean, hedge⟩ := shapedUpTo_of_reads hp hread
  rw [Text.dropWhileEnd_append hclean hedge] at hdrop
  exact ⟨_, _, _, hdrop ▸ hshaped⟩

/-! ## The characters of a shape -/

theorem YearBehind.forall_mem {p : Char → Prop} (h : YearBehind t year) (ht : ∀ c ∈ t, p c) :
    ∀ y ∈ year, ∀ c ∈ y, p c := by
  cases h with
  | missing => simp
  | @written comma gap y _ _ _ _ =>
    simp only [List.forall_mem_append] at ht
    simpa using ht.2.2

/-- What holds of the characters of a shape holds of those of its parts. -/
theorem Shaped.forall_mem {p : Char → Prop} (h : Shaped s m n year) (hs : ∀ c ∈ s, p c) :
    (∀ c ∈ m, p c) ∧ (∀ c ∈ n, p c) ∧ ∀ y ∈ year, ∀ c ∈ y, p c := by
  cases h with
  | yearMonthDay _ _ _ _ _ =>
    simp only [List.forall_mem_append, List.forall_mem_cons] at hs
    obtain ⟨hy, -, hm, -, hn⟩ := hs
    exact ⟨hm, hn, by simpa using hy⟩
  | monthDayYear _ _ _ _ _ =>
    simp only [List.forall_mem_append, List.forall_mem_cons] at hs
    obtain ⟨hm, -, hn, -, hy⟩ := hs
    exact ⟨hm, hn, by simpa using hy⟩
  | monthDay _ _ =>
    simp only [List.forall_mem_append, List.forall_mem_cons] at hs
    obtain ⟨hm, -, hn⟩ := hs
    exact ⟨hm, hn, by simp⟩
  | monthFirst _ _ _ _ _ htail =>
    simp only [List.forall_mem_append] at hs
    obtain ⟨hm, -, -, hn, -, ht⟩ := hs
    exact ⟨hm, hn, htail.forall_mem ht⟩
  | dayFirst _ _ _ _ _ htail =>
    simp only [List.forall_mem_append] at hs
    obtain ⟨hn, -, -, hm, -, ht⟩ := hs
    exact ⟨hm, hn, htail.forall_mem ht⟩

/-- A name of a month has a letter. -/
theorem not_digits_of_isMonthForm {month : Nat} (h : Calendar.IsMonthForm month m) :
    ¬ ∀ c ∈ m, Text.isDigit c ∨ isDateSeparator c := by
  have hsep : ∀ sep ∈ dateSeparators, Text.isForm sep = false := by decide
  obtain ⟨x, m, rfl, hx⟩ := h.exists_cons
  intro hall
  rcases hall x (List.mem_cons_self ..) with hdigit | hmem
  · rw [Text.isForm_eq_false_of_isDigit hdigit] at hx
    cases hx
  · rw [hsep x (List.contains_iff_mem.mp hmem)] at hx
    cases hx

/-- **The separators of a date in numbers: one slash without a year, and with it one separator
twice.** -/
theorem Shaped.filter_isDateSeparator (h : Shaped s m n year)
    (hs : ∀ c ∈ s, Text.isDigit c ∨ isDateSeparator c) :
    (year = none → s.filter isDateSeparator = ['/']) ∧
      (year ≠ none → ∃ sep, s.filter isDateSeparator = [sep, sep]) := by
  have hnumber : ∀ {k : Nat} {m : Text}, IsNumber k m → m.filter isDateSeparator = [] :=
    fun hm => filter_isDateSeparator_digits hm.isDigit
  have hmonth := (h.forall_mem hs).1
  cases h with
  | @yearMonthDay sep _ _ _ hmem hy _ hm hn =>
    have hsep : isDateSeparator sep := List.contains_iff_mem.mpr hmem
    refine ⟨by simp, fun _ => ⟨sep, ?_⟩⟩
    rw [List.filter_append, hnumber hy, List.filter_cons_of_pos hsep, List.filter_append,
      hnumber hm, List.filter_cons_of_pos hsep, hnumber hn, List.nil_append, List.nil_append]
  | @monthDayYear sep _ _ _ hmem hm hn hy _ =>
    have hsep : isDateSeparator sep := List.contains_iff_mem.mpr hmem
    refine ⟨by simp, fun _ => ⟨sep, ?_⟩⟩
    rw [List.filter_append, hnumber hm, List.filter_cons_of_pos hsep, List.filter_append,
      hnumber hn, List.filter_cons_of_pos hsep, hnumber hy, List.nil_append, List.nil_append]
  | monthDay hm hn =>
    refine ⟨fun _ => ?_, by simp⟩
    rw [List.filter_append, hnumber hm, List.filter_cons_of_pos (by decide), hnumber hn,
      List.nil_append]
  | monthFirst hname _ _ _ _ _ => exact absurd hmonth (not_digits_of_isMonthForm hname)
  | dayFirst hname _ _ _ _ _ => exact absurd hmonth (not_digits_of_isMonthForm hname)

/-! ## Texts of ASCII -/

theorem isDigit_of_isNumber {k : Nat} (h : IsNumber k n) (hn : ∀ c ∈ n, c.toNat < 128) :
    ∀ c ∈ n, c.isDigit :=
  fun c hc => Text.isDigit_of_ascii (h.isDigit c hc) (hn c hc)

theorem isMonthName_of_isMonthForm {month : Nat} (h : Calendar.IsMonthForm month m)
    (hm : ∀ c ∈ m, c.toNat < 128) : Calendar.IsMonthName month m := by
  obtain ⟨names, hnames, w, hw, hfold⟩ := h
  refine ⟨names, hnames, w, hw, ?_⟩
  rw [← hfold, Text.lower]
  exact List.map_congr_left fun c hc => (Text.foldCase_of_ascii (hm c hc)).symm

/-- The month of a shape is denoted by its number or by its name. -/
theorem Shaped.exists_denotes (h : Shaped s m n year) (hm : ∀ c ∈ m, c.toNat < 128) :
    ∃ month, Denotes m month := by
  have hnumber : ∀ {m : Text}, IsNumber 2 m → (∀ c ∈ m, c.toNat < 128) → ∃ k, Denotes m k :=
    fun h hm => ⟨_, .number h.ne_nil (isDigit_of_isNumber h hm)⟩
  -- a month 0 would have the names of the first month
  have hname : ∀ {month : Nat}, Calendar.IsMonthForm month m → ∃ k, Denotes m k :=
    fun {month} h => ⟨month - 1 + 1, .name (Nat.le_add_left ..) (isMonthName_of_isMonthForm h hm)⟩
  cases h with
  | yearMonthDay _ _ _ h _ => exact hnumber h hm
  | monthDayYear _ h _ _ _ => exact hnumber h hm
  | monthDay h _ => exact hnumber h hm
  | monthFirst h _ _ _ _ _ => exact hname h
  | dayFirst h _ _ _ _ _ => exact hname h

theorem Shaped.isNumber (h : Shaped s m n year) : IsNumber 2 n ∧ ∀ y ∈ year, IsNumber 4 y := by
  have hyear : ∀ {tail : Text} {year : Option Text}, YearBehind tail year →
      ∀ y ∈ year, IsNumber 4 y := by
    intro tail year htail
    cases htail with
    | missing => simp
    | written _ _ hy _ => simpa using hy
  cases h with
  | yearMonthDay _ hy _ _ hn => exact ⟨hn, by simpa using hy⟩
  | monthDayYear _ _ hn hy _ => exact ⟨hn, by simpa using hy⟩
  | monthDay _ hn => exact ⟨hn, by simp⟩
  | monthFirst _ _ _ hn _ htail => exact ⟨hn, hyear htail⟩
  | dayFirst _ _ _ hn _ htail => exact ⟨hn, hyear htail⟩

/-- The parts of a shape in ASCII are read as they are written, if they are a month and a day. -/
theorem Shaped.ofToken?_of_ascii {month : Nat} (h : Shaped s m n year)
    (hs : ∀ c ∈ s, c.toNat < 128) (hm : Denotes m month) (today : Date) :
    DateParts.ofToken? today s =
      if 1 ≤ month ∧ month ≤ 12 ∧ 1 ≤ Decimal.natOf n ∧ Decimal.natOf n ≤ 31 then
        some ⟨month, Decimal.natOf n, year.map (yearOf today), false⟩
      else none := by
  obtain ⟨-, hday, hyear⟩ := h.forall_mem hs
  obtain ⟨hdayNumber, hyearNumber⟩ := h.isNumber
  rw [h.ofToken?_eq hm (isDigit_of_isNumber hdayNumber hday)
    (fun y hy => isDigit_of_isNumber (hyearNumber y hy) (hyear y hy)) today, DateParts.of?]
  simp only [Bool.and_eq_true, decide_eq_true_eq, and_assoc]

/-! ## The tokens of a text -/

/-- **The tokens of a text have parts.** Each one is matched by a pattern for the parts of a date
and has a shape. One in numbers has one separator, which is a slash if no year is written. In ASCII
it is read, whatever today is, if its month and its day are ones that occur in some year, and then
with the month, the day and the year as they are written. -/
theorem ofToken?_of_mem_all {x : DateToken} (h : x ∈ all t) :
    (∃ p ∈ [datePartIso, datePartMdy, datePartMd, datePartMonthDay, datePartDayMonth],
      p.matchesAll x.text) ∧
    (∃ m n year, Shaped x.text m n year) ∧
    ∀ m n year, Shaped x.text m n year →
      ((∀ c ∈ x.text, Text.isDigit c ∨ isDateSeparator c) →
        (year = none → x.text.filter isDateSeparator = ['/']) ∧
        (year ≠ none → ∃ sep, x.text.filter isDateSeparator = [sep, sep])) ∧
      ((∀ c ∈ t, c.toNat < 128) →
        (∃ month, Denotes m month) ∧ ∀ month, Denotes m month → ∀ today,
          DateParts.ofToken? today x.text =
            if 1 ≤ month ∧ month ≤ 12 ∧ 1 ≤ Decimal.natOf n ∧ Decimal.natOf n ≤ 31 then
              some ⟨month, Decimal.natOf n, year.map (yearOf today), false⟩
            else none) := by
  have hmem := mem_candidates_of_mem_all h
  obtain ⟨m, n, year, hshaped⟩ := exists_shaped_of_mem_candidates hmem
  refine ⟨hshaped.exists_matchesAll, ⟨m, n, year, hshaped⟩, fun m n year hshaped =>
    ⟨hshaped.filter_isDateSeparator, fun hascii => ?_⟩⟩
  obtain ⟨a, v, b, rfl, -⟩ := exists_trims hmem
  have htext : ∀ c ∈ x.text, c.toNat < 128 := fun c hc => hascii c (by simp [hc])
  exact ⟨hshaped.exists_denotes (hshaped.forall_mem htext).1, fun month hmonth =>
    hshaped.ofToken?_of_ascii htext hmonth⟩

/-- In `Due 2/30/24.` the token is `2/30/24`, and it is read, for there is a day 30 in some month. -/
theorem ofToken?_two_slash_thirty :
    ⟨⟨4, 11⟩, "2/30/24".toList⟩ ∈ all "Due 2/30/24.".toList ∧
      DateParts.ofToken? ⟨2026, 1, 15, rfl⟩ "2/30/24".toList =
        some ⟨2, 30, some 2024, false⟩ := by
  have hall : all "Due 2/30/24.".toList = [⟨⟨4, 11⟩, "2/30/24".toList⟩] :=
    all_eq_of_candidates (by decide +kernel) (by decide)
  have hmem : ⟨⟨4, 11⟩, "2/30/24".toList⟩ ∈ all "Due 2/30/24.".toList := by
    rw [hall]
    exact List.mem_cons_self ..
  have hshaped : Shaped "2/30/24".toList "2".toList "30".toList (some "24".toList) :=
    @Shaped.monthDayYear '/' "2".toList "30".toList "24".toList (by decide)
      ⟨by decide, by decide, by decide⟩ ⟨by decide, by decide, by decide⟩
      ⟨by decide, by decide, by decide⟩ (.inr rfl)
  obtain ⟨-, hread⟩ := ((ofToken?_of_mem_all hmem).2.2 _ _ _ hshaped).2 (by decide)
  exact ⟨hmem, hread 2 (.number (by decide) (by decide)) ⟨2026, 1, 15, rfl⟩⟩

end DateToken

end Snippet
