import Snippet.Calendar.DateRange
import Snippet.Proofs.Calendar.DateToken
import Snippet.Proofs.Calendar.WrittenToken

/-!
# The items of date tokens

What the patterns for date tokens read is made of items between white space, each of which starts
with a digit or with the first letters of a month (`items_of_reads`). So no match reaches over a word
or a dash that stands between two dates (`length_le_of_joiner`).
-/

namespace Snippet

open Regex Pattern

namespace DateToken

variable {t u v w x y : Text} {p : Pattern}

/-- The text starts with a digit or with the first letters of a month. -/
def StartsItem (t : Text) : Prop :=
  (∃ c u, t = c :: u ∧ Text.isDigit c) ∨ ∃ l ∈ Calendar.monthStems, l <+: t.map Text.foldCase

/-- Behind the white space in the text, an item starts. -/
def Spaced : Text → Prop
  | [] => True
  | c :: t => (Text.isWhite c → (∃ d u, t = d :: u ∧ Text.isWhite d) ∨ StartsItem t) ∧ Spaced t

theorem StartsItem.append (h : StartsItem t) (u : Text) : StartsItem (t ++ u) := by
  rcases h with ⟨c, v, rfl, hc⟩ | ⟨l, hl, hopens⟩
  · exact .inl ⟨c, v ++ u, rfl, hc⟩
  · rw [StartsItem, List.map_append]
    exact .inr ⟨l, hl, hopens.trans (List.prefix_append ..)⟩

/-- An item starts with a digit or a letter. -/
theorem StartsItem.exists_cons (h : StartsItem t) :
    ∃ c u, t = c :: u ∧ (Text.isDigit c ∨ Text.isForm c) := by
  rcases h with ⟨c, u, rfl, hc⟩ | ⟨l, hl, hopens⟩
  · exact ⟨c, u, rfl, .inl hc⟩
  · have hlower : ∀ l ∈ Calendar.monthStems, ∃ e m, l = e :: m ∧ e.isLower := by
      simp [Calendar.monthStems, Calendar.monthNames]
    obtain ⟨e, m, rfl, he⟩ := hlower l hl
    obtain ⟨v, hv⟩ := hopens
    obtain ⟨c, u, rfl, rfl, -⟩ := List.map_eq_cons_iff.mp hv.symm
    exact ⟨c, u, rfl, .inr he⟩

/-! ## Texts that are spaced -/

theorem Spaced.of_append (h : Spaced (u ++ v)) : Spaced v := by
  induction u with
  | nil => exact h
  | cons c u ih => exact ih h.2

theorem Spaced.append (hu : ∀ c ∈ u, Text.isWhite c = false) (hv : Spaced v) : Spaced (u ++ v) := by
  induction u with
  | nil => exact hv
  | cons c u ih =>
    rw [List.forall_mem_cons] at hu
    refine ⟨fun hc => ?_, ih hu.2⟩
    rw [hu.1] at hc
    cases hc

theorem spaced_of_forall (hu : ∀ c ∈ u, Text.isWhite c = false) : Spaced u := by
  rw [← List.append_nil u]
  exact .append hu trivial

theorem Spaced.white_append (hu : ∀ c ∈ u, Text.isWhite c) (hv : Spaced v) (hitem : StartsItem v) :
    Spaced (u ++ v) := by
  induction u with
  | nil => exact hv
  | cons c u ih =>
    rw [List.forall_mem_cons] at hu
    refine ⟨fun _ => ?_, ih hu.2⟩
    cases u with
    | nil => exact .inr hitem
    | cons d u => exact .inl ⟨d, u ++ v, rfl, hu.2 d (List.mem_cons_self ..)⟩

/-! ## What the patterns read -/

theorem shortNumber_over_white : shortNumber.Over (Text.isWhite · = false) :=
  shortNumber_over.mono fun _ => Text.isWhite_eq_false_of_isDigit

theorem fullYear_over_white : fullYear.Over (Text.isWhite · = false) :=
  fullYear_over.mono fun _ => Text.isWhite_eq_false_of_isDigit

theorem monthName_over_white : monthName.Over (Text.isWhite · = false) := by
  simp only [monthName, stem, opt, anyOf, Over, over_word_iff, and_true]
  decide

theorem startsItem_of_monthName (h : monthName.Reads u) : StartsItem u :=
  .inr (exists_prefix_of_monthName h)

theorem startsItem_of_shortNumber (h : shortNumber.Reads u) : StartsItem u := by
  obtain ⟨c, v, rfl, hc⟩ := h.exists_cons (p := (Text.isDigit ·)) (.inl fun _ => id)
  exact .inl ⟨c, v, rfl, hc⟩

theorem startsItem_of_fullYear (h : fullYear.Reads u) : StartsItem u := by
  obtain ⟨c, v, rfl, hc⟩ := h.exists_cons (p := (Text.isDigit ·)) (.inl fun _ => id)
  exact .inl ⟨c, v, rfl, hc⟩

theorem char_over_white {x : Char} (hx : Text.isWhite x = false) :
    (opt (Regex.char x)).Over (Text.isWhite · = false) :=
  ⟨fun _ hc => beq_iff_eq.mp hc ▸ hx, trivial⟩

theorem ordinalEnding_over_white : ordinalEnding.Over (Text.isWhite · = false) := by
  simp only [ordinalEnding, opt, words, List.map, anyOf, Over, over_word_iff, and_true]
  decide

theorem spaced_of_writtenYear (h : (writtenYear fullYear).Reads u) : Spaced u := by
  rcases reads_opt_iff.mp h with rfl | h
  · trivial
  · simp only [Regex.all, reads_seq_iff] at h
    obtain ⟨comma, -, rfl, hcomma, white, y, rfl, hwhite, hy⟩ := h
    refine .append (hcomma.forall_mem (char_over_white rfl)) ?_
    exact .white_append (reads_many1_one_iff.mp hwhite).2
      (spaced_of_forall (hy.forall_mem fullYear_over_white)) (startsItem_of_fullYear hy)

/-- Numeric tokens are made of digits and separators. -/
theorem numericToken_over : ∀ p ∈ [dateTokenIso, dateToken],
    p.regex.Over fun c => Text.isDigit c ∨ c ∈ dateSeparators := by
  have hshort : shortNumber.Over fun c => Text.isDigit c ∨ c ∈ dateSeparators :=
    shortNumber_over.mono fun _ => .inl
  have hfull : fullYear.Over fun c => Text.isDigit c ∨ c ∈ dateSeparators :=
    fullYear_over.mono fun _ => .inl
  have hyear : year.Over fun c => Text.isDigit c ∨ c ∈ dateSeparators :=
    ⟨hfull, over_times (digit_over.mono fun _ => .inl) 2⟩
  have hchar : ∀ sep ∈ dateSeparators,
      (Regex.char sep).Over fun c => Text.isDigit c ∨ c ∈ dateSeparators :=
    fun sep hsep x hx => .inr (beq_iff_eq.mp hx ▸ hsep)
  have hiso : ∀ sep ∈ dateSeparators,
      (yearMonthDay sep).Over fun c => Text.isDigit c ∨ c ∈ dateSeparators := fun sep hsep =>
    ⟨hfull, hchar sep hsep, hshort, hchar sep hsep, hshort⟩
  have hmdy : ∀ sep ∈ dateSeparators,
      (monthDayYear sep).Over fun c => Text.isDigit c ∨ c ∈ dateSeparators := fun sep hsep =>
    ⟨hshort, hchar sep hsep, hshort, hchar sep hsep, hyear⟩
  simp only [dateSeparators, List.forall_mem_cons, List.not_mem_nil, false_imp_iff, implies_true,
    and_true] at hiso hmdy hchar ⊢
  exact ⟨⟨trivial, hiso, trivial⟩,
    trivial, ⟨hmdy.1, hmdy.2.1, hmdy.2.2, hshort, hchar.1, hshort⟩, trivial⟩

/-- A character of a token with the name of a month. -/
def IsTextTokenChar (c : Char) : Prop :=
  Text.isDigit c ∨ Text.isWhite c ∨ Text.isForm c ∨ c = '.' ∨ c = ','

theorem textToken_over : dateTokenText.regex.Over IsTextTokenChar := by
  have hchar : ∀ x, x = '.' ∨ x = ',' → (opt (Regex.char x)).Over IsTextTokenChar :=
    fun x hx => ⟨fun _ hy => beq_iff_eq.mp hy ▸ .inr (.inr (.inr hx)), trivial⟩
  have hwhite : (many1 white).Over IsTextTokenChar := ⟨fun _ => .inr ∘ .inl, fun _ => .inr ∘ .inl⟩
  have hname : monthName.Over IsTextTokenChar := by
    refine Over.mono (p := (Text.isForm ·)) ?_ fun _ => .inr ∘ .inr ∘ .inl
    simp only [monthName, stem, opt, anyOf, Over, over_word_iff, and_true]
    decide
  have hending : ordinalEnding.Over IsTextTokenChar := by
    refine Over.mono (p := (Text.isForm ·)) ?_ fun _ => .inr ∘ .inr ∘ .inl
    simp only [ordinalEnding, opt, words, List.map, anyOf, Over, over_word_iff, and_true]
    decide
  have hday : shortNumber.Over IsTextTokenChar := shortNumber_over.mono fun _ => .inl
  have hyear : (writtenYear fullYear).Over IsTextTokenChar :=
    ⟨⟨hchar ',' (.inr rfl), hwhite, fullYear_over.mono fun _ => .inl⟩, trivial⟩
  exact ⟨⟨trivial, hname, hchar '.' (.inl rfl), hwhite, hday, hending, hyear, trivial⟩,
    trivial, hday, hending, hwhite, hname, hchar '.' (.inl rfl), hyear, trivial⟩

theorem isWhite_eq_false_of_numeric (hp : p ∈ [dateTokenIso, dateToken]) (h : p.regex.Reads u) :
    ∀ c ∈ u, Text.isWhite c = false := by
  intro c hc
  have hsep : ∀ sep ∈ dateSeparators, Text.isWhite sep = false := by decide
  exact (h.forall_mem (numericToken_over p hp) c hc).elim Text.isWhite_eq_false_of_isDigit (hsep c)

theorem items_of_numeric (hp : p ∈ [dateTokenIso, dateToken]) (h : p.regex.Reads u) :
    StartsItem u ∧ Spaced u := by
  refine ⟨.inl (numericDate_of_dateToken ?_).1, spaced_of_forall (isWhite_eq_false_of_numeric hp h)⟩
  simp only [List.mem_cons, List.not_mem_nil, or_false] at hp
  rcases hp with rfl | rfl
  · exact .inr h
  · exact .inl h

/-- The parts of a token with the name of a month, which stands in front of the day or behind it. -/
inductive ReadsText : Text → Prop where
  | monthFirst {name point gap n ending tail : Text} : monthName.Reads name →
      (opt (Regex.char '.')).Reads point → (many1 white).Reads gap → shortNumber.Reads n →
      ordinalEnding.Reads ending → (writtenYear fullYear).Reads tail →
      ReadsText (name ++ (point ++ (gap ++ (n ++ (ending ++ tail)))))
  | dayFirst {name point gap n ending tail : Text} : monthName.Reads name →
      (opt (Regex.char '.')).Reads point → (many1 white).Reads gap → shortNumber.Reads n →
      ordinalEnding.Reads ending → (writtenYear fullYear).Reads tail →
      ReadsText (n ++ (ending ++ (gap ++ (name ++ (point ++ tail)))))

theorem readsText_of_reads (h : dateTokenText.regex.Reads u) : ReadsText u := by
  rcases reads_alt_iff.mp h with h | h
  · simp only [Regex.all, reads_seq_iff] at h
    obtain ⟨e, -, rfl, he, name, -, rfl, hname, point, -, rfl, hpoint, gap, -, rfl, hgap, n, -,
      rfl, hn, ending, -, rfl, hending, tail, e', rfl, htail, he'⟩ := h
    obtain rfl := he.eq_nil rfl
    obtain rfl := he'.eq_nil rfl
    rw [List.nil_append, List.append_nil]
    exact .monthFirst hname hpoint hgap hn hending htail
  · simp only [Regex.all, reads_seq_iff] at h
    obtain ⟨e, -, rfl, he, n, -, rfl, hn, ending, -, rfl, hending, gap, -, rfl, hgap, name, -,
      rfl, hname, point, -, rfl, hpoint, tail, e', rfl, htail, he'⟩ := h
    obtain rfl := he.eq_nil rfl
    obtain rfl := he'.eq_nil rfl
    rw [List.nil_append, List.append_nil]
    exact .dayFirst hname hpoint hgap hn hending htail

theorem items_of_text (h : dateTokenText.regex.Reads u) : StartsItem u ∧ Spaced u := by
  cases readsText_of_reads h with
  | @monthFirst name point gap n ending tail hname hpoint hgap hn hending htail =>
    have hday : Spaced (n ++ (ending ++ tail)) :=
      .append (hn.forall_mem shortNumber_over_white)
        (.append (hending.forall_mem ordinalEnding_over_white) (spaced_of_writtenYear htail))
    refine ⟨(startsItem_of_monthName hname).append _, ?_⟩
    refine .append (hname.forall_mem monthName_over_white) ?_
    refine .append (hpoint.forall_mem (char_over_white rfl)) ?_
    exact .white_append (reads_many1_one_iff.mp hgap).2 hday
      ((startsItem_of_shortNumber hn).append _)
  | @dayFirst name point gap n ending tail hname hpoint hgap hn hending htail =>
    have hmonth : Spaced (name ++ (point ++ tail)) :=
      .append (hname.forall_mem monthName_over_white)
        (.append (hpoint.forall_mem (char_over_white rfl)) (spaced_of_writtenYear htail))
    refine ⟨(startsItem_of_shortNumber hn).append _, ?_⟩
    refine .append (hn.forall_mem shortNumber_over_white) ?_
    refine .append (hending.forall_mem ordinalEnding_over_white) ?_
    exact .white_append (reads_many1_one_iff.mp hgap).2 hmonth
      ((startsItem_of_monthName hname).append _)

/-- **The patterns for date tokens read items between white space.** -/
theorem items_of_reads (hp : p ∈ [dateTokenIso, dateToken, dateTokenText]) (h : p.regex.Reads u) :
    StartsItem u ∧ Spaced u := by
  simp only [List.mem_cons, List.not_mem_nil, or_false] at hp
  rcases hp with rfl | rfl | rfl
  · exact items_of_numeric (by simp) h
  · exact items_of_numeric (by simp) h
  · exact items_of_text h

/-! ## No match reaches over what joins two dates -/

/-- What joins two dates, between blanks: a word in any case or a dash. -/
inductive Joiner : Text → Prop where
  | word {w : Text} {cue : String} : cue ∈ ["to", "and", "through", "thru"] →
      Text.lower w = cue.toList → Joiner w
  | dash {c : Char} : DateRange.isDash c → Joiner [c]

theorem mem_of_isDash {c : Char} (hc : DateRange.isDash c) : c ∈ ['-', '–', '—'] := by
  simpa [DateRange.isDash, or_assoc] using hc

/-- The forms of what joins two dates, with the blank behind it. -/
def joinerForms : List Text :=
  ["to ".toList, "and ".toList, "through ".toList, "thru ".toList, "- ".toList, "– ".toList,
    "— ".toList]

theorem Joiner.map_foldCase (hw : Joiner w) : (w ++ [' ']).map Text.foldCase ∈ joinerForms := by
  cases hw with
  | @word _ cue hcue hlower =>
    have hwords : ∀ cue ∈ ["to", "and", "through", "thru"],
        cue.toList.all Char.isLower ∧ cue.toList ++ [' '] ∈ joinerForms := by
      decide
    rw [List.map_append, Text.map_foldCase_eq_of_lower (hwords cue hcue).1 hlower]
    exact (hwords cue hcue).2
  | @dash c hc =>
    have hdashes : ∀ c ∈ ['-', '–', '—'], [c, ' '].map Text.foldCase ∈ joinerForms := by decide
    exact hdashes c (mem_of_isDash hc)

theorem Joiner.isDigit_eq_false (hw : Joiner w) : ∀ c ∈ w ++ [' '], Text.isDigit c = false := by
  rw [List.forall_mem_append, List.forall_mem_singleton]
  refine ⟨?_, by decide⟩
  cases hw with
  | @word _ cue hcue hlower =>
    have hwords : ∀ cue ∈ ["to", "and", "through", "thru"], cue.toList.all Char.isLower := by decide
    intro c hc
    refine Text.isDigit_eq_false_of_isAlpha (Text.isAlpha_of_toLower ?_)
    refine List.all_eq_true.mp (hwords cue hcue) _ ?_
    rw [← hlower]
    exact List.mem_map_of_mem hc
  | @dash c hc =>
    have hdashes : ∀ c ∈ ['-', '–', '—'], Text.isDigit c = false := by decide
    rw [List.forall_mem_singleton]
    exact hdashes c (mem_of_isDash hc)

theorem Joiner.startsOutside (hw : Joiner w) : StartsOutside Text.isWhite w := by
  cases hw with
  | @word _ cue hcue hlower =>
    have hwords : ∀ cue ∈ ["to", "and", "through", "thru"],
        ∃ c u, cue.toList = c :: u ∧ c.isLower := by
      simp
    obtain ⟨c, u, hc, hclower⟩ := hwords cue hcue
    obtain ⟨e, w, rfl, rfl, -⟩ := List.map_eq_cons_iff.mp (hlower.trans hc)
    exact .cons (Text.isWhite_eq_false_of_isAlphanum
      (Text.isAlphanum_of_isAlpha (Text.isAlpha_of_toLower hclower)))
  | @dash c hc =>
    have hdashes : ∀ c ∈ ['-', '–', '—'], Text.isWhite c = false := by decide
    exact .cons (hdashes c (mem_of_isDash hc))

/-- No item starts in a word or dash between dates, or in the blank behind it. -/
theorem Joiner.not_startsItem (hw : Joiner w) (h : w ++ ' ' :: t = x ++ v)
    (hx : x.length ≤ w.length) : ¬ StartsItem v := by
  obtain ⟨y, hy, hv⟩ : ∃ y, w ++ [' '] = x ++ y ∧ v = y ++ t := by
    rw [List.append_cons] at h
    rcases List.append_eq_append_iff.mp h with ⟨y, hy, -⟩ | ⟨y, hy, hv⟩
    · have hlength := congrArg List.length hy
      simp only [List.length_append, List.length_cons, List.length_nil] at hlength
      omega
    · exact ⟨y, hy, hv⟩
  have hne : y ≠ [] := by
    rintro rfl
    have hlength := congrArg List.length hy
    simp only [List.length_append, List.length_cons, List.length_nil] at hlength
    omega
  rw [hv]
  rintro (⟨c, u, hc, hdigit⟩ | ⟨l, hl, hopens⟩)
  · obtain ⟨d, y, rfl⟩ := List.exists_cons_of_ne_nil hne
    obtain rfl := (List.cons.inj hc).1
    rw [hw.isDigit_eq_false d (by simp [hy])] at hdigit
    cases hdigit
  · -- the first letters of a month differ from those of every end of the joiner
    have hends : ∀ form ∈ joinerForms, ∀ k < form.length, ∀ l ∈ Calendar.monthStems,
        ¬ l.take (form.drop k).length <+: form.drop k := by
      decide
    have hform := hw.map_foldCase
    rw [hy, List.map_append] at hform
    have hdrop : (x.map Text.foldCase ++ y.map Text.foldCase).drop x.length = y.map Text.foldCase :=
      List.drop_left' (List.length_map _)
    have hlt : x.length < (x.map Text.foldCase ++ y.map Text.foldCase).length := by
      have := List.length_pos_iff.mpr hne
      simpa using this
    refine hends _ hform x.length hlt l hl ?_
    rw [hdrop]
    rw [List.map_append] at hopens
    exact List.prefix_of_prefix_length_le ((List.take_prefix _ l).trans hopens)
      (List.prefix_append ..) (List.length_take_le ..)

/-- **A match that begins before the second date ends with the first date.** -/
theorem length_le_of_joiner {s a b : Text} (hw : Joiner w) (hitem : StartsItem u)
    (hspaced : Spaced u) (h : s ++ (' ' :: (w ++ ' ' :: t)) = a ++ (u ++ b))
    (hlt : a.length < s.length + w.length + 2) : a.length + u.length ≤ s.length := by
  rcases List.append_eq_append_iff.mp h with ⟨z, rfl, hz⟩ | ⟨z, rfl, hz⟩
  · -- no match begins behind the first date
    exfalso
    rw [List.length_append] at hlt
    cases z with
    | nil =>
      obtain ⟨c, v, rfl, hc⟩ := hitem.exists_cons
      obtain rfl := (List.cons.inj hz).1
      revert hc
      decide
    | cons e z =>
      refine hw.not_startsItem (List.cons.inj hz).2 ?_ (hitem.append b)
      rw [List.length_cons] at hlt
      omega
  · rw [List.length_append]
    rcases List.append_eq_append_iff.mp hz with ⟨y, rfl, -⟩ | ⟨y, rfl, hy⟩
    · rw [List.length_append]
      omega
    · cases y with
      | nil =>
        rw [List.append_nil]
      | cons e y =>
        -- the match would go on with an item behind the blank
        obtain ⟨rfl, hrest⟩ := List.cons.inj hy
        rcases hspaced.of_append.1 rfl with ⟨d, v, rfl, hd⟩ | hitem
        · obtain ⟨c, w, rfl, hc⟩ := hw.startsOutside
          obtain rfl := (List.cons.inj hrest).1
          rw [hc] at hd
          cases hd
        · exact absurd (hitem.append b) (hw.not_startsItem (x := []) hrest (Nat.zero_le _))

end DateToken

end Snippet
