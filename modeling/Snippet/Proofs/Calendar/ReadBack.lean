import Snippet.Proofs.Calendar.TokenSpans
import Snippet.Proofs.Calendar.WrittenParts
import Snippet.Proofs.Text.Phrase

/-!
# Two written dates are read back

Two dates, each written in one of its shapes, with a word or a dash between them make up the range
from the earlier to the later one, whatever today is (`DateRange.ofText?_written`). A range that was
read is described in this way, so its description is a fixed point (`DateRange.ofText?_describe`).
-/

namespace Snippet

namespace DateRange

open Date DateToken

variable {a b : Date} {s t u v w : Text}

/-- The dates themselves, if both years are written. -/
theorem resolve?_eq (a b : Date) :
    resolve? ⟨a.month, a.day, some a.year, false⟩ ⟨b.month, b.day, some b.year, false⟩ =
      some ⟨min a b, max a b⟩ := by
  have hdate : ∀ d : Date, DateParts.toDate? ⟨d.month, d.day, some d.year, false⟩ = some d :=
    fun d => dif_pos d.valid
  by_cases h : b < a
  · simp [resolve?, hdate, isBefore_eq, h, min_eq_right h.le, max_eq_left h.le]
  · have hle := not_lt.mp h
    simp [resolve?, hdate, isBefore_eq, h, min_eq_left hle, max_eq_right hle]

theorem hasCue_of_joiner (hw : Joiner w) (s v : Text) : hasCue (s ++ ' ' :: (w ++ ' ' :: v)) := by
  cases hw with
  | @word _ cue hcue hlower =>
    have hcues : ∀ cue ∈ ["to", "and", "through", "thru"], ' ' :: (cue.toList ++ [' ']) ∈ cueWords := by
      decide
    rw [hasCue, Bool.or_eq_true]
    refine .inl (List.any_eq_true.mpr ⟨_, hcues cue hcue, ?_⟩)
    have hphrase := Text.hasPhrase_append (' ' :: (cue.toList ++ [' '])) (Text.lower s) (Text.lower v)
    simpa [Text.lower, ← hlower] using hphrase
  | @dash c hc =>
    rw [hasCue, Bool.or_eq_true]
    exact .inr (List.any_eq_true.mpr ⟨c, by simp, hc⟩)

/-- Two written dates with a joiner between them and a tail that no token reaches into. -/
theorem ofText?_append (hs : Written a s) (ha : 0 ≤ a.year ∧ a.year ≤ 9999) (hw : Joiner w)
    (ht : Written b t) (hb : 0 ≤ b.year ∧ b.year ≤ 9999) (hv : Delimited v)
    (hnumber : joinsNumber v = false)
    (htail : ∀ p ∈ [Pattern.dateTokenIso, Pattern.dateToken, Pattern.dateTokenText], ∀ u x,
      p.regex.Reads u → t ++ v = u ++ x → u.length ≤ t.length) (today : Date) :
    ofText? today (s ++ ' ' :: (w ++ ' ' :: (t ++ v))) = some ⟨min a b, max a b⟩ := by
  obtain ⟨i, j, rest, hall⟩ := exists_all_eq hs ha hw ht hb hv hnumber htail
  have hparts : parts today (s ++ ' ' :: (w ++ ' ' :: (t ++ v))) =
      ⟨a.month, a.day, some a.year, false⟩ :: ⟨b.month, b.day, some b.year, false⟩ ::
        rest.filterMap fun token => DateParts.ofToken? today token.text := by
    simp [parts, hall, hs.ofToken?_eq ha, ht.ofToken?_eq hb]
  rw [ofText?, if_pos (hasCue_of_joiner hw s (t ++ v)), hparts]
  exact resolve?_eq a b

theorem days_eq {r : DateRange} (h : r.start ≤ r.stop) :
    r.days = r.stop.dayNumber - r.start.dayNumber + 1 := by
  have hle : r.start.dayNumber ≤ r.stop.dayNumber := h
  rw [days]
  omega

/-- **Every written pair of full dates is read back**, in either order, with its days counted
inclusively. -/
theorem ofText?_written (hs : Written a s) (ha : 0 ≤ a.year ∧ a.year ≤ 9999) (hw : Joiner w)
    (ht : Written b t) (hb : 0 ≤ b.year ∧ b.year ≤ 9999) (today : Date) :
    ∃ r, ofText? today (s ++ ' ' :: (w ++ ' ' :: t)) = some r ∧ r.start = min a b ∧
      r.stop = max a b ∧ r.days = (max a b).dayNumber - (min a b).dayNumber + 1 ∧
      ∀ w', Joiner w' → ofText? today (t ++ ' ' :: (w' ++ ' ' :: s)) = some r := by
  have hpair : ∀ {a b : Date} {s t w : Text}, Written a s → 0 ≤ a.year ∧ a.year ≤ 9999 → Joiner w →
      Written b t → 0 ≤ b.year ∧ b.year ≤ 9999 →
      ofText? today (s ++ ' ' :: (w ++ ' ' :: t)) = some ⟨min a b, max a b⟩ := by
    intro a b s t w hs ha hw ht hb
    have hread := ofText?_append (v := []) hs ha hw ht hb (by simp [Delimited]) rfl
      (fun p _ u x _ htu => by simp [show t = u ++ x by simpa using htu]) today
    simpa using hread
  refine ⟨_, hpair hs ha hw ht hb, rfl, rfl, days_eq min_le_max, fun w' hw' => ?_⟩
  rw [hpair ht hb hw' hs ha, min_comm, max_comm]

/-- The last day of February written with the day in front and the new year written in numbers. -/
theorem ofText?_february_to_new_year :
    ∃ r, ofText? ⟨2025, 6, 1, by decide⟩ "29th FEB., 2024 Through 2023-1-01".toList = some r ∧
      r.start = ⟨2023, 1, 1, by decide⟩ ∧ r.stop = ⟨2024, 2, 29, by decide⟩ ∧ r.days = 425 := by
  obtain ⟨r, hr, hstart, hstop, hdays, -⟩ := ofText?_written
    (a := ⟨2024, 2, 29, by decide⟩) (b := ⟨2023, 1, 1, by decide⟩)
    (@Written.dayFirst _ "FEB".toList ".".toList "29".toList "th".toList ",".toList
      ⟨_, rfl, "feb", by simp, by decide⟩ (.inr rfl) (.inl rfl) (.inr ⟨"th", by simp, by decide⟩)
      (.inr rfl))
    (by decide) (@Joiner.word "Through".toList "through" (by simp) (by decide))
    (@Written.yearMonthDay _ '-' "1".toList "01".toList (by decide) (.inl rfl) (.inr rfl))
    (by decide) ⟨2025, 6, 1, by decide⟩
  exact ⟨r, hr, hstart, hstop, hdays⟩

/-! ## Descriptions -/

/-- A range never ends before it starts. -/
theorem start_le_stop {today : Date} {r : DateRange} (h : ofText? today t = some r) :
    r.start ≤ r.stop := by
  have hresolve : ∃ a b, resolve? a b = some r := by
    unfold ofText? at h
    split at h
    · split at h
      · exact ⟨_, _, h⟩
      · cases h
    · cases h
  obtain ⟨a, b, h⟩ := hresolve
  simp only [resolve?, Option.bind_eq_bind, Option.bind_eq_some_iff, Option.pure_def,
    Option.some.injEq] at h
  obtain ⟨start, -, stop, -, h⟩ := h
  generalize (if stop.isBefore start then
      if b.yearInferred then (start, moved b 1 stop)
      else if a.yearInferred then (moved a (-1) start, stop)
      else (start, stop)
    else (start, stop)) = p at h
  split at h
  · rename_i hlt
    rw [isBefore_eq, decide_eq_true_eq] at hlt
    exact h ▸ hlt.le
  · rename_i hlt
    rw [isBefore_eq, decide_eq_true_eq, not_lt] at hlt
    exact h ▸ hlt

theorem written_slashed {d : Date} (hyear : 0 ≤ d.year ∧ d.year ≤ 9999) : Written d d.slashed := by
  have htext : yearText d.year = d.fourDigits := by
    rw [yearText, if_neg (not_lt.mpr hyear.1), if_neg (not_lt.mpr hyear.2), fourDigits]
  rw [slashed, htext, List.append_assoc]
  exact @Written.monthDayYear d '/' _ _ (by decide) (.inr rfl) (.inr rfl)

/-- No token reaches from a date with slashes over the comma behind it. -/
theorem length_le_of_slashed {p : Pattern} {d : Date} {x : Text}
    (hp : p ∈ [Pattern.dateTokenIso, Pattern.dateToken, Pattern.dateTokenText])
    (hread : p.regex.Reads u) (h : d.slashed ++ ',' :: v = u ++ x) :
    u.length ≤ d.slashed.length := by
  rcases List.append_eq_append_iff.mp h with ⟨y, rfl, hy⟩ | ⟨y, hy, -⟩
  · cases y with
    | nil => rw [List.append_nil]
    | cons e y =>
      -- a numeric token has no comma, and one with the name of a month no slash
      obtain rfl := (List.cons.inj hy).1
      simp only [List.mem_cons, List.not_mem_nil, or_false] at hp
      have hcomma : ¬ (Text.isDigit ',' ∨ ',' ∈ Pattern.dateSeparators) := by decide
      rcases hp with rfl | rfl | rfl
      · exact absurd (hread.forall_mem (numericToken_over _ (by simp)) ',' (by simp)) hcomma
      · exact absurd (hread.forall_mem (numericToken_over _ (by simp)) ',' (by simp)) hcomma
      · have hslash := hread.forall_mem textToken_over '/' (by simp [slashed])
        exact absurd hslash (by simp [IsTextTokenChar]; decide)
  · rw [hy, List.length_append]
    omega

/-- The description of a range is read as the range, whatever today is. -/
theorem ofText?_of_le {r : DateRange} (hle : r.start ≤ r.stop)
    (hstart : 0 ≤ r.start.year ∧ r.start.year ≤ 9999) (hstop : 0 ≤ r.stop.year ∧ r.stop.year ≤ 9999)
    (today : Date) : ofText? today r.describe = some r := by
  have htext : r.describe = r.start.slashed ++ ' ' :: ("to".toList ++ ' ' :: (r.stop.slashed ++
      ',' :: ' ' :: (intText r.days ++ " days".toList))) := by
    simp [describe]
  have hjoiner : Joiner "to".toList := @Joiner.word _ "to" (by simp) (by decide)
  rw [htext, ofText?_append (written_slashed hstart) hstart hjoiner (written_slashed hstop) hstop
    (by simp [Delimited]) (by simp [joinsNumber]) (fun p hp u x hread => length_le_of_slashed hp hread),
    min_eq_left hle, max_eq_right hle]

/-- **The description of a range that was read is a fixed point**: it is read as the same range,
whatever today is, and described by the same text. -/
theorem ofText?_describe {today : Date} {r : DateRange} (h : ofText? today t = some r)
    (hstart : 0 ≤ r.start.year ∧ r.start.year ≤ 9999) (hstop : 0 ≤ r.stop.year ∧ r.stop.year ≤ 9999)
    (settings : Settings) :
    ofText? settings.today r.describe = some r ∧
      formatter.process settings r.describe = some r.describe := by
  have hread := ofText?_of_le (start_le_stop h) hstart hstop settings.today
  exact ⟨hread, by simp [formatter, hread]⟩

/-- The range of a text without years, read again many years later. -/
theorem ofText?_describe_new_year :
    ofText? ⟨2024, 6, 1, by decide⟩ "12/30 - 1/2".toList =
        some ⟨⟨2024, 12, 30, by decide⟩, ⟨2025, 1, 2, by decide⟩⟩ ∧
      ofText? ⟨2088, 3, 1, by decide⟩ "12/30/2024 to 01/02/2025, 4 days".toList =
        some ⟨⟨2024, 12, 30, by decide⟩, ⟨2025, 1, 2, by decide⟩⟩ := by
  have hread : ofText? ⟨2024, 6, 1, by decide⟩ "12/30 - 1/2".toList =
      some ⟨⟨2024, 12, 30, by decide⟩, ⟨2025, 1, 2, by decide⟩⟩ := by
    have hall : all "12/30 - 1/2".toList =
        [⟨⟨0, 5⟩, "12/30".toList⟩, ⟨⟨8, 11⟩, "1/2".toList⟩] :=
      all_eq_of_candidates (by decide +kernel) (by decide)
    rw [ofText?, parts, hall]
    decide +kernel
  have hagain := ofText?_describe hread (by decide) (by decide) ⟨{}, 2088, 3, 1, by decide⟩
  have htext : describe ⟨⟨2024, 12, 30, by decide⟩, ⟨2025, 1, 2, by decide⟩⟩ =
      "12/30/2024 to 01/02/2025, 4 days".toList := by
    decide +kernel
  exact ⟨hread, htext ▸ hagain.1⟩

end DateRange

end Snippet
