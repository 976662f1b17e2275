import Snippet.Calendar.DateRange
import Snippet.Proofs.Calendar.Anniversary
import Snippet.Proofs.Calendar.DateToken

/-!
# The years of a range

A year that is missing from one of two dates is shared with the other, or with today, and moved by
one where the range would end before it starts. There are five ways in which two written dates make up
a range (`DateRange.Resolves`), and no others (`DateRange.ofText?_iff_resolves`).

The range runs from the earlier to the later date, its written years are kept, and it is at most a
year long if a year is missing (`DateRange.ofText?_infers_years`). Then it runs from the date written
first to the one written second, unless a leap day or the end of the calendar is in the way of the
moved year (`DateRange.ofText?_inOrder_iff`).
-/

namespace Snippet

namespace DateParts

variable {p : DateParts} {today : Date} {t : Text}

/-- The date with this month and day in a given year, if there is one. -/
def dateIn? (p : DateParts) (year : Int) : Option Date := Date.of? year p.month p.day

/-- Whether the month and day come before those of other parts. -/
def IsEarlierInYear (p q : DateParts) : Prop :=
  p.month < q.month ∨ p.month = q.month ∧ p.day < q.day

theorem toDate?_inYear (p : DateParts) (year : Int) : (p.inYear year).toDate? = p.dateIn? year := rfl

theorem toDate?_of_year {year : Int} (h : p.year = some year) : p.toDate? = p.dateIn? year := by
  rw [toDate?, h]
  rfl

theorem dateIn?_eq_some_iff {year : Int} {d : Date} :
    p.dateIn? year = some d ↔ d.year = year ∧ d.month = p.month ∧ d.day = p.day :=
  Date.of?_eq_some_iff

theorem yearInferred_of_of? {month day : Nat} {year : Option Int} (h : of? month day year = some p) :
    p.yearInferred = false := by
  unfold of? at h
  split at h
  · rw [← Option.some.inj h]
  · cases h

/-! ## What is read from a text -/

section

variable {m : Match}

theorem exists_of?_of_ofIso? (h : ofIso? t m = some p) :
    ∃ month day year, of? month day year = some p := by
  simp only [ofIso?, Option.bind_eq_bind, Option.bind_eq_some_iff] at h
  obtain ⟨texts, -, h⟩ := h
  split at h
  · simp only [Option.bind_eq_some_iff] at h
    obtain ⟨_, -, _, -, _, -, h⟩ := h
    exact ⟨_, _, _, h⟩
  · cases h

theorem exists_of?_of_ofMdy? (h : ofMdy? today t m = some p) :
    ∃ month day year, of? month day year = some p := by
  simp only [ofMdy?, Option.bind_eq_bind, Option.bind_eq_some_iff] at h
  obtain ⟨texts, -, h⟩ := h
  split at h
  · simp only [Option.bind_eq_some_iff] at h
    obtain ⟨_, -, _, -, _, -, h⟩ := h
    exact ⟨_, _, _, h⟩
  · cases h

theorem exists_of?_of_ofMd? (h : ofMd? t m = some p) :
    ∃ month day year, of? month day year = some p := by
  simp only [ofMd?, Option.bind_eq_bind, Option.bind_eq_some_iff] at h
  obtain ⟨_, -, _, -, _, -, _, -, h⟩ := h
  exact ⟨_, _, _, h⟩

theorem exists_of?_of_ofNamed? {i j : Nat} (h : ofNamed? t m i j = some p) :
    ∃ month day year, of? month day year = some p := by
  simp only [ofNamed?, Option.bind_eq_bind, Option.bind_eq_some_iff] at h
  obtain ⟨_, -, _, -, _, -, _, -, _, -, h⟩ := h
  exact ⟨_, _, _, h⟩

end

/-- Whatever shape a token has, its parts are a month, a day and perhaps a year that are written. -/
theorem exists_of?_of_ofToken? (h : ofToken? today t = some p) :
    ∃ month day year, of? month day year = some p := by
  unfold ofToken? at h
  split at h
  · exact exists_of?_of_ofIso? h
  · split at h
    · exact exists_of?_of_ofMdy? h
    · split at h
      · exact exists_of?_of_ofMd? h
      · split at h
        · exact exists_of?_of_ofNamed? h
        · split at h
          · exact exists_of?_of_ofNamed? h
          · cases h

/-- A year that is read from a text is written there. -/
theorem yearInferred_of_ofToken? (h : ofToken? today t = some p) : p.yearInferred = false := by
  obtain ⟨month, day, year, hof⟩ := exists_of?_of_ofToken? h
  exact yearInferred_of_of? hof

end DateParts

namespace DateRange

open Calendar

variable {today : Date} {t : Text} {a b : DateParts} {rest : List DateParts} {r : DateRange}

/-- The year for a missing one: the one that is written beside it, or else that of today. -/
def sharedYear (today : Date) (a b : DateParts) : Int := (a.year.or b.year).getD today.year

/-- How two written dates make up a range. -/
inductive Resolves (today : Date) (a b : DateParts) : DateRange → Prop where
  /-- Both years are written. -/
  | written {A B : Date} : a.year.isSome → b.year.isSome → a.toDate? = some A →
      b.toDate? = some B → Resolves today a b ⟨min A B, max A B⟩
  /-- The missing years are the shared one. -/
  | shared {A B : Date} : a.year = none ∨ b.year = none →
      a.dateIn? (sharedYear today a b) = some A → b.dateIn? (sharedYear today a b) = some B →
      A ≤ B → Resolves today a b ⟨A, B⟩
  /-- The second date is moved into the next year. -/
  | stopMoved {A B C : Date} : b.year = none → a.dateIn? (sharedYear today a b) = some A →
      b.dateIn? (sharedYear today a b) = some B → B < A →
      b.dateIn? (sharedYear today a b + 1) = some C → Resolves today a b ⟨A, C⟩
  /-- The first date is moved into the year before. -/
  | startMoved {A B C : Date} : a.year = none → b.year.isSome →
      a.dateIn? (sharedYear today a b) = some A → b.dateIn? (sharedYear today a b) = some B →
      B < A → a.dateIn? (sharedYear today a b - 1) = some C → Resolves today a b ⟨C, B⟩
  /-- The date that should be moved does not exist in the other year. -/
  | exchanged {A B : Date} : a.year = none ∨ b.year = none →
      a.dateIn? (sharedYear today a b) = some A → b.dateIn? (sharedYear today a b) = some B →
      B < A → (b.year = none → b.dateIn? (sharedYear today a b + 1) = none) →
      (b.year.isSome → a.dateIn? (sharedYear today a b - 1) = none) → Resolves today a b ⟨B, A⟩

/-! ## The ways to resolve two dates -/

theorem moved_inYear (p : DateParts) (year years : Int) (d : Date) :
    moved (p.inYear year) years d = (p.dateIn? (year + years)).getD d := rfl

/-- The dates in their order, once no year is moved any more. -/
theorem ordered_eq (A B : Date) :
    (if B.isBefore A then ⟨B, A⟩ else ⟨A, B⟩ : DateRange) = ⟨min A B, max A B⟩ := by
  rw [Date.isBefore_eq]
  by_cases h : B < A
  · rw [if_pos (decide_eq_true h), min_eq_right h.le, max_eq_left h.le]
  · rw [if_neg (by simpa using h), min_eq_left (not_lt.mp h), max_eq_right (not_lt.mp h)]

theorem start_lt_of_year {p q : DateParts} {year : Int} {A C : Date}
    (hA : p.dateIn? year = some A) (hC : q.dateIn? (year + 1) = some C) : A < C := by
  apply Date.dayNumber_lt_of_year
  rw [(DateParts.dateIn?_eq_some_iff.mp hA).1, (DateParts.dateIn?_eq_some_iff.mp hC).1]
  omega

theorem not_missing (ha : a.year.isSome) (hb : b.year.isSome) :
    ¬ (a.year = none ∨ b.year = none) :=
  not_or.mpr ⟨Option.isSome_iff_ne_none.mp ha, Option.isSome_iff_ne_none.mp hb⟩

/-- Both years are written. -/
theorem resolve?_iff_of_written (ha : a.year.isSome) (hb : b.year.isSome)
    (hainferred : a.yearInferred = false) (hbinferred : b.yearInferred = false) :
    resolve? a b = some r ↔ Resolves today a b r := by
  have hwritten := not_missing ha hb
  simp only [resolve?, Option.bind_eq_bind, Option.bind_eq_some_iff, hainferred, hbinferred,
    Bool.false_eq_true, if_false, ite_self, ordered_eq, Option.pure_def, Option.some.injEq]
  constructor
  · rintro ⟨A, hA, B, hB, rfl⟩
    exact .written ha hb hA hB
  · intro h
    cases h with
    | written _ _ hA hB => exact ⟨_, hA, _, hB, rfl⟩
    | shared hmissing => exact absurd hmissing hwritten
    | stopMoved hmissing => exact absurd (.inr hmissing) hwritten
    | startMoved hmissing => exact absurd (.inl hmissing) hwritten
    | exchanged hmissing => exact absurd hmissing hwritten

/-- The second year is missing, and perhaps the first one too, which then is read as `p`. -/
theorem resolve?_iff_of_stop {p : DateParts} (hb : b.year = none)
    (hp : p.toDate? = a.dateIn? (sharedYear today a b)) :
    resolve? p (b.inYear (sharedYear today a b)) = some r ↔ Resolves today a b r := by
  have hbSome : ¬ b.year.isSome := by simp [hb]
  simp only [resolve?, Option.bind_eq_bind, Option.bind_eq_some_iff, hp, DateParts.toDate?_inYear,
    moved_inYear, Date.isBefore_eq, Option.pure_def, show (b.inYear _).yearInferred = true from rfl,
    if_true]
  constructor
  · rintro ⟨A, hA, B, hB, h⟩
    by_cases hlt : B < A
    · cases hC : b.dateIn? (sharedYear today a b + 1) with
      | some C =>
        simp only [hlt, decide_true, if_true, hC, Option.getD_some, (start_lt_of_year hA hC).not_gt,
          decide_false, Bool.false_eq_true, if_false, Option.some.injEq] at h
        exact h ▸ .stopMoved hb hA hB hlt hC
      | none =>
        simp only [hlt, decide_true, if_true, hC, Option.getD_none, Option.some.injEq] at h
        exact h ▸ .exchanged (.inr hb) hA hB hlt (fun _ => hC) fun hsome => absurd hsome hbSome
    · simp only [hlt, decide_false, Bool.false_eq_true, if_false, Option.some.injEq] at h
      exact h ▸ .shared (.inr hb) hA hB (not_lt.mp hlt)
  · intro h
    cases h with
    | written _ hsome => exact absurd hsome hbSome
    | shared _ hA hB hle => exact ⟨_, hA, _, hB, by simp [hle.not_gt]⟩
    | stopMoved _ hA hB hlt hC =>
      exact ⟨_, hA, _, hB, by simp [hlt, hC, (start_lt_of_year hA hC).not_gt]⟩
    | startMoved _ hsome => exact absurd hsome hbSome
    | exchanged _ hA hB hlt hstop _ => exact ⟨_, hA, _, hB, by simp [hlt, hstop hb]⟩

/-- The first year only is missing. -/
theorem resolve?_iff_of_start (ha : a.year = none) (hb : b.year.isSome)
    (hbinferred : b.yearInferred = false) (hbdate : b.toDate? = b.dateIn? (sharedYear today a b)) :
    resolve? (a.inYear (sharedYear today a b)) b = some r ↔ Resolves today a b r := by
  have hbNone := Option.isSome_iff_ne_none.mp hb
  have hlt_of : ∀ {B C : Date}, a.dateIn? (sharedYear today a b - 1) = some C →
      b.dateIn? (sharedYear today a b) = some B → C < B := by
    intro B C hC hB
    exact start_lt_of_year hC (by rwa [Int.sub_add_cancel])
  simp only [resolve?, Option.bind_eq_bind, Option.bind_eq_some_iff, DateParts.toDate?_inYear,
    hbdate, moved_inYear, Date.isBefore_eq, hbinferred, Bool.false_eq_true, if_false, Option.pure_def,
    show (a.inYear _).yearInferred = true from rfl, if_true, ← Int.sub_eq_add_neg]
  constructor
  · rintro ⟨A, hA, B, hB, h⟩
    by_cases hlt : B < A
    · cases hC : a.dateIn? (sharedYear today a b - 1) with
      | some C =>
        simp only [hlt, decide_true, if_true, hC, Option.getD_some, (hlt_of hC hB).not_gt,
          decide_false, Bool.false_eq_true, if_false, Option.some.injEq] at h
        exact h ▸ .startMoved ha hb hA hB hlt hC
      | none =>
        simp only [hlt, decide_true, if_true, hC, Option.getD_none, Option.some.injEq] at h
        exact h ▸ .exchanged (.inl ha) hA hB hlt (fun hnone => absurd hnone hbNone) fun _ => hC
    · simp only [hlt, decide_false, Bool.false_eq_true, if_false, Option.some.injEq] at h
      exact h ▸ .shared (.inl ha) hA hB (not_lt.mp hlt)
  · intro h
    cases h with
    | written hsome => simp [ha] at hsome
    | shared _ hA hB hle => exact ⟨_, hA, _, hB, by simp [hle.not_gt]⟩
    | stopMoved hmissing => exact absurd hmissing hbNone
    | startMoved _ _ hA hB hlt hC =>
      exact ⟨_, hA, _, hB, by simp [hlt, hC, (hlt_of hC hB).not_gt]⟩
    | exchanged _ hA hB hlt _ hstart => exact ⟨_, hA, _, hB, by simp [hlt, hstart hb]⟩

/-- Two written dates make up a range in the five ways. -/
theorem resolve?_fillYears_iff (ha : a.yearInferred = false) (hb : b.yearInferred = false) :
    resolve? (fillYears today a b).1 (fillYears today a b).2 = some r ↔ Resolves today a b r := by
  unfold fillYears
  cases hayear : a.year with
  | some y =>
    cases hbyear : b.year with
    | some z => exact resolve?_iff_of_written (by simp [hayear]) (by simp [hbyear]) ha hb
    | none =>
      have hshared : sharedYear today a b = y := by rw [sharedYear, hayear]; rfl
      rw [← hshared] at hayear ⊢
      exact resolve?_iff_of_stop hbyear (DateParts.toDate?_of_year hayear)
  | none =>
    cases hbyear : b.year with
    | some z =>
      have hshared : sharedYear today a b = z := by rw [sharedYear, hayear, hbyear]; rfl
      have hsome : b.year.isSome := by simp [hbyear]
      rw [← hshared] at hbyear ⊢
      exact resolve?_iff_of_start hayear hsome hb (DateParts.toDate?_of_year hbyear)
    | none =>
      have hshared : sharedYear today a b = today.year := by rw [sharedYear, hayear, hbyear]; rfl
      rw [← hshared]
      exact resolve?_iff_of_stop hbyear (DateParts.toDate?_inYear ..)

theorem yearInferred_of_mem_parts {p : DateParts} (h : p ∈ parts today t) :
    p.yearInferred = false := by
  obtain ⟨token, -, htoken⟩ := List.mem_filterMap.mp h
  exact DateParts.yearInferred_of_ofToken? htoken

/-- **A text has a range if it has a cue and its first two dates make one up in one of the five
ways.** -/
theorem ofText?_iff_resolves : ofText? today t = some r ↔
    hasCue t ∧ ∃ a b rest, parts today t = a :: b :: rest ∧ Resolves today a b r := by
  unfold ofText?
  split
  · rename_i hcue
    split
    · rename_i a b rest hparts
      have ha : a ∈ parts today t := by rw [hparts]; exact List.mem_cons_self ..
      have hb : b ∈ parts today t := by rw [hparts]; exact .tail _ (List.mem_cons_self ..)
      refine (resolve?_fillYears_iff (yearInferred_of_mem_parts ha)
        (yearInferred_of_mem_parts hb)).trans ⟨fun h => ⟨hcue, a, b, rest, hparts, h⟩, ?_⟩
      rintro ⟨-, _, _, _, heq, h⟩
      obtain ⟨rfl, rfl, rfl⟩ := hparts.symm.trans heq
      exact h
    · rename_i hshort
      refine iff_of_false (by simp) ?_
      rintro ⟨-, a, b, rest, hparts, -⟩
      exact hshort a b rest hparts
  · rename_i hcue
    exact iff_of_false (by simp) fun h => hcue h.1

/-! ## The dates of a range -/

/-- The dates that two written dates stand for. They have the written months and days, and the written
years. A missing year is the shared one, or the year next to it where the range would end before it
starts: the year after for the second date, the year before for the first one, if only this one has
no year. -/
structure Dated (today : Date) (a b : DateParts) (A B : Date) : Prop where
  start_month : A.month = a.month
  start_day : A.day = a.day
  stop_month : B.month = b.month
  stop_day : B.day = b.day
  start_year : ∀ year ∈ a.year, A.year = year
  stop_year : ∀ year ∈ b.year, B.year = year
  start_missing : a.year = none → A.year = sharedYear today a b ∨
    b.year.isSome ∧ A.year = sharedYear today a b - 1 ∧
      ∃ C, a.dateIn? (sharedYear today a b) = some C ∧ B < C
  stop_missing : b.year = none → B.year = sharedYear today a b ∨
    B.year = sharedYear today a b + 1 ∧
      ∃ C, b.dateIn? (sharedYear today a b) = some C ∧ C < A

theorem sharedYear_eq_first {year : Int} (h : year ∈ a.year) : sharedYear today a b = year := by
  rw [sharedYear, Option.mem_def.mp h]
  rfl

theorem sharedYear_eq_second {year : Int} (hmissing : a.year = none ∨ b.year = none)
    (h : year ∈ b.year) : sharedYear today a b = year := by
  rw [Option.mem_def] at h
  have ha : a.year = none := hmissing.resolve_right (by simp [h])
  rw [sharedYear, ha, h]
  rfl

/-- Both dates in the shared year. -/
theorem dated_of_shared {A B : Date} (hmissing : a.year = none ∨ b.year = none)
    (hA : a.dateIn? (sharedYear today a b) = some A)
    (hB : b.dateIn? (sharedYear today a b) = some B) : Dated today a b A B := by
  obtain ⟨hAyear, hAmonth, hAday⟩ := DateParts.dateIn?_eq_some_iff.mp hA
  obtain ⟨hByear, hBmonth, hBday⟩ := DateParts.dateIn?_eq_some_iff.mp hB
  exact ⟨hAmonth, hAday, hBmonth, hBday,
    fun year h => hAyear.trans (sharedYear_eq_first h),
    fun year h => hByear.trans (sharedYear_eq_second hmissing h),
    fun _ => .inl hAyear, fun _ => .inl hByear⟩

theorem Resolves.exists_dated (h : Resolves today a b r) :
    ∃ A B, Dated today a b A B ∧ r.start = min A B ∧ r.stop = max A B := by
  cases h with
  | @written A B ha hb hA hB =>
    obtain ⟨y, hy⟩ := Option.isSome_iff_exists.mp ha
    obtain ⟨z, hz⟩ := Option.isSome_iff_exists.mp hb
    rw [DateParts.toDate?_of_year hy] at hA
    rw [DateParts.toDate?_of_year hz] at hB
    obtain ⟨hAyear, hAmonth, hAday⟩ := DateParts.dateIn?_eq_some_iff.mp hA
    obtain ⟨hByear, hBmonth, hBday⟩ := DateParts.dateIn?_eq_some_iff.mp hB
    refine ⟨A, B, ⟨hAmonth, hAday, hBmonth, hBday, ?_, ?_, ?_, ?_⟩, rfl, rfl⟩
    · rintro year h
      rw [hAyear, Option.some.inj (hy.symm.trans h)]
    · rintro year h
      rw [hByear, Option.some.inj (hz.symm.trans h)]
    · simp [hy]
    · simp [hz]
  | @shared A B hmissing hA hB hle =>
    exact ⟨A, B, dated_of_shared hmissing hA hB, (min_eq_left hle).symm, (max_eq_right hle).symm⟩
  | @stopMoved A B C hb hA hB hlt hC =>
    have hdated := dated_of_shared (.inr hb) hA hB
    have hle := (start_lt_of_year hA hC).le
    obtain ⟨hCyear, hCmonth, hCday⟩ := DateParts.dateIn?_eq_some_iff.mp hC
    exact ⟨A, C, ⟨hdated.start_month, hdated.start_day, hCmonth, hCday, hdated.start_year,
      by simp [hb], fun ha => .inl (DateParts.dateIn?_eq_some_iff.mp hA).1,
      fun _ => .inr ⟨hCyear, B, hB, hlt⟩⟩, (min_eq_left hle).symm, (max_eq_right hle).symm⟩
  | @startMoved A B C ha hb hA hB hlt hC =>
    have hdated := dated_of_shared (.inl ha) hA hB
    have hle := (start_lt_of_year hC (by rwa [Int.sub_add_cancel])).le
    obtain ⟨hCyear, hCmonth, hCday⟩ := DateParts.dateIn?_eq_some_iff.mp hC
    exact ⟨C, B, ⟨hCmonth, hCday, hdated.stop_month, hdated.stop_day, by simp [ha],
      hdated.stop_year, fun _ => .inr ⟨hb, hCyear, A, hA, hlt⟩,
      fun _ => .inl (DateParts.dateIn?_eq_some_iff.mp hB).1⟩, (min_eq_left hle).symm,
      (max_eq_right hle).symm⟩
  | @exchanged A B hmissing hA hB hlt _ _ =>
    exact ⟨A, B, dated_of_shared hmissing hA hB, (min_eq_right hlt.le).symm,
      (max_eq_left hlt.le).symm⟩

/-- **A range with a missing year is at most a year long.** -/
theorem Resolves.dayNumber_le (h : Resolves today a b r)
    (hmissing : a.year = none ∨ b.year = none) :
    r.stop.dayNumber ≤ r.start.dayNumber + 365 := by
  have hsame : ∀ {p q : DateParts} {year : Int} {A B : Date}, p.dateIn? year = some A →
      q.dateIn? year = some B → B.dayNumber ≤ A.dayNumber + 365 := by
    intro p q year A B hA hB
    apply Date.dayNumber_le_of_year_eq
    rw [(DateParts.dateIn?_eq_some_iff.mp hA).1, (DateParts.dateIn?_eq_some_iff.mp hB).1]
  have hnext : ∀ {p : DateParts} {year : Int} {A B : Date}, p.dateIn? year = some A →
      p.dateIn? (year + 1) = some B → B.dayNumber ≤ A.dayNumber + 366 := by
    intro p year A B hA hB
    obtain ⟨hAyear, hAmonth, hAday⟩ := DateParts.dateIn?_eq_some_iff.mp hA
    obtain ⟨hByear, hBmonth, hBday⟩ := DateParts.dateIn?_eq_some_iff.mp hB
    exact Date.dayNumber_le_of_anniversary (by rw [hAyear, hByear]) (by rw [hAmonth, hBmonth])
      (by rw [hAday, hBday])
  cases h with
  | written ha hb _ _ => exact absurd hmissing (not_missing ha hb)
  | shared _ hA hB _ => exact hsame hA hB
  | @stopMoved A B C _ _ hB hlt hC =>
    have hlt : B.dayNumber < A.dayNumber := hlt
    have hle := hnext hB hC
    show C.dayNumber ≤ A.dayNumber + 365
    omega
  | @startMoved A B C _ _ hA _ hlt hC =>
    have hlt : B.dayNumber < A.dayNumber := hlt
    have hle := hnext hC (by rwa [Int.sub_add_cancel])
    show B.dayNumber ≤ C.dayNumber + 365
    omega
  | exchanged _ hA hB _ _ _ => exact hsame hB hA

/-- **The range of a text, and the years of its dates.** It runs from the earlier to the later of the
dates that the first two written dates stand for, is counted with both of them, and is at most a year
long if one of the years is missing. -/
theorem ofText?_infers_years (h : ofText? today t = some r) :
    ∃ a b rest A B, parts today t = a :: b :: rest ∧ Dated today a b A B ∧
      r.start = min A B ∧ r.stop = max A B ∧ r.start ≤ r.stop ∧
      r.days = r.stop.dayNumber - r.start.dayNumber + 1 ∧ 1 ≤ r.days ∧
      (a.year = none ∨ b.year = none → r.days ≤ 366) := by
  obtain ⟨-, a, b, rest, hparts, hresolves⟩ := ofText?_iff_resolves.mp h
  obtain ⟨A, B, hdated, hstart, hstop⟩ := hresolves.exists_dated
  have hle : r.start ≤ r.stop := by
    rw [hstart, hstop]
    exact (min_le_left A B).trans (le_max_left A B)
  have hnumbers : r.start.dayNumber ≤ r.stop.dayNumber := hle
  have hdays : r.days = r.stop.dayNumber - r.start.dayNumber + 1 := by
    rw [days]
    omega
  refine ⟨a, b, rest, A, B, hparts, hdated, hstart, hstop, hle, hdays, by omega, fun hmissing => ?_⟩
  have hlong := hresolves.dayNumber_le hmissing
  omega

/-- A second date that was written without its year comes after the first one, in the next year. -/
theorem ofText?_infers_years_new_year :
    ofText? ⟨2026, 10, 19, by decide⟩ "12/30 to 1/2/2025".toList =
        some ⟨⟨2024, 12, 30, by decide⟩, ⟨2025, 1, 2, by decide⟩⟩ ∧
      ∃ a b rest A B, parts ⟨2026, 10, 19, by decide⟩ "12/30 to 1/2/2025".toList = a :: b :: rest ∧
        Dated ⟨2026, 10, 19, by decide⟩ a b A B ∧
        (⟨2024, 12, 30, by decide⟩ : Date) = min A B ∧
        (⟨2025, 1, 2, by decide⟩ : Date) = max A B := by
  have hread : ofText? ⟨2026, 10, 19, by decide⟩ "12/30 to 1/2/2025".toList =
      some ⟨⟨2024, 12, 30, by decide⟩, ⟨2025, 1, 2, by decide⟩⟩ := by
    have hall : DateToken.all "12/30 to 1/2/2025".toList =
        [⟨⟨0, 5⟩, "12/30".toList⟩, ⟨⟨9, 17⟩, "1/2/2025".toList⟩] :=
      DateToken.all_eq_of_candidates (by decide +kernel) (by decide)
    rw [ofText?, parts, hall]
    decide +kernel
  obtain ⟨a, b, rest, A, B, hparts, hdated, hstart, hstop, -⟩ := ofText?_infers_years hread
  exact ⟨hread, a, b, rest, A, B, hparts, hdated, hstart, hstop⟩

/-! ## The written order -/

/-- Whether a range runs from the month and day of some parts to those of other parts. -/
structure InOrder (a b : DateParts) (r : DateRange) : Prop where
  start_month : r.start.month = a.month
  start_day : r.start.day = a.day
  stop_month : r.stop.month = b.month
  stop_day : r.stop.day = b.day

/-- Whether the date whose year is missing cannot be moved: it is a leap day, or the calendar ends. It
is the second date if this one has no year, and else the first. -/
def IsStuck (today : Date) (a b : DateParts) : Prop :=
  if b.year = none then IsLeapDay b.month b.day ∨ sharedYear today a b = lastYear
  else IsLeapDay a.month a.day ∨ sharedYear today a b = firstYear

theorem isEarlierInYear_iff {p q : DateParts} {year : Int} {P Q : Date}
    (hP : p.dateIn? year = some P) (hQ : q.dateIn? year = some Q) :
    q.IsEarlierInYear p ↔ Q < P := by
  obtain ⟨hPyear, hPmonth, hPday⟩ := DateParts.dateIn?_eq_some_iff.mp hP
  obtain ⟨hQyear, hQmonth, hQday⟩ := DateParts.dateIn?_eq_some_iff.mp hQ
  have hlt : Q < P ↔ Q.dayNumber < P.dayNumber := Iff.rfl
  rw [hlt, Date.dayNumber_lt_iff, hPyear, hQyear, hPmonth, hQmonth, hPday, hQday]
  simp [DateParts.IsEarlierInYear]

theorem dateIn?_next_eq_none_iff {p : DateParts} {year : Int} {P : Date}
    (hP : p.dateIn? year = some P) :
    p.dateIn? (year + 1) = none ↔ IsLeapDay p.month p.day ∨ year = lastYear := by
  obtain ⟨hyear, hmonth, hday⟩ := DateParts.dateIn?_eq_some_iff.mp hP
  rw [DateParts.dateIn?, ← hyear, ← hmonth, ← hday, Date.of?_next_eq_none_iff]

theorem dateIn?_previous_eq_none_iff {p : DateParts} {year : Int} {P : Date}
    (hP : p.dateIn? year = some P) :
    p.dateIn? (year - 1) = none ↔ IsLeapDay p.month p.day ∨ year = firstYear := by
  obtain ⟨hyear, hmonth, hday⟩ := DateParts.dateIn?_eq_some_iff.mp hP
  rw [DateParts.dateIn?, ← hyear, ← hmonth, ← hday, Date.of?_previous_eq_none_iff]

theorem Dated.inOrder {A B : Date} (h : Dated today a b A B) : InOrder a b ⟨A, B⟩ :=
  ⟨h.start_month, h.start_day, h.stop_month, h.stop_day⟩

theorem Resolves.inOrder_iff (h : Resolves today a b r) (hmissing : a.year = none ∨ b.year = none) :
    InOrder a b r ↔ ¬ (b.IsEarlierInYear a ∧ IsStuck today a b) := by
  cases h with
  | written ha hb _ _ => exact absurd hmissing (not_missing ha hb)
  | @shared A B _ hA hB hle =>
    refine iff_of_true (dated_of_shared hmissing hA hB).inOrder fun hstuck => ?_
    exact not_lt.mpr hle ((isEarlierInYear_iff hA hB).mp hstuck.1)
  | @stopMoved A B C hb hA hB hlt hC =>
    obtain ⟨-, hAmonth, hAday⟩ := DateParts.dateIn?_eq_some_iff.mp hA
    obtain ⟨-, hCmonth, hCday⟩ := DateParts.dateIn?_eq_some_iff.mp hC
    refine iff_of_true ⟨hAmonth, hAday, hCmonth, hCday⟩ fun hstuck => ?_
    rw [IsStuck, if_pos hb, ← dateIn?_next_eq_none_iff hB, hC] at hstuck
    cases hstuck.2
  | @startMoved A B C ha hb hA hB hlt hC =>
    obtain ⟨-, hBmonth, hBday⟩ := DateParts.dateIn?_eq_some_iff.mp hB
    obtain ⟨-, hCmonth, hCday⟩ := DateParts.dateIn?_eq_some_iff.mp hC
    refine iff_of_true ⟨hCmonth, hCday, hBmonth, hBday⟩ fun hstuck => ?_
    rw [IsStuck, if_neg (by simp [Option.isSome_iff_ne_none.mp hb]),
      ← dateIn?_previous_eq_none_iff hA, hC] at hstuck
    cases hstuck.2
  | @exchanged A B _ hA hB hlt hstop hstart =>
    have hearlier := (isEarlierInYear_iff hA hB).mpr hlt
    refine iff_of_false (fun hinOrder => ?_) fun hnot => hnot ⟨hearlier, ?_⟩
    · -- the range starts with the month and day of the second date, which lie before
      obtain ⟨-, hBmonth, hBday⟩ := DateParts.dateIn?_eq_some_iff.mp hB
      have hmonth : b.month = a.month := hBmonth.symm.trans hinOrder.start_month
      have hday : b.day = a.day := hBday.symm.trans hinOrder.start_day
      unfold DateParts.IsEarlierInYear at hearlier
      omega
    · unfold IsStuck
      split
      · rename_i hb
        exact (dateIn?_next_eq_none_iff hB).mp (hstop hb)
      · rename_i hb
        exact (dateIn?_previous_eq_none_iff hA).mp (hstart (Option.isSome_iff_ne_none.mpr hb))

/-- **A range with a missing year runs from the date written first to the one written second**, unless
the second one comes before the first in the year and the date to be moved is a leap day or leaves
the calendar. Then they are exchanged. -/
theorem ofText?_inOrder_iff (h : ofText? today t = some r) (hparts : parts today t = a :: b :: rest)
    (hmissing : a.year = none ∨ b.year = none) :
    InOrder a b r ↔ ¬ (b.IsEarlierInYear a ∧ IsStuck today a b) := by
  obtain ⟨-, a', b', rest', hparts', hresolves⟩ := ofText?_iff_resolves.mp h
  rw [hparts] at hparts'
  obtain ⟨rfl, rfl, -⟩ := hparts'
  exact hresolves.inOrder_iff hmissing

/-- The second date is moved into the next year. -/
theorem ofText?_inOrder_new_year :
    ofText? ⟨2026, 10, 19, by decide⟩ "12/30 - 1/2".toList =
        some ⟨⟨2026, 12, 30, by decide⟩, ⟨2027, 1, 2, by decide⟩⟩ ∧
      InOrder ⟨12, 30, none, false⟩ ⟨1, 2, none, false⟩
        ⟨⟨2026, 12, 30, by decide⟩, ⟨2027, 1, 2, by decide⟩⟩ := by
  have hall : DateToken.all "12/30 - 1/2".toList =
      [⟨⟨0, 5⟩, "12/30".toList⟩, ⟨⟨8, 11⟩, "1/2".toList⟩] :=
    DateToken.all_eq_of_candidates (by decide +kernel) (by decide)
  have hparts : parts ⟨2026, 10, 19, by decide⟩ "12/30 - 1/2".toList =
      [⟨12, 30, none, false⟩, ⟨1, 2, none, false⟩] := by
    rw [parts, hall]
    decide +kernel
  have hread : ofText? ⟨2026, 10, 19, by decide⟩ "12/30 - 1/2".toList =
      some ⟨⟨2026, 12, 30, by decide⟩, ⟨2027, 1, 2, by decide⟩⟩ := by
    rw [ofText?, hparts]
    decide +kernel
  refine ⟨hread, (ofText?_inOrder_iff hread hparts (.inl rfl)).mpr fun hstuck => ?_⟩
  revert hstuck
  rw [IsStuck, if_pos rfl]
  simp [IsLeapDay, sharedYear, lastYear]

/-- The leap day cannot be moved, so the range starts with the date that was written second. -/
theorem ofText?_exchanges_leap_day :
    parts ⟨2026, 10, 19, by decide⟩ "12/30/2024 to 2/29".toList =
        [⟨12, 30, some 2024, false⟩, ⟨2, 29, none, false⟩] ∧
      ofText? ⟨2026, 10, 19, by decide⟩ "12/30/2024 to 2/29".toList =
        some ⟨⟨2024, 2, 29, by decide⟩, ⟨2024, 12, 30, by decide⟩⟩ ∧
      ¬ InOrder ⟨12, 30, some 2024, false⟩ ⟨2, 29, none, false⟩
        ⟨⟨2024, 2, 29, by decide⟩, ⟨2024, 12, 30, by decide⟩⟩ := by
  have hall : DateToken.all "12/30/2024 to 2/29".toList =
      [⟨⟨0, 10⟩, "12/30/2024".toList⟩, ⟨⟨14, 18⟩, "2/29".toList⟩] :=
    DateToken.all_eq_of_candidates (by decide +kernel) (by decide)
  have hparts : parts ⟨2026, 10, 19, by decide⟩ "12/30/2024 to 2/29".toList =
      [⟨12, 30, some 2024, false⟩, ⟨2, 29, none, false⟩] := by
    rw [parts, hall]
    decide +kernel
  have hread : ofText? ⟨2026, 10, 19, by decide⟩ "12/30/2024 to 2/29".toList =
      some ⟨⟨2024, 2, 29, by decide⟩, ⟨2024, 12, 30, by decide⟩⟩ := by
    rw [ofText?, hparts]
    decide +kernel
  refine ⟨hparts, hread, fun hinOrder => ?_⟩
  cases hinOrder.start_month

end DateRange

end Snippet
