import Snippet.Proofs.Calendar.DateOrder

/-!
# The same day in another year

A month and a day that make up a date in one year do so in another year of the calendar, unless they
are the leap day (`Date.of?_eq_none_iff_of_date`). Two dates of one year lie at most 365 days apart,
and a day and its anniversary at most 366 (`Date.dayNumber_le_of_year_eq`,
`Date.dayNumber_le_of_anniversary`).
-/

namespace Snippet

namespace Calendar

/-- The twenty-ninth of February. -/
def IsLeapDay (month day : Nat) : Prop := month = 2 ∧ day = 29

theorem isDate_iff {year : Int} {month day : Nat} :
    isDate year month day ↔
      (firstYear ≤ year ∧ year ≤ lastYear) ∧ (1 ≤ month ∧ month ≤ 12) ∧
        1 ≤ day ∧ day ≤ monthDays year month := by
  simp only [isDate, Bool.and_eq_true, decide_eq_true_eq, and_assoc]

/-- Only February has a length that changes from year to year. -/
theorem monthDays_congr {year : Int} {month : Nat} (year' : Int) (h : month ≠ 2) :
    monthDays year month = monthDays year' month := by
  simp [monthDays, h]

theorem monthDays_february (year : Int) :
    monthDays year 2 = 28 + if isLeap year then 1 else 0 := by
  rw [monthDays, if_pos rfl]
  split <;> rfl

/-- Leap years do not follow one another. -/
theorem isLeap_add_one {year : Int} (h : isLeap year) : isLeap (year + 1) = false := by
  simp only [isLeap, Bool.and_eq_true, Bool.or_eq_true, beq_iff_eq, bne_iff_ne] at h
  rw [← Bool.not_eq_true]
  simp only [isLeap, Bool.and_eq_true, Bool.or_eq_true, beq_iff_eq, bne_iff_ne]
  omega

/-- A month begins at most one day later in the next year, and no later if the year has a leap
day. -/
theorem daysBeforeMonth_add_one_le (year : Int) {month : Nat} (h : month ≤ 12) :
    daysBeforeMonth (year + 1) month + (if isLeap year then 1 else 0) ≤
      daysBeforeMonth year month + 1 := by
  have hall : ∀ leap leap' : Bool, ∀ month < 13,
      ((List.range (month - 1)).map fun m =>
        if m + 1 = 2 then if leap' then 29 else 28
        else if m + 1 = 4 || m + 1 = 6 || m + 1 = 9 || m + 1 = 11 then 30 else 31).sum +
          (if leap then 1 else 0) ≤
        ((List.range (month - 1)).map fun m =>
          if m + 1 = 2 then if leap then 29 else 28
          else if m + 1 = 4 || m + 1 = 6 || m + 1 = 9 || m + 1 = 11 then 30 else 31).sum + 1 := by
    decide
  exact hall (isLeap year) (isLeap (year + 1)) month (by omega)

theorem daysBeforeYear_add_one (year : Int) :
    daysBeforeYear (year + 1) = daysBeforeYear year + 365 + if isLeap year then 1 else 0 := by
  have hleap : isLeap year = true ↔ year % 4 = 0 ∧ (year % 100 ≠ 0 ∨ year % 400 = 0) := by
    simp [isLeap]
  simp only [daysBeforeYear]
  split
  · rename_i hyear
    have hyear := hleap.mp hyear
    omega
  · rename_i hyear
    have hyear := mt hleap.mpr hyear
    omega

end Calendar

namespace Date

open Calendar

variable {a b d : Date} {year : Int} {month day : Nat}

theorem of?_eq_some_iff :
    of? year month day = some d ↔ d.year = year ∧ d.month = month ∧ d.day = day := by
  unfold of?
  split
  · cases d
    simp [eq_comm]
  · rename_i h
    refine iff_of_false (by simp) ?_
    rintro ⟨rfl, rfl, rfl⟩
    exact h d.valid

theorem of?_eq_none_iff : of? year month day = none ↔ ¬ isDate year month day := by
  simp [of?]

/-- **A date falls on its day in another year too, unless it is a leap day and that year has none or
the calendar ends before.** -/
theorem of?_eq_none_iff_of_date (d : Date) (year : Int) :
    of? year d.month d.day = none ↔
      ¬ (firstYear ≤ year ∧ year ≤ lastYear) ∨ IsLeapDay d.month d.day ∧ isLeap year = false := by
  have hmonth := d.month_bounds
  have hday := d.day_bounds
  rw [of?_eq_none_iff, isDate_iff]
  by_cases hfebruary : d.month = 2
  · rw [hfebruary, monthDays_february] at hday
    have hle : d.day ≤ 29 := by split at hday <;> omega
    rw [IsLeapDay, hfebruary, monthDays_february]
    cases isLeap year with
    | true =>
      simp only [if_true, Bool.true_eq_false, and_false, or_false]
      omega
    | false =>
      simp only [Bool.false_eq_true, if_false, true_and, and_true]
      omega
  · rw [monthDays_congr d.year hfebruary]
    have hleap : ¬ IsLeapDay d.month d.day := fun h => hfebruary h.1
    simp [hleap, hmonth, hday]

theorem isLeap_of_isLeapDay (h : IsLeapDay d.month d.day) : isLeap d.year := by
  have hday := d.day_bounds.2
  rw [h.1, h.2, monthDays_february] at hday
  split at hday
  · assumption
  · omega

/-- **A date has no anniversary in the next year if it is a leap day or the calendar ends.** -/
theorem of?_next_eq_none_iff (d : Date) :
    of? (d.year + 1) d.month d.day = none ↔ IsLeapDay d.month d.day ∨ d.year = lastYear := by
  have hyear := d.year_bounds
  rw [of?_eq_none_iff_of_date, or_comm]
  refine or_congr (and_iff_left_of_imp fun h => isLeap_add_one (isLeap_of_isLeapDay h)) ?_
  omega

/-- **A date has none in the year before if it is a leap day or the calendar begins.** -/
theorem of?_previous_eq_none_iff (d : Date) :
    of? (d.year - 1) d.month d.day = none ↔ IsLeapDay d.month d.day ∨ d.year = firstYear := by
  have hyear := d.year_bounds
  rw [of?_eq_none_iff_of_date, or_comm]
  refine or_congr (and_iff_left_of_imp fun h => ?_) ?_
  · -- a leap year has no leap year before it
    rw [← Bool.not_eq_true]
    intro hprevious
    have hnot := isLeap_add_one hprevious
    rw [Int.sub_add_cancel, isLeap_of_isLeapDay h] at hnot
    cases hnot
  · omega

theorem daysBeforeYear_lt_dayNumber (d : Date) : daysBeforeYear d.year < d.dayNumber := by
  have hday := d.day_bounds.1
  simp only [dayNumber]
  omega

theorem dayNumber_le_daysBeforeYear (d : Date) :
    d.dayNumber ≤ daysBeforeYear (d.year + 1) := by
  have hmonth := daysBeforeMonth_add_le d.year d.month_bounds.1
    (Nat.lt_succ_of_le d.month_bounds.2)
  have hall := daysBeforeMonth_thirteen d.year
  have hday := d.day_bounds.2
  have hyear := daysBeforeYear_add_one d.year
  simp only [dayNumber]
  split at hyear <;> simp_all <;> omega

/-- Two dates of one year. -/
theorem dayNumber_le_of_year_eq (h : a.year = b.year) : b.dayNumber ≤ a.dayNumber + 365 := by
  have ha := a.daysBeforeYear_lt_dayNumber
  have hb := b.dayNumber_le_daysBeforeYear
  have hyear := daysBeforeYear_add_one b.year
  rw [h] at ha
  split at hyear <;> omega

/-- A date and its anniversary in the next year. -/
theorem dayNumber_le_of_anniversary (hyear : b.year = a.year + 1) (hmonth : b.month = a.month)
    (hday : b.day = a.day) : b.dayNumber ≤ a.dayNumber + 366 := by
  have hyears := daysBeforeYear_add_one a.year
  have hmonths := daysBeforeMonth_add_one_le a.year a.month_bounds.2
  simp only [dayNumber, hyear, hmonth, hday]
  split at hyears <;> simp_all <;> omega

end Date

end Snippet
