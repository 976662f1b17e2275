import Mathlib.Order.Lattice
import Snippet.Calendar.Date

/-!
# The order of dates

The day number of a date is larger the later the date is, by year, month and day
(`Date.dayNumber_lt_iff`). So dates are in the order of their day numbers, and two dates with one
number are equal.
-/

namespace Snippet

namespace Calendar

/-- All days of a year come before the next years. -/
theorem daysBeforeYear_add_le {y z : Int} (h : y < z) :
    daysBeforeYear y + 365 + (if isLeap y then 1 else 0) ≤ daysBeforeYear z := by
  have hleap : isLeap y = true ↔ y % 4 = 0 ∧ (y % 100 ≠ 0 ∨ y % 400 = 0) := by
    simp [isLeap]
  simp only [daysBeforeYear]
  split
  · rename_i hyear
    have hyear := hleap.mp hyear
    omega
  · omega

theorem daysBeforeMonth_succ (y : Int) {m : Nat} (h : 1 ≤ m) :
    daysBeforeMonth y (m + 1) = daysBeforeMonth y m + monthDays y m := by
  obtain ⟨k, rfl⟩ := Nat.exists_eq_add_of_le' h
  simp only [daysBeforeMonth, Nat.add_sub_cancel, List.range_succ, List.map_append,
    List.map_singleton]
  rw [List.sum_append, List.sum_singleton]

/-- All days of a month come before the next months. -/
theorem daysBeforeMonth_add_le (y : Int) {m n : Nat} (hm : 1 ≤ m) (h : m < n) :
    daysBeforeMonth y m + monthDays y m ≤ daysBeforeMonth y n := by
  induction n, h using Nat.le_induction with
  | base => rw [daysBeforeMonth_succ y hm]
  | succ n hn ih =>
    rw [daysBeforeMonth_succ y (by omega)]
    omega

/-- The months of a year have its days. -/
theorem daysBeforeMonth_thirteen (y : Int) :
    daysBeforeMonth y 13 = 365 + if isLeap y then 1 else 0 := by
  have hfebruary : ∀ leap : Bool, ((List.range 12).map fun m =>
      if m + 1 = 2 then if leap then 29 else 28
      else if m + 1 = 4 || m + 1 = 6 || m + 1 = 9 || m + 1 = 11 then 30 else 31).sum =
        365 + if leap then 1 else 0 := by
    decide
  exact hfebruary (isLeap y)

end Calendar

namespace Date

open Calendar

variable {a b : Date}

theorem year_bounds (d : Date) : firstYear ≤ d.year ∧ d.year ≤ lastYear := by
  have h := d.valid
  simp only [isDate, Bool.and_eq_true, decide_eq_true_eq] at h
  exact h.1.1.1.1

theorem month_bounds (d : Date) : 1 ≤ d.month ∧ d.month ≤ 12 := by
  have h := d.valid
  simp only [isDate, Bool.and_eq_true, decide_eq_true_eq] at h
  exact ⟨h.1.1.1.2, h.1.1.2⟩

theorem day_bounds (d : Date) : 1 ≤ d.day ∧ d.day ≤ monthDays d.year d.month := by
  have h := d.valid
  simp only [isDate, Bool.and_eq_true, decide_eq_true_eq] at h
  exact ⟨h.1.2, h.2⟩

theorem day_le (d : Date) : d.day ≤ 31 := by
  have hday := d.day_bounds.2
  unfold monthDays at hday
  split at hday
  · split at hday <;> omega
  · split at hday <;> omega

/-- A date in an earlier year. -/
theorem dayNumber_lt_of_year (h : a.year < b.year) : a.dayNumber < b.dayNumber := by
  have hyear := daysBeforeYear_add_le h
  have hmonth := daysBeforeMonth_add_le a.year a.month_bounds.1 (Nat.lt_succ_of_le a.month_bounds.2)
  have hall := daysBeforeMonth_thirteen a.year
  have ha := a.day_bounds.2
  have hb := b.day_bounds.1
  simp only [dayNumber]
  split at hyear <;> simp_all <;> omega

/-- A date in an earlier month of the same year. -/
theorem dayNumber_lt_of_month (hyear : a.year = b.year) (h : a.month < b.month) :
    a.dayNumber < b.dayNumber := by
  have hmonth := daysBeforeMonth_add_le a.year a.month_bounds.1 h
  have ha := a.day_bounds.2
  have hb := b.day_bounds.1
  simp only [dayNumber, ← hyear]
  omega

/-- **Of two dates the earlier one, by year, month and day, has the smaller day number.** -/
theorem dayNumber_lt_iff : a.dayNumber < b.dayNumber ↔
    a.year < b.year ∨
      a.year = b.year ∧ (a.month < b.month ∨ a.month = b.month ∧ a.day < b.day) := by
  rcases lt_trichotomy a.year b.year with hy | hy | hy
  · simp [hy, dayNumber_lt_of_year hy]
  · rcases lt_trichotomy a.month b.month with hm | hm | hm
    · simp [hy, hm, dayNumber_lt_of_month hy hm]
    · simp [dayNumber, hy, hm]
    · have hlt := dayNumber_lt_of_month hy.symm hm
      simp only [hy, hm.not_gt, hm.ne', lt_irrefl, true_and, false_and, or_false, iff_false]
      omega
  · have hlt := dayNumber_lt_of_year hy
    simp only [hy.not_gt, hy.ne', false_and, or_false, iff_false]
    omega

theorem dayNumber_injective : Function.Injective dayNumber := by
  intro a b h
  have hab := mt dayNumber_lt_iff.mpr h.not_lt
  have hba := mt dayNumber_lt_iff.mpr h.not_gt
  obtain ⟨hyear, hmonth, hday⟩ : a.year = b.year ∧ a.month = b.month ∧ a.day = b.day := by omega
  cases a
  cases b
  simp_all

instance : LinearOrder Date := LinearOrder.lift' dayNumber dayNumber_injective

theorem year_le_of_le (h : a ≤ b) : a.year ≤ b.year :=
  not_lt.mp fun hlt => absurd (dayNumber_lt_of_year hlt) (not_lt.mpr h)

theorem isBefore_eq (a b : Date) : a.isBefore b = decide (a < b) := rfl

end Date

end Snippet
