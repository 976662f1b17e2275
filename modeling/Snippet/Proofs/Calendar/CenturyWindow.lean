import Mathlib.Data.Int.ModEq
import Snippet.Calendar.DateToken

/-!
# The year that two digits stand for

Two digits stand for a year of the hundred that today's year is counted from, or of the hundred
before if that year would lie more than thirty years ahead. The year ends with the two digits and is
at most ninety-nine years back. From year 0 on it is at most thirty years ahead
(`DateParts.expandYear_le_iff`). An earlier year is counted backwards, from the hundred above it, and
one hundred less is then not always enough.
-/

namespace Snippet.DateParts

variable {today : Date} {d : Int}

/-- The hundred that a year is counted from, told by the last two digits of the year. -/
theorem tdiv_hundred_mul (year : Int) :
    Int.tdiv year 100 * 100 =
      if 0 ≤ year then year - (year.natAbs % 100 : ℕ) else year + (year.natAbs % 100 : ℕ) := by
  have hsign : Int.sign 100 = 1 := rfl
  rw [Int.tdiv_eq_ediv]
  split <;> split <;> omega

/-- The year ends with the two digits, since hundreds are all that is added to them. -/
theorem expandYear_modEq (today : Date) (d : Int) : expandYear today d ≡ d [ZMOD 100] := by
  rw [Int.ModEq, expandYear]
  split <;> omega

theorem le_expandYear (hd : 0 ≤ d) : today.year - 99 ≤ expandYear today d := by
  have hwindow : centuryWindow = 30 := rfl
  rw [expandYear, tdiv_hundred_mul]
  split <;> split <;> omega

/-- **The year is in the window ahead of today, unless today's year is counted backwards** and its
last two digits and the given ones make up more than the window and a hundred. -/
theorem expandYear_le_iff (hd : d ≤ 99) :
    expandYear today d ≤ today.year + centuryWindow ↔
      0 ≤ today.year ∨ d + (today.year.natAbs % 100 : ℕ) ≤ centuryWindow + 100 := by
  have hwindow : centuryWindow = 30 := rfl
  rw [expandYear, tdiv_hundred_mul]
  split <;> split <;> omega

/-- **Two digits stand for a year that ends with them and is at most ninety-nine years back.** It is
at most thirty years ahead exactly if today's year is not negative, or its last two digits and the
given ones make up at most a hundred and thirty. -/
theorem expandYear_window (today : Date) (h : 0 ≤ d ∧ d ≤ 99) :
    expandYear today d ≡ d [ZMOD 100] ∧
    (expandYear today d ≤ today.year + 30 ↔
      0 ≤ today.year ∨ d + (today.year.natAbs % 100 : ℕ) ≤ 130) ∧
    today.year - 99 ≤ expandYear today d :=
  ⟨expandYear_modEq today d, expandYear_le_iff h.2, le_expandYear h.1⟩

/-- Fifty years before year 0, the digits 80 stand for the last year of the window. -/
theorem expandYear_window_eighty :
    (0 ≤ (80 : Int) ∧ (80 : Int) ≤ 99) ∧
    expandYear ⟨-50, 1, 1, by decide⟩ 80 ≡ 80 [ZMOD 100] ∧
    expandYear ⟨-50, 1, 1, by decide⟩ 80 ≤ -50 + 30 ∧
    -50 - 99 ≤ expandYear ⟨-50, 1, 1, by decide⟩ 80 ∧
    expandYear ⟨-50, 1, 1, by decide⟩ 80 = -20 := by
  have hrange : 0 ≤ (80 : Int) ∧ (80 : Int) ≤ 99 := by decide
  obtain ⟨hends, hle, hge⟩ := expandYear_window ⟨-50, 1, 1, by decide⟩ hrange
  exact ⟨hrange, hends, hle.mpr (.inr (by decide)), hge, by decide⟩

/-- On the same day the digits 99 stand for the year before year 0, which is forty-nine years
ahead. -/
theorem expandYear_beyond_window :
    (0 ≤ (99 : Int) ∧ (99 : Int) ≤ 99) ∧ expandYear ⟨-50, 1, 1, by decide⟩ 99 = -1 ∧
    ¬ expandYear ⟨-50, 1, 1, by decide⟩ 99 ≤ -50 + 30 := by
  decide

end Snippet.DateParts
