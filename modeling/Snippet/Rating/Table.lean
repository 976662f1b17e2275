import Snippet.Text.Basic

/-!
# Rating tables

A rating table says how many weeks are paid for a percentage. The standard table adds up weeks point
by point, more for each point of a higher band.
-/

namespace Snippet

/-- The weeks paid for each percentage, in the increasing order of the percentages. -/
structure RatingTable where
  entries : List (Nat × Float) := []

namespace RatingTable

/-- Puts an entry in its place; it takes the place of one for the same percentage. -/
def insertEntry (percentage : Nat) (weeks : Float) : List (Nat × Float) → List (Nat × Float)
  | [] => [(percentage, weeks)]
  | e :: es =>
    if percentage < e.1 then (percentage, weeks) :: e :: es
    else if percentage = e.1 then (percentage, weeks) :: es
    else e :: insertEntry percentage weeks es

/-- The table with an entry, which replaces one for the same percentage. -/
def insert (r : RatingTable) (percentage : Nat) (weeks : Float) : RatingTable :=
  ⟨insertEntry percentage weeks r.entries⟩

/-- The table with the given entries; of several for one percentage the last counts. -/
def ofEntries (entries : List (Nat × Float)) : RatingTable :=
  entries.foldl (fun r e => r.insert e.1 e.2) {}

/-- The weeks paid for a percentage. -/
def weeks? (r : RatingTable) (percentage : Nat) : Option Float := r.entries.lookup percentage

/-- The number of entries. -/
def size (r : RatingTable) : Nat := r.entries.length

/-- The weeks paid for one point. -/
def weeksForPoint (point : Nat) : Float :=
  if point ≤ 9 then 3.0
  else if point ≤ 14 then 4.0
  else if point ≤ 24 then 5.0
  else if point ≤ 29 then 6.0
  else if point ≤ 49 then 7.0
  else if point ≤ 69 then 8.0
  else 9.0

/-- The sums of the weeks for `n` points from `point` on, where `total` weeks come before. -/
def runningTotals : (n : Nat) → (point : Nat) → (total : Float) → List (Nat × Float)
  | 0, _, _ => []
  | n + 1, point, total =>
    let total := total + weeksForPoint point
    (point, total) :: runningTotals n (point + 1) total

/-- The standard table for 1 to 99 percent. -/
def standard : RatingTable := ⟨runningTotals 99 1 0.0⟩

end RatingTable

end Snippet
