import Snippet.Text.Basic

/-!
# Hexadecimal digits

The values of hexadecimal digits, and the numbers that digits write in a base of at most 16. The
main statement is that a digit below the base is what `natOfBase?` reads at the end of a numeral
(`natOfBase?_concat`).
-/

namespace Snippet.Text

/-- The value of a hexadecimal digit. -/
def hexValue? (c : Char) : Option Nat :=
  if c.isDigit then some (c.toNat - '0'.toNat)
  else if 'a' ≤ c && c ≤ 'f' then some (c.toNat - 'a'.toNat + 10)
  else if 'A' ≤ c && c ≤ 'F' then some (c.toNat - 'A'.toNat + 10)
  else none

/-- The value of a digit in a base of at most 16. -/
def digitValue? (base : Nat) (c : Char) : Option Nat := (hexValue? c).filter (· < base)

/-- The number that digits write in a base of at most 16; no digits write zero. -/
def natOfBase? (base : Nat) (digits : Text) : Option Nat :=
  digits.foldlM (fun n c => (digitValue? base c).map (n * base + ·)) 0

/-- A further digit multiplies the number by the base and is added. -/
theorem natOfBase?_concat (base : Nat) (digits : Text) (c : Char) :
    natOfBase? base (digits ++ [c]) =
      (natOfBase? base digits).bind fun n => (digitValue? base c).map (n * base + ·) := by
  simp [natOfBase?, List.foldlM_append]

end Snippet.Text
