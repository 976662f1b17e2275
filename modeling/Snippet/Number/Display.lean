import Snippet.Decimal.Fixed
import Snippet.Number.Separators

/-!
# Display of results

Results are shown as amounts of money, as decimals without trailing zeros, or as integers where
they are within a small distance of one.
-/

namespace Snippet.Number

/-- The distance from an integer within which a result is shown as that integer. -/
def integerTolerance : Float := 1e-9

/-- The decimal places of a result that is no integer. -/
def resultPlaces : Nat := 10

/-- Drops trailing zeros after a point, and the point if nothing is left after it; negative zero
is zero. -/
def trimZeros (fixed : Text) : Text :=
  let trimmed :=
    if fixed.contains '.' then
      Text.dropWhileEnd (· == '.') (Text.dropWhileEnd (· == '0') fixed)
    else fixed
  if trimmed = [] || trimmed = ['-', '0'] then ['0'] else trimmed

/-- A float with at most `places` decimal places and no trailing zeros. -/
def decimalText (x : Float) (places : Nat) : Text := trimZeros (Decimal.fixed x places)

/-- An amount of money with two decimal places and grouped by threes; a minus stands before the
dollar sign, unless all digits are zero. There is none for a float that is not finite. -/
def currencyText? (x : Float) : Option Text :=
  if x.isFinite then
    let fixed := Decimal.fixed x.abs 2
    let whole := fixed.takeWhile (· != '.')
    let cents := (fixed.dropWhile (· != '.')).tail
    let negative := x < 0.0 && fixed.any fun c => c != '0' && c != '.'
    let amount := '$' :: groupThousands whole ++ '.' :: cents
    some (if negative then '-' :: amount else amount)
  else none

/-- A result: the integer that it is within the tolerance of, or else a decimal. There is none for
a float that is not finite. -/
def resultText? (x : Float) : Option Text :=
  if x.isFinite then
    let rounded := Decimal.roundAway x
    if (x - rounded).abs < integerTolerance then
      some (if rounded == 0.0 then ['0'] else Decimal.fixed rounded 0)
    else some (decimalText x resultPlaces)
  else none

end Snippet.Number
