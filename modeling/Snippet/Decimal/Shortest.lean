import Snippet.Decimal.Fixed

/-!
# Shortest texts of floats

The shortest text of a float has the fewest digits that read back as the same float; of several
such it is the nearest to the float, and of two that are equally near the one of larger magnitude.
It is positional, without an exponent.
-/

namespace Snippet.Decimal

/-- The magnitudes that round to a float, in quarter units of its last place: the lower end, the
value and the upper end. The ends belong to it when the mantissa is even. -/
structure RoundingInterval where
  low : Nat
  value : Nat
  high : Nat
  closed : Bool
  /-- The power of two of a quarter unit. -/
  exponent : Int

/-- The magnitudes that round to a given positive value. Below a power of two the floats lie twice
as close, except at the smallest exponent. -/
def RoundingInterval.of (b : Binary) : RoundingInterval where
  low :=
    if b.mantissa = 2 ^ 52 && -1074 < b.exponent then 4 * b.mantissa - 1 else 4 * b.mantissa - 2
  value := 4 * b.mantissa
  high := 4 * b.mantissa + 2
  closed := b.mantissa % 2 = 0
  exponent := b.exponent - 2

/-- Whether `digits * 10 ^ place` rounds to the float. -/
def RoundingInterval.holds (i : RoundingInterval) (digits : Nat) (place : Int) : Bool :=
  let point := digits * 10 ^ place.toNat * 2 ^ (-i.exponent).toNat
  let unit := 10 ^ (-place).toNat * 2 ^ i.exponent.toNat
  if i.closed then i.low * unit ≤ point && point ≤ i.high * unit
  else i.low * unit < point && point < i.high * unit

/-- The nearer of the two neighbours of the value among the multiples of `10 ^ place` that round to
the float, if any does; the larger of two that are equally near. -/
def RoundingInterval.nearest? (i : RoundingInterval) (place : Int) : Option Nat :=
  let num := i.value * 10 ^ (-place).toNat * 2 ^ i.exponent.toNat
  let den := 10 ^ place.toNat * 2 ^ (-i.exponent).toNat
  let first := divHalfUp num den
  let other := if first * den ≤ num then first + 1 else first - 1
  if i.holds first place then some first
  else if i.holds other place then some other
  else none

/-- The number of decimal places of the whole part of a positive value, or minus the number of
zeros after the point. -/
def wholePlaces (b : Binary) : Int :=
  let num := b.mantissa * 2 ^ b.exponent.toNat
  let den := 2 ^ (-b.exponent).toNat
  if den ≤ num then (digitsOf (num / den)).length
  else 1 - ((digitsOf (den / num)).length : Int)

/-- The digits and the place of the last of them in the shortest text of a positive value. -/
def shortestDigits (b : Binary) : Nat × Int :=
  let interval := RoundingInterval.of b
  let top := wholePlaces b
  let candidate := fun (n : Nat) =>
    let place := top - (n : Int)
    (interval.nearest? place).map fun d => (d, place)
  let exact := b.mantissa * 5 ^ (-b.exponent).toNat * 2 ^ b.exponent.toNat
  ((List.range 19).findSome? candidate).getD (exact, min 0 b.exponent)

/-- A number of units of a decimal place, written positionally. -/
def positional (digits : Nat) (place : Int) : Text :=
  if 0 ≤ place then digitsOf (digits * 10 ^ place.toNat) else unitsText digits (-place).toNat

/-- The shortest text of a float. -/
def shortest (x : Float) : Text :=
  match Binary.ofFloat? x with
  | none => nonfiniteText x
  | some b =>
    let magnitude :=
      if b.mantissa = 0 then ['0']
      else
        let (digits, place) := shortestDigits b
        positional digits place
    if b.negative then '-' :: magnitude else magnitude

end Snippet.Decimal
