/-!
# Exact values of floats

A finite float is a sign, a mantissa and a power of two. This module reads these parts from the
bits and computes on them exactly: rounding to an integer, the remainder of a division, and the
total order of floats by their bits.
-/

namespace Snippet

-- powers with natural exponents are those of the core library, whatever else is imported
attribute [default_instance 100000, instance (100000)] instPowNat

/-- The value `± mantissa * 2 ^ exponent` of a finite float. -/
structure Binary where
  negative : Bool
  mantissa : Nat
  exponent : Int
  deriving DecidableEq, Repr

namespace Binary

/-- The value with the given bits, unless these stand for an infinity or for no number. -/
def ofBits? (bits : Nat) : Option Binary :=
  let negative := bits / 2 ^ 63 % 2 == 1
  let field : Nat := bits / 2 ^ 52 % 2 ^ 11
  let fraction : Nat := bits % 2 ^ 52
  if field = 2047 then none
  else if field = 0 then some ⟨negative, fraction, -1074⟩
  else some ⟨negative, fraction + 2 ^ 52, (field : Int) - 1075⟩

/-- The exact value of a finite float. -/
def ofFloat? (x : Float) : Option Binary := ofBits? x.toBits.toNat

/-- The magnitude with `places` decimal places, as a fraction of natural numbers. -/
def scaled (b : Binary) (places : Nat) : Nat × Nat :=
  (b.mantissa * 10 ^ places * 2 ^ b.exponent.toNat, 2 ^ (-b.exponent).toNat)

/-- The float with this value, to the nearest. -/
def toFloat (b : Binary) : Float :=
  let k := (-b.exponent).toNat
  let x := Float.ofScientific (b.mantissa * 2 ^ b.exponent.toNat * 5 ^ k) true k
  if b.negative then -x else x

end Binary

/-- The quotient to the nearest natural number; a half goes to the even neighbour. -/
def divToEven (num den : Nat) : Nat :=
  let q := num / den
  let r := num % den
  if 2 * r < den then q
  else if den < 2 * r then q + 1
  else q + q % 2

/-- The quotient to the nearest natural number; a half goes up. -/
def divHalfUp (num den : Nat) : Nat := (2 * num + den) / (2 * den)

namespace Decimal

/-- The nearest integer, a half going away from zero; an infinity or no number stays. -/
def roundAway (x : Float) : Float :=
  match Binary.ofFloat? x with
  | none => x
  | some b =>
    let (num, den) := b.scaled 0
    let n := Float.ofNat (divHalfUp num den)
    if b.negative then -n else n

/-- The remainder of a division towards zero, which has the sign of the dividend. It is exact. -/
def remainder (x y : Float) : Float :=
  match Binary.ofFloat? x, Binary.ofFloat? y with
  | some a, some b =>
    if b.mantissa = 0 then 0.0 / 0.0
    else
      let e := min a.exponent b.exponent
      let scale := fun (c : Binary) => c.mantissa * 2 ^ (c.exponent - e).toNat
      Binary.toFloat ⟨a.negative, scale a % scale b, e⟩
  | some _, none => if y.isNaN then y else x
  | none, _ => 0.0 / 0.0

/-- A key that orders all floats: numbers by value, a negative zero before zero, infinities at
their ends and what is no number beyond these, by sign. -/
def orderKey (x : Float) : Int :=
  let bits := x.toBits.toNat
  if bits < 2 ^ 63 then bits else 2 ^ 63 - 1 - (bits : Int)

end Decimal

end Snippet
