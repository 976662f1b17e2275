import Snippet.Decimal.Binary
import Snippet.Text.Basic

/-!
# Numerals

Digit strings and the natural numbers they write, and the decimal notation of floats: an optional
sign, then digits with at most one point and an optional exponent, or a word for an infinity or
for no number.
-/

namespace Snippet.Decimal

/-- The digits of a natural number, without leading zeros. -/
def digitsOf (n : Nat) : Text := Nat.toDigits 10 n

/-- The digits of a natural number, with leading zeros up to a width. -/
def padded (width n : Nat) : Text := (digitsOf n).leftpad width '0'

/-- The number that a text of ASCII digits writes, whatever it starts from. -/
def foldDigits (start : Nat) (t : Text) : Nat :=
  t.foldl (fun n c => n * 10 + (c.toNat - '0'.toNat)) start

/-- The number that a text of ASCII digits writes. -/
def natOf (t : Text) : Nat := foldDigits 0 t

/-- The number that a non-empty text of ASCII digits writes. -/
def nat? (t : Text) : Option Nat :=
  if !t.isEmpty && t.all Char.isDigit then some (natOf t) else none

/-- The number that a non-empty text of ASCII digits writes, if it is below `bound`. -/
def natBelow? (bound : Nat) (t : Text) : Option Nat := (nat? t).filter (· < bound)

/-- A decimal number `± digits * 10 ^ exponent`. -/
structure Numeral where
  negative : Bool
  digits : Nat
  exponent : Int
  deriving DecidableEq, Repr

/-- The magnitude of a numeral as the nearest float. The digits times a power of ten beyond the
range of floats are an infinity or zero, without computing the power. -/
def Numeral.magnitude (n : Numeral) : Float :=
  let size := (digitsOf n.digits).length + n.exponent
  if n.digits = 0 || size < -400 then 0.0
  else if 400 < size then 1.0 / 0.0
  else Float.ofScientific n.digits (n.exponent < 0) n.exponent.natAbs

/-- The float nearest to a numeral. -/
def Numeral.toFloat (n : Numeral) : Float := if n.negative then -n.magnitude else n.magnitude

/-- Splits off a sign: whether it is a minus, and the rest. -/
def splitSign : Text → Bool × Text
  | '-' :: t => (true, t)
  | '+' :: t => (false, t)
  | t => (false, t)

/-- The exponent part of a numeral: nothing, or the letter e and a signed number. -/
def exponent? : Text → Option Int
  | [] => some 0
  | c :: t =>
    if c = 'e' || c = 'E' then
      let (negative, digits) := splitSign t
      (nat? digits).map fun n => if negative then -(n : Int) else n
    else none

/-- Reads digits with at most one point and an optional exponent, after the sign. -/
def unsigned? (negative : Bool) (t : Text) : Option Numeral :=
  let whole := t.takeWhile Char.isDigit
  let (fraction, rest) :=
    match t.dropWhile Char.isDigit with
    | '.' :: r => (r.takeWhile Char.isDigit, r.dropWhile Char.isDigit)
    | r => ([], r)
  if whole.isEmpty && fraction.isEmpty then none
  else (exponent? rest).map fun e => ⟨negative, natOf (whole ++ fraction), e - fraction.length⟩

/-- The numeral that a text writes. -/
def numeral? (t : Text) : Option Numeral :=
  let (negative, rest) := splitSign t
  unsigned? negative rest

/-- The float that a text writes: a numeral, an infinity or the word for no number, the words in
any case. -/
def float? (t : Text) : Option Float :=
  let (negative, rest) := splitSign t
  let word := Text.lower rest
  let signed := fun (x : Float) => some (if negative then -x else x)
  if word = "inf".toList || word = "infinity".toList then signed (1.0 / 0.0)
  else if word = "nan".toList then signed (0.0 / 0.0)
  else (unsigned? negative rest).map Numeral.toFloat

end Snippet.Decimal
