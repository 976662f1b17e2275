import Snippet.Calendar.Date
import Snippet.Decimal.Numeral
import Snippet.Text.HexDigit
import Snippet.Toml.Document

/-!
# Numbers, dates and words of TOML

A number, date or word is a run of letters, digits and a few marks, and is read as a whole. Digits
may have single underscores between them. Integers have 64 bits; floats must not exceed all numbers.
-/

namespace Snippet.Toml

/-- The characters of numbers, dates and words. -/
def isScalarChar (c : Char) : Bool := c.isAlphanum || "_+-.:".toList.contains c

/-- The digits of a run in which single underscores may stand between digits. -/
def plainDigits? (isDigit : Char → Bool) : Text → Option Text
  | [] => none
  | [c] => if isDigit c then some [c] else none
  | c :: '_' :: t => if isDigit c then (plainDigits? isDigit t).map (c :: ·) else none
  | c :: t => if isDigit c then (plainDigits? isDigit t).map (c :: ·) else none

/-- The digits of a whole number without leading zeros. -/
def wholeDigits? (t : Text) : Option Text :=
  match t with
  | '0' :: _ :: _ => none
  | _ => plainDigits? Char.isDigit t

/-- An integer that fits in 64 bits. -/
def ofInt? (n : Int) : Option Toml :=
  if -2 ^ 63 ≤ n && n < 2 ^ 63 then some (.integer n) else none

/-- The value of digits in a base of at most 16. -/
def basedInteger? (base : Nat) (t : Text) : Option Toml := do
  let digits ← plainDigits? (fun c => (Text.digitValue? base c).isSome) t
  ofInt? (← Text.natOfBase? base digits)

/-- An integer: decimal with an optional sign, or in another base after its mark. -/
def integer? : Text → Option Toml
  | '0' :: 'x' :: t => basedInteger? 16 t
  | '0' :: 'o' :: t => basedInteger? 8 t
  | '0' :: 'b' :: t => basedInteger? 2 t
  | t => do
    let (negative, rest) := Decimal.splitSign t
    let n := Decimal.natOf (← wholeDigits? rest)
    ofInt? (if negative then -(n : Int) else n)

/-- The text of an exponent, without underscores. -/
def exponentText? (t : Text) : Option Text := do
  let sign := t.takeWhile fun c => c == '+' || c == '-'
  if 1 < sign.length then none
  return 'e' :: sign ++ (← plainDigits? Char.isDigit (t.drop sign.length))

/-- The text of a fraction with an optional exponent after the point, without underscores. -/
def fractionText? (t : Text) : Option Text := do
  let digits ← plainDigits? Char.isDigit (t.takeWhile fun c => c.isDigit || c == '_')
  match t.dropWhile fun c => c.isDigit || c == '_' with
  | [] => return '.' :: digits
  | e :: rest =>
    if e == 'e' || e == 'E' then return '.' :: digits ++ (← exponentText? rest) else none

/-- The text of an unsigned float, without underscores. -/
def floatText? (t : Text) : Option Text := do
  let whole ← wholeDigits? (t.takeWhile fun c => c.isDigit || c == '_')
  match t.dropWhile fun c => c.isDigit || c == '_' with
  | '.' :: rest => return whole ++ (← fractionText? rest)
  | e :: rest => if e == 'e' || e == 'E' then return whole ++ (← exponentText? rest) else none
  | [] => none

/-- A float: digits with a fraction or an exponent, an infinity, or the word for no number. A
numeral that is larger than all floats is refused. -/
def float? (t : Text) : Option Toml := do
  let (negative, rest) := Decimal.splitSign t
  let signed := fun (x : Float) => Toml.float (if negative then -x else x)
  if rest = "inf".toList then return signed (1.0 / 0.0)
  else if rest = "nan".toList then return signed (0.0 / 0.0)
  else
    let x ← Decimal.float? (← floatText? rest)
    if !negative && !x.isFinite then none else return signed x

/-! ## Dates and times -/

/-- The number that exactly `n` digits write. -/
def fixedNat? (n : Nat) (t : Text) : Option Nat := if t.length = n then Decimal.nat? t else none

/-- Whether a text is a date. -/
def isDateText (t : Text) : Bool :=
  match Text.splitWhere (· == '-') t with
  | [y, m, d] =>
    match fixedNat? 4 y, fixedNat? 2 m, fixedNat? 2 d with
    | some y, some m, some d => Calendar.isDate y m d
    | _, _, _ => false
  | _ => false

/-- Whether a text is a number of exactly two digits up to a limit. -/
def isPart (limit : Nat) (t : Text) : Bool := (fixedNat? 2 t).any (· ≤ limit)

/-- Whether a text is seconds, perhaps with a fraction. -/
def isSeconds (t : Text) : Bool :=
  isPart 60 (t.takeWhile (· != '.')) &&
    match t.dropWhile (· != '.') with
    | [] => true
    | _ :: fraction => !fraction.isEmpty && fraction.all Char.isDigit

/-- Whether a text is a time of day. -/
def isTimeText (t : Text) : Bool :=
  match Text.splitWhere (· == ':') t with
  | [h, m, s] => isPart 23 h && isPart 59 m && isSeconds s
  | _ => false

/-- Whether a text is an offset from universal time, as hours and minutes after a sign. -/
def isOffset (t : Text) : Bool :=
  match Text.splitWhere (· == ':') t with
  | [h, m] => isPart 23 h && isPart 59 m
  | _ => false

/-- Whether a text is a time of day with an optional offset. -/
def isOffsetTime (t : Text) : Bool :=
  let time := t.takeWhile fun c => c.isDigit || c == ':' || c == '.'
  isTimeText time &&
    match t.drop time.length with
    | [] => true
    | ['Z'] | ['z'] => true
    | sign :: offset => (sign == '+' || sign == '-') && isOffset offset

/-- Whether a text is a date with an optional time, or a time. -/
def isMoment (t : Text) : Bool :=
  isTimeText t || isDateText t ||
    (isDateText (t.take 10) &&
      match t.drop 10 with
      | delimiter :: time => (delimiter == 'T' || delimiter == 't') && isOffsetTime time
      | [] => false)

/-- The value of a run of characters. -/
def scalar? (t : Text) : Option Toml :=
  if t = "true".toList then some (.boolean true)
  else if t = "false".toList then some (.boolean false)
  else if isMoment t then some .date
  else (float? t).orElse fun _ => integer? t

/-- Reads a number, date or word and returns what follows it. A date and its time may be set apart
by a blank. -/
def readScalar? (t : Text) : Option (Toml × Text) := do
  let run := t.takeWhile isScalarChar
  let rest := t.dropWhile isScalarChar
  let v ← scalar? run
  match rest with
  | ' ' :: c :: later =>
    if isDateText run && c.isDigit then
      let time := (c :: later).takeWhile isScalarChar
      if isOffsetTime time then return (.date, (c :: later).drop time.length) else none
    else return (v, rest)
  | _ => return (v, rest)

end Snippet.Toml
