import Snippet.Text.HexDigit

/-!
# Percent encoding

A character that may not stand for itself in an address is written as the bytes of its UTF-8 form,
each as a percent sign and two hexadecimal digits.
-/

namespace Snippet.Percent

/-- The capital hexadecimal digit of a number below 16. -/
def hexDigit (n : Nat) : Char := ("0123456789ABCDEF".toList)[n]?.getD '0'

/-- A byte as a percent sign and two hexadecimal digits. -/
def byte (b : UInt8) : Text := ['%', hexDigit (b.toNat / 16), hexDigit (b.toNat % 16)]

/-- A character as its percent-encoded bytes. -/
def escape (c : Char) : Text := (String.utf8EncodeChar c).flatMap byte

/-- The text with all characters escaped but those that satisfy `keep`. -/
def encode (keep : Char → Bool) (t : Text) : Text :=
  t.flatMap fun c => if keep c then [c] else escape c

/-- The text with every percent sign before two hexadecimal digits replaced by the character with
that number. -/
def decode : Text → Text
  | [] => []
  | '%' :: a :: b :: t =>
    match Text.hexValue? a, Text.hexValue? b with
    | some x, some y => Char.ofNat (16 * x + y) :: decode t
    | _, _ => '%' :: decode (a :: b :: t)
  | c :: t => c :: decode t

/-- A text as the value of a form field: a blank is a plus sign, and of the others only letters and
digits of ASCII and four marks stand for themselves. -/
def formEncode (t : Text) : Text :=
  t.flatMap fun c =>
    if c == ' ' then ['+']
    else if c.isAlphanum || "*-._".toList.contains c then [c]
    else escape c

/-- A visible character of ASCII that is none of the given marks. -/
def isVisibleBut (marks : String) (c : Char) : Bool :=
  0x21 ≤ c.toNat && c.toNat ≤ 0x7e && !marks.toList.contains c

end Snippet.Percent
