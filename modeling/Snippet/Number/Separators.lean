import Snippet.Pattern.Catalog

/-!
# Separators in numbers

Written numbers use the point and the comma both as the decimal mark and for grouping. The
rightmost separator is the decimal mark if the other kind stands before it, or if it is the only
separator; but a single comma in front of exactly three characters groups. All other separators
group and are dropped.
-/

namespace Snippet.Number

/-- A point or a comma. -/
def isSeparator (c : Char) : Bool := c == '.' || c == ','

/-- A text before, at and after its last separator. -/
def splitLastSeparator? (t : Text) : Option (Text × Char × Text) :=
  match t.reverse.dropWhile (fun c => !isSeparator c) with
  | [] => none
  | mark :: before => some (before.reverse, mark, Text.takeWhileEnd (fun c => !isSeparator c) t)

/-- Whether the last separator of a number is its decimal mark. -/
def isDecimalMark (before : Text) (mark : Char) (after : Text) : Bool :=
  if before.any fun c => isSeparator c && c != mark then true
  else if before.contains mark then false
  else mark == '.' || (!after.isEmpty && Text.utf8Size after != 3)

/-- The ASCII digits of a text. -/
def digits (t : Text) : Text := t.filter Char.isDigit

/-- A run of digits and separators with a point as its decimal mark and without grouping. -/
def resolve (run : Text) : Text :=
  match splitLastSeparator? run with
  | none => run
  | some (before, mark, after) =>
    if isDecimalMark before mark after then digits before ++ '.' :: digits after
    else digits run

/-- Resolves the separators of every number inside an expression. -/
def resolveAll (expr : Text) : Text := Pattern.localizedNumber.replaceAll resolve expr

/-- Splits off a sign and the white space after it: the sign, and the rest. -/
def splitSign? : Text → Option (Char × Text)
  | c :: t => if c == '-' || c == '+' then some (c, Text.trimStart t) else none
  | [] => none

/-- Drops a dollar sign and the white space after it. -/
def dropDollar : Text → Text
  | '$' :: t => Text.trimStart t
  | t => t

/-- Splits off one sign and one dollar sign in either order: whether the sign is a minus, and the
rest. -/
def splitAmount (t : Text) : Bool × Text :=
  match splitSign? (Text.trim t) with
  | some (sign, rest) => (sign == '-', dropDollar rest)
  | none =>
    let rest := dropDollar (Text.trim t)
    match splitSign? rest with
    | some (sign, rest) => (sign == '-', rest)
    | none => (false, rest)

/-- The plain form of a written number: an optional minus, digits and at most one point. There is
none when there is no digit, or a character that does not belong to a number. -/
def normalize? (token : Text) : Option Text :=
  let (negative, rest) := splitAmount token
  if rest.any Char.isDigit && rest.all fun c => c.isDigit || isSeparator c then
    some (if negative then '-' :: resolve rest else resolve rest)
  else none

/-- Groups by threes the first characters of a text whose size is `size`, a comma before each
place whose distance from the end is a multiple of three. -/
def groupFrom : Text → (size : Nat) → Text
  | [], _ => []
  | [c], _ => [c]
  | c :: t, size =>
    let grouped := groupFrom t (size - 1)
    if (size - 1) % 3 = 0 then c :: ',' :: grouped else c :: grouped

/-- An unsigned whole number with a comma before every group of three digits. -/
def groupThousands (t : Text) : Text := groupFrom t (Text.utf8Size t)

end Snippet.Number
