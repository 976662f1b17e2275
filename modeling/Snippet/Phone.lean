import Snippet.Detection.Outcome
import Snippet.Pattern.Catalog

/-!
# Phone numbers

A phone number of ten digits, after an optional country code 1, is brought into the form
`(ddd) ddd-dddd`. What follows it after semicolons is kept.
-/

namespace Snippet.Phone

/-- The ten digits of a phone number, without the country code. -/
def nationalDigits? (number : Text) : Option Text :=
  let digits := number.filter Char.isDigit
  if digits.length = 10 then some digits
  else
    match digits with
    | '1' :: rest => if rest.length = 10 then some rest else none
    | _ => none

/-- The form of a phone number of ten digits. -/
def display (digits : Text) : Text :=
  '(' :: digits.take 3 ++ ") ".toList ++ (digits.drop 3).take 3 ++ '-' :: digits.drop 6

/-- The fields that follow a phone number, trimmed, without blank ones. -/
def extras (fields : List Text) : List Text :=
  (fields.map Text.trim).filter fun f => !f.isEmpty

/-- The phone number that a text starts with, in its form, with the fields that follow it. -/
def detect (t : Text) : Outcome :=
  match Text.splitWhere (· == ';') (Text.trim t) with
  | [] => .noMatch
  | field :: fields =>
    let number := Text.trim field
    if Pattern.phone.matchesAll number then
      match nationalDigits? number with
      | some digits => .text (Text.join "; ".toList (display digits :: extras fields))
      | none => .noMatch
    else .noMatch

/-- The detector of phone numbers. -/
def detector : Detector := ⟨"phone", 20, fun _ t => pure (detect t)⟩

end Snippet.Phone
