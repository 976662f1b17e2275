import Snippet.Calendar.DateToken

/-!
# Seeds

A text is split into a lead, which is kept, and a seed, which is worth evaluating. Four ways to find
the start of the seed are tried in turn: the first date, a run of arithmetic at the end, what
follows a separator, and the last word. The lead and the seed make up the text without the white
space at its end; a text that cannot be split is its own seed.
-/

namespace Snippet

/-- A text that is split for evaluation. -/
structure Seed where
  /-- The part that is kept. -/
  lead : Text
  /-- The part to evaluate. -/
  body : Text
  deriving DecidableEq, Repr

namespace Seed

/-- After these the seed starts, where nothing more specific applies. -/
def separators : List Text := ["= ".toList, ": ".toList, ['('], ['['], ['\x7b']]

/-- Whether a run of arithmetic has something to compute with. -/
def hasOperand (t : Text) : Bool := t.any fun c => c.isDigit || c == '('

/-- The start of the first date. -/
def dateStart? (t : Text) : Option Nat := (DateToken.all t).head?.map fun token => token.span.start

/-- The start of the arithmetic that stands after white space at the end of a text. -/
def tailStart? (t : Text) : Option Nat :=
  ((Pattern.arithmeticTail.find? t).bind fun m => m.group? 1).bind fun span =>
    if hasOperand (span.of t) then some span.start else none

/-- The start of a text that is all arithmetic, or of the arithmetic at its end. -/
def arithmeticStart? (t : Text) : Option Nat :=
  if Pattern.arithmeticRun.matchesAll t && hasOperand t then some (Text.leadingWhite t).length
  else tailStart? t

/-- The start of what follows the last separator and the white space after it. -/
def separatorStart? (t : Text) : Option Nat :=
  (separators.filterMap fun s => Text.lastEnd? s t).max?.bind fun stop =>
    let start := stop + (Text.leadingWhite (t.drop stop)).length
    if start < t.length then some start else none

/-- The start of the last word, where white space stands before it. -/
def wordStart? (t : Text) : Option Nat :=
  let word := Text.takeWhileEnd (fun c => !Text.isWhite c) t
  if (Text.trimStart t).any Text.isWhite then some (t.length - word.length) else none

/-- The start of the seed in a text without white space at its end. -/
def start? (t : Text) : Option Nat :=
  [dateStart?, arithmeticStart?, separatorStart?, wordStart?].findSome? fun strategy =>
    (strategy t).filter (· < t.length)

/-- The seed of a text. -/
def ofText (t : Text) : Seed :=
  let body := Text.trimEnd t
  if Text.isBlank body then ⟨[], []⟩
  else
    match start? body with
    | some start => ⟨body.take start, body.drop start⟩
    | none => ⟨[], Text.trimStart body⟩

end Seed

end Snippet
