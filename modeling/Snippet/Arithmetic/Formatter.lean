import Snippet.Arithmetic.Clean
import Snippet.Arithmetic.Evaluate
import Snippet.Formatter
import Snippet.Number.Display
import Snippet.Template

/-!
# The arithmetic formatter

An arithmetic text is replaced by its value: an amount of money if the text has a dollar sign, and
otherwise a number. A template of the configuration may put the text and its value together.
-/

namespace Snippet.Arithmetic

/-- Whether a text is arithmetic: it has the shape of one, it cleans to an expression with an
operation, and it is neither a date nor a phone number. -/
def isCandidate (t : Text) : Bool :=
  let body := Text.trim t
  !body.isEmpty && !Pattern.dateFull.matchesAll body && !Pattern.phoneFormatted.matchesAll body &&
    Pattern.arithmeticCandidate.matchesAll body && (clean? body).any hasOperation

/-- The value of an arithmetic text, as a number and as it is shown. -/
def answer? (body : Text) : Option (Text × Text) := do
  let expr ← clean? body
  let x ← evaluate expr
  let numeric ← Number.resultText? x
  let shown ← if body.contains '$' then Number.currencyText? x else some numeric
  return (numeric, shown)

/-- The replacement of an arithmetic text. -/
def process (template : Option Text) (t : Text) : Option Text :=
  if isCandidate t then
    let input := Text.trim t
    (answer? input).map fun (numeric, result) =>
      match template with
      | none => result
      | some template =>
        Template.render template
          [("input".toList, input), ("result".toList, result), ("numeric".toList, numeric)]
  else none

/-- The formatter of arithmetic texts. -/
def formatter : Formatter where
  name := "arithmetic"
  isCandidate _ t := isCandidate t
  process settings t := process settings.config.template t

end Snippet.Arithmetic
