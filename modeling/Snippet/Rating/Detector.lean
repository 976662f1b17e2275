import Snippet.Detection.Outcome
import Snippet.Number.Display

/-!
# Rating codes

A rating code is a percentage, as `40%`, `PD 25` or `rating 12%`. It is replaced by what is paid for
it: the weeks of the rating table times the weekly rate.
-/

namespace Snippet.Rating

/-- The percentage that a rating code states. -/
def percentage? (code : Text) : Option Nat := do
  let m ← Pattern.percentageCode.full? code
  let digits ← (m.text? code 1).orElse fun _ => m.text? code 2
  Decimal.nat? digits

/-- The payment for a rating code. It is a failure when the amount is not finite. -/
def detect (ctx : Context) (t : Text) : Except Fault Outcome :=
  match percentage? (Text.trim t) with
  | none => pure .noMatch
  | some percentage =>
    match ctx.ratings.weeks? percentage with
    | none => pure .noMatch
    | some weeks =>
      match Number.currencyText? (weeks * ctx.config.weeklyRate) with
      | some amount => pure (.text amount)
      | none =>
        throw (.failed ("payout for ".toList ++ Decimal.digitsOf percentage ++
          "% is not finite".toList))

/-- The detector of rating codes. -/
def detector : Detector := ⟨"rating", 30, detect⟩

end Snippet.Rating
