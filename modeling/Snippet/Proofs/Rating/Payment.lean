import Snippet.Proofs.Config.Validity
import Snippet.Proofs.Number.FloatParts
import Snippet.Rating.Detector

/-!
# Payments within the floats

The detector of rating codes fails exactly if a payment is beyond the floats
(`Rating.detect_eq_error_iff`), and for that the weekly rate must be excessive
(`Rating.Overflows.not_le_highRate`): the exponents of the weeks and of any other rate are small
enough for a product of floats.
-/

namespace Snippet

/-! ## Payments -/

namespace RatingTable

theorem mem_of_weeks? {r : RatingTable} {percentage : Nat} {weeks : Float}
    (h : r.weeks? percentage = some weeks) : (percentage, weeks) ∈ r.entries := by
  obtain ⟨older, newer, hentries, -⟩ := List.lookup_eq_some_iff.mp h
  rw [hentries]
  exact List.mem_append_right _ List.mem_cons_self

theorem atMost_weeks :
    ∀ entry ∈ standard.entries, Exponent.AtMost (-43) entry.2.toModel.unpack := by
  decide +kernel

/-- A weekly rate that is far beyond any in use, but leaves room for the weeks of the table. -/
def highRate : Float := 1e304

theorem atMost_highRate : Exponent.AtMost 957 highRate.toModel.unpack := by
  decide +kernel

/-- A payment by the standard table is finite if the weekly rate is not excessive. -/
theorem isFinite_payment {percentage : Nat} {weeks rate : Float}
    (hweeks : standard.weeks? percentage = some weeks) (hfinite : rate.isFinite)
    (hpos : ¬ rate ≤ 0.0) (hrate : rate ≤ highRate) : (weeks * rate).isFinite := by
  have hx := atMost_weeks _ (mem_of_weeks? hweeks)
  have hy := Exponent.atMost_of_le hfinite hpos hrate atMost_highRate
  exact Exponent.isFinite_mul hx hy (by decide)

end RatingTable

theorem Number.currencyText?_eq_none_iff {x : Float} :
    currencyText? x = none ↔ x.isFinite = false := by
  unfold currencyText?
  cases x.isFinite <;> simp

namespace Rating

variable {ctx : Context} {t : Text} {percentage : Nat}

/-- The payment for a rating code with a percentage is beyond the floats. -/
structure Overflows (ctx : Context) (t : Text) (percentage : Nat) : Prop where
  percentage_eq : percentage? (Text.trim t) = some percentage
  exists_weeks : ∃ weeks, ctx.ratings.weeks? percentage = some weeks ∧
    (weeks * ctx.config.weeklyRate).isFinite = false

/-- The failure for a payment that is beyond the floats. -/
def notFinite (percentage : Nat) : Fault :=
  .failed ("payout for ".toList ++ Decimal.digitsOf percentage ++ "% is not finite".toList)

/-- **The detector of rating codes fails exactly if a payment is beyond the floats.** -/
theorem detect_eq_error_iff {fault : Fault} :
    detect ctx t = .error fault ↔
      ∃ percentage, Overflows ctx t percentage ∧ fault = notFinite percentage := by
  constructor
  · intro h
    unfold detect at h
    split at h
    · cases h
    · rename_i percentage hpercentage
      split at h
      · cases h
      · rename_i weeks hweeks
        split at h
        · cases h
        · rename_i hnone
          cases h
          exact ⟨percentage, ⟨hpercentage, weeks, hweeks,
            Number.currencyText?_eq_none_iff.mp hnone⟩, rfl⟩
  · rintro ⟨percentage, ⟨hpercentage, weeks, hweeks, hfinite⟩, rfl⟩
    simp only [detect, hpercentage, hweeks, Number.currencyText?_eq_none_iff.mpr hfinite]
    rfl

/-- Under a valid configuration a payment by the standard table is beyond the floats only if the
weekly rate is excessive. -/
theorem Overflows.not_le_highRate (h : Overflows ctx t percentage) (hvalid : ctx.config.IsValid)
    (hratings : ctx.ratings = .standard) : ¬ ctx.config.weeklyRate ≤ RatingTable.highRate := by
  intro hrate
  obtain ⟨weeks, hweeks, hfinite⟩ := h.exists_weeks
  have hpayment := RatingTable.isFinite_payment (hratings ▸ hweeks) hvalid.isFinite_rate
    hvalid.rate_pos hrate
  rw [hpayment] at hfinite
  cases hfinite

end Rating

end Snippet
