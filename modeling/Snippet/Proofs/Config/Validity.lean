import Snippet.Config.Basic

/-!
# Valid configurations

What a configuration that passes the check is known to satisfy (`Config.validate_eq_ok_iff`). The
settings are in their ranges independently of each other, and the defaults are (`isValid_default`).
-/

namespace Snippet.Config

variable {c : Config}

/-- The settings are in their ranges. -/
structure IsValid (c : Config) : Prop where
  isFinite_rate : c.weeklyRate.isFinite = true
  rate_pos : ¬ c.weeklyRate ≤ 0.0
  precision_le : c.precision ≤ maxPrecision
  hasPhrase_query : Text.hasPhrase queryPlaceholder c.searchUrl = true
  mem_standardIds : ∀ id ∈ c.disabled, id ∈ standardIds

/-- **The check passes exactly the valid configurations.** -/
theorem validate_eq_ok_iff : c.validate = .ok () ↔ c.IsValid := by
  have hdisabled : c.disabled.find? (fun id => !standardIds.contains id) = none ↔
      ∀ id ∈ c.disabled, id ∈ standardIds := by
    simp
  unfold validate
  constructor
  · intro h
    split at h
    · cases h
    · rename_i hrate
      split at h
      · cases h
      · rename_i hprecision
        split at h
        · cases h
        · rename_i hquery
          split at h
          · cases h
          · rename_i hnone
            simp only [Bool.or_eq_true, not_or, Bool.not_eq_true, Bool.not_eq_false',
              decide_eq_true_eq] at hrate
            exact ⟨hrate.1, hrate.2, Nat.not_lt.mp hprecision, by simpa using hquery,
              hdisabled.mp hnone⟩
  · intro h
    rw [if_neg (by simp [h.isFinite_rate, h.rate_pos]), if_neg (Nat.not_lt.mpr h.precision_le),
      if_neg (by simp [h.hasPhrase_query]), hdisabled.mpr h.mem_standardIds]
    rfl

/-- The default configuration is valid, whichever detectors it leaves out. -/
theorem isValid_default {disabled : List String} (h : ∀ id ∈ disabled, id ∈ standardIds) :
    IsValid { disabled } where
  isFinite_rate := by
    change Float.isFinite 290.0 = true
    decide +kernel
  rate_pos := by
    change ¬ (290.0 : Float) ≤ 0.0
    decide +kernel
  precision_le := by
    change 4 ≤ maxPrecision
    decide
  hasPhrase_query := by
    change Text.hasPhrase queryPlaceholder ({} : Config).searchUrl = true
    decide
  mem_standardIds := h

end Snippet.Config
