import Snippet.Proofs.Calendar.TokenSpans
import Snippet.Proofs.Pipeline.TrailingRun

/-!
# The seed and its lead make up the text

The strategies find the start of a seed in different ways, but none starts it with white space
(`Seed.noneNext_of_start?`). So the lead and the body of a seed make up the text without the
white space at its end, or the trimmed text is the seed, and the body has no white space at its ends
(`Seed.partitions_ofText`).
-/

namespace Snippet

open Pattern (isRun)
open Regex (NoneNext)

variable {t : Text} {k : Nat}

/-! ## Texts that start with no white space -/

theorem Text.noneNext_trimStart (t : Text) : NoneNext isWhite (trimStart t) :=
  fun _ hc => isWhite_eq_false_of_head?_trimStart hc

theorem Text.noneNext_drop_leadingWhite (t : Text) :
    NoneNext isWhite (t.drop (leadingWhite t).length) := by
  have hdrop : t.drop (leadingWhite t).length = trimStart t := by
    nth_rewrite 2 [← leadingWhite_append_trimStart t]
    exact List.drop_left
  rw [hdrop]
  exact noneNext_trimStart t

namespace Seed

/-! ## Where the strategies start a seed -/

/-- A date starts with a digit or a letter. -/
theorem noneNext_of_dateStart? (h : dateStart? t = some k) : NoneNext Text.isWhite (t.drop k) := by
  obtain ⟨token, hhead, rfl⟩ := Option.map_eq_some_iff.mp h
  have hmem := DateToken.mem_candidates_of_mem_all (List.mem_of_head? hhead)
  obtain ⟨a, u, b, hwithin⟩ := DateToken.exists_within hmem
  -- the token has the start of a match, and nothing is taken off there
  obtain ⟨p, hp, hreads⟩ := hwithin.reads
  obtain ⟨c, v, rfl, hc⟩ := (DateToken.items_of_reads hp hreads).1.exists_cons
  rw [hwithin.start_eq, hwithin.eq_append, List.drop_left]
  intro d hd
  obtain rfl := Option.some.inj hd
  exact hc.elim Text.isWhite_eq_false_of_isDigit Text.isWhite_eq_false_of_isForm

/-- A run of arithmetic starts behind the white space in front of it. -/
theorem noneNext_of_arithmeticStart? (hne : t ≠ []) (h : arithmeticStart? t = some k) :
    NoneNext Text.isWhite (t.drop k) := by
  have hlongest := IsLongestEnd.takeWhileEnd isRun t
  rw [arithmeticStart?_eq hne hlongest] at h
  split at h
  · obtain rfl := Option.some.inj h
    exact Text.noneNext_drop_leadingWhite t
  · obtain ⟨-, hk⟩ := Option.ite_none_right_eq_some.mp h
    obtain rfl := Option.some.inj hk
    rw [← List.suffix_iff_eq_drop.mp ((behindWhite_suffix _).trans hlongest.suffix)]
    exact Text.noneNext_trimStart _

/-- The white space behind a separator is passed over. -/
theorem noneNext_of_separatorStart? (h : separatorStart? t = some k) :
    NoneNext Text.isWhite (t.drop k) := by
  obtain ⟨stop, -, h⟩ := Option.bind_eq_some_iff.mp h
  obtain ⟨-, hk⟩ := Option.ite_none_right_eq_some.mp h
  obtain rfl := Option.some.inj hk
  rw [← List.drop_drop]
  exact Text.noneNext_drop_leadingWhite _

/-- The last word has no white space. -/
theorem noneNext_of_wordStart? (h : wordStart? t = some k) : NoneNext Text.isWhite (t.drop k) := by
  obtain ⟨-, hk⟩ := Option.ite_none_right_eq_some.mp h
  obtain rfl := Option.some.inj hk
  have hword := IsLongestEnd.takeWhileEnd (fun c => !Text.isWhite c) t
  rw [← List.suffix_iff_eq_drop.mp hword.suffix]
  exact fun c hc => (Bool.not_eq_true' _).mp (hword.forall_mem c (List.mem_of_head? hc))

/-- **No strategy starts a seed with white space.** -/
theorem noneNext_of_start? (h : start? t = some k) : NoneNext Text.isWhite (t.drop k) := by
  have hne : t ≠ [] := List.ne_nil_of_length_pos (Nat.zero_lt_of_lt (lt_of_start? h))
  rcases exists_strategy_of_start? h with hk | hk | hk | hk
  · exact noneNext_of_dateStart? hk
  · exact noneNext_of_arithmeticStart? hne hk
  · exact noneNext_of_separatorStart? hk
  · exact noneNext_of_wordStart? hk

/-! ## The parts of a text -/

/-- The lead and the body make up the text without the white space at its end, or the body is the
trimmed text and there is no lead. The body is empty only for a blank text, and has no white space
at its ends. -/
structure Partitions (t : Text) (seed : Seed) : Prop where
  append_or : seed.lead ++ seed.body = Text.trimEnd t ∨ seed.lead = [] ∧ seed.body = Text.trim t
  body_eq_nil_iff : seed.body = [] ↔ Text.isBlank t
  head?_body : ∀ c ∈ seed.body.head?, Text.isWhite c = false
  getLast?_body : ∀ c ∈ seed.body.getLast?, Text.isWhite c = false

/-- A text that is cut inside, in front of a character that is no white space. -/
theorem partitions_take_drop (hblank : ¬ Text.isBlank t) (hk : k < (Text.trimEnd t).length)
    (h : NoneNext Text.isWhite ((Text.trimEnd t).drop k)) :
    Partitions t ⟨(Text.trimEnd t).take k, (Text.trimEnd t).drop k⟩ where
  append_or := .inl (List.take_append_drop _ _)
  body_eq_nil_iff := iff_of_false (by rw [List.drop_eq_nil_iff]; omega) hblank
  head?_body := h
  getLast?_body c hc := by
    rw [List.getLast?_drop, if_neg (by omega)] at hc
    exact Text.isWhite_eq_false_of_getLast?_trimEnd hc

/-- A text that is its own seed. -/
theorem partitions_trim (t : Text) : Partitions t ⟨[], Text.trim t⟩ where
  append_or := .inr ⟨rfl, rfl⟩
  body_eq_nil_iff := Text.trim_eq_nil_iff
  head?_body _ hc := Text.isWhite_eq_false_of_head?_trim hc
  getLast?_body c hc := by
    rw [← Text.trimEnd_trim] at hc
    exact Text.isWhite_eq_false_of_getLast?_trimEnd hc

/-- **The lead and the body of a seed make up the text**, without the white space at its end, or the
trimmed text is the seed; and a text without white space at its ends is the lead and the body. -/
theorem partitions_ofText (t : Text) :
    Partitions t (ofText t) ∧ (Text.trim t = t → (ofText t).lead ++ (ofText t).body = t) := by
  have hpartitions : Partitions t (ofText t) := by
    by_cases hblank : Text.isBlank t
    · have htrim := partitions_trim t
      rw [Text.trim_eq_nil_iff.mpr hblank] at htrim
      rwa [ofText, if_pos (Text.isBlank_trimEnd.mpr hblank)]
    · rw [ofText_of_not_isBlank hblank]
      cases hstart : start? (Text.trimEnd t) with
      | some k =>
        exact partitions_take_drop hblank (lt_of_start? hstart) (noneNext_of_start? hstart)
      | none => exact partitions_trim t
  refine ⟨hpartitions, fun htrim => ?_⟩
  rcases hpartitions.append_or with happend | ⟨hlead, hbody⟩
  · rw [happend, ← htrim, Text.trimEnd_trim]
  · rw [hlead, hbody, List.nil_append, htrim]

/-- A label and a sum make up the text, also in front of white space. -/
theorem partitions_sum_behind_label :
    (ofText "Total: 2 + 3".toList).lead ++ (ofText "Total: 2 + 3".toList).body =
        "Total: 2 + 3".toList ∧
      (ofText "Total: 2 + 3  ".toList).body ≠ [] := by
  refine ⟨(partitions_ofText "Total: 2 + 3".toList).2 (by decide), fun hnil => ?_⟩
  exact absurd ((partitions_ofText "Total: 2 + 3  ".toList).1.body_eq_nil_iff.mp hnil) (by decide)

end Seed

end Snippet
