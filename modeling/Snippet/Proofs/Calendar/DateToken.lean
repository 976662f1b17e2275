import Snippet.Proofs.Pattern.Shapes
import Snippet.Seed

/-!
# The date tokens of arithmetic texts

A date token comes from a match of one of the patterns for dates (`exists_match_of_mem_all`). In a
text of arithmetic this is a numeric date, which starts with a digit, so nothing is taken off at its
start, and the text has a separator of dates behind the start of the token
(`exists_isDateSeparator_of_dateStart?`).
-/

namespace Snippet

namespace DateToken

variable {t : Text} {token : DateToken}

theorem mem_of_mem_dropOverlaps {stop : Nat} {tokens : List DateToken}
    (h : token ∈ dropOverlaps stop tokens) : token ∈ tokens := by
  induction tokens generalizing stop with
  | nil => cases h
  | cons a tokens ih =>
    unfold dropOverlaps at h
    split at h
    · exact List.mem_cons_of_mem _ (ih h)
    · rcases List.mem_cons.mp h with rfl | h
      · exact List.mem_cons_self ..
      · exact List.mem_cons_of_mem _ (ih h)

theorem mem_candidates_of_mem_all (h : token ∈ all t) : token ∈ candidates t :=
  List.mem_mergeSort.mp (mem_of_mem_dropOverlaps h)

/-- **A date token comes from a match of one of the patterns for dates.** -/
theorem exists_match_of_mem_all (h : token ∈ all t) :
    ∃ p ∈ [Pattern.dateTokenIso, Pattern.dateToken, Pattern.dateTokenText], ∃ m ∈ p.findAll t,
      ofMatch? t m = some token := by
  obtain ⟨p, hp, hmem⟩ := List.mem_flatMap.mp (mem_candidates_of_mem_all h)
  obtain ⟨m, hm, htoken⟩ := List.mem_filterMap.mp hmem
  exact ⟨p, hp, m, hm, htoken⟩

theorem dropOverlaps_eq_self {stop : Nat} {tokens : List DateToken}
    (hstop : ∀ a ∈ tokens, stop ≤ a.span.start)
    (h : tokens.Pairwise fun a b => a.span.stop ≤ b.span.start) : dropOverlaps stop tokens = tokens := by
  induction tokens generalizing stop with
  | nil => rfl
  | cons a tokens ih =>
    obtain ⟨hbehind, htokens⟩ := List.pairwise_cons.mp h
    rw [dropOverlaps, if_neg (Nat.not_lt.mpr (hstop a (List.mem_cons_self ..))), ih hbehind htokens]

/-- Stretches that are found one behind the other are all date tokens. -/
theorem all_eq_of_candidates {tokens : List DateToken} (h : candidates t = tokens)
    (hbehind : tokens.Pairwise fun a b =>
      a.span.start < b.span.start ∧ a.span.stop ≤ b.span.start) : all t = tokens := by
  have hsorted : tokens.Pairwise (comesFirst · ·) := by
    refine hbehind.imp fun hab => ?_
    rw [comesFirst, Bool.or_eq_true, decide_eq_true_eq]
    exact .inl hab.1
  rw [all, h, List.mergeSort_of_pairwise hsorted]
  exact dropOverlaps_eq_self (fun _ _ => Nat.zero_le _) (hbehind.imp And.right)

/-- The characters of a class without punctuation are no punctuation at the edge of a date. -/
theorem isEdgePunctuation_eq_false_of {p : Char → Bool} {c : Char} (h : p c)
    (hp : ∀ c ∈ ",;:()[]\x7b\x7d\"'.".toList, p c = false) : isEdgePunctuation c = false := by
  rw [← Bool.not_eq_true, isEdgePunctuation, List.contains_iff_mem]
  intro hmem
  rw [hp c hmem] at h
  cases h

theorem isEdgePunctuation_eq_false_of_isDigit {c : Char} (h : Text.isDigit c) :
    isEdgePunctuation c = false :=
  isEdgePunctuation_eq_false_of h (by decide)

/-- A match that starts with a digit keeps its start. -/
theorem start_of_ofMatch? {r : Regex} {m : Match} {a u b : Text} (hm : Occurrence r m a.length u)
    (hdigit : ∃ c v, u = c :: v ∧ Text.isDigit c)
    (h : ofMatch? (a ++ (u ++ b)) m = some token) : token.span.start = a.length := by
  obtain ⟨c, v, rfl, hc⟩ := hdigit
  have htrimmed : (c :: v).dropWhile isEdgePunctuation = c :: v := by
    rw [List.dropWhile_cons_of_neg]
    simp [isEdgePunctuation_eq_false_of_isDigit hc]
  simp only [ofMatch?, hm.text_eq, htrimmed, hm.span_eq, Nat.sub_self, Nat.add_zero] at h
  split at h
  · cases h
  · obtain rfl := Option.some.inj h
    rfl

end DateToken

namespace Seed

open Pattern

variable {t : Text} {k : Nat}

/-- **The first date of a text of arithmetic starts in front of a separator of dates.** -/
theorem exists_isDateSeparator_of_dateStart? (ht : ∀ c ∈ t, isArithmeticOrOf c)
    (h : dateStart? t = some k) : ∃ c ∈ t.drop k, isDateSeparator c := by
  obtain ⟨token, hhead, rfl⟩ := Option.map_eq_some_iff.mp h
  obtain ⟨p, hp, m, hm, htoken⟩ := DateToken.exists_match_of_mem_all (List.mem_of_head? hhead)
  obtain ⟨a, u, b, rfl, hoccurs⟩ := occurrence_of_mem_findAll hm
  have hnumeric : dateToken.regex.Reads u ∨ dateTokenIso.regex.Reads u := by
    simp only [List.mem_cons, List.not_mem_nil, or_false] at hp
    rcases hp with rfl | rfl | rfl
    · exact .inr hoccurs.reads
    · exact .inl hoccurs.reads
    · obtain ⟨c, hc, hletter⟩ := exists_mem_of_dateTokenText hoccurs.reads
      rw [ht c (by simp [hc])] at hletter
      cases hletter
  obtain ⟨hdigit, c, hc, hsep⟩ := numericDate_of_dateToken hnumeric
  rw [DateToken.start_of_ofMatch? hoccurs hdigit htoken, List.drop_left]
  exact ⟨c, List.mem_append_left b hc, hsep⟩

end Seed

end Snippet
