import Snippet.Proofs.Calendar.Dateless
import Snippet.Proofs.Pipeline.TrailingRun

/-!
# Where a text is split

Where a text has no date, its seed starts at the start of the text, behind white space or behind an
opening bracket (`Seed.splitsAt_of_start?`). So a word without these is not cut
(`Seed.SplitsAt.drop_cases`), and a run of arithmetic behind a label is the seed
(`Seed.start?_of_label`).
-/

namespace Snippet.Seed

open Pattern Regex

variable {a b t u v w : Text} {k : Nat}

/-! ## The start of the seed -/

/-- A character behind which a seed may start. -/
def opensSeed (c : Char) : Bool := Text.isWhite c || ['(', '[', '\x7b'].contains c

/-- The place is the start of the text, or one of the characters behind which a seed may start
stands in front of it. -/
def SplitsAt (t : Text) (k : Nat) : Prop :=
  k = 0 ∨ ∃ a c b, t = a ++ c :: b ∧ k = a.length + 1 ∧ opensSeed c

theorem opensSeed_of_isWhite {c : Char} (h : Text.isWhite c) : opensSeed c := by
  rw [opensSeed, h, Bool.true_or]

/-- Behind a text that is empty or ends with such a character. -/
theorem SplitsAt.of_getLast? (h : ∀ c ∈ a.getLast?, opensSeed c) : SplitsAt (a ++ b) a.length := by
  rcases List.eq_nil_or_concat' a with rfl | ⟨a, c, rfl⟩
  · exact .inl rfl
  · exact .inr ⟨a, c, b, by simp, by simp, h c (by simp)⟩

/-- White space behind such a place. -/
theorem SplitsAt.white (h : SplitsAt (a ++ (w ++ b)) a.length) (hw : Text.isBlank w) :
    SplitsAt (a ++ (w ++ b)) (a.length + w.length) := by
  cases hlast : w.getLast? with
  | none =>
    obtain rfl := List.getLast?_eq_none_iff.mp hlast
    exact h
  | some c =>
    rw [← List.append_assoc, ← List.length_append]
    refine .of_getLast? fun d hd => opensSeed_of_isWhite ?_
    rw [List.getLast?_append, hlast] at hd
    cases hd
    exact Text.isWhite_of_isBlank hw (List.mem_of_getLast? hlast)

theorem splitsAt_leadingWhite (t : Text) : SplitsAt t (Text.leadingWhite t).length := by
  have h := SplitsAt.white (a := []) (b := Text.trimStart t) (.inl rfl) (Text.isBlank_leadingWhite t)
  rw [Text.leadingWhite_append_trimStart] at h
  simpa using h

/-- The run at the end of a text that is searched for stands behind white space. -/
theorem splitsAt_of_tailStart? (h : tailStart? t = some k) : SplitsAt t k := by
  obtain ⟨s, hlongest⟩ : ∃ s, IsLongestEnd isRun t s := ⟨_, .takeWhileEnd isRun t⟩
  obtain ⟨hoperand, hk⟩ := Option.ite_none_right_eq_some.mp ((tailStart?_eq hlongest).symm.trans h)
  obtain ⟨a, w, ht, -, hne, hwhite⟩ :=
    hlongest.exists_split fun hnil => absurd hoperand (by rw [hnil]; decide)
  obtain rfl : k = (a ++ w).length := by
    rw [← Option.some.inj hk, ht, List.length_append, Nat.add_sub_cancel]
  rw [ht]
  refine .of_getLast? fun c hc => opensSeed_of_isWhite ?_
  rw [List.getLast?_append_of_ne_nil a hne] at hc
  exact Text.isWhite_of_isBlank hwhite (List.mem_of_getLast? hc)

/-- What follows a separator and white space stands behind one of them. -/
theorem splitsAt_of_separatorStart? (h : separatorStart? t = some k) : SplitsAt t k := by
  obtain ⟨stop, hstop, h⟩ := Option.bind_eq_some_iff.mp h
  obtain ⟨s, hs, hlast⟩ := List.mem_filterMap.mp (List.max?_mem hstop)
  obtain ⟨⟨x, y⟩, hfind, rfl⟩ := Option.map_eq_some_iff.mp hlast
  have hsplit : t = y.reverse ++ s ++ x.reverse := by
    rw [← List.reverse_reverse t, Text.eq_append_of_find? hfind]
    simp
  have hends : ∀ s ∈ separators, s ≠ [] ∧ ∀ c ∈ s.getLast?, opensSeed c := by decide
  obtain ⟨hne, hlast⟩ := hends s hs
  have hplace : SplitsAt (y.reverse ++ s ++ (Text.leadingWhite x.reverse ++
      Text.trimStart x.reverse)) (y.reverse ++ s).length := by
    refine .of_getLast? fun c hc => hlast c ?_
    rwa [List.getLast?_append_of_ne_nil _ hne] at hc
  have hwhite := hplace.white (Text.isBlank_leadingWhite _)
  rw [Text.leadingWhite_append_trimStart, ← hsplit, List.length_append, List.length_reverse] at hwhite
  have hdrop : t.drop (y.length + s.length) = x.reverse := by
    rw [hsplit, List.drop_left' (by simp)]
  dsimp only at h
  rw [hdrop] at h
  split at h
  · exact Option.some.inj h ▸ hwhite
  · cases h

/-- The last word stands behind white space. -/
theorem splitsAt_of_wordStart? (h : wordStart? t = some k) : SplitsAt t k := by
  simp only [wordStart?] at h
  split at h
  · have hsplit := Text.dropWhileEnd_append_takeWhileEnd (fun c => !Text.isWhite c) t
    have hk : k = (Text.dropWhileEnd (fun c => !Text.isWhite c) t).length := by
      have hlength := congrArg List.length hsplit
      rw [List.length_append] at hlength
      rw [← Option.some.inj h]
      omega
    rw [hk]
    nth_rewrite 1 [← hsplit]
    refine .of_getLast? fun c hc => opensSeed_of_isWhite ?_
    simpa using Text.eq_false_of_getLast?_dropWhileEnd hc
  · cases h

/-- **Without a date, the seed starts at the start of the text, behind white space or behind an
opening bracket.** -/
theorem splitsAt_of_start? (hdate : dateStart? t = none) (h : start? t = some k) :
    SplitsAt t k := by
  rcases exists_strategy_of_start? h with hk | hk | hk | hk
  · rw [hdate] at hk
    cases hk
  · rw [arithmeticStart?] at hk
    split at hk
    · cases hk
      exact splitsAt_leadingWhite t
    · exact splitsAt_of_tailStart? hk
  · exact splitsAt_of_separatorStart? hk
  · exact splitsAt_of_wordStart? hk

/-- **A word that has no white space and no opening bracket is not cut.** -/
theorem SplitsAt.drop_cases {lead : Text} (h : SplitsAt (lead ++ (w ++ u)) k)
    (hw : ∀ c ∈ w, opensSeed c = false) :
    (∃ s, s <:+ lead ∧ (lead ++ (w ++ u)).drop k = s ++ (w ++ u)) ∨
      (lead ++ (w ++ u)).drop k <:+ u := by
  rcases h with rfl | ⟨a, c, b, hsplit, rfl, hc⟩
  · exact .inl ⟨lead, List.suffix_rfl, rfl⟩
  have hmem : c ∉ w := by
    intro hmem
    rw [hw c hmem] at hc
    cases hc
  have hdrop : (lead ++ (w ++ u)).drop (a.length + 1) = b := by
    rw [hsplit, List.append_cons, List.drop_left' (by simp)]
  rw [hdrop]
  -- the character stands in the lead or behind the word
  rcases Text.cases_of_append_cons hsplit.symm hmem with ⟨z, -, hu⟩ | ⟨z, rfl, hb⟩
  · exact .inr ⟨z ++ [c], by simp [hu]⟩
  · exact .inl ⟨z, ⟨a ++ [c], by simp⟩, hb⟩

/-! ## A run behind a label -/

/-- **A run of arithmetic behind a label is the seed.** -/
theorem start?_of_label {name space : Text} {d : Char} (hne : space ≠ [])
    (hspace : Text.isBlank space) (hvne : v ≠ []) (hv : ∀ c ∈ v, isRun c)
    (hfirst : ∀ c ∈ v.head?, Text.isWhite c = false) (hd : isRun d = false)
    (hoperand : hasOperand v) (hdate : dateStart? (name ++ d :: (space ++ v)) = none) :
    start? (name ++ d :: (space ++ v)) = some (name ++ d :: space).length := by
  have hrun : ∀ c ∈ space ++ v, isRun c := by
    rw [List.forall_mem_append]
    exact ⟨fun c hc => isRun_of_isWhite (Text.isWhite_of_isBlank hspace hc), hv⟩
  have hlongest : IsLongestEnd isRun (name ++ d :: (space ++ v)) (space ++ v) :=
    .behind name hd hrun
  have hpart : space ++ v ≠ name ++ d :: (space ++ v) := by
    intro hall
    have hdrun := hlongest.eq_iff.mp hall d (by simp)
    rw [hd] at hdrun
    cases hdrun
  have hsplit : (name ++ d :: (space ++ v)).length = (name ++ d :: space).length + v.length := by
    rw [← List.length_append, List.append_assoc, List.cons_append]
  have hpos := List.length_pos_iff.mpr hvne
  have harith : arithmeticStart? (name ++ d :: (space ++ v)) = some (name ++ d :: space).length := by
    rw [arithmeticStart?_eq (by simp) hlongest, if_neg fun hall => hpart hall.1,
      behindWhite_append hne hspace hfirst, if_pos hoperand, hsplit, Nat.add_sub_cancel]
  rw [start?, List.findSome?_cons, hdate, Option.filter_none, List.findSome?_cons, harith,
    Option.filter_some, if_pos (decide_eq_true (by omega))]

end Snippet.Seed
