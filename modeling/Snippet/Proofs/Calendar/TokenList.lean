import Snippet.Proofs.Calendar.TokenSpans
import Snippet.Proofs.Text.Trimming

/-!
# The list of date tokens

A token is what is left of a match when the punctuation at its edges is taken off (`Trims`), unless
it is glued to a number with a fraction (`IsGlued`, `ofMatch?_eq_some_iff`). Going through the sorted
tokens, one is kept or it overlaps one that was kept before (`mem_dropOverlaps_or_covered`). So the
tokens of a text stand behind one another, and every match that gives a token is kept or covered by
a token that is kept (`all_keeps_or_covers`).
-/

namespace Snippet

/-! ## Taking off the edges of a text -/

namespace Text

variable {p : Char → Bool} {a t b : Text}

/-- No character of the class stands at the start or the end. -/
structure EndsOutside (p : Char → Bool) (t : Text) : Prop where
  head : ∀ c ∈ t.head?, p c = false
  last : ∀ c ∈ t.getLast?, p c = false

theorem dropWhile_between (ha : ∀ c ∈ a, p c) (hne : t ≠ []) (ht : EndsOutside p t) (b : Text) :
    (a ++ (t ++ b)).dropWhile p = t ++ b := by
  obtain ⟨c, t, rfl⟩ := List.exists_cons_of_ne_nil hne
  rw [List.dropWhile_append_of_pos ha, List.cons_append, List.dropWhile_cons_of_neg]
  simp [ht.head c rfl]

/-- Taking off a class at both ends leaves a text that ends outside of it. -/
theorem exists_dropWhile_dropWhileEnd (p : Char → Bool) (t : Text) :
    ∃ a b, t = a ++ t.dropWhile p ∧ t.dropWhile p = dropWhileEnd p (t.dropWhile p) ++ b ∧
      (∀ c ∈ a, p c) ∧ (∀ c ∈ b, p c) ∧ EndsOutside p (dropWhileEnd p (t.dropWhile p)) := by
  have hsplit := dropWhileEnd_append_takeWhileEnd p (t.dropWhile p)
  refine ⟨t.takeWhile p, takeWhileEnd p (t.dropWhile p), List.takeWhile_append_dropWhile.symm,
    hsplit.symm, fun c => List.mem_takeWhile_imp, fun c hc => ?_, fun c hc => ?_,
    fun c => eq_false_of_getLast?_dropWhileEnd⟩
  · rw [takeWhileEnd, List.mem_reverse] at hc
    exact List.mem_takeWhile_imp hc
  · have hnot := List.head?_dropWhile_not p t
    have hhead : (t.dropWhile p).head? = some c := by
      rw [← hsplit, List.head?_append, hc]
      rfl
    rw [hhead] at hnot
    exact hnot

end Text

namespace DateToken

open Regex Pattern

variable {t a b : Text} {m : Match} {x y : DateToken} {stop : Nat} {tokens : List DateToken}

/-! ## The token of a match -/

/-- Between two texts something is glued to a number: a digit and then a point or comma stand in
front of it, or a point or comma and then a digit behind it. -/
def IsGlued (before behind : Text) : Prop :=
  (∃ u d p, before = u ++ [d, p] ∧ d.isDigit ∧ (p = '.' ∨ p = ',')) ∨
    ∃ p d u, behind = p :: d :: u ∧ (p = '.' ∨ p = ',') ∧ d.isDigit

/-- The token is the match without the punctuation at its edges. -/
structure Trims (t : Text) (m : Match) (x : DateToken) : Prop where
  ne_nil : x.text ≠ []
  endsOutside : Text.EndsOutside isEdgePunctuation x.text
  exists_edges : ∃ before behind, m.text t = before ++ (x.text ++ behind) ∧
    (∀ c ∈ before, isEdgePunctuation c) ∧ (∀ c ∈ behind, isEdgePunctuation c) ∧
    x.span = ⟨m.span.start + before.length, m.span.start + before.length + x.text.length⟩

theorem joinsNumber_iff : joinsNumber t ↔
    ∃ p d u, t = p :: d :: u ∧ (p = '.' ∨ p = ',') ∧ d.isDigit := by
  constructor
  · intro h
    unfold joinsNumber at h
    split at h
    · rename_i p d u
      rw [Bool.and_eq_true, Bool.or_eq_true, beq_iff_eq, beq_iff_eq] at h
      exact ⟨p, d, u, rfl, h⟩
    · cases h
  · rintro ⟨p, d, u, rfl, hp, hd⟩
    rw [joinsNumber, Bool.and_eq_true, Bool.or_eq_true, beq_iff_eq, beq_iff_eq]
    exact ⟨hp, hd⟩

theorem isInsideNumber_iff (t : Text) (s : Span) :
    isInsideNumber t s ↔ IsGlued (t.take s.start) (t.drop s.stop) := by
  rw [isInsideNumber, Bool.or_eq_true, joinsNumber_iff, joinsNumber_iff, IsGlued]
  refine or_congr ⟨?_, ?_⟩ Iff.rfl
  · rintro ⟨p, d, u, hrev, hp, hd⟩
    exact ⟨u.reverse, d, p, by simpa using congrArg List.reverse hrev, hd, hp⟩
  · rintro ⟨u, d, p, hbefore, hd, hp⟩
    exact ⟨p, d, u.reverse, by simp [hbefore], hp, hd⟩

/-- **The token of a match is the match without the punctuation at its edges, unless it is glued to
a number.** -/
theorem ofMatch?_eq_some_iff : ofMatch? t m = some x ↔
    Trims t m x ∧ ¬ IsGlued (t.take x.span.start) (t.drop x.span.stop) := by
  rw [← isInsideNumber_iff, Bool.not_eq_true]
  constructor
  · intro h
    obtain ⟨before, behind, hbefore, hbehind, hbeforeEdge, hbehindEdge, hends⟩ :=
      Text.exists_dropWhile_dropWhileEnd isEdgePunctuation (m.text t)
    have hlength : (m.text t).length - ((m.text t).dropWhile isEdgePunctuation).length =
        before.length := by
      have heq := congrArg List.length hbefore
      rw [List.length_append] at heq
      omega
    simp only [ofMatch?, hlength] at h
    split at h
    · cases h
    · rename_i hif
      rw [Bool.or_eq_true, not_or, Bool.not_eq_true, Bool.not_eq_true,
        List.isEmpty_eq_false_iff] at hif
      obtain rfl := Option.some.inj h
      refine ⟨⟨hif.1, hends, before, behind, ?_, hbeforeEdge, hbehindEdge, rfl⟩, hif.2⟩
      rw [← hbehind]
      exact hbefore
  · rintro ⟨⟨hne, hends, before, behind, htext, hbefore, hbehind, hspan⟩, hglued⟩
    obtain ⟨span, text⟩ := x
    dsimp only at hne hends htext hspan hglued
    subst hspan
    have hdrop : (m.text t).dropWhile isEdgePunctuation = text ++ behind := by
      rw [htext, Text.dropWhile_between hbefore hne hends]
    have hlength : (m.text t).length - (text ++ behind).length = before.length := by
      rw [htext, List.length_append, Nat.add_sub_cancel]
    have hempty : text.isEmpty = false := List.isEmpty_eq_false_iff.mpr hne
    simp only [ofMatch?, hdrop, Text.dropWhileEnd_append hends.last hbehind, hlength, hempty, hglued,
      Bool.or_false, Bool.false_eq_true, if_false]

theorem mem_candidates_iff : x ∈ candidates t ↔
    ∃ p ∈ [dateTokenIso, dateToken, dateTokenText], ∃ m ∈ p.findAll t, Trims t m x ∧
      ¬ IsGlued (t.take x.span.start) (t.drop x.span.stop) := by
  simp only [candidates, List.mem_flatMap, List.mem_filterMap, ofMatch?_eq_some_iff]

/-! ## Which tokens are kept -/

/-- The token overlaps another one, starts no later, and from the same start reaches at least as
far. -/
structure Covers (y x : DateToken) : Prop where
  start_le : y.span.start ≤ x.span.start
  start_lt_stop : x.span.start < y.span.stop
  start_lt_stop' : y.span.start < x.span.stop
  stop_le : y.span.start = x.span.start → x.span.stop ≤ y.span.stop

/-- Among sorted tokens, one that starts behind the tokens kept so far is kept, or covered by one
that is. -/
theorem mem_dropOverlaps_or_covered (hsorted : tokens.Pairwise (comesFirst · ·))
    (hspan : ∀ x ∈ tokens, x.span.start < x.span.stop) (hx : x ∈ tokens)
    (hstart : stop ≤ x.span.start) :
    x ∈ dropOverlaps stop tokens ∨ ∃ y ∈ dropOverlaps stop tokens, y.Covers x := by
  induction tokens generalizing stop with
  | nil => cases hx
  | cons y tokens ih =>
    rw [List.pairwise_cons] at hsorted
    rw [List.forall_mem_cons] at hspan
    unfold dropOverlaps
    split
    · rename_i hlt
      have hne : x ≠ y := by
        rintro rfl
        omega
      exact ih hsorted.2 hspan.2 (List.mem_of_ne_of_mem hne hx) hstart
    · rcases List.mem_cons.mp hx with rfl | hx
      · exact .inl (List.mem_cons_self ..)
      · by_cases hover : x.span.start < y.span.stop
        · -- the token just kept covers this one
          have hfirst := (comesFirst_iff _ _).mp (hsorted.1 x hx)
          have hlt := hspan.2 x hx
          exact .inr ⟨y, List.mem_cons_self .., by omega, hover, by omega, by omega⟩
        · refine (ih hsorted.2 hspan.2 hx (not_lt.mp hover)).imp (List.mem_cons_of_mem y) ?_
          rintro ⟨z, hz, hcovers⟩
          exact ⟨z, List.mem_cons_of_mem y hz, hcovers⟩

/-- The token is a stretch of the text that has its characters. -/
structure IsSlice (t : Text) (x : DateToken) : Prop where
  start_lt : x.span.start < x.span.stop
  stop_le : x.span.stop ≤ t.length
  text_eq : x.text = x.span.of t

theorem isSlice_of_mem_candidates (h : x ∈ candidates t) : IsSlice t x := by
  obtain ⟨a, u, b, hwithin⟩ := exists_within h
  refine ⟨hwithin.start_lt, hwithin.stop_le.trans ?_, hwithin.text_eq⟩
  rw [hwithin.eq_append, List.length_append, List.length_append]
  omega

/-- A candidate is a token, or it is covered by one. -/
theorem mem_all_or_covered (h : x ∈ candidates t) : x ∈ all t ∨ ∃ y ∈ all t, y.Covers x := by
  obtain ⟨tokens, hall, hsorted, hmem⟩ := exists_all_eq_dropOverlaps t
  rw [hall]
  exact mem_dropOverlaps_or_covered hsorted (fun y hy => start_lt_of_mem_candidates ((hmem y).mp hy))
    ((hmem x).mpr h) (Nat.zero_le _)

/-- **The tokens of a text.** Each one is a stretch of the text, which a pattern for date tokens has
matched up to punctuation at the edges of the match, and is not glued to a number. They stand behind
one another. Nothing is dropped without a cause: a match whose token is not glued to a number is kept
or covered by a token that is kept. -/
theorem all_keeps_or_covers (t : Text) :
    (∀ x ∈ all t, IsSlice t x ∧ Text.EndsOutside isEdgePunctuation x.text ∧
      ¬ IsGlued (t.take x.span.start) (t.drop x.span.stop) ∧
      ∃ p ∈ [dateTokenIso, dateToken, dateTokenText], ∃ m ∈ p.findAll t, Trims t m x) ∧
    (all t).Pairwise (fun x y => x.span.start < y.span.start ∧ x.span.stop ≤ y.span.start) ∧
    ∀ p ∈ [dateTokenIso, dateToken, dateTokenText], ∀ m ∈ p.findAll t, ∀ x, Trims t m x →
      ¬ IsGlued (t.take x.span.start) (t.drop x.span.stop) →
        x ∈ all t ∨ ∃ y ∈ all t, y.Covers x := by
  refine ⟨fun x hx => ?_, ?_, fun p hp m hm x htrims hglued => ?_⟩
  · have hmem := mem_candidates_of_mem_all hx
    obtain ⟨p, hp, m, hm, htrims, hglued⟩ := mem_candidates_iff.mp hmem
    exact ⟨isSlice_of_mem_candidates hmem, htrims.endsOutside, hglued, p, hp, m, hm, htrims⟩
  · refine (pairwise_all t).imp_of_mem fun hx _ hle => ⟨?_, hle⟩
    exact (isSlice_of_mem_candidates (mem_candidates_of_mem_all hx)).start_lt.trans_le hle
  · exact mem_all_or_covered (mem_candidates_iff.mpr ⟨p, hp, m, hm, htrims, hglued⟩)

/-- In `5/6 Jan` the match `6 Jan` is dropped, and the token `5/6` covers it. -/
theorem covers_five_slash_six : ∃ y ∈ all "5/6 Jan".toList, y.Covers ⟨⟨2, 7⟩, "6 Jan".toList⟩ := by
  have hall : all "5/6 Jan".toList = [⟨⟨0, 3⟩, "5/6".toList⟩] := by
    have hfound : candidates "5/6 Jan".toList =
        [⟨⟨0, 3⟩, "5/6".toList⟩, ⟨⟨2, 7⟩, "6 Jan".toList⟩] := by
      decide +kernel
    rw [all, hfound, List.mergeSort_of_pairwise (by decide)]
    decide
  have hmatch : (⟨⟨2, 7⟩, []⟩ : Match) ∈ dateTokenText.findAll "5/6 Jan".toList := by
    decide +kernel
  have htrims : Trims "5/6 Jan".toList ⟨⟨2, 7⟩, []⟩ ⟨⟨2, 7⟩, "6 Jan".toList⟩ :=
    ⟨by decide, ⟨by decide, by decide⟩, [], [], by decide, by simp, by simp, rfl⟩
  have hglued : ¬ IsGlued ("5/6 Jan".toList.take 2) ("5/6 Jan".toList.drop 7) := by
    rw [← isInsideNumber_iff "5/6 Jan".toList ⟨2, 7⟩]
    decide
  refine ((all_keeps_or_covers _).2.2 dateTokenText (by simp) _ hmatch _ htrims
    hglued).resolve_left ?_
  rw [hall]
  decide

end DateToken

end Snippet
