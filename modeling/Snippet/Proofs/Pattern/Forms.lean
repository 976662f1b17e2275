import Snippet.Pattern.Catalog
import Snippet.Proofs.Pattern.Leftmost

/-!
# The two forms of a pattern

A pattern has a full form, which matches between the marks of the start and of the end of the text,
and a loose form, which matches anywhere. Both are searches for the same expression, and they agree:
the full form has a match exactly if the expression matches from end to end, the loose form exactly
if it matches somewhere, and a loose match from end to end is a full one
(`Pattern.full_and_loose_agree`).
-/

namespace Snippet

/-! ## The marks of the start and of the end -/

namespace Regex

/-- All ways to match between the marks of the start and of the end of the text, at a place or
later, in the order of their beginnings. The mark of the start stands where no character is in
front. -/
def anchoredOutcomesFrom (r : Regex) (p : Place) : List Cursor :=
  p.onward.flatMap fun q => if q.last.isNone then (seq r textEnd).outcomes (.start q) else []

/-- In front of the mark of the end are the outcomes that leave nothing. -/
theorem outcomes_seq_textEnd (r : Regex) (c : Cursor) :
    (seq r textEnd).outcomes c = (r.outcomes c).filter fun d => d.rest.isEmpty := by
  simp only [outcomes]
  induction r.outcomes c with
  | nil => rfl
  | cons d ds ih =>
    rw [List.flatMap_cons, List.filter_cons, ih]
    split <;> rfl

end Regex

/-- Behind a character there is no mark of the start. -/
theorem Place.isSome_last_of_mem_onwardFrom {rest : Text} {pos : Nat} {x : Char} {q : Place}
    (h : q ∈ onwardFrom rest pos (some x)) : q.last.isSome := by
  induction rest generalizing pos x with
  | nil =>
    obtain rfl := List.mem_singleton.mp h
    rfl
  | cons y rest ih =>
    rcases List.mem_cons.mp h with rfl | h
    · rfl
    · exact ih h

/-- The mark of the start stands only in front of the text. -/
theorem Regex.anchoredOutcomesFrom_start (r : Regex) (t : Text) :
    r.anchoredOutcomesFrom (.start t) =
      (r.outcomes (.start (.start t))).filter fun d => d.rest.isEmpty := by
  rw [← outcomes_seq_textEnd]
  cases t with
  | nil => exact List.flatMap_singleton ..
  | cons x t =>
    have hlater : ((Place.onwardFrom t 1 (some x)).flatMap fun q =>
        if q.last.isNone then (seq r textEnd).outcomes (.start q) else []) = [] := by
      rw [List.flatMap_eq_nil_iff]
      intro q hq
      obtain ⟨y, hy⟩ := Option.isSome_iff_exists.mp (Place.isSome_last_of_mem_onwardFrom hq)
      rw [hy]
      rfl
    rw [anchoredOutcomesFrom]
    exact (congrArg (_ ++ ·) hlater).trans (List.append_nil _)

/-! ## Matches in a text -/

/-- From a place on comes the place behind each part of what is left. -/
theorem Place.between_mem_onward (a x y : Text) :
    between (a ++ x) y ∈ (between a (x ++ y)).onward := by
  induction x generalizing a with
  | nil =>
    rw [List.append_nil]
    cases y <;> exact List.mem_cons_self ..
  | cons e x ih =>
    have hlater := ih (a ++ [e])
    rw [← List.append_cons, ← read_between] at hlater
    exact List.mem_cons_of_mem _ hlater

namespace Pattern

variable {p : Pattern} {t : Text} {m : Match}

/-- **The full form is the search between the marks.** -/
theorem full?_eq_anchored (p : Pattern) (t : Text) :
    p.full? t = (p.regex.anchoredOutcomesFrom (.start t)).head?.map .ofCursor := by
  rw [full?_eq, Regex.anchoredOutcomesFrom_start, List.head?_filter]

/-- Every match in a text is one of the expression, where it stands. -/
theorem readsBetween_of_mem_findAll (h : m ∈ p.findAll t) :
    ∃ a u b, t = a ++ (u ++ b) ∧ m.span = ⟨a.length, a.length + u.length⟩ ∧
      p.regex.ReadsBetween a u b := by
  obtain ⟨a, v, c, rfl, hc, rfl⟩ := exists_mem_outcomes_of_mem_findAll h
  obtain ⟨u, b, rfl, hplace, hu⟩ := Regex.exists_readsBetween (a := a) rfl hc
  obtain ⟨-, -, horigin, -⟩ := Occurrence.of_mem_outcomes hc
  refine ⟨a, u, b, rfl, ?_, hu⟩
  rw [Match.ofCursor, horigin, hplace, ← List.length_append]
  rfl

theorem mem_findAll_of_find? (h : p.find? t = some m) : m ∈ p.findAll t := by
  rw [find?_eq_head?] at h
  exact List.mem_of_head? h

/-- **A pattern occurs in a text if its expression matches somewhere in it.** -/
theorem occursIn_iff :
    p.occursIn t ↔ ∃ a u b, t = a ++ (u ++ b) ∧ p.regex.ReadsBetween a u b := by
  constructor
  · intro h
    obtain ⟨m, hm⟩ := Option.isSome_iff_exists.mp h
    obtain ⟨a, u, b, ht, -, hu⟩ := readsBetween_of_mem_findAll (mem_findAll_of_find? hm)
    exact ⟨a, u, b, ht, hu⟩
  · rintro ⟨a, u, b, rfl, hu⟩
    obtain ⟨d, hd, -⟩ :=
      (Regex.exists_outcome_iff (c := .start (.between a (u ++ b))) rfl).mpr hu
    have hmem : d ∈ p.regex.outcomesFrom (.start (a ++ (u ++ b))) :=
      List.mem_flatMap.mpr ⟨_, Place.between_mem_onward [] a (u ++ b), hd⟩
    rw [occursIn, find?_eq, Option.isSome_map, List.isSome_head?]
    exact List.ne_nil_of_mem hmem

/-- A match that is found and that spans the text is a match of the full form. -/
theorem matchesAll_of_span_eq (h : p.find? t = some m) (hspan : m.span = ⟨0, t.length⟩) :
    p.matchesAll t := by
  obtain ⟨a, u, b, rfl, hm, hu⟩ := readsBetween_of_mem_findAll (mem_findAll_of_find? h)
  rw [hm, Span.mk.injEq, List.length_append, List.length_append] at hspan
  obtain rfl : a = [] := List.length_eq_zero_iff.mp hspan.1
  obtain rfl : b = [] := List.length_eq_zero_iff.mp (by omega)
  rw [matchesAll_iff, List.nil_append, List.append_nil]
  exact hu

/-- **The full and the loose form of a pattern agree**, for the patterns of the catalog and all
others. The full form finds what the search between the marks of the start and of the end finds, has
a match exactly if the expression matches from the first to the last character, and its match is the
whole text. What the full form matches, the loose form finds. The loose form finds a match exactly if
the expression matches somewhere, and the first of its matches is the one that it finds; if this is
the whole text, the full form matches. -/
theorem full_and_loose_agree (p : Pattern) (t : Text) :
    p.full? t = (p.regex.anchoredOutcomesFrom (.start t)).head?.map .ofCursor ∧
    (p.matchesAll t ↔ p.regex.ReadsBetween [] t []) ∧
    (p.matchesAll t ↔ (p.full? t).isSome) ∧
    (∀ m, p.full? t = some m → m.group? 0 = some ⟨0, t.length⟩ ∧ m.text? t 0 = some t) ∧
    (p.matchesAll t → p.occursIn t) ∧
    (p.occursIn t ↔ ∃ a u b, t = a ++ (u ++ b) ∧ p.regex.ReadsBetween a u b) ∧
    (p.occursIn t ↔ (p.find? t).isSome) ∧
    (p.occursIn t ↔ p.findAll t ≠ []) ∧
    p.find? t = (p.findAll t).head? ∧
    ∀ m, p.find? t = some m → m.group? 0 = some m.span ∧
      (m.span = ⟨0, t.length⟩ → p.matchesAll t) := by
  have hfirst := p.find?_eq_head? t
  refine ⟨p.full?_eq_anchored t, matchesAll_iff, Iff.rfl, fun m hm => ?_, fun h => ?_, occursIn_iff,
    Iff.rfl, ?_, hfirst, fun m hm => ⟨rfl, matchesAll_of_span_eq hm⟩⟩
  · have hoccurs := occurrence_of_full? hm
    have hspan : m.span = ⟨0, t.length⟩ := by rw [hoccurs.span_eq, Nat.zero_add]
    have htext : m.text t = t := by simpa using hoccurs.text_eq (a := []) (b := [])
    exact ⟨congrArg some hspan, congrArg some htext⟩
  · exact occursIn_iff.mpr ⟨[], t, [], (List.append_nil t).symm, matchesAll_iff.mp h⟩
  · rw [occursIn, hfirst, List.isSome_head?]

/-- A date that is found and is the whole text is matched by the full form. With a word in front it
is found, but the text is not matched. -/
theorem full_and_loose_agree_date :
    dateFull.find? "3/4/2024".toList = some ⟨⟨0, 8⟩, []⟩ ∧
    dateFull.matchesAll "3/4/2024".toList ∧ dateFull.occursIn "3/4/2024".toList ∧
    dateFull.regex.ReadsBetween [] "3/4/2024".toList [] ∧
    dateFull.full? "3/4/2024".toList = some ⟨⟨0, 8⟩, []⟩ ∧
    Match.text? ⟨⟨0, 8⟩, []⟩ "3/4/2024".toList 0 = some "3/4/2024".toList ∧
    dateFull.find? "due 3/4/2024".toList = some ⟨⟨4, 12⟩, []⟩ ∧
    dateFull.occursIn "due 3/4/2024".toList ∧
    ¬ dateFull.regex.ReadsBetween [] "due 3/4/2024".toList [] := by
  have hfind : dateFull.find? "3/4/2024".toList = some ⟨⟨0, 8⟩, []⟩ := by decide +kernel
  have hfull : dateFull.full? "3/4/2024".toList = some ⟨⟨0, 8⟩, []⟩ := by decide +kernel
  have hbehind : dateFull.find? "due 3/4/2024".toList = some ⟨⟨4, 12⟩, []⟩ := by decide +kernel
  have hnot : ¬ dateFull.matchesAll "due 3/4/2024".toList := by decide +kernel
  obtain ⟨-, hreads, -, hwhole, hoccurs, -, -, -, -, hspans⟩ :=
    full_and_loose_agree dateFull "3/4/2024".toList
  obtain ⟨-, hreads', -, -, -, -, hoccurs', -⟩ :=
    full_and_loose_agree dateFull "due 3/4/2024".toList
  have hmatches := (hspans _ hfind).2 rfl
  refine ⟨hfind, hmatches, hoccurs hmatches, hreads.mp hmatches, hfull, (hwhole _ hfull).2, hbehind,
    hoccurs'.mpr ?_, fun h => hnot (hreads'.mpr h)⟩
  rw [hbehind]
  rfl

end Pattern

end Snippet
