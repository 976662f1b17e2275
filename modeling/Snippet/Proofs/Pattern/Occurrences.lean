import Snippet.Pattern.Search
import Snippet.Proofs.Pattern.Context
import Snippet.Proofs.Text.Phrase

/-!
# Where a pattern occurs

A match of a pattern is an occurrence of the language of its expression: the matched characters, and
those of every group, are read by the expression and by the body of the group (`Occurrence`). A full
match is an occurrence that is the whole text (`occurrence_of_full?`), and there is one exactly if
the expression matches from end to end (`matchesAll_iff`). The matches in a text are occurrences that
follow each other, with gaps between them (`pieces_findAll`), and a replacement of all matches keeps
the gaps and replaces the occurrences (`Replaces`, `Pattern.replaces`).
-/

namespace Snippet

/-- A match whose characters, from number `start` on, are `u`. -/
structure Occurrence (r : Regex) (m : Match) (start : Nat) (u : Text) : Prop where
  reads : r.Reads u
  span_eq : m.span = ⟨start, start + u.length⟩
  /-- The characters of a group are read by its body. -/
  groups_eq : ∀ g ∈ m.groups, ∃ body, (g.1, body) ∈ r.bodies ∧
    ∃ x y z, u = x ++ (y ++ z) ∧ body.Reads y ∧
      g.2 = ⟨start + x.length, start + x.length + y.length⟩

theorem Span.of_append (a u b : Text) :
    Span.of ⟨a.length, a.length + u.length⟩ (a ++ (u ++ b)) = u := by
  simp [Span.of]

/-- The characters of a stretch, told by what stands in front of them. -/
theorem Span.of_eq {t : Text} {i : Nat} (a u b : Text) (ht : t = a ++ (u ++ b))
    (hi : i = a.length) : Span.of ⟨i, i + u.length⟩ t = u := by
  subst hi ht
  exact Span.of_append a u b

namespace Occurrence

variable {r : Regex} {m : Match} {a u b : Text}

theorem text_eq (h : Occurrence r m a.length u) : m.text (a ++ (u ++ b)) = u := by
  rw [Match.text, h.span_eq, Span.of_append]

/-- The characters of a group are those that its body has read. -/
theorem reads_group (h : Occurrence r m a.length u) {index : Nat} (hindex : index ≠ 0) {y : Text}
    (hy : m.text? (a ++ (u ++ b)) index = some y) :
    ∃ body, (index, body) ∈ r.bodies ∧ body.Reads y ∧ ∃ x z, u = x ++ (y ++ z) := by
  rw [Match.text?, Match.group?, if_neg hindex, Option.map_eq_some_iff] at hy
  obtain ⟨span, hspan, rfl⟩ := hy
  obtain ⟨newer, older, hgroups, -⟩ := List.lookup_eq_some_iff.mp hspan
  obtain ⟨body, hbody, x, y, z, rfl, hy, rfl⟩ := h.groups_eq (index, span) (by simp [hgroups])
  refine ⟨body, hbody, ?_⟩
  have hof : Span.of ⟨a.length + x.length, a.length + x.length + y.length⟩
      (a ++ (x ++ (y ++ z) ++ b)) = y := by
    have := Span.of_append (a ++ x) y (z ++ b)
    rw [List.length_append] at this
    simpa using this
  rw [hof]
  exact ⟨hy, x, z, rfl⟩

/-- An outcome of an expression is an occurrence. -/
theorem of_mem_outcomes {q : Place} {c : Cursor} (h : c ∈ r.outcomes (.start q)) :
    ∃ u, q.rest = u ++ c.rest ∧ c.origin = q.pos ∧ c.pos = q.pos + u.length ∧
      Occurrence r (.ofCursor c) q.pos u := by
  obtain ⟨u, hu⟩ := Regex.exists_advance h
  obtain ⟨gs, hgs, hrecorded⟩ := hu.groups_eq
  have hnil : (Cursor.start q).groups = [] := rfl
  rw [hnil, List.append_nil] at hgs
  refine ⟨u, hu.rest_eq, hu.origin_eq, hu.pos_eq, hu.reads, ?_, fun g hg => ?_⟩
  · rw [Match.ofCursor, hu.pos_eq, hu.origin_eq]
    rfl
  · exact hrecorded g (hgs ▸ hg)

end Occurrence

/-! ## Full matches -/

namespace Pattern

variable {p : Pattern} {t : Text} {m : Match}

/-- **A full match is an occurrence that is the whole text.** -/
theorem occurrence_of_full? (h : p.full? t = some m) : Occurrence p.regex m 0 t := by
  rw [full?_eq, Option.map_eq_some_iff] at h
  obtain ⟨c, hc, rfl⟩ := h
  obtain ⟨u, hu, -, -, hoccurs⟩ := Occurrence.of_mem_outcomes (List.mem_of_find?_eq_some hc)
  have hend : c.rest = [] := by simpa using List.find?_some hc
  obtain rfl : t = u := by simpa [hend, Place.start] using hu
  exact hoccurs

theorem reads_of_matchesAll (h : p.matchesAll t) : p.regex.Reads t := by
  obtain ⟨m, hm⟩ := Option.isSome_iff_exists.mp h
  exact (occurrence_of_full? hm).reads

theorem full?_eq_none (h : ¬ p.regex.Reads t) : p.full? t = none := by
  cases hm : p.full? t with
  | none => rfl
  | some m => exact absurd (occurrence_of_full? hm).reads h

/-- The texts of two groups, and of a third one if it is among those behind them. -/
theorem text?_of_append {s₁ s₂ : Span} {x y : Text} {z : Option Text} (gs : List (Nat × Span))
    (h : m.groups = gs ++ [(2, s₂), (1, s₁)])
    (hgs : (∀ i < 3, gs.lookup i = none) ∧ (gs.lookup 3).map (·.of t) = z)
    (hx : s₁.of t = x) (hy : s₂.of t = y) :
    m.text? t 1 = some x ∧ m.text? t 2 = some y ∧ m.text? t 3 = z := by
  simp [Match.text?, Match.group?, h, List.lookup_append, hgs, List.lookup_cons, hx, hy]

/-- The texts of two groups. -/
theorem text?_of_pair {s₁ s₂ : Span} {x y : Text} (h : m.groups = [(2, s₂), (1, s₁)])
    (hx : s₁.of t = x) (hy : s₂.of t = y) : m.text? t 1 = some x ∧ m.text? t 2 = some y := by
  have htexts := text?_of_append [] h ⟨fun _ _ => rfl, rfl⟩ hx hy
  exact ⟨htexts.1, htexts.2.1⟩

/-- The texts of three groups. -/
theorem text?_of_groups {s₁ s₂ s₃ : Span} {x y z : Text}
    (h : m.groups = [(3, s₃), (2, s₂), (1, s₁)]) (hx : s₁.of t = x) (hy : s₂.of t = y)
    (hz : s₃.of t = z) : m.text? t 1 = some x ∧ m.text? t 2 = some y ∧ m.text? t 3 = some z := by
  refine text?_of_append [(3, s₃)] h ⟨fun i hi => ?_, congrArg some hz⟩ hx hy
  rw [List.lookup_cons, beq_eq_false_iff_ne.mpr (Nat.ne_of_lt hi)]
  rfl

/-- The characters of a group in a full match. -/
theorem reads_group_of_full? (h : p.full? t = some m) {index : Nat} (hindex : index ≠ 0) {y : Text}
    (hy : m.text? t index = some y) :
    ∃ body, (index, body) ∈ p.regex.bodies ∧ body.Reads y ∧ ∃ x z, t = x ++ (y ++ z) := by
  refine (occurrence_of_full? h).reads_group (a := []) (b := []) hindex ?_
  simpa using hy

/-- **A pattern matches a text if its expression matches all of it, with nothing on either side.** -/
theorem matchesAll_iff : p.matchesAll t ↔ p.regex.ReadsBetween [] t [] := by
  have hstart : (Cursor.start (.start t)).toPlace = .between [] t := rfl
  rw [matchesAll, full?_eq, Option.isSome_map, List.find?_isSome]
  constructor
  · rintro ⟨d, hd, hend⟩
    obtain ⟨u, b, rfl, hplace, hu⟩ := Regex.exists_readsBetween hstart hd
    rw [hplace] at hend
    obtain rfl : b = [] := List.isEmpty_iff.mp hend
    rwa [List.append_nil]
  · intro h
    obtain ⟨d, hd, hplace⟩ := (Regex.exists_outcome_iff (by rwa [List.append_nil])).mpr h
    exact ⟨d, hd, by rw [hplace]; rfl⟩

/-- **A plain pattern matches the texts of its language.** -/
theorem matchesAll_iff_reads (hp : p.regex.isPlain) : p.matchesAll t ↔ p.regex.Reads t :=
  matchesAll_iff.trans ⟨Regex.ReadsBetween.reads, fun h => h.readsBetween hp [] []⟩

end Pattern

/-! ## Matches in a text -/

theorem Place.exists_of_mem_onwardFrom {rest : Text} {pos : Nat} {last : Option Char} {q : Place}
    (h : q ∈ onwardFrom rest pos last) :
    ∃ gap, rest = gap ++ q.rest ∧ q.pos = pos + gap.length := by
  induction rest generalizing pos last with
  | nil =>
    obtain rfl := List.mem_singleton.mp h
    exact ⟨[], rfl, rfl⟩
  | cons x rest ih =>
    rcases List.mem_cons.mp h with rfl | h
    · exact ⟨[], rfl, rfl⟩
    · obtain ⟨gap, rfl, hpos⟩ := ih h
      exact ⟨x :: gap, rfl, by rw [hpos, List.length_cons]; omega⟩

/-- The matches are occurrences in a text, which starts at character number `pos`, and follow each
other. -/
inductive Pieces (r : Regex) : (pos : Nat) → (rest : Text) → List Match → Prop where
  | nil {pos : Nat} {rest : Text} : Pieces r pos rest []
  | cons {pos : Nat} {gap u b : Text} {m : Match} {ms : List Match} :
      Occurrence r m (pos + gap.length) u → Pieces r (pos + gap.length + u.length) b ms →
      Pieces r pos (gap ++ (u ++ b)) (m :: ms)

namespace Pieces

variable {r : Regex} {pos : Nat} {rest : Text} {ms : List Match}

/-- A character more in front of the first match. -/
theorem cons_rest (h : Pieces r (pos + 1) rest ms) (x : Char) : Pieces r pos (x :: rest) ms := by
  cases h with
  | nil => exact .nil
  | @cons _ gap u b m ms hm hms =>
    have hpos : pos + 1 + gap.length = pos + (x :: gap).length := by
      rw [List.length_cons]
      omega
    rw [hpos] at hm hms
    change Pieces r pos ((x :: gap) ++ (u ++ b)) (m :: ms)
    exact .cons hm hms

theorem exists_occurrence (h : Pieces r pos rest ms) {m : Match} (hm : m ∈ ms) :
    ∃ a u b, rest = a ++ (u ++ b) ∧ Occurrence r m (pos + a.length) u := by
  induction h with
  | nil => cases hm
  | @cons pos gap u b m' ms hoccurs _ ih =>
    rcases List.mem_cons.mp hm with rfl | hm
    · exact ⟨gap, u, b, rfl, hoccurs⟩
    · obtain ⟨a, u', b', rfl, hoccurs'⟩ := ih hm
      refine ⟨gap ++ (u ++ a), u', b', by simp, ?_⟩
      have hpos : pos + (gap ++ (u ++ a)).length = pos + gap.length + u.length + a.length := by
        simp only [List.length_append]
        omega
      rwa [hpos]

end Pieces

namespace Pattern

variable {p : Pattern} {t : Text}

theorem occurrence_of_leftmost? {q : Place} {c : Cursor} (h : p.automaton.leftmost? q = some c) :
    ∃ gap u, q.rest = gap ++ (u ++ c.rest) ∧ c.origin = q.pos + gap.length ∧
      c.pos = q.pos + gap.length + u.length ∧
      Occurrence p.regex (.ofCursor c) (q.pos + gap.length) u := by
  rw [p.automaton_eq, Automaton.leftmost?_eq] at h
  simp only [Regex.outcomes_automaton] at h
  obtain ⟨q', hq', hc⟩ := List.mem_flatMap.mp (List.mem_of_head? h)
  obtain ⟨gap, hgap, hpos⟩ := Place.exists_of_mem_onwardFrom hq'
  obtain ⟨u, hu, horigin, hcpos, hoccurs⟩ := Occurrence.of_mem_outcomes hc
  rw [hpos] at horigin hcpos hoccurs
  exact ⟨gap, u, hgap.trans (by rw [hu]), horigin, hcpos, hoccurs⟩

theorem pieces_findAllFrom (fuel : Nat) (q : Place) :
    Pieces p.regex q.pos q.rest (p.findAllFrom fuel q) := by
  induction fuel generalizing q with
  | zero => exact .nil
  | succ fuel ih =>
    rw [findAllFrom]
    split
    · exact .nil
    · rename_i c hc
      obtain ⟨gap, u, hrest, horigin, hpos, hoccurs⟩ := occurrence_of_leftmost? hc
      rw [hrest]
      refine .cons hoccurs ?_
      rw [← hpos]
      -- behind an empty match the search goes on one character later
      by_cases hempty : c.pos = c.origin
      · simp only [hempty, if_true]
        cases hnext : c.rest with
        | nil =>
          simp only [Place.next?, hnext, Option.map_none, Option.getD_none]
          exact .nil
        | cons x rest =>
          simp only [Place.next?, hnext, Option.map_some, Option.getD_some]
          have hlater := ih (c.toPlace.read x rest)
          rw [← hempty]
          exact hlater.cons_rest x
      · simp only [hempty, if_false, Option.map_some, Option.getD_some]
        exact ih c.toPlace

/-- **The matches in a text are occurrences that follow each other.** -/
theorem pieces_findAll (p : Pattern) (t : Text) : Pieces p.regex 0 t (p.findAll t) :=
  pieces_findAllFrom _ (.start t)

theorem occurrence_of_mem_findAll {m : Match} (h : m ∈ p.findAll t) :
    ∃ a u b, t = a ++ (u ++ b) ∧ Occurrence p.regex m a.length u := by
  obtain ⟨a, u, b, ht, hoccurs⟩ := (p.pieces_findAll t).exists_occurrence h
  rw [Nat.zero_add] at hoccurs
  exact ⟨a, u, b, ht, hoccurs⟩

end Pattern

/-! ## Replacements -/

namespace Match

variable {r : Regex} {f : Text → Text}

/-- A replacement keeps the gap in front of a match and replaces its characters. -/
theorem replaceFrom_cons {pos : Nat} {gap u b : Text} {m : Match}
    (h : Occurrence r m (pos + gap.length) u) (ms : List Match) :
    replaceFrom f (gap ++ (u ++ b)) pos (m :: ms) =
      gap ++ f u ++ replaceFrom f b (pos + gap.length + u.length) ms := by
  have hgap : pos + gap.length - pos = gap.length := by omega
  have hlength : Span.length ⟨pos + gap.length, pos + gap.length + u.length⟩ = u.length := by
    exact Nat.add_sub_cancel_left _ _
  simp [replaceFrom, h.span_eq, hgap, hlength]

end Match

/-- A text with the pieces that are replaced in it, in order, and what comes of it: every character
outside of the pieces is kept. -/
inductive Replaces (r : Regex) (f : Text → Text) : (t : Text) → List Text → (t' : Text) → Prop where
  | nil : Replaces r f [] [] []
  | keep {x : Char} {t t' : Text} {us : List Text} : Replaces r f t us t' →
      Replaces r f (x :: t) us (x :: t')
  | piece {u v v' : Text} {us : List Text} : r.Reads u → Replaces r f v us v' →
      Replaces r f (u ++ v) (u :: us) (f u ++ v')

namespace Replaces

variable {r : Regex} {f : Text → Text} {t t' : Text} {us : List Text}

theorem keepAll (h : Replaces r f t us t') (gap : Text) :
    Replaces r f (gap ++ t) us (gap ++ t') := by
  induction gap with
  | nil => exact h
  | cons x gap ih => exact ih.keep

theorem of_pieces (before : Text) {rest : Text} {ms : List Match} {pos : Nat}
    (hms : Pieces r pos rest ms) (hpos : pos = before.length) :
    Replaces r f rest (ms.map (·.text (before ++ rest))) (Match.replaceFrom f rest pos ms) := by
  induction hms generalizing before with
  | @nil pos rest => simpa [Match.replaceFrom] using Replaces.nil.keepAll rest
  | @cons pos gap u b m ms hm _ ih =>
    have htext : m.text (before ++ (gap ++ (u ++ b))) = u := by
      rw [hpos, ← List.length_append] at hm
      rw [← List.append_assoc]
      exact hm.text_eq
    have hrest := ih (before ++ (gap ++ u)) (by
      simp only [hpos, List.length_append, Nat.add_assoc])
    have hwhole : before ++ (gap ++ u) ++ b = before ++ (gap ++ (u ++ b)) := by simp
    rw [Match.replaceFrom_cons hm, List.map_cons, htext, List.append_assoc]
    rw [hwhole] at hrest
    exact (hrest.piece hm.reads).keepAll gap

theorem reads (h : Replaces r f t us t') {u : Text} (hu : u ∈ us) : r.Reads u := by
  induction h with
  | nil => cases hu
  | keep _ ih => exact ih hu
  | piece hread _ ih =>
    rcases List.mem_cons.mp hu with rfl | hu
    · exact hread
    · exact ih hu

/-- A character that comes of a text is one of the text or of what a piece is replaced by. -/
theorem mem_or (h : Replaces r f t us t') {x : Char} (hx : x ∈ t') :
    x ∈ t ∨ ∃ u, (∀ y ∈ u, y ∈ t) ∧ x ∈ f u := by
  induction h with
  | nil => exact .inl hx
  | @keep y t t' us _ ih =>
    rcases List.mem_cons.mp hx with rfl | hx
    · exact .inl (List.mem_cons_self ..)
    · refine (ih hx).imp (List.mem_cons_of_mem _) ?_
      rintro ⟨u, hu, hx⟩
      exact ⟨u, fun y hy => List.mem_cons_of_mem _ (hu y hy), hx⟩
  | @piece u v v' us _ _ ih =>
    rcases List.mem_append.mp hx with hx | hx
    · exact .inr ⟨u, fun y hy => List.mem_append_left _ hy, hx⟩
    · refine (ih hx).imp (List.mem_append_right _) ?_
      rintro ⟨w, hw, hx⟩
      exact ⟨w, fun y hy => List.mem_append_right _ (hw y hy), hx⟩

section Hom

variable {β : Type} {h : Text → List β}

/-- What is kept of every piece is kept of the whole text. -/
theorem eq_of_hom (hreplaces : Replaces r f t us t') (hadd : ∀ a b, h (a ++ b) = h a ++ h b)
    (hf : ∀ u ∈ us, h (f u) = h u) : h t' = h t := by
  induction hreplaces with
  | nil => rfl
  | @keep x t t' us _ ih =>
    rw [← List.singleton_append, hadd, ih hf, ← hadd]
    rfl
  | @piece u v v' us _ _ ih =>
    rw [List.forall_mem_cons] at hf
    rw [hadd, hadd, ih hf.2, hf.1]

/-- If nothing comes to a piece, all of the text is kept exactly if all of each piece is. -/
theorem eq_iff_of_hom (hreplaces : Replaces r f t us t') (hadd : ∀ a b, h (a ++ b) = h a ++ h b)
    (hf : ∀ u, r.Reads u → (h (f u)).length ≤ (h u).length) :
    (h t').length ≤ (h t).length ∧ (h t' = h t ↔ ∀ u ∈ us, h (f u) = h u) := by
  induction hreplaces with
  | nil => simp
  | @keep x t t' us _ ih =>
    have hcons : ∀ s, h (x :: s) = h [x] ++ h s := fun s => hadd [x] s
    rw [hcons t, hcons t', List.append_cancel_left_eq, List.length_append, List.length_append]
    exact ⟨Nat.add_le_add_left ih.1 _, ih.2⟩
  | @piece u v v' us hread _ ih =>
    have hle := hf u hread
    have hrest := ih.1
    rw [hadd, hadd, List.forall_mem_cons, ← ih.2, List.length_append, List.length_append]
    refine ⟨Nat.add_le_add hle hrest, fun heq => ?_, fun heq => by rw [heq.1, heq.2]⟩
    -- both parts have become shorter, and none of them is
    have hlength := congrArg List.length heq
    rw [List.length_append, List.length_append] at hlength
    exact List.append_inj heq (by omega)

end Hom

/-- A character that comes of no piece is one of the text, and the parts of the text around it are
replaced each for itself. -/
theorem exists_append_cons {a' b' : Text} {c : Char} (h : Replaces r f t us t')
    (hc : ∀ u ∈ us, c ∉ f u) (ht' : t' = a' ++ c :: b') :
    ∃ a b us₁ us₂, t = a ++ c :: b ∧ us = us₁ ++ us₂ ∧ Replaces r f a us₁ a' ∧
      Replaces r f b us₂ b' := by
  induction h generalizing a' with
  | nil => simp at ht'
  | @keep x t t' us h ih =>
    cases a' with
    | nil =>
      obtain ⟨rfl, rfl⟩ := List.cons.inj ht'
      exact ⟨[], t, [], us, rfl, rfl, .nil, h⟩
    | cons y a' =>
      obtain ⟨rfl, htail⟩ := List.cons.inj ht'
      obtain ⟨a, b, us₁, us₂, rfl, rfl, ha, hb⟩ := ih hc htail
      exact ⟨x :: a, b, us₁, us₂, rfl, rfl, ha.keep, hb⟩
  | @piece u v v' us hread _ ih =>
    rw [List.forall_mem_cons] at hc
    obtain ⟨z, rfl, hv'⟩ := Text.exists_of_not_mem_left ht'.symm hc.1
    obtain ⟨a, b, us₁, us₂, rfl, rfl, ha, hb⟩ := ih hc.2 hv'
    exact ⟨u ++ a, b, u :: us₁, us₂, by simp, rfl, ha.piece hread, hb⟩

end Replaces

/-- **The replacement of all matches replaces the texts of the matches.** -/
theorem Pattern.replaces (p : Pattern) (f : Text → Text) (t : Text) :
    Replaces p.regex f t ((p.findAll t).map (·.text t)) (p.replaceAll f t) :=
  .of_pieces [] (p.pieces_findAll t) rfl

end Snippet
