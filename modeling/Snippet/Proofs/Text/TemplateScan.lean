import Mathlib.Data.List.Forall2
import Mathlib.Logic.Relation
import Snippet.Proofs.Text.Template

/-!
# A template is scanned once

A template is taken apart in exactly one way into literals in which no placeholder starts,
placeholders with a literal on both sides, and perhaps the start of a placeholder that is never
closed (`IsDecomposition`). Rendering puts the texts of these parts together: a literal is kept, and
a placeholder is filled with the first value that is listed under its key (`Fills`).

A scan keeps what it has written apart from what is left to read (`Scan`). A round takes the front
off the rest and writes what it is rendered as (`Scan.next?_eq`). So the rest is always an end of
the template, and the ends that are read are the same for all values (`Scan.Reaches.with_values`).
-/

namespace Snippet.Template

variable {t u v key : Text} {values : List (Text × Text)} {segs : List Segment}

/-! ## The parts of a template -/

/-- The part of the template that a segment is read from. -/
def Segment.source : Segment → Text
  | .literal t => t
  | .placeholder key => Template.placeholder key
  | .unclosed t => opening ++ t

/-- A list of segments that a template is taken apart into: literals in which no placeholder starts,
with placeholders between them whose keys end at the first closing brace, and at the end perhaps a
start without a closing brace behind it. -/
inductive IsDecomposition : List Segment → Prop where
  | literal {t : Text} : ¬ opening <:+: t → IsDecomposition [.literal t]
  | unclosed {t v : Text} : ¬ opening <:+: t → '\x7d' ∉ v →
      IsDecomposition [.literal t, .unclosed v]
  | placeholder {t key : Text} {segs : List Segment} : ¬ opening <:+: t → '\x7d' ∉ key →
      IsDecomposition segs → IsDecomposition (.literal t :: .placeholder key :: segs)

theorem find?_opening_eq_none_iff : Text.find? opening t = none ↔ ¬ opening <:+: t := by
  rw [Text.find?_eq_none_iff]
  refine ⟨?_, fun h a b heq => h ⟨a, b, by simp [heq]⟩⟩
  rintro h ⟨a, b, heq⟩
  exact h a b (by simp [← heq])

/-- In front of the first start of a placeholder there is none. -/
theorem not_infix_of_find? (h : Text.find? opening t = some (u, v)) : ¬ opening <:+: u :=
  find?_opening_eq_none_iff.mp (Text.find?_eq_none_of_find? h (by simp [opening]))

/-- **A template is taken apart into its segments.** -/
theorem isDecomposition_segments (t : Text) :
    IsDecomposition (segments t) ∧ (segments t).flatMap Segment.source = t := by
  induction hn : t.length using Nat.strongRecOn generalizing t with
  | ind n ih =>
    rcases segments_cases t with ⟨hfind, hsegments⟩ | ⟨u, key, rest, hfind, hkey, hsegments⟩ |
      ⟨u, v, hfind, hv, hsegments⟩
    · rw [hsegments]
      exact ⟨.literal (find?_opening_eq_none_iff.mp hfind), by simp [Segment.source]⟩
    · have htext : t = u ++ (placeholder key ++ rest) := by
        simpa [placeholder, closing] using Text.eq_append_of_find? hfind
      have hlength : rest.length < n := by
        rw [← hn, htext]
        simp [placeholder, opening]
        omega
      obtain ⟨hrest, hsource⟩ := ih _ hlength rest rfl
      rw [hsegments]
      refine ⟨.placeholder (not_infix_of_find? hfind) hkey hrest, ?_⟩
      rw [List.flatMap_cons, List.flatMap_cons, hsource]
      exact htext.symm
    · have htext : t = u ++ (opening ++ v) := by simpa using Text.eq_append_of_find? hfind
      rw [hsegments]
      exact ⟨.unclosed (not_infix_of_find? hfind) hv, by simp [Segment.source, htext]⟩

/-- **There is no other way to take a template apart.** -/
theorem IsDecomposition.segments_eq (h : IsDecomposition segs) :
    segments (segs.flatMap Segment.source) = segs := by
  induction h with
  | @literal t ht =>
    rw [List.flatMap_singleton]
    exact segments_eq_of_find?_eq_none (find?_opening_eq_none_iff.mpr ht)
  | @unclosed t v ht hv =>
    have hfind := find?_opening_append (find?_opening_eq_none_iff.mpr ht) v
    have hsource : [.literal t, .unclosed v].flatMap Segment.source = t ++ (opening ++ v) := by
      simp [Segment.source]
    rw [hsource, segments_eq_unclosed hfind hv]
  | @placeholder t key segs ht hkey _ ih =>
    have hfind := find?_opening_append (find?_opening_eq_none_iff.mpr ht)
      (key ++ '\x7d' :: segs.flatMap Segment.source)
    have hsource : (.literal t :: .placeholder key :: segs).flatMap Segment.source =
        t ++ (opening ++ (key ++ '\x7d' :: segs.flatMap Segment.source)) := by
      simp [Segment.source, Template.placeholder, closing]
    rw [hsource, segments_eq_cons hfind hkey rfl, ih]

/-! ## What the parts are filled with -/

/-- The text that is put in for a segment. -/
inductive Fills (values : List (Text × Text)) : Segment → Text → Prop where
  | literal (t : Text) : Fills values (.literal t) t
  /-- The first value that is listed under the key. -/
  | listed {key value : Text} {before after : List (Text × Text)} :
      values = before ++ (key, value) :: after → (∀ p ∈ before, p.1 ≠ key) →
      Fills values (.placeholder key) value
  | unlisted {key : Text} : (∀ p ∈ values, p.1 ≠ key) → Fills values (.placeholder key) []
  | unclosed (t : Text) : Fills values (.unclosed t) (opening ++ t)

theorem fills_render (values : List (Text × Text)) (s : Segment) :
    Fills values s (s.render values) := by
  cases s with
  | literal t => exact .literal t
  | unclosed t => exact .unclosed t
  | placeholder key =>
    rw [Segment.render]
    cases h : values.lookup key with
    | none =>
      exact .unlisted fun p hp => (bne_iff_ne.mp (List.lookup_eq_none_iff.mp h p hp)).symm
    | some value =>
      obtain ⟨before, after, hvalues, hbefore⟩ := List.lookup_eq_some_iff.mp h
      exact .listed hvalues fun p hp => (bne_iff_ne.mp (hbefore p hp)).symm

/-- What is put in for each segment is all that a rendered template consists of. -/
theorem forall₂_fills (values : List (Text × Text)) (segs : List Segment) :
    List.Forall₂ (Fills values) segs (segs.map (Segment.render values)) := by
  rw [List.forall₂_map_right_iff, List.forall₂_same]
  exact fun s _ => fills_render values s

/-! ## The scan -/

/-- A scan on its way: what it has written, and what is left of the template. -/
structure Scan where
  out : Text
  rest : Text

/-- One round of a scan; none, if no placeholder starts in what is left. -/
def Scan.next? (values : List (Text × Text)) (s : Scan) : Option Scan :=
  match Text.find? opening s.rest with
  | none => none
  | some (lit, after) =>
    match Text.find? closing after with
    | none => some ⟨s.out ++ (lit ++ (opening ++ after)), []⟩
    | some (key, rest) => some ⟨s.out ++ (lit ++ (values.lookup key).getD []), rest⟩

/-- The part of a template that a round reads, and the rest. No value has a part in this. -/
def splitFront? (t : Text) : Option (Text × Text) :=
  match Text.find? opening t with
  | none => none
  | some (lit, after) =>
    match Text.find? closing after with
    | none => some (lit ++ (opening ++ after), [])
    | some (key, rest) => some (lit ++ placeholder key, rest)

/-- What a round reads: all up to the end of the first placeholder, or all that is left. -/
theorem splitFront?_cases (t : Text) :
    (Text.find? opening t = none ∧ splitFront? t = none) ∨
    (∃ lit key rest, Text.find? opening t = some (lit, key ++ '\x7d' :: rest) ∧ '\x7d' ∉ key ∧
      Text.find? closing (key ++ '\x7d' :: rest) = some (key, rest) ∧
      splitFront? t = some (lit ++ placeholder key, rest)) ∨
    ∃ lit after, Text.find? opening t = some (lit, after) ∧ '\x7d' ∉ after ∧
      Text.find? closing after = none ∧ splitFront? t = some (lit ++ (opening ++ after), []) := by
  rw [splitFront?]
  cases hfind : Text.find? opening t with
  | none => exact .inl ⟨rfl, rfl⟩
  | some p =>
    obtain ⟨lit, v⟩ := p
    by_cases hv : '\x7d' ∈ v
    · obtain ⟨key, rest, rfl, hkey⟩ := List.eq_append_cons_of_mem hv
      have hclosing : Text.find? closing (key ++ '\x7d' :: rest) = some (key, rest) :=
        Text.find?_singleton_append hkey rest
      exact .inr (.inl ⟨lit, key, rest, rfl, hkey, hclosing, by simp only [hclosing]⟩)
    · have hclosing : Text.find? closing v = none := Text.find?_singleton_eq_none_iff.mpr hv
      exact .inr (.inr ⟨lit, v, rfl, hv, hclosing, by simp only [hclosing]⟩)

theorem render_front (ht : Text.find? opening t = none) (hkey : '\x7d' ∉ key) :
    render (t ++ placeholder key) values = t ++ (values.lookup key).getD [] := by
  have hfind := find?_opening_append ht (key ++ '\x7d' :: [])
  have hnil : render [] values = [] := render_eq_of_find?_eq_none rfl
  rw [placeholder, closing, render_eq_append hfind hkey, hnil, List.append_nil]

theorem render_unclosed (ht : Text.find? opening t = none) (hv : '\x7d' ∉ v) :
    render (t ++ (opening ++ v)) values = t ++ (opening ++ v) := by
  simp [render, segments_eq_unclosed (find?_opening_append ht v) hv, Segment.render]

theorem render_eq_of_splitFront? (h : splitFront? t = some (u, v))
    (values : List (Text × Text)) :
    t = u ++ v ∧ u ≠ [] ∧ render t values = render u values ++ render v values := by
  rcases splitFront?_cases t with ⟨-, hsplit⟩ | ⟨lit, key, rest, hfind, hkey, -, hsplit⟩ |
    ⟨lit, after, hfind, hafter, -, hsplit⟩
  · rw [hsplit] at h
    cases h
  · rw [hsplit] at h
    cases h
    have hlit := Text.find?_eq_none_of_find? hfind (by simp [opening])
    refine ⟨by simpa [placeholder, closing] using Text.eq_append_of_find? hfind,
      by simp [placeholder, opening], ?_⟩
    rw [render_front hlit hkey, render_eq_append hfind hkey, List.append_assoc]
  · rw [hsplit] at h
    cases h
    have htext : t = lit ++ (opening ++ after) := by simpa using Text.eq_append_of_find? hfind
    have hnil : render [] values = [] := render_eq_of_find?_eq_none rfl
    refine ⟨by rw [htext, List.append_nil], by simp [opening], ?_⟩
    rw [hnil, List.append_nil, htext]

namespace Scan

variable {s s' : Scan}

/-- **A round writes what the front is rendered as**, and what it reads does not depend on the
values. -/
theorem next?_eq (values : List (Text × Text)) (s : Scan) :
    s.next? values = (splitFront? s.rest).map fun p => ⟨s.out ++ render p.1 values, p.2⟩ := by
  rw [next?]
  rcases splitFront?_cases s.rest with ⟨hfind, hsplit⟩ |
    ⟨lit, key, rest, hfind, hkey, hclosing, hsplit⟩ | ⟨lit, after, hfind, hafter, hclosing, hsplit⟩
  · simp only [hfind, hsplit, Option.map_none]
  · have hlit := Text.find?_eq_none_of_find? hfind (by simp [opening])
    simp only [hfind, hclosing, hsplit, Option.map_some, render_front hlit hkey]
  · have hlit := Text.find?_eq_none_of_find? hfind (by simp [opening])
    simp only [hfind, hclosing, hsplit, Option.map_some, render_unclosed hlit hafter]

/-- One scan goes on to another in rounds. -/
def Reaches (values : List (Text × Text)) : Scan → Scan → Prop :=
  Relation.ReflTransGen fun s s' => s.next? values = some s'

/-- The parts of a round. -/
theorem exists_of_next? (h : s.next? values = some s') : ∃ front, splitFront? s.rest =
    some (front, s'.rest) ∧ s'.out = s.out ++ render front values := by
  rw [next?_eq] at h
  obtain ⟨⟨front, rest⟩, hsplit, rfl⟩ := Option.map_eq_some_iff.mp h
  exact ⟨front, hsplit, rfl⟩

/-- **A round keeps what is rendered**, and leaves a shorter end of the template. -/
theorem render_of_next? (h : s.next? values = some s') :
    s'.out ++ render s'.rest values = s.out ++ render s.rest values ∧ s'.rest <:+ s.rest ∧
      s'.rest.length < s.rest.length := by
  obtain ⟨front, hsplit, hout⟩ := exists_of_next? h
  obtain ⟨htext, hne, hrender⟩ := render_eq_of_splitFront? hsplit values
  refine ⟨?_, ⟨front, htext.symm⟩, ?_⟩
  · rw [hout, hrender, List.append_assoc]
  · have hpos := List.length_pos_iff.mpr hne
    rw [htext, List.length_append]
    omega

/-- **A scan ends**: there is no endless sequence of rounds. -/
theorem wellFounded_next (values : List (Text × Text)) :
    WellFounded fun s' s : Scan => s.next? values = some s' :=
  Subrelation.wf (fun h => (render_of_next? h).2.2) (measure fun s : Scan => s.rest.length).wf

theorem Reaches.render_eq (h : Reaches values s s') :
    s'.out ++ render s'.rest values = s.out ++ render s.rest values ∧ s'.rest <:+ s.rest := by
  induction h with
  | refl => exact ⟨rfl, List.suffix_refl _⟩
  | tail _ hnext ih =>
    obtain ⟨hrender, hsuffix, -⟩ := render_of_next? hnext
    exact ⟨hrender.trans ih.1, hsuffix.trans ih.2⟩

/-- **With other values the same ends of the template are read.** -/
theorem Reaches.with_values (h : Reaches values s s') (values' : List (Text × Text)) (out : Text) :
    ∃ out', Reaches values' ⟨out, s.rest⟩ ⟨out', s'.rest⟩ := by
  induction h with
  | refl => exact ⟨out, .refl⟩
  | @tail s₁ s₂ _ hnext ih =>
    obtain ⟨out', hreaches⟩ := ih
    obtain ⟨front, hsplit, -⟩ := exists_of_next? hnext
    refine ⟨out' ++ render front values', hreaches.tail ?_⟩
    rw [next?_eq, hsplit]
    rfl

theorem exists_end (values : List (Text × Text)) (s : Scan) :
    ∃ s', Reaches values s s' ∧ s'.next? values = none := by
  induction s using (wellFounded_next values).induction with
  | _ s ih =>
    cases hnext : s.next? values with
    | none => exact ⟨s, .refl, hnext⟩
    | some s₁ =>
      obtain ⟨s', hreaches, hend⟩ := ih s₁ hnext
      exact ⟨s', .head hnext hreaches, hend⟩

/-- Where a scan ends, the rest is kept. -/
theorem render_of_next?_eq_none (h : s.next? values = none) : render s.rest values = s.rest := by
  rw [next?_eq, Option.map_eq_none_iff] at h
  rcases splitFront?_cases s.rest with ⟨hfind, -⟩ | ⟨_, _, _, _, _, _, hsplit⟩ |
    ⟨_, _, _, _, _, hsplit⟩
  · exact render_eq_of_find?_eq_none hfind
  · rw [hsplit] at h
    cases h
  · rw [hsplit] at h
    cases h

end Scan

/-- **A template is rendered in a single pass over its segments.** There is exactly one way to take
it apart. It is rendered as what the parts are filled with, one behind the other. The scan ends,
with the rendered template as what it has written and what is left; all that it reads on its way are
ends of the template, the same ones for all values. -/
theorem render_single_pass (t : Text) (values : List (Text × Text)) :
    (∃! segs, IsDecomposition segs ∧ segs.flatMap Segment.source = t) ∧
    (∀ segs, IsDecomposition segs → segs.flatMap Segment.source = t →
      ∃ texts, List.Forall₂ (Fills values) segs texts ∧ render t values = texts.flatten) ∧
    (∀ s, Scan.Reaches values ⟨[], t⟩ s → s.rest <:+ t ∧
      ∀ values', ∃ out, Scan.Reaches values' ⟨[], t⟩ ⟨out, s.rest⟩) ∧
    (WellFounded fun s' s : Scan => s.next? values = some s') ∧
    ∃ s, Scan.Reaches values ⟨[], t⟩ s ∧ s.next? values = none ∧
      render t values = s.out ++ s.rest := by
  refine ⟨⟨segments t, isDecomposition_segments t, ?_⟩, ?_, fun s h => ?_,
    Scan.wellFounded_next values, ?_⟩
  · rintro segs ⟨hsegs, rfl⟩
    exact hsegs.segments_eq.symm
  · rintro segs hsegs rfl
    refine ⟨_, forall₂_fills values segs, ?_⟩
    rw [render, hsegs.segments_eq, List.flatMap_def]
  · exact ⟨h.render_eq.2, fun values' => h.with_values values' []⟩
  · obtain ⟨s, hreaches, hend⟩ := Scan.exists_end values ⟨[], t⟩
    refine ⟨s, hreaches, hend, ?_⟩
    have hrender := hreaches.render_eq.1
    rw [Scan.render_of_next?_eq_none hend] at hrender
    exact hrender.symm

/-- A value that is a placeholder itself is put in as it is. -/
theorem render_single_pass_placeholder_value :
    let values := [("q".toList, "$\x7bq\x7d".toList)]
    let segs := [.literal "<".toList, .placeholder "q".toList, .literal ">".toList]
    IsDecomposition segs ∧
      ∃ texts, List.Forall₂ (Fills values) segs texts ∧
        render "<$\x7bq\x7d>".toList values = texts.flatten ∧
        texts.flatten = "<$\x7bq\x7d>".toList := by
  have hsegs : IsDecomposition
      [.literal "<".toList, .placeholder "q".toList, .literal ">".toList] :=
    .placeholder (by decide) (by decide) (.literal (by decide))
  obtain ⟨texts, hfills, hrender⟩ := (render_single_pass "<$\x7bq\x7d>".toList
    [("q".toList, "$\x7bq\x7d".toList)]).2.1 _ hsegs rfl
  refine ⟨hsegs, texts, hfills, hrender, ?_⟩
  have hsegments : segments "<$\x7bq\x7d>".toList = _ := hsegs.segments_eq
  rw [← hrender, render, hsegments]
  rfl

end Snippet.Template
