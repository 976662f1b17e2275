import Snippet.Proofs.Calendar.RangeYears
import Snippet.Proofs.Calendar.TokenSpans
import Snippet.Proofs.Text.Phrase

/-!
# What joins the dates of a range

The cue of a range is looked for in the whole text, apart from the dates. No word for it begins in a
date (`DateRange.exists_append_of_cueWord`) or ends there (`DateRange.hasCue_append_of_startsItem`).
So a text with two dates has a range exactly if a cue stands between them, before or behind both of
them, or if one of them is written with hyphens (`DateRange.ofText?_eq_some_iff`).
-/

namespace Snippet

open Pattern

namespace DateToken

variable {t u v : Text} {token : DateToken}

/-! ## Tokens are made of items -/

theorem isLower_of_mem_monthStems : ∀ l ∈ Calendar.monthStems, ∀ c ∈ l, c.isLower := by
  simp [Calendar.monthStems, Calendar.monthNames]

theorem isEdgePunctuation_foldCase {c : Char} (h : isEdgePunctuation c) :
    Text.isDigit c = false ∧ (Text.foldCase c).isLower = false := by
  have hall : ∀ c ∈ ",;:()[]\x7b\x7d\"'.".toList,
      Text.isDigit c = false ∧ (Text.foldCase c).isLower = false := by
    decide
  exact hall c (List.contains_iff_mem.mp h)

/-- An item does not depend on the punctuation behind it. -/
theorem StartsItem.of_append_punctuation (h : StartsItem (u ++ v))
    (hv : ∀ c ∈ v, isEdgePunctuation c) : StartsItem u := by
  rcases h with ⟨c, w, heq, hc⟩ | ⟨l, hl, hopens⟩
  · cases u with
    | nil =>
      rw [List.nil_append] at heq
      rw [(isEdgePunctuation_foldCase (hv c (by simp [heq]))).1] at hc
      cases hc
    | cons d u =>
      obtain ⟨rfl, -⟩ := List.cons.inj heq
      exact .inl ⟨d, u, rfl, hc⟩
  · rw [List.map_append] at hopens
    refine .inr ⟨l, hl, ?_⟩
    obtain ⟨w, hw⟩ := hopens
    rcases List.append_eq_append_iff.mp hw with ⟨z, hz, -⟩ | ⟨z, hz, hzv⟩
    · exact ⟨z, hz.symm⟩
    · cases z with
      | nil => exact ⟨[], by simpa using hz⟩
      | cons e z =>
        -- the stem would go on with a punctuation mark
        have hlower := isLower_of_mem_monthStems l hl e (by simp [hz])
        obtain ⟨c, hc, rfl⟩ := List.mem_map.mp (show e ∈ v.map Text.foldCase by simp [hzv])
        rw [(isEdgePunctuation_foldCase (hv c hc)).2] at hlower
        cases hlower

theorem isWhite_eq_false_of_isEdgePunctuation {c : Char} (h : isEdgePunctuation c) :
    Text.isWhite c = false := by
  have hall : ∀ c ∈ ",;:()[]\x7b\x7d\"'.".toList, Text.isWhite c = false := by decide
  exact hall c (List.contains_iff_mem.mp h)

theorem Spaced.of_append_punctuation (h : Spaced (u ++ v)) (hv : ∀ c ∈ v, isEdgePunctuation c) :
    Spaced u := by
  induction u with
  | nil => trivial
  | cons c u ih =>
    refine ⟨fun hc => ?_, ih h.2⟩
    rcases h.1 hc with ⟨d, w, heq, hd⟩ | hitem
    · cases u with
      | nil =>
        have hmem : d ∈ v := by
          rw [show v = d :: w from heq]
          exact List.mem_cons_self ..
        rw [isWhite_eq_false_of_isEdgePunctuation (hv d hmem)] at hd
        cases hd
      | cons e u =>
        obtain ⟨rfl, -⟩ := List.cons.inj heq
        exact .inl ⟨e, u, rfl, hd⟩
    · exact .inr (hitem.of_append_punctuation hv)

/-- A candidate is made of items between white space. -/
theorem items_of_mem_candidates (h : token ∈ candidates t) :
    StartsItem token.text ∧ Spaced token.text := by
  obtain ⟨a, v, b, -, -, ⟨p, hp, hread⟩, hv, -⟩ := exists_trims h
  obtain ⟨hitem, hspaced⟩ := items_of_reads hp hread
  exact ⟨hitem.of_append_punctuation hv, hspaced.of_append_punctuation hv⟩

/-- The only dash in a candidate is the hyphen. -/
theorem eq_hyphen_of_mem_candidates (h : token ∈ candidates t) {c : Char} (hc : c ∈ token.text)
    (hdash : DateRange.isDash c) : c = '-' := by
  have hdashes : ∀ c ∈ ['–', '—'], ¬ (Text.isDigit c ∨ c ∈ dateSeparators) ∧ ¬ IsTextTokenChar c := by
    simp only [IsTextTokenChar]
    decide
  obtain ⟨a, v, b, -, -, ⟨p, hp, hread⟩, -, -⟩ := exists_trims h
  have hmem := List.mem_append_left v hc
  rcases List.mem_cons.mp (mem_of_isDash hdash) with rfl | hlong
  · rfl
  · exfalso
    simp only [List.mem_cons, List.not_mem_nil, or_false] at hp
    rcases hp with rfl | rfl | rfl
    · exact (hdashes c hlong).1 (hread.forall_mem (numericToken_over _ (by simp)) c hmem)
    · exact (hdashes c hlong).1 (hread.forall_mem (numericToken_over _ (by simp)) c hmem)
    · exact (hdashes c hlong).2 (hread.forall_mem textToken_over c hmem)

end DateToken

namespace DateRange

open DateToken

variable {t u v y z a b m cue : Text}

/-! ## Cues of a text -/

theorem hasCue_iff : hasCue t ↔
    (∃ a m b, t = a ++ (m ++ b) ∧ Text.lower m ∈ cueWords) ∨ ∃ c ∈ t, isDash c := by
  have hphrase : ∀ w, Text.hasPhrase w (Text.lower t) ↔
      ∃ a m b, t = a ++ (m ++ b) ∧ Text.lower m = w := by
    intro w
    rw [Text.hasPhrase_iff, Text.lower]
    constructor
    · rintro ⟨a, b, h⟩
      obtain ⟨a', r, rfl, -, hr⟩ := List.map_eq_append_iff.mp h
      obtain ⟨m, b', rfl, hm, -⟩ := List.map_eq_append_iff.mp hr
      exact ⟨a', m, b', rfl, hm⟩
    · rintro ⟨a, m, b, rfl, rfl⟩
      exact ⟨Text.lower a, Text.lower b, by simp [Text.lower]⟩
  rw [hasCue, Bool.or_eq_true, List.any_eq_true, List.any_eq_true]
  refine or_congr ⟨?_, ?_⟩ Iff.rfl
  · rintro ⟨w, hw, h⟩
    obtain ⟨a, m, b, heq, rfl⟩ := (hphrase w).mp h
    exact ⟨a, m, b, heq, hw⟩
  · rintro ⟨a, m, b, heq, hm⟩
    exact ⟨_, hm, (hphrase _).mpr ⟨a, m, b, heq, rfl⟩⟩

theorem hasCue_append_left (h : hasCue u) (v : Text) : hasCue (u ++ v) := by
  rw [hasCue_iff] at h ⊢
  rcases h with ⟨a, m, b, rfl, hm⟩ | ⟨c, hc, hdash⟩
  · exact .inl ⟨a, m, b ++ v, by simp, hm⟩
  · exact .inr ⟨c, List.mem_append_left _ hc, hdash⟩

theorem hasCue_append_right (u : Text) (h : hasCue v) : hasCue (u ++ v) := by
  rw [hasCue_iff] at h ⊢
  rcases h with ⟨a, m, b, rfl, hm⟩ | ⟨c, hc, hdash⟩
  · exact .inl ⟨u ++ a, m, b, by simp, hm⟩
  · exact .inr ⟨c, List.mem_append_right _ hc, hdash⟩

/-! ## Words for a cue and items -/

theorem eq_blank_of_toLower {c : Char} (h : c.toLower = ' ') : c = ' ' := by
  have hnat := Text.toNat_toLower c
  rw [h] at hnat
  refine Char.ext (UInt32.toNat_inj.mp ?_)
  change c.toNat = 32
  change 32 = _ at hnat
  split at hnat <;> omega

/-- A character in a word for a cue is a blank or a letter, which has no other small form. -/
theorem cue_char (hcue : cue ∈ cueWords) {c : Char} (hc : c.toLower ∈ cue) :
    (c = ' ' ∨ c.isAlpha) ∧ Text.foldCase c = c.toLower := by
  have hchars : ∀ cue ∈ cueWords, ∀ e ∈ cue, e = ' ' ∨ e.isLower := by decide
  rcases hchars cue hcue _ hc with hblank | hlower
  · obtain rfl := eq_blank_of_toLower hblank
    exact ⟨.inl rfl, rfl⟩
  · exact ⟨.inr (Text.isAlpha_of_toLower hlower), Text.foldCase_of_toLower hlower rfl⟩

/-- No item starts with the end of a word for a cue. -/
theorem not_startsItem_of_suffix (hcue : cue ∈ cueWords) (hy : Text.lower y <:+ cue) (hne : y ≠ []) :
    ¬ StartsItem (y ++ z) := by
  have hends : ∀ cue ∈ cueWords, ∀ k < cue.length, ∀ l ∈ Calendar.monthStems,
      ¬ l.take (cue.drop k).length <+: cue.drop k := by
    decide
  have hchar : ∀ c ∈ y, (c = ' ' ∨ c.isAlpha) ∧ Text.foldCase c = c.toLower :=
    fun c hc => cue_char hcue (hy.mem (List.mem_map_of_mem hc))
  rintro (⟨c, u, heq, hdigit⟩ | ⟨l, hl, hopens⟩)
  · obtain ⟨d, y, rfl⟩ := List.exists_cons_of_ne_nil hne
    obtain ⟨rfl, -⟩ := List.cons.inj heq
    rcases (hchar d (List.mem_cons_self ..)).1 with rfl | halpha
    · exact absurd hdigit (by decide)
    · rw [Text.isDigit_eq_false_of_isAlpha halpha] at hdigit
      cases hdigit
  · -- the first letters of a month differ from those of every end of the word
    have hfold : y.map Text.foldCase = Text.lower y := List.map_congr_left fun c hc => (hchar c hc).2
    have hpos : 0 < (Text.lower y).length := by
      rw [Text.lower, List.length_map]
      exact List.length_pos_iff.mpr hne
    have hdrop := List.suffix_iff_eq_drop.mp hy
    have hprefix := List.prefix_append (Text.lower y) (z.map Text.foldCase)
    have hlength := hy.length_le
    rw [List.map_append, hfold] at hopens
    refine hends cue hcue (cue.length - (Text.lower y).length) (by omega) l hl ?_
    rw [← hdrop]
    exact List.prefix_of_prefix_length_le ((List.take_prefix _ l).trans hopens) hprefix
      (List.length_take_le ..)

/-- **A word for a cue does not end in a text that starts with an item.** -/
theorem hasCue_append_of_startsItem (hv : StartsItem v) :
    hasCue (u ++ v) ↔ hasCue u ∨ hasCue v := by
  refine ⟨fun h => ?_, fun h => h.elim (hasCue_append_left · v) (hasCue_append_right u)⟩
  rw [hasCue_iff] at h
  rcases h with ⟨a, m, b, heq, hm⟩ | ⟨c, hc, hdash⟩
  · rcases List.append_eq_append_iff.mp heq with ⟨c, rfl, hc⟩ | ⟨c, rfl, hc⟩
    · exact .inr (hasCue_iff.mpr (.inl ⟨c, m, b, hc, hm⟩))
    · rcases List.append_eq_append_iff.mp hc with ⟨d, rfl, -⟩ | ⟨d, rfl, rfl⟩
      · exact .inl (hasCue_iff.mpr (.inl ⟨a, m, d, rfl, hm⟩))
      · -- the rest `d` of the word stands at the start of the item
        have hd : d = [] := by
          by_contra hne
          refine not_startsItem_of_suffix hm ?_ hne hv
          rw [Text.lower, Text.lower, List.map_append]
          exact List.suffix_append ..
        subst hd
        exact .inl (hasCue_iff.mpr (.inl ⟨a, c, [], by simp, by simpa using hm⟩))
  · rcases List.mem_append.mp hc with hc | hc
    · exact .inl (hasCue_iff.mpr (.inr ⟨c, hc, hdash⟩))
    · exact .inr (hasCue_iff.mpr (.inr ⟨c, hc, hdash⟩))

/-- **No word for a cue begins in a text whose white space stands in front of items.** -/
theorem exists_append_of_cueWord (hu : Spaced u) (h : u ++ v = a ++ (m ++ b))
    (hm : Text.lower m ∈ cueWords) : ∃ c, a = u ++ c ∧ v = c ++ (m ++ b) := by
  rcases List.append_eq_append_iff.mp h with ⟨c, rfl, hc⟩ | ⟨c, rfl, hc⟩
  · exact ⟨c, rfl, hc⟩
  · have hwords : ∀ cue ∈ cueWords, ∃ e s, cue = ' ' :: e :: s ∧ e.isLower := by
      simp [cueWords]
    obtain ⟨e, s, hword, he⟩ := hwords _ hm
    obtain ⟨blank, rest, rfl, hblank, hrest⟩ := List.map_eq_cons_iff.mp hword
    obtain ⟨letter, m, rfl, rfl, -⟩ := List.map_eq_cons_iff.mp hrest
    obtain rfl := eq_blank_of_toLower hblank
    cases c with
    | nil => exact ⟨[], by simp, by simpa using hc.symm⟩
    | cons d c =>
      -- behind the blank there would be white space or an item
      exfalso
      obtain ⟨rfl, hbehind⟩ := List.cons.inj hc
      rcases hu.of_append.1 (by decide) with ⟨d, w, rfl, hd⟩ | hitem
      · obtain ⟨rfl, -⟩ := List.cons.inj hbehind
        rw [Text.isWhite_eq_false_of_isAlphanum
          (Text.isAlphanum_of_isAlpha (Text.isAlpha_of_toLower he))] at hd
        cases hd
      · refine not_startsItem_of_suffix (z := b) hm (List.suffix_cons ..) (by simp) ?_
        rw [show letter :: m ++ b = c ++ v from hbehind]
        exact hitem.append v

theorem hasCue_append_of_spaced (hu : Spaced u) : hasCue (u ++ v) ↔ hasCue u ∨ hasCue v := by
  refine ⟨fun h => ?_, fun h => h.elim (hasCue_append_left · v) (hasCue_append_right u)⟩
  rw [hasCue_iff] at h
  rcases h with ⟨a, m, b, heq, hm⟩ | ⟨c, hc, hdash⟩
  · obtain ⟨c, -, hc⟩ := exists_append_of_cueWord hu heq hm
    exact .inr (hasCue_iff.mpr (.inl ⟨c, m, b, hc, hm⟩))
  · rcases List.mem_append.mp hc with hc | hc
    · exact .inl (hasCue_iff.mpr (.inr ⟨c, hc, hdash⟩))
    · exact .inr (hasCue_iff.mpr (.inr ⟨c, hc, hdash⟩))

/-- The only cue in a date is a hyphen. -/
theorem hasCue_of_mem_candidates {token : DateToken} (h : token ∈ candidates t) :
    hasCue token.text ↔ '-' ∈ token.text := by
  rw [hasCue_iff]
  constructor
  · rintro (⟨a, m, b, heq, hm⟩ | ⟨c, hc, hdash⟩)
    · obtain ⟨c, -, hc⟩ := exists_append_of_cueWord (v := []) (items_of_mem_candidates h).2
        (by rw [List.append_nil, heq]) hm
      obtain ⟨-, hm', -⟩ : c = [] ∧ m = [] ∧ b = [] := by simpa using hc.symm
      subst hm'
      exact absurd hm (by decide)
    · rwa [← eq_hyphen_of_mem_candidates h hc hdash]
  · intro h
    exact .inr ⟨'-', h, rfl⟩

/-! ## Cues and dates -/

/-- The date tokens of a text that can be read. -/
def dateTokens (today : Date) (t : Text) : List DateToken :=
  (DateToken.all t).filter fun token => (DateParts.ofToken? today token.text).isSome

/-- Whether a text has a cue elsewhere than between two of its dates: before the first, behind the
second, or a hyphen within one of them. -/
def HasOtherCue (t : Text) (x y : DateToken) : Prop :=
  hasCue (t.take x.span.start) ∨ '-' ∈ x.text ∨ '-' ∈ y.text ∨ hasCue (t.drop y.span.stop)

section

variable {today : Date} {x y : DateToken} {rest : List DateToken}

theorem parts_eq_filterMap (today : Date) (t : Text) :
    parts today t = (dateTokens today t).filterMap (DateParts.ofToken? today ·.text) := by
  rw [parts, dateTokens, List.filterMap_filter]
  refine List.filterMap_congr fun token _ => ?_
  cases DateParts.ofToken? today token.text <;> rfl

theorem parts_eq_cons_cons_iff {a b : DateParts} : (∃ ps, parts today t = a :: b :: ps) ↔
    ∃ x y rest, dateTokens today t = x :: y :: rest ∧ DateParts.ofToken? today x.text = some a ∧
      DateParts.ofToken? today y.text = some b := by
  have hread : ∀ x ∈ dateTokens today t, ∃ p, DateParts.ofToken? today x.text = some p :=
    fun x hx => Option.isSome_iff_exists.mp (List.mem_filter.mp hx).2
  rw [parts_eq_filterMap]
  constructor
  · rintro ⟨ps, h⟩
    cases htokens : dateTokens today t with
    | nil => simp [htokens] at h
    | cons x tokens =>
      rw [htokens, List.forall_mem_cons] at hread
      obtain ⟨p, hp⟩ := hread.1
      cases tokens with
      | nil => simp [htokens, hp] at h
      | cons y rest =>
        obtain ⟨q, hq⟩ := hread.2 y (List.mem_cons_self ..)
        obtain ⟨rfl, rfl, -⟩ : p = a ∧ q = b ∧ _ := by simpa [htokens, hp, hq] using h
        exact ⟨x, y, rest, rfl, hp, hq⟩
  · rintro ⟨x, y, rest, htokens, hx, hy⟩
    exact ⟨rest.filterMap (DateParts.ofToken? today ·.text), by simp [htokens, hx, hy]⟩

/-- The text around two dates. -/
theorem exists_split (h : dateTokens today t = x :: y :: rest) :
    ∃ p g q, t = p ++ (x.text ++ (g ++ (y.text ++ q))) ∧ x ∈ candidates t ∧ y ∈ candidates t ∧
      x.span = ⟨p.length, p.length + x.text.length⟩ ∧
      y.span = ⟨p.length + x.text.length + g.length,
        p.length + x.text.length + g.length + y.text.length⟩ := by
  have hcandidate : ∀ z ∈ dateTokens today t, z ∈ candidates t := fun z hz =>
    mem_candidates_of_mem_all (List.mem_filter.mp hz).1
  have hpairwise := (pairwise_all t).filter fun z => (DateParts.ofToken? today z.text).isSome
  rw [show List.filter _ _ = _ from h, List.pairwise_cons, List.forall_mem_cons] at hpairwise
  rw [h, List.forall_mem_cons, List.forall_mem_cons] at hcandidate
  obtain ⟨hx, hy, -⟩ := hcandidate
  obtain ⟨p, v, b, ht, -, -, -, hxspan⟩ := exists_trims hx
  obtain ⟨p', v', b', ht', -, -, -, hyspan⟩ := exists_trims hy
  have hle := hpairwise.1.1
  rw [hxspan, hyspan] at hle
  have hfirst : p ++ x.text <+: t := ⟨v ++ b, by rw [List.append_assoc, ht]⟩
  have hsecond : p' <+: t := ⟨_, ht'.symm⟩
  obtain ⟨g, rfl⟩ : p ++ x.text <+: p' :=
    List.prefix_of_prefix_length_le hfirst hsecond (by rwa [List.length_append])
  refine ⟨p, g, v' ++ b', ?_, hx, hy, hxspan, ?_⟩
  · rw [ht']
    simp only [List.append_assoc]
  · rw [hyspan]
    simp only [List.length_append]

/-- **A cue of a text with two dates** stands between them or elsewhere. -/
theorem hasCue_iff_of_dateTokens (h : dateTokens today t = x :: y :: rest) :
    hasCue t ↔ hasCue ((⟨x.span.stop, y.span.start⟩ : Span).of t) ∨ HasOtherCue t x y := by
  obtain ⟨p, g, q, ht, hx, hy, hxspan, hyspan⟩ := exists_split h
  obtain ⟨hxitem, hxspaced⟩ := items_of_mem_candidates hx
  obtain ⟨hyitem, hyspaced⟩ := items_of_mem_candidates hy
  have hbefore : t.take x.span.start = p := by
    rw [hxspan, ht]
    exact List.take_left
  have hbetween : (⟨x.span.stop, y.span.start⟩ : Span).of t = g := by
    rw [hxspan, hyspan, ht, ← List.append_assoc]
    simpa using Span.of_append (p ++ x.text) g (y.text ++ q)
  have hbehind : t.drop y.span.stop = q := by
    rw [hyspan, ht]
    simp only [← List.append_assoc]
    exact List.drop_left' (by simp [Nat.add_assoc])
  rw [HasOtherCue, hbefore, hbetween, hbehind, ← hasCue_of_mem_candidates hx,
    ← hasCue_of_mem_candidates hy]
  conv_lhs => rw [ht]
  rw [hasCue_append_of_startsItem (hxitem.append _), hasCue_append_of_spaced hxspaced,
    hasCue_append_of_startsItem (hyitem.append _), hasCue_append_of_spaced hyspaced]
  tauto

/-- **When a text has a range.** Its first two dates make up a range, and there is a cue, between them or
elsewhere. -/
theorem ofText?_eq_some_iff (today : Date) (t : Text) (r : DateRange) :
    ofText? today t = some r ↔ ∃ x y rest a b, dateTokens today t = x :: y :: rest ∧
      DateParts.ofToken? today x.text = some a ∧ DateParts.ofToken? today y.text = some b ∧
      Resolves today a b r ∧
      (hasCue ((⟨x.span.stop, y.span.start⟩ : Span).of t) ∨ HasOtherCue t x y) := by
  rw [ofText?_iff_resolves]
  constructor
  · rintro ⟨hcue, a, b, ps, hparts, hresolves⟩
    obtain ⟨x, y, rest, htokens, hx, hy⟩ := parts_eq_cons_cons_iff.mp ⟨ps, hparts⟩
    exact ⟨x, y, rest, a, b, htokens, hx, hy, hresolves, (hasCue_iff_of_dateTokens htokens).mp hcue⟩
  · rintro ⟨x, y, rest, a, b, htokens, hx, hy, hresolves, hcue⟩
    obtain ⟨ps, hparts⟩ := parts_eq_cons_cons_iff.mpr ⟨x, y, rest, htokens, hx, hy⟩
    exact ⟨(hasCue_iff_of_dateTokens htokens).mpr hcue, a, b, ps, hparts, hresolves⟩

/-- The hyphens within two dates make up a range, with nothing but a blank between the dates. -/
theorem ofText?_of_hyphens :
    dateTokens ⟨2026, 10, 19, by decide⟩ "2024-01-05 2024-01-09".toList =
        [⟨⟨0, 10⟩, "2024-01-05".toList⟩, ⟨⟨11, 21⟩, "2024-01-09".toList⟩] ∧
      ofText? ⟨2026, 10, 19, by decide⟩ "2024-01-05 2024-01-09".toList =
        some ⟨⟨2024, 1, 5, by decide⟩, ⟨2024, 1, 9, by decide⟩⟩ ∧
      (⟨10, 11⟩ : Span).of "2024-01-05 2024-01-09".toList = [' '] ∧ hasCue [' '] = false := by
  have hall : DateToken.all "2024-01-05 2024-01-09".toList =
      [⟨⟨0, 10⟩, "2024-01-05".toList⟩, ⟨⟨11, 21⟩, "2024-01-09".toList⟩] :=
    DateToken.all_eq_of_candidates (by decide +kernel) (by decide)
  refine ⟨?_, ?_, rfl, rfl⟩
  · rw [dateTokens, hall]
    decide +kernel
  · rw [ofText?, parts, hall]
    decide +kernel

end

end DateRange

end Snippet
