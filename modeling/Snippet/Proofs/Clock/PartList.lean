import Snippet.Proofs.Clock.Parts
import Snippet.Proofs.Pattern.Stretches
import Snippet.Proofs.Text.Fields

/-!
# Durations that are lists of parts

A list of parts is a text in which gaps and parts stand in turn (`Interleaves`). The check on what
stands between the parts runs over all gaps together, so it misses a word that is put together of
pieces of several gaps (`Duration.CutsWord`). Unless this is so, a text that is read as a duration is
a list of parts with nothing but white space, commas and the word "and" in every gap; otherwise it is
no such list (`Duration.seconds?_listed`).
-/

namespace Snippet

/-! ## Words -/

namespace Text

variable {p : Char → Bool} {a b t w : Text} {c : Char}

/-- Between two texts stands a word: characters outside of a class, as far as they go. -/
structure IsWordIn (p : Char → Bool) (a w b : Text) : Prop where
  ne_nil : w ≠ []
  outside : ∀ c ∈ w, p c = false
  before : ∀ c ∈ a.getLast?, p c
  behind : ∀ c ∈ b.head?, p c

theorem mem_splitWhere_of_isWordIn (h : IsWordIn p a w b) : w ∈ splitWhere p (a ++ (w ++ b)) := by
  rw [splitWhere_eq_splitOnP]
  have hrest : w ∈ (w ++ b).splitOnP p := by
    cases b with
    | nil => simp [List.splitOnP_eq_singleton h.outside]
    | cons d b =>
      rw [List.splitOnP_append_cons_of_forall_mem h.outside d (h.behind d rfl)]
      exact List.mem_cons_self ..
  rcases List.eq_nil_or_concat' a with rfl | ⟨a, d, rfl⟩
  · exact hrest
  · rw [List.append_assoc, List.singleton_append,
      List.splitOnP_append_cons _ _ (h.before d (by simp))]
    exact List.mem_append_right _ hrest

/-- A piece of a text stands between two places where it is split. -/
theorem exists_of_mem_splitWhere (h : w ∈ splitWhere p t) : ∃ a b, t = a ++ (w ++ b) ∧
    (∀ c ∈ w, p c = false) ∧ (∀ c ∈ a.getLast?, p c) ∧ ∀ c ∈ b.head?, p c := by
  rw [splitWhere_eq_splitOnP] at h
  induction hlength : t.length using Nat.strongRecOn generalizing t with
  | _ n ih =>
    rcases forall_or_exists_first p t with hall | ⟨x, d, y, rfl, hd, hx⟩
    · rw [List.splitOnP_eq_singleton hall, List.mem_singleton] at h
      exact ⟨[], [], by simp [h], h ▸ hall, by simp, by simp⟩
    · rw [List.splitOnP_append_cons_of_forall_mem hx d hd] at h
      rcases List.mem_cons.mp h with rfl | h
      · exact ⟨[], d :: y, rfl, hx, by simp, by simpa using hd⟩
      · obtain ⟨a, b, rfl, hw, ha, hb⟩ := ih y.length (by simp [← hlength]; omega) h rfl
        refine ⟨x ++ d :: a, b, by simp, hw, fun c hc => ?_, hb⟩
        rw [List.getLast?_append, List.getLast?_cons] at hc
        cases hlast : a.getLast? with
        | none => simp_all
        | some e => simp_all

/-- **The words of a text.** -/
theorem mem_wordsWhere_iff :
    w ∈ wordsWhere p t ↔ ∃ a b, t = a ++ (w ++ b) ∧ IsWordIn p a w b := by
  rw [wordsWhere, List.mem_filter, Bool.not_eq_true', List.isEmpty_eq_false_iff]
  constructor
  · rintro ⟨hmem, hne⟩
    obtain ⟨a, b, ht, hw, ha, hb⟩ := exists_of_mem_splitWhere hmem
    exact ⟨a, b, ht, hne, hw, ha, hb⟩
  · rintro ⟨a, b, rfl, h⟩
    exact ⟨mem_splitWhere_of_isWordIn h, h.ne_nil⟩

/-- A character outside of the class is in a word. -/
theorem exists_isWordIn (a b : Text) (hc : p c = false) : ∃ a' u v b',
    a = a' ++ u ∧ b = v ++ b' ∧ IsWordIn p a' (u ++ c :: v) b' := by
  obtain ⟨a', u, rfl, hu, ha⟩ : ∃ a' u, a = a' ++ u ∧ (∀ x ∈ u, p x = false) ∧
      ∀ x ∈ a'.getLast?, p x := by
    rcases forall_or_exists_last p a with h | ⟨x, d, y, rfl, hd, hy⟩
    · exact ⟨[], a, rfl, h, by simp⟩
    · exact ⟨x ++ [d], y, by simp, hy, by simpa using hd⟩
  obtain ⟨v, b', rfl, hv, hb⟩ : ∃ v b', b = v ++ b' ∧ (∀ x ∈ v, p x = false) ∧
      ∀ x ∈ b'.head?, p x := by
    rcases forall_or_exists_first p b with h | ⟨x, d, y, rfl, hd, hx⟩
    · exact ⟨b, [], by simp, h, by simp⟩
    · exact ⟨x, d :: y, rfl, hx, by simpa using hd⟩
  refine ⟨a', u, v, b', rfl, rfl, by simp, ?_, ha, hb⟩
  rw [List.forall_mem_append, List.forall_mem_cons]
  exact ⟨hu, hc, hv⟩

end Text

/-! ## Gaps and parts in turn -/

/-- A text with its gaps and parts: they stand in turn, a gap first and last. -/
inductive Interleaves : (t : Text) → (gaps parts : List Text) → Prop where
  | last (gap : Text) : Interleaves gap [gap] []
  | part (gap u : Text) {t : Text} {gaps parts : List Text} : Interleaves t gaps parts →
      Interleaves (gap ++ (u ++ t)) (gap :: gaps) (u :: parts)

namespace Interleaves

variable {r : Regex} {t t' : Text} {gaps gaps' parts : List Text}

/-- A character more in the first gap. -/
theorem cons (h : Interleaves t gaps parts) (x : Char) :
    ∃ gap rest, gaps = gap :: rest ∧ Interleaves (x :: t) ((x :: gap) :: rest) parts := by
  cases h with
  | last => exact ⟨t, [], rfl, .last (x :: t)⟩
  | part gap u h => exact ⟨gap, _, rfl, .part (x :: gap) u h⟩

/-- What is left when the pieces are taken out is what stands in the gaps. -/
theorem of_replaces (h : Replaces r (fun _ => []) t parts t') :
    ∃ gaps, Interleaves t gaps parts ∧ t' = gaps.flatten := by
  induction h with
  | nil => exact ⟨[[]], .last [], rfl⟩
  | keep _ ih =>
    obtain ⟨gaps, hgaps, rfl⟩ := ih
    obtain ⟨gap, rest, rfl, hcons⟩ := hgaps.cons _
    exact ⟨_, hcons, rfl⟩
  | piece _ _ ih =>
    obtain ⟨gaps, hgaps, rfl⟩ := ih
    exact ⟨_, .part [] _ hgaps, rfl⟩

/-- **The gaps are told by the parts**, if the parts start with characters that no gap has. -/
theorem gaps_eq {q : Char → Prop} (h : Interleaves t gaps parts) (h' : Interleaves t gaps' parts)
    (hgaps : ∀ g ∈ gaps, ∀ c ∈ g, ¬ q c) (hgaps' : ∀ g ∈ gaps', ∀ c ∈ g, ¬ q c)
    (hparts : ∀ u ∈ parts, ∃ c v, u = c :: v ∧ q c) : gaps = gaps' := by
  induction h generalizing gaps' with
  | last gap =>
    cases h'
    rfl
  | @part gap u t gaps parts h ih =>
    generalize hs : gap ++ (u ++ t) = s at h'
    cases h' with
    | @part gap' _ t' gaps' _ h' =>
      rw [List.forall_mem_cons] at hgaps hgaps' hparts
      obtain ⟨⟨c, v, rfl, hc⟩, hparts⟩ := hparts
      obtain ⟨z, rfl, hz⟩ := Text.exists_of_not_mem_left hs fun hmem => hgaps'.1 c hmem hc
      obtain rfl : z = [] := by
        cases z with
        | nil => rfl
        | cons d z =>
          obtain ⟨rfl, -⟩ := List.cons.inj hz
          exact absurd hc (hgaps.1 c (by simp))
      obtain rfl : t = t' := by simpa using hs
      rw [List.append_nil, ih h' hgaps.2 hgaps'.2 hparts]

end Interleaves

/-! ## What may stand in a gap -/

namespace Duration

open Regex Pattern

variable {a b g t u v : Text} {c : Char} {gaps parts : List Text}

/-- A character between the words of a gap. -/
def isSeparator (c : Char) : Bool := Text.isWhite c || c == ','

theorem isFiller_iff : isFiller t ↔ ∀ a w b, t = a ++ (w ++ b) → Text.IsWordIn isSeparator a w b →
    Text.eqIgnoringCase w "and".toList := by
  rw [isFiller, List.all_eq_true]
  constructor
  · exact fun h a w b ht hw => h w (Text.mem_wordsWhere_iff.mpr ⟨a, b, ht, hw⟩)
  · intro h w hw
    obtain ⟨a, b, ht, hw⟩ := Text.mem_wordsWhere_iff.mp hw
    exact h a w b ht hw

/-- A character of a filler that is no separator is in a word of three letters. -/
theorem exists_and_of_isFiller (h : isFiller (a ++ c :: b)) (hc : isSeparator c = false) :
    ∃ a' u v b', a = a' ++ u ∧ b = v ++ b' ∧ Text.IsWordIn isSeparator a' (u ++ c :: v) b' ∧
      Text.lower (u ++ c :: v) = "and".toList := by
  obtain ⟨a', u, v, b', rfl, rfl, hword⟩ := Text.exists_isWordIn a b hc
  refine ⟨a', u, v, b', rfl, rfl, hword, ?_⟩
  have hand := isFiller_iff.mp h a' (u ++ c :: v) b' (by simp) hword
  exact beq_iff_eq.mp hand

/-- A filler has no digits. -/
theorem isDigit_eq_false_of_isFiller (h : isFiller t) : ∀ c ∈ t, ¬ Text.isDigit c := by
  intro c hc hdigit
  obtain ⟨a, b, rfl⟩ := List.append_of_mem hc
  have hsep : isSeparator c = false := by
    rw [isSeparator, Text.isWhite_eq_false_of_isDigit hdigit, Bool.false_or, beq_eq_false_iff_ne]
    rintro rfl
    exact absurd hdigit (by decide)
  obtain ⟨a', u, v, b', -, -, -, hand⟩ := exists_and_of_isFiller h hsep
  have hlower : c.toLower ∈ "and".toList := hand ▸ List.mem_map_of_mem (by simp)
  have hletter : ∀ d ∈ "and".toList, d.isLower := by decide
  have halpha := Text.isAlpha_of_toLower (hletter _ hlower)
  rw [Text.isDigit_eq_false_of_isAlpha halpha] at hdigit
  cases hdigit

/-- Somewhere between the gaps a word is cut: it goes on in a later gap. -/
def CutsWord (gaps : List Text) : Prop :=
  ∃ before after, gaps = before ++ after ∧ (∃ c ∈ before.flatten.getLast?, isSeparator c = false) ∧
    ∃ c ∈ after.flatten.head?, isSeparator c = false

theorem cutsWord_append {before after : List Text} {c d : Char}
    (hc : before.flatten.getLast? = some c) (hd : after.flatten.head? = some d)
    (hcsep : isSeparator c = false) (hdsep : isSeparator d = false) : CutsWord (before ++ after) :=
  ⟨before, after, rfl, ⟨c, hc, hcsep⟩, ⟨d, hd, hdsep⟩⟩

/-- Unless a word is cut, the words of the gaps are those of what stands in all of them. -/
theorem isFiller_of_mem (h : isFiller gaps.flatten) (hcuts : ¬ CutsWord gaps) :
    ∀ g ∈ gaps, isFiller g := by
  intro g hg
  obtain ⟨l, r, rfl⟩ := List.append_of_mem hg
  rw [isFiller_iff]
  rintro a w b rfl hword
  have hflatten : (l ++ (a ++ (w ++ b)) :: r).flatten =
      (l.flatten ++ a) ++ (w ++ (b ++ r.flatten)) := by
    simp
  refine isFiller_iff.mp h _ w _ hflatten
    ⟨hword.ne_nil, hword.outside, fun c hc => ?_, fun c hc => ?_⟩
  · rcases List.eq_nil_or_concat' a with rfl | ⟨a, e, rfl⟩
    · -- the gap starts with the word
      obtain ⟨x, w, rfl⟩ := List.exists_cons_of_ne_nil hword.ne_nil
      by_contra hsep
      refine hcuts (cutsWord_append (by simpa using hc) rfl (by simpa using hsep) ?_)
      exact hword.outside x (List.mem_cons_self ..)
    · exact hword.before c (by simpa using hc)
  · cases b with
    | nil =>
      -- the gap ends with the word
      obtain ⟨w, x, rfl⟩ := (List.eq_nil_or_concat' w).resolve_left hword.ne_nil
      by_contra hsep
      have hcut : CutsWord ((l ++ [a ++ (w ++ [x] ++ [])]) ++ r) := by
        refine cutsWord_append (c := x) (by simp) hc ?_ (by simpa using hsep)
        exact hword.outside x (by simp)
      rw [List.append_assoc, List.singleton_append] at hcut
      exact hcuts hcut
    | cons e b => exact hword.behind c (by simpa using hc)

/-- The last character of several gaps is that of one of them. -/
theorem exists_of_getLast?_flatten (hc : gaps.flatten.getLast? = some c) :
    ∃ g x, g ++ [c] ∈ gaps ∧ gaps.flatten = x ++ (g ++ [c]) := by
  induction gaps using List.reverseRecOn with
  | nil => cases hc
  | append_singleton gaps g ih =>
    rcases List.eq_nil_or_concat' g with rfl | ⟨g, e, rfl⟩
    · obtain ⟨g, x, hg, hx⟩ := ih (by simpa using hc)
      exact ⟨g, x, List.mem_append_left _ hg, by simpa using hx⟩
    · obtain rfl : e = c := by simpa using hc
      exact ⟨g, gaps.flatten, by simp, by simp⟩

/-- If every gap is a filler, no word is cut. -/
theorem not_cutsWord (hgaps : ∀ g ∈ gaps, isFiller g) (h : isFiller gaps.flatten) :
    ¬ CutsWord gaps := by
  rintro ⟨before, after, rfl, ⟨c, hc, hcsep⟩, ⟨d, hd, hdsep⟩⟩
  obtain ⟨g, x, hg, hx⟩ := exists_of_getLast?_flatten hc
  obtain ⟨y, hy⟩ : ∃ y, after.flatten = d :: y := by
    cases hflatten : after.flatten with
    | nil => simp [hflatten] at hd
    | cons e y => exact ⟨y, by simpa [hflatten] using hd⟩
  -- a whole word ends with the character, and it goes on behind it
  obtain ⟨g', u, v, b', rfl, hb, hword, hand⟩ := exists_and_of_isFiller (b := [])
    (hgaps _ (List.mem_append_left _ hg)) hcsep
  have hall : isFiller ((x ++ (g' ++ u)) ++ c :: d :: y) := by
    simpa [hx, hy] using h
  obtain ⟨a, s, z, b, ha, hz, hlong, hands⟩ := exists_and_of_isFiller hall hcsep
  obtain ⟨rfl, -⟩ := List.append_eq_nil_iff.mp hb.symm
  have hshort : u.length + 1 = 3 := by simpa [Text.lower] using congrArg List.length hand
  have hlength : s.length + (z.length + 1) = 3 := by
    simpa [Text.lower] using congrArg List.length hands
  have hgoes : z.length ≠ 0 := by
    rw [Ne, List.length_eq_zero_iff]
    rintro rfl
    have hsep := hlong.behind d (by rw [← List.nil_append b, ← hz]; rfl)
    rw [hdsep] at hsep
    cases hsep
  -- so the long word starts within the short one
  rw [← List.append_assoc] at ha
  rcases List.append_eq_append_iff.mp ha with ⟨k, rfl, rfl⟩ | ⟨k, -, rfl⟩
  · rcases List.eq_nil_or_concat' k with rfl | ⟨k, e, rfl⟩
    · rw [List.nil_append] at hshort
      omega
    · have hsep := hlong.before e (by simp)
      rw [hword.outside e (by simp)] at hsep
      cases hsep
  · rw [List.length_append] at hlength
    omega

/-! ## Lists of parts -/

/-- A text is a list of parts of a duration with the given gaps. -/
structure Listed (t : Text) (gaps parts : List Text) : Prop where
  interleaves : Interleaves t gaps parts
  isPart : ∀ u ∈ parts, IsPart u

theorem IsPart.exists_cons (h : IsPart u) : ∃ c v, u = c :: v ∧ Text.isDigit c := by
  obtain ⟨n, blank, name, rfl, -, -⟩ := h
  obtain ⟨c, v, hc, hdigit⟩ := n.reads.exists_cons decimalNumber_starts
  exact ⟨c, v ++ (blank ++ name), by rw [hc]; rfl, hdigit⟩

/-- The name of a unit ends where no letter follows. -/
theorem endsUnit_of_noneNext (h : NoneNext Text.isForm v) : EndsUnit v := by
  refine ⟨h.mono fun c hc => (Bool.and_eq_true .. ▸ hc).1, ?_⟩
  cases v with
  | nil => simp
  | cons c v =>
    intro hprefix
    have hc : 'a' = Text.foldCase c := (List.cons_prefix_cons.mp hprefix).1
    have hform := h c rfl
    rw [Text.isForm, ← hc] at hform
    cases hform

/-- The name of a unit ends in front of a gap with only white space, commas and the word "and". -/
theorem endsUnit_of_isFiller (h : isFiller g) (hv : NoneNext Text.isForm v) : EndsUnit (g ++ v) := by
  cases g with
  | nil => exact endsUnit_of_noneNext hv
  | cons c g =>
    cases hsep : isSeparator c with
    | true =>
      refine endsUnit_of_noneNext (StartsOutside.cons ?_).noneNext
      rw [isSeparator, Bool.or_eq_true, beq_iff_eq] at hsep
      rcases hsep with hwhite | rfl
      · exact Text.isForm_eq_false_of_isWhite hwhite
      · decide
    | false =>
      obtain ⟨a', u, w, b', ha, rfl, -, hand⟩ := exists_and_of_isFiller (a := []) h hsep
      obtain ⟨-, rfl⟩ := List.append_eq_nil_iff.mp ha.symm
      have hfold : (c :: w).map Text.foldCase = "and".toList :=
        Text.map_foldCase_eq_of_lower (by decide) hand
      have hc : Text.foldCase c = 'a' := (List.cons.inj hfold).1
      have hrest : (c :: (w ++ b') ++ v).map Text.foldCase =
          "and".toList ++ (b' ++ v).map Text.foldCase := by
        rw [← hfold]
        simp
      refine ⟨fun x hx => ?_, ?_⟩
      · obtain rfl : c = x := by simpa using hx
        simp only [hc, bne_self_eq_false, Bool.and_false]
      · rw [hrest]
        simp

theorem endsUnit_of_listed (h : Listed t gaps parts) (hgaps : ∀ g ∈ gaps, isFiller g) :
    EndsUnit t := by
  obtain ⟨hturns, hparts⟩ := h
  cases hturns with
  | last =>
    have hends : EndsUnit (t ++ []) :=
      endsUnit_of_isFiller (hgaps t (List.mem_cons_self ..)) nofun
    rwa [List.append_nil] at hends
  | part gap u =>
    obtain ⟨c, v, rfl, hc⟩ := (hparts u (List.mem_cons_self ..)).exists_cons
    refine endsUnit_of_isFiller (hgaps gap (List.mem_cons_self ..)) ?_
    exact (StartsOutside.cons (Text.isForm_eq_false_of_isDigit hc)).noneNext

/-- **A list of parts with fillers between them is what a search finds.** -/
theorem Listed.finds (h : Listed t gaps parts) (hgaps : ∀ g ∈ gaps, isFiller g) :
    Finds durationPart t parts := by
  obtain ⟨hturns, hparts⟩ := h
  have hstarts : durationPart.regex.Starts (Text.isDigit ·) := .inl decimalNumber_starts
  induction hturns with
  | last gap =>
    rw [List.forall_mem_singleton] at hgaps
    have hnil : Finds durationPart (gap ++ []) [] :=
      .skipAll hstarts (isDigit_eq_false_of_isFiller hgaps) .nil
    rwa [List.append_nil] at hnil
  | @part gap u t gaps parts hturns ih =>
    rw [List.forall_mem_cons] at hgaps hparts
    obtain ⟨gs, htakes⟩ := hparts.1.exists_takes
    obtain ⟨c, v, hu, -⟩ := hparts.1.exists_cons
    have hne : u ≠ [] := hu ▸ List.cons_ne_nil c v
    have hends : EndsUnit t := endsUnit_of_listed ⟨hturns, hparts.2⟩ hgaps.2
    exact .skipAll hstarts (isDigit_eq_false_of_isFiller hgaps.1)
      (.take htakes hne hends (ih hgaps.2 hparts.2))

theorem not_reads_nil_durationPart : ¬ durationPart.regex.Reads [] := by
  intro h
  obtain ⟨c, v, hnil, -⟩ := h.exists_cons (p := (Text.isDigit ·)) (.inl decimalNumber_starts)
  cases hnil

/-- **Which texts with a filler left over are lists of parts**: those of which no word is cut. -/
theorem exists_listed_iff (h : Listed t gaps parts) (hne : parts ≠ [])
    (hfound : (durationPart.findAll t).map (·.text t) = parts) (hfiller : isFiller gaps.flatten) :
    (∃ gaps parts, Listed t gaps parts ∧ parts ≠ [] ∧ ∀ g ∈ gaps, isFiller g) ↔
      ¬ CutsWord gaps := by
  constructor
  · rintro ⟨gaps', parts', hlisted, -, hgaps⟩
    obtain rfl : parts' = parts :=
      ((hlisted.finds hgaps).map_text_eq not_reads_nil_durationPart).symm.trans hfound
    -- neither list of gaps has a digit, so the gaps are the same
    have hdigit : ∀ g ∈ gaps, ∀ c ∈ g, ¬ Text.isDigit c := fun g hg c hc =>
      isDigit_eq_false_of_isFiller hfiller c (List.mem_flatten_of_mem hg hc)
    have hdigit' : ∀ g ∈ gaps', ∀ c ∈ g, ¬ Text.isDigit c := fun g hg =>
      isDigit_eq_false_of_isFiller (hgaps g hg)
    obtain rfl := h.interleaves.gaps_eq hlisted.interleaves hdigit hdigit'
      fun u hu => (h.isPart u hu).exists_cons
    exact not_cutsWord hgaps hfiller
  · exact fun hcuts => ⟨gaps, parts, h, hne, isFiller_of_mem hfiller hcuts⟩

/-- All matches are parts if their seconds can be summed up. -/
theorem isPart_of_foldlM {ms : List Match} {x y : Float}
    (h : ms.foldlM (fun sum m => (partSeconds? (m.text t)).map (sum + ·)) x = some y) :
    ∀ m ∈ ms, IsPart (m.text t) := by
  induction ms generalizing x with
  | nil => simp
  | cons m ms ih =>
    rw [List.foldlM_cons, Option.bind_eq_bind, Option.bind_eq_some_iff] at h
    obtain ⟨z, hz, h⟩ := h
    obtain ⟨seconds, hseconds, -⟩ := Option.map_eq_some_iff.mp hz
    exact List.forall_mem_cons.mpr ⟨isPart_of_partSeconds? hseconds, ih h⟩

/-- The gaps and parts of a text that is read as a duration, but not as a clock. -/
theorem exists_listed_of_seconds? {n : Nat} (hclock : durationClock.full? (Text.trim t) = none)
    (h : seconds? t = some n) : ∃ gaps parts, Listed (Text.trim t) gaps parts ∧ parts ≠ [] ∧
      (durationPart.findAll (Text.trim t)).map (·.text (Text.trim t)) = parts ∧
      isFiller gaps.flatten := by
  simp only [seconds?, hclock, ofParts?, Option.bind_eq_bind, Option.bind_eq_some_iff] at h
  obtain ⟨total, htotal, h⟩ := h
  split at h
  · cases h
  · rename_i hif
    rw [Bool.or_eq_true, not_or, Bool.not_eq_true, Bool.not_eq_true, Bool.not_eq_false'] at hif
    obtain ⟨gaps, hgaps, hleft⟩ := Interleaves.of_replaces
      (durationPart.replaces (fun _ => []) (Text.trim t))
    have hfiller : isFiller gaps.flatten := by
      rw [← hleft]
      exact hif.2
    refine ⟨gaps, _, ⟨hgaps, ?_⟩, by simpa using hif.1, rfl, hfiller⟩
    exact List.forall_mem_map.mpr (isPart_of_foldlM htotal)

/-- **A duration that is no clock is a list of parts.** Only what stands in all gaps together is
checked, so there is a list with no other word than "and" in any gap exactly if no word is cut. -/
theorem seconds?_listed {n : Nat} (hclock : durationClock.full? (Text.trim t) = none)
    (h : seconds? t = some n) : ∃ gaps parts, Listed (Text.trim t) gaps parts ∧ parts ≠ [] ∧
      (durationPart.findAll (Text.trim t)).map (·.text (Text.trim t)) = parts ∧
      isFiller gaps.flatten ∧
      ((∃ gaps parts, Listed (Text.trim t) gaps parts ∧ parts ≠ [] ∧ ∀ g ∈ gaps, isFiller g) ↔
        ¬ CutsWord gaps) := by
  obtain ⟨gaps, parts, hlisted, hne, hfound, hfiller⟩ := exists_listed_of_seconds? hclock h
  exact ⟨gaps, parts, hlisted, hne, hfound, hfiller,
    exists_listed_iff hlisted hne hfound hfiller⟩

/-- A list with the word between its parts. -/
theorem seconds?_listed_and :
    seconds? "1 hour and 30 minutes".toList = some 5400 ∧
      ∃ gaps parts, Listed "1 hour and 30 minutes".toList gaps parts ∧ parts ≠ [] := by
  have hseconds : seconds? "1 hour and 30 minutes".toList = some 5400 := by decide +kernel
  obtain ⟨gaps, parts, hlisted, hne, -⟩ :=
    seconds?_listed (t := "1 hour and 30 minutes".toList) (by decide +kernel) hseconds
  exact ⟨hseconds, gaps, parts, hlisted, hne⟩

/-- **A list with a letter between two parts and two letters between the next** is read, since the
letters make up a word together. -/
theorem seconds?_of_cut_word :
    durationClock.full? "1ha2mnd3s".toList = none ∧ seconds? "1ha2mnd3s".toList = some 3723 ∧
      ¬ ∃ gaps parts, Listed "1ha2mnd3s".toList gaps parts ∧ parts ≠ [] ∧
        ∀ g ∈ gaps, isFiller g := by
  have hclock : durationClock.full? "1ha2mnd3s".toList = none := by decide +kernel
  have hseconds : seconds? "1ha2mnd3s".toList = some 3723 := by decide +kernel
  have hparts : ∀ u ∈ ["1h".toList, "2m".toList, "3s".toList], (partSeconds? u).isSome := by
    decide +kernel
  have hlisted : Listed "1ha2mnd3s".toList [[], "a".toList, "nd".toList, []]
      ["1h".toList, "2m".toList, "3s".toList] := by
    refine ⟨.part [] "1h".toList (.part "a".toList "2m".toList (.part "nd".toList "3s".toList
      (.last []))), fun u hu => ?_⟩
    obtain ⟨x, hx⟩ := Option.isSome_iff_exists.mp (hparts u hu)
    exact isPart_of_partSeconds? hx
  refine ⟨hclock, hseconds, ?_⟩
  rw [exists_listed_iff hlisted (by simp) (by decide +kernel) (by decide), not_not]
  exact ⟨[[], "a".toList], ["nd".toList, []], rfl, ⟨'a', rfl, rfl⟩, ⟨'n', rfl, rfl⟩⟩

end Duration

end Snippet
