import Snippet.Proofs.Pattern.Demands
import Snippet.Proofs.Pattern.Leftmost
import Snippet.Proofs.Pattern.Taking
import Snippet.Proofs.Pipeline.Seed

/-!
# The run of arithmetic at the end of a text

A search for a run of arithmetic behind white space at the end of a text comes first to the white
space that is first in the longest end of the text made of such characters. So the seed of a text
without a date is all of it, if it is such a run with an operand, or what stands behind the first
white space of its longest run at the end, if this has an operand; else the run is not used
(`Seed.ofText_of_isLongestEnd`).
-/

namespace Snippet.Seed

open Pattern Regex

variable {p : Char → Bool} {a s t u v w x y : Text} {d : Char}

/-! ## The longest end in a class of characters -/

/-- The longest end of a text that is made of characters of a class. -/
structure IsLongestEnd (p : Char → Bool) (t s : Text) : Prop where
  suffix : s <:+ t
  forall_mem : ∀ c ∈ s, p c
  length_le : ∀ u, u <:+ t → (∀ c ∈ u, p c) → u.length ≤ s.length

namespace IsLongestEnd

theorem suffix_of (h : IsLongestEnd p t s) (hu : u <:+ t) (hp : ∀ c ∈ u, p c) : u <:+ s :=
  List.suffix_of_suffix_length_le hu h.suffix (h.length_le u hu hp)

theorem refl (ht : ∀ c ∈ t, p c) : IsLongestEnd p t t :=
  ⟨List.suffix_rfl, ht, fun _ hu _ => hu.length_le⟩

/-- Behind a character of another class. -/
theorem behind (a : Text) (hd : p d = false) (hs : ∀ c ∈ s, p c) :
    IsLongestEnd p (a ++ d :: s) s where
  suffix := (List.suffix_cons d s).trans (List.suffix_append a _)
  forall_mem := hs
  length_le u hu hp := by
    by_contra hlong
    have hsuffix : d :: s <:+ u := List.suffix_of_suffix_length_le (List.suffix_append a _) hu
      (by rw [List.length_cons]; omega)
    have hmem := hp d (hsuffix.mem (List.mem_cons_self ..))
    rw [hd] at hmem
    cases hmem

/-- Every text has a longest end in a class of characters. -/
theorem takeWhileEnd (p : Char → Bool) (t : Text) : IsLongestEnd p t (Text.takeWhileEnd p t) := by
  have hmem : ∀ c ∈ Text.takeWhileEnd p t, p c := fun c hc => List.mem_rtakeWhile_imp hc
  have hsplit := Text.dropWhileEnd_append_takeWhileEnd p t
  rcases List.eq_nil_or_concat' (Text.dropWhileEnd p t) with hnil | ⟨a, d, hdrop⟩
  · rw [hnil, List.nil_append] at hsplit
    rw [hsplit]
    exact .refl (hsplit ▸ hmem)
  · have hd : p d = false := Text.eq_false_of_getLast?_dropWhileEnd (t := t) (by simp [hdrop])
    have hlongest := behind a hd hmem
    rwa [List.append_cons, ← hdrop, hsplit] at hlongest

/-- The longest end is all of the text exactly if the text is in the class. -/
theorem eq_iff (h : IsLongestEnd p t s) : s = t ↔ ∀ c ∈ t, p c :=
  ⟨fun hst => hst ▸ h.forall_mem,
    fun ht => h.suffix.eq_of_length_le (h.length_le t List.suffix_rfl ht)⟩

end IsLongestEnd

/-! ## What stands behind white space -/

/-- A text from its first white space on. -/
def fromWhite (t : Text) : Text := t.dropWhile fun c => !Text.isWhite c

/-- What stands behind the first white space of a text, with nothing before it if there is none. -/
def behindWhite (t : Text) : Text := Text.trimStart (fromWhite t)

theorem fromWhite_suffix (t : Text) : fromWhite t <:+ t := List.dropWhile_suffix _

theorem behindWhite_suffix (t : Text) : behindWhite t <:+ t :=
  (List.dropWhile_suffix _).trans (fromWhite_suffix t)

theorem fromWhite_eq_self (h : ∀ c ∈ t.head?, Text.isWhite c) : fromWhite t = t := by
  cases t with
  | nil => rfl
  | cons c t => rw [fromWhite, List.dropWhile_cons_of_neg (by simp [h c rfl])]

theorem fromWhite_eq_nil_iff : fromWhite t = [] ↔ ∀ c ∈ t, Text.isWhite c = false := by
  simp [fromWhite, List.dropWhile_eq_nil_iff]

/-- An end of a text that starts with white space stands in the text from its first white space on.
-/
theorem suffix_fromWhite (h : y <:+ t) (hy : ∀ c ∈ y.head?, Text.isWhite c) :
    y <:+ fromWhite t := by
  obtain ⟨x, rfl⟩ := h
  rw [fromWhite, List.dropWhile_append]
  split
  · exact ⟨[], (fromWhite_eq_self hy).symm⟩
  · exact List.suffix_append ..

theorem leadingWhite_fromWhite_ne_nil (h : fromWhite t ≠ []) :
    Text.leadingWhite (fromWhite t) ≠ [] := by
  obtain ⟨c, u, hcu⟩ := List.exists_cons_of_ne_nil h
  have hnot := List.head?_dropWhile_not (fun c => !Text.isWhite c) t
  have hc : Text.isWhite c := by
    rw [← fromWhite, hcu] at hnot
    simpa using hnot
  rw [hcu, Text.leadingWhite, List.takeWhile_cons_of_pos hc]
  exact List.cons_ne_nil c _

/-- Behind white space in front of another character. -/
theorem behindWhite_append (hne : w ≠ []) (hw : Text.isBlank w)
    (hv : ∀ c ∈ v.head?, Text.isWhite c = false) : behindWhite (w ++ v) = v := by
  have hfrom : fromWhite (w ++ v) = w ++ v := by
    refine fromWhite_eq_self fun c hc => Text.isWhite_of_isBlank hw ?_
    rw [List.head?_append_of_ne_nil _ hne] at hc
    exact List.mem_of_head? hc
  rw [behindWhite, hfrom, Text.trimStart_append_left hw]
  cases v with
  | nil => rfl
  | cons c v => rw [Text.trimStart, List.dropWhile_cons_of_neg (by simp [hv c rfl])]

/-- A text with a longest end in which something stands behind white space. -/
theorem IsLongestEnd.exists_split (h : IsLongestEnd p t s) (hne : behindWhite s ≠ []) :
    ∃ a w, t = (a ++ w) ++ behindWhite s ∧ fromWhite s = w ++ behindWhite s ∧ w ≠ [] ∧
      Text.isBlank w := by
  obtain ⟨a, ha⟩ : fromWhite s <:+ t := (fromWhite_suffix s).trans h.suffix
  have hfrom : Text.leadingWhite (fromWhite s) ++ behindWhite s = fromWhite s :=
    Text.leadingWhite_append_trimStart _
  refine ⟨a, Text.leadingWhite (fromWhite s), ?_, hfrom.symm, ?_, Text.isBlank_leadingWhite _⟩
  · rw [List.append_assoc, hfrom, ha]
  · refine leadingWhite_fromWhite_ne_nil fun hnil => hne ?_
    rw [behindWhite, hnil]
    rfl

/-! ## Matches at the end of a text -/

theorem isRun_of_isWhite {c : Char} (h : Text.isWhite c) : isRun c := by
  rw [isRun, isArithmetic_of_isWhite h, Bool.true_or, Bool.true_or]

/-- A run at the end of the text is read behind white space, and it is the group. -/
theorem exists_of_mem_arithmeticTail {q : Place} {c : Cursor}
    (h : c ∈ arithmeticTail.regex.outcomes (.start q)) :
    ∃ w z, q.rest = w ++ z ∧ w ≠ [] ∧ (∀ x ∈ w, Text.isWhite x) ∧ (∀ x ∈ z, isRun x) ∧
      (Match.ofCursor c).group? 1 = some ⟨q.pos + w.length, q.pos + w.length + z.length⟩ := by
  -- the group is opened where the white space has been read
  obtain ⟨d, hd, hc⟩ := List.mem_flatMap.mp h
  obtain ⟨e, he, hend⟩ := List.mem_flatMap.mp hc
  obtain ⟨f, hf, rfl⟩ := List.mem_map.mp he
  obtain ⟨w, hw⟩ := exists_advance hd
  obtain ⟨z, hz⟩ := exists_advance hf
  have hend : c ∈ textEnd.outcomes (f.closeGroup 1) := hend
  obtain ⟨rfl, hrest⟩ : c = f.closeGroup 1 ∧ f.rest = [] := by
    rw [outcomes, Cursor.toPlace_closeGroup] at hend
    split at hend
    · exact ⟨List.mem_singleton.mp hend, List.isEmpty_iff.mp ‹_›⟩
    · cases hend
  have hdrest : d.rest = z := by
    have hall : d.rest = z ++ f.rest := hz.rest_eq
    rwa [hrest, List.append_nil] at hall
  have hopened : f.opened = [d.pos] := by
    rw [hz.opened_eq, Cursor.openGroup, hw.opened_eq]
    rfl
  have hdpos : d.pos = q.pos + w.length := hw.pos_eq
  have hfpos : f.pos = d.pos + z.length := hz.pos_eq
  refine ⟨w, z, hdrest ▸ hw.rest_eq, (reads_many1_one_iff.mp hw.reads).1,
    (reads_many1_one_iff.mp hw.reads).2, (reads_many1_one_iff.mp hz.reads).2, ?_⟩
  rw [Match.group?, if_neg (by decide), Match.ofCursor, Cursor.closeGroup, hopened, ← hdpos, ← hfpos]
  rfl

/-- No match begins before the first white space of the longest run at the end. -/
theorem suffix_of_mem_arithmeticTail {c : Cursor} (h : IsLongestEnd isRun (x ++ y) s)
    (hc : c ∈ arithmeticTail.regex.outcomes (.start (.between x y))) :
    y <:+ fromWhite s := by
  obtain ⟨w, z, hy, hne, hwhite, hrun, -⟩ := exists_of_mem_arithmeticTail hc
  obtain rfl : y = w ++ z := hy
  refine suffix_fromWhite ?_ fun c hc => ?_
  · refine h.suffix_of (List.suffix_append x _) ?_
    rw [List.forall_mem_append]
    exact ⟨fun c hc => isRun_of_isWhite (hwhite c hc), hrun⟩
  · rw [List.head?_append_of_ne_nil _ hne] at hc
    exact hwhite c (List.mem_of_head? hc)

/-- The white space is read first, so the group is the run behind it. -/
theorem takes_arithmeticTail (hne : w ≠ []) (hw : Text.isBlank w) (hvne : v ≠ [])
    (hv : ∀ c ∈ v, isRun c) (hfirst : ∀ c ∈ v.head?, Text.isWhite c = false) :
    arithmeticTail.regex.Takes (w ++ v) (· = []) fun k =>
      [(1, ⟨k + w.length, k + w.length + v.length⟩)] := by
  have hend : Takes textEnd [] (· = []) noGroups := by
    rintro c v hc rfl
    have hrest : c.rest = [] := hc
    have hafter := c.after_nil
    rw [hrest] at hafter
    refine ⟨hc, ?_⟩
    rw [outcomes, if_pos (List.isEmpty_iff.mpr hrest), List.head?_cons, noGroups, hafter]
  have hgroup := ((Takes.many1 hvne hv).group 1).seq hend fun w hw => by simp [hw, NoneNext]
  have hall : Takes arithmeticTail.regex (w ++ (v ++ [])) (· = []) _ :=
    (Takes.white1 hne hw).seq hgroup fun w hw => by
      simpa [hw, NoneNext] using hfirst
  rw [List.append_nil] at hall
  exact hall.congr fun k => rfl

theorem hasOperand_eq_false (h : Text.isBlank t) : hasOperand t = false := by
  rw [hasOperand, List.any_eq_false]
  intro c hc
  have hwhite := Text.isWhite_of_isBlank h hc
  rw [Bool.not_eq_true, Bool.or_eq_false_iff, beq_eq_false_iff_ne]
  refine ⟨?_, ?_⟩
  · rw [← Bool.not_eq_true]
    intro hdigit
    rw [Text.isWhite_eq_false_of_isDigit (Text.isDigit_of_isDigit hdigit)] at hwhite
    cases hwhite
  · rintro rfl
    cases hwhite

/-- The start of a run that is found at the end of a text. -/
theorem tailStart?_of_find? {m : Match} (hfind : arithmeticTail.find? (u ++ v) = some m)
    (hgroup : m.group? 1 = some ⟨u.length, u.length + v.length⟩) :
    tailStart? (u ++ v) = if hasOperand v then some u.length else none := by
  have hof : Span.of ⟨u.length, u.length + v.length⟩ (u ++ v) = v := by
    simpa using Span.of_append u v []
  rw [tailStart?, hfind, Option.bind_some, hgroup, Option.bind_some, hof]

/-- Where nothing stands behind white space, a match is of white space only. -/
theorem tailStart?_eq_none (h : IsLongestEnd isRun t s) (hs : behindWhite s = []) :
    tailStart? t = none := by
  cases hfind : arithmeticTail.find? t with
  | none =>
    rw [tailStart?, hfind]
    rfl
  | some m =>
    obtain ⟨c, hleft, rfl⟩ := Option.map_eq_some_iff.mp hfind
    obtain ⟨x, y, rfl, hc⟩ := exists_mem_outcomes_of_leftmost? (a := []) hleft
    have hsuffix := suffix_of_mem_arithmeticTail h hc
    obtain ⟨w, z, hy, -, -, -, hgroup⟩ := exists_of_mem_arithmeticTail hc
    obtain rfl : y = w ++ z := hy
    have hblank : Text.isBlank z := by
      have hall := List.all_eq_true.mp (Text.trimStart_eq_nil_iff.mp hs)
      exact List.all_eq_true.mpr fun c hc => hall c (hsuffix.mem (List.mem_append_right w hc))
    rw [← List.append_assoc] at hfind ⊢
    rw [tailStart?_of_find? hfind (by rw [hgroup, List.length_append]; rfl),
      hasOperand_eq_false hblank]
    rfl

/-- The first match is at the first white space of the longest run. -/
theorem find?_arithmeticTail (h : IsLongestEnd isRun t s) (hw : w ≠ []) (hblank : Text.isBlank w)
    (hne : behindWhite s ≠ []) (ht : t = (a ++ w) ++ behindWhite s)
    (hfrom : fromWhite s = w ++ behindWhite s) :
    ∃ m, arithmeticTail.find? t = some m ∧
      m.group? 1 = some ⟨(a ++ w).length, (a ++ w).length + (behindWhite s).length⟩ := by
  have hread := takes_arithmeticTail (c := .start (.between ([] ++ a) (w ++ behindWhite s)))
    hw hblank hne (fun c hc => h.forall_mem c ((behindWhite_suffix s).mem hc))
    (fun c hc => Text.isWhite_eq_false_of_head?_trimStart hc) (List.append_nil _).symm rfl
  obtain ⟨c, hc, hcases⟩ := exists_leftmost?_eq hread.head?_eq
  rw [List.append_assoc] at ht
  have hfirst := hcases.resolve_right ?_
  · refine ⟨.ofCursor c, ?_, ?_⟩
    · rw [find?, Option.map_eq_some_iff]
      exact ⟨c, ht ▸ hc, rfl⟩
    · rw [hfirst, List.length_append]
      rfl
  -- a match that begins before the white space would be longer than the run from there on
  · rintro ⟨x, y, rfl, hy, hmem⟩
    have hrun : IsLongestEnd isRun (([] ++ x) ++ (y ++ (w ++ behindWhite s))) s := by
      rwa [ht, List.append_assoc] at h
    have hle := (suffix_of_mem_arithmeticTail hrun hmem).length_le
    rw [hfrom, List.length_append] at hle
    exact hy (List.length_eq_zero_iff.mp (by omega))

/-- **The run at the end of a text is all that stands behind the first white space of the longest
run there.** -/
theorem tailStart?_eq (h : IsLongestEnd isRun t s) :
    tailStart? t = if hasOperand (behindWhite s) then some (t.length - (behindWhite s).length)
      else none := by
  by_cases hne : behindWhite s = []
  · rw [tailStart?_eq_none h hne, hne]
    rfl
  obtain ⟨a, w, ht, hfrom, hw, hblank⟩ := h.exists_split hne
  obtain ⟨m, hfind, hgroup⟩ := find?_arithmeticTail h hw hblank hne ht hfrom
  have hlength : t.length - (behindWhite s).length = (a ++ w).length := by
    rw [ht, List.length_append, Nat.add_sub_cancel]
  rw [hlength]
  rw [ht] at hfind ⊢
  exact tailStart?_of_find? hfind hgroup

/-! ## The seed -/

/-- The start of the seed by arithmetic: all of a text that is a run with an operand, or what stands
behind the first white space of the run at its end, if this has an operand. -/
theorem arithmeticStart?_eq (hne : t ≠ []) (h : IsLongestEnd isRun t s) :
    arithmeticStart? t =
      if s = t ∧ hasOperand s then some (Text.leadingWhite t).length
      else if hasOperand (behindWhite s) then some (t.length - (behindWhite s).length)
      else none := by
  have hall : arithmeticRun.matchesAll t ↔ s = t := by
    rw [matchesAll_iff_reads rfl, h.eq_iff]
    exact reads_many1_one_iff.trans (and_iff_right hne)
  have hiff : (arithmeticRun.matchesAll t && hasOperand t) = true ↔ s = t ∧ hasOperand s := by
    rw [Bool.and_eq_true, hall]
    exact and_congr_right fun hst => by rw [hst]
  rw [arithmeticStart?, tailStart?_eq h]
  exact if_congr hiff rfl rfl

/-- The seed of a text that some strategies find one after the other, or all of the text. -/
def ofStrategies (strategies : List (Text → Option Nat)) (t : Text) : Seed :=
  match strategies.findSome? fun strategy => (strategy t).filter (· < t.length) with
  | some start => ⟨t.take start, t.drop start⟩
  | none => ⟨[], Text.trimStart t⟩

section

variable {strategy : Text → Option Nat} {strategies : List (Text → Option Nat)}

/-- A strategy that finds no start is passed over. -/
theorem ofStrategies_of_none (h : strategy t = none) :
    ofStrategies (strategy :: strategies) t = ofStrategies strategies t := by
  rw [ofStrategies, List.findSome?_cons, h]
  rfl

/-- The first strategy that finds a start inside the text decides. -/
theorem ofStrategies_of_append (ht : t = u ++ v) (hv : v ≠ []) (h : strategy t = some u.length) :
    ofStrategies (strategy :: strategies) t = ⟨u, v⟩ := by
  subst ht
  have hlt : u.length < (u ++ v).length := by
    have hpos := List.length_pos_iff.mpr hv
    rw [List.length_append]
    omega
  rw [ofStrategies, List.findSome?_cons, h, Option.filter_some, if_pos (decide_eq_true hlt)]
  dsimp only
  rw [List.take_left, List.drop_left]

end

/-- The seed of a text without white space at its end. -/
theorem ofText_eq_ofStrategies (hblank : ¬ Text.isBlank t) (hend : Text.trimEnd t = t) :
    ofText t = ofStrategies [dateStart?, arithmeticStart?, separatorStart?, wordStart?] t := by
  rw [ofText, hend]
  exact if_neg hblank

/-- **The seed is the run at the end.** Let a text without white space at its end have no date. If
all of it is a run with an operand, the seed is the text without the white space at its start.
Otherwise, if something with an operand stands behind the first white space of its longest run at
the end, then this is the seed. Otherwise no run is found, and the seed is the one that separators
and white space give. -/
theorem ofText_of_isLongestEnd (hblank : ¬ Text.isBlank t) (hend : Text.trimEnd t = t)
    (hdate : DateToken.all t = []) (h : IsLongestEnd isRun t s) :
    (s = t ∧ hasOperand s → ofText t = ⟨Text.leadingWhite t, Text.trimStart t⟩) ∧
      (¬ (s = t ∧ hasOperand s) → (∃ c ∈ s, Text.isWhite c) ∧ hasOperand (behindWhite s) →
        (ofText t).lead ++ behindWhite s = t ∧ (ofText t).body = behindWhite s) ∧
      (¬ (s = t ∧ hasOperand s) → ¬ ((∃ c ∈ s, Text.isWhite c) ∧ hasOperand (behindWhite s)) →
        arithmeticStart? t = none ∧ ofText t = ofStrategies [separatorStart?, wordStart?] t) := by
  have hdate : dateStart? t = none := by rw [dateStart?, hdate]; rfl
  have hne : t ≠ [] := by
    rintro rfl
    exact hblank rfl
  have hstart := arithmeticStart?_eq hne h
  rw [ofText_eq_ofStrategies hblank hend, ofStrategies_of_none hdate]
  refine ⟨fun hall => ?_, fun hnot hpart => ?_, fun hnot hpart => ?_⟩
  · rw [if_pos hall] at hstart
    exact ofStrategies_of_append (Text.leadingWhite_append_trimStart t).symm
      (fun hnil => hblank (Text.trimStart_eq_nil_iff.mp hnil)) hstart
  · have hbehind : behindWhite s ≠ [] := fun hnil => absurd hpart.2 (by rw [hnil]; decide)
    obtain ⟨a, w, ht, -⟩ := h.exists_split hbehind
    have hlength : t.length - (behindWhite s).length = (a ++ w).length := by
      rw [ht, List.length_append, Nat.add_sub_cancel]
    rw [if_neg hnot, if_pos hpart.2, hlength] at hstart
    rw [ofStrategies_of_append ht hbehind hstart]
    exact ⟨ht.symm, rfl⟩
  · have hoperand : ¬ hasOperand (behindWhite s) := by
      refine fun hoperand => hpart ⟨?_, hoperand⟩
      by_contra hnone
      push Not at hnone
      have hnil := fromWhite_eq_nil_iff.mpr fun c hc => Bool.not_eq_true _ ▸ hnone c hc
      rw [behindWhite, hnil] at hoperand
      cases hoperand
    rw [if_neg hnot, if_neg hoperand] at hstart
    exact ⟨hstart, ofStrategies_of_none hstart⟩

/-- The run may begin inside a word; the seed is behind the white space. -/
theorem ofText_sum_behind_word :
    (ofText "abc 2 + 3".toList).lead ++ "2 + 3".toList = "abc 2 + 3".toList ∧
      (ofText "abc 2 + 3".toList).body = "2 + 3".toList := by
  have hrun : IsLongestEnd isRun "abc 2 + 3".toList "c 2 + 3".toList :=
    .takeWhileEnd isRun "abc 2 + 3".toList
  have hdate : DateToken.all "abc 2 + 3".toList = [] := by decide +kernel
  obtain ⟨-, hbehind, -⟩ := ofText_of_isLongestEnd (by decide) (by decide) hdate hrun
  exact hbehind (by decide) ⟨⟨' ', by decide, rfl⟩, by decide⟩

end Snippet.Seed
