import Mathlib.Data.List.Forall2
import Snippet.Proofs.Pattern.Letters
import Snippet.Proofs.Pattern.Taking

/-!
# How words are spelled

An expression spells a word if it takes every form of the word where no letter follows
(`Regex.Spells`), and it opens with a text if all that it reads begins with forms of it
(`Regex.Opens`). Among several expressions that open with different texts of one length, the one
that spells a word is the first to read it (`spells_anyOf`).
-/

namespace Snippet

/-- A letter of ASCII, or one of the other forms of a small letter. -/
def Text.isForm (c : Char) : Bool := (foldCase c).isLower

theorem Text.cases_of_isForm {x : Char} (h : isForm x) : x = 'ſ' ∨ x = '\u212a' ∨ x.isAlpha := by
  rw [isForm, foldCase] at h
  split at h
  · exact .inl ‹_›
  · split at h
    · exact .inr (.inl ‹_›)
    · exact .inr (.inr (isAlpha_of_toLower h))

theorem Text.isWhite_eq_false_of_isForm {x : Char} (h : isForm x) : isWhite x = false := by
  rcases cases_of_isForm h with rfl | rfl | h
  · decide
  · decide
  · exact isWhite_eq_false_of_isAlphanum (isAlphanum_of_isAlpha h)

theorem Text.isWord_of_isForm {x : Char} (h : isForm x) : isWord x := by
  rcases cases_of_isForm h with rfl | rfl | h
  · decide +kernel
  · decide +kernel
  · exact isWord_of_isAlphanum (isAlphanum_of_isAlpha h)

theorem Text.isForm_eq_false_of_isDigit {x : Char} (h : isDigit x) : isForm x = false := by
  rw [← Bool.not_eq_true]
  intro hform
  rcases cases_of_isForm hform with rfl | rfl | hform
  · exact absurd h (by decide)
  · exact absurd h (by decide)
  · rw [isDigit_eq_false_of_isAlpha hform] at h
    cases h

/-- Every character of a word, up to case, is a form of a letter. -/
theorem Text.isForm_of_map_foldCase {t w : Text} (hw : w.all Char.isLower)
    (h : t.map foldCase = w) : ∀ x ∈ t, isForm x :=
  fun _ hx => List.all_eq_true.mp hw _ (h ▸ List.mem_map_of_mem hx)

theorem Text.isForm_eq_false_of_isWhite {x : Char} (h : isWhite x) : isForm x = false := by
  rw [← Bool.not_eq_true]
  intro hform
  rw [isWhite_eq_false_of_isForm hform] at h
  cases h

namespace Regex

open Text (foldCase isForm)

variable {r s : Regex} {w w' : String} {c : Cursor} {u v l : Text}

/-- The expression takes every form of a word where no letter follows. -/
def Spells (r : Regex) (w : String) : Prop :=
  ∀ ⦃u : Text⦄, u.map foldCase = w.toList → Takes r u (NoneNext isForm) noGroups

/-- All that the expression reads begins with forms of a text. -/
def Opens (r : Regex) (l : Text) : Prop := ∀ ⦃u : Text⦄, r.Reads u → l <+: u.map foldCase

/-- A word takes its forms, whatever follows. -/
theorem takes_word (hw : w.toList.all Char.isLower) (hu : u.map foldCase = w.toList) :
    Takes (word w) u Anything noGroups := by
  intro c v hc _
  rw [word]
  generalize w.toList = cs at hw hu
  induction cs generalizing c u with
  | nil =>
    obtain rfl := List.map_eq_nil_iff.mp hu
    rw [List.nil_append] at hc
    rw [← hc]
    exact .empty
  | cons x cs ih =>
    rw [List.all_cons, Bool.and_eq_true] at hw
    obtain ⟨y, u, rfl, hy, hu⟩ := List.map_eq_cons_iff.mp hu
    have hletter : Prefers (letter x) c [y] (u ++ v) [] := .one hc ((isLetter_iff hw.1).mpr hy)
    exact hletter.all_cons (ih rfl hw.2 hu)

theorem starts_all_cons {p : Char → Prop} {rs : List Regex} (h : r.Starts p) :
    (all (r :: rs)).Starts p := by
  cases rs with
  | nil => exact h
  | cons s rs => exact .inl h

theorem starts_word (hw : w.toList.all Char.isLower) (hne : w.toList ≠ []) :
    (word w).Starts (isForm ·) := by
  obtain ⟨x, cs, hcs⟩ := List.exists_cons_of_ne_nil hne
  have hx : x.isLower := List.all_eq_true.mp hw x (by simp [hcs])
  rw [word, hcs, List.map_cons]
  refine starts_all_cons fun y hy => ?_
  rw [isForm, (isLetter_iff hx).mp hy, hx]

/-! ## Opening -/

theorem opens_word (hw : w.toList.all Char.isLower) : Opens (word w) w.toList := by
  intro u hu
  exact (reads_word_iff hw).mp hu ▸ List.prefix_rfl

theorem Opens.seq (hr : Opens r l) : Opens (seq r s) l := by
  intro u hu
  obtain ⟨a, b, rfl, ha, -⟩ := reads_seq_iff.mp hu
  rw [List.map_append]
  exact (hr ha).trans (List.prefix_append ..)

/-! ## Spelling -/

theorem spells_word (hw : w.toList.all Char.isLower) : Spells (word w) w :=
  fun _ hu => (takes_word hw hu).of_anything

/-- A word without the optional rest, which would begin with a letter. -/
theorem spells_seq_opt (hw : w.toList.all Char.isLower) (hr : r.Starts (isForm ·)) :
    Spells (seq (word w) (opt r)) w := by
  intro u hu
  have hread := (takes_word hw hu).andThen (.opt_nil hr)
  rwa [List.append_nil] at hread

/-- A word with the optional rest. -/
theorem spells_append (hw : w.toList.all Char.isLower) (hr : Spells r w') :
    Spells (seq (word w) (opt r)) (w ++ w') := by
  intro u hu
  rw [String.toList_append] at hu
  obtain ⟨u, u', rfl, hu, hu'⟩ := List.map_eq_append_iff.mp hu
  exact (takes_word hw hu).andThen (hr hu').opt

/-- **Of several expressions that open differently, the one that spells a word reads it.** -/
theorem spells_anyOf {k : Nat} {rs : List Regex} {ls : List Text} (h : List.Forall₂ Opens rs ls)
    (hlength : ∀ l ∈ ls, l.length = k) (hnodup : ls.Nodup) {i : Nat} (hi : i < ls.length)
    (hw : ls[i] <+: w.toList) (hr : Spells (rs.get ⟨i, h.length_eq ▸ hi⟩) w) :
    Spells (anyOf rs) w := by
  intro u hu
  have hirs : i < rs.length := h.length_eq ▸ hi
  rw [← List.take_append_drop i rs, List.drop_eq_getElem_cons hirs]
  refine Takes.anyOf (fun s hs a v z haz hread => ?_) (hr hu)
  obtain ⟨j, hj, rfl⟩ := List.mem_take_iff_getElem.mp hs
  have hjls : j < ls.length := by omega
  -- the expressions open with the same text, which has one place in the list
  have hj : ls[j] <+: (u ++ v).map foldCase := by
    rw [haz, List.map_append]
    exact ((h.get (by omega) hjls) hread).trans (List.prefix_append ..)
  have hw : ls[i] <+: (u ++ v).map foldCase := by
    rw [List.map_append, hu]
    exact hw.trans (List.prefix_append ..)
  have hlengths : ls[j].length = ls[i].length := by
    rw [hlength _ (List.getElem_mem hjls), hlength _ (List.getElem_mem hi)]
  have heq := (List.prefix_of_prefix_length_le hj hw (Nat.le_of_eq hlengths)).eq_of_length
    hlengths
  have hji : j = i := (List.getElem_inj hnodup).mp heq
  omega

/-- Of several words, each of which goes on differently from those in front of it, the one that
stands there is read, unless what follows makes it the beginning of another one. -/
theorem takes_words {ws : List String} (hlower : ∀ w ∈ ws, w.toList.all Char.isLower)
    (hdiffer : ws.Pairwise fun w' w => ¬ w'.toList <+: w.toList) (hw : w ∈ ws)
    (hu : u.map foldCase = w.toList) {next : Text → Prop}
    (hnext : ∀ v, next v → ∀ w' ∈ ws, w'.toList <+: w.toList ++ v.map foldCase →
      w'.toList <+: w.toList) :
    Takes (words ws) u next noGroups := by
  intro c v hc hv
  obtain ⟨before, after, rfl⟩ := List.append_of_mem hw
  rw [words, List.map_append, List.map_cons]
  refine .anyOf (fun s hs => outcomes_eq_nil fun a b hab hread => ?_)
    (takes_word (hlower w hw) hu hc trivial)
  obtain ⟨w', hw', rfl⟩ := List.mem_map.mp hs
  have hmem : w' ∈ before ++ w :: after := List.mem_append_left _ hw'
  have ha := (reads_word_iff (hlower w' hmem)).mp hread
  have hpart : w'.toList <+: w.toList ++ v.map foldCase := by
    rw [← ha, ← hu, ← List.map_append, ← hc, hab]
    exact (List.prefix_append a b).map foldCase
  exact (List.pairwise_append.mp hdiffer).2.2 w' hw' w (List.mem_cons_self ..)
    (hnext v hv w' hmem hpart)

/-- **Of several words, each of which goes on differently from those in front of it, the one that
stands there is read where no letter follows.** -/
theorem spells_words {ws : List String} (hlower : ∀ w ∈ ws, w.toList.all Char.isLower)
    (hdiffer : ws.Pairwise fun w' w => ¬ w'.toList <+: w.toList) (hw : w ∈ ws) :
    Spells (words ws) w := by
  refine fun u hu => takes_words hlower hdiffer hw hu fun v hv w' hw' hpart => ?_
  cases v with
  | nil => rwa [List.map_nil, List.append_nil] at hpart
  | cons x v =>
    -- a longer word would go on with the character that follows
    refine List.prefix_of_prefix_length_le hpart (List.prefix_append ..) (Nat.not_lt.mp fun hlt => ?_)
    have hx := hpart.getElem hlt
    rw [List.getElem_append_right (Nat.le_refl _)] at hx
    have hform : isForm x := by
      have hletter := List.all_eq_true.mp (hlower w' hw') _ (List.getElem_mem hlt)
      rw [hx] at hletter
      simpa [isForm] using hletter
    rw [hv x rfl] at hform
    cases hform

end Regex

end Snippet
