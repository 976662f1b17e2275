import Snippet.Proofs.Pattern.Language

/-!
# Letters up to case

An expression for a letter reads the forms of this letter, so an expression for a word reads the
texts that are the word when all forms of a letter are taken for the small one (`reads_word_iff`).
A text whose small letters are a word is read by it (`map_foldCase_eq_of_lower`).
-/

namespace Snippet

namespace Text

section Decidable

-- These come before any instance that goes through all the characters there are.

instance (priority := 1100) (p : Char → Prop) [DecidablePred p] (t : Text) :
    Decidable (∀ c ∈ t, p c) :=
  List.decidableBAll p t

instance (priority := 1100) (p : Char → Prop) [DecidablePred p] (o : Option Char) :
    Decidable (∀ c ∈ o, p c) :=
  Option.decidableForallMem o

end Decidable

/-- A letter as the small letter of ASCII that it is a form of. -/
def foldCase (c : Char) : Char :=
  if c = 'ſ' then 's' else if c = '\u212a' then 'k' else c.toLower

theorem toNat_toLower (x : Char) :
    x.toLower.toNat = if 65 ≤ x.toNat ∧ x.toNat ≤ 90 then x.toNat + 32 else x.toNat := by
  unfold Char.toLower
  by_cases h : x.val ≥ 'A'.val ∧ x.val ≤ 'Z'.val
  · have h' : 65 ≤ x.toNat ∧ x.toNat ≤ 90 := h
    rw [dif_pos h, if_pos h']
    change (x.val + 32).toNat = _
    rw [UInt32.toNat_add]
    change (x.toNat + 32) % _ = _
    omega
  · have h' : ¬ (65 ≤ x.toNat ∧ x.toNat ≤ 90) := h
    rw [dif_neg h, if_neg h']

theorem toNat_toUpper (x : Char) :
    x.toUpper.toNat = if 97 ≤ x.toNat ∧ x.toNat ≤ 122 then x.toNat - 32 else x.toNat := by
  unfold Char.toUpper
  by_cases h : 'a'.val ≤ x.val ∧ x.val ≤ 'z'.val
  · have h' : 97 ≤ x.toNat ∧ x.toNat ≤ 122 := h
    rw [dif_pos h, if_pos h']
    -- the difference of the codes wraps around
    change (x.val + ('A'.val - 'a'.val)).toNat = _
    rw [UInt32.toNat_add]
    change (x.toNat + 4294967264) % _ = _
    omega
  · have h' : ¬ (97 ≤ x.toNat ∧ x.toNat ≤ 122) := h
    rw [dif_neg h, if_neg h']

theorem isLower_iff {c : Char} : c.isLower ↔ 97 ≤ c.toNat ∧ c.toNat ≤ 122 := by
  change (decide (97 ≤ c.toNat) && decide (c.toNat ≤ 122)) = true ↔ _
  rw [Bool.and_eq_true, decide_eq_true_eq, decide_eq_true_eq]

theorem toLower_eq_iff {c x : Char} (h : c.isLower) : x.toLower = c ↔ x = c ∨ x = c.toUpper := by
  have hc := isLower_iff.mp h
  have hinj : ∀ {y z : Char}, y = z ↔ y.toNat = z.toNat := fun {y z} =>
    ⟨fun h => h ▸ rfl, fun h => Char.ext (UInt32.toNat_inj.mp h)⟩
  rw [hinj, hinj, hinj, toNat_toLower, toNat_toUpper, if_pos hc]
  split <;> omega

/-! ## Letters and digits of ASCII -/

theorem isAlpha_iff {x : Char} :
    x.isAlpha ↔ 65 ≤ x.toNat ∧ x.toNat ≤ 90 ∨ 97 ≤ x.toNat ∧ x.toNat ≤ 122 := by
  change (decide (65 ≤ x.toNat ∧ x.toNat ≤ 90) || x.isLower) = true ↔ _
  rw [Bool.or_eq_true, decide_eq_true_eq, isLower_iff]

theorem isAlpha_of_toLower {x : Char} (h : x.toLower.isLower) : x.isAlpha := by
  have hx := toNat_toLower x
  have hlower := isLower_iff.mp h
  rw [isAlpha_iff]
  split at hx <;> omega

theorem toNat_of_isAlpha {x : Char} (h : x.isAlpha) :
    65 ≤ x.toNat ∧ x.toNat ≤ 90 ∨ 97 ≤ x.toNat ∧ x.toNat ≤ 122 :=
  isAlpha_iff.mp h

theorem toNat_of_isDigit {x : Char} (h : x.isDigit) : 48 ≤ x.toNat ∧ x.toNat ≤ 57 := by
  simp only [Char.isDigit, Bool.and_eq_true, decide_eq_true_eq] at h
  exact h

/-- Digits of ASCII have one byte each. -/
theorem utf8Size_of_isDigit {t : Text} (h : ∀ c ∈ t, c.isDigit) : utf8Size t = t.length := by
  have hone : ∀ c ∈ t, c.utf8Size = 1 := by
    intro c hc
    have hcode := toNat_of_isDigit (h c hc)
    refine Char.utf8Size_eq_one_iff.mpr ?_
    rw [UInt32.le_iff_toNat_le]
    exact Nat.le_trans hcode.2 (by decide)
  rw [utf8Size, List.map_congr_left hone, List.map_const', List.sum_replicate_nat, Nat.mul_one]

theorem isAlphanum_of_isDigit {x : Char} (h : x.isDigit) : x.isAlphanum := by
  rw [Char.isAlphanum, h, Bool.or_true]

theorem isAlphanum_of_isAlpha {x : Char} (h : x.isAlpha) : x.isAlphanum := by
  rw [Char.isAlphanum, h, Bool.true_or]

theorem isWord_of_isAlphanum {x : Char} (h : x.isAlphanum) : isWord x := by
  have hx : x.toNat < 0x80 := by
    rw [Char.isAlphanum, Bool.or_eq_true] at h
    rcases h with h | h
    · have := toNat_of_isAlpha h
      omega
    · have := toNat_of_isDigit h
      omega
  rw [isWord, if_pos hx, h, Bool.true_or]

theorem isDigit_eq_false_of_isAlpha {x : Char} (h : x.isAlpha) : isDigit x = false := by
  have hx := toNat_of_isAlpha h
  have hlt : x.toNat < 0x80 := by omega
  rw [isDigit, if_pos hlt, ← Bool.not_eq_true]
  intro hdigit
  have := toNat_of_isDigit hdigit
  omega

theorem isWhite_eq_false_of_isAlphanum {x : Char} (h : x.isAlphanum) : isWhite x = false := by
  have hx : 48 ≤ x.toNat ∧ x.toNat ≤ 122 := by
    rw [Char.isAlphanum, Bool.or_eq_true] at h
    rcases h with h | h
    · have := toNat_of_isAlpha h
      omega
    · have := toNat_of_isDigit h
      omega
  simp only [isWhite, Bool.or_eq_false_iff, Bool.and_eq_false_iff, decide_eq_false_iff_not,
    beq_eq_false_iff_ne]
  omega

/-- The numbers of the white space characters. -/
def whiteCodes : List Nat :=
  [9, 10, 11, 12, 13, 0x20, 0x85, 0xa0, 0x1680, 0x2000, 0x2001, 0x2002, 0x2003, 0x2004, 0x2005,
    0x2006, 0x2007, 0x2008, 0x2009, 0x200a, 0x2028, 0x2029, 0x202f, 0x205f, 0x3000]

/-- What holds of the white space characters, one after the other. -/
theorem of_isWhite {q : Char → Prop} (hall : ∀ n ∈ whiteCodes, q (Char.ofNat n)) {x : Char}
    (h : isWhite x) : q x := by
  have hmem : x.toNat ∈ whiteCodes := by
    simp only [isWhite, Bool.or_eq_true, Bool.and_eq_true, decide_eq_true_eq, beq_iff_eq] at h
    simp only [whiteCodes, List.mem_cons, List.not_mem_nil, or_false]
    omega
  simpa using hall _ hmem

/-- The digits among the characters of ASCII. -/
theorem isDigit_of_ascii {x : Char} (h : isDigit x) (hascii : x.toNat < 128) : x.isDigit := by
  rwa [isDigit, if_pos hascii] at h

/-- No white space of any script is a digit of any script. -/
theorem isWhite_eq_false_of_isDigit {x : Char} (h : isDigit x) : isWhite x = false := by
  rw [← Bool.not_eq_true]
  intro hwhite
  rw [of_isWhite (q := (isDigit · = false)) (by decide +kernel) hwhite] at h
  cases h

theorem isWord_eq_false_of_isWhite {x : Char} (h : isWhite x) : isWord x = false :=
  of_isWhite (q := (isWord · = false)) (by decide +kernel) h

/-- A character of ASCII is a form of its small letter only. -/
theorem foldCase_of_ascii {x : Char} (h : x.toNat < 128) : foldCase x = x.toLower := by
  rw [foldCase, if_neg, if_neg]
  · rintro rfl
    exact absurd h (by decide)
  · rintro rfl
    exact absurd h (by decide)

theorem foldCase_of_toLower {c x : Char} (hc : c.isLower) (h : x.toLower = c) :
    foldCase x = c := by
  unfold foldCase
  split
  · rename_i hx
    subst hx
    rw [← h] at hc
    exact absurd hc (by decide)
  · split
    · rename_i hx
      subst hx
      rw [← h] at hc
      exact absurd hc (by decide)
    · exact h

/-- A text whose small letters are a word, up to case. -/
theorem map_foldCase_eq_of_lower {t w : Text} (hw : w.all Char.isLower) (h : lower t = w) :
    t.map foldCase = w := by
  subst h
  refine List.map_congr_left fun x hx => ?_
  exact foldCase_of_toLower (List.all_eq_true.mp hw _ (List.mem_map_of_mem hx)) rfl

end Text

namespace Regex

open Text (foldCase)

variable {u : Text}

/-- The class of a letter up to case. -/
theorem isLetter_iff {c x : Char} (h : c.isLower) :
    (x == c || x == c.toUpper || (c == 's' && x == 'ſ') || (c == 'k' && x == '\u212a')) ↔
      foldCase x = c := by
  simp only [Bool.or_eq_true, Bool.and_eq_true, beq_iff_eq, ← Text.toLower_eq_iff h, foldCase]
  have hlong : c ≠ 'ſ' := by
    rintro rfl
    exact absurd h (by decide)
  have hkelvin : c ≠ '\u212a' := by
    rintro rfl
    exact absurd h (by decide)
  split
  · rename_i hx
    subst hx
    simp [hlong, eq_comm]
  · split
    · rename_i hx
      subst hx
      simp [hkelvin, eq_comm]
    · rename_i hx hx'
      simp [hx, hx']

theorem reads_letter_iff {c : Char} (h : c.isLower) :
    (letter c).Reads u ↔ ∃ x, u = [x] ∧ foldCase x = c := by
  rw [letter, reads_one_iff]
  simp only [isLetter_iff h]

theorem reads_all_cons_iff {r : Regex} {rs : List Regex} :
    (all (r :: rs)).Reads u ↔ ∃ a b, u = a ++ b ∧ r.Reads a ∧ (all rs).Reads b := by
  cases rs with
  | nil =>
    constructor
    · exact fun h => ⟨u, [], (List.append_nil u).symm, h, .empty⟩
    · rintro ⟨a, b, rfl, ha, hb⟩
      rwa [reads_empty_iff.mp hb, List.append_nil]
  | cons s rs => exact reads_seq_iff

/-- **A word reads its forms.** -/
theorem reads_word_iff {w : String} (h : w.toList.all Char.isLower) :
    (word w).Reads u ↔ u.map foldCase = w.toList := by
  rw [word]
  generalize w.toList = cs at h
  induction cs generalizing u with
  | nil =>
    rw [List.map_nil, all, reads_empty_iff, List.map_eq_nil_iff]
  | cons c cs ih =>
    rw [List.all_cons, Bool.and_eq_true] at h
    rw [List.map_cons, reads_all_cons_iff, List.map_eq_cons_iff]
    constructor
    · rintro ⟨a, b, rfl, ha, hb⟩
      obtain ⟨x, rfl, hx⟩ := (reads_letter_iff h.1).mp ha
      exact ⟨x, b, rfl, hx, (ih h.2).mp hb⟩
    · rintro ⟨x, b, rfl, hx, hb⟩
      exact ⟨[x], b, rfl, (reads_letter_iff h.1).mpr ⟨x, rfl, hx⟩, (ih h.2).mpr hb⟩

theorem reads_anyOf_iff {rs : List Regex} : (anyOf rs).Reads u ↔ ∃ r ∈ rs, r.Reads u := by
  induction rs with
  | nil =>
    rw [anyOf, reads_one_iff]
    simp
  | cons r rs ih =>
    cases rs with
    | nil => simp [anyOf]
    | cons s rs =>
      change (alt r (anyOf (s :: rs))).Reads u ↔ _
      rw [reads_alt_iff, ih]
      simp

theorem reads_opt_iff {r : Regex} : (opt r).Reads u ↔ u = [] ∨ r.Reads u := by
  rw [opt, reads_alt_iff, reads_empty_iff, or_comm]

/-- Words read the forms of each of them. -/
theorem reads_words_iff {ws : List String} (h : ∀ w ∈ ws, w.toList.all Char.isLower) :
    (words ws).Reads u ↔ ∃ w ∈ ws, u.map foldCase = w.toList := by
  rw [words, reads_anyOf_iff]
  constructor
  · rintro ⟨r, hr, hread⟩
    obtain ⟨w, hw, rfl⟩ := List.mem_map.mp hr
    exact ⟨w, hw, (reads_word_iff (h w hw)).mp hread⟩
  · rintro ⟨w, hw, hu⟩
    exact ⟨word w, List.mem_map_of_mem hw, (reads_word_iff (h w hw)).mpr hu⟩

end Regex

end Snippet
