/-!
# Texts

A text is a list of characters. This module holds the white space class, the trimming and
splitting operations on texts, and search for a fixed phrase.

The main statements: trimming removes only white space (`leadingWhite_append_trimStart`,
`trimEnd_append_trailingWhite`), and `Text.find?` splits a text at the first occurrence of a phrase
(`eq_append_of_find?`).
-/

namespace Snippet

/-- A text, as the sequence of its characters. -/
abbrev Text := List Char

namespace Text

/-- White space of all scripts. -/
def isWhite (c : Char) : Bool :=
  let n := c.toNat
  (9 ≤ n && n ≤ 13) || n == 0x20 || n == 0x85 || n == 0xa0 || n == 0x1680 ||
    (0x2000 ≤ n && n ≤ 0x200a) || n == 0x2028 || n == 0x2029 || n == 0x202f || n == 0x205f ||
    n == 0x3000

/-- The white space that a text starts with. -/
def leadingWhite (t : Text) : Text := t.takeWhile isWhite

/-- The text without the white space that it starts with. -/
def trimStart (t : Text) : Text := t.dropWhile isWhite

/-- The longest end of the text whose characters all satisfy `p`. -/
def takeWhileEnd (p : Char → Bool) (t : Text) : Text := (t.reverse.takeWhile p).reverse

/-- The text without the longest end whose characters all satisfy `p`. -/
def dropWhileEnd (p : Char → Bool) (t : Text) : Text := (t.reverse.dropWhile p).reverse

/-- The white space that a text ends with. -/
def trailingWhite (t : Text) : Text := takeWhileEnd isWhite t

/-- The text without the white space that it ends with. -/
def trimEnd (t : Text) : Text := dropWhileEnd isWhite t

/-- The text without surrounding white space. -/
def trim (t : Text) : Text := trimStart (trimEnd t)

/-- A text of white space only. -/
def isBlank (t : Text) : Bool := t.all isWhite

/-- The pieces of a text between the characters that satisfy `p`; one more than there are such
characters. -/
def splitWhere (p : Char → Bool) : Text → List Text
  | [] => [[]]
  | c :: t =>
    if p c then [] :: splitWhere p t
    else
      match splitWhere p t with
      | [] => [[c]]
      | w :: ws => (c :: w) :: ws

/-- The non-empty pieces of a text between the characters that satisfy `p`. -/
def wordsWhere (p : Char → Bool) (t : Text) : List Text :=
  (splitWhere p t).filter fun w => !w.isEmpty

/-- The text after `phrase`, where the text starts with it. -/
def dropPhrase? : (phrase t : Text) → Option Text
  | [], t => some t
  | _ :: _, [] => none
  | p :: ps, c :: t => if p = c then dropPhrase? ps t else none

/-- The parts of a text before and after the first occurrence of a phrase. -/
def find? (phrase : Text) : Text → Option (Text × Text)
  | [] => (dropPhrase? phrase []).map fun r => ([], r)
  | c :: t =>
    match dropPhrase? phrase (c :: t) with
    | some r => some ([], r)
    | none => (find? phrase t).map fun s => (c :: s.1, s.2)

/-- Whether a phrase stands anywhere in the text. -/
def hasPhrase (phrase t : Text) : Bool := (find? phrase t).isSome

/-- The number of characters before the end of the last occurrence of a phrase. -/
def lastEnd? (phrase t : Text) : Option Nat :=
  (find? phrase.reverse t.reverse).map fun s => s.2.length + phrase.length

/-- Capital letters of ASCII as small letters; all other characters are kept. -/
def lower (t : Text) : Text := t.map Char.toLower

/-- Equality up to the case of ASCII letters. -/
def eqIgnoringCase (s t : Text) : Bool := lower s == lower t

/-- The texts of a list with `sep` between them. -/
def join (sep : Text) : List Text → Text
  | [] => []
  | [t] => t
  | t :: ts => t ++ sep ++ join sep ts

-- the sum of no numbers is the literal zero, whatever else is imported
attribute [local instance (100000)] Zero.ofOfNat0

/-- The number of bytes of the text in UTF-8. -/
def utf8Size (t : Text) : Nat := (t.map Char.utf8Size).sum

/-- The bytes of the text in UTF-8. -/
def utf8 (t : Text) : List UInt8 := t.flatMap String.utf8EncodeChar

/-- White space, then the trimmed start, make up the text. -/
theorem leadingWhite_append_trimStart (t : Text) : leadingWhite t ++ trimStart t = t :=
  List.takeWhile_append_dropWhile

/-- A text is its part without the longest end in a class, then that end. -/
theorem dropWhileEnd_append_takeWhileEnd (p : Char → Bool) (t : Text) :
    dropWhileEnd p t ++ takeWhileEnd p t = t := by
  simp [dropWhileEnd, takeWhileEnd, ← List.reverse_append]

/-- The trimmed end, then white space, make up the text. -/
theorem trimEnd_append_trailingWhite (t : Text) : trimEnd t ++ trailingWhite t = t :=
  dropWhileEnd_append_takeWhileEnd isWhite t

/-- What follows a phrase is what is left after it. -/
theorem eq_append_of_dropPhrase? {phrase t r : Text} (h : dropPhrase? phrase t = some r) :
    t = phrase ++ r := by
  fun_induction dropPhrase? phrase t with
  | case1 t => simpa using h
  | case2 => simp at h
  | case3 p ps t ih => simp [ih h]
  | case4 => simp at h

/-- The two parts of a search stand around the phrase. -/
theorem eq_append_of_find? {phrase t a b : Text} (h : find? phrase t = some (a, b)) :
    t = a ++ phrase ++ b := by
  induction t generalizing a b with
  | nil =>
    simp only [find?, Option.map_eq_some_iff] at h
    obtain ⟨r, hr, h⟩ := h
    cases h
    simpa using eq_append_of_dropPhrase? hr
  | cons c t ih =>
    simp only [find?] at h
    split at h
    · rename_i r hr
      cases h
      simpa using eq_append_of_dropPhrase? hr
    · simp only [Option.map_eq_some_iff] at h
      obtain ⟨s, hs, h⟩ := h
      cases h
      simp [ih hs]

/-- What comes after a phrase is shorter than the text by the phrase at least. -/
theorem length_add_le_of_find? {phrase t a b : Text} (h : find? phrase t = some (a, b)) :
    b.length + phrase.length ≤ t.length := by
  rw [eq_append_of_find? h]
  simp
  omega

end Text

end Snippet
