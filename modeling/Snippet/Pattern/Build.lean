import Snippet.Pattern.Regex

/-!
# Building regular expressions

Sequences, choices, optional parts, counted repetition, and letters up to case.
-/

namespace Snippet.Regex

/-- A sequence of expressions. -/
def all : List Regex → Regex
  | [] => empty
  | [r] => r
  | r :: rs => seq r (all rs)

/-- A choice between expressions, earlier ones preferred. -/
def anyOf : List Regex → Regex
  | [] => one fun _ => false
  | [r] => r
  | r :: rs => alt r (anyOf rs)

/-- An optional part, preferably present. -/
def opt (r : Regex) : Regex := alt r empty

/-- Any number of rounds, as many as possible. -/
def many (r : Regex) : Regex := star true r

/-- Any number of rounds, as few as possible. -/
def few (r : Regex) : Regex := star false r

/-- At least one round, as many as possible. -/
def many1 (r : Regex) : Regex := seq r (many r)

/-- Exactly `n` rounds. -/
def times (r : Regex) (n : Nat) : Regex := all (List.replicate n r)

/-- At most `n` rounds, as many as possible. -/
def upTo (r : Regex) : Nat → Regex
  | 0 => empty
  | n + 1 => opt (seq r (upTo r n))

/-- Between `m` and `m + n` rounds, as many as possible. -/
def timesUpTo (r : Regex) (m n : Nat) : Regex := seq (times r m) (upTo r n)

/-- The given character. -/
def char (c : Char) : Regex := one fun x => x == c

/-- One of the given characters. -/
def charIn (cs : List Char) : Regex := one fun x => cs.contains x

/-- The given characters in sequence. -/
def chars (t : Text) : Regex := all (t.map char)

/-- A letter up to case, given as a small letter of ASCII. The long s and the Kelvin sign are
other cases of `s` and `k`. -/
def letter (c : Char) : Regex :=
  one fun x => x == c || x == c.toUpper || (c == 's' && x == 'ſ') || (c == 'k' && x == '\u212a')

/-- A word up to case, given in small letters. -/
def word (w : String) : Regex := all (w.toList.map letter)

/-- One of several words up to case, earlier ones preferred. -/
def words (ws : List String) : Regex := anyOf (ws.map word)

/-- A decimal digit. -/
def digit : Regex := one Text.isDigit

/-- A white space character. -/
def white : Regex := one Text.isWhite

/-- A character other than white space. -/
def nonwhite : Regex := one fun x => !Text.isWhite x

/-- A letter of ASCII. -/
def asciiLetter : Regex := one Char.isAlpha

/-- A letter or digit of ASCII. -/
def asciiAlphanum : Regex := one Char.isAlphanum

end Snippet.Regex
