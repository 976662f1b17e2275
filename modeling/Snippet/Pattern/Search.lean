import Snippet.Pattern.Threads

/-!
# Searching a text

A pattern is a regular expression with its automaton. A match of a pattern is a stretch of the text
with its capture groups. Full matches cover the whole text; loose matches are the preferred ones at
the leftmost places, and after a match the search goes on behind it.

The main statements: full and loose matches are the preferred outcomes of the expression
(`full?_eq`, `find?_eq`), and the leftmost match is the first of all (`find?_eq_head?`).
-/

namespace Snippet

/-- A stretch of a text that matches, with the groups recorded in it, newest first. -/
structure Match where
  span : Span
  groups : List (Nat × Span)
  deriving DecidableEq, Repr

namespace Match

/-- The match that ended at a cursor. -/
def ofCursor (c : Cursor) : Match := ⟨⟨c.origin, c.pos⟩, c.groups⟩

/-- The stretch of a group; group 0 is the match itself. -/
def group? (m : Match) (index : Nat) : Option Span :=
  if index = 0 then some m.span else m.groups.lookup index

/-- The characters of a group. -/
def text? (m : Match) (t : Text) (index : Nat) : Option Text :=
  (m.group? index).map fun s => s.of t

/-- The matched characters. -/
def text (m : Match) (t : Text) : Text := m.span.of t

/-- The texts of the `n` groups from number `first` on, if all took part in the match. -/
def groupRow? (m : Match) (t : Text) (first n : Nat) : Option (List Text) :=
  (List.range n).mapM fun i => m.text? t (first + i)

/-- For an expression of alternatives with `n` groups each: the groups of the first alternative,
of `rows`, that took part in the match. -/
def alternative? (m : Match) (t : Text) (rows n : Nat) : Option (List Text) :=
  (List.range rows).findSome? fun row => m.groupRow? t (1 + row * n) n

/-- The text left at character number `pos`, with each of the given matches, which follow each other
from there, replaced by its value under `f`. -/
def replaceFrom (f : Text → Text) : (rest : Text) → (pos : Nat) → List Match → Text
  | rest, _, [] => rest
  | rest, pos, m :: ms =>
    let here := rest.drop (m.span.start - pos)
    rest.take (m.span.start - pos) ++ f (here.take m.span.length) ++
      replaceFrom f (here.drop m.span.length) m.span.stop ms

end Match

/-- A regular expression with its automaton. -/
structure Pattern where
  regex : Regex
  automaton : Automaton regex.size
  automaton_eq : automaton = regex.automaton

namespace Pattern

/-- The pattern of an expression. -/
def ofRegex (r : Regex) : Pattern := ⟨r, r.automaton.tabulate, r.automaton.tabulate_eq⟩

/-- The preferred match among those that cover the whole text. -/
def full? (p : Pattern) (t : Text) : Option Match :=
  (p.automaton.preferred? (fun q => q.rest.isEmpty) (.start (.start t))).map .ofCursor

/-- The leftmost match in a text. -/
def find? (p : Pattern) (t : Text) : Option Match :=
  (p.automaton.leftmost? (.start t)).map .ofCursor

/-- All matches from a place on, left to right, none of which overlap. An empty match is followed by
the search one character later. Since every match but the last reads a character or leaves one
behind, one more search than characters are left is enough. -/
def findAllFrom (p : Pattern) : (fuel : Nat) → Place → List Match
  | 0, _ => []
  | fuel + 1, q =>
    match p.automaton.leftmost? q with
    | none => []
    | some c =>
      let behind? := if c.pos = c.origin then c.next? else some c.toPlace
      .ofCursor c :: (behind?.map (p.findAllFrom fuel)).getD []

/-- All matches in a text, left to right. -/
def findAll (p : Pattern) (t : Text) : List Match := p.findAllFrom (t.length + 1) (.start t)

/-- Whether the pattern matches the whole text. -/
def matchesAll (p : Pattern) (t : Text) : Bool := (p.full? t).isSome

/-- Whether the pattern matches anywhere in the text. -/
def occursIn (p : Pattern) (t : Text) : Bool := (p.find? t).isSome

/-- The text with every match replaced by its value under `f`. -/
def replaceAll (p : Pattern) (f : Text → Text) (t : Text) : Text :=
  Match.replaceFrom f t 0 (p.findAll t)

/-- The preferred full match is the first outcome of the expression that reads the whole text. -/
theorem full?_eq (p : Pattern) (t : Text) :
    p.full? t =
      ((p.regex.outcomes (.start (.start t))).find? fun c => c.rest.isEmpty).map .ofCursor := by
  rw [full?, p.automaton_eq, Automaton.preferred?_eq, Regex.outcomes_automaton]

/-- The leftmost match is the first outcome of the expression from the start on. -/
theorem find?_eq (p : Pattern) (t : Text) :
    p.find? t = (p.regex.outcomesFrom (.start t)).head?.map .ofCursor := by
  rw [find?, p.automaton_eq, Automaton.leftmost?_eq, Regex.outcomesFrom]
  simp only [Regex.outcomes_automaton]

/-- The leftmost match of a text is the first of its matches. -/
theorem find?_eq_head? (p : Pattern) (t : Text) : p.find? t = (p.findAll t).head? := by
  simp only [find?, findAll, findAllFrom]
  cases p.automaton.leftmost? (.start t) <;> rfl

end Pattern

end Snippet
