import Snippet.Text.Basic
import Snippet.Text.DecimalDigit
import Snippet.Text.WordCharacter

/-!
# Regular expressions

Expressions with greedy and lazy repetition, capture groups, word boundaries and an end mark.
`Regex.outcomes` lists all ways to match from a place, in the order of preference: at a choice the
left branch comes first, a greedy repetition prefers one more round and a lazy one prefers to stop.
A round that reads nothing is not taken.

The main statement: a repetition is one more round and a repetition, or the stop (`outcomes_star`).
-/

namespace Snippet

/-- A stretch of a text: the characters from number `start` up to number `stop`. -/
structure Span where
  start : Nat
  stop : Nat
  deriving DecidableEq, Repr, Inhabited

/-- The characters of a stretch. -/
def Span.of (s : Span) (t : Text) : Text := (t.drop s.start).take (s.stop - s.start)

/-- The number of characters of a stretch. -/
def Span.length (s : Span) : Nat := s.stop - s.start

/-- A regular expression. A class of characters is given by its membership test. -/
inductive Regex where
  /-- Matches without reading. -/
  | empty
  /-- One character of a class. -/
  | one (p : Char → Bool)
  /-- The first, then the second. -/
  | seq (r s : Regex)
  /-- The first or else the second. -/
  | alt (r s : Regex)
  /-- Any number of rounds, as many as possible or as few as possible. -/
  | star (greedy : Bool) (r : Regex)
  /-- A group whose stretch is recorded under a number. -/
  | group (index : Nat) (r : Regex)
  /-- A place with a word character on exactly one side. -/
  | wordBoundary
  /-- The end of the text. -/
  | textEnd

/-- A place in a text: the number of characters before it, the last of them, and those after it. -/
structure Place where
  pos : Nat
  last : Option Char
  rest : Text

namespace Place

/-- The start of a text. -/
def start (t : Text) : Place := ⟨0, none, t⟩

/-- The place after a character was read, with the given text left. -/
def read (p : Place) (x : Char) (rest : Text) : Place := ⟨p.pos + 1, some x, rest⟩

@[simp] theorem rest_read (p : Place) (x : Char) (rest : Text) : (p.read x rest).rest = rest := rfl

/-- The places from a place on, one for each character that is left and one for the end. -/
def onwardFrom : (rest : Text) → (pos : Nat) → (last : Option Char) → List Place
  | [], pos, last => [⟨pos, last, []⟩]
  | x :: rest, pos, last => ⟨pos, last, x :: rest⟩ :: onwardFrom rest (pos + 1) (some x)

/-- This place and all later ones. -/
def onward (p : Place) : List Place := onwardFrom p.rest p.pos p.last

/-- The place one character later, unless the text ends. -/
def next? (p : Place) : Option Place :=
  match p.rest with
  | [] => none
  | x :: rest => some (p.read x rest)

/-- Whether exactly one neighbour of this place is a word character. -/
def atWordBoundary (p : Place) : Bool :=
  p.last.any Text.isWord != p.rest.head?.any Text.isWord

end Place

/-- A place in a text while matching: where the match began, where the groups that are still open
began, and the groups recorded so far, the newest first. -/
structure Cursor extends Place where
  origin : Nat
  opened : List Nat := []
  groups : List (Nat × Span) := []

namespace Cursor

/-- The beginning of a match. -/
def start (p : Place) : Cursor := ⟨p, p.pos, [], []⟩

/-- Reads a character, with the given text left. -/
def read (c : Cursor) (x : Char) (rest : Text) : Cursor :=
  { c with toPlace := c.toPlace.read x rest }

/-- Opens a group. -/
def openGroup (c : Cursor) : Cursor := { c with opened := c.pos :: c.opened }

/-- Closes the group that was opened last and records its stretch. -/
def closeGroup (index : Nat) (c : Cursor) : Cursor :=
  match c.opened with
  | [] => c
  | start :: opened => { c with opened, groups := (index, ⟨start, c.pos⟩) :: c.groups }

@[simp] theorem toPlace_read (c : Cursor) (x : Char) (rest : Text) :
    (c.read x rest).toPlace = c.toPlace.read x rest := rfl

@[simp] theorem rest_read (c : Cursor) (x : Char) (rest : Text) : (c.read x rest).rest = rest := rfl

@[simp] theorem toPlace_openGroup (c : Cursor) : c.openGroup.toPlace = c.toPlace := rfl

@[simp] theorem toPlace_closeGroup (index : Nat) (c : Cursor) :
    (c.closeGroup index).toPlace = c.toPlace := by
  unfold closeGroup
  split <;> rfl

end Cursor

namespace Regex

/-- The outcomes of at most `fuel` rounds of `body`, in the order of preference. -/
def repeatOutcomes (greedy : Bool) (body : Cursor → List Cursor) :
    (fuel : Nat) → Cursor → List Cursor
  | 0, c => [c]
  | fuel + 1, c =>
    let more := (body c).flatMap fun d =>
      if d.rest.length < c.rest.length then repeatOutcomes greedy body fuel d else []
    if greedy then more ++ [c] else c :: more

/-- All ways to match from `c`, as the places where they end, in the order of preference. Since
every round reads a character, as many rounds as characters are left are enough. -/
def outcomes : Regex → Cursor → List Cursor
  | empty, c => [c]
  | one p, c =>
    match c.rest with
    | [] => []
    | x :: rest => if p x then [c.read x rest] else []
  | seq r s, c => (r.outcomes c).flatMap s.outcomes
  | alt r s, c => r.outcomes c ++ s.outcomes c
  | star greedy r, c => repeatOutcomes greedy r.outcomes c.rest.length c
  | group index r, c => (r.outcomes c.openGroup).map (Cursor.closeGroup index)
  | wordBoundary, c => if c.atWordBoundary then [c] else []
  | textEnd, c => if c.rest.isEmpty then [c] else []

/-- All ways to match that begin at a place or later, in the order of their beginnings. -/
def outcomesFrom (r : Regex) (p : Place) : List Cursor :=
  p.onward.flatMap fun q => r.outcomes (.start q)

/-- The number of capture groups, as the largest number of one. -/
def groupCount : Regex → Nat
  | empty | one _ | wordBoundary | textEnd => 0
  | seq r s | alt r s => max r.groupCount s.groupCount
  | star _ r => r.groupCount
  | group index r => max index r.groupCount

/-- Without a character left there is no further round. -/
theorem repeatOutcomes_of_rest_eq_nil (greedy : Bool) (body : Cursor → List Cursor) (fuel : Nat)
    {c : Cursor} (h : c.rest = []) : repeatOutcomes greedy body fuel c = [c] := by
  cases fuel with
  | zero => rfl
  | succ fuel => cases greedy <;> simp [repeatOutcomes, h]

/-- More rounds than characters that are left make no difference. -/
theorem repeatOutcomes_eq (greedy : Bool) (body : Cursor → List Cursor) (fuel : Nat) (c : Cursor)
    (h : c.rest.length ≤ fuel) :
    repeatOutcomes greedy body fuel c = repeatOutcomes greedy body c.rest.length c := by
  induction fuel using Nat.strongRecOn generalizing c with
  | _ fuel ih =>
    cases hc : c.rest with
    | nil => simp only [repeatOutcomes_of_rest_eq_nil _ _ _ hc]
    | cons x rest =>
      obtain ⟨fuel, rfl⟩ : ∃ k, fuel = k + 1 := ⟨fuel - 1, by simp [hc] at h; omega⟩
      have hmore : ∀ n, rest.length ≤ n → n ≤ fuel → ∀ d : Cursor,
          d.rest.length < rest.length + 1 →
          repeatOutcomes greedy body n d = repeatOutcomes greedy body d.rest.length d :=
        fun n _ hn d hd => ih n (by omega) d (by omega)
      simp only [hc, List.length_cons] at h
      simp only [repeatOutcomes, hc, List.length_cons]
      have hflat : ∀ n, rest.length ≤ n → n ≤ fuel →
          ((body c).flatMap fun d =>
            if d.rest.length < rest.length + 1 then repeatOutcomes greedy body n d else []) =
          (body c).flatMap fun d =>
            if d.rest.length < rest.length + 1 then
              repeatOutcomes greedy body d.rest.length d else [] := by
        intro n hn hn'
        congr 1
        funext d
        split
        · rename_i hd
          exact hmore n hn hn' d hd
        · rfl
      rw [hflat fuel (by omega) (Nat.le_refl _), hflat rest.length (Nat.le_refl _) (by omega)]

/-- A repetition is one more round and a repetition, or the stop, in the order of its
preference. -/
theorem outcomes_star (greedy : Bool) (r : Regex) (c : Cursor) :
    (star greedy r).outcomes c =
      let more := (r.outcomes c).flatMap fun d =>
        if d.rest.length < c.rest.length then (star greedy r).outcomes d else []
      if greedy then more ++ [c] else c :: more := by
  simp only [outcomes]
  rw [← repeatOutcomes_eq greedy r.outcomes (c.rest.length + 1) c (by omega)]
  have hflat : ((r.outcomes c).flatMap fun d =>
      if d.rest.length < c.rest.length then
        repeatOutcomes greedy r.outcomes c.rest.length d else []) =
      (r.outcomes c).flatMap fun d =>
        if d.rest.length < c.rest.length then
          repeatOutcomes greedy r.outcomes d.rest.length d else [] := by
    congr 1
    funext d
    split
    · rename_i hd
      exact repeatOutcomes_eq _ _ _ d (by omega)
    · rfl
  simp only [repeatOutcomes, hflat]

end Regex

end Snippet
