import Snippet.Proofs.Pattern.Leftmost
import Snippet.Proofs.Pattern.Taking

/-!
# The text that a replacement makes

`Pattern.Rewrites` reads a text from left to right: a character at which no match begins is kept,
and a stretch that the pattern takes is replaced. The replacement of all matches is the text that
comes of this (`Pattern.Rewrites.replaceAll_eq`), so no match has to be located to know it.
-/

namespace Snippet

open Regex

namespace Match

variable {r : Regex} {f : Text → Text} {pos : Nat} {rest : Text} {ms : List Match}

/-- A character in front of all matches is kept. -/
theorem replaceFrom_cons_rest (hms : Pieces r (pos + 1) rest ms) (x : Char) :
    replaceFrom f (x :: rest) pos ms = x :: replaceFrom f rest (pos + 1) ms := by
  cases hms with
  | nil => rfl
  | @cons _ gap u b m ms hm hms =>
    have hpos : pos + 1 + gap.length = pos + (x :: gap).length := by
      rw [List.length_cons]
      omega
    rw [replaceFrom_cons hm, ← List.cons_append]
    rw [hpos] at hm ⊢
    rw [replaceFrom_cons hm]
    rfl

end Match

namespace Pattern

variable {p : Pattern} {f : Text → Text} {a t t' u v v' : Text} {x : Char} {fuel : Nat}

/-- Reading a text from left to right, where every stretch that the pattern takes is replaced. -/
inductive Rewrites (p : Pattern) (f : Text → Text) : Text → Text → Prop where
  | nil : Rewrites p f [] []
  /-- No match begins at the character. -/
  | skip {x : Char} {t t' : Text} : (∀ u v, x :: t = u ++ v → ¬ p.regex.Reads u) →
      Rewrites p f t t' → Rewrites p f (x :: t) (x :: t')
  | take {u v v' : Text} {next : Text → Prop} {gs : Nat → List (Nat × Span)} :
      p.regex.Takes u next gs → u ≠ [] → next v → Rewrites p f v v' →
      Rewrites p f (u ++ v) (f u ++ v')

/-! ## The search from a place -/

/-- Where no match begins, the search goes on behind the next character. -/
theorem findAllFrom_cons (h : p.regex.outcomes (.start (.between a (x :: t))) = []) :
    p.findAllFrom fuel (.between a (x :: t)) = p.findAllFrom fuel (.between (a ++ [x]) t) := by
  have hleft : p.automaton.leftmost? (.between a (x :: t)) =
      p.automaton.leftmost? (.between (a ++ [x]) t) := by
    rw [leftmost?_between, h]
    rfl
  cases fuel with
  | zero => rfl
  | succ fuel => rw [findAllFrom, findAllFrom, hleft]

/-- Where a match is taken, the search goes on behind it. -/
theorem exists_findAllFrom_append (fuel : Nat) {gs : List (Nat × Span)} (hu : u ≠ [])
    (h : p.regex.Prefers (.start (.between a (u ++ v))) u v gs) :
    ∃ m, Occurrence p.regex m a.length u ∧ p.findAllFrom (fuel + 1) (.between a (u ++ v)) =
      m :: p.findAllFrom fuel (.between (a ++ u) v) := by
  generalize hc : (Cursor.start (.between a (u ++ v))).after u v gs = c
  have hhead := h.head?_eq
  rw [hc] at hhead
  have horigin : c.origin = a.length := by rw [← hc]; rfl
  have hpos : c.pos = a.length + u.length := by rw [← hc]; rfl
  have hrest : c.rest = v := by rw [← hc]; rfl
  have hplace : c.toPlace = .between (a ++ u) v := by
    rw [← hc]
    simp [Cursor.after, Cursor.start, Place.between, List.getLast?_append]
  have hoccurs : Occurrence p.regex (.ofCursor c) a.length u := by
    obtain ⟨w, hw, -, -, hoccurs⟩ := Occurrence.of_mem_outcomes (List.mem_of_head? hhead)
    rw [hrest] at hw
    obtain rfl : u = w := List.append_cancel_right hw
    exact hoccurs
  have hmoved : c.pos ≠ c.origin := by
    have hlength := List.length_pos_iff.mpr hu
    omega
  refine ⟨.ofCursor c, hoccurs, ?_⟩
  rw [findAllFrom, leftmost?_between, hhead, Option.some_or]
  dsimp only
  rw [if_neg hmoved, hplace]
  rfl

/-- At the end of the text there is no match. -/
theorem findAllFrom_nil (hne : ¬ p.regex.Reads []) : p.findAllFrom fuel (.between a []) = [] := by
  have hnone : p.regex.outcomes (.start (.between a [])) = [] := by
    refine outcomes_eq_nil fun u v huv hread => hne ?_
    obtain ⟨rfl, -⟩ := List.append_eq_nil_iff.mp (show [] = u ++ v from huv).symm
    exact hread
  cases fuel with
  | zero => rfl
  | succ fuel =>
    rw [findAllFrom, leftmost?_between, hnone]
    rfl

namespace Rewrites

theorem replaceFrom_eq (hne : ¬ p.regex.Reads []) (h : Rewrites p f t t')
    (hfuel : t.length < fuel) :
    Match.replaceFrom f t a.length (p.findAllFrom fuel (.between a t)) = t' := by
  induction h generalizing a fuel with
  | nil =>
    rw [findAllFrom_nil hne]
    rfl
  | @skip x t t' hnone _ ih =>
    have hpieces : Pieces p.regex (a.length + 1) t
        (p.findAllFrom fuel (.between (a ++ [x]) t)) := by
      simpa [Place.between] using p.pieces_findAllFrom fuel (.between (a ++ [x]) t)
    have hrest := ih (a := a ++ [x]) (Nat.lt_of_succ_lt hfuel)
    rw [List.length_append, List.length_singleton] at hrest
    rw [findAllFrom_cons (outcomes_eq_nil hnone), Match.replaceFrom_cons_rest hpieces, hrest]
  | @take u v v' next gs htakes hu hv _ ih =>
    cases fuel with
    | zero => cases hfuel
    | succ fuel =>
      obtain ⟨m, hm, hms⟩ := exists_findAllFrom_append fuel hu
        (htakes (c := .start (.between a (u ++ v))) rfl hv)
      have hlength := List.length_pos_iff.mpr hu
      rw [List.length_append] at hfuel
      have hrest := @ih (a ++ u) fuel (by omega)
      rw [List.length_append] at hrest
      have hplace : Occurrence p.regex m (a.length + ([] : Text).length) u := hm
      rw [hms]
      exact (Match.replaceFrom_cons hplace _).trans (congrArg (f u ++ ·) hrest)

/-- **The replacement of all matches reads the text from left to right.** -/
theorem replaceAll_eq (hne : ¬ p.regex.Reads []) (h : Rewrites p f t t') : p.replaceAll f t = t' :=
  h.replaceFrom_eq (a := []) hne (Nat.lt_succ_self _)

end Rewrites

end Pattern

end Snippet
