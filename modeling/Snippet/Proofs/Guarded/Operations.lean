import Snippet.Detection.Outcome
import Snippet.Proofs.Pattern.Occurrences

/-!
# Guarded runs

On a machine a text is the bytes of its UTF-8 form and a whole number is a word of some bits. A part
of a text can only be cut out between bytes at which characters start, an unsigned number can only be
diminished by a smaller one, and a signed one must stay in the range of its word. A guarded run asks
for all of this at each step that needs it, and breaks off where it does not hold.

The stretches of the matches of a pattern can always be cut out: asking for them breaks nothing off
(`captures_eq`, `occurrences_eq`), and neither does a replacement of all matches (`replace_eq`).
-/

namespace Snippet

/-- A stretch lies in a text. -/
def Span.Within (s : Span) (t : Text) : Prop :=
  ∃ a u b, t = a ++ (u ++ b) ∧ s = ⟨a.length, a.length + u.length⟩

/-- A run that may end without a result, and that may break off. -/
abbrev Guarded (α : Type) : Type := OptionT (Except Fault) α

namespace Guarded

variable {α β : Type}

/-- The run that breaks off. -/
def abort : Guarded α := OptionT.mk (throw .aborted)

/-- The run that does not break off, and has a result if there is one. -/
def option (o : Option α) : Guarded α := OptionT.mk (pure o)

@[simp] theorem option_some (a : α) : option (some a) = pure a := rfl

@[simp] theorem option_none : option (none : Option α) = failure := rfl

/-- To go on after a result it is enough to do so after those that there can be. -/
theorem option_bind_congr {o : Option α} {f : α → Guarded β} {g : α → Option β}
    (h : ∀ a, o = some a → f a = option (g a)) : option o >>= f = option (o >>= g) := by
  cases o with
  | none => rfl
  | some a => exact h a rfl

/-- A run whose missing result is a result. -/
def attempt (x : Guarded α) : Guarded (Option α) := OptionT.mk (x.run.map some)

@[simp] theorem attempt_option (o : Option α) : attempt (option o) = pure o := rfl

/-- The results of a list of runs, without those that have none. -/
def collect (f : α → Guarded β) : List α → Guarded (List β)
  | [] => pure []
  | a :: as => do
    let found ← attempt (f a)
    return found.toList ++ (← collect f as)

theorem collect_eq {f : α → Guarded β} {g : α → Option β} {as : List α}
    (h : ∀ a ∈ as, f a = option (g a)) : collect f as = pure (as.filterMap g) := by
  induction as with
  | nil => rfl
  | cons a as ih =>
    have hrest := ih fun b hb => h b (List.mem_cons_of_mem a hb)
    rw [collect, h a List.mem_cons_self, attempt_option, pure_bind, hrest, pure_bind]
    cases hg : g a with
    | none => simp [hg]
    | some b => simp [hg]

/-! ## Machine numbers -/

/-- The difference of two unsigned numbers. -/
def subtract (a b : Nat) : Guarded Nat := if b ≤ a then pure (a - b) else abort

theorem subtract_eq {a b : Nat} (h : b ≤ a) : subtract a b = pure (a - b) := if_pos h

theorem add_subtract (a b : Nat) : subtract (a + b) a = pure b := by
  rw [subtract_eq (Nat.le_add_right a b), Nat.add_sub_cancel_left]

/-- A signed number in a word of some bits. -/
def signed (bits : Nat) (n : Int) : Guarded Int :=
  if -2 ^ (bits - 1) ≤ n ∧ n < 2 ^ (bits - 1) then pure n else abort

theorem signed_eq {bits : Nat} {n : Int} (h : -2 ^ (bits - 1) ≤ n ∧ n < 2 ^ (bits - 1)) :
    signed bits n = pure n := if_pos h

/-! ## Parts of a text -/

/-- The parts of a text before and after a number of bytes, unless that cuts through a character or
there are fewer. -/
def splitBytes? : Text → (size : Nat) → Option (Text × Text)
  | t, 0 => some ([], t)
  | [], _ + 1 => none
  | c :: t, size + 1 =>
    if c.utf8Size ≤ size + 1 then
      (splitBytes? t (size + 1 - c.utf8Size)).map fun s => (c :: s.1, s.2)
    else none

/-- The part of a text between two numbers of bytes. -/
def slice (t : Text) (start stop : Nat) : Guarded Text :=
  match (splitBytes? t stop).bind fun s => splitBytes? s.1 start with
  | some s => pure s.2
  | none => abort

/-- The number of bytes in front of a character; for the places behind the end it goes on. -/
def byteOf (t : Text) (place : Nat) : Nat := Text.utf8Size (t.take place) + (place - t.length)

/-- The part of a text in a stretch of its characters. -/
def sliceSpan (t : Text) (s : Span) : Guarded Text := slice t (byteOf t s.start) (byteOf t s.stop)

variable {t : Text}

theorem utf8Size_cons (c : Char) (t : Text) :
    Text.utf8Size (c :: t) = c.utf8Size + Text.utf8Size t := by
  simp [Text.utf8Size]

theorem utf8Size_append (a b : Text) :
    Text.utf8Size (a ++ b) = Text.utf8Size a + Text.utf8Size b := by
  simp [Text.utf8Size]

theorem splitBytes?_append (a b : Text) : splitBytes? (a ++ b) (Text.utf8Size a) = some (a, b) := by
  induction a with
  | nil => cases b <;> rfl
  | cons c a ih =>
    have hpos := c.utf8Size_pos
    obtain ⟨n, hn⟩ : ∃ n, Text.utf8Size (c :: a) = n + 1 := ⟨c.utf8Size - 1 + Text.utf8Size a, by
      rw [utf8Size_cons]
      omega⟩
    have hsize : n + 1 - c.utf8Size = Text.utf8Size a := by
      rw [← hn, utf8Size_cons, Nat.add_sub_cancel_left]
    have hle : c.utf8Size ≤ n + 1 := by
      rw [← hn, utf8Size_cons]
      exact Nat.le_add_right _ _
    rw [hn, List.cons_append, splitBytes?, if_pos hle, hsize, ih]
    rfl

/-- A part that begins and ends where characters do can be cut out. -/
theorem slice_append (a u b : Text) :
    slice (a ++ (u ++ b)) (Text.utf8Size a) (Text.utf8Size a + Text.utf8Size u) = pure u := by
  have hstop := splitBytes?_append (a ++ u) b
  rw [utf8Size_append, List.append_assoc] at hstop
  rw [slice, hstop, Option.bind_some, splitBytes?_append]

theorem slice_front (a b : Text) : slice (a ++ b) 0 (Text.utf8Size a) = pure a := by
  have h := slice_append [] a b
  rwa [List.nil_append, show Text.utf8Size [] = 0 from rfl, Nat.zero_add] at h

theorem slice_back (a b : Text) :
    slice (a ++ b) (Text.utf8Size a) (Text.utf8Size (a ++ b)) = pure b := by
  have h := slice_append a b []
  rwa [List.append_nil, ← utf8Size_append] at h

theorem byteOf_append (a b : Text) : byteOf (a ++ b) a.length = Text.utf8Size a := by
  simp [byteOf]

theorem byteOf_append_append (a u b : Text) :
    byteOf (a ++ (u ++ b)) (a.length + u.length) = Text.utf8Size a + Text.utf8Size u := by
  have h := byteOf_append (a ++ u) b
  rwa [List.append_assoc, List.length_append, utf8Size_append] at h

theorem sliceSpan_append (a u b : Text) :
    sliceSpan (a ++ (u ++ b)) ⟨a.length, a.length + u.length⟩ = pure u := by
  rw [sliceSpan, byteOf_append, byteOf_append_append, slice_append]

/-! ## Matches -/

/-- Cuts out all stretches of a list. -/
def demand (t : Text) : List Span → Guarded Unit
  | [] => pure ()
  | s :: spans => do
    let _ ← sliceSpan t s
    demand t spans

theorem demand_eq {spans : List Span} (h : ∀ s ∈ spans, s.Within t) : demand t spans = pure () := by
  induction spans with
  | nil => rfl
  | cons s spans ih =>
    obtain ⟨a, u, b, rfl, rfl⟩ := h s List.mem_cons_self
    rw [demand, sliceSpan_append, pure_bind, ih fun s hs => h s (List.mem_cons_of_mem _ hs)]

/-- The match of a pattern with a whole text, whose stretch and groups are cut out. -/
def captures (p : Pattern) (t : Text) : Guarded Match := do
  let m ← option (p.full? t)
  demand t (m.span :: m.groups.map Prod.snd)
  return m

/-- The matches of a pattern in a text, which are cut out. -/
def occurrences (p : Pattern) (t : Text) : Guarded (List Match) := do
  demand t ((p.findAll t).map Match.span)
  return p.findAll t

/-- **The groups of a match can be cut out.** -/
theorem captures_eq (p : Pattern) (t : Text) : captures p t = option (p.full? t) := by
  have hmatch : captures p t = option (p.full? t >>= some) := by
    refine option_bind_congr fun m hm => ?_
    have hoccurs := Pattern.occurrence_of_full? hm
    rw [demand_eq, pure_bind, option_some]
    intro s hs
    rcases List.mem_cons.mp hs with rfl | hs
    · exact ⟨[], t, [], by simp, by simpa using hoccurs.span_eq⟩
    · obtain ⟨g, hg, rfl⟩ := List.mem_map.mp hs
      obtain ⟨-, -, x, y, z, ht, -, hspan⟩ := hoccurs.groups_eq g hg
      exact ⟨x, y, z, ht, by simpa using hspan⟩
  rw [hmatch]
  cases p.full? t <;> rfl

/-- **The matches in a text can be cut out.** -/
theorem occurrences_eq (p : Pattern) (t : Text) : occurrences p t = pure (p.findAll t) := by
  rw [occurrences, demand_eq, pure_bind]
  intro s hs
  obtain ⟨m, hm, rfl⟩ := List.mem_map.mp hs
  obtain ⟨a, u, b, ht, hoccurs⟩ := Pattern.occurrence_of_mem_findAll hm
  exact ⟨a, u, b, ht, hoccurs.span_eq⟩

/-- The text with each of its matches from a place on replaced by its value under `f`. -/
def replace (f : Text → Guarded Text) (t : Text) : (last : Nat) → List Match → Guarded Text
  | last, [] => slice t (byteOf t last) (Text.utf8Size t)
  | last, m :: ms => do
    let gap ← slice t (byteOf t last) (byteOf t m.span.start)
    let inside ← f (← sliceSpan t m.span)
    return gap ++ inside ++ (← replace f t m.span.stop ms)

theorem replace_of_pieces {f : Text → Guarded Text} {g : Text → Text} {r : Regex} {pos : Nat}
    {rest : Text} {ms : List Match} (hf : ∀ u, f u = pure (g u)) (hms : Pieces r pos rest ms)
    (before : Text) (hpos : pos = before.length) :
    replace f (before ++ rest) pos ms = pure (Match.replaceFrom g rest pos ms) := by
  induction hms generalizing before with
  | nil => rw [replace, hpos, byteOf_append, slice_back, Match.replaceFrom]
  | @cons pos gap u b m ms hoccurs _ ih =>
    subst hpos
    have hspan : m.span = ⟨(before ++ gap).length, (before ++ gap).length + u.length⟩ := by
      rw [hoccurs.span_eq, List.length_append]
    have htext : before ++ (gap ++ (u ++ b)) = (before ++ gap) ++ (u ++ b) := by simp
    have hgap : slice (before ++ (gap ++ (u ++ b)))
        (byteOf (before ++ (gap ++ (u ++ b))) before.length)
        (byteOf (before ++ (gap ++ (u ++ b))) m.span.start) = pure gap := by
      rw [byteOf_append, hspan, List.length_append, byteOf_append_append, slice_append]
    have hrest := ih (before ++ gap ++ u) (by simp; omega)
    have hstop : m.span.stop = before.length + gap.length + u.length := by rw [hoccurs.span_eq]
    rw [List.append_assoc, List.append_assoc] at hrest
    rw [Match.replaceFrom_cons hoccurs, replace, hgap, pure_bind, hstop, hrest]
    rw [htext, hspan, sliceSpan_append, pure_bind, hf, pure_bind, pure_bind]

/-- **A replacement of all matches breaks nothing off.** -/
theorem replace_eq {f : Text → Guarded Text} {g : Text → Text} (hf : ∀ u, f u = pure (g u))
    (p : Pattern) (t : Text) :
    replace f t 0 (p.findAll t) = pure (Match.replaceFrom g t 0 (p.findAll t)) :=
  replace_of_pieces hf (p.pieces_findAll t) [] rfl

end Guarded

end Snippet
