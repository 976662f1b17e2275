import Snippet.Proofs.Pattern.Occurrences

/-!
# The preferred outcome

The outcomes of an expression are listed in the order of preference, and a match is made of the
first. `Regex.Prefers` says of a cursor which text the expression reads first of all and which
groups it records on the way. It follows the constructors: a sequence prefers what its parts prefer
one after the other (`Prefers.seq`), a choice what its first branch prefers, and where this has no
outcome, the second (`Prefers.right`); a repetition of a class reads all characters of the class
(`Prefers.many`). A whole text that is preferred is the full match (`Pattern.full?_of_prefers`).
-/

namespace Snippet

/-- The cursor when `u` has been read, `v` is left, and the groups `gs` were recorded meanwhile. -/
def Cursor.after (c : Cursor) (u v : Text) (gs : List (Nat × Span)) : Cursor where
  pos := c.pos + u.length
  last := u.getLast?.or c.last
  rest := v
  origin := c.origin
  opened := c.opened
  groups := gs ++ c.groups

theorem Cursor.after_after (c : Cursor) (u x v w : Text) (gs gs' : List (Nat × Span)) :
    (c.after u x gs).after v w gs' = c.after (u ++ v) w (gs' ++ gs) := by
  simp [after, List.getLast?_append, Option.or_assoc, Nat.add_assoc]

theorem Cursor.after_nil (c : Cursor) : c.after [] c.rest [] = c := by
  simp [after]

namespace Regex

variable {r s : Regex} {c : Cursor} {u v w x : Text} {gs gs' : List (Nat × Span)}

/-- Of all outcomes at the cursor, the preferred one has read `u`, with `v` left, and has recorded
the groups `gs`. -/
structure Prefers (r : Regex) (c : Cursor) (u v : Text) (gs : List (Nat × Span)) : Prop where
  rest_eq : c.rest = u ++ v
  head?_eq : (r.outcomes c).head? = some (c.after u v gs)

/-- An expression that reads no start of what is left has no outcome. -/
theorem outcomes_eq_nil (h : ∀ u v, c.rest = u ++ v → ¬ r.Reads u) : r.outcomes c = [] := by
  rw [List.eq_nil_iff_forall_not_mem]
  intro d hd
  obtain ⟨u, hu⟩ := exists_advance hd
  exact h u d.rest hu.rest_eq hu.reads

/-- An expression whose first character is in a class has no outcome in front of another one. -/
theorem outcomes_eq_nil_of_starts {p : Char → Prop} (hr : r.Starts p)
    (h : ∀ x ∈ c.rest.head?, ¬ p x) : r.outcomes c = [] := by
  refine outcomes_eq_nil fun u v huv hread => ?_
  obtain ⟨x, u, rfl, hx⟩ := hread.exists_cons hr
  exact h x (by simp [huv]) hx

/-- A character of a class is read. -/
theorem outcomes_one {p : Char → Bool} {a : Char} (hc : c.rest = a :: v) (ha : p a) :
    (one p).outcomes c = [c.after [a] v []] := by
  simp [outcomes, hc, ha, Cursor.after, Cursor.read, Place.read]

/-- There is less left when a character was read. -/
theorem length_rest_after_lt {a : Char} (hc : c.rest = a :: v) :
    (c.after [a] v []).rest.length < c.rest.length := by
  simp [hc, Cursor.after]

namespace Prefers

theorem empty : Prefers empty c [] c.rest [] := ⟨rfl, by rw [Cursor.after_nil]; rfl⟩

theorem one {p : Char → Bool} {a : Char} (hc : c.rest = a :: v) (ha : p a) :
    Prefers (one p) c [a] v [] :=
  ⟨hc, by rw [outcomes_one hc ha]; rfl⟩

/-- What the first part prefers, and from there what the second part prefers. -/
theorem seq (hr : Prefers r c u x gs) (hs : Prefers s (c.after u x gs) v w gs') :
    Prefers (seq r s) c (u ++ v) w (gs' ++ gs) := by
  have hx : x = v ++ w := hs.rest_eq
  refine ⟨by rw [hr.rest_eq, hx, List.append_assoc], ?_⟩
  obtain ⟨ds, hds⟩ := List.head?_eq_some_iff.mp hr.head?_eq
  rw [outcomes, hds, List.flatMap_cons, List.head?_append, hs.head?_eq, Cursor.after_after]
  rfl

theorem all_cons {rs : List Regex} (hr : Prefers r c u x gs)
    (hs : Prefers (all rs) (c.after u x gs) v w gs') :
    Prefers (all (r :: rs)) c (u ++ v) w (gs' ++ gs) := by
  cases rs with
  | cons s rs => exact hr.seq hs
  | nil =>
    -- nothing is read and nothing recorded behind the last part
    have heq := Option.some.inj hs.head?_eq
    have hv : v = [] := by
      have hpos := congrArg (fun d : Cursor => d.pos) heq
      simpa [Cursor.after] using hpos
    have hgs : gs' = [] := by
      have hgroups := congrArg Cursor.groups heq
      simpa [Cursor.after] using hgroups
    subst hv hgs
    obtain rfl : x = w := hs.rest_eq
    rwa [List.append_nil]

theorem left (hr : Prefers r c u v gs) : Prefers (alt r s) c u v gs :=
  ⟨hr.rest_eq, by rw [outcomes, List.head?_append, hr.head?_eq]; rfl⟩

theorem right (hr : r.outcomes c = []) (hs : Prefers s c u v gs) : Prefers (alt r s) c u v gs :=
  ⟨hs.rest_eq, by rw [outcomes, hr, List.nil_append, hs.head?_eq]⟩

theorem group {index : Nat} (hr : Prefers r c.openGroup u v gs) :
    Prefers (group index r) c u v ((index, ⟨c.pos, c.pos + u.length⟩) :: gs) := by
  refine ⟨hr.rest_eq, ?_⟩
  rw [outcomes, List.head?_map, hr.head?_eq]
  rfl

theorem wordBoundary (hc : c.atWordBoundary) : Prefers wordBoundary c [] c.rest [] :=
  ⟨rfl, by rw [Cursor.after_nil, outcomes, if_pos hc]; rfl⟩

/-- An optional part that is not there. -/
theorem opt_nil (hr : r.outcomes c = []) : Prefers (Regex.opt r) c [] c.rest [] := empty.right hr

/-- The first of several expressions that has an outcome. -/
theorem anyOf {before after : List Regex} (hbefore : ∀ s ∈ before, s.outcomes c = [])
    (hr : Prefers r c u v gs) : Prefers (anyOf (before ++ r :: after)) c u v gs := by
  induction before with
  | nil =>
    cases after with
    | nil => exact hr
    | cons s after => exact hr.left
  | cons s before ih =>
    rw [List.forall_mem_cons] at hbefore
    have hrest := ih hbefore.2
    cases hbs : before ++ r :: after with
    | nil => simp at hbs
    | cons s' rs =>
      rw [hbs] at hrest
      rw [List.cons_append, hbs]
      exact hrest.right hbefore.1

/-- A repetition reads all characters of its class. -/
theorem many {p : Char → Bool} (hc : c.rest = u ++ v) (hu : ∀ x ∈ u, p x)
    (hv : ∀ x ∈ v.head?, ¬ p x) : Prefers (many (Regex.one p)) c u v [] := by
  refine ⟨hc, ?_⟩
  induction u generalizing c with
  | nil =>
    have hone : (Regex.one p).outcomes c = [] :=
      outcomes_eq_nil_of_starts (p := (p ·)) (fun _ => id) (by rwa [hc])
    rw [List.nil_append] at hc
    rw [Regex.many, outcomes_star, hone, ← hc, Cursor.after_nil]
    rfl
  | cons a u ih =>
    rw [List.forall_mem_cons] at hu
    rw [List.cons_append] at hc
    have hmore := ih (c := c.after [a] (u ++ v) []) rfl hu.2
    rw [Regex.many] at hmore ⊢
    rw [outcomes_star, outcomes_one hc hu.1, List.flatMap_singleton,
      if_pos (length_rest_after_lt hc), if_pos rfl, List.head?_append, hmore, Cursor.after_after]
    rfl

/-- A repetition of at least one round reads all characters of its class. -/
theorem many1 {p : Char → Bool} (hc : c.rest = u ++ v) (hne : u ≠ []) (hu : ∀ x ∈ u, p x)
    (hv : ∀ x ∈ v.head?, ¬ p x) : Prefers (many1 (Regex.one p)) c u v [] := by
  obtain ⟨a, u, rfl⟩ := List.exists_cons_of_ne_nil hne
  rw [List.forall_mem_cons] at hu
  exact (one (p := p) hc hu.1).seq (many rfl hu.2 hv)

/-- A repetition of a class and one more character, which is of the class as well: the repetition
leaves the last character that may come at the end. -/
theorem many_one {p q : Char → Bool} {d : Char} (hqp : ∀ x, q x → p x) (hc : c.rest = u ++ d :: v)
    (hu : ∀ x ∈ u, p x) (hd : q d) (hv : ∀ x ∈ v.head?, ¬ p x) :
    Prefers (Regex.seq (Regex.many (Regex.one p)) (Regex.one q)) c (u ++ [d]) v [] := by
  refine ⟨by simp [hc], ?_⟩
  have hseq : ∀ c, (Regex.seq (Regex.many (Regex.one p)) (Regex.one q)).outcomes c =
      ((Regex.many (Regex.one p)).outcomes c).flatMap (Regex.one q).outcomes := fun _ => rfl
  -- a further round is preferred to the last character
  have hround : ∀ {c : Cursor} {x : Char} {t : Text}, c.rest = x :: t → p x →
      (Regex.seq (Regex.many (Regex.one p)) (Regex.one q)).outcomes c =
        (Regex.seq (Regex.many (Regex.one p)) (Regex.one q)).outcomes (c.after [x] t []) ++
          (Regex.one q).outcomes c := by
    intro c x t hc hx
    have hmany : (Regex.many (Regex.one p)).outcomes c =
        (Regex.many (Regex.one p)).outcomes (c.after [x] t []) ++ [c] := by
      rw [Regex.many, outcomes_star, outcomes_one hc hx, List.flatMap_singleton,
        if_pos (length_rest_after_lt hc), if_pos rfl]
    rw [hseq, hseq, hmany, List.flatMap_append, List.flatMap_singleton]
  induction u generalizing c with
  | nil =>
    have hnone : (Regex.seq (Regex.many (Regex.one p)) (Regex.one q)).outcomes (c.after [d] v []) =
        [] := by
      refine outcomes_eq_nil fun a b hab hread => ?_
      obtain ⟨w, e, rfl, hw, he⟩ := reads_seq_iff.mp hread
      obtain ⟨x, rfl, hx⟩ := reads_one_iff.mp he
      have hab : v = w ++ [x] ++ b := hab
      cases w with
      | nil => exact hv x (by simp [hab]) (hqp x hx)
      | cons y w => exact hv y (by simp [hab]) (reads_star_one_iff.mp hw y (List.mem_cons_self ..))
    rw [hround hc (hqp d hd), hnone, List.nil_append, List.nil_append]
    rw [outcomes_one hc hd]
    rfl
  | cons a u ih =>
    rw [List.forall_mem_cons] at hu
    have hmore := ih (c := c.after [a] (u ++ d :: v) []) rfl hu.2
    rw [hround (t := u ++ d :: v) hc hu.1, List.head?_append, hmore, Cursor.after_after]
    rfl

end Prefers

end Regex

/-! ## Full matches -/

/-- **A whole text that is preferred is the full match.** -/
theorem Pattern.full?_of_prefers {p : Pattern} {t : Text} {gs : List (Nat × Span)}
    (h : p.regex.Prefers (.start (.start t)) t [] gs) : p.full? t = some ⟨⟨0, t.length⟩, gs⟩ := by
  obtain ⟨ds, hds⟩ := List.head?_eq_some_iff.mp h.head?_eq
  rw [full?_eq, hds, List.find?_cons_of_pos (by rfl)]
  simp [Match.ofCursor, Cursor.after, Cursor.start, Place.start]

end Snippet
