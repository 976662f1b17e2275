import Snippet.Proofs.Pattern.Preferred

/-!
# What an expression takes from a text

`Regex.Takes` says which text an expression prefers to read wherever this text comes next, under a
condition on what follows it. The statements follow the constructors, as those on the preferred
outcome do, but speak of no cursor: the groups are given by the place where the reading begins. A
pattern between word boundaries takes what is read between them (`Takes.wordBounded`), and a
pattern that takes a whole text matches it (`Pattern.full?_of_takes`).
-/

namespace Snippet

namespace Regex

variable {r s : Regex} {c : Cursor} {u v w : Text} {next next' : Text → Prop}
  {gs gs' : Nat → List (Nat × Span)}

/-- Where `u` comes next and what follows satisfies `next`, the expression prefers to read `u`, and
records the groups `gs` of the place where it begins. -/
def Takes (r : Regex) (u : Text) (next : Text → Prop) (gs : Nat → List (Nat × Span)) : Prop :=
  ∀ ⦃c : Cursor⦄ ⦃v : Text⦄, c.rest = u ++ v → next v → Prefers r c u v (gs c.pos)

/-- No group is recorded. -/
def noGroups : Nat → List (Nat × Span) := fun _ => []

/-- Any text. -/
def Anything : Text → Prop := fun _ => True

/-- A text that does not go on with a character of a class. -/
def NoneNext (p : Char → Bool) (v : Text) : Prop := ∀ x ∈ v.head?, p x = false

/-- A text that starts with a character outside of a class. -/
def StartsOutside (p : Char → Bool) (v : Text) : Prop := ∃ x t, v = x :: t ∧ p x = false

theorem StartsOutside.cons {p : Char → Bool} {x : Char} (hx : p x = false) :
    StartsOutside p (x :: v) :=
  ⟨x, v, rfl, hx⟩

theorem StartsOutside.append {p : Char → Bool} (h : StartsOutside p u) (v : Text) :
    StartsOutside p (u ++ v) := by
  obtain ⟨x, t, rfl, hx⟩ := h
  exact .cons hx

theorem StartsOutside.noneNext {p : Char → Bool} (h : StartsOutside p v) : NoneNext p v := by
  obtain ⟨x, t, rfl, hx⟩ := h
  simpa [NoneNext] using hx

theorem NoneNext.mono {p q : Char → Bool} (h : NoneNext q v) (hpq : ∀ x, p x → q x) :
    NoneNext p v := by
  intro x hx
  rw [← Bool.not_eq_true]
  intro hp
  have hnot := h x hx
  rw [hpq x hp] at hnot
  cases hnot

theorem noneNext_of_eq_nil {p : Char → Bool} : ∀ v : Text, v = [] → NoneNext p v := by
  rintro - rfl
  simp [NoneNext]

namespace Takes

theorem mono (h : Takes r u next gs) (hnext : ∀ v, next' v → next v) : Takes r u next' gs :=
  fun _ v hc hv => h hc (hnext v hv)

theorem congr (h : Takes r u next gs) (hgs : ∀ k, gs k = gs' k) : Takes r u next gs' :=
  (funext hgs : gs = gs') ▸ h

theorem of_anything (h : Takes r u Anything gs) : Takes r u next gs := h.mono fun _ _ => trivial

theorem empty : Takes empty [] Anything noGroups := by
  intro c v hc _
  rw [List.nil_append] at hc
  exact hc ▸ .empty

theorem one {p : Char → Bool} {a : Char} (ha : p a) : Takes (one p) [a] Anything noGroups :=
  fun _ _ hc _ => .one hc ha

theorem char (a : Char) : Takes (char a) [a] Anything noGroups := one BEq.rfl

theorem seq (hr : Takes r u next gs) (hs : Takes s v next' gs')
    (hnext : ∀ w, next' w → next (v ++ w)) :
    Takes (seq r s) (u ++ v) next' fun k => gs' (k + u.length) ++ gs k := by
  intro c w hc hw
  rw [List.append_assoc] at hc
  exact (hr hc (hnext w hw)).seq (hs rfl hw)

/-- The second part, where the first takes its text whatever follows. -/
theorem andThen (hr : Takes r u Anything gs) (hs : Takes s v next gs') :
    Takes (Regex.seq r s) (u ++ v) next fun k => gs' (k + u.length) ++ gs k :=
  hr.seq hs fun _ _ => trivial

/-- The second part, where the first takes its text in front of what the second takes. -/
theorem followedBy {p : Char → Bool} (hr : Takes r u (NoneNext p) gs) (hs : Takes s v next gs')
    (hv : StartsOutside p v) : Takes (Regex.seq r s) (u ++ v) next fun k =>
      gs' (k + u.length) ++ gs k :=
  hr.seq hs fun w _ => (hv.append w).noneNext

theorem left (hr : Takes r u next gs) : Takes (alt r s) u next gs :=
  fun _ _ hc hv => (hr hc hv).left

theorem group (hr : Takes r u next gs) (index : Nat) :
    Takes (group index r) u next fun k => (index, ⟨k, k + u.length⟩) :: gs k :=
  fun _ _ hc hv => Prefers.group (hr hc hv)

theorem opt (hr : Takes r u next gs) : Takes (opt r) u next gs := hr.left

/-- An optional part that is not there: something else comes next. -/
theorem opt_nil {p : Char → Bool} (hr : r.Starts (p ·)) :
    Takes (Regex.opt r) [] (NoneNext p) noGroups := by
  intro c v hc hv
  rw [List.nil_append] at hc
  subst hc
  refine .opt_nil (outcomes_eq_nil_of_starts hr fun x hx => ?_)
  rw [hv x hx]
  exact Bool.false_ne_true

/-- An optional part that is not there, at the end. -/
theorem opt_end (hr : ¬ r.Reads []) : Takes (Regex.opt r) [] (· = []) noGroups := by
  intro c v hc hv
  rw [List.nil_append] at hc
  subst hc
  refine .opt_nil (outcomes_eq_nil fun u w huw hread => hr ?_)
  rwa [(List.append_eq_nil_iff.mp (huw.symm.trans hv)).1] at hread

/-- The first of several expressions that reads a start of the text. -/
theorem anyOf {before after : List Regex}
    (hbefore : ∀ s ∈ before, ∀ a v w, u ++ v = a ++ w → ¬ s.Reads a) (hr : Takes r u next gs) :
    Takes (anyOf (before ++ r :: after)) u next gs := by
  intro c v hc hv
  refine .anyOf (fun s hs => outcomes_eq_nil fun a w haw => ?_) (hr hc hv)
  exact hbefore s hs a v w (hc ▸ haw)

theorem many {p : Char → Bool} (hu : ∀ x ∈ u, p x) :
    Takes (many (Regex.one p)) u (NoneNext p) noGroups := by
  refine fun _ _ hc hv => .many hc hu fun x hx => ?_
  rw [hv x hx]
  exact Bool.false_ne_true

theorem many1 {p : Char → Bool} (hne : u ≠ []) (hu : ∀ x ∈ u, p x) :
    Takes (many1 (Regex.one p)) u (NoneNext p) noGroups := by
  refine fun _ _ hc hv => .many1 hc hne hu fun x hx => ?_
  rw [hv x hx]
  exact Bool.false_ne_true

/-- White space in front of something else. -/
theorem white (hu : Text.isBlank u) :
    Takes (Regex.many Regex.white) u (NoneNext Text.isWhite) noGroups :=
  many (List.all_eq_true.mp hu)

theorem white1 (hne : u ≠ []) (hu : Text.isBlank u) :
    Takes (Regex.many1 Regex.white) u (NoneNext Text.isWhite) noGroups :=
  many1 hne (List.all_eq_true.mp hu)

/-- The first part of a sequence and the parts behind it. -/
theorem all_cons {rs : List Regex} (hr : Takes r u next gs) (hs : Takes (all rs) v next' gs')
    (hnext : ∀ w, next' w → next (v ++ w)) :
    Takes (all (r :: rs)) (u ++ v) next' fun k => gs' (k + u.length) ++ gs k := by
  intro c w hc hw
  rw [List.append_assoc] at hc
  exact (hr hc (hnext w hw)).all_cons (hs rfl hw)

/-! ### Counted repetition -/

theorem times {p : Char → Bool} {n : Nat} (hlength : u.length = n) (hu : ∀ x ∈ u, p x) :
    Takes (times (Regex.one p) n) u Anything noGroups := by
  rw [Regex.times]
  induction u generalizing n with
  | nil =>
    subst hlength
    exact .empty
  | cons x u ih =>
    subst hlength
    rw [List.forall_mem_cons] at hu
    exact (one hu.1).all_cons (ih rfl hu.2) fun _ _ => trivial

/-- At most `n` characters of a class, of which no more come next. -/
theorem upTo {p : Char → Bool} {n : Nat} (hlength : u.length ≤ n) (hu : ∀ x ∈ u, p x) :
    Takes (upTo (Regex.one p) n) u (NoneNext p) noGroups := by
  induction u generalizing n with
  | nil =>
    cases n with
    | zero => exact Takes.empty.of_anything
    | succ n => exact .opt_nil (.inl fun _ => id)
  | cons x u ih =>
    rw [List.forall_mem_cons] at hu
    rw [List.length_cons] at hlength
    obtain ⟨n, rfl⟩ : ∃ k, n = k + 1 := ⟨n - 1, by omega⟩
    exact ((one hu.1).andThen (ih (by omega) hu.2)).opt

theorem timesUpTo {p : Char → Bool} {m n : Nat} (hm : m ≤ u.length) (hn : u.length ≤ m + n)
    (hu : ∀ x ∈ u, p x) : Takes (timesUpTo (Regex.one p) m n) u (NoneNext p) noGroups := by
  have hfirst : Takes (Regex.times (Regex.one p) m) (u.take m) Anything noGroups :=
    times (List.length_take_of_le hm) fun x hx => hu x (List.mem_of_mem_take hx)
  have hrest : Takes (Regex.upTo (Regex.one p) n) (u.drop m) (NoneNext p) noGroups :=
    upTo (by rw [List.length_drop]; omega) fun x hx => hu x (List.mem_of_mem_drop hx)
  have hread := hfirst.andThen hrest
  rwa [List.take_append_drop] at hread

end Takes

/-! ## Word boundaries -/

/-- Behind the last part of a sequence. -/
theorem outcomes_all_concat (rs : List Regex) (s : Regex) (c : Cursor) :
    (all (rs ++ [s])).outcomes c = ((all rs).outcomes c).flatMap s.outcomes := by
  induction rs generalizing c with
  | nil => simp [all, outcomes]
  | cons r rs ih =>
    cases rs with
    | nil => rfl
    | cons r' rs =>
      have hall : (all (r :: r' :: rs ++ [s])).outcomes c =
          (r.outcomes c).flatMap (all (r' :: rs ++ [s])).outcomes := rfl
      rw [hall, funext ih, ← List.flatMap_assoc]
      rfl

/-- A sequence between word boundaries. -/
theorem Takes.wordBounded (rs : List Regex) (h : Takes (all rs) u next gs)
    (hfirst : u.head?.any Text.isWord) (hlast : u.getLast?.any Text.isWord) (hc : c.rest = u ++ v)
    (hbefore : c.last.any Text.isWord = false) (hbehind : NoneNext Text.isWord v) (hv : next v) :
    Prefers (all (wordBoundary :: (rs ++ [wordBoundary]))) c u v (gs c.pos) := by
  obtain ⟨x, hx, hxword⟩ := (Option.any_eq_true ..).mp hfirst
  obtain ⟨y, hy, hyword⟩ := (Option.any_eq_true ..).mp hlast
  have hstart : c.atWordBoundary := by
    simp [Place.atWordBoundary, hbefore, hc, hx, hxword]
  have hend : (c.after u v (gs c.pos)).atWordBoundary := by
    have hnone : v.head?.any Text.isWord = false := (Option.any_eq_false ..).mpr hbehind
    simp [Place.atWordBoundary, Cursor.after, hy, hyword, hnone]
  have hread := (h hc hv).seq (.wordBoundary hend)
  rw [List.append_nil, List.nil_append] at hread
  have hbounded : Prefers (all (rs ++ [wordBoundary])) c u v (gs c.pos) := by
    refine ⟨hc, ?_⟩
    rw [outcomes_all_concat]
    exact hread.head?_eq
  -- the first boundary leaves the cursor where it was
  have hpos : c.pos = (c.after [] c.rest []).pos := rfl
  rw [← c.after_nil] at hbounded
  have hall := (Prefers.wordBoundary hstart).all_cons hbounded
  rwa [List.nil_append, List.append_nil, ← hpos] at hall

end Regex

/-! ## Full matches -/

/-- A pattern that takes a whole text matches it. -/
theorem Pattern.full?_of_takes {p : Pattern} {t : Text} {next : Text → Prop}
    {gs : Nat → List (Nat × Span)} (h : p.regex.Takes t next gs) (hnext : next []) :
    p.full? t = some ⟨⟨0, t.length⟩, gs 0⟩ :=
  full?_of_prefers (h (List.append_nil t).symm hnext)

end Snippet
