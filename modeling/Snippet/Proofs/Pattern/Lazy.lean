import Snippet.Proofs.Pattern.Taking

/-!
# Lazy repetition

A lazy repetition of a class stops after every character, and prefers to stop early
(`Regex.Approaches.few`). So what comes behind it is tried in front of every end of the text that is
to be read. If it cannot be read from any of these places, the sequence prefers to read the whole
text and goes on there (`Regex.Approaches.seq`, `Regex.Takes.lazy_seq`).
-/

namespace Snippet.Regex

variable {r s : Regex} {c : Cursor} {u v w x : Text} {gs gs' : List (Nat × Span)}

/-- The outcomes that are preferred to the one that has read `u`, with `x` left, have left an end of
`u` in front of `x`. -/
structure Approaches (r : Regex) (c : Cursor) (u x : Text) (gs : List (Nat × Span)) : Prop where
  rest_eq : c.rest = u ++ x
  exists_outcomes : ∃ before later, r.outcomes c = before ++ c.after u x gs :: later ∧
    ∀ d ∈ before, ∃ y z, u = y ++ z ∧ z ≠ [] ∧ d.rest = z ++ x

namespace Approaches

/-- A lazy repetition of a class. -/
theorem few {p : Char → Bool} (hc : c.rest = u ++ x) (hu : ∀ y ∈ u, p y) :
    Approaches (few (Regex.one p)) c u x [] := by
  refine ⟨hc, ?_⟩
  induction u generalizing c with
  | nil =>
    rw [List.nil_append] at hc
    obtain ⟨later, hlater⟩ : ∃ later, (Regex.few (Regex.one p)).outcomes c = c :: later :=
      ⟨_, outcomes_star false (Regex.one p) c⟩
    refine ⟨[], later, ?_, by simp⟩
    rw [hlater, ← hc, Cursor.after_nil]
    rfl
  | cons y u ih =>
    rw [List.forall_mem_cons] at hu
    rw [List.cons_append] at hc
    obtain ⟨before, later, houtcomes, hbefore⟩ := ih (c := c.after [y] (u ++ x) []) rfl hu.2
    refine ⟨c :: before, later, ?_, ?_⟩
    · rw [Regex.few] at houtcomes ⊢
      rw [outcomes_star, outcomes_one hc hu.1, List.flatMap_singleton,
        if_pos (length_rest_after_lt hc), houtcomes, Cursor.after_after]
      rfl
    · rw [List.forall_mem_cons]
      refine ⟨⟨[], y :: u, rfl, List.cons_ne_nil y u, hc⟩, fun d hd => ?_⟩
      obtain ⟨a, z, rfl, hz, hrest⟩ := hbefore d hd
      exact ⟨y :: a, z, rfl, hz, hrest⟩

/-- A character in front of a lazy repetition. -/
theorem one_seq {p : Char → Bool} {a : Char} (hc : c.rest = a :: (u ++ x)) (ha : p a)
    (hr : Approaches r (c.after [a] (u ++ x) []) u x gs) :
    Approaches (Regex.seq (Regex.one p) r) c (a :: u) x gs := by
  refine ⟨hc, ?_⟩
  obtain ⟨before, later, houtcomes, hbefore⟩ := hr.exists_outcomes
  refine ⟨before, later, ?_, fun d hd => ?_⟩
  · rw [outcomes, outcomes_one hc ha, List.flatMap_singleton, houtcomes, Cursor.after_after,
      List.append_nil]
    rfl
  · obtain ⟨y, z, rfl, hz, hrest⟩ := hbefore d hd
    exact ⟨a :: y, z, rfl, hz, hrest⟩

theorem group {index : Nat} (hr : Approaches r c.openGroup u x gs) :
    Approaches (group index r) c u x ((index, ⟨c.pos, c.pos + u.length⟩) :: gs) := by
  refine ⟨hr.rest_eq, ?_⟩
  obtain ⟨before, later, houtcomes, hbefore⟩ := hr.exists_outcomes
  refine ⟨before.map (Cursor.closeGroup index), later.map (Cursor.closeGroup index), ?_, ?_⟩
  · rw [outcomes, houtcomes, List.map_append, List.map_cons]
    rfl
  · rw [List.forall_mem_map]
    intro d hd
    obtain ⟨y, z, hu, hz, hrest⟩ := hbefore d hd
    exact ⟨y, z, hu, hz, by rw [Cursor.toPlace_closeGroup, hrest]⟩

/-- **What comes behind is read at the end of the text, if it is read nowhere before.** -/
theorem seq (hr : Approaches r c u x gs)
    (hnone : ∀ y z, u = y ++ z → z ≠ [] → ∀ a b, z ++ x = a ++ b → ¬ s.Reads a)
    (hs : Prefers s (c.after u x gs) v w gs') : Prefers (seq r s) c (u ++ v) w (gs' ++ gs) := by
  have hx : x = v ++ w := hs.rest_eq
  refine ⟨by rw [hr.rest_eq, hx, List.append_assoc], ?_⟩
  obtain ⟨before, later, houtcomes, hbefore⟩ := hr.exists_outcomes
  have hnil : before.flatMap s.outcomes = [] := by
    rw [List.flatMap_eq_nil_iff]
    intro d hd
    obtain ⟨y, z, hu, hz, hrest⟩ := hbefore d hd
    exact outcomes_eq_nil fun a b hab => hnone y z hu hz a b (hrest ▸ hab)
  rw [outcomes, houtcomes, List.flatMap_append, hnil, List.nil_append, List.flatMap_cons,
    List.head?_append, hs.head?_eq, Cursor.after_after]
  rfl

end Approaches

/-- A group with a character and a lazy repetition takes its text in front of what is read nowhere
before. -/
theorem Takes.lazy_seq {p q : Char → Bool} {a : Char} {next : Text → Prop}
    {g : Nat → List (Nat × Span)} {index : Nat} (ha : p a) (hu : ∀ y ∈ u, q y)
    (hs : Takes s x next g)
    (hnone : ∀ y z, a :: u = y ++ z → z ≠ [] → ∀ v, next v → ∀ b b', z ++ (x ++ v) = b ++ b' →
      ¬ s.Reads b) :
    Takes (Regex.seq (Regex.group index (Regex.seq (Regex.one p) (few (Regex.one q)))) s)
      (a :: u ++ x) next fun k =>
        g (k + (a :: u).length) ++ [(index, ⟨k, k + (a :: u).length⟩)] := by
  intro c v hc hv
  rw [List.append_assoc] at hc
  have hlazy : Approaches (Regex.seq (Regex.one p) (few (Regex.one q))) c.openGroup (a :: u)
      (x ++ v) [] :=
    .one_seq hc ha (.few rfl hu)
  exact hlazy.group.seq (fun y z hyz hz => hnone y z hyz hz v hv) (hs rfl hv)

end Snippet.Regex
