import Snippet.Proofs.Pattern.Occurrences

/-!
# Matches that a search comes to

A search goes on behind each match. It comes to a place if no match that begins before the place
reaches beyond it, and the preferred outcome there is then one of the matches
(`Pattern.mem_findAll_of_head?`).
-/

namespace Snippet

/-- The cursor stands between two parts of the text. -/
def Cursor.StandsIn (t : Text) (c : Cursor) : Prop := ∃ a b, t = a ++ b ∧ c.toPlace = .between a b

namespace Regex

variable {r : Regex} {t : Text} {c d : Cursor}

/-- Outcomes stay in the text. -/
theorem standsIn_of_mem_outcomes (hc : c.StandsIn t) (h : d ∈ r.outcomes c) : d.StandsIn t := by
  obtain ⟨a, v, rfl, hplace⟩ := hc
  obtain ⟨u, b, rfl, hend, -⟩ := exists_readsBetween hplace h
  exact ⟨a ++ u, b, (List.append_assoc ..).symm, hend⟩

/-- An outcome that ends inside `y` has read a start of it and stands behind this start. -/
theorem exists_toPlace_eq {a y b : Text} (h : c ∈ r.outcomes (.start (.between a (y ++ b))))
    (hpos : c.pos ≤ a.length + y.length) :
    ∃ u z, y = u ++ z ∧ r.Reads u ∧ c.origin = a.length ∧
      c.toPlace = .between (a ++ u) (z ++ b) := by
  obtain ⟨u, v, huv, hplace, hread⟩ := exists_readsBetween (a := a) rfl h
  obtain ⟨-, -, horigin, -⟩ := Occurrence.of_mem_outcomes h
  have hcpos : c.pos = a.length + u.length := by
    rw [hplace, ← List.length_append]
    rfl
  obtain ⟨z, rfl⟩ : u <+: y :=
    List.prefix_of_prefix_length_le ⟨v, huv.symm⟩ ⟨b, rfl⟩ (by omega)
  rw [List.append_assoc, List.append_cancel_left_eq] at huv
  exact ⟨u, z, rfl, hread.reads, horigin, by rw [hplace, huv]⟩

end Regex

namespace Pattern

variable {p : Pattern} {a gap b : Text} {d : Cursor}

theorem leftmost?_eq (p : Pattern) (q : Place) :
    p.automaton.leftmost? q = (p.regex.outcomesFrom q).head? := by
  rw [p.automaton_eq, Automaton.leftmost?_eq, Regex.outcomesFrom]
  simp only [Regex.outcomes_automaton]

/-- The leftmost match is one of those at a place, if there are any, or else the leftmost behind. -/
theorem leftmost?_between (p : Pattern) (a b : Text) :
    p.automaton.leftmost? (.between a b) =
      (p.regex.outcomes (.start (.between a b))).head?.or
        (match b with
        | [] => none
        | x :: b => p.automaton.leftmost? (.between (a ++ [x]) b)) := by
  simp only [leftmost?_eq, Regex.outcomesFrom]
  cases b with
  | nil => simp [Place.onward, Place.onwardFrom, Place.between]
  | cons x b => simp [Place.onward, Place.onwardFrom, Place.between]

/-- If there is a match at the end of a gap, the leftmost match begins there or inside the gap. -/
theorem exists_leftmost?_eq (hd : (p.regex.outcomes (.start (.between (a ++ gap) b))).head? = some d) :
    ∃ c, p.automaton.leftmost? (.between a (gap ++ b)) = some c ∧
      (c = d ∨ ∃ x y, gap = x ++ y ∧ y ≠ [] ∧
        c ∈ p.regex.outcomes (.start (.between (a ++ x) (y ++ b)))) := by
  induction gap generalizing a with
  | nil =>
    rw [List.append_nil] at hd
    exact ⟨d, by rw [List.nil_append, leftmost?_between, hd, Option.some_or], .inl rfl⟩
  | cons e gap ih =>
    rw [leftmost?_between, List.cons_append]
    cases hhead : (p.regex.outcomes (.start (.between a (e :: (gap ++ b))))).head? with
    | some c =>
      refine ⟨c, rfl, .inr ⟨[], e :: gap, rfl, List.cons_ne_nil e gap, ?_⟩⟩
      rw [List.append_nil]
      exact List.mem_of_head? hhead
    | none =>
      obtain ⟨c, hc, hcases⟩ := ih (a := a ++ [e]) (by rwa [List.append_assoc])
      refine ⟨c, hc, hcases.imp_right ?_⟩
      rintro ⟨x, y, rfl, hy, hc⟩
      exact ⟨e :: x, y, rfl, hy, by rwa [List.append_cons]⟩

/-- The leftmost match begins behind a part of what is left. -/
theorem exists_mem_outcomes_of_leftmost? {c : Cursor}
    (h : p.automaton.leftmost? (.between a b) = some c) :
    ∃ x y, b = x ++ y ∧ c ∈ p.regex.outcomes (.start (.between (a ++ x) y)) := by
  induction b generalizing a with
  | nil =>
    rw [leftmost?_between, Option.or_none] at h
    exact ⟨[], [], rfl, by rw [List.append_nil]; exact List.mem_of_head? h⟩
  | cons e b ih =>
    rw [leftmost?_between] at h
    rcases Option.or_eq_some_iff.mp h with h | ⟨-, h⟩
    · exact ⟨[], e :: b, rfl, by rw [List.append_nil]; exact List.mem_of_head? h⟩
    · obtain ⟨x, y, rfl, hc⟩ := ih h
      exact ⟨e :: x, y, rfl, by rwa [List.append_cons]⟩

theorem exists_mem_outcomes_of_mem_findAllFrom {t : Text} {fuel : Nat} (ht : t = a ++ b) {m : Match}
    (h : m ∈ p.findAllFrom fuel (.between a b)) :
    ∃ x y c, t = x ++ y ∧ c ∈ p.regex.outcomes (.start (.between x y)) ∧ m = .ofCursor c := by
  induction fuel generalizing a b with
  | zero => cases h
  | succ fuel ih =>
    rw [findAllFrom] at h
    cases hleft : p.automaton.leftmost? (.between a b) with
    | none =>
      rw [hleft] at h
      cases h
    | some c =>
      rw [hleft] at h
      obtain ⟨x, y, rfl, hc⟩ := exists_mem_outcomes_of_leftmost? hleft
      rw [← List.append_assoc] at ht
      rcases List.mem_cons.mp h with rfl | h
      · exact ⟨_, _, c, ht, hc, rfl⟩
      · -- the search goes on at the end of the match, or one character later
        obtain ⟨a', b', ht', hplace⟩ := Regex.standsIn_of_mem_outcomes ⟨_, _, ht, rfl⟩ hc
        split at h
        · rw [Place.next?, hplace] at h
          cases b' with
          | nil => cases h
          | cons e b' =>
            refine ih (a := a' ++ [e]) (b := b') (by rw [ht', List.append_cons]) ?_
            simpa [Place.between, Place.read] using h
        · exact ih ht' (by simpa [hplace] using h)

/-- Every match is an outcome somewhere in the text. -/
theorem exists_mem_outcomes_of_mem_findAll {t : Text} {m : Match} (h : m ∈ p.findAll t) :
    ∃ x y c, t = x ++ y ∧ c ∈ p.regex.outcomes (.start (.between x y)) ∧ m = .ofCursor c :=
  exists_mem_outcomes_of_mem_findAllFrom (a := []) rfl h

/-- The search from a place comes to the end of a gap. -/
theorem mem_findAllFrom_of_head? (hne : ¬ p.regex.Reads [])
    (hd : (p.regex.outcomes (.start (.between (a ++ gap) b))).head? = some d)
    (hgap : ∀ x y, gap = x ++ y → y ≠ [] →
      ∀ c ∈ p.regex.outcomes (.start (.between (a ++ x) (y ++ b))), c.pos ≤ a.length + gap.length)
    {fuel : Nat} (hfuel : gap.length < fuel) :
    .ofCursor d ∈ p.findAllFrom fuel (.between a (gap ++ b)) := by
  induction fuel generalizing a gap with
  | zero => omega
  | succ fuel ih =>
    obtain ⟨c, hc, hcases⟩ := exists_leftmost?_eq hd
    rw [findAllFrom, hc]
    dsimp only
    rcases hcases with rfl | ⟨x, y, rfl, hy, hmem⟩
    · exact List.mem_cons_self ..
    · -- the match reads something and ends inside the gap, and the search goes on from there
      have hpos := hgap x y rfl hy c hmem
      rw [List.length_append, ← Nat.add_assoc, ← List.length_append] at hpos
      obtain ⟨u, y, rfl, hread, horigin, hplace⟩ := Regex.exists_toPlace_eq hmem hpos
      have hu : 0 < u.length := List.length_pos_iff.mpr fun hnil => hne (hnil ▸ hread)
      have hcpos : c.pos = (a ++ x ++ u).length := by rw [hplace]; rfl
      have hmoved : c.pos ≠ c.origin := by
        rw [hcpos, horigin, List.length_append]
        omega
      rw [if_neg hmoved, hplace]
      refine List.mem_cons_of_mem _ (@ih (a ++ x ++ u) y (by simpa using hd) ?_ ?_)
      · intro x' y' hy' hne' e he
        have hbound := hgap (x ++ u ++ x') y' (by simp [hy']) hne' e (by simpa using he)
        simp only [List.length_append] at hbound ⊢
        omega
      · simp only [List.length_append] at hfuel
        omega

/-- **A search comes to every place that no earlier match reaches beyond.** -/
theorem mem_findAll_of_head? (hne : ¬ p.regex.Reads [])
    (hd : (p.regex.outcomes (.start (.between a b))).head? = some d)
    (hbefore : ∀ x y, a = x ++ y → y ≠ [] →
      ∀ c ∈ p.regex.outcomes (.start (.between x (y ++ b))), c.pos ≤ a.length) :
    .ofCursor d ∈ p.findAll (a ++ b) := by
  refine mem_findAllFrom_of_head? (a := []) hne hd ?_ ?_
  · simpa using hbefore
  · simp only [List.length_append]
    omega

end Pattern

end Snippet
