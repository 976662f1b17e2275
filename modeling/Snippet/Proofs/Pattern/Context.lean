import Snippet.Proofs.Pattern.Language

/-!
# Matching between two parts of a text

The language of an expression passes over word boundaries and ends of the text. Between two parts of
a text they are tests of what stands on both sides, and `Regex.ReadsBetween` says which texts an
expression matches there. The outcomes of an expression at a place are the texts that it matches
there, all of them and no others (`Regex.exists_outcome_iff`). An expression without tests matches
the texts of its language everywhere (`Regex.Reads.readsBetween`).
-/

namespace Snippet

/-- The place between two parts of a text. -/
def Place.between (a b : Text) : Place := ⟨a.length, a.getLast?, b⟩

theorem Place.read_between (a : Text) (x : Char) (b : Text) :
    (between a (x :: b)).read x b = between (a ++ [x]) b := by
  simp [between, read]

namespace Regex

/-- Behind `a` and in front of `b` the expression matches `u`. -/
inductive ReadsBetween : Regex → (a u b : Text) → Prop where
  | empty {a b : Text} : ReadsBetween empty a [] b
  | one {p : Char → Bool} {x : Char} {a b : Text} : p x → ReadsBetween (one p) a [x] b
  | seq {r s : Regex} {a u v b : Text} : ReadsBetween r a u (v ++ b) →
      ReadsBetween s (a ++ u) v b → ReadsBetween (seq r s) a (u ++ v) b
  | left {r s : Regex} {a u b : Text} : ReadsBetween r a u b → ReadsBetween (alt r s) a u b
  | right {r s : Regex} {a u b : Text} : ReadsBetween s a u b → ReadsBetween (alt r s) a u b
  | stop {greedy : Bool} {r : Regex} {a b : Text} : ReadsBetween (star greedy r) a [] b
  | round {greedy : Bool} {r : Regex} {a u v b : Text} : ReadsBetween r a u (v ++ b) →
      ReadsBetween (star greedy r) (a ++ u) v b → ReadsBetween (star greedy r) a (u ++ v) b
  | group {index : Nat} {r : Regex} {a u b : Text} : ReadsBetween r a u b →
      ReadsBetween (group index r) a u b
  | wordBoundary {a b : Text} : (Place.between a b).atWordBoundary →
      ReadsBetween wordBoundary a [] b
  | textEnd {a : Text} : ReadsBetween textEnd a [] []

variable {r : Regex} {c d : Cursor} {a u v b : Text}

/-! ## Every outcome is a match -/

theorem exists_readsBetween_star {greedy : Bool}
    (ih : ∀ {c d : Cursor} {a v : Text}, c.toPlace = .between a v → d ∈ r.outcomes c →
      ∃ u b, v = u ++ b ∧ d.toPlace = .between (a ++ u) b ∧ r.ReadsBetween a u b)
    (hc : c.toPlace = .between a v) (h : d ∈ (star greedy r).outcomes c) :
    ∃ u b, v = u ++ b ∧ d.toPlace = .between (a ++ u) b ∧ (star greedy r).ReadsBetween a u b := by
  -- every round reads a character, so the induction is on what is left
  induction hn : v.length using Nat.strongRecOn generalizing c a v with
  | _ n ihn =>
    rcases mem_outcomes_star_iff.mp h with rfl | ⟨e, he, hlt, hd⟩
    · exact ⟨[], v, rfl, by rwa [List.append_nil], .stop⟩
    · obtain ⟨u, w, rfl, hplace, hu⟩ := ih hc he
      have hshorter : w.length < n := by
        rw [hplace, hc] at hlt
        exact hn ▸ hlt
      obtain ⟨x, b, rfl, hend, hx⟩ := ihn _ hshorter hplace hd rfl
      refine ⟨u ++ x, b, (List.append_assoc ..).symm, ?_, .round hu hx⟩
      rwa [← List.append_assoc]

/-- **What an outcome has read is matched where it stands.** -/
theorem exists_readsBetween (hc : c.toPlace = .between a v) (h : d ∈ r.outcomes c) :
    ∃ u b, v = u ++ b ∧ d.toPlace = .between (a ++ u) b ∧ r.ReadsBetween a u b := by
  induction r generalizing c d a v with
  | empty =>
    obtain rfl := List.mem_singleton.mp h
    exact ⟨[], v, rfl, by rwa [List.append_nil], .empty⟩
  | one p =>
    rw [outcomes] at h
    split at h
    · cases h
    · rename_i x b hrest
      split at h
      · rename_i hx
        obtain rfl := List.mem_singleton.mp h
        rw [hc] at hrest
        obtain rfl : v = x :: b := hrest
        refine ⟨[x], b, rfl, ?_, .one hx⟩
        rw [Cursor.toPlace_read, hc, Place.read_between]
      · cases h
  | seq r s ihr ihs =>
    obtain ⟨e, he, hd⟩ := List.mem_flatMap.mp h
    obtain ⟨u, w, rfl, hplace, hu⟩ := ihr hc he
    obtain ⟨x, b, rfl, hend, hx⟩ := ihs hplace hd
    refine ⟨u ++ x, b, (List.append_assoc ..).symm, ?_, .seq hu hx⟩
    rwa [← List.append_assoc]
  | alt r s ihr ihs =>
    rcases List.mem_append.mp h with h | h
    · obtain ⟨u, b, hv, hend, hu⟩ := ihr hc h
      exact ⟨u, b, hv, hend, .left hu⟩
    · obtain ⟨u, b, hv, hend, hu⟩ := ihs hc h
      exact ⟨u, b, hv, hend, .right hu⟩
  | star greedy r ih => exact exists_readsBetween_star ih hc h
  | group index r ih =>
    obtain ⟨e, he, rfl⟩ := List.mem_map.mp h
    obtain ⟨u, b, hv, hend, hu⟩ := ih (c := c.openGroup) hc he
    exact ⟨u, b, hv, by rwa [Cursor.toPlace_closeGroup], .group hu⟩
  | wordBoundary =>
    rw [outcomes] at h
    split at h
    · rename_i hboundary
      obtain rfl := List.mem_singleton.mp h
      rw [hc] at hboundary
      exact ⟨[], v, rfl, by rwa [List.append_nil], .wordBoundary hboundary⟩
    · cases h
  | textEnd =>
    rw [outcomes] at h
    split at h
    · rename_i hend
      obtain rfl := List.mem_singleton.mp h
      rw [hc] at hend
      obtain rfl : v = [] := List.isEmpty_iff.mp hend
      exact ⟨[], [], rfl, by rwa [List.append_nil], .textEnd⟩
    · cases h

/-! ## Every match is an outcome -/

namespace ReadsBetween

/-- **A text that is matched at a place is read by an outcome there.** -/
theorem exists_mem_outcomes (h : r.ReadsBetween a u b) (hc : c.toPlace = .between a (u ++ b)) :
    ∃ d ∈ r.outcomes c, d.toPlace = .between (a ++ u) b := by
  induction h generalizing c with
  | empty => exact ⟨c, List.mem_singleton.mpr rfl, by rwa [List.append_nil]⟩
  | @one p x a b hx =>
    have hrest : c.rest = x :: b := by rw [hc]; rfl
    refine ⟨c.read x b, by simp [outcomes, hrest, hx], ?_⟩
    rw [Cursor.toPlace_read, hc]
    exact Place.read_between a x b
  | seq _ _ ihr ihs =>
    rw [List.append_assoc] at hc
    obtain ⟨d, hd, hplace⟩ := ihr hc
    obtain ⟨e, he, hend⟩ := ihs hplace
    exact ⟨e, List.mem_flatMap.mpr ⟨d, hd, he⟩, by rwa [← List.append_assoc]⟩
  | left _ ih =>
    obtain ⟨d, hd, hend⟩ := ih hc
    exact ⟨d, List.mem_append_left _ hd, hend⟩
  | right _ ih =>
    obtain ⟨d, hd, hend⟩ := ih hc
    exact ⟨d, List.mem_append_right _ hd, hend⟩
  | stop => exact ⟨c, mem_outcomes_star_iff.mpr (.inl rfl), by rwa [List.append_nil]⟩
  | @round greedy r a u v b _ _ ihr ihs =>
    rw [List.append_assoc] at hc
    rw [← List.append_assoc]
    by_cases hu : u = []
    · -- a round that reads nothing is passed over
      subst hu
      exact ihs (by rwa [List.append_nil])
    · obtain ⟨d, hd, hplace⟩ := ihr hc
      obtain ⟨e, he, hend⟩ := ihs hplace
      have hlt : d.rest.length < c.rest.length := by
        have hpos := List.length_pos_iff.mpr hu
        rw [hplace, hc]
        simp only [Place.between, List.length_append]
        omega
      exact ⟨e, mem_outcomes_star_iff.mpr (.inr ⟨d, hd, hlt, he⟩), hend⟩
  | group _ ih =>
    obtain ⟨d, hd, hend⟩ := ih (c := c.openGroup) hc
    exact ⟨_, List.mem_map_of_mem hd, by rwa [Cursor.toPlace_closeGroup]⟩
  | wordBoundary hboundary =>
    rw [List.nil_append] at hc
    refine ⟨c, ?_, by rwa [List.append_nil]⟩
    rw [outcomes, hc, if_pos hboundary]
    exact List.mem_singleton.mpr rfl
  | textEnd =>
    refine ⟨c, ?_, by rwa [List.append_nil]⟩
    have hrest : c.rest.isEmpty := by rw [hc]; rfl
    rw [outcomes, if_pos hrest]
    exact List.mem_singleton.mpr rfl

/-- What is matched somewhere is a text of the language. -/
theorem reads (h : r.ReadsBetween a u b) : r.Reads u := by
  induction h with
  | empty => exact .empty
  | one hx => exact .one hx
  | seq _ _ ihr ihs => exact .seq ihr ihs
  | left _ ih => exact .left ih
  | right _ ih => exact .right ih
  | stop => exact .stop
  | @round greedy r a u v b _ _ ihr ihs =>
    by_cases hu : u = []
    · subst hu
      exact ihs
    · exact .round hu ihr ihs
  | group _ ih => exact .group ih
  | wordBoundary _ => exact .wordBoundary
  | textEnd => exact .textEnd

end ReadsBetween

/-- **At a place an expression has an outcome for each text that it matches there, and no other.** -/
theorem exists_outcome_iff (hc : c.toPlace = .between a (u ++ b)) :
    (∃ d ∈ r.outcomes c, d.toPlace = .between (a ++ u) b) ↔ r.ReadsBetween a u b := by
  refine ⟨?_, fun h => h.exists_mem_outcomes hc⟩
  rintro ⟨d, hd, hplace⟩
  obtain ⟨u', b', hv, hend, hu⟩ := exists_readsBetween hc hd
  obtain rfl : b' = b := congrArg Place.rest (hend.symm.trans hplace)
  obtain rfl := List.append_cancel_right hv
  exact hu

/-! ## Expressions without tests -/

/-- An expression without word boundaries and ends of the text. -/
def isPlain : Regex → Bool
  | empty | one _ => true
  | seq r s | alt r s => r.isPlain && s.isPlain
  | star _ r | group _ r => r.isPlain
  | wordBoundary | textEnd => false

/-- **A plain expression matches every text of its language, wherever it stands.** -/
theorem Reads.readsBetween (h : r.Reads u) (hr : r.isPlain) (a b : Text) :
    r.ReadsBetween a u b := by
  induction h generalizing a b with
  | empty => exact .empty
  | one hx => exact .one hx
  | seq _ _ ihr ihs =>
    rw [isPlain, Bool.and_eq_true] at hr
    exact .seq (ihr hr.1 ..) (ihs hr.2 ..)
  | left _ ih =>
    rw [isPlain, Bool.and_eq_true] at hr
    exact .left (ih hr.1 ..)
  | right _ ih =>
    rw [isPlain, Bool.and_eq_true] at hr
    exact .right (ih hr.2 ..)
  | stop => exact .stop
  | round _ _ _ ihr ihs => exact .round (ihr hr ..) (ihs hr ..)
  | group _ ih => exact .group (ih hr ..)
  | wordBoundary => cases hr
  | textEnd => cases hr

end Regex

end Snippet
