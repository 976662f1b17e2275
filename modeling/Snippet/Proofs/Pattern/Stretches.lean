import Snippet.Proofs.Pattern.Replacement

/-!
# The stretches that a search finds

`Pattern.Finds` reads a text from left to right, as `Pattern.Rewrites` does, and keeps the stretches
that the pattern takes. These are the texts of all matches (`Pattern.Finds.map_text_eq`).
-/

namespace Snippet

namespace Pattern

open Regex

variable {p : Pattern} {a t w : Text} {us : List Text} {fuel : Nat}

/-- Reading a text from left to right, where `us` are the stretches that the pattern takes. -/
inductive Finds (p : Pattern) : (t : Text) → (us : List Text) → Prop where
  | nil : Finds p [] []
  /-- No match begins at the character. -/
  | skip {x : Char} {t : Text} {us : List Text} : (∀ u v, x :: t = u ++ v → ¬ p.regex.Reads u) →
      Finds p t us → Finds p (x :: t) us
  | take {u v : Text} {us : List Text} {next : Text → Prop} {gs : Nat → List (Nat × Span)} :
      p.regex.Takes u next gs → u ≠ [] → next v → Finds p v us → Finds p (u ++ v) (u :: us)

namespace Finds

/-- Characters with which no match starts. -/
theorem skipAll {q : Char → Prop} (hp : p.regex.Starts q) (hw : ∀ x ∈ w, ¬ q x)
    (h : Finds p t us) : Finds p (w ++ t) us := by
  induction w with
  | nil => exact h
  | cons x w ih =>
    rw [List.forall_mem_cons] at hw
    refine .skip (fun u v huv hread => ?_) (ih hw.2)
    obtain ⟨y, u, rfl, hy⟩ := hread.exists_cons hp
    exact hw.1 ((List.cons.inj huv).1 ▸ hy)

theorem map_text_findAllFrom (hne : ¬ p.regex.Reads []) (h : Finds p t us)
    (hfuel : t.length < fuel) :
    (p.findAllFrom fuel (.between a t)).map (·.text (a ++ t)) = us := by
  induction h generalizing a fuel with
  | nil =>
    rw [findAllFrom_nil hne]
    rfl
  | @skip x t us hnone _ ih =>
    have hrest := ih (a := a ++ [x]) (Nat.lt_of_succ_lt hfuel)
    rwa [findAllFrom_cons (outcomes_eq_nil hnone), List.append_cons]
  | @take u v us next gs htakes hu hv _ ih =>
    cases fuel with
    | zero => cases hfuel
    | succ fuel =>
      obtain ⟨m, hm, hms⟩ := exists_findAllFrom_append fuel hu
        (htakes (c := .start (.between a (u ++ v))) rfl hv)
      have hlength := List.length_pos_iff.mpr hu
      rw [List.length_append] at hfuel
      have hrest := @ih (a ++ u) fuel (by omega)
      rw [List.append_assoc] at hrest
      rw [hms, List.map_cons, hm.text_eq, hrest]

/-- **The texts of all matches are the stretches that the pattern takes.** -/
theorem map_text_eq (hne : ¬ p.regex.Reads []) (h : Finds p t us) :
    (p.findAll t).map (·.text t) = us :=
  h.map_text_findAllFrom (a := []) hne (Nat.lt_succ_self _)

end Finds

end Pattern

end Snippet
