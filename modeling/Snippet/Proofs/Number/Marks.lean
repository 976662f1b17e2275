import Snippet.Number.Separators
import Snippet.Proofs.Text.Trimming

/-!
# What stands in front of a number

In front of a number there may be a sign and a dollar sign, in either order and with white space
behind each (`Marks`). A text can be stripped of them, and of the white space around it, in exactly
one way (`stripped_iff`), and this is how an amount is split (`Stripped.splitAmount_eq`).
-/

namespace Snippet.Number

variable {t rest marks : Text} {c : Char} {sign : Option Char} {dollar : Bool}

/-- A character that is a sign. -/
def IsSign (c : Char) : Prop := c = '-' ∨ c = '+'

/-- A sign and a dollar sign in front of a number, in either order, each with the white space behind
it. Neither needs to be there. -/
inductive Marks : (sign : Option Char) → (dollar : Bool) → Text → Prop where
  | nothing : Marks none false []
  | sign {c : Char} {w : Text} : IsSign c → Text.isBlank w → Marks (some c) false (c :: w)
  | dollar {w : Text} : Text.isBlank w → Marks none true ('$' :: w)
  | signDollar {c : Char} {w v : Text} : IsSign c → Text.isBlank w → Text.isBlank v →
      Marks (some c) true (c :: (w ++ '$' :: v))
  | dollarSign {c : Char} {w v : Text} : IsSign c → Text.isBlank w → Text.isBlank v →
      Marks (some c) true ('$' :: (w ++ c :: v))

/-- What is left of a text without the white space around it and the marks in front. No white space
is left at its ends, and no mark in front of it that could be taken off as well. -/
structure Stripped (t : Text) (sign : Option Char) (rest : Text) : Prop where
  exists_marks : ∃ before marks dollar after, Text.isBlank before ∧ Marks sign dollar marks ∧
    Text.isBlank after ∧ t = before ++ (marks ++ rest) ++ after ∧
    (dollar = false → rest.head? ≠ some '$')
  head?_not_sign : sign = none → ∀ c ∈ rest.head?, ¬ IsSign c
  head?_not_white : ∀ c ∈ rest.head?, Text.isWhite c = false
  getLast?_not_white : ∀ c ∈ rest.getLast?, Text.isWhite c = false

/-- The sign in front of a number, and what is left without the marks. -/
def signAndRest (t : Text) : Option Char × Text :=
  match splitSign? (Text.trim t) with
  | some (sign, rest) => (some sign, dropDollar rest)
  | none =>
    match splitSign? (dropDollar (Text.trim t)) with
    | some (sign, rest) => (some sign, rest)
    | none => (none, dropDollar (Text.trim t))

theorem splitAmount_eq (t : Text) :
    splitAmount t = ((signAndRest t).1 == some '-', (signAndRest t).2) := by
  rw [splitAmount, signAndRest]
  cases splitSign? (Text.trim t) with
  | some p => rfl
  | none =>
    cases h : splitSign? (dropDollar (Text.trim t)) with
    | some p => simp [h]
    | none => simp [h]

namespace IsSign

theorem isWhite_eq_false (h : IsSign c) : Text.isWhite c = false := by
  rcases h with rfl | rfl <;> rfl

theorem isDigit_eq_false (h : IsSign c) : c.isDigit = false := by
  rcases h with rfl | rfl <;> rfl

end IsSign

/-! ## Taking off one mark -/

/-- A mark at the front stays there when the text is trimmed. -/
theorem trim_cons (h : Text.isWhite c = false) (t : Text) :
    Text.trim (c :: t) = c :: Text.trimEnd t := by
  have hhead : ∀ d ∈ [c].head?, Text.isWhite d = false := by simpa using h
  by_cases hblank : Text.isBlank t
  · have hnil : Text.trimEnd t = [] := Text.trimEnd_append_right (t := []) hblank
    have hmark : Text.trim [c] = [c] := Text.trim_eq_self hhead (by simpa using h)
    have htrim : Text.trim ([] ++ [c] ++ t) = Text.trim [c] := Text.trim_between rfl hblank
    rw [hnil, ← hmark]
    exact htrim
  · exact Text.trim_append_of_not_isBlank hhead (List.cons_ne_nil c []) hblank

theorem splitSign?_cons (h : IsSign c) (t : Text) :
    splitSign? (c :: Text.trimEnd t) = some (c, Text.trim t) := by
  rw [splitSign?, if_pos (by rcases h with rfl | rfl <;> rfl), Text.trim]

theorem splitSign?_eq_none (h : ∀ c ∈ t.head?, ¬ IsSign c) : splitSign? t = none := by
  cases t with
  | nil => rfl
  | cons c t =>
    have hnot : ¬ (c == '-' || c == '+') := by
      rw [Bool.or_eq_true, beq_iff_eq, beq_iff_eq]
      exact h c rfl
    rw [splitSign?, if_neg hnot]

theorem dropDollar_cons (t : Text) : dropDollar ('$' :: Text.trimEnd t) = Text.trim t := rfl

theorem dropDollar_eq_self (h : t.head? ≠ some '$') : dropDollar t = t := by
  unfold dropDollar
  split
  · exact absurd rfl h
  · rfl

theorem trim_append_blank {before after : Text} (hbefore : Text.isBlank before) :
    Text.trim (before ++ after) = Text.trim after := by
  have htrim : Text.trim (before ++ after ++ []) = Text.trim after :=
    Text.trim_between hbefore rfl
  rwa [List.append_nil] at htrim

/-! ## The marks are determined -/

namespace Stripped

theorem trim_eq (h : Stripped t sign rest) : Text.trim rest = rest :=
  Text.trim_eq_self h.head?_not_white h.getLast?_not_white

/-- **The sign and what is left are determined by the text.** -/
theorem signAndRest_eq (h : Stripped t sign rest) : signAndRest t = (sign, rest) := by
  obtain ⟨before, marks, dollar, after, hbefore, hmarks, hafter, rfl, hdollar⟩ := h.exists_marks
  have hwhite : ∀ {w}, Text.isBlank w → Text.trim (w ++ rest) = rest := fun hw =>
    (trim_append_blank hw).trans h.trim_eq
  have hsign := h.head?_not_sign
  rw [signAndRest, Text.trim_between hbefore hafter]
  cases hmarks with
  | nothing =>
    have hnone : splitSign? rest = none := splitSign?_eq_none (hsign rfl)
    simp only [List.nil_append, h.trim_eq, dropDollar_eq_self (hdollar rfl), hnone]
  | sign hc hw =>
    rw [List.cons_append, trim_cons hc.isWhite_eq_false, splitSign?_cons hc, hwhite hw]
    simp only [dropDollar_eq_self (hdollar rfl)]
  | @dollar w hw =>
    have hmark : splitSign? ('$' :: Text.trimEnd (w ++ rest)) = none := rfl
    rw [List.cons_append, trim_cons rfl, hmark]
    simp only [dropDollar_cons, hwhite hw, splitSign?_eq_none (hsign rfl)]
  | signDollar hc hw hv =>
    rw [List.cons_append, List.append_assoc, List.cons_append, trim_cons hc.isWhite_eq_false,
      splitSign?_cons hc, trim_append_blank hw, trim_cons rfl]
    simp only [dropDollar_cons, hwhite hv]
  | @dollarSign c w v hc hw hv =>
    have hmark : splitSign? ('$' :: Text.trimEnd (w ++ c :: (v ++ rest))) = none := rfl
    rw [List.cons_append, List.append_assoc, List.cons_append, trim_cons rfl, hmark]
    simp only [dropDollar_cons, trim_append_blank hw, trim_cons hc.isWhite_eq_false,
      splitSign?_cons hc, hwhite hv]

theorem of_marks {before after : Text} (rest : Text) (hbefore : Text.isBlank before)
    (hmarks : Marks sign dollar marks) (hafter : Text.isBlank after)
    (hdollar : dollar = false → rest.head? ≠ some '$')
    (hsign : sign = none → ∀ c ∈ rest.head?, ¬ IsSign c)
    (hhead : ∀ c ∈ rest.head?, Text.isWhite c = false)
    (hlast : ∀ c ∈ (marks ++ rest).getLast?, Text.isWhite c = false) :
    Stripped (before ++ (marks ++ rest) ++ after) sign rest where
  exists_marks := ⟨before, marks, dollar, after, hbefore, hmarks, hafter, rfl, hdollar⟩
  head?_not_sign := hsign
  head?_not_white := hhead
  getLast?_not_white c hc := hlast c (by
    rw [List.getLast?_append, Option.mem_def.mp hc]
    rfl)

end Stripped

/-- A text is white space in front of something else. -/
theorem exists_white_append (t : Text) :
    ∃ w u, Text.isBlank w ∧ t = w ++ u ∧ ∀ c ∈ u.head?, Text.isWhite c = false :=
  ⟨Text.leadingWhite t, Text.trimStart t, Text.isBlank_leadingWhite t,
    (Text.leadingWhite_append_trimStart t).symm, fun _ => Text.isWhite_eq_false_of_head?_trimStart⟩

/-- A text is white space around something else. -/
theorem exists_white_append_append (t : Text) : ∃ before u after, Text.isBlank before ∧
    Text.isBlank after ∧ t = before ++ u ++ after ∧ (∀ c ∈ u.head?, Text.isWhite c = false) ∧
    ∀ c ∈ u.getLast?, Text.isWhite c = false := by
  obtain ⟨before, u, hbefore, hu, hhead⟩ := exists_white_append (Text.trimEnd t)
  refine ⟨before, u, Text.trailingWhite t, hbefore, Text.isBlank_trailingWhite t, ?_, hhead, ?_⟩
  · rw [← hu, Text.trimEnd_append_trailingWhite]
  · intro c hc
    refine Text.isWhite_eq_false_of_getLast?_trimEnd (t := t) ?_
    rw [hu, List.getLast?_append, Option.mem_def.mp hc]
    rfl

/-- A text starts with a mark, with white space behind it, or it does not. -/
theorem exists_mark (p : Char → Prop) (t : Text) :
    (∃ c w u, t = c :: (w ++ u) ∧ p c ∧ Text.isBlank w ∧
      ∀ d ∈ u.head?, Text.isWhite d = false) ∨ ∀ c ∈ t.head?, ¬ p c := by
  by_cases h : ∃ c ∈ t.head?, p c
  · obtain ⟨c, hc, hp⟩ := h
    obtain ⟨x, rfl⟩ := List.head?_eq_some_iff.mp hc
    obtain ⟨w, u, hw, rfl, hu⟩ := exists_white_append x
    exact .inl ⟨c, w, u, rfl, hp, hw, hu⟩
  · exact .inr fun c hc hp => h ⟨c, hc, hp⟩

/-- There is a way to take the marks off. -/
theorem exists_stripped (t : Text) : ∃ sign rest, Stripped t sign rest := by
  obtain ⟨before, u, after, hbefore, hafter, rfl, hhead, hlast⟩ := exists_white_append_append t
  have hsome : ∀ {c : Char} {r : Text}, some c = none → ∀ d ∈ r.head?, ¬ IsSign d := fun h => by
    cases h
  have hdollar : ∀ {r : Text}, true = false → r.head? ≠ some '$' := fun h => by cases h
  rcases exists_mark IsSign u with ⟨c, w, y, rfl, hsign, hw, hy⟩ | hsign
  · rcases exists_mark (· = '$') y with ⟨_, v, r, rfl, rfl, hv, hr⟩ | hnone
    · have hmarks := Marks.signDollar hsign hw hv
      have hstripped := Stripped.of_marks r hbefore hmarks hafter hdollar hsome hr
      exact ⟨some c, r, by simpa using hstripped (by simpa using hlast)⟩
    · exact ⟨some c, y, .of_marks _ hbefore (.sign hsign hw) hafter
        (fun _ h => hnone '$' h rfl) hsome hy hlast⟩
  · rcases exists_mark (· = '$') u with ⟨_, w, y, rfl, rfl, hw, hy⟩ | hnone
    · rcases exists_mark IsSign y with ⟨c, v, r, rfl, hsign, hv, hr⟩ | hsign
      · have hmarks := Marks.dollarSign hsign hw hv
        have hstripped := Stripped.of_marks r hbefore hmarks hafter hdollar hsome hr
        exact ⟨some c, r, by simpa using hstripped (by simpa using hlast)⟩
      · exact ⟨none, y, .of_marks _ hbefore (.dollar hw) hafter hdollar (fun _ => hsign) hy hlast⟩
    · exact ⟨none, u, .of_marks _ hbefore .nothing hafter (fun _ h => hnone '$' h rfl)
        (fun _ => hsign) hhead hlast⟩

/-- **The marks can be taken off in exactly one way.** -/
theorem stripped_iff : Stripped t sign rest ↔ signAndRest t = (sign, rest) := by
  refine ⟨fun h => h.signAndRest_eq, fun h => ?_⟩
  obtain ⟨sign', rest', hstripped⟩ := exists_stripped t
  obtain ⟨rfl, rfl⟩ := Prod.mk.inj (hstripped.signAndRest_eq.symm.trans h)
  exact hstripped

theorem Stripped.splitAmount_eq (h : Stripped t sign rest) :
    splitAmount t = (sign == some '-', rest) := by
  rw [Number.splitAmount_eq, h.signAndRest_eq]

end Snippet.Number
