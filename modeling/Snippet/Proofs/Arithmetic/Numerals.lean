import Snippet.Proofs.Arithmetic.Grammar
import Snippet.Proofs.Number.Grouping

/-!
# Spellings of numerals

A numeral is written with digits and a point between them (`Numeral`). It may also be spelled with
its whole part in groups of three, in the American manner with commas between the groups, or in the
European manner with points between the groups and a comma in front of the fraction. The European
manner needs a fraction that is not mistaken for a group, or at least three groups
(`Numeral.Spells`).

Every spelling is resolved to the plain numeral (`Numeral.Spells.resolve_eq`), and is a number in
the texts that are searched for numbers (`Numeral.Spells.reads`).
-/

namespace Snippet

open Pattern Number

variable {u s f : Text} {mark : Char}

namespace Arithmetic

/-- A literal has nothing to resolve. -/
theorem Literal.resolve_text (n : Literal) : resolve n.text = n.text := by
  have hfraction := n.isDigit_fraction
  rw [Literal.text]
  cases hn : n.fraction with
  | none =>
    rw [Option.map_none, Option.getD_none, List.append_nil]
    exact resolve_eq_self (forall_isSeparator_eq_false n.isDigit_whole)
  | some f =>
    rw [hn, Option.getD_some] at hfraction
    rw [Option.map_some, Option.getD_some, resolve_point (fun c hc => .inl (n.isDigit_whole c hc))
      hfraction, digits_eq_self n.isDigit_whole]

/-! ## Numerals -/

/-- A number as it is written: digits, or digits on both sides of a point. -/
structure Numeral extends Literal where
  whole_ne_nil : whole ≠ []
  fraction_ne_nil : fraction ≠ some []

namespace Numeral

variable {n : Numeral}

/-- The spellings of a numeral. -/
inductive Spells (n : Numeral) : Text → Prop where
  | plain : n.Spells n.text
  /-- The American manner. -/
  | american {s : Text} : Grouped ',' n.whole s →
      n.Spells (s ++ (n.fraction.map ('.' :: ·)).getD [])
  /-- The European manner, where the fraction is not mistaken for a group. -/
  | european {s f : Text} : n.fraction = some f → Grouped '.' n.whole s →
      3 < n.whole.length ∨ f.length ≠ 3 → n.Spells (s ++ ',' :: f)
  /-- The European manner without a fraction, where the points are not mistaken for a decimal point.
  -/
  | europeanWhole {s : Text} : n.fraction = none → Grouped '.' n.whole s → 7 ≤ n.whole.length →
      n.Spells s

theorem forall_mem_fraction (n : Numeral) (hf : n.fraction = some f) : ∀ c ∈ f, c.isDigit := by
  have hdigits := n.isDigit_fraction
  rwa [hf] at hdigits

theorem text_eq_of_none (h : n.fraction = none) : n.text = n.whole := by
  rw [Literal.text, h]
  exact List.append_nil _

theorem text_eq_of_some (h : n.fraction = some f) : n.text = n.whole ++ '.' :: f := by
  rw [Literal.text, h]
  rfl

theorem exists_of_whole {w : Text} (hne : w ≠ []) (hw : ∀ c ∈ w, c.isDigit) :
    ∃ n : Numeral, n.text = w :=
  ⟨⟨⟨w, none, hw, by simp, by simpa using hne⟩, hne, by simp⟩, List.append_nil w⟩

theorem exists_of_parts {w : Text} (hwne : w ≠ []) (hw : ∀ c ∈ w, c.isDigit) (hfne : f ≠ [])
    (hf : ∀ c ∈ f, c.isDigit) : ∃ n : Numeral, n.text = w ++ '.' :: f :=
  ⟨⟨⟨w, some f, hw, hf, by simp [hwne]⟩, hwne, by simpa using hfne⟩, rfl⟩

/-! ## Resolving a spelling -/

/-- A whole part in groups, with a point and a fraction if there is one. -/
theorem resolve_american (h : Grouped ',' n.whole s) :
    resolve (s ++ (n.fraction.map ('.' :: ·)).getD []) = n.text := by
  cases hn : n.fraction with
  | some f =>
    have hs : ∀ c ∈ s, c.isDigit ∨ c = ',' := fun c hc =>
      (h.mem_or hc).imp_left (n.isDigit_whole c)
    rw [text_eq_of_some hn, ← h.digits_eq rfl n.isDigit_whole]
    exact resolve_point hs (n.forall_mem_fraction hn)
  | none =>
    rw [text_eq_of_none hn, Option.map_none, Option.getD_none, List.append_nil]
    exact h.resolve_eq rfl n.isDigit_whole (.inl rfl)

theorem resolve_european (hf : n.fraction = some f) (h : Grouped '.' n.whole s)
    (hlength : 3 < n.whole.length ∨ f.length ≠ 3) : resolve (s ++ ',' :: f) = n.text := by
  have hs : ∀ c ∈ s, c.isDigit ∨ c = '.' := fun c hc => (h.mem_or hc).imp_left (n.isDigit_whole c)
  have hne : f ≠ [] := fun hnil => n.fraction_ne_nil (hnil ▸ hf)
  rw [text_eq_of_some hf, resolve_comma hs (n.forall_mem_fraction hf),
    h.digits_eq rfl n.isDigit_whole]
  exact hlength.imp h.mem_of_lt fun hlength => ⟨hne, hlength⟩

/-- **Every spelling of a numeral is resolved to the plain one.** -/
theorem Spells.resolve_eq (h : n.Spells u) : resolve u = n.text := by
  cases h with
  | plain => exact n.resolve_text
  | american h => exact resolve_american h
  | european hf h hlength => exact resolve_european hf h hlength
  | europeanWhole hf h hlength =>
    rw [text_eq_of_none hf]
    exact h.resolve_eq rfl n.isDigit_whole (.inr hlength)

/-! ## Spellings are numbers -/

/-- A whole part is a number, and so is one with a fraction behind a mark. -/
theorem reads_of_fraction (hs : localizedNumber.regex.Reads s) (hmark : isSeparator mark)
    (hf : n.fraction = some f) : localizedNumber.regex.Reads (s ++ mark :: f) := by
  have hne : f ≠ [] := fun hnil => n.fraction_ne_nil (hnil ▸ hf)
  exact reads_localizedNumber_append hs hmark
    (reads_localizedNumber_of_forall hne (n.forall_mem_fraction hf))

theorem reads_of_point (hs : localizedNumber.regex.Reads s) :
    localizedNumber.regex.Reads (s ++ (n.fraction.map ('.' :: ·)).getD []) := by
  cases hn : n.fraction with
  | none => simpa using hs
  | some f => exact reads_of_fraction hs rfl hn

/-- **Every spelling of a numeral is a number.** -/
theorem Spells.reads (h : n.Spells u) : localizedNumber.regex.Reads u := by
  cases h with
  | plain => exact reads_of_point (reads_localizedNumber_of_forall n.whole_ne_nil n.isDigit_whole)
  | american h => exact reads_of_point (h.reads rfl n.isDigit_whole)
  | european hf h _ => exact reads_of_fraction (h.reads rfl n.isDigit_whole) rfl hf
  | europeanWhole _ h _ => exact h.reads rfl n.isDigit_whole

end Numeral

end Arithmetic

end Snippet
