import Mathlib.Data.List.TakeWhile
import Snippet.Proofs.Arithmetic.Grammar

/-!
# Scanning an expression

What the scanner does at each kind of place. Where an operand has been read to its end
(`Scan.Completes`), an operator, a parenthesis or the start of a further factor ends the number that
may still be open. Where an operand must come, signs toggle the waiting minus and digits collect.

The main statements: a text of digits and points is read as a number exactly if it is a literal
(`Literal.float?_text`, `exists_literal_of_float?`), and the text of a well-formed tree is read as
the symbols of the tree (`scansTo_text`).
-/

namespace Snippet.Arithmetic

/-! ## Literals are read as numbers -/

theorem takeWhile_isDigit_append_point {w f : Text} (hw : ∀ c ∈ w, c.isDigit) :
    (w ++ '.' :: f).takeWhile Char.isDigit = w := by
  rw [List.takeWhile_append_of_pos hw]
  simp

theorem dropWhile_isDigit_append_point {w f : Text} (hw : ∀ c ∈ w, c.isDigit) :
    (w ++ '.' :: f).dropWhile Char.isDigit = '.' :: f := by
  rw [List.dropWhile_append_of_pos hw]
  simp

theorem Literal.unsigned?_text (n : Literal) (negative : Bool) :
    Decimal.unsigned? negative n.text = some
      ⟨negative, Decimal.natOf (n.whole ++ n.fraction.getD []),
        -((n.fraction.getD []).length : Int)⟩ := by
  have hw := n.isDigit_whole
  have hf := n.isDigit_fraction
  have hne := n.ne_nil
  cases hn : n.fraction with
  | none =>
    simp only [hn, Option.getD_none, List.append_nil] at hne
    have htake : n.whole.takeWhile Char.isDigit = n.whole := List.takeWhile_eq_self_iff.mpr hw
    have hdrop : n.whole.dropWhile Char.isDigit = [] := List.dropWhile_eq_nil_iff.mpr hw
    simp [Decimal.unsigned?, text, hn, htake, hdrop, hne, Decimal.exponent?]
  | some f =>
    simp only [hn, Option.getD_some] at hf hne
    have htake : f.takeWhile Char.isDigit = f := List.takeWhile_eq_self_iff.mpr hf
    have hdrop : f.dropWhile Char.isDigit = [] := List.dropWhile_eq_nil_iff.mpr hf
    have hempty : (n.whole.isEmpty && f.isEmpty) = false := by
      simpa [Bool.and_eq_false_iff, imp_iff_not_or] using hne
    simp [Decimal.unsigned?, text, hn, takeWhile_isDigit_append_point hw,
      dropWhile_isDigit_append_point hw, htake, hdrop, hempty, Decimal.exponent?]

theorem toLower_of_isNumeric {c : Char} (h : isNumeric c) : c.toLower = c := by
  have hval : c.val.toNat < 65 := by
    simp only [isNumeric, Char.isDigit, Bool.or_eq_true, Bool.and_eq_true, decide_eq_true_eq,
      ge_iff_le, UInt32.le_iff_toNat_le, beq_iff_eq] at h
    rcases h with ⟨-, h⟩ | rfl
    · exact Nat.lt_of_le_of_lt h (by decide)
    · decide
  unfold Char.toLower
  rw [dif_neg]
  simp only [ge_iff_le, UInt32.le_iff_toNat_le, not_and_or, Nat.not_le]
  exact .inl hval

/-- A text of digits and points is not a word. -/
theorem lower_ne_of_isNumeric {d w : Text} (hd : ∀ c ∈ d, isNumeric c)
    (hw : w.all isNumeric = false) : Text.lower d ≠ w := by
  have hlower : Text.lower d = d :=
    (List.map_congr_left fun x hx => toLower_of_isNumeric (hd x hx)).trans (List.map_id _)
  rintro rfl
  rw [hlower, List.all_eq_true.mpr hd] at hw
  exact Bool.noConfusion hw

/-- A text of digits and points has no sign. -/
theorem splitSign_of_isNumeric {d : Text} (hd : ∀ c ∈ d, isNumeric c) :
    Decimal.splitSign d = (false, d) := by
  unfold Decimal.splitSign
  split
  · exact absurd (hd '-' (List.mem_cons_self ..)) (by decide)
  · exact absurd (hd '+' (List.mem_cons_self ..)) (by decide)
  · rfl

/-- A text of digits and points has no sign and is not a word. -/
theorem float?_eq_unsigned? {d : Text} (hd : ∀ c ∈ d, isNumeric c) :
    Decimal.float? d = (Decimal.unsigned? false d).map Decimal.Numeral.toFloat := by
  have hword : ∀ w : Text, w.all isNumeric = false → Text.lower d ≠ w := fun w =>
    lower_ne_of_isNumeric hd
  simp only [Decimal.float?, splitSign_of_isNumeric hd, hword "inf".toList rfl,
    hword "infinity".toList rfl, hword "nan".toList rfl, decide_false, Bool.or_self, if_false,
    Bool.false_eq_true]

theorem Literal.float?_text (n : Literal) : Decimal.float? n.text = some n.value := by
  rw [float?_eq_unsigned? fun c => n.isNumeric_of_mem, n.unsigned?_text]
  rfl

/-- A literal behind a minus. -/
theorem Literal.float?_minus (n : Literal) : Decimal.float? ('-' :: n.text) = some (-n.value) := by
  have hword : ∀ w : Text, w.all isNumeric = false → Text.lower n.text ≠ w := fun w =>
    lower_ne_of_isNumeric fun c => n.isNumeric_of_mem
  have hsign : Decimal.splitSign ('-' :: n.text) = (true, n.text) := rfl
  simp only [Decimal.float?, hsign, hword "inf".toList rfl, hword "infinity".toList rfl,
    hword "nan".toList rfl, decide_false, Bool.or_self, if_false, Bool.false_eq_true,
    n.unsigned?_text true, Option.map_some]
  rfl

/-- What is left behind an exponent that can be read starts with its letter. -/
theorem eq_nil_of_exponent? {r : Text} {e : Int} (hr : ∀ c ∈ r, isNumeric c)
    (h : Decimal.exponent? r = some e) : r = [] := by
  cases r with
  | nil => rfl
  | cons c r =>
    have hc := hr c (List.mem_cons_self ..)
    have hletter : (decide (c = 'e') || decide (c = 'E')) = false := by
      rw [Bool.or_eq_false_iff, decide_eq_false_iff_not, decide_eq_false_iff_not]
      constructor <;> rintro rfl <;> exact absurd hc (by decide)
    simp [Decimal.exponent?, hletter] at h

/-- A text of digits and points that is read as a number is a literal. -/
theorem exists_literal_of_float? {d : Text} {x : Float} (hne : d ≠ [])
    (hd : ∀ c ∈ d, isNumeric c) (h : Decimal.float? d = some x) : ∃ n : Literal, n.text = d := by
  rw [float?_eq_unsigned? hd, Option.map_eq_some_iff] at h
  obtain ⟨m, h, -⟩ := h
  have hsplit : d.takeWhile Char.isDigit ++ d.dropWhile Char.isDigit = d :=
    List.takeWhile_append_dropWhile
  have hwhole : ∀ c ∈ d.takeWhile Char.isDigit, c.isDigit := fun c => List.mem_takeWhile_imp
  cases hr : d.dropWhile Char.isDigit with
  | nil =>
    rw [hr, List.append_nil] at hsplit
    exact ⟨⟨d, none, hsplit ▸ hwhole, by simp, by simpa using hne⟩, by simp [Literal.text]⟩
  | cons c r =>
    have hrest : ∀ b ∈ c :: r, isNumeric b := fun b hb =>
      hd b ((List.dropWhile_sublist _).mem (hr ▸ hb))
    obtain rfl : c = '.' := by
      have hnot := List.head?_dropWhile_not Char.isDigit d
      have hc := hrest c (List.mem_cons_self ..)
      simp only [hr, List.head?_cons] at hnot
      simpa [isNumeric, hnot] using hc
    -- behind the digits after the point there can be nothing but an exponent
    have hempty : r.dropWhile Char.isDigit = [] := by
      simp only [Decimal.unsigned?, hr] at h
      split at h
      · cases h
      · obtain ⟨e, he, -⟩ := Option.map_eq_some_iff.mp h
        refine eq_nil_of_exponent? (fun b hb => ?_) he
        exact hrest b (List.mem_cons_of_mem _ ((List.dropWhile_sublist _).mem hb))
    have hfraction : ∀ b ∈ r, b.isDigit := List.dropWhile_eq_nil_iff.mp hempty
    have hdigit : d.takeWhile Char.isDigit ++ r ≠ [] := by
      intro hnil
      obtain ⟨hnone, rfl⟩ := List.append_eq_nil_iff.mp hnil
      simp [Decimal.unsigned?, hr, hnone] at h
    exact ⟨⟨d.takeWhile Char.isDigit, some r, hwhole, hfraction, hdigit⟩, by
      simpa [Literal.text, hr] using hsplit⟩

namespace Scan

variable {s : Scan} {syms : List Symbol} {ds : Text} {negative : Bool}

/-- Reading the text `t` leads from one state of the scan to another. -/
def Reads (s : Scan) (t : Text) (s' : Scan) : Prop := t.foldlM step? s = some s'

theorem Reads.cons {s₁ s₂ : Scan} {c : Char} {t : Text} (h : s.step? c = some s₁)
    (ht : s₁.Reads t s₂) : s.Reads (c :: t) s₂ := by
  rw [Reads, List.foldlM_cons, h]
  exact ht

theorem Reads.append {s₁ s₂ : Scan} {t u : Text} (ht : s.Reads t s₁) (hu : s₁.Reads u s₂) :
    s.Reads (t ++ u) s₂ := by
  rw [Reads, List.foldlM_append, ht]
  exact hu

theorem Reads.one {s₁ : Scan} {c : Char} (h : s.step? c = some s₁) : s.Reads [c] s₁ :=
  Reads.cons h rfl

/-! ## Where an operand is read -/

theorem step?_numeric (s : Scan) {c : Char} (h : isNumeric c) :
    s.step? c = some (s.readDigit c) := by
  rw [isNumeric] at h
  simp [step?, h]

theorem readDigit_eq (h : ds ≠ [] ∨ expectsOperand syms) (c : Char) :
    readDigit c ⟨syms, ds, negative⟩ = ⟨syms, c :: ds, negative⟩ := by
  unfold readDigit
  split
  · rename_i hds hsyms
    obtain rfl : ds = [] := hds
    obtain rfl : syms = .closing :: _ := hsyms
    rcases h with h | h
    · exact absurd rfl h
    · cases h
  · rfl

theorem reads_numeric {d : Text} (hd : ∀ c ∈ d, isNumeric c) (h : ds ≠ [] ∨ expectsOperand syms) :
    Reads ⟨syms, ds, negative⟩ d ⟨syms, d.reverse ++ ds, negative⟩ := by
  induction d generalizing ds with
  | nil => exact rfl
  | cons c d ih =>
    have hc := step?_numeric ⟨syms, ds, negative⟩ (hd c (List.mem_cons_self ..))
    rw [readDigit_eq h] at hc
    have hrest := ih (fun b hb => hd b (List.mem_cons_of_mem _ hb)) (.inl (List.cons_ne_nil c ds))
    rw [List.reverse_cons, List.append_assoc]
    exact .cons hc hrest

theorem step?_sign (sign : Sign) (h : expectsOperand syms) :
    step? ⟨syms, [], negative⟩ sign.toChar = some ⟨syms, [], negative ^^ (sign == .minus)⟩ := by
  cases sign <;> cases negative <;> simp [step?, Sign.toChar, h]

theorem reads_signs (signs : List Sign) (h : expectsOperand syms) :
    Reads ⟨syms, [], negative⟩ (signs.map Sign.toChar)
      ⟨syms, [], negative ^^ Sign.negate signs⟩ := by
  induction signs generalizing negative with
  | nil => simp [Reads]
  | cons sign signs ih =>
    rw [Sign.negate_cons, ← Bool.xor_assoc]
    exact .cons (step?_sign sign h) ih

theorem step?_opening (h : expectsOperand syms) :
    step? ⟨syms, [], negative⟩ '(' =
      some ⟨.opening :: ((if negative then [.negate] else []) ++ syms), [], false⟩ := by
  have hgroup : openGroup ⟨syms, [], negative⟩ =
      ⟨.opening :: ((if negative then [.negate] else []) ++ syms), [], false⟩ := by
    unfold openGroup
    cases negative with
    | true => rfl
    | false =>
      simp only [Bool.false_eq_true, if_false, List.nil_append]
      split <;> first | rfl | simp [expectsOperand] at h
  simp [step?, endNumber?, hgroup]

/-! ## Where an operand is complete -/

theorem eq_number_or_closing (h : expectsOperand syms = false) :
    (∃ x rest, syms = .number x :: rest) ∨ ∃ rest, syms = .closing :: rest := by
  cases syms with
  | nil => cases h
  | cons sym rest => cases sym <;> simp_all [expectsOperand]

/-- The scan has read an operand to its end, and when the number that may be open is ended the
symbols are `f`. -/
def Completes (s : Scan) (f : List Symbol) : Prop :=
  s.endNumber? = some ⟨f, [], false⟩ ∧ expectsOperand f = false

variable {f : List Symbol}

/-- Where an operand is complete, no sign is waited for. -/
theorem Completes.not_sign (h : s.Completes f) :
    (s.digits.isEmpty && expectsOperand s.symbols) = false := by
  by_cases hd : s.digits.isEmpty
  · have hs : s = ⟨f, [], false⟩ := by simpa [endNumber?, hd] using h.1
    simp [hs, h.2]
  · simp [hd]

theorem Completes.step?_operator (h : s.Completes f) (op : Operator) :
    s.step? op.toChar = some ⟨.operator op :: f, [], false⟩ := by
  have hsign := h.not_sign
  cases op <;>
    simp [step?, Operator.toChar, Operator.ofChar?, hsign, h.1, push]

theorem Completes.step?_closing (h : s.Completes f) :
    s.step? ')' = some ⟨.closing :: f, [], false⟩ := by
  simp [step?, h.1, push]

/-- A group directly behind an operand multiplies it. -/
theorem Completes.step?_opening (h : s.Completes f) :
    s.step? '(' = step? ⟨.operator .mul :: f, [], false⟩ '(' := by
  have hgroup : openGroup ⟨f, [], false⟩ = ⟨.opening :: .operator .mul :: f, [], false⟩ := by
    obtain ⟨x, rest, rfl⟩ | ⟨rest, rfl⟩ := eq_number_or_closing h.2 <;> rfl
  rw [Scan.step?_opening (by rfl)]
  simp [step?, h.1, hgroup]

/-- A number directly behind a group multiplies it. -/
theorem step?_numeric_closing {c : Char} (h : isNumeric c) :
    step? ⟨.closing :: syms, [], negative⟩ c =
      step? ⟨.operator .mul :: .closing :: syms, [], negative⟩ c := by
  rw [step?_numeric _ h, step?_numeric _ h]
  rfl

theorem digits_of_endNumber? {s' : Scan} (h : s.endNumber? = some s') : s'.digits = [] := by
  unfold endNumber? at h
  split at h
  · rename_i hd
    cases h
    exact List.isEmpty_iff.mp hd
  · obtain ⟨x, -, rfl⟩ := Option.map_eq_some_iff.mp h
    rfl

/-- Behind a closing parenthesis no number is open. -/
theorem exists_of_step?_closing {s' : Scan} (h : s.step? ')' = some s') :
    s'.digits = [] ∧ ∃ rest, s'.symbols = .closing :: rest := by
  have hstep : s.step? ')' = s.endNumber?.map (push .closing) := by simp [step?]
  rw [hstep, Option.map_eq_some_iff] at h
  obtain ⟨s₁, h₁, rfl⟩ := h
  have hd := digits_of_endNumber? h₁
  exact ⟨hd, s₁.symbols, rfl⟩

theorem Completes.eq_of_digits (h : s.Completes f) (hd : s.digits = []) : s = ⟨f, [], false⟩ := by
  have := h.1
  rw [endNumber?, hd] at this
  exact Option.some.inj this

end Scan

/-! ## What a step can do -/

/-- The characters of a clean expression, by what the scan does at them. -/
theorem cases_of_isClean {c : Char} (h : isClean c) :
    isNumeric c ∨ c = '(' ∨ c = ')' ∨ ∃ op : Operator, c = op.toChar := by
  rw [isClean, Bool.or_eq_true] at h
  rcases h with h | h
  · exact .inl h
  · have hmem : c ∈ "+-*/%^()".toList := by simpa [isOperatorOrParen] using h
    simp only [String.reduceToList, List.mem_cons, List.not_mem_nil, or_false] at hmem
    rcases hmem with rfl | rfl | rfl | rfl | rfl | rfl | rfl | rfl
    · exact .inr (.inr (.inr ⟨.add, rfl⟩))
    · exact .inr (.inr (.inr ⟨.sub, rfl⟩))
    · exact .inr (.inr (.inr ⟨.mul, rfl⟩))
    · exact .inr (.inr (.inr ⟨.div, rfl⟩))
    · exact .inr (.inr (.inr ⟨.mod, rfl⟩))
    · exact .inr (.inr (.inr ⟨.pow, rfl⟩))
    · exact .inr (.inl rfl)
    · exact .inr (.inr (.inl rfl))

namespace Scan

variable {s s' : Scan}

/-- A plus or minus is a sign where an operand must come, and every other operator ends the number
that may be open. -/
theorem step?_toChar (s : Scan) (op : Operator) :
    s.step? op.toChar =
      if s.digits = [] ∧ expectsOperand s.symbols ∧ (op = .add ∨ op = .sub) then
        some { s with negative := s.negative ^^ op == .sub }
      else s.endNumber?.map (push (.operator op)) := by
  cases op
  case add =>
    have hkeep : (s.negative ^^ Operator.add == .sub) = s.negative := by cases s.negative <;> rfl
    simp [step?, Operator.toChar, Operator.ofChar?, hkeep]
  case sub =>
    simp [step?, Operator.toChar, Operator.ofChar?]
  all_goals simp [step?, Operator.toChar, Operator.ofChar?]

/-- What a step can do: it reads a character of a number, turns the waiting sign, or ends the number
and adds a parenthesis or an operator. -/
theorem step?_cases {c : Char} (hc : isClean c) (h : s.step? c = some s') :
    (isNumeric c ∧ s' = s.readDigit c) ∨
    (expectsOperand s.symbols ∧ ∃ negative, s' = { s with negative := negative }) ∨
    ∃ s₁, s.endNumber? = some s₁ ∧
      (s' = s₁.openGroup ∨ s' = s₁.push .closing ∨ ∃ op, s' = s₁.push (.operator op)) := by
  rcases cases_of_isClean hc with hc | rfl | rfl | ⟨op, rfl⟩
  · rw [step?_numeric s hc] at h
    exact .inl ⟨hc, (Option.some.inj h).symm⟩
  · obtain ⟨s₁, h₁, rfl⟩ : ∃ s₁, s.endNumber? = some s₁ ∧ s₁.openGroup = s' := by
      simpa [step?] using h
    exact .inr (.inr ⟨s₁, h₁, .inl rfl⟩)
  · obtain ⟨s₁, h₁, rfl⟩ : ∃ s₁, s.endNumber? = some s₁ ∧ s₁.push .closing = s' := by
      simpa [step?] using h
    exact .inr (.inr ⟨s₁, h₁, .inr (.inl rfl)⟩)
  · rw [step?_toChar] at h
    split at h
    · rename_i hsign
      exact .inr (.inl ⟨hsign.2.1, _, (Option.some.inj h).symm⟩)
    · obtain ⟨s₁, h₁, rfl⟩ := Option.map_eq_some_iff.mp h
      exact .inr (.inr ⟨s₁, h₁, .inr (.inr ⟨op, rfl⟩)⟩)

theorem endNumber?_cases {s₁ : Scan} (h : s.endNumber? = some s₁) :
    s₁ = s ∨ s.digits ≠ [] ∧ ∃ x, s₁ = ⟨.number x :: s.symbols, [], false⟩ := by
  unfold endNumber? at h
  split at h
  · exact .inl (Option.some.inj h).symm
  · rename_i hd
    obtain ⟨x, -, rfl⟩ := Option.map_eq_some_iff.mp h
    exact .inr ⟨by simpa using hd, _, rfl⟩

theorem exists_endNumber?_of_step? {c : Char} (hd : s.digits ≠ [])
    (hc : c = '(' ∨ c = ')' ∨ ∃ op : Operator, c = op.toChar) (h : s.step? c = some s') :
    ∃ s₁, s.endNumber? = some s₁ := by
  rcases hc with rfl | rfl | ⟨op, rfl⟩
  · obtain ⟨s₁, h₁, -⟩ : ∃ s₁, s.endNumber? = some s₁ ∧ s₁.openGroup = s' := by
      simpa [step?] using h
    exact ⟨s₁, h₁⟩
  · obtain ⟨s₁, h₁, -⟩ : ∃ s₁, s.endNumber? = some s₁ ∧ s₁.push .closing = s' := by
      simpa [step?] using h
    exact ⟨s₁, h₁⟩
  · rw [step?_toChar, if_neg fun hsign => hd hsign.1] at h
    obtain ⟨s₁, h₁, -⟩ := Option.map_eq_some_iff.mp h
    exact ⟨s₁, h₁⟩

end Scan

/-! ## Trees are read as their symbols -/

/-- The symbols of a tree, in order. The sign of a number belongs to it, and an odd number of minus
signs in front of a group is a symbol of its own. -/
def Tree.symbols : Tree → List Symbol
  | number signs n => [.number (Sign.apply signs n.value)]
  | group signs t =>
    (if Sign.negate signs then [.negate] else []) ++ .opening :: (t.symbols ++ [.closing])
  | binary op l r => l.symbols ++ .operator op :: r.symbols
  | juxtaposed l r => l.symbols ++ .operator .mul :: r.symbols

/-- Where an operand must come, a text is read as an operand with the given symbols. -/
def ScansTo (t : Text) (symbols : List Symbol) : Prop :=
  ∀ syms, Scan.expectsOperand syms →
    ∃ s, Scan.Reads ⟨syms, [], false⟩ t s ∧ s.Completes (symbols.reverse ++ syms)

theorem scansTo_number (signs : List Sign) (n : Literal) :
    ScansTo (Tree.number signs n).text (Tree.number signs n).symbols := by
  intro syms hs
  refine ⟨⟨syms, n.text.reverse, Sign.negate signs⟩, ?_, ?_, rfl⟩
  · have hsigns : Scan.Reads ⟨syms, [], false⟩ _ ⟨syms, [], false ^^ Sign.negate signs⟩ :=
      Scan.reads_signs signs hs
    have htext : Scan.Reads ⟨syms, [], Sign.negate signs⟩ n.text
        ⟨syms, n.text.reverse ++ [], Sign.negate signs⟩ :=
      Scan.reads_numeric (fun c => n.isNumeric_of_mem) (.inr hs)
    rw [Bool.false_xor] at hsigns
    rw [List.append_nil] at htext
    exact hsigns.append htext
  · simp [Scan.endNumber?, n.text_ne_nil, n.float?_text, Tree.symbols, Sign.apply]

theorem scansTo_group (signs : List Sign) {t : Tree} (h : ScansTo t.text t.symbols) :
    ScansTo (Tree.group signs t).text (Tree.group signs t).symbols := by
  intro syms hs
  obtain ⟨s, hreads, hcomplete⟩ :=
    h (.opening :: ((if Sign.negate signs then [.negate] else []) ++ syms)) rfl
  have hsigns : Scan.Reads ⟨syms, [], false⟩ _ ⟨syms, [], false ^^ Sign.negate signs⟩ :=
    Scan.reads_signs signs hs
  rw [Bool.false_xor] at hsigns
  refine ⟨_, hsigns.append (.cons (Scan.step?_opening hs)
    (hreads.append (.one hcomplete.step?_closing))), ?_⟩
  cases hneg : Sign.negate signs <;> simp [Scan.Completes, Scan.endNumber?, Tree.symbols, hneg,
    Scan.expectsOperand]

/-- An operand, an operator and an operand. -/
theorem ScansTo.binary {l r : Text} {a b : List Symbol} (hl : ScansTo l a) (hr : ScansTo r b)
    (op : Operator) : ScansTo (l ++ op.toChar :: r) (a ++ .operator op :: b) := by
  intro syms hs
  obtain ⟨s₁, hreads₁, hcomplete₁⟩ := hl syms hs
  obtain ⟨s₂, hreads₂, hcomplete₂⟩ := hr (.operator op :: (a.reverse ++ syms)) rfl
  refine ⟨s₂, hreads₁.append (.cons (hcomplete₁.step?_operator op) hreads₂), ?_⟩
  simpa using hcomplete₂

/-- A factor directly behind an operand is read as if an operator stood between them. -/
theorem step?_of_joins {l r : Text} {s s₁ : Scan} {f : List Symbol} {c : Char} (hl : s.Reads l s₁)
    (hs₁ : s₁.Completes f) (h : Tree.joins l (c :: r)) :
    s₁.step? c = Scan.step? ⟨.operator .mul :: f, [], false⟩ c := by
  simp only [Tree.joins, List.head?_cons, Bool.or_eq_true, Bool.and_eq_true, beq_iff_eq] at h
  rcases h with rfl | ⟨hc, hlast⟩
  · exact hs₁.step?_opening
  · obtain ⟨u, rfl⟩ := List.getLast?_eq_some_iff.mp hlast
    rw [Scan.Reads, List.foldlM_append] at hl
    obtain ⟨s₀, -, hl⟩ := Option.bind_eq_some_iff.mp hl
    rw [List.foldlM_cons] at hl
    obtain ⟨s₂, hstep, hl⟩ := Option.bind_eq_some_iff.mp hl
    obtain rfl : s₂ = s₁ := Option.some.inj hl
    obtain ⟨hdigits, rest, hsyms⟩ := Scan.exists_of_step?_closing hstep
    have heq := hs₁.eq_of_digits hdigits
    obtain rfl : f = .closing :: rest := by simpa [heq] using hsyms
    rw [heq]
    exact Scan.step?_numeric_closing hc

theorem ScansTo.juxtaposed {l r : Text} {a b : List Symbol} (hl : ScansTo l a) (hr : ScansTo r b)
    (h : Tree.joins l r) : ScansTo (l ++ r) (a ++ .operator .mul :: b) := by
  intro syms hs
  obtain ⟨s₁, hreads₁, hcomplete₁⟩ := hl syms hs
  obtain ⟨s₂, hreads₂, hcomplete₂⟩ := hr (.operator .mul :: (a.reverse ++ syms)) rfl
  refine ⟨s₂, hreads₁.append ?_, by simpa using hcomplete₂⟩
  cases r with
  | nil => cases h
  | cons c r =>
    rw [Scan.Reads, List.foldlM_cons] at hreads₂ ⊢
    rw [step?_of_joins hreads₁ hcomplete₁ h]
    exact hreads₂

/-- **The text of a well-formed tree is read as the symbols of the tree.** -/
theorem scansTo_text {level : Tree.Level} {t : Tree} (h : t.Derives level) :
    ScansTo t.text t.symbols := by
  induction h with
  | number signs n => exact scansTo_number signs n
  | group signs _ ih => exact scansTo_group signs ih
  | unary _ ih => exact ih
  | pow _ _ ihl ihr => exact ihl.binary ihr .pow
  | power _ ih => exact ih
  | product _ _ _ ihl ihr => exact ihl.binary ihr _
  | juxtaposed _ _ hj ihl ihr => exact ihl.juxtaposed ihr hj
  | term _ ih => exact ih
  | sum _ _ _ ihl ihr => exact ihl.binary ihr _

theorem symbols?_text {t : Tree} (h : t.Derives .expr) : symbols? t.text = some t.symbols := by
  obtain ⟨s, hreads, hcomplete, -⟩ := scansTo_text h [] rfl
  have hscan : t.text.foldlM Scan.step? {} = some s := hreads
  simp [symbols?, hscan, hcomplete]

end Snippet.Arithmetic
