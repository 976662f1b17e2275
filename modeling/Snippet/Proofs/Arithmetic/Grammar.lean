import Mathlib.Data.List.Chain
import Snippet.Arithmetic.Clean
import Snippet.Arithmetic.Evaluate

/-!
# The grammar of expressions

An expression is a tree with a text and a value. A number or a group has signs in front, which bind
tighter than every operator; powers group from the right, and products, quotients, remainders and
sums from the left. Two factors that stand next to each other without an operator are multiplied.

* `Tree.Derives` is the grammar, `Tree.text` the written form and `Tree.value?` the value.
* A tree has no value exactly if it divides by zero somewhere (`Tree.value?_eq_none_iff`).
* A sentence, the text of an expression, never has a sign in front of a closing parenthesis
  (`IsSentence.closesNoSign`).
-/

namespace Snippet.Arithmetic

/-! ## Literals and signs -/

/-- A digit or a point, the characters of numbers. -/
def isNumeric (c : Char) : Bool := c.isDigit || c == '.'

/-- An unsigned number as it is written: digits with at most one point, and at least one digit. -/
structure Literal where
  whole : Text
  /-- The digits after the point, if there is a point. -/
  fraction : Option Text
  isDigit_whole : ∀ c ∈ whole, c.isDigit
  isDigit_fraction : ∀ c ∈ fraction.getD [], c.isDigit
  ne_nil : whole ++ fraction.getD [] ≠ []

namespace Literal

/-- The characters of a literal. -/
def text (n : Literal) : Text := n.whole ++ (n.fraction.map ('.' :: ·)).getD []

/-- The float nearest to the number that a literal writes. -/
def value (n : Literal) : Float :=
  Decimal.Numeral.toFloat
    ⟨false, Decimal.natOf (n.whole ++ n.fraction.getD []), -((n.fraction.getD []).length : Int)⟩

end Literal

/-- A sign in front of a number or a group. -/
inductive Sign where
  | plus
  | minus
  deriving DecidableEq

namespace Sign

/-- The character of a sign. -/
def toChar : Sign → Char
  | plus => '+'
  | minus => '-'

/-- Whether signs negate what follows them: there is an odd number of minus signs. -/
def negate (signs : List Sign) : Bool := signs.count minus % 2 == 1

@[simp] theorem negate_nil : negate [] = false := rfl

theorem negate_append (ss ts : List Sign) : negate (ss ++ ts) = (negate ss ^^ negate ts) := by
  simp only [negate, List.count_append]
  rw [Nat.add_mod]
  rcases Nat.mod_two_eq_zero_or_one (ss.count minus) with h | h <;>
    rcases Nat.mod_two_eq_zero_or_one (ts.count minus) with h' | h' <;> simp [h, h']

theorem negate_cons (s : Sign) (ss : List Sign) :
    negate (s :: ss) = ((s == minus) ^^ negate ss) := by
  rw [← List.singleton_append, negate_append]
  cases s <;> rfl

/-- A value behind signs. -/
def apply (signs : List Sign) (x : Float) : Float := if negate signs then -x else x

end Sign

/-! ## Trees -/

/-- An expression before it is known to be well-formed. -/
inductive Tree where
  | number (signs : List Sign) (n : Literal)
  | group (signs : List Sign) (inner : Tree)
  | binary (op : Operator) (l r : Tree)
  /-- A product without an operator. -/
  | juxtaposed (l r : Tree)

namespace Tree

/-- The written form. -/
def text : Tree → Text
  | number signs n => signs.map Sign.toChar ++ n.text
  | group signs t => signs.map Sign.toChar ++ ('(' :: t.text ++ [')'])
  | binary op l r => l.text ++ op.toChar :: r.text
  | juxtaposed l r => l.text ++ r.text

/-- The value, with one operation at each node. -/
def value? : Tree → Option Float
  | number signs n => some (Sign.apply signs n.value)
  | group signs t => t.value?.map (Sign.apply signs)
  | binary op l r => do op.apply (← l.value?) (← r.value?)
  | juxtaposed l r => do Operator.mul.apply (← l.value?) (← r.value?)

/-- Some quotient or remainder has a divisor that is zero. -/
def DividesByZero : Tree → Prop
  | number _ _ => False
  | group _ t => t.DividesByZero
  | binary op l r =>
    l.DividesByZero ∨ r.DividesByZero ∨
      (op = .div ∨ op = .mod) ∧ ∃ y, r.value? = some y ∧ (y == 0.0) = true
  | juxtaposed l r => l.DividesByZero ∨ r.DividesByZero

/-- A text multiplies the one before it without an operator: it starts with a group, or with a
number where the one before ends with a group. -/
def joins (left right : Text) : Bool :=
  match right.head? with
  | none => false
  | some c => c == '(' || (isNumeric c && left.getLast? == some ')')

/-- The parts of an expression, by what they may be operands of. -/
inductive Level where
  | unary
  | power
  | term
  | expr

/-- The grammar of expressions. -/
inductive Derives : Level → Tree → Prop where
  | number (signs : List Sign) (n : Literal) : Derives .unary (number signs n)
  | group (signs : List Sign) {t : Tree} : Derives .expr t → Derives .unary (group signs t)
  | unary {t : Tree} : Derives .unary t → Derives .power t
  | pow {l r : Tree} : Derives .unary l → Derives .power r → Derives .power (binary .pow l r)
  | power {t : Tree} : Derives .power t → Derives .term t
  | product {op : Operator} {l r : Tree} : op = .mul ∨ op = .div ∨ op = .mod →
      Derives .term l → Derives .power r → Derives .term (binary op l r)
  | juxtaposed {l r : Tree} : Derives .term l → Derives .power r → joins l.text r.text →
      Derives .term (juxtaposed l r)
  | term {t : Tree} : Derives .term t → Derives .expr t
  | sum {op : Operator} {l r : Tree} : op = .add ∨ op = .sub →
      Derives .expr l → Derives .term r → Derives .expr (binary op l r)

end Tree

/-- A well-formed expression. -/
structure Expression where
  tree : Tree
  derives : tree.Derives .expr

/-- A text that writes an expression. -/
def IsSentence (s : Text) : Prop := ∃ e : Expression, e.tree.text = s

/-- No sign stands directly before a closing parenthesis. -/
def ClosesNoSign (s : Text) : Prop := s.IsChain fun a b => b = ')' → a ≠ '+' ∧ a ≠ '-'

instance (s : Text) : Decidable (ClosesNoSign s) :=
  inferInstanceAs (Decidable (s.IsChain fun a b => b = ')' → a ≠ '+' ∧ a ≠ '-'))

/-! ## Values -/

theorem Operator.apply_eq_none_iff (op : Operator) (x y : Float) :
    op.apply x y = none ↔ (op = .div ∨ op = .mod) ∧ (y == 0.0) = true := by
  cases op <;> simp [Operator.apply]

/-- **A tree has no value exactly if it divides by zero.** -/
theorem Tree.value?_eq_none_iff (t : Tree) : t.value? = none ↔ t.DividesByZero := by
  induction t with
  | number signs n => simp [value?, DividesByZero]
  | group signs t ih => simpa [value?, DividesByZero] using ih
  | binary op l r ihl ihr =>
    simp only [value?, DividesByZero, ← ihl, ← ihr]
    cases hl : l.value? <;> cases hr : r.value? <;> simp [Operator.apply_eq_none_iff]
  | juxtaposed l r ihl ihr =>
    simp only [value?, DividesByZero, ← ihl, ← ihr]
    cases hl : l.value? <;> cases hr : r.value? <;> simp [Operator.apply]

/-! ## The characters of a sentence -/

theorem Literal.isNumeric_of_mem (n : Literal) {c : Char} (h : c ∈ n.text) : isNumeric c := by
  rw [isNumeric, Bool.or_eq_true, beq_iff_eq]
  rcases List.mem_append.mp h with h | h
  · exact .inl (n.isDigit_whole c h)
  · have hf := n.isDigit_fraction
    cases hn : n.fraction with
    | none => simp [hn] at h
    | some f =>
      simp only [hn, Option.map_some, Option.getD_some, List.mem_cons] at h hf
      exact h.symm.imp_left (hf c)

theorem Literal.text_ne_nil (n : Literal) : n.text ≠ [] := by
  have := n.ne_nil
  cases hn : n.fraction <;> simp_all [text]

theorem Literal.exists_isDigit (n : Literal) : ∃ c ∈ n.text, c.isDigit := by
  obtain ⟨c, hc⟩ := List.exists_mem_of_ne_nil _ n.ne_nil
  rcases List.mem_append.mp hc with hc | hc
  · exact ⟨c, List.mem_append_left _ hc, n.isDigit_whole c hc⟩
  · have hf := n.isDigit_fraction c hc
    cases hn : n.fraction with
    | none => simp [hn] at hc
    | some f =>
      rw [hn, Option.getD_some] at hc
      exact ⟨c, List.mem_append_right _ (by simp [hn, hc]), hf⟩

/-- What an operand can end with: a character of a number or a closing parenthesis. -/
def isOperandEnd (c : Char) : Bool := isNumeric c || c == ')'

theorem not_sign_of_isOperandEnd {c : Char} (h : isOperandEnd c) : c ≠ '+' ∧ c ≠ '-' := by
  constructor <;> rintro rfl <;> simp [isOperandEnd, isNumeric] at h

namespace Tree

/-- The text of a tree ends as an operand does. -/
theorem exists_text_eq_concat (t : Tree) : ∃ u c, t.text = u ++ [c] ∧ isOperandEnd c := by
  induction t with
  | number signs n =>
    obtain ⟨u, c, hu⟩ := (List.eq_nil_or_concat n.text).resolve_left n.text_ne_nil
    have hc : isNumeric c := n.isNumeric_of_mem (by simp [hu])
    exact ⟨signs.map Sign.toChar ++ u, c, by simp [text, hu], by simp [isOperandEnd, hc]⟩
  | group signs t _ => exact ⟨signs.map Sign.toChar ++ '(' :: t.text, ')', by simp [text], rfl⟩
  | binary op l r _ ih =>
    obtain ⟨u, c, hu, hc⟩ := ih
    exact ⟨l.text ++ op.toChar :: u, c, by simp [text, hu], hc⟩
  | juxtaposed l r _ ih =>
    obtain ⟨u, c, hu, hc⟩ := ih
    exact ⟨l.text ++ u, c, by simp [text, hu], hc⟩

/-- The text of a tree does not start with a closing parenthesis. -/
theorem exists_text_eq_cons (t : Tree) : ∃ c u, t.text = c :: u ∧ c ≠ ')' := by
  induction t with
  | number signs n =>
    cases signs with
    | nil =>
      obtain ⟨c, u, hu⟩ := List.exists_cons_of_ne_nil n.text_ne_nil
      refine ⟨c, u, by simp [text, hu], ?_⟩
      rintro rfl
      exact absurd (n.isNumeric_of_mem (c := ')') (by simp [hu])) (by decide)
    | cons s ss => exact ⟨s.toChar, ss.map Sign.toChar ++ n.text, rfl, by cases s <;> decide⟩
  | group signs t _ =>
    cases signs with
    | nil => exact ⟨'(', t.text ++ [')'], rfl, by decide⟩
    | cons s ss =>
      exact ⟨s.toChar, ss.map Sign.toChar ++ ('(' :: t.text ++ [')']), rfl, by cases s <;> decide⟩
  | binary op l r ih _ =>
    obtain ⟨c, u, hu, hc⟩ := ih
    exact ⟨c, u ++ op.toChar :: r.text, by simp [text, hu], hc⟩
  | juxtaposed l r ih _ =>
    obtain ⟨c, u, hu, hc⟩ := ih
    exact ⟨c, u ++ r.text, by simp [text, hu], hc⟩

end Tree

theorem closesNoSign_append {s t : Text} :
    ClosesNoSign (s ++ t) ↔ ClosesNoSign s ∧ ClosesNoSign t ∧
      ∀ a ∈ s.getLast?, ∀ b ∈ t.head?, b = ')' → a ≠ '+' ∧ a ≠ '-' :=
  List.isChain_append

theorem closesNoSign_of_not_mem {s : Text} (h : ')' ∉ s) : ClosesNoSign s := by
  induction s with
  | nil => exact List.IsChain.nil
  | cons c s ih =>
    rw [List.mem_cons, not_or] at h
    refine List.isChain_cons.mpr ⟨?_, ih h.2⟩
    rintro d hd rfl
    exact absurd (List.mem_of_head? hd) h.2

/-- A text that ends as an operand does can be followed by anything. -/
theorem ClosesNoSign.append {s t : Text} {c : Char} (hs : ClosesNoSign (s ++ [c]))
    (hc : isOperandEnd c) (ht : ClosesNoSign t) : ClosesNoSign (s ++ [c] ++ t) := by
  refine closesNoSign_append.mpr ⟨hs, ht, ?_⟩
  intro a ha _ _ _
  rw [List.getLast?_concat, Option.mem_some] at ha
  exact ha ▸ not_sign_of_isOperandEnd hc

theorem ClosesNoSign.cons {c d : Char} {t : Text} (hd : d ≠ ')') (ht : ClosesNoSign (d :: t)) :
    ClosesNoSign (c :: d :: t) :=
  List.isChain_cons_cons.mpr ⟨fun h => absurd h hd, ht⟩

theorem not_mem_map_toChar (signs : List Sign) : ')' ∉ signs.map Sign.toChar := by
  simp only [List.mem_map, not_exists, not_and]
  rintro (_ | _) - <;> decide

theorem Tree.closesNoSign_text (t : Tree) : ClosesNoSign t.text := by
  induction t with
  | number signs n =>
    refine closesNoSign_of_not_mem fun h => ?_
    rcases List.mem_append.mp h with h | h
    · exact not_mem_map_toChar signs h
    · exact absurd (n.isNumeric_of_mem h) (by decide)
  | group signs t ih =>
    obtain ⟨u, c, hu, hc⟩ := t.exists_text_eq_concat
    obtain ⟨d, v, hv, hd⟩ := t.exists_text_eq_cons
    have hclosed : ClosesNoSign (t.text ++ [')']) := by
      rw [hu] at ih ⊢
      exact ih.append hc (List.IsChain.singleton _)
    have hopened : ClosesNoSign ('(' :: t.text ++ [')']) := by
      rw [hv, List.cons_append] at hclosed ⊢
      exact hclosed.cons hd
    refine closesNoSign_append.mpr ⟨closesNoSign_of_not_mem (not_mem_map_toChar signs), ?_, ?_⟩
    · exact hopened
    · rintro a - b hb rfl
      simp at hb
  | binary op l r ihl ihr =>
    obtain ⟨u, c, hu, hc⟩ := l.exists_text_eq_concat
    obtain ⟨d, v, hv, hd⟩ := r.exists_text_eq_cons
    rw [text, hu]
    rw [hu] at ihl
    refine ihl.append hc ?_
    rw [hv] at ihr ⊢
    exact ihr.cons hd
  | juxtaposed l r ihl ihr =>
    obtain ⟨u, c, hu, hc⟩ := l.exists_text_eq_concat
    rw [text, hu]
    rw [hu] at ihl
    exact ihl.append hc ihr

/-- **In a sentence, no sign stands directly before a closing parenthesis.** -/
theorem IsSentence.closesNoSign {s : Text} (h : IsSentence s) : ClosesNoSign s := by
  obtain ⟨e, rfl⟩ := h
  exact e.tree.closesNoSign_text

end Snippet.Arithmetic
