import Snippet.Proofs.Arithmetic.Evaluation

/-!
# Prefixes of a sentence

An expression goes on with an operator and a further operand, or with a further factor
(`Tree.Derives.exists_operator`, `Tree.Derives.exists_juxtaposed`): the tree is changed along its
right edge only. So it is enough to know of a prefix of a sentence how many groups are open and what
stands in front of the innermost operand. A prefix ends where an expression may start (`Opens`),
with signs in front of an operand (`Awaits`), within a number (`Counts`) or with an expression
(`Closes`), and the lemmas say which characters lead from one to the other.
-/

namespace Snippet.Arithmetic

/-! ## A further operand -/

namespace Tree

theorem joins_append {l r : Text} (h : joins l r) (t : Text) : joins l (r ++ t) := by
  cases r with
  | nil => cases h
  | cons c r => exact h

/-- A factor that multiplies a text also multiplies the operand at its end. -/
theorem joins_of_append {s l r : Text} (hl : l ≠ []) (h : joins (s ++ l) r) : joins l r := by
  cases r with
  | nil => cases h
  | cons c r => rwa [joins, List.getLast?_append_of_ne_nil s hl] at h

theorem text_ne_nil (t : Tree) : t.text ≠ [] := by
  obtain ⟨u, c, hu, -⟩ := t.exists_text_eq_concat
  simp [hu]

namespace Level

variable {op : Operator}

theorem eq_pow_of_holds (h : power.holds op) : op = .pow := by
  cases op <;> first | rfl | cases h

theorem power_holds_or_product (h : term.holds op) :
    power.holds op ∨ op = .mul ∨ op = .div ∨ op = .mod := by
  cases op <;> simp_all [holds, precedence, Operator.precedence]

theorem term_holds_or_sum (op : Operator) : term.holds op ∨ op = .add ∨ op = .sub := by
  cases op <;> simp [holds, precedence, Operator.precedence]

end Level

namespace Derives

variable {level : Level} {t u : Tree} {op : Operator}

/-- A tree of a level that holds an operator goes on with the operator and a further operand. -/
theorem exists_operator (ht : t.Derives level) (hop : level.holds op) (hu : u.Derives .unary) :
    ∃ t' : Tree, t'.Derives level ∧ t'.text = t.text ++ op.toChar :: u.text := by
  induction ht with
  | number signs n => cases op <;> cases hop
  | group signs _ _ => cases op <;> cases hop
  | @unary t ht _ =>
    obtain rfl := Level.eq_pow_of_holds hop
    exact ⟨binary .pow t u, .pow ht (.unary hu), rfl⟩
  | @pow l r hl _ _ ih =>
    obtain ⟨r', hr', htext⟩ := ih hop
    exact ⟨binary .pow l r', .pow hl hr', by simp [text, htext]⟩
  | @power t ht ih =>
    rcases Level.power_holds_or_product hop with hpow | hproduct
    · obtain ⟨t', ht', htext⟩ := ih hpow
      exact ⟨t', .power ht', htext⟩
    · exact ⟨binary op t u, .product hproduct (.power ht) (.unary hu), rfl⟩
  | @product op' l r hop' hl hr _ ih =>
    rcases Level.power_holds_or_product hop with hpow | hproduct
    · obtain ⟨r', hr', htext⟩ := ih hpow
      exact ⟨binary op' l r', .product hop' hl hr', by simp [text, htext]⟩
    · exact ⟨binary op _ u, .product hproduct (.product hop' hl hr) (.unary hu), rfl⟩
  | @juxtaposed l r hl hr hj _ ih =>
    rcases Level.power_holds_or_product hop with hpow | hproduct
    · obtain ⟨r', hr', htext⟩ := ih hpow
      refine ⟨.juxtaposed l r', .juxtaposed hl hr' ?_, by simp [text, htext]⟩
      rw [htext]
      exact joins_append hj _
    · exact ⟨binary op _ u, .product hproduct (.juxtaposed hl hr hj) (.unary hu), rfl⟩
  | @term t ht ih =>
    rcases Level.term_holds_or_sum op with hterm | hsum
    · obtain ⟨t', ht', htext⟩ := ih hterm
      exact ⟨t', .term ht', htext⟩
    · exact ⟨binary op t u, .sum hsum (.term ht) (.power (.unary hu)), rfl⟩
  | @sum op' l r hop' hl hr _ ih =>
    rcases Level.term_holds_or_sum op with hterm | hsum
    · obtain ⟨r', hr', htext⟩ := ih hterm
      exact ⟨binary op' l r', .sum hop' hl hr', by simp [text, htext]⟩
    · exact ⟨binary op _ u, .sum hsum (.sum hop' hl hr) (.power (.unary hu)), rfl⟩

/-- An expression goes on with a further factor. -/
theorem exists_juxtaposed (ht : t.Derives .expr) (hu : u.Derives .unary)
    (hj : joins t.text u.text) : ∃ t' : Tree, t'.Derives .expr ∧ t'.text = t.text ++ u.text := by
  cases ht with
  | term ht =>
    exact ⟨.juxtaposed t u, .term (.juxtaposed ht (.unary hu) hj), rfl⟩
  | @sum op' l r hop' hl hr =>
    have hlast : joins r.text u.text := by
      rw [text, List.append_cons] at hj
      exact joins_of_append r.text_ne_nil hj
    refine ⟨binary op' l (.juxtaposed r u), .sum hop' hl (.juxtaposed hr (.unary hu) hlast), ?_⟩
    simp [text]

end Derives

end Tree

/-! ## Prefixes of a sentence -/

/-- What stands in front of an operand inside its group: nothing, an expression and an operator, or
an expression that the operand multiplies. -/
inductive Lead where
  | start
  | operator (e : Expression) (op : Operator)
  | juxtaposed (e : Expression)

namespace Lead

/-- The written form. -/
def text : Lead → Text
  | start => []
  | operator e op => e.tree.text ++ [op.toChar]
  | juxtaposed e => e.tree.text

/-- Whether an operand with the given text may follow. -/
def Fits : Lead → Text → Prop
  | start, _ | operator _ _, _ => True
  | juxtaposed e, t => Tree.joins e.tree.text t

theorem Fits.append {lead : Lead} {t : Text} (h : lead.Fits t) (u : Text) : lead.Fits (t ++ u) := by
  cases lead with
  | start => trivial
  | operator _ _ => trivial
  | juxtaposed e => exact Tree.joins_append h u

/-- With an operand that may follow there is an expression. -/
theorem Fits.exists_expression {lead : Lead} {t : Tree} (h : lead.Fits t.text)
    (ht : t.Derives .unary) : ∃ e : Expression, e.tree.text = lead.text ++ t.text := by
  cases lead with
  | start => exact ⟨⟨t, .term (.power (.unary ht))⟩, rfl⟩
  | operator e op =>
    have hop : Tree.Level.expr.holds op := by cases op <;> rfl
    obtain ⟨t', ht', htext⟩ := e.derives.exists_operator hop ht
    exact ⟨⟨t', ht'⟩, by simp [htext, text]⟩
  | juxtaposed e =>
    obtain ⟨t', ht', htext⟩ := e.derives.exists_juxtaposed ht h
    exact ⟨⟨t', ht'⟩, htext⟩

end Lead

/-- A text that ends where an expression may start, with `n` groups open. -/
inductive Opens : Nat → Text → Prop where
  | start : Opens 0 []
  | group {n : Nat} {u : Text} (lead : Lead) (signs : List Sign) :
      Opens n u → lead.Fits (signs.map Sign.toChar ++ ['(']) →
      Opens (n + 1) (u ++ lead.text ++ signs.map Sign.toChar ++ ['('])

/-- A text that ends with an expression, with `n` groups open. -/
def Closes (n : Nat) (u : Text) : Prop :=
  ∃ v, ∃ e : Expression, Opens n v ∧ u = v ++ e.tree.text

/-- A text that ends with signs in front of an operand, which may be any, with `n` groups open. -/
def Awaits (n : Nat) (u : Text) (signs : List Sign) : Prop :=
  ∃ v, ∃ lead : Lead, Opens n v ∧ (∀ t, lead.Fits t) ∧
    u = v ++ lead.text ++ signs.map Sign.toChar

/-- A text that ends with the characters of a number, with `n` groups open. -/
def Counts (n : Nat) (u digits : Text) : Prop :=
  ∃ v, ∃ lead : Lead, ∃ signs : List Sign, Opens n v ∧
    lead.Fits (signs.map Sign.toChar ++ digits) ∧
    u = v ++ lead.text ++ signs.map Sign.toChar ++ digits

section

variable {n : Nat} {u digits : Text} {signs : List Sign}

theorem Opens.awaits (h : Opens n u) : Awaits n u [] :=
  ⟨u, .start, h, fun _ => trivial, by simp [Lead.text]⟩

theorem Awaits.sign (h : Awaits n u signs) (sign : Sign) :
    Awaits n (u ++ [sign.toChar]) (signs ++ [sign]) := by
  obtain ⟨v, lead, hv, hfits, rfl⟩ := h
  exact ⟨v, lead, hv, hfits, by simp⟩

theorem Awaits.counts (h : Awaits n u signs) (c : Char) : Counts n (u ++ [c]) [c] := by
  obtain ⟨v, lead, hv, hfits, rfl⟩ := h
  exact ⟨v, lead, signs, hv, hfits _, rfl⟩

theorem Awaits.opens (h : Awaits n u signs) : Opens (n + 1) (u ++ ['(']) := by
  obtain ⟨v, lead, hv, hfits, rfl⟩ := h
  exact .group lead signs hv (hfits _)

theorem Counts.append (h : Counts n u digits) (c : Char) : Counts n (u ++ [c]) (digits ++ [c]) := by
  obtain ⟨v, lead, signs, hv, hfits, rfl⟩ := h
  refine ⟨v, lead, signs, hv, ?_, by simp⟩
  rw [← List.append_assoc]
  exact hfits.append [c]

theorem Counts.closes {m : Literal} (h : Counts n u m.text) : Closes n u := by
  obtain ⟨v, lead, signs, hv, hfits, rfl⟩ := h
  obtain ⟨e, he⟩ := Lead.Fits.exists_expression (t := .number signs m) hfits (.number signs m)
  exact ⟨v, e, hv, by simp [he, Tree.text]⟩

theorem Closes.operator (h : Closes n u) (op : Operator) : Awaits n (u ++ [op.toChar]) [] := by
  obtain ⟨v, e, hv, rfl⟩ := h
  exact ⟨v, .operator e op, hv, fun _ => trivial, by simp [Lead.text]⟩

theorem Closes.opens (h : Closes n u) : Opens (n + 1) (u ++ ['(']) := by
  obtain ⟨v, e, hv, rfl⟩ := h
  have hgroup : Opens (n + 1) (v ++ e.tree.text ++ [].map Sign.toChar ++ ['(']) :=
    .group (.juxtaposed e) [] hv (by simp [Lead.Fits, Tree.joins])
  simpa using hgroup

/-- The end of a group makes an expression of what stands in front of the group. -/
theorem Closes.group (h : Closes (n + 1) u) : Closes n (u ++ [')']) := by
  obtain ⟨v, e, hv, rfl⟩ := h
  cases hv with
  | @group _ w lead signs hw hfits =>
    have hgroup : lead.Fits (Tree.group signs e.tree).text := by
      have := hfits.append (e.tree.text ++ [')'])
      simpa [Tree.text] using this
    obtain ⟨e', he'⟩ := hgroup.exists_expression (.group signs e.derives)
    exact ⟨w, e', hw, by simp [he', Tree.text]⟩

/-- A number directly behind a group multiplies it. -/
theorem Closes.counts (h : Closes n u) (hlast : u.getLast? = some ')') {c : Char}
    (hc : isNumeric c) : Counts n (u ++ [c]) [c] := by
  obtain ⟨v, e, hv, rfl⟩ := h
  refine ⟨v, .juxtaposed e, [], hv, ?_, by simp [Lead.text]⟩
  rw [List.getLast?_append_of_ne_nil v e.tree.text_ne_nil] at hlast
  simp [Lead.Fits, Tree.joins, hc, hlast]

theorem Closes.isSentence (h : Closes 0 u) : IsSentence u := by
  obtain ⟨v, e, hv, rfl⟩ := h
  cases hv
  exact ⟨e, rfl⟩

end

end Snippet.Arithmetic
