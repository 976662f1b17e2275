import Snippet.Proofs.Arithmetic.Scanning

/-!
# The value of a well-formed expression

The symbols of a tree are brought into postfix order as the code of the tree, and the code leaves
the value of the tree on the stack.

While a tree is read, operators that have not met their right operand wait on top of those that
waited before. A tree of a level is applied before the operators that may follow it there
(`Tree.Level.endsBefore`), and it leaves alone what waits below as long as this does not yield to
the operators of the level (`Tree.Level.holds`). With these two facts on both sides of an operator
the parts of a tree can be put together (`Ordered.binary`).

The main statement is that the text of an expression evaluates to the value of its tree
(`evaluate_text`).
-/

namespace Snippet.Arithmetic

/-! ## Waiting symbols -/

namespace Yard

/-- The program after the waiting operators are moved to it. -/
def flush : List Pending → List Instruction → List Instruction
  | [], program => program
  | .operator op :: rest, program => flush rest (.apply op :: program)
  | .negate :: rest, program => flush rest (.negate :: program)
  | .group :: rest, program => flush rest program

variable {op : Operator} {program : List Instruction} {top waiting : List Pending}

theorem flush_append : flush (top ++ waiting) program = flush waiting (flush top program) := by
  induction top generalizing program with
  | nil => rfl
  | cons x top ih => cases x <;> exact ih

/-- Symbols that all yield to an operator are moved to the program in front of it. -/
theorem yieldTo_append (h : ∀ x ∈ top, yields op x) :
    yieldTo op program (top ++ waiting) = yieldTo op (flush top program) waiting := by
  induction top generalizing program with
  | nil => rfl
  | cons x top ih =>
    have hx := h x (List.mem_cons_self ..)
    have htop : ∀ y ∈ top, yields op y := fun y hy => h y (List.mem_cons_of_mem _ hy)
    cases x with
    | operator first =>
      rw [yields] at hx
      rw [List.cons_append, yieldTo, if_pos hx, ih htop]
      rfl
    | negate => exact ih htop
    | group => cases hx

/-- Nothing is moved to the program if the last symbol that waits does not yield. -/
theorem yieldTo_of_not_yields (h : ∀ x ∈ waiting.head?, yields op x = false) :
    yieldTo op program waiting = ⟨program, waiting⟩ := by
  cases waiting with
  | nil => rfl
  | cons x rest =>
    have hx := h x rfl
    cases x with
    | operator first =>
      rw [yields] at hx
      rw [yieldTo, hx, if_neg Bool.false_ne_true]
    | negate => cases hx
    | group => rfl

theorem endGroup?_append (h : .group ∉ top) :
    endGroup? program (top ++ .group :: waiting) = some ⟨flush top program, waiting⟩ := by
  induction top generalizing program with
  | nil => rfl
  | cons x top ih =>
    rw [List.mem_cons, not_or] at h
    cases x with
    | operator _ => exact ih h.2
    | negate => exact ih h.2
    | group => exact absurd rfl h.1

theorem finish?_eq (h : .group ∉ waiting) :
    finish? program waiting = some (flush waiting program).reverse := by
  induction waiting generalizing program with
  | nil => rfl
  | cons x waiting ih =>
    rw [List.mem_cons, not_or] at h
    cases x with
    | operator _ => exact ih h.2
    | negate => exact ih h.2
    | group => exact absurd rfl h.1

end Yard

/-! ## Levels and precedences -/

namespace Tree.Level

/-- The precedence of the loosest operators of a level. -/
def precedence : Level → Nat
  | unary => 5
  | power => 4
  | term => 3
  | expr => 2

/-- Whether an operator may stand between the parts of a tree of a level. -/
def holds (level : Level) (op : Operator) : Bool := level.precedence ≤ op.precedence

/-- Whether a tree of a level is applied before an operator that follows it. -/
def endsBefore (level : Level) (op : Operator) : Bool :=
  op.precedence < level.precedence ||
    (op.precedence == level.precedence && !op.groupsRight)

end Tree.Level

/-! ## Postfix order of a tree -/

/-- The instructions of a tree, in order. -/
def Tree.code : Tree → List Instruction
  | number signs n => [.push (Sign.apply signs n.value)]
  | group signs t => t.code ++ if Sign.negate signs then [.negate] else []
  | binary op l r => l.code ++ (r.code ++ [.apply op])
  | juxtaposed l r => l.code ++ (r.code ++ [.apply .mul])

/-- The symbols of a tree are brought into postfix order as its code: on a stack that holds the
operators of the level, the tree leaves symbols which yield to what ends the level, and which
complete the code. -/
def Ordered (level : Tree.Level) (symbols : List Symbol) (code : List Instruction) : Prop :=
  ∀ program waiting, (∀ op, level.holds op → ∀ x ∈ waiting.head?, Yard.yields op x = false) →
    ∃ program' top,
      symbols.foldlM Yard.step? ⟨program, waiting⟩ = some ⟨program', top ++ waiting⟩ ∧
      Yard.flush top program' = code.reverse ++ program ∧
      ∀ x ∈ top, ∀ op, level.endsBefore op → Yard.yields op x

namespace Ordered

variable {level level₁ level₂ : Tree.Level} {a b : List Symbol} {c d : List Instruction}

/-- A tree of a tighter level is a tree of a looser one. -/
theorem mono (h : Ordered level₁ a c) (hlt : level.precedence < level₁.precedence) :
    Ordered level a c := by
  intro program waiting hwaiting
  obtain ⟨program', top, hfold, hflush, htop⟩ := h program waiting fun op hop => by
    refine hwaiting op ?_
    simp only [Tree.Level.holds, decide_eq_true_eq] at hop ⊢
    omega
  refine ⟨program', top, hfold, hflush, fun x hx op hop => htop x hx op ?_⟩
  simp only [Tree.Level.endsBefore, Bool.or_eq_true, Bool.and_eq_true, decide_eq_true_eq,
    beq_iff_eq] at hop ⊢
  omega

theorem number (x : Float) : Ordered .unary [.number x] [.push x] := by
  intro program waiting _
  refine ⟨.push x :: program, [], rfl, rfl, ?_⟩
  rintro y hy
  cases hy

/-- Where no group is left open, there is none among the symbols that a tree leaves. -/
theorem group_not_mem {top : List Pending}
    (h : ∀ x ∈ top, ∀ op, level.endsBefore op → Yard.yields op x) : .group ∉ top := by
  intro hmem
  have hadd : level.endsBefore .add := by cases level <;> rfl
  cases h _ hmem .add hadd

theorem group (h : Ordered .expr a c) : Ordered .unary (.opening :: (a ++ [.closing])) c := by
  intro program waiting _
  obtain ⟨program', top, hfold, hflush, htop⟩ := h program (.group :: waiting) (by
    rintro op - x hx
    cases hx
    rfl)
  refine ⟨Yard.flush top program', [], ?_, hflush, by simp⟩
  have hend : Yard.endGroup? program' (top ++ .group :: waiting) =
      some ⟨Yard.flush top program', waiting⟩ := Yard.endGroup?_append (group_not_mem htop)
  rw [List.foldlM_cons]
  simp [Yard.step?, List.foldlM_append, hfold, hend]

/-- A minus in front of a group waits until something follows the group. -/
theorem negate (h : Ordered .unary a c) : Ordered .unary (.negate :: a) (c ++ [.negate]) := by
  intro program waiting _
  obtain ⟨program', top, hfold, hflush, htop⟩ := h program (.negate :: waiting) (by
    rintro op hop
    cases op <;> cases hop)
  refine ⟨program', top ++ [.negate], ?_, ?_, ?_⟩
  · rw [List.foldlM_cons]
    simpa [Yard.step?] using hfold
  · rw [Yard.flush_append, hflush]
    simp [Yard.flush]
  · intro x hx op hop
    rcases List.mem_append.mp hx with hx | hx
    · exact htop x hx op hop
    · obtain rfl := List.mem_singleton.mp hx
      rfl

/-- An operator between a tree that is applied before it and a tree that is not disturbed by it. -/
theorem binary (op : Operator) (hl : Ordered level₁ a c) (hr : Ordered level₂ b d)
    (hholds : ∀ o, level₁.holds o → level.holds o) (hop : level.holds op)
    (hends : level₁.endsBefore op)
    (hright : ∀ o, level₂.holds o → op.bindsBefore o = false)
    (hafter : ∀ o, level.endsBefore o → level₂.endsBefore o ∧ op.bindsBefore o) :
    Ordered level (a ++ .operator op :: b) (c ++ (d ++ [.apply op])) := by
  intro program waiting hwaiting
  obtain ⟨program₁, top₁, hfold₁, hflush₁, htop₁⟩ :=
    hl program waiting fun o ho => hwaiting o (hholds o ho)
  obtain ⟨program₂, top₂, hfold₂, hflush₂, htop₂⟩ :=
    hr (c.reverse ++ program) (.operator op :: waiting) (by
      rintro o ho x hx
      cases hx
      exact hright o ho)
  -- the left tree is complete, and what waits below it keeps waiting
  have hyield : Yard.yieldTo op program₁ (top₁ ++ waiting) = ⟨c.reverse ++ program, waiting⟩ := by
    rw [Yard.yieldTo_append fun x hx => htop₁ x hx op hends, hflush₁]
    exact Yard.yieldTo_of_not_yields (hwaiting op hop)
  refine ⟨program₂, top₂ ++ [.operator op], ?_, ?_, ?_⟩
  · rw [List.foldlM_append, hfold₁]
    simpa [Yard.step?, hyield] using hfold₂
  · rw [Yard.flush_append, hflush₂]
    simp [Yard.flush]
  · intro x hx o ho
    rcases List.mem_append.mp hx with hx | hx
    · exact htop₂ x hx o (hafter o ho).1
    · obtain rfl := List.mem_singleton.mp hx
      exact (hafter o ho).2

theorem product (op : Operator) (hop : op = .mul ∨ op = .div ∨ op = .mod)
    (hl : Ordered .term a c) (hr : Ordered .power b d) :
    Ordered .term (a ++ .operator op :: b) (c ++ (d ++ [.apply op])) := by
  refine binary op hl hr (fun _ h => h) ?_ ?_ ?_ ?_ <;> rcases hop with rfl | rfl | rfl
  any_goals rfl
  all_goals rintro (_ | _ | _ | _ | _ | _) <;> decide

theorem sum (op : Operator) (hop : op = .add ∨ op = .sub)
    (hl : Ordered .expr a c) (hr : Ordered .term b d) :
    Ordered .expr (a ++ .operator op :: b) (c ++ (d ++ [.apply op])) := by
  refine binary op hl hr (fun _ h => h) ?_ ?_ ?_ ?_ <;> rcases hop with rfl | rfl
  any_goals rfl
  all_goals rintro (_ | _ | _ | _ | _ | _) <;> decide

theorem pow (hl : Ordered .unary a c) (hr : Ordered .power b d) :
    Ordered .power (a ++ .operator .pow :: b) (c ++ (d ++ [.apply .pow])) := by
  refine binary .pow hl hr ?_ rfl rfl ?_ ?_ <;> rintro (_ | _ | _ | _ | _ | _) <;> decide

end Ordered

/-- **The symbols of a well-formed tree are brought into postfix order as its code.** -/
theorem ordered_symbols {level : Tree.Level} {t : Tree} (h : t.Derives level) :
    Ordered level t.symbols t.code := by
  induction h with
  | number signs n => exact .number _
  | group signs _ ih =>
    rw [Tree.symbols, Tree.code]
    split
    · exact ih.group.negate
    · simpa using ih.group
  | unary _ ih => exact ih.mono (by decide)
  | pow _ _ ihl ihr => exact ihl.pow ihr
  | power _ ih => exact ih.mono (by decide)
  | product hop _ _ ihl ihr => exact .product _ hop ihl ihr
  | juxtaposed _ _ _ ihl ihr => exact .product .mul (.inl rfl) ihl ihr
  | term _ ih => exact ih.mono (by decide)
  | sum hop _ _ ihl ihr => exact .sum _ hop ihl ihr

theorem program?_symbols {t : Tree} (h : t.Derives .expr) : program? t.symbols = some t.code := by
  obtain ⟨program, top, hfold, hflush, htop⟩ := ordered_symbols h [] [] (by simp)
  have hfinish : Yard.finish? program top = some (Yard.flush top program).reverse :=
    Yard.finish?_eq (Ordered.group_not_mem htop)
  rw [List.append_nil] at hfold hflush
  rw [hflush, List.reverse_reverse] at hfinish
  rw [program?, hfold]
  exact hfinish

/-! ## Running the code of a tree -/

/-- On every stack the code leaves a value, or fails where there is none. -/
def Leaves (code : List Instruction) (value? : Option Float) : Prop :=
  ∀ stack, code.foldlM Instruction.run? stack = value?.map (· :: stack)

theorem Leaves.group {c : List Instruction} {x? : Option Float} (h : Leaves c x?)
    (signs : List Sign) : Leaves (c ++ if Sign.negate signs then [.negate] else [])
      (x?.map (Sign.apply signs)) := by
  intro stack
  rw [List.foldlM_append, h stack]
  cases x? <;> cases hsigns : Sign.negate signs <;> simp [Sign.apply, hsigns, Instruction.run?]

/-- The operands are left in order, and the operator is applied to both. -/
theorem Leaves.binary {c d : List Instruction} {x? y? : Option Float} (hl : Leaves c x?)
    (hr : Leaves d y?) (op : Operator) :
    Leaves (c ++ (d ++ [.apply op])) (do op.apply (← x?) (← y?)) := by
  intro stack
  rw [List.foldlM_append, hl stack]
  cases x? with
  | none => rfl
  | some x =>
    rw [Option.map_some, Option.bind_eq_bind, Option.bind_some, List.foldlM_append, hr]
    cases y? <;> simp [Instruction.run?]

/-- **The code of a tree leaves the value of the tree on the stack.** -/
theorem leaves_code (t : Tree) : Leaves t.code t.value? := by
  induction t with
  | number signs n => exact fun _ => rfl
  | group signs _ ih => exact ih.group signs
  | binary op _ _ ihl ihr => exact ihl.binary ihr op
  | juxtaposed _ _ ihl ihr => exact ihl.binary ihr .mul

theorem run?_code (t : Tree) : run? t.code = t.value?.filter Float.isFinite := by
  rw [run?, leaves_code]
  cases t.value? <;> simp [Option.filter]

/-- **The text of an expression evaluates to the value of its tree, if this is finite. It has no
value exactly if the tree divides by zero or its value is not finite.** -/
theorem evaluate_text (e : Expression) :
    evaluate e.tree.text = e.tree.value?.filter Float.isFinite ∧
      (evaluate e.tree.text = none ↔
        e.tree.DividesByZero ∨ ∃ x, e.tree.value? = some x ∧ x.isFinite = false) := by
  have hvalue : evaluate e.tree.text = e.tree.value?.filter Float.isFinite := by
    rw [evaluate, symbols?_text e.derives]
    simp [program?_symbols e.derives, run?_code]
  refine ⟨hvalue, ?_⟩
  rw [hvalue, ← e.tree.value?_eq_none_iff]
  cases e.tree.value? <;> simp

end Snippet.Arithmetic
