import Mathlib.Algebra.Ring.Int.Defs
import Snippet.Arithmetic.Evaluate

/-!
# Numbers, operators and groups

What an evaluation checks of the order of its symbols is only that it ends with one value and that
groups are opened and closed in pairs.

A number weighs one and an operator minus one. The weight is the same for the symbols and for the
program (`weight_depth_of_program?`), and running a program changes the height of the stack by the
weight of the program (`length_of_foldlM_run?`). So a text that has a value has exactly one number
more than it has operators. The depth of the open groups is the number of groups that wait.
-/

namespace Snippet.Arithmetic

/-! ## Weights -/

/-- What a symbol adds to the number of values. -/
def Symbol.weight : Symbol → Int
  | .number _ => 1
  | .operator _ => -1
  | .negate | .opening | .closing => 0

/-- What an instruction adds to the height of the stack. -/
def Instruction.weight : Instruction → Int
  | .push _ => 1
  | .apply _ => -1
  | .negate => 0

/-- What a waiting symbol adds to the height of the stack when it is moved to the program. -/
def Pending.weight : Pending → Int
  | .operator _ => -1
  | .negate | .group => 0

/-- Numbers less operators. -/
def weight (symbols : List Symbol) : Int := (symbols.map Symbol.weight).sum

@[simp] theorem weight_nil : weight [] = 0 := rfl

@[simp] theorem weight_cons (sym : Symbol) (symbols : List Symbol) :
    weight (sym :: symbols) = sym.weight + weight symbols := by
  simp [weight]

/-- What the instructions of a program add to the height of the stack. -/
def programWeight (program : List Instruction) : Int := (program.map Instruction.weight).sum

@[simp] theorem programWeight_cons (i : Instruction) (program : List Instruction) :
    programWeight (i :: program) = i.weight + programWeight program := by
  simp [programWeight]

theorem programWeight_reverse (program : List Instruction) :
    programWeight program.reverse = programWeight program := by
  simp only [programWeight, List.map_reverse, List.sum_reverse]

/-- The number of groups that are open behind the symbols, newest first. There is none where a group
is closed that was not opened. -/
def depth? : List Symbol → Option Nat
  | [] => some 0
  | .opening :: rest => (depth? rest).map (· + 1)
  | .closing :: rest =>
    match depth? rest with
    | some (n + 1) => some n
    | _ => none
  | _ :: rest => depth? rest

/-- Where a group was closed that was not opened, no later symbol makes up for it. -/
theorem depth?_cons_eq_none {symbols : List Symbol} (h : depth? symbols = none) (sym : Symbol) :
    depth? (sym :: symbols) = none := by
  cases sym <;> simp [depth?, h]

/-! ## The stack -/

theorem length_of_run? {stack stack' : List Float} {i : Instruction}
    (h : i.run? stack = some stack') : (stack'.length : Int) = stack.length + i.weight := by
  unfold Instruction.run? at h
  split at h
  · obtain rfl := Option.some.inj h
    simp [Instruction.weight]
  · split at h
    · obtain ⟨z, -, rfl⟩ := Option.map_eq_some_iff.mp h
      simp only [List.length_cons, Instruction.weight]
      omega
    · cases h
  · split at h
    · obtain rfl := Option.some.inj h
      simp [Instruction.weight]
    · cases h

theorem length_of_foldlM_run? {program : List Instruction} {stack stack' : List Float}
    (h : program.foldlM Instruction.run? stack = some stack') :
    (stack'.length : Int) = stack.length + programWeight program := by
  induction program generalizing stack with
  | nil =>
    obtain rfl := Option.some.inj h
    simp [programWeight]
  | cons i program ih =>
    rw [List.foldlM_cons] at h
    obtain ⟨stack₁, hi, h⟩ := Option.bind_eq_some_iff.mp h
    have hstep := length_of_run? hi
    have hrest := ih h
    rw [programWeight_cons]
    omega

/-- **A program that has a value weighs one.** -/
theorem programWeight_of_run? {program : List Instruction} {x : Float}
    (h : run? program = some x) : programWeight program = 1 := by
  unfold run? at h
  split at h
  · rename_i y hrun
    have hlength := length_of_foldlM_run? hrun
    simp only [List.length_cons, List.length_nil] at hlength
    omega
  · cases h

/-! ## Postfix order -/

namespace Yard

/-- The weight of what is in the program and of what waits. -/
def weight (y : Yard) : Int :=
  programWeight y.program + (y.waiting.map Pending.weight).sum

/-- The number of groups that wait for their end. -/
def depth (y : Yard) : Nat := y.waiting.count .group

@[simp] theorem weight_operator (op : Operator) (program : List Instruction)
    (waiting : List Pending) :
    weight ⟨program, .operator op :: waiting⟩ = weight ⟨program, waiting⟩ - 1 := by
  simp only [weight, List.map_cons, List.sum_cons, Pending.weight]
  omega

@[simp] theorem weight_negate (program : List Instruction) (waiting : List Pending) :
    weight ⟨program, .negate :: waiting⟩ = weight ⟨program, waiting⟩ := by
  simp [weight, Pending.weight]

@[simp] theorem weight_group (program : List Instruction) (waiting : List Pending) :
    weight ⟨program, .group :: waiting⟩ = weight ⟨program, waiting⟩ := by
  simp [weight, Pending.weight]

@[simp] theorem weight_program (i : Instruction) (program : List Instruction)
    (waiting : List Pending) :
    weight ⟨i :: program, waiting⟩ = i.weight + weight ⟨program, waiting⟩ := by
  simp only [weight, programWeight_cons]
  omega

theorem weight_depth_yieldTo (op : Operator) (program : List Instruction)
    (waiting : List Pending) :
    (yieldTo op program waiting).weight = weight ⟨program, waiting⟩ ∧
      (yieldTo op program waiting).depth = depth ⟨program, waiting⟩ := by
  induction waiting generalizing program with
  | nil => exact ⟨rfl, rfl⟩
  | cons x waiting ih =>
    cases x with
    | operator first =>
      rw [yieldTo]
      split
      · obtain ⟨hweight, hdepth⟩ := ih (.apply first :: program)
        rw [hweight, hdepth]
        refine ⟨?_, by simp [depth]⟩
        rw [weight_program, weight_operator, Instruction.weight]
        omega
      · exact ⟨rfl, rfl⟩
    | negate =>
      obtain ⟨hweight, hdepth⟩ := ih (.negate :: program)
      rw [yieldTo, hweight, hdepth]
      exact ⟨by simp [Instruction.weight], by simp [depth]⟩
    | group => exact ⟨rfl, rfl⟩

theorem weight_depth_of_endGroup? {program : List Instruction} {waiting : List Pending} {y : Yard}
    (h : endGroup? program waiting = some y) :
    y.weight = weight ⟨program, waiting⟩ ∧ depth ⟨program, waiting⟩ = y.depth + 1 := by
  induction waiting generalizing program with
  | nil => cases h
  | cons x waiting ih =>
    cases x with
    | operator op =>
      obtain ⟨hweight, hdepth⟩ := ih h
      refine ⟨?_, by simpa [depth] using hdepth⟩
      rw [hweight, weight_program, weight_operator, Instruction.weight]
      omega
    | negate =>
      obtain ⟨hweight, hdepth⟩ := ih h
      exact ⟨by simp [hweight, Instruction.weight], by simpa [depth] using hdepth⟩
    | group =>
      obtain rfl := Option.some.inj h
      exact ⟨by simp, by simp [depth]⟩

theorem weight_depth_of_finish? {program code : List Instruction} {waiting : List Pending}
    (h : finish? program waiting = some code) :
    programWeight code = weight ⟨program, waiting⟩ ∧ depth ⟨program, waiting⟩ = 0 := by
  induction waiting generalizing program with
  | nil =>
    obtain rfl := Option.some.inj h
    exact ⟨by simp [programWeight_reverse, weight], rfl⟩
  | cons x waiting ih =>
    cases x with
    | operator op =>
      obtain ⟨hweight, hdepth⟩ := ih h
      refine ⟨?_, by simpa [depth] using hdepth⟩
      rw [hweight, weight_program, weight_operator, Instruction.weight]
      omega
    | negate =>
      obtain ⟨hweight, hdepth⟩ := ih h
      exact ⟨by simp [hweight, Instruction.weight], by simpa [depth] using hdepth⟩
    | group => cases h

/-- A symbol adds its weight, and it opens or closes a group of those that wait. -/
theorem weight_depth_of_step? {y y' : Yard} {sym : Symbol} {symbols : List Symbol}
    (h : y.step? sym = some y') (hdepth : depth? symbols = some y.depth) :
    y'.weight = y.weight + sym.weight ∧ depth? (sym :: symbols) = some y'.depth := by
  cases sym with
  | number x =>
    obtain rfl := Option.some.inj h
    refine ⟨?_, hdepth⟩
    rw [weight_program, Instruction.weight, Symbol.weight]
    exact Int.add_comm _ _
  | operator op =>
    obtain rfl := Option.some.inj h
    obtain ⟨hyield, hopen⟩ := weight_depth_yieldTo op y.program y.waiting
    refine ⟨?_, ?_⟩
    · rw [weight_operator, hyield, Symbol.weight]
      rfl
    · simpa [depth?, depth, hdepth] using hopen.symm
  | negate =>
    obtain rfl := Option.some.inj h
    exact ⟨by simp [Symbol.weight], by simpa [depth?, depth] using hdepth⟩
  | opening =>
    obtain rfl := Option.some.inj h
    exact ⟨by simp [Symbol.weight], by simp [depth?, depth, hdepth]⟩
  | closing =>
    obtain ⟨hweight, hopen⟩ := weight_depth_of_endGroup? h
    refine ⟨by simp [hweight, Symbol.weight], ?_⟩
    have hsucc : y.depth = y'.depth + 1 := hopen
    simp [depth?, hdepth, hsucc]

theorem weight_depth_of_foldlM {y y' : Yard} {symbols before : List Symbol}
    (h : symbols.foldlM step? y = some y') (hweight : y.weight = Arithmetic.weight before)
    (hdepth : depth? before = some y.depth) :
    y'.weight = Arithmetic.weight (symbols.reverse ++ before) ∧
      depth? (symbols.reverse ++ before) = some y'.depth := by
  induction symbols generalizing y before with
  | nil =>
    obtain rfl := Option.some.inj h
    exact ⟨hweight, hdepth⟩
  | cons sym symbols ih =>
    rw [List.foldlM_cons] at h
    obtain ⟨y₁, hstep, h⟩ := Option.bind_eq_some_iff.mp h
    obtain ⟨hweight₁, hdepth₁⟩ := weight_depth_of_step? hstep hdepth
    rw [List.reverse_cons, List.append_assoc]
    refine ih h ?_ hdepth₁
    rw [hweight₁, hweight, List.singleton_append, weight_cons]
    exact Int.add_comm _ _

end Yard

/-- **A program has the weight of its symbols, and its groups are opened and closed in pairs.** The
symbols are newest first. -/
theorem weight_depth_of_program? {symbols : List Symbol} {code : List Instruction}
    (h : program? symbols.reverse = some code) :
    programWeight code = weight symbols ∧ depth? symbols = some 0 := by
  obtain ⟨y, hfold, hfinish⟩ := Option.bind_eq_some_iff.mp h
  obtain ⟨hweight, hdepth⟩ : y.weight = weight (symbols.reverse.reverse ++ []) ∧
      depth? (symbols.reverse.reverse ++ []) = some y.depth :=
    Yard.weight_depth_of_foldlM hfold rfl rfl
  rw [List.reverse_reverse, List.append_nil] at hweight hdepth
  obtain ⟨hcode, hzero⟩ := Yard.weight_depth_of_finish? hfinish
  refine ⟨hcode.trans hweight, hdepth.trans ?_⟩
  exact congrArg some hzero

end Snippet.Arithmetic
