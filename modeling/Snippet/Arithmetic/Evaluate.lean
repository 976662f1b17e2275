import Snippet.Arithmetic.Operator
import Snippet.Decimal.Numeral

/-!
# Evaluation of expressions

An expression is scanned into symbols, brought into postfix order with a stack of pending symbols,
and run on a stack of values. A sign in front of a number belongs to the number; a minus in front of
a group negates the group and binds tighter than every operator. A group directly after a number or
a group, and a number directly after a group, multiply.
-/

namespace Snippet.Arithmetic

/-- A symbol of an expression. -/
inductive Symbol where
  | number (x : Float)
  | operator (op : Operator)
  /-- The minus in front of a group. -/
  | negate
  | opening
  | closing

/-- An instruction of a program in postfix order. -/
inductive Instruction where
  | push (x : Float)
  | apply (op : Operator)
  | negate

/-- A symbol that waits for its right operand or, for a group, for its end. -/
inductive Pending where
  | operator (op : Operator)
  | negate
  | group
  deriving DecidableEq

/-! ## Scanning -/

/-- The state of a scan: the symbols read, newest first, the characters of the number being read,
newest first, and whether an odd number of minus signs waits for its operand. -/
structure Scan where
  symbols : List Symbol := []
  digits : Text := []
  negative : Bool := false

namespace Scan

/-- Whether an operand must come next. -/
def expectsOperand : List Symbol → Bool
  | [] | .operator _ :: _ | .negate :: _ | .opening :: _ => true
  | _ => false

/-- Ends the number being read, if there is one; it takes the waiting sign. -/
def endNumber? (s : Scan) : Option Scan :=
  if s.digits.isEmpty then some s
  else
    (Decimal.float? s.digits.reverse).map fun x =>
      ⟨.number (if s.negative then -x else x) :: s.symbols, [], false⟩

/-- Adds a symbol. -/
def push (sym : Symbol) (s : Scan) : Scan := { s with symbols := sym :: s.symbols }

/-- Reads a digit or a point. -/
def readDigit (c : Char) (s : Scan) : Scan :=
  let s := match s.digits, s.symbols with
    | [], .closing :: _ => s.push (.operator .mul)
    | _, _ => s
  { s with digits := c :: s.digits }

/-- Opens a group: a waiting minus becomes a symbol of its own, and a number or group directly
before it is multiplied. -/
def openGroup (s : Scan) : Scan :=
  if s.negative then ⟨.opening :: .negate :: s.symbols, s.digits, false⟩
  else
    match s.symbols with
    | .number _ :: _ | .closing :: _ => (s.push (.operator .mul)).push .opening
    | _ => s.push .opening

/-- Reads a character. Characters that belong to no symbol are passed over. -/
def step? (s : Scan) (c : Char) : Option Scan :=
  if c.isDigit || c == '.' then some (s.readDigit c)
  else if c == '-' && s.digits.isEmpty && expectsOperand s.symbols then
    some { s with negative := !s.negative }
  else if c == '+' && s.digits.isEmpty && expectsOperand s.symbols then some s
  else if c == '(' then s.endNumber?.map openGroup
  else if c == ')' then s.endNumber?.map (push .closing)
  else
    match Operator.ofChar? c with
    | some op => s.endNumber?.map (push (.operator op))
    | none => some s

end Scan

/-- The symbols of an expression. There are none where a number has several points or no digit,
or where a sign is left without an operand. -/
def symbols? (expr : Text) : Option (List Symbol) := do
  let s ← expr.foldlM Scan.step? {}
  let s ← s.endNumber?
  if s.negative then none else some s.symbols.reverse

/-! ## Postfix order -/

/-- A program being built: the instructions, newest first, and the symbols that wait. -/
structure Yard where
  program : List Instruction := []
  waiting : List Pending := []

namespace Yard

/-- Whether a waiting symbol is applied before the operator `op` to its right. -/
def yields (op : Operator) : Pending → Bool
  | .operator first => first.bindsBefore op
  | .negate => true
  | .group => false

/-- Moves the waiting symbols that are applied before `op` to the program. -/
def yieldTo (op : Operator) : List Instruction → List Pending → Yard
  | program, .operator first :: rest =>
    if first.bindsBefore op then yieldTo op (.apply first :: program) rest
    else ⟨program, .operator first :: rest⟩
  | program, .negate :: rest => yieldTo op (.negate :: program) rest
  | program, waiting => ⟨program, waiting⟩

/-- Moves the waiting symbols up to the start of the innermost group to the program. -/
def endGroup? : List Instruction → List Pending → Option Yard
  | _, [] => none
  | program, .group :: rest => some ⟨program, rest⟩
  | program, .operator op :: rest => endGroup? (.apply op :: program) rest
  | program, .negate :: rest => endGroup? (.negate :: program) rest

/-- Takes a symbol. -/
def step? (y : Yard) : Symbol → Option Yard
  | .number x => some { y with program := .push x :: y.program }
  | .operator op =>
    let y := yieldTo op y.program y.waiting
    some { y with waiting := .operator op :: y.waiting }
  | .negate => some { y with waiting := .negate :: y.waiting }
  | .opening => some { y with waiting := .group :: y.waiting }
  | .closing => endGroup? y.program y.waiting

/-- The program when all symbols are taken: those that wait come last. -/
def finish? : List Instruction → List Pending → Option (List Instruction)
  | program, [] => some program.reverse
  | _, .group :: _ => none
  | program, .operator op :: rest => finish? (.apply op :: program) rest
  | program, .negate :: rest => finish? (.negate :: program) rest

end Yard

/-- The symbols in postfix order. There is none where groups are not opened and closed in pairs. -/
def program? (symbols : List Symbol) : Option (List Instruction) := do
  let y ← symbols.foldlM Yard.step? {}
  Yard.finish? y.program y.waiting

/-! ## Running -/

/-- Runs an instruction on a stack of values. -/
def Instruction.run? (stack : List Float) : Instruction → Option (List Float)
  | .push x => some (x :: stack)
  | .apply op =>
    match stack with
    | y :: x :: rest => (op.apply x y).map (· :: rest)
    | _ => none
  | .negate =>
    match stack with
    | x :: rest => some (-x :: rest)
    | [] => none

/-- The value of a program, if it leaves one value and this is finite. -/
def run? (program : List Instruction) : Option Float :=
  match program.foldlM Instruction.run? [] with
  | some [x] => if x.isFinite then some x else none
  | _ => none

/-- The value of an expression. -/
def evaluate (expr : Text) : Option Float := do
  let symbols ← symbols? expr
  let program ← program? symbols
  run? program

end Snippet.Arithmetic
