import Snippet.Decimal.Binary

/-!
# Operators

The binary operators of arithmetic texts, how tightly they bind, and what they compute.
-/

namespace Snippet.Arithmetic

/-- A binary operator. -/
inductive Operator where
  | add
  | sub
  | mul
  | div
  | mod
  | pow
  deriving DecidableEq, Repr

namespace Operator

/-- The operator that a character writes. -/
def ofChar? : Char → Option Operator
  | '+' => some add
  | '-' => some sub
  | '*' => some mul
  | '/' => some div
  | '%' => some mod
  | '^' => some pow
  | _ => none

/-- The character of an operator. -/
def toChar : Operator → Char
  | add => '+'
  | sub => '-'
  | mul => '*'
  | div => '/'
  | mod => '%'
  | pow => '^'

/-- How tightly an operator binds. -/
def precedence : Operator → Nat
  | add | sub => 2
  | mul | div | mod => 3
  | pow => 4

/-- Whether equal operators group from the right. -/
def groupsRight (op : Operator) : Bool := op == pow

/-- Whether the operator `first`, left of `second`, is applied before it. -/
def bindsBefore (first second : Operator) : Bool :=
  second.precedence < first.precedence ||
    (first.precedence == second.precedence && !second.groupsRight)

/-- The value of an operation; there is none for a division or remainder by zero. -/
def apply (op : Operator) (x y : Float) : Option Float :=
  match op with
  | add => some (x + y)
  | sub => some (x - y)
  | mul => some (x * y)
  | div => if y == 0.0 then none else some (x / y)
  | mod => if y == 0.0 then none else some (Decimal.remainder x y)
  | pow => some (x.pow y)

theorem ofChar?_toChar (op : Operator) : ofChar? op.toChar = some op := by cases op <;> rfl

end Operator

end Snippet.Arithmetic
