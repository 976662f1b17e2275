import Snippet.Number.Separators

/-!
# Cleaning of arithmetic texts

An arithmetic text is brought into the form that is evaluated: white space and dollar signs are
dropped, the separators of numbers are resolved, and the three shapes in which a percent sign means
a percentage are written out.
-/

namespace Snippet.Arithmetic

/-- Writes out `x%of y`, `y+x%` and `y-x%`. Any other expression is kept. -/
def expandPercentages (expr : Text) : Text :=
  let parts := fun (p : Pattern) =>
    (p.full? expr).bind fun m =>
      match m.text? expr 1, m.text? expr 2 with
      | some a, some b => some (a, b)
      | _, _ => none
  match parts Pattern.percentageOf with
  | some (x, y) => '(' :: x ++ "/100*".toList ++ y ++ [')']
  | none =>
    match parts Pattern.percentageAdd with
    | some (y, x) => y ++ "*(1+".toList ++ x ++ "/100)".toList
    | none =>
      match parts Pattern.percentageSub with
      | some (y, x) => y ++ "*(1-".toList ++ x ++ "/100)".toList
      | none => expr

/-- The characters of operators and parentheses. -/
def isOperatorOrParen (c : Char) : Bool := "+-*/%^()".toList.contains c

/-- The characters of a clean expression. -/
def isClean (c : Char) : Bool := c.isDigit || c == '.' || isOperatorOrParen c

/-- The expression that an arithmetic text stands for. There is none when it would be empty or have
any other character than digits, points, parentheses and operators. -/
def clean? (t : Text) : Option Text :=
  let stripped := t.filter fun c => c != '$' && !Text.isWhite c
  let expr := expandPercentages (Number.resolveAll stripped)
  if !expr.isEmpty && expr.all isClean then some expr else none

/-- Whether an expression does more than to state a number with an optional sign. -/
def hasOperation (expr : Text) : Bool :=
  let body := match expr with
    | c :: rest => if c == '-' || c == '+' then rest else expr
    | [] => expr
  body.any isOperatorOrParen

end Snippet.Arithmetic
