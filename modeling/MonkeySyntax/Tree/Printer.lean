import MonkeySyntax.Tree.Basic

/-! # Printing trees

Expressions are printed with parentheses around every operator and its operands. A statement
without a tree for its value is printed without the value.
-/

namespace MonkeySyntax

/-- The text of an expression, fully parenthesised. -/
def Expr.text : Expr → String
  | .name _ value => value
  | .integer t _ => t.literal
  | .prefixOp _ operator right => "(" ++ operator ++ right.text ++ ")"
  | .infixOp _ operator left right =>
    "(" ++ left.text ++ " " ++ operator ++ " " ++ right.text ++ ")"

def Statement.text : Statement → String
  | .binding t _ name => t.literal ++ " " ++ name ++ " = ;"
  | .returning t => t.literal ++ " ;"
  | .expression _ e => e.text

/-- The texts of the statements, one after another with nothing between them. -/
def Program.text (p : Program) : String := String.join (p.statements.map Statement.text)

end MonkeySyntax
