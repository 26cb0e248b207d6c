import MonkeySyntax.Token.Basic

/-! # Syntax trees

Expressions are names, integers, and operators with one or two operands. A program is a list of
statements. `let` and `return` statements keep no tree for the tokens of their value.
-/

namespace MonkeySyntax

inductive Expr where
  | name (token : Token) (value : String)
  | integer (token : Token) (value : Int64)
  | prefixOp (token : Token) (operator : String) (right : Expr)
  | infixOp (token : Token) (operator : String) (left right : Expr)
  deriving DecidableEq, Repr

/-- The token of the root: of an operator, not of its first operand. -/
def Expr.token : Expr → Token
  | .name t _ => t
  | .integer t _ => t
  | .prefixOp t _ _ => t
  | .infixOp t _ _ _ => t

inductive Statement where
  | binding (token : Token) (nameToken : Token) (name : String)
  | returning (token : Token)
  | expression (token : Token) (expr : Expr)
  deriving DecidableEq, Repr

def Statement.token : Statement → Token
  | .binding t _ _ => t
  | .returning t => t
  | .expression t _ => t

structure Program where
  statements : List Statement
  deriving DecidableEq, Repr

/-- The text of the first token of a program; empty if it has no statement. -/
def Program.literal (p : Program) : String :=
  match p.statements with
  | [] => ""
  | s :: _ => s.token.literal

end MonkeySyntax
