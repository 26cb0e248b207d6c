import MonkeySyntax.Token.Kind

/-! # Parsing rules

A parser decides by the kind of a token how to read on: which statement starts with it, which
operand starts with it, and whether it is an infix operator. `Rules` holds these decisions, and a
rule may be set for any kind.
-/

namespace MonkeySyntax

inductive StatementRule where
  | binding
  | returning
  | expression
  deriving DecidableEq, Repr

inductive OperandRule where
  | name
  | integer
  | prefixOp
  deriving DecidableEq, Repr

structure Rules where
  statement : TokenKind → Option StatementRule
  operand : TokenKind → Option OperandRule
  infixOp : TokenKind → Bool

namespace Rules

/-- The rules of the language. Statements that no rule names are expressions. -/
def standard : Rules where
  statement
    | .letWord => some .binding
    | .returnWord => some .returning
    | _ => none
  operand
    | .identifier => some .name
    | .integer => some .integer
    | .bang | .minus => some .prefixOp
    | _ => none
  infixOp
    | .equal | .notEqual | .less | .greater | .plus | .minus | .asterisk | .slash => true
    | _ => false

def setStatement (kind : TokenKind) (rule : StatementRule) (r : Rules) : Rules :=
  { r with statement := fun k => if k = kind then some rule else r.statement k }

def setOperand (kind : TokenKind) (rule : OperandRule) (r : Rules) : Rules :=
  { r with operand := fun k => if k = kind then some rule else r.operand k }

def setInfixOp (kind : TokenKind) (r : Rules) : Rules :=
  { r with infixOp := fun k => k = kind || r.infixOp k }

def statementKinds (r : Rules) : List TokenKind := TokenKind.all.filter (r.statement · |>.isSome)

def operandKinds (r : Rules) : List TokenKind := TokenKind.all.filter (r.operand · |>.isSome)

def infixOpKinds (r : Rules) : List TokenKind := TokenKind.all.filter r.infixOp

end Rules

end MonkeySyntax
