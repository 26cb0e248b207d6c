import MonkeySyntax.Numeral
import MonkeySyntax.Parser.Basic
import MonkeySyntax.Tree.Basic

/-! # Reading expressions

An expression is an operand followed by infix operators that bind tighter than the place it stands
in; each operator takes the expression so far as its left side, so operators of one precedence
group to the left. The reader of an inner expression is an argument of every rule, and `expression`
ties the knot by recursion on the number of levels left.
-/

namespace MonkeySyntax.Parser

/-- Reads an expression whose infix operators bind tighter than a precedence. -/
abbrev ExprReader := Precedence → Parser → Option Expr × Parser

def name (p : Parser) : Option Expr × Parser := (some (.name p.current p.current.literal), p)

def integer (p : Parser) : Option Expr × Parser :=
  match Numeral.decode? p.current.literal with
  | some value => (some (.integer p.current value), p)
  | none => (none, p.report (.badInteger p.current.literal) p.current.start)

def prefixOp (inner : ExprReader) (p : Parser) : Option Expr × Parser :=
  let (right, q) := inner .unary p.advance
  (right.map (.prefixOp p.current p.current.literal), q)

def infixOp (inner : ExprReader) (left : Expr) (p : Parser) : Option Expr × Parser :=
  let (right, q) := inner p.currentPrecedence p.advance
  (right.map (.infixOp p.current p.current.literal left), q)

def operand (inner : ExprReader) (p : Parser) : Option Expr × Parser :=
  match p.rules.operand p.current.kind with
  | some .name => p.name
  | some .integer => p.integer
  | some .prefixOp => p.prefixOp inner
  | none => (none, p.report (.noOperand p.current.kind p.current.literal) p.current.start)

/-- The next token is an infix operator that binds tighter than the precedence. -/
def continuesAbove (floor : Precedence) (p : Parser) : Bool :=
  p.peek.kind ≠ .semicolon ∧ floor < p.peekPrecedence ∧ p.rules.infixOp p.peek.kind

/-- Read infix operators as long as they bind tighter than the precedence, at most `turns` of them,
each with the expression so far as its left operand. -/
def climb (inner : ExprReader) (floor : Precedence) :
    Nat → Expr → Parser → Option Expr × Parser
  | 0, left, p => (some left, p)
  | turns + 1, left, p =>
    if p.continuesAbove floor then
      match p.advance.infixOp inner left with
      | (some e, q) => climb inner floor turns e q
      | (none, q) => (none, q)
    else (some left, p)

/-- Read an operand and the infix operators behind it. Each operator takes a token, so the tokens
left bound their number. -/
def operandAndOperators (inner : ExprReader) (floor : Precedence) (p : Parser) :
    Option Expr × Parser :=
  match p.operand inner with
  | (some left, q) => q.climb inner floor q.stream.pending.length left
  | (none, q) => (none, q)

/-- Read an expression when only `levels` more may be nested. -/
def expressionWithin : Nat → ExprReader
  | 0, _, p => (none, p.refuse)
  | levels + 1, floor, p =>
    match p.enter with
    | (true, q) =>
      let (e, r) := q.operandAndOperators (expressionWithin levels) floor
      (e, r.leave)
    | (false, q) => (none, q)

def expression (floor : Precedence) (p : Parser) : Option Expr × Parser :=
  expressionWithin (maxDepth - p.depth) floor p

end MonkeySyntax.Parser
