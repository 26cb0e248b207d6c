import MonkeySyntax.Token.Kind

/-! # Operator precedence

How tightly operators bind, from `lowest` up. A kind of token that is no infix operator has the
lowest precedence.
-/

namespace MonkeySyntax

inductive Precedence where
  | lowest
  | equality
  | comparison
  | sum
  | product
  | unary
  | call
  deriving DecidableEq, Repr

namespace Precedence

def rank : Precedence → Nat
  | lowest => 0
  | equality => 1
  | comparison => 2
  | sum => 3
  | product => 4
  | unary => 5
  | call => 6

instance : LT Precedence := ⟨fun a b => a.rank < b.rank⟩

instance : LE Precedence := ⟨fun a b => a.rank ≤ b.rank⟩

instance (a b : Precedence) : Decidable (a < b) := Nat.decLt a.rank b.rank

instance (a b : Precedence) : Decidable (a ≤ b) := Nat.decLe a.rank b.rank

instance : Ord Precedence := ⟨fun a b => compare a.rank b.rank⟩

theorem not_lt {a b : Precedence} : ¬ a < b ↔ b ≤ a := Nat.not_lt

theorem lt_of_lt_of_le {a b c : Precedence} (h : a < b) (h' : b ≤ c) : a < c :=
  Nat.lt_of_lt_of_le h h'

theorem le_of_lt {a b : Precedence} (h : a < b) : a ≤ b := Nat.le_of_lt h

theorem lowest_lt_of_lt {a b : Precedence} (h : a < b) : lowest < b :=
  Nat.lt_of_le_of_lt (Nat.zero_le _) h

end Precedence

/-- How tightly a token of this kind binds when it stands between two operands. -/
def TokenKind.precedence : TokenKind → Precedence
  | .equal | .notEqual => .equality
  | .less | .greater => .comparison
  | .plus | .minus => .sum
  | .asterisk | .slash => .product
  | _ => .lowest

end MonkeySyntax
