import MonkeySyntax.Numeral
import MonkeySyntax.Parser.Rules
import MonkeySyntax.Precedence
import MonkeySyntax.Tree.Basic

/-! # The shape of expressions

The tokens of a tree in the order of the source, and the nesting that reading it needs. A tree is
*written* if every node agrees with its token, and *shaped* if its operators group by precedence
and those of one precedence to the left.
-/

namespace MonkeySyntax

namespace TokenKind

def isPrefixOp (k : TokenKind) : Bool := k ∈ [bang, minus]

def isInfixOp (k : TokenKind) : Bool :=
  k ∈ [equal, notEqual, less, greater, plus, minus, asterisk, slash]

theorem lowest_lt_precedence_iff {k : TokenKind} :
    .lowest < k.precedence ↔ k.isInfixOp = true := by
  cases k <;> decide

theorem precedence_le_unary (k : TokenKind) : k.precedence ≤ .unary := by
  cases k <;> decide

theorem standard_infixOp (k : TokenKind) : Rules.standard.infixOp k = k.isInfixOp := by
  cases k <;> rfl

theorem standard_operand_eq_name_iff {k : TokenKind} :
    Rules.standard.operand k = some .name ↔ k = .identifier := by
  cases k <;> simp [Rules.standard]

theorem standard_operand_eq_integer_iff {k : TokenKind} :
    Rules.standard.operand k = some .integer ↔ k = .integer := by
  cases k <;> simp [Rules.standard]

theorem standard_operand_eq_prefixOp_iff {k : TokenKind} :
    Rules.standard.operand k = some .prefixOp ↔ k.isPrefixOp = true := by
  cases k <;> simp [Rules.standard, isPrefixOp]

theorem standard_statement_eq_binding_iff {k : TokenKind} :
    Rules.standard.statement k = some .binding ↔ k = .letWord := by
  cases k <;> simp [Rules.standard]

theorem standard_statement_eq_returning_iff {k : TokenKind} :
    Rules.standard.statement k = some .returning ↔ k = .returnWord := by
  cases k <;> simp [Rules.standard]

end TokenKind

namespace Expr

def tokens : Expr → List Token
  | name t _ => [t]
  | integer t _ => [t]
  | prefixOp t _ r => t :: r.tokens
  | infixOp t _ l r => l.tokens ++ t :: r.tokens

/-- The levels of nesting that reading the expression takes up. -/
def need : Expr → Nat
  | name _ _ => 1
  | integer _ _ => 1
  | prefixOp _ _ r => 1 + r.need
  | infixOp _ _ l r => max l.need (1 + r.need)

/-- Every node agrees with its token: in the kind, the text of the operator and the value. -/
def Written : Expr → Prop
  | name t value => t.kind = .identifier ∧ value = t.literal
  | integer t value => t.kind = .integer ∧ Numeral.decode? t.literal = some value
  | prefixOp t operator r => t.kind.isPrefixOp = true ∧ operator = t.literal ∧ r.Written
  | infixOp t operator l r =>
    t.kind.isInfixOp = true ∧ operator = t.literal ∧ l.Written ∧ r.Written

/-- How tightly the root binds if it is an infix operator. -/
def root? : Expr → Option Precedence
  | infixOp t _ _ _ => some t.kind.precedence
  | _ => none

/-- An infix operator at the root binds tighter than the precedence. -/
def Above (floor : Precedence) (e : Expr) : Prop := ∀ q ∈ e.root?, floor < q

def AtLeast (floor : Precedence) (e : Expr) : Prop := ∀ q ∈ e.root?, floor ≤ q

/-- The operators group by precedence, those of one precedence to the left. -/
def Shaped : Expr → Prop
  | name _ _ => True
  | integer _ _ => True
  | prefixOp _ _ r => r.root? = none ∧ r.Shaped
  | infixOp t _ l r =>
    l.AtLeast t.kind.precedence ∧ r.Above t.kind.precedence ∧ l.Shaped ∧ r.Shaped

instance decidableWritten : (e : Expr) → Decidable e.Written
  | name _ _ => inferInstanceAs (Decidable (_ ∧ _))
  | integer _ _ => inferInstanceAs (Decidable (_ ∧ _))
  | prefixOp _ _ r => have := decidableWritten r; inferInstanceAs (Decidable (_ ∧ _ ∧ _))
  | infixOp _ _ l r =>
    have := decidableWritten l
    have := decidableWritten r
    inferInstanceAs (Decidable (_ ∧ _ ∧ _ ∧ _))

instance (floor : Precedence) (e : Expr) : Decidable (e.Above floor) :=
  inferInstanceAs (Decidable (∀ q ∈ e.root?, floor < q))

instance (floor : Precedence) (e : Expr) : Decidable (e.AtLeast floor) :=
  inferInstanceAs (Decidable (∀ q ∈ e.root?, floor ≤ q))

instance decidableShaped : (e : Expr) → Decidable e.Shaped
  | name _ _ => inferInstanceAs (Decidable True)
  | integer _ _ => inferInstanceAs (Decidable True)
  | prefixOp _ _ r => have := decidableShaped r; inferInstanceAs (Decidable (_ ∧ _))
  | infixOp _ _ l r =>
    have := decidableShaped l
    have := decidableShaped r
    inferInstanceAs (Decidable (_ ∧ _ ∧ _ ∧ _))

theorem tokens_ne_nil (e : Expr) : e.tokens ≠ [] := by
  cases e <;> simp [tokens]

theorem length_tokens_pos (e : Expr) : 0 < e.tokens.length :=
  List.length_pos_iff.2 e.tokens_ne_nil

theorem need_pos (e : Expr) : 0 < e.need := by
  cases e <;> simp only [need] <;> omega

theorem above_of_root?_eq_none {floor : Precedence} {e : Expr} (h : e.root? = none) :
    e.Above floor := by
  simp [Above, h]

theorem above_lowest {e : Expr} (h : e.Written) : e.Above .lowest := by
  cases e with
  | infixOp t o l r =>
    rintro _ ⟨⟩
    exact TokenKind.lowest_lt_precedence_iff.2 h.1
  | _ => exact above_of_root?_eq_none rfl

theorem root?_eq_none_of_above_unary {e : Expr} (h : e.Above .unary) : e.root? = none := by
  cases e with
  | infixOp t o l r =>
    have := h _ rfl
    exact absurd (TokenKind.precedence_le_unary t.kind) (Nat.not_le.2 this)
  | _ => rfl

theorem AtLeast.above {floor q : Precedence} {e : Expr} (h : e.AtLeast q) (hf : floor < q) :
    e.Above floor :=
  fun r hr => Precedence.lt_of_lt_of_le hf (h r hr)

end Expr

end MonkeySyntax
