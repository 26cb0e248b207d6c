import MonkeySyntax.Proofs.Parser.Outcome

/-! # Where reading an expression breaks off

An expression that cannot be read breaks off at one token. Only tokens of expressions stand between
its first token and that one, the error is reported there, and what is skipped behind it starts no
statement.
-/

namespace MonkeySyntax

/-- Tokens of this kind may be passed while an expression is read. -/
def Rules.inExpression (r : Rules) (k : TokenKind) : Bool := (r.operand k).isSome || r.infixOp k

theorem Rules.inExpression_of_operand {r : Rules} {k : TokenKind} {rule : OperandRule}
    (h : r.operand k = some rule) : r.inExpression k = true := by
  simp [inExpression, h]

namespace Parser

/-- The second parser is the first one behind some tokens of expressions. -/
structure Walk (p q : Parser) : Prop where
  rules_eq : q.rules = p.rules
  ending_eq : q.stream.ending = p.stream.ending
  errors_eq : q.errors = p.errors
  passed : ∃ front, p.stream.pending = front ++ q.stream.pending ∧
    ∀ t ∈ front, p.rules.inExpression t.kind = true

/-- Behind the current token of the first parser, no token that starts a statement is skipped. -/
def Skips (p q : Parser) : Prop :=
  ∃ back, p.stream.pending.tail = back ++ q.stream.pending.tail ∧
    ∀ t ∈ back, startsStatement t.kind = false

/-- What may be wrong with the current token where an operand is due. -/
inductive Offence (p : Parser) : SyntaxError.Cause → Prop where
  | noOperand (h : p.rules.operand p.current.kind = none) :
      Offence p (.noOperand p.current.kind p.current.literal)
  | badInteger (h : p.rules.operand p.current.kind = some .integer)
      (hd : Numeral.decode? p.current.literal = none) : Offence p (.badInteger p.current.literal)
  | tooDeep : Offence p (.tooDeep maxDepth)

/-- Reading breaks off at the current token of the first parser. -/
structure Breaks (p q : Parser) : Prop where
  fault : ∃ cause, Offence p cause ∧ q.errors = p.errors.push ⟨cause, p.current.start⟩
  skips : Skips p q

/-- The tokens of an expression are walked over up to its last one, or to one where reading breaks
off. -/
structure Traced (p : Parser) (r : Option Expr × Parser) : Prop where
  walk : r.1.isSome = true → Walk p r.2.advance
  breaks : r.1 = none → ∃ q, Walk p q ∧ Breaks q r.2

variable {p q s : Parser} {o : Option Expr} {r : Option Expr × Parser} {inner : ExprReader}

theorem Walk.refl (p : Parser) : Walk p p := ⟨rfl, rfl, rfl, [], rfl, by simp⟩

theorem Walk.trans (h : Walk p q) (h' : Walk q s) : Walk p s where
  rules_eq := h'.rules_eq.trans h.rules_eq
  ending_eq := h'.ending_eq.trans h.ending_eq
  errors_eq := h'.errors_eq.trans h.errors_eq
  passed := by
    obtain ⟨front, hp, hf⟩ := h.passed
    obtain ⟨front', hq, hf'⟩ := h'.passed
    rw [h.rules_eq] at hf'
    refine ⟨front ++ front', by rw [hp, hq, List.append_assoc], ?_⟩
    intro t ht
    rcases List.mem_append.1 ht with ht | ht
    · exact hf t ht
    · exact hf' t ht

theorem walk_advance (h : p.rules.inExpression p.current.kind = true) : Walk p p.advance where
  rules_eq := rfl
  ending_eq := rfl
  errors_eq := rfl
  passed := by
    by_cases he : p.current.kind = .eof
    · refine ⟨[], ?_, by simp⟩
      rw [pending_advance, kind_current_eq_eof_iff.1 he, List.tail_nil, List.append_nil]
    · exact ⟨[p.current], pending_of_kind_ne_eof he, by simpa using h⟩

theorem Skips.refl (p : Parser) : Skips p p := ⟨[], rfl, by simp⟩

theorem Skips.trans (h : Skips p q) (h' : Skips q s) : Skips p s := by
  obtain ⟨back, hp, hb⟩ := h
  obtain ⟨back', hq, hb'⟩ := h'
  refine ⟨back ++ back', by rw [hp, hq, List.append_assoc], ?_⟩
  intro t ht
  rcases List.mem_append.1 ht with ht | ht
  · exact hb t ht
  · exact hb' t ht

theorem Skips.advance (h : startsStatement p.peek.kind = false) (h' : Skips p.advance q) :
    Skips p q := by
  obtain ⟨back, hp, hb⟩ := h'
  rw [pending_advance] at hp
  by_cases he : p.peek.kind = .eof
  · rw [kind_peek_eq_eof_iff.1 he, List.tail_nil] at hp
    exact ⟨back, (kind_peek_eq_eof_iff.1 he).trans hp, hb⟩
  · refine ⟨p.peek :: back, ?_, ?_⟩
    · rw [pending_tail_of_kind_ne_eof he, hp, List.cons_append]
    · intro t ht
      rcases List.mem_cons.1 ht with rfl | ht
      · exact h
      · exact hb t ht

theorem skips_synchronize (p : Parser) : Skips p p.synchronize := by
  rw [synchronize]
  fun_induction skipWhile _ p with
  | case1 p h ih =>
    have hm := h.1
    rw [Bool.and_eq_true, Bool.not_eq_true', Bool.not_eq_true'] at hm
    exact Skips.advance hm.2 ih
  | case2 p _ => exact .refl p

theorem breaks_report {cause : SyntaxError.Cause} (h : Offence p cause) :
    Breaks p (p.report cause p.current.start) :=
  ⟨⟨cause, h, rfl⟩, .refl p⟩

theorem breaks_refuse (p : Parser) : Breaks p p.refuse where
  fault := ⟨_, .tooDeep, (quiet_skipWhile _ _).errors_eq⟩
  skips := skips_synchronize (p.report (.tooDeep maxDepth) p.current.start)

theorem Walk.traced (h : Walk p q) (h' : Traced q r) : Traced p r where
  walk hr := h.trans (h'.walk hr)
  breaks hr := by
    obtain ⟨s, hs, hb⟩ := h'.breaks hr
    exact ⟨s, h.trans hs, hb⟩

theorem Walk.traced_some (h : Walk p q.advance) (e : Expr) : Traced p (some e, q) where
  walk _ := h
  breaks hr := by cases hr

theorem Breaks.traced (h : Breaks p q) : Traced p (none, q) where
  walk hr := by cases hr
  breaks _ := ⟨p, .refl p, h⟩

theorem Traced.map (h : Traced p (o, q)) (f : Expr → Expr) : Traced p (o.map f, q) where
  walk hr := h.walk (by simpa using hr)
  breaks hr := h.breaks (by simpa using hr)

theorem Traced.leave {d : Nat} (h : Traced (p.setDepth d) (o, q)) : Traced p (o, q.leave) where
  walk hr := by
    obtain ⟨hr, he, herr, hp⟩ := h.walk hr
    exact ⟨hr, he, herr, hp⟩
  breaks hr := by
    obtain ⟨s, ⟨hr, he, herr, hp⟩, hf, hs⟩ := h.breaks hr
    exact ⟨s, ⟨hr, he, herr, hp⟩, hf, hs⟩

theorem traced_integer (h : p.rules.operand p.current.kind = some .integer) :
    Traced p p.integer := by
  unfold integer
  split
  · exact (walk_advance (Rules.inExpression_of_operand h)).traced_some _
  · next hd => exact (breaks_report (.badInteger h hd)).traced

section Inner

variable (hi : ∀ floor p, Traced p (inner floor p))

include hi

theorem traced_prefixOp (h : p.rules.inExpression p.current.kind = true) :
    Traced p (p.prefixOp inner) :=
  (walk_advance h).traced ((hi .unary p.advance).map _)

theorem traced_infixOp (left : Expr) (h : p.rules.inExpression p.current.kind = true) :
    Traced p (p.infixOp inner left) :=
  (walk_advance h).traced ((hi p.currentPrecedence p.advance).map _)

theorem traced_operand (p : Parser) : Traced p (p.operand inner) := by
  unfold operand
  split
  · next h => exact (walk_advance (Rules.inExpression_of_operand h)).traced_some _
  · next h => exact traced_integer h
  · next h => exact traced_prefixOp hi (Rules.inExpression_of_operand h)
  · next h => exact (breaks_report (.noOperand h)).traced

theorem traced_climb (floor : Precedence) (turns : Nat) (left : Expr)
    (h : Walk p q.advance) : Traced p (q.climb inner floor turns left) := by
  induction turns generalizing left q with
  | zero => exact h.traced_some left
  | succ turns ih =>
    rw [climb]
    split
    · next hc =>
      have hk : q.rules.infixOp q.peek.kind = true := by
        simp only [continuesAbove, decide_eq_true_eq] at hc
        exact hc.2.2
      have hop : Traced p (q.advance.infixOp inner left) := by
        refine h.traced (traced_infixOp hi left ?_)
        simp [Rules.inExpression, hk]
      generalize q.advance.infixOp inner left = r at hop
      obtain ⟨_ | e, q'⟩ := r
      · exact hop
      · exact ih e (hop.walk rfl)
    · exact h.traced_some left

theorem traced_operandAndOperators (floor : Precedence) (p : Parser) :
    Traced p (p.operandAndOperators inner floor) := by
  have hop := traced_operand hi p
  unfold operandAndOperators
  generalize p.operand inner = r at hop
  obtain ⟨_ | e, q⟩ := r
  · exact hop
  · exact traced_climb hi floor _ e (hop.walk rfl)

end Inner

theorem traced_expressionWithin (levels : Nat) (floor : Precedence) (p : Parser) :
    Traced p (expressionWithin levels floor p) := by
  induction levels generalizing floor p with
  | zero => exact (breaks_refuse p).traced
  | succ levels ih =>
    rw [expressionWithin]
    by_cases hd : p.depth < maxDepth
    · rw [enter_of_lt hd]
      exact (traced_operandAndOperators ih floor (p.setDepth (p.depth + 1))).leave
    · rw [enter_of_not_lt hd]
      exact (breaks_refuse p).traced

theorem traced_expression (floor : Precedence) (p : Parser) : Traced p (p.expression floor) :=
  traced_expressionWithin _ floor p

end Parser

end MonkeySyntax
