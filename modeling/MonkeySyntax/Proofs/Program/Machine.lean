import MonkeySyntax.Proofs.Program.Duration

/-! # Calls one action at a time

A machine does what the readers do, one action at a time. What it has still to do stands on a stack,
where a `leave` stands for each expression that was entered. It comes to the results of the readers,
so what its steps keep holds throughout a call.
-/

namespace MonkeySyntax

inductive Task where
  | expression (floor : Precedence)
  | operand
  | operandBy (rule : OperandRule)
  | infixOp
  /-- Infix operators, as long as they bind tighter than the precedence. -/
  | operators (floor : Precedence)
  /-- The end of an expression that was entered. -/
  | leave
  | statement
  | statementBy (rule : StatementRule)
  /-- The rest of a `let` statement behind its name. -/
  | assign
  /-- A semicolon behind an expression statement. -/
  | semicolon
  | program
  | statements
  /-- What comes behind a statement of a program. -/
  | next
  /-- The event at the end of a program. -/
  | ending
  /-- Moves while the condition holds. -/
  | skip (more : Parser → Bool)

/-- A parser, and what it has still to do. The trees are left out, since only whether a reader had a
result decides how to go on. -/
structure Machine where
  tasks : List Task
  /-- The reader that came to its end last had a result. -/
  found : Bool
  /-- The number of statements read since the program was begun. -/
  count : Nat
  parser : Parser

namespace Machine

def start (t : Task) (p : Parser) : Machine := ⟨[t], true, 0, p⟩

/-- Do one action. A machine that has nothing to do stays as it is. -/
def step : Machine → Machine
  | ⟨[], b, c, p⟩ => ⟨[], b, c, p⟩
  | ⟨.expression floor :: ts, b, c, p⟩ =>
    if p.depth < Parser.maxDepth then
      ⟨.operand :: .operators floor :: .leave :: ts, b, c, p.setDepth (p.depth + 1)⟩
    else
      ⟨.skip Parser.inBroken :: ts, false, c,
        p.report (.tooDeep Parser.maxDepth) p.current.start⟩
  | ⟨.operand :: ts, b, c, p⟩ =>
    match p.rules.operand p.current.kind with
    | some rule => ⟨.operandBy rule :: ts, b, c, p⟩
    | none =>
      ⟨ts, false, c, p.report (.noOperand p.current.kind p.current.literal) p.current.start⟩
  | ⟨.operandBy .name :: ts, _, c, p⟩ => ⟨ts, true, c, p⟩
  | ⟨.operandBy .integer :: ts, _, c, p⟩ => ⟨ts, p.integer.1.isSome, c, p.integer.2⟩
  | ⟨.operandBy .prefixOp :: ts, b, c, p⟩ => ⟨.expression .unary :: ts, b, c, p.advance⟩
  | ⟨.infixOp :: ts, b, c, p⟩ => ⟨.expression p.currentPrecedence :: ts, b, c, p.advance⟩
  | ⟨.operators floor :: ts, b, c, p⟩ =>
    if b && p.continuesAbove floor then ⟨.infixOp :: .operators floor :: ts, b, c, p.advance⟩
    else ⟨ts, b, c, p⟩
  | ⟨.leave :: ts, b, c, p⟩ => ⟨ts, b, c, p.leave⟩
  | ⟨.statement :: ts, b, c, p⟩ => ⟨.statementBy p.statementRule :: ts, b, c, p⟩
  | ⟨.statementBy .binding :: ts, _, c, p⟩ =>
    match p.expect .identifier with
    | (true, q) => ⟨.assign :: ts, true, c, q⟩
    | (false, q) => ⟨.skip Parser.inBroken :: ts, false, c, q⟩
  | ⟨.assign :: ts, _, c, p⟩ =>
    match p.expect .assign with
    | (true, q) => ⟨.skip Parser.inStatement :: ts, true, c, q⟩
    | (false, q) => ⟨.skip Parser.inBroken :: ts, false, c, q⟩
  | ⟨.statementBy .returning :: ts, _, c, p⟩ => ⟨.skip Parser.inStatement :: ts, true, c, p⟩
  | ⟨.statementBy .expression :: ts, b, c, p⟩ => ⟨.expression .lowest :: .semicolon :: ts, b, c, p⟩
  | ⟨.semicolon :: ts, b, c, p⟩ =>
    ⟨ts, b, c, if p.peek.kind = .semicolon then p.advance else p⟩
  | ⟨.program :: ts, b, _, p⟩ => ⟨.statements :: .ending :: ts, b, 0, p⟩
  | ⟨.statements :: ts, _, c, p⟩ =>
    if p.current.kind = .eof then ⟨ts, true, c, p⟩
    else ⟨.statement :: .next :: .statements :: ts, true, c, p⟩
  | ⟨.next :: ts, b, c, p⟩ => ⟨ts, b, c + b.toNat, p.advance⟩
  | ⟨.ending :: ts, b, c, p⟩ =>
    ⟨ts, b, c, { p with log := p.log.push (.parsedProgram c p.errors.size) }⟩
  | ⟨.skip more :: ts, b, c, p⟩ =>
    if more p then ⟨.skip more :: ts, b, c, p.advance⟩ else ⟨ts, b, c, p⟩

section Step

variable {ts : List Task} {b : Bool} {c : Nat} {p : Parser}

theorem step_expression {floor : Precedence} (h : p.depth < Parser.maxDepth) :
    step ⟨.expression floor :: ts, b, c, p⟩ =
      ⟨.operand :: .operators floor :: .leave :: ts, b, c, p.setDepth (p.depth + 1)⟩ :=
  if_pos h

theorem step_expression_of_not_lt {floor : Precedence} (h : ¬ p.depth < Parser.maxDepth) :
    step ⟨.expression floor :: ts, b, c, p⟩ =
      ⟨.skip Parser.inBroken :: ts, false, c,
        p.report (.tooDeep Parser.maxDepth) p.current.start⟩ :=
  if_neg h

theorem step_operand {rule : OperandRule} (h : p.rules.operand p.current.kind = some rule) :
    step ⟨.operand :: ts, b, c, p⟩ = ⟨.operandBy rule :: ts, b, c, p⟩ := by
  simp [step, h]

theorem step_operand_of_none (h : p.rules.operand p.current.kind = none) :
    step ⟨.operand :: ts, b, c, p⟩ =
      ⟨ts, false, c, p.report (.noOperand p.current.kind p.current.literal) p.current.start⟩ := by
  simp [step, h]

theorem step_operators {floor : Precedence} (h : p.continuesAbove floor = true) :
    step ⟨.operators floor :: ts, true, c, p⟩ =
      ⟨.infixOp :: .operators floor :: ts, true, c, p.advance⟩ :=
  if_pos h

theorem step_operators_of_false {floor : Precedence} (h : p.continuesAbove floor = false) :
    step ⟨.operators floor :: ts, true, c, p⟩ = ⟨ts, true, c, p⟩ := by
  simp [step, h]

theorem step_binding (h : p.peek.kind = .identifier) :
    step ⟨.statementBy .binding :: ts, b, c, p⟩ = ⟨.assign :: ts, true, c, p.advance⟩ := by
  simp only [step, Parser.expect_of_eq h]

theorem step_binding_of_ne (h : p.peek.kind ≠ .identifier) :
    step ⟨.statementBy .binding :: ts, b, c, p⟩ = ⟨.skip Parser.inBroken :: ts, false, c,
      p.report (.unexpectedNext .identifier p.peek.kind) p.peek.start⟩ := by
  simp only [step, Parser.expect_of_ne h]

theorem step_assign (h : p.peek.kind = .assign) :
    step ⟨.assign :: ts, b, c, p⟩ = ⟨.skip Parser.inStatement :: ts, true, c, p.advance⟩ := by
  simp only [step, Parser.expect_of_eq h]

theorem step_assign_of_ne (h : p.peek.kind ≠ .assign) :
    step ⟨.assign :: ts, b, c, p⟩ = ⟨.skip Parser.inBroken :: ts, false, c,
      p.report (.unexpectedNext .assign p.peek.kind) p.peek.start⟩ := by
  simp only [step, Parser.expect_of_ne h]

end Step

def Becomes (m m' : Machine) : Prop := ∃ n, step^[n] m = m'

variable {m m' m'' : Machine}

theorem Becomes.trans (h : Becomes m m') (h' : Becomes m' m'') : Becomes m m'' := by
  obtain ⟨n, rfl⟩ := h
  obtain ⟨n', rfl⟩ := h'
  exact ⟨n' + n, Function.iterate_add_apply step n' n m⟩

theorem Becomes.single (h : m.step = m') : Becomes m m' := ⟨1, h⟩

theorem Becomes.step (hs : m.step = m') (h : Becomes m' m'') : Becomes m m'' :=
  (Becomes.single hs).trans h

end Machine

open Machine

namespace Parser

variable {p q : Parser} {ts : List Task} {b : Bool} {c n : Nat}

/-! ### The machine makes the calls -/

def Part.task : Part → Task
  | expression floor => .expression floor
  | operand => .operand
  | infixOp _ => .infixOp
  | operators floor _ => .operators floor

theorem SkipTakes.becomes {more : Parser → Bool} (h : SkipTakes more p n q) :
    Becomes ⟨.skip more :: ts, b, c, p⟩ ⟨ts, b, c, q⟩ := by
  induction h with
  | stop hm => exact .single (if_neg (ne_true_of_eq_false hm))
  | step hm _ ih => exact .step (if_pos hm) ih

/-- Whatever else there is to do, a call is made to its end first. -/
theorem Takes.becomes {part : Part} {r : Option Expr × Parser} (h : Takes part p n r) :
    Becomes ⟨part.task :: ts, true, c, p⟩ ⟨ts, r.1.isSome, c, r.2⟩ := by
  induction h generalizing ts with
  | refused hd hs => exact .step (step_expression_of_not_lt hd) hs.becomes
  | @broken floor p q n hd _ iho =>
    -- behind a broken operand no operator is looked for, and the expression is left all the same
    have hleave : Becomes ⟨.operators floor :: .leave :: ts, false, c, q⟩ ⟨ts, false, c, q.leave⟩ :=
      .step rfl (.single rfl)
    exact .step (step_expression hd) (iho.trans hleave)
  | read hd _ _ iho ihr => exact .step (step_expression hd) (iho.trans (ihr.trans (.single rfl)))
  | name hk => exact .step (step_operand hk) (.single rfl)
  | integer hk => exact .step (step_operand hk) (.single rfl)
  | prefixOp hk _ ih =>
    rw [Option.isSome_map]
    exact .step (step_operand hk) (.step rfl ih)
  | noOperand hk => exact .single (step_operand_of_none hk)
  | infixOp _ ih =>
    rw [Option.isSome_map]
    exact .step rfl ih
  | stop hc => exact .single (step_operators_of_false hc)
  | brokenTurn hc _ ih => exact .step (step_operators hc) (ih.trans (.single rfl))
  | turn hc _ _ ihi ihr => exact .step (step_operators hc) (ihi.trans ihr)

theorem StatementTakes.becomes {rule : StatementRule} {r : Option Statement × Parser}
    (h : StatementTakes rule p n r) :
    Becomes ⟨.statementBy rule :: ts, true, c, p⟩ ⟨ts, r.1.isSome, c, r.2⟩ := by
  cases h with
  | noName hn hs => exact .step (step_binding_of_ne hn) hs.becomes
  | noAssign hn ha hs => exact .step (step_binding hn) (.step (step_assign_of_ne ha) hs.becomes)
  | binding hn ha hs => exact .step (step_binding hn) (.step (step_assign ha) hs.becomes)
  | returning hs => exact .step rfl hs.becomes
  | expression hr =>
    rw [Option.isSome_map]
    exact .step rfl (hr.becomes.trans (.single rfl))

theorem ProgramTakes.becomes {ss : List Statement} (h : ProgramTakes p n ss q) :
    Becomes ⟨.statements :: ts, b, c, p⟩ ⟨ts, true, c + ss.length, q⟩ := by
  induction h generalizing b c with
  | stop he => exact .single (if_pos he)
  | @step p q r s ss n m he hs _ ih =>
    have hcount : c + (s.toList ++ ss).length = c + s.isSome.toNat + ss.length := by
      rw [List.length_append, Nat.add_assoc]
      cases s <;> rfl
    rw [hcount]
    exact .step (if_neg he) (.step rfl (hs.becomes.trans (.step rfl ih)))

/-! ### The calls of the readers -/

/-- What a machine has to do to make a call. The other operations are single actions. -/
def Operation.task? : Operation → Option Task
  | .name => some (.operandBy .name)
  | .integer => some (.operandBy .integer)
  | .prefixOp => some (.operandBy .prefixOp)
  | .infixOp _ => some .infixOp
  | .expression floor => some (.expression floor)
  | .bindingStatement => some (.statementBy .binding)
  | .returningStatement => some (.statementBy .returning)
  | .expressionStatement => some (.statementBy .expression)
  | .statement => some .statement
  | .program => some .program
  | _ => none

theorem becomes_program (p : Parser) :
    ∃ c', Becomes ⟨.program :: ts, b, c, p⟩ ⟨ts, true, c', p.program.2⟩ := by
  have hrun := runs_statementsWithin (Nat.le_refl p.stream.pending.length)
  obtain ⟨n, hn⟩ := hrun.exists_programTakes
  have hdone : Becomes ⟨.program :: ts, b, c, p⟩ ⟨.ending :: ts, true, _, _⟩ :=
    .step rfl hn.becomes
  rw [Nat.zero_add] at hdone
  exact ⟨_, hdone.trans (.single rfl)⟩

/-- The machine makes each call of a reader, and comes to the same parser. -/
theorem becomes_of_perform? {o : Operation} {t : Task} (ht : o.task? = some t)
    (h : p.perform? o = some q) : ∃ b c, Becomes (start t p) ⟨[], b, c, q⟩ := by
  have hpart (part : Part) :
      Becomes (start part.task p) ⟨[], (part.read p).1.isSome, 0, (part.read p).2⟩ := by
    obtain ⟨n, hn⟩ := exists_takes part p
    exact hn.becomes
  have hrule (rule : StatementRule) :
      Becomes (start (.statementBy rule) p) ⟨[], (rule.read p).1.isSome, 0, (rule.read p).2⟩ := by
    obtain ⟨n, hn⟩ := exists_statementTakes rule p
    exact hn.becomes
  cases o with
  | name | integer =>
    cases ht
    cases h
    exact ⟨_, _, .single rfl⟩
  | prefixOp =>
    cases ht
    cases h
    obtain ⟨n, hn⟩ := exists_takes (.expression .unary) p.advance
    exact ⟨_, _, .step rfl hn.becomes⟩
  | infixOp left =>
    cases ht
    cases h
    exact ⟨_, _, hpart (.infixOp left)⟩
  | expression floor =>
    cases ht
    cases h
    exact ⟨_, _, hpart (.expression floor)⟩
  | bindingStatement =>
    cases ht
    cases h
    exact ⟨_, _, hrule .binding⟩
  | returningStatement =>
    cases ht
    cases h
    exact ⟨_, _, hrule .returning⟩
  | expressionStatement =>
    cases ht
    cases h
    exact ⟨_, _, hrule .expression⟩
  | statement =>
    cases ht
    cases h
    rw [statement_eq_read]
    exact ⟨_, _, .step rfl (hrule p.statementRule)⟩
  | program =>
    cases ht
    cases h
    obtain ⟨c, hc⟩ := becomes_program p
    exact ⟨_, c, hc⟩
  | advance | expect | synchronize | report | enter | leave | setStatement | setOperand
  | setInfixOp => cases ht

end Parser

end MonkeySyntax
