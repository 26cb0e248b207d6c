import MonkeySyntax.Proofs.Expression.Duration
import MonkeySyntax.Proofs.Program.Operation
import MonkeySyntax.Proofs.Program.Attempt

/-! # How long reading a program takes

Reading a program comes to its end whatever rules were set, also rules for the end token, in a
number of steps that is linear in the number of tokens. The statements read and the errors found
are no more than the tokens.
-/

namespace MonkeySyntax

def StatementRule.read : StatementRule → Parser → Option Statement × Parser
  | .binding, p => p.bindingStatement
  | .returning, p => p.returningStatement
  | .expression, p => p.expressionStatement

namespace Parser

def statementRule (p : Parser) : StatementRule :=
  (p.rules.statement p.current.kind).getD .expression

inductive StatementTakes : StatementRule → Parser → Nat → Option Statement × Parser → Prop where
  | noName {p q : Parser} {n : Nat} (hn : p.peek.kind ≠ .identifier)
      (hs : SkipTakes inBroken
        (p.report (.unexpectedNext .identifier p.peek.kind) p.peek.start) n q) :
      StatementTakes .binding p (n + 1) (none, q)
  | noAssign {p q : Parser} {n : Nat} (hn : p.peek.kind = .identifier)
      (ha : p.advance.peek.kind ≠ .assign)
      (hs : SkipTakes inBroken
        (p.advance.report (.unexpectedNext .assign p.advance.peek.kind) p.advance.peek.start) n q) :
      StatementTakes .binding p (n + 1) (none, q)
  | binding {p q : Parser} {n : Nat} (hn : p.peek.kind = .identifier)
      (ha : p.advance.peek.kind = .assign) (hs : SkipTakes inStatement p.advance.advance n q) :
      StatementTakes .binding p (n + 1) (some (.binding p.current p.peek p.peek.literal), q)
  | returning {p q : Parser} {n : Nat} (hs : SkipTakes inStatement p n q) :
      StatementTakes .returning p (n + 1) (some (.returning p.current), q)
  | expression {p : Parser} {n : Nat} {r : Option Expr × Parser}
      (hr : Takes (.expression .lowest) p n r) :
      StatementTakes .expression p (n + 1) (r.1.map (.expression p.current),
        if r.2.peek.kind = .semicolon then r.2.advance else r.2)

inductive ProgramTakes : Parser → Nat → List Statement → Parser → Prop where
  | stop {p : Parser} (h : p.current.kind = .eof) : ProgramTakes p 1 [] p
  | step {p q r : Parser} {s : Option Statement} {ss : List Statement} {n m : Nat}
      (h : p.current.kind ≠ .eof) (hs : StatementTakes p.statementRule p n (s, q))
      (hr : ProgramTakes q.advance m ss r) : ProgramTakes p (n + m + 1) (s.toList ++ ss) r

variable {p q q' : Parser} {rule : StatementRule} {n n' : Nat}
  {r r' : Option Statement × Parser} {ss ss' : List Statement}

theorem statement_eq_read (p : Parser) : p.statement = p.statementRule.read p := by
  unfold statement statementRule
  cases p.rules.statement p.current.kind with
  | none => rfl
  | some rule => cases rule <;> rfl

/-! ### One result -/

theorem StatementTakes.unique (h : StatementTakes rule p n r) (h' : StatementTakes rule p n' r') :
    n = n' ∧ r = r' := by
  cases h with
  | noName hn hs =>
    cases h' with
    | noName _ hs' =>
      obtain ⟨rfl, rfl⟩ := hs.unique hs'
      exact ⟨rfl, rfl⟩
    | noAssign hn' _ _ | binding hn' _ _ => exact absurd hn' hn
  | noAssign hn ha hs =>
    cases h' with
    | noAssign _ _ hs' =>
      obtain ⟨rfl, rfl⟩ := hs.unique hs'
      exact ⟨rfl, rfl⟩
    | noName hn' _ => exact absurd hn hn'
    | binding _ ha' _ => exact absurd ha' ha
  | binding hn ha hs =>
    cases h' with
    | binding _ _ hs' =>
      obtain ⟨rfl, rfl⟩ := hs.unique hs'
      exact ⟨rfl, rfl⟩
    | noName hn' _ => exact absurd hn hn'
    | noAssign _ ha' _ => exact absurd ha ha'
  | returning hs =>
    cases h' with
    | returning hs' =>
      obtain ⟨rfl, rfl⟩ := hs.unique hs'
      exact ⟨rfl, rfl⟩
  | expression hr =>
    cases h' with
    | expression hr' =>
      obtain ⟨rfl, rfl⟩ := hr.unique hr'
      exact ⟨rfl, rfl⟩

theorem ProgramTakes.unique (h : ProgramTakes p n ss q) (h' : ProgramTakes p n' ss' q') :
    n = n' ∧ ss = ss' ∧ q = q' := by
  induction h generalizing n' ss' with
  | stop he =>
    cases h' with
    | stop _ => exact ⟨rfl, rfl, rfl⟩
    | step he' _ _ => exact absurd he he'
  | step he hs _ ih =>
    cases h' with
    | stop he' => exact absurd he' he
    | step _ hs' hr' =>
      obtain ⟨rfl, hq⟩ := hs.unique hs'
      cases hq
      obtain ⟨rfl, rfl, rfl⟩ := ih hr'
      exact ⟨rfl, rfl, rfl⟩

/-! ### Reading comes to its end -/

theorem exists_statementTakes (rule : StatementRule) (p : Parser) :
    ∃ n, StatementTakes rule p n (rule.read p) := by
  cases rule with
  | binding =>
    rw [StatementRule.read, bindingStatement]
    by_cases hn : p.peek.kind = .identifier
    · rw [expect_of_eq hn]
      by_cases ha : p.advance.peek.kind = .assign
      · obtain ⟨n, hs⟩ := exists_skipTakes (fun _ hq => pending_ne_nil_of_inStatement hq)
          p.advance.advance
        simp only [expect_of_eq ha]
        exact ⟨n + 1, .binding hn ha hs⟩
      · obtain ⟨n, hs⟩ := exists_skipTakes (fun _ hq => pending_ne_nil_of_inBroken hq)
          (p.advance.expect .assign).2
        rw [expect_of_ne ha] at hs
        simp only [expect_of_ne ha]
        exact ⟨n + 1, .noAssign hn ha hs⟩
    · obtain ⟨n, hs⟩ := exists_skipTakes (fun _ hq => pending_ne_nil_of_inBroken hq)
        (p.expect .identifier).2
      rw [expect_of_ne hn] at hs ⊢
      exact ⟨n + 1, .noName hn hs⟩
  | returning =>
    obtain ⟨n, hs⟩ := exists_skipTakes (fun _ hq => pending_ne_nil_of_inStatement hq) p
    exact ⟨n + 1, .returning hs⟩
  | expression =>
    obtain ⟨n, hr⟩ := exists_takes (.expression .lowest) p
    exact ⟨n + 1, .expression hr⟩

theorem StatementTakes.eq_read (h : StatementTakes rule p n r) : r = rule.read p := by
  obtain ⟨m, hm⟩ := exists_statementTakes rule p
  exact (h.unique hm).2

theorem Runs.exists_programTakes (h : Runs p ss q) : ∃ n, ProgramTakes p n ss q := by
  induction h with
  | stop he => exact ⟨1, .stop he⟩
  | @step p q r s ss he hs _ ih =>
    obtain ⟨n, hn⟩ := exists_statementTakes p.statementRule p
    obtain ⟨m, hm⟩ := ih
    rw [← statement_eq_read, hs] at hn
    exact ⟨n + m + 1, .step he hn hm⟩

/-! ### How soon -/

theorem StatementTakes.ahead (h : StatementTakes rule p n r) : Ahead p r.2 := by
  rw [h.eq_read]
  cases rule with
  | binding => exact (outcome_bindingStatement p).toAhead
  | returning => exact (outcome_returningStatement p).toAhead
  | expression => exact (outcome_expressionStatement p).toAhead

theorem StatementTakes.prompt (h : StatementTakes rule p n r) :
    n ≤ 3 * p.tokensLeft + 3 * p.levelsLeft + 4 ∧
      (r.2.tokensLeft ≠ 0 → n + 3 * r.2.tokensLeft ≤ 3 * p.tokensLeft + 4) := by
  have hle : r.2.tokensLeft ≤ p.tokensLeft := h.ahead.length_le
  have hadv := tokensLeft_advance p
  cases h with
  | noName hn hs =>
    have hskip := hs.add_tokensLeft_eq fun _ hq => pending_ne_nil_of_inBroken hq
    have hp : (p.report (.unexpectedNext .identifier p.peek.kind) p.peek.start).tokensLeft =
        p.tokensLeft := rfl
    dsimp only at hle ⊢
    omega
  | noAssign hn ha hs =>
    have hskip := hs.add_tokensLeft_eq fun _ hq => pending_ne_nil_of_inBroken hq
    have hp : (p.advance.report (.unexpectedNext .assign p.advance.peek.kind)
        p.advance.peek.start).tokensLeft = p.advance.tokensLeft := rfl
    dsimp only at hle ⊢
    omega
  | binding hn ha hs =>
    have hskip := hs.add_tokensLeft_eq fun _ hq => pending_ne_nil_of_inStatement hq
    have hadv' := tokensLeft_advance p.advance
    dsimp only at hle ⊢
    omega
  | returning hs =>
    have hskip := hs.add_tokensLeft_eq fun _ hq => pending_ne_nil_of_inStatement hq
    dsimp only at hle ⊢
    omega
  | @expression _ n r hr =>
    obtain ⟨hleft, hpassed⟩ := hr.prompt
    have hq : (if r.2.peek.kind = .semicolon then r.2.advance else r.2).tokensLeft ≤
        r.2.tokensLeft := by
      split
      · exact (quiet_advance _).length_le
      · exact Nat.le_refl _
    simp only [Part.slack, Part.overhead] at hleft hpassed
    dsimp only at hle ⊢
    omega

theorem ProgramTakes.le (h : ProgramTakes p n ss q) :
    n ≤ 5 * p.tokensLeft + 3 * p.levelsLeft + 4 := by
  induction h with
  | stop _ => omega
  | @step p q r s ss n m he hs hr ih =>
    obtain ⟨hleft, hpassed⟩ := hs.prompt
    have hpos : 0 < p.tokensLeft := List.length_pos_iff.2 (mt kind_current_eq_eof_iff.2 he)
    have hle : q.tokensLeft ≤ p.tokensLeft := hs.ahead.length_le
    have hl : q.advance.levelsLeft = p.levelsLeft := congrArg (maxDepth - ·) hs.ahead.depth_eq
    have hadv := tokensLeft_advance q
    simp only at hpassed
    by_cases hq : q.tokensLeft = 0
    · -- nothing is left behind the statement, so the run stops there
      have hm : m = 1 := by
        have heof : q.advance.current.kind = .eof :=
          kind_current_eq_eof_iff.2 (List.eq_nil_of_length_eq_zero (by rw [← tokensLeft]; omega))
        cases hr with
        | stop _ => rfl
        | step he' _ _ => exact absurd heof he'
      omega
    · omega

/-! ### What is passed and found -/

theorem pending_of_continuesAbove {floor : Precedence} (left : Expr)
    (h : p.continuesAbove floor = true) : p.peek.kind ≠ .eof ∧
      ∃ front, p.stream.pending = p.current :: p.peek :: front ++
        (p.advance.infixOp expression left).2.stream.pending := by
  have hlt := one_lt_tokensLeft_of_continuesAbove h
  have hpeek : p.peek.kind ≠ .eof := by
    intro he
    have hnil : p.advance.tokensLeft = 0 := congrArg List.length (kind_peek_eq_eof_iff.1 he)
    rw [tokensLeft_advance] at hnil
    omega
  have hcurrent : p.current.kind ≠ .eof := by
    intro he
    have hnil : p.tokensLeft = 0 := congrArg List.length (kind_current_eq_eof_iff.1 he)
    omega
  have hright := outcome_expression p.advance.currentPrecedence p.advance.advance
  obtain ⟨front, hfront⟩ := hright.suffix
  refine ⟨hpeek, front, ?_⟩
  rw [pending_of_kind_ne_eof hcurrent, pending_tail_of_kind_ne_eof hpeek]
  exact congrArg (fun ts => p.current :: p.peek :: ts) hfront.symm

theorem length_attempts_le (p : Parser) : p.attempts.length ≤ p.tokensLeft := by
  fun_induction attempts p with
  | case1 p he => exact Nat.zero_le _
  | case2 p he ih =>
    have hlt : p.following.tokensLeft < p.tokensLeft := length_pending_after_statement he rfl
    rw [List.length_cons]
    omega

theorem length_statements_add_size_errors_le (p : Parser) :
    p.program.1.statements.length + p.program.2.errors.size ≤ p.tokensLeft + p.errors.size := by
  obtain ⟨hs, he⟩ := program_eq_attempts p
  have hcount := length_statements_add_length_errors p
  have hle := length_attempts_le p
  have hsize := congrArg List.length he
  rw [List.length_append, Array.length_toList, Array.length_toList] at hsize
  rw [hs, hsize]
  omega

/-- Reading comes to its end from every parser and by any rules: skipping, each call of the
expression reader, each statement and the program take a number of steps that the tokens and levels
left bound, and have one result. A program takes all tokens, each turn of the operator loop passes
the operator, and the statements and the new errors are no more than the tokens. -/
theorem reading_ends (p : Parser) :
    (∃ n, SkipTakes inBroken p n p.synchronize ∧ n ≤ p.tokensLeft + 1) ∧
    (∃ n, SkipTakes inStatement p n p.skipToEnd ∧ n ≤ p.tokensLeft + 1) ∧
    (∀ part, ∃ n, Takes part p n (part.read p) ∧ n ≤ 3 * p.tokensLeft + 3 * p.levelsLeft + 4 ∧
      ∀ n' r, Takes part p n' r → n' = n ∧ r = part.read p) ∧
    (∀ rule, ∃ n, StatementTakes rule p n (rule.read p) ∧
      n ≤ 3 * p.tokensLeft + 3 * p.levelsLeft + 4 ∧
      ∀ n' r, StatementTakes rule p n' r → n' = n ∧ r = rule.read p) ∧
    (∃ n q, ProgramTakes p n p.program.1.statements q ∧
      n ≤ 5 * p.tokensLeft + 3 * p.levelsLeft + 4 ∧
      (∀ n' ss q', ProgramTakes p n' ss q' → n' = n ∧ ss = p.program.1.statements ∧ q' = q) ∧
      p.program.2 =
        { q with log := q.log.push (.parsedProgram p.program.1.statements.length q.errors.size) }) ∧
    p.program.2.current.kind = .eof ∧
    (∀ floor left, p.continuesAbove floor = true → p.peek.kind ≠ .eof ∧
      ∃ front, p.stream.pending = p.current :: p.peek :: front ++
        (p.advance.infixOp expression left).2.stream.pending) ∧
    p.program.1.statements.length + p.program.2.errors.size ≤ p.tokensLeft + p.errors.size := by
  refine ⟨?_, ?_, ?_, ?_, ?_, kind_current_program p, ?_, length_statements_add_size_errors_le p⟩
  · obtain ⟨n, hn⟩ := exists_skipTakes (fun _ hq => pending_ne_nil_of_inBroken hq) p
    have hcount := hn.add_tokensLeft_eq fun _ hq => pending_ne_nil_of_inBroken hq
    exact ⟨n, hn, by omega⟩
  · obtain ⟨n, hn⟩ := exists_skipTakes (fun _ hq => pending_ne_nil_of_inStatement hq) p
    have hcount := hn.add_tokensLeft_eq fun _ hq => pending_ne_nil_of_inStatement hq
    exact ⟨n, hn, by omega⟩
  · intro part
    obtain ⟨n, hn⟩ := exists_takes part p
    refine ⟨n, hn, ?_, fun n' r h => ⟨(h.unique hn).1, h.eq_read⟩⟩
    have hle := hn.prompt.le_left
    cases part <;> simp only [Part.slack] at hle <;> omega
  · intro rule
    obtain ⟨n, hn⟩ := exists_statementTakes rule p
    exact ⟨n, hn, hn.prompt.1, fun n' r h => ⟨(h.unique hn).1, h.eq_read⟩⟩
  · have hrun := runs_statementsWithin (Nat.le_refl p.stream.pending.length)
    obtain ⟨n, hn⟩ := hrun.exists_programTakes
    exact ⟨n, _, hn, hn.le, fun n' ss q' h => h.unique hn, rfl⟩
  · intro floor left hc
    exact pending_of_continuesAbove left hc

theorem reading_ends_at_levels :
    ∃ p, (ofSource "a + -" none).performAll? [.setOperand .eof .prefixOp] = some p ∧
      p.continuesAbove .lowest = true ∧ p.peek.kind ≠ .eof ∧
      (∃ n q, ProgramTakes p n [] q ∧ n ≤ 787) ∧ Part.operand.read p = p.name ∧
      p.program.2.errors.size = 1 ∧ p.program.2.current.kind = .eof := by
  refine ⟨_, rfl, ?_⟩
  generalize hp : { ofSource "a + -" none with
    rules := (ofSource "a + -" none).rules.setOperand .eof .prefixOp } = p
  have hc : p.continuesAbove .lowest = true := by rw [← hp]; decide +kernel
  have hs : p.program.1.statements = [] := by rw [← hp]; decide +kernel
  have he : p.program.2.errors.size = 1 := by rw [← hp]; decide +kernel
  have hk : p.rules.operand p.current.kind = some .name := by rw [← hp]; decide +kernel
  have hleft : p.tokensLeft = 3 ∧ p.levelsLeft = 256 := by rw [← hp]; decide +kernel
  obtain ⟨-, -, hpart, -, ⟨n, q, hn, hle, -⟩, heof, hturn, -⟩ := reading_ends p
  obtain ⟨_, -, -, hone⟩ := hpart .operand
  rw [hs] at hn
  rw [hleft.1, hleft.2] at hle
  exact ⟨hc, (hturn .lowest (.name p.current "a") hc).1, ⟨n, q, hn, hle⟩,
    (hone 1 p.name (.name hk)).2.symm, he, heof⟩

end Parser

end MonkeySyntax
