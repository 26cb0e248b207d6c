import MonkeySyntax.Proofs.Program.Run
import MonkeySyntax.Proofs.Token.Delivery

/-! # Operations in any order

The operations of a parser may be called in any order, at any token and under any rules. The
parser stays at an index of the tokens of its source, never goes back, and only adds errors.
-/

namespace MonkeySyntax.Parser

inductive Operation where
  | advance
  | expect (kind : TokenKind)
  | synchronize
  | report (cause : SyntaxError.Cause) (position : Position)
  | enter
  | leave
  | name
  | integer
  | prefixOp
  | infixOp (left : Expr)
  | expression (floor : Precedence)
  | bindingStatement
  | returningStatement
  | expressionStatement
  | statement
  | program
  | setStatement (kind : TokenKind) (rule : StatementRule)
  | setOperand (kind : TokenKind) (rule : OperandRule)
  | setInfixOp (kind : TokenKind)

/-- The parser after an operation. An expression can be left only if one was entered. -/
def perform? (p : Parser) : Operation → Option Parser
  | .advance => some p.advance
  | .expect kind => some (p.expect kind).2
  | .synchronize => some p.synchronize
  | .report cause position => some (p.report cause position)
  | .enter => some p.enter.2
  | .leave => if 0 < p.depth then some p.leave else none
  | .name => some p.name.2
  | .integer => some p.integer.2
  | .prefixOp => some (p.prefixOp expression).2
  | .infixOp left => some (p.infixOp expression left).2
  | .expression floor => some (p.expression floor).2
  | .bindingStatement => some p.bindingStatement.2
  | .returningStatement => some p.returningStatement.2
  | .expressionStatement => some p.expressionStatement.2
  | .statement => some p.statement.2
  | .program => some p.program.2
  | .setStatement kind rule => some { p with rules := p.rules.setStatement kind rule }
  | .setOperand kind rule => some { p with rules := p.rules.setOperand kind rule }
  | .setInfixOp kind => some { p with rules := p.rules.setInfixOp kind }

def performAll? (p : Parser) (os : List Operation) : Option Parser := os.foldlM perform? p

def index (source : String) (file : Option String) (p : Parser) : Nat :=
  (TokenStream.ofSource source file).pending.length - p.stream.pending.length

/-- The window of the parser is at an index of the tokens of a source, and the lexer of the source
is about to give the token behind the window. -/
structure AtIndex (source : String) (file : Option String) (k : Nat) (p : Parser) : Prop where
  current_eq : p.current = tokenAt source file k
  peek_eq : p.peek = tokenAt source file (k + 1)
  peek_advance_eq : p.advance.peek = tokenAt source file (k + 2)
  next_eq : ∃ l l', (Lexer.ofSource source file).after? (k + 2) = some l ∧
    l.next? = some (p.advance.peek, l')

variable {source : String} {file : Option String} {p q s : Parser}

/-! ### One operation -/

/-- The second parser is at the same token as the first one or further on in the same stream, and
it has at least the same errors. -/
structure Onward (p q : Parser) : Prop where
  ending_eq : q.stream.ending = p.stream.ending
  suffix : q.stream.pending <:+ p.stream.pending
  errors : p.errors.toList <+: q.errors.toList

theorem Onward.refl (p : Parser) : Onward p p := ⟨rfl, List.suffix_rfl, List.prefix_rfl⟩

theorem Onward.trans (h : Onward p q) (h' : Onward q s) : Onward p s where
  ending_eq := h'.ending_eq.trans h.ending_eq
  suffix := h'.suffix.trans h.suffix
  errors := h.errors.trans h'.errors

theorem Onward.of_eq (hs : q.stream = p.stream) (he : q.errors = p.errors) : Onward p q where
  ending_eq := by rw [hs]
  suffix := hs ▸ List.suffix_rfl
  errors := he ▸ List.prefix_rfl

theorem Quiet.onward (h : Quiet p q) : Onward p q where
  ending_eq := h.ending_eq
  suffix := h.suffix
  errors := h.errors_eq ▸ List.prefix_rfl

theorem Outcome.onward {α : Type} {r : Option α × Parser} (h : Outcome p r) : Onward p r.2 where
  ending_eq := h.ending_eq
  suffix := h.suffix
  errors := by
    cases hr : r.1 with
    | none =>
      obtain ⟨e, he⟩ := h.errors_push hr
      rw [he, Array.toList_push]
      exact List.prefix_append _ _
    | some a => exact h.errors_eq (by rw [hr]; rfl) ▸ List.prefix_rfl

theorem onward_report (cause : SyntaxError.Cause) (position : Position) (p : Parser) :
    Onward p (p.report cause position) where
  ending_eq := rfl
  suffix := List.suffix_rfl
  errors := by simp

theorem onward_expect (kind : TokenKind) (p : Parser) : Onward p (p.expect kind).2 := by
  by_cases h : p.peek.kind = kind
  · rw [expect_of_eq h]
    exact (quiet_advance p).onward
  · rw [expect_of_ne h]
    exact onward_report _ _ p

theorem onward_enter (p : Parser) : Onward p p.enter.2 := by
  by_cases h : p.depth < maxDepth
  · rw [enter_of_lt h]
    exact .of_eq rfl rfl
  · rw [enter_of_not_lt h]
    exact (onward_report _ _ p).trans (quiet_skipWhile _ _).onward

theorem Runs.onward {ss : List Statement} (h : Runs p ss q) : Onward p q := by
  induction h with
  | stop _ => exact .refl _
  | step _ hs _ ih =>
    have hq := (outcome_of_statement_eq hs).onward
    exact hq.trans ((quiet_advance _).onward.trans ih)

theorem Runs.kind_current_eq_eof {ss : List Statement} (h : Runs p ss q) :
    q.current.kind = .eof := by
  induction h with
  | stop h => exact h
  | step _ _ _ ih => exact ih

theorem exists_runs_program (p : Parser) :
    ∃ r, Runs p p.program.1.statements r ∧ p.program.2.stream = r.stream ∧
      p.program.2.errors = r.errors :=
  ⟨_, runs_statementsWithin (Nat.le_refl _), rfl, rfl⟩

theorem onward_program (p : Parser) : Onward p p.program.2 := by
  obtain ⟨r, hr, hs, he⟩ := exists_runs_program p
  have h := hr.onward
  exact ⟨hs ▸ h.ending_eq, hs ▸ h.suffix, he ▸ h.errors⟩

/-- No operation goes back or drops an error. -/
theorem onward_of_perform? {o : Operation} (h : p.perform? o = some q) : Onward p q := by
  cases o with
  | leave =>
    rw [perform?] at h
    split at h
    · cases h
      exact .of_eq rfl rfl
    · cases h
  | advance =>
    cases h
    exact (quiet_advance p).onward
  | synchronize =>
    cases h
    exact (quiet_skipWhile _ p).onward
  | report cause position =>
    cases h
    exact onward_report cause position p
  | expect kind =>
    cases h
    exact onward_expect kind p
  | enter =>
    cases h
    exact onward_enter p
  | name =>
    cases h
    exact (outcome_name p).onward
  | integer =>
    cases h
    exact (outcome_integer p).onward
  | prefixOp =>
    cases h
    exact (outcome_prefixOp outcome_expression p).onward
  | infixOp left =>
    cases h
    exact (outcome_infixOp outcome_expression left p).onward
  | expression floor =>
    cases h
    exact (outcome_expression floor p).onward
  | bindingStatement =>
    cases h
    exact (outcome_bindingStatement p).onward
  | returningStatement =>
    cases h
    exact (outcome_returningStatement p).onward
  | expressionStatement =>
    cases h
    exact (outcome_expressionStatement p).onward
  | statement =>
    cases h
    exact (outcome_statement p).onward
  | program =>
    cases h
    exact onward_program p
  | setStatement kind rule | setOperand kind rule | setInfixOp kind =>
    cases h
    exact .of_eq rfl rfl

/-! ### Operations one after another -/

theorem onward_of_performAll? {os : List Operation} (h : p.performAll? os = some q) :
    Onward p q := by
  induction os generalizing p with
  | nil =>
    cases h
    exact .refl _
  | cons o os ih =>
    rw [performAll?, List.foldlM_cons] at h
    obtain ⟨p', ho, hos⟩ := Option.bind_eq_some_iff.1 h
    exact (onward_of_perform? ho).trans (ih hos)

theorem Onward.index_le (h : Onward p q) : index source file p ≤ index source file q :=
  Nat.sub_le_sub_left h.suffix.length_le _

/-- A window that shows what a parser sees goes on to show it, moved as often as the parser is. -/
theorem Onward.exists_window {w : Window} (h : Onward p q) (hw : w.Shows p.stream) :
    ∃ w', w.after? (p.stream.pending.length - q.stream.pending.length) = some w' ∧
      w'.Shows q.stream := by
  obtain ⟨w', hw', hs⟩ := hw.after? (p.stream.pending.length - q.stream.pending.length)
  rw [← TokenStream.eq_iterate_next_of_suffix h.suffix h.ending_eq] at hs
  exact ⟨w', hw', hs⟩

/-- Whatever was done to the parser of a source, it is at the index of its current token. -/
theorem Onward.atIndex (h : Onward (ofSource source file) p) :
    AtIndex source file (index source file p) p := by
  have hs : p.stream = TokenStream.next^[index source file p] (.ofSource source file) :=
    TokenStream.eq_iterate_next_of_suffix h.suffix h.ending_eq
  have hnext (n : Nat) : (TokenStream.next^[n] p.stream).current =
      tokenAt source file (index source file p + n) := by
    rw [tokenAt_eq_current, Nat.add_comm, Function.iterate_add_apply, ← hs]
  -- the lexer is that of the window which the parser shows
  obtain ⟨w, hw, hshows⟩ := Window.exists_shows_ofLexer? (Lexer.shows_ofSource source file)
  obtain ⟨w', hw', hshows'⟩ := h.exists_window hshows
  obtain ⟨l', hl', -⟩ := hshows'.lexer_shows.next?
  exact ⟨hnext 0, hnext 1, hnext 2, w'.lexer, l', Window.lexer_after? hw hw', hl'⟩

theorem kind_current_program (p : Parser) : p.program.2.current.kind = .eof := by
  obtain ⟨r, hr, hs, -⟩ := exists_runs_program p
  rw [current, hs]
  exact hr.kind_current_eq_eof

theorem program_of_eof (h : p.current.kind = .eof) :
    p.program.1 = ⟨[]⟩ ∧ p.program.2.errors = p.errors := by
  obtain ⟨r, hr, -, he⟩ := exists_runs_program p
  obtain ⟨hss, hr⟩ := hr.unique (.stop h)
  exact ⟨congrArg Program.mk hss, by rw [he, hr]⟩

/-- Whatever operations were called on the parser of a source, its window is at an index of the
tokens. Further operations do not lower the index, and they keep the errors. A program takes all
tokens, and behind it there is nothing to read. -/
theorem window_of_operations {os : List Operation}
    (h : (ofSource source file).performAll? os = some p) :
    AtIndex source file (index source file p) p ∧
      (∀ os' q, p.performAll? os' = some q → index source file p ≤ index source file q ∧
        p.errors.toList <+: q.errors.toList) ∧
      p.program.2.current.kind = .eof ∧
      index source file p.program.2 + 1 = (tokenize source file).length ∧
      p.program.2.program.1 = ⟨[]⟩ ∧ p.program.2.program.2.errors = p.program.2.errors := by
  have heof := kind_current_program p
  have hnil := kind_current_eq_eof_iff.1 heof
  refine ⟨(onward_of_performAll? h).atIndex, ?_, heof, ?_, program_of_eof heof⟩
  · intro os' q hq
    have hon := onward_of_performAll? hq
    exact ⟨hon.index_le, hon.errors⟩
  · rw [index, hnil, tokenize, TokenStream.toList, List.length_append]
    rfl

theorem window_of_operations_mixed :
    ∃ p, (ofSource "let x 5; - 1" none).performAll?
        [.enter, .infixOp (.name (tokenAt "let x 5; - 1" none 1) "x"), .leave,
          .setOperand .semicolon .prefixOp, .setInfixOp .integer, .expression .lowest,
          .bindingStatement] = some p ∧
      p.errors.size = 1 ∧ AtIndex "let x 5; - 1" none 3 p ∧ p.program.2.current.kind = .eof ∧
      index "let x 5; - 1" none p.program.2 + 1 = (tokenize "let x 5; - 1" none).length ∧
      p.program.2.program.1 = ⟨[]⟩ := by
  have hrun : ((ofSource "let x 5; - 1" none).performAll?
      [.enter, .infixOp (.name (tokenAt "let x 5; - 1" none 1) "x"), .leave,
        .setOperand .semicolon .prefixOp, .setInfixOp .integer, .expression .lowest,
        .bindingStatement]).map (fun p => (index "let x 5; - 1" none p, p.errors.size)) =
      some (3, 1) := by
    decide +kernel
  obtain ⟨p, hp, he⟩ := Option.map_eq_some_iff.1 hrun
  obtain ⟨hindex, hsize⟩ := Prod.mk.inj he
  obtain ⟨hat, -, heof, hlength, hempty, -⟩ := window_of_operations hp
  rw [hindex] at hat
  exact ⟨p, hp, hsize, hat, heof, hlength, hempty⟩

end MonkeySyntax.Parser
