import MonkeySyntax.Proofs.Program.Run

/-! # Attempts at statements

The loop over a program makes one attempt at a statement after another. An attempt takes the tokens
up to the one at which the next attempt begins, and gives a statement or adds an error, never both.
-/

namespace MonkeySyntax

namespace Parser

/-- The parser behind the statement that is attempted at this one. -/
def following (p : Parser) : Parser := p.statement.2.advance

/-- The parsers at which the loop over a program attempts a statement, in order. -/
def attempts (p : Parser) : List Parser :=
  if _ : p.current.kind = .eof then [] else p :: p.following.attempts
termination_by p.stream.pending.length
decreasing_by exact length_pending_after_statement (by assumption) rfl

def taken (p : Parser) : List Token :=
  p.stream.pending.take (p.stream.pending.length - p.following.stream.pending.length)

def faults (p : Parser) : List SyntaxError := p.statement.2.errors.toList.drop p.errors.size

/-- There is no result exactly if one error was added, and a result exactly if none was. -/
def ErrorIffNone {α : Type} (p : Parser) (r : Option α × Parser) : Prop :=
  (r.1 = none ↔ ∃ e, r.2.errors = p.errors.push e) ∧ (r.1.isSome = true ↔ r.2.errors = p.errors)

variable {p q r : Parser} {s : Statement} {ss : List Statement}

theorem Outcome.errorIffNone {α : Type} {r : Option α × Parser} (h : Outcome p r) :
    ErrorIffNone p r := by
  have hne : ∀ e, p.errors.push e ≠ p.errors := by
    intro e he
    have := congrArg Array.size he
    simp at this
  constructor
  · refine ⟨h.errors_push, ?_⟩
    rintro ⟨e, he⟩
    by_contra hr
    exact hne e (he.symm.trans (h.errors_eq (Option.isSome_iff_ne_none.2 hr)))
  · refine ⟨h.errors_eq, ?_⟩
    intro he
    by_contra hr
    obtain ⟨e, he'⟩ := h.errors_push (by simpa using hr)
    exact hne e (he'.symm.trans he)

/-! ### One attempt -/

theorem ahead_following (p : Parser) : Ahead p p.following :=
  (outcome_statement p).toAhead.trans (quiet_advance _).toAhead

theorem pending_eq_taken_append (p : Parser) :
    p.stream.pending = p.taken ++ p.following.stream.pending := by
  obtain ⟨front, hf⟩ := (ahead_following p).suffix
  have hlen : p.stream.pending.length - p.following.stream.pending.length = front.length := by
    rw [← hf, List.length_append, Nat.add_sub_cancel]
  rw [taken, hlen]
  conv_rhs => rw [← hf]
  rw [List.take_left, hf]

theorem taken_ne_nil (h : p.current.kind ≠ .eof) : p.taken ≠ [] := by
  intro ht
  have hlt : p.following.stream.pending.length < p.stream.pending.length :=
    length_pending_after_statement h rfl
  rw [pending_eq_taken_append p, ht, List.nil_append] at hlt
  omega

theorem head?_taken (h : p.current.kind ≠ .eof) : p.taken.head? = some p.current := by
  obtain ⟨t, ts, ht⟩ := List.exists_cons_of_ne_nil (taken_ne_nil h)
  have hp := pending_eq_taken_append p
  rw [ht, List.cons_append] at hp
  rw [ht, List.head?_cons, current_of_pending hp]

theorem token_of_statement (h : p.statement.1 = some s) : s.token = p.current := by
  have hexpr (h : p.expressionStatement.1 = some s) : s.token = p.current := by
    obtain ⟨e, -, rfl⟩ := Option.map_eq_some_iff.1 h
    rfl
  unfold statement at h
  split at h
  · unfold bindingStatement at h
    split at h
    · cases h
    · split at h
      · cases h
      · cases h
        rfl
  · cases h
    rfl
  · exact hexpr h
  · exact hexpr h

theorem faults_of_some (h : p.statement.1.isSome = true) : p.faults = [] := by
  rw [faults, (outcome_statement p).errors_eq h]
  exact List.drop_length

theorem faults_of_push {e : SyntaxError} (h : p.statement.2.errors = p.errors.push e) :
    p.faults = [e] := by
  rw [faults, h, Array.toList_push]
  exact List.drop_left

theorem errors_statement (p : Parser) :
    p.statement.2.errors.toList = p.errors.toList ++ p.faults := by
  cases h : p.statement.1 with
  | some s =>
    have hs : p.statement.1.isSome = true := by rw [h]; rfl
    rw [faults_of_some hs, (outcome_statement p).errors_eq hs, List.append_nil]
  | none =>
    obtain ⟨e, he⟩ := (outcome_statement p).errors_push h
    rw [faults_of_push he, he, Array.toList_push]

/-- An attempt gives the statement that starts with its first token, or it adds one error. -/
theorem statement_or_fault (h : p.current.kind ≠ .eof) :
    (∃ s, p.statement.1 = some s ∧ p.faults = [] ∧ p.taken.head? = some s.token) ∨
      (p.statement.1 = none ∧ ∃ e, p.faults = [e]) := by
  cases hs : p.statement.1 with
  | some s =>
    refine .inl ⟨s, rfl, faults_of_some (by rw [hs]; rfl), ?_⟩
    rw [head?_taken h, token_of_statement hs]
  | none =>
    obtain ⟨e, he⟩ := (outcome_statement p).errors_push hs
    exact .inr ⟨rfl, e, faults_of_push he⟩

/-! ### All attempts -/

theorem attempts_of_eof (h : p.current.kind = .eof) : p.attempts = [] := by
  rw [attempts, dif_pos h]

theorem attempts_of_ne (h : p.current.kind ≠ .eof) : p.attempts = p :: p.following.attempts := by
  rw [attempts, dif_neg h]

theorem mem_attempts_self (h : p.current.kind ≠ .eof) : p ∈ p.attempts := by
  rw [attempts_of_ne h]
  exact List.mem_cons_self

theorem kind_ne_eof_of_mem_attempts (h : q ∈ p.attempts) : q.current.kind ≠ .eof := by
  fun_induction attempts p with
  | case1 p he => cases h
  | case2 p he ih =>
    rcases List.mem_cons.1 h with rfl | h
    · exact he
    · exact ih h

theorem rules_of_mem_attempts (h : q ∈ p.attempts) : q.rules = p.rules := by
  fun_induction attempts p with
  | case1 p he => cases h
  | case2 p he ih =>
    rcases List.mem_cons.1 h with rfl | h
    · rfl
    · exact (ih h).trans (outcome_statement p).rules_eq

theorem following_mem_attempts (h : q ∈ p.attempts) (he : q.following.current.kind ≠ .eof) :
    q.following ∈ p.attempts := by
  fun_induction attempts p with
  | case1 p he' => cases h
  | case2 p he' ih =>
    rcases List.mem_cons.1 h with rfl | h
    · exact List.mem_cons_of_mem _ (mem_attempts_self he)
    · exact List.mem_cons_of_mem _ (ih h)

theorem pending_eq_flatMap_taken (p : Parser) :
    p.stream.pending = p.attempts.flatMap taken := by
  fun_induction attempts p with
  | case1 p he => exact kind_current_eq_eof_iff.1 he
  | case2 p he ih =>
    conv_lhs => rw [pending_eq_taken_append p]
    rw [ih, List.flatMap_cons]

theorem Runs.statements_eq (h : Runs p ss r) : ss = p.attempts.filterMap (·.statement.1) := by
  induction h with
  | stop he => rw [attempts_of_eof he, List.filterMap_nil]
  | @step p q r o ss he hs _ ih =>
    have hq : p.following = q.advance := by rw [following, hs]
    rw [attempts_of_ne he, hq, List.filterMap_cons, ih, hs]
    cases o <;> rfl

theorem Runs.errors_eq (h : Runs p ss r) :
    r.errors.toList = p.errors.toList ++ p.attempts.flatMap faults := by
  induction h with
  | stop he => rw [attempts_of_eof he, List.flatMap_nil, List.append_nil]
  | @step p q r o ss he hs _ ih =>
    have hq : p.following = q.advance := by rw [following, hs]
    have herr := errors_statement p
    rw [hs] at herr
    rw [attempts_of_ne he, hq, List.flatMap_cons, ih, errors_advance, herr, List.append_assoc]

theorem length_statements_add_length_errors (p : Parser) :
    (p.attempts.filterMap (·.statement.1)).length + (p.attempts.flatMap faults).length =
      p.attempts.length := by
  fun_induction attempts p with
  | case1 p he => rfl
  | case2 p he ih =>
    rw [List.filterMap_cons, List.flatMap_cons, List.length_append, List.length_cons]
    rcases statement_or_fault he with ⟨s, hs, hf, -⟩ | ⟨hs, e, hf⟩
    · simp only [hs, hf, List.length_cons, List.length_nil]
      omega
    · simp only [hs, hf, List.length_cons, List.length_nil]
      omega

theorem program_eq_attempts (p : Parser) :
    p.program.1.statements = p.attempts.filterMap (·.statement.1) ∧
      p.program.2.errors.toList = p.errors.toList ++ p.attempts.flatMap faults := by
  have h := runs_statementsWithin (Nat.le_refl p.stream.pending.length)
  exact ⟨h.statements_eq, h.errors_eq⟩

theorem parse_eq_attempts (source : String) (file : Option String) :
    (parse source file).1.statements =
        (ofSource source file).attempts.filterMap (·.statement.1) ∧
      (parse source file).2 = (ofSource source file).attempts.flatMap faults :=
  program_eq_attempts (ofSource source file)

/-- Every reader either gives a result and adds no error, or gives none and adds one, whatever the
rules. So the tokens of a source fall into the tokens of the attempts at its statements, and each
attempt has its statement in the program or its error among the errors. -/
theorem statement_or_error :
    (∀ p : Parser,
      ErrorIffNone p p.statement ∧ (∀ floor, ErrorIffNone p (p.expression floor)) ∧
      ErrorIffNone p p.bindingStatement ∧ ErrorIffNone p p.returningStatement ∧
      ErrorIffNone p p.expressionStatement ∧ ErrorIffNone p p.name ∧ ErrorIffNone p p.integer ∧
      ErrorIffNone p (p.prefixOp expression) ∧
      ∀ left, ErrorIffNone p (p.infixOp expression left)) ∧
    (∀ p : Parser,
      p.stream.pending = p.attempts.flatMap taken ∧
      (∀ q ∈ p.attempts, q.taken ≠ [] ∧
        ((∃ s, q.statement.1 = some s ∧ q.faults = [] ∧ q.taken.head? = some s.token) ∨
          (q.statement.1 = none ∧ ∃ e, q.faults = [e]))) ∧
      p.program.1.statements = p.attempts.filterMap (·.statement.1) ∧
      p.program.2.errors.toList = p.errors.toList ++ p.attempts.flatMap faults) ∧
    ∀ (source : String) (file : Option String),
      (tokenize source file).dropLast = (ofSource source file).attempts.flatMap taken ∧
      (parse source file).1.statements =
        (ofSource source file).attempts.filterMap (·.statement.1) ∧
      (parse source file).2 = (ofSource source file).attempts.flatMap faults ∧
      (parse source file).1.statements.length + (parse source file).2.length =
        (ofSource source file).attempts.length := by
  refine ⟨?_, ?_, ?_⟩
  · intro p
    refine ⟨(outcome_statement p).errorIffNone,
      fun floor => (outcome_expression floor p).errorIffNone,
      (outcome_bindingStatement p).errorIffNone, (outcome_returningStatement p).errorIffNone,
      (outcome_expressionStatement p).errorIffNone, (outcome_name p).errorIffNone,
      (outcome_integer p).errorIffNone, (outcome_prefixOp outcome_expression p).errorIffNone, ?_⟩
    intro left
    exact (outcome_infixOp outcome_expression left p).errorIffNone
  · intro p
    refine ⟨pending_eq_flatMap_taken p, ?_, program_eq_attempts p⟩
    intro q hq
    have hk := kind_ne_eof_of_mem_attempts hq
    exact ⟨taken_ne_nil hk, statement_or_fault hk⟩
  · intro source file
    obtain ⟨hs, he⟩ := parse_eq_attempts source file
    refine ⟨?_, hs, he, ?_⟩
    · rw [dropLast_tokenize]
      exact pending_eq_flatMap_taken (ofSource source file)
    · rw [hs, he]
      exact length_statements_add_length_errors _

theorem statement_or_error_binding :
    (ofSource "let = 3; x" none).taken ≠ [] ∧
      (∃ e, (ofSource "let = 3; x" none).faults = [e]) ∧
      (ofSource "let = 3; x" none).attempts.length = 2 := by
  have hk : (ofSource "let = 3; x" none).current.kind ≠ .eof := by decide +kernel
  have hs : (ofSource "let = 3; x" none).statement.1 = none := by decide +kernel
  obtain ⟨-, hall, hsource⟩ := statement_or_error
  obtain ⟨-, hone, -, -⟩ := hall (ofSource "let = 3; x" none)
  obtain ⟨-, -, -, hcount⟩ := hsource "let = 3; x" none
  obtain ⟨ht, h⟩ := hone _ (mem_attempts_self hk)
  refine ⟨ht, ?_, ?_⟩
  · rcases h with ⟨s, hs', -, -⟩ | ⟨-, he⟩
    · rw [hs] at hs'
      cases hs'
    · exact he
  · rw [← hcount]
    decide +kernel

end Parser

end MonkeySyntax
