import MonkeySyntax.Proofs.Expression.Break
import MonkeySyntax.Proofs.Program.Height
import MonkeySyntax.Proofs.Program.Layout
import MonkeySyntax.Proofs.Tree.Spelling

/-! # Printing without parentheses

Parentheses are no part of the language: printed without them, a tree that was read is read again.
The blanks around infix operators keep the tokens apart, and precedence restores the groups.
-/

namespace MonkeySyntax

/-- A tree that the parser reads from some source. -/
structure Expr.Readable (e : Expr) : Prop where
  written : e.Written
  shaped : e.Shaped
  need_le : e.need ≤ Parser.maxDepth
  spelled_tokens : ∀ t ∈ e.tokens, t.Spelled

variable {e : Expr} {t : Token} {ts rest : List Token} {source : String} {file : Option String}

theorem Expr.Readable.spelled (h : e.Readable) : e.Spelled :=
  spelled_of_written h.written h.spelled_tokens

theorem Segment.of_expression (h : Segment ts (.expression t e) rest) :
    (e.Written ∧ e.Shaped ∧ e.need ≤ Parser.maxDepth) ∧ t = e.first.token ∧
      ∃ stop, ts = e.tokens ++ stop ∧
        (stop.map Token.kind = [] ∨ stop.map Token.kind = [.semicolon]) := by
  cases h with
  | @expression t ts stop rest e hc he hn hs =>
    obtain ⟨hw, hsh, het⟩ := he
    refine ⟨⟨hw, hsh, hn⟩, (Expr.token_first het).symm, stop, by rw [het], ?_⟩
    rcases hs with ⟨x, hx, rfl⟩ | ⟨rfl, -⟩
    · exact .inr (by simp [hx])
    · exact .inl rfl

theorem Expr.Written.inExpression (h : e.Written) :
    ∀ t ∈ e.tokens, Rules.standard.inExpression t.kind = true := by
  induction e with
  | name t value =>
    exact List.forall_mem_singleton.2
      (Rules.inExpression_of_operand (TokenKind.standard_operand_eq_name_iff.2 h.1))
  | integer t value =>
    exact List.forall_mem_singleton.2
      (Rules.inExpression_of_operand (TokenKind.standard_operand_eq_integer_iff.2 h.1))
  | prefixOp t operator r ih =>
    have ht := TokenKind.standard_operand_eq_prefixOp_iff.2 h.1
    exact List.forall_mem_cons.2 ⟨Rules.inExpression_of_operand ht, ih h.2.2⟩
  | infixOp t operator l r ihl ihr =>
    have ht : Rules.standard.inExpression t.kind = true := by
      simp [Rules.inExpression, TokenKind.standard_infixOp, h.1]
    exact List.forall_mem_append.2 ⟨ihl h.2.2.1, List.forall_mem_cons.2 ⟨ht, ihr h.2.2.2⟩⟩

def Expr.statement (e : Expr) : Statement := .expression e.first.token e

theorem Expr.first_mapTokens (f : Token → Token) (e : Expr) :
    (e.mapTokens f).first = e.first.mapTokens f := by
  induction e with
  | infixOp t operator l r ihl _ => exact ihl
  | _ => rfl

theorem Expr.statement_mapTokens (f : Token → Token) (e : Expr) :
    e.statement.mapTokens f = (e.mapTokens f).statement := by
  rw [statement, statement, first_mapTokens]
  cases e.first <;> rfl

/-! ### Trees of a program -/

namespace Parser

variable {p q : Parser} {s : Statement}

theorem segment_taken (hr : p.rules = .standard) (h : p.statement.1 = some s) :
    Segment p.taken s p.following.stream.pending := by
  obtain ⟨ts, hp, hseg⟩ := segment_of_statement hr (Prod.ext h rfl)
  have hts : ts ++ p.following.stream.pending = p.taken ++ p.following.stream.pending :=
    hp.symm.trans (pending_eq_taken_append p)
  rwa [← List.append_cancel_right hts]

theorem mem_tokenize_of_mem_taken (hq : q ∈ (ofSource source file).attempts) (ht : t ∈ q.taken) :
    t ∈ (tokenize source file).dropLast := by
  have hp : (TokenStream.ofSource source file).pending = _ :=
    pending_eq_flatMap_taken (ofSource source file)
  rw [dropLast_tokenize, hp]
  exact List.mem_flatMap.2 ⟨q, hq, ht⟩

theorem readable_of_attempt (hq : q ∈ (ofSource source file).attempts)
    (h : q.statement.1 = some (.expression t e)) :
    e.Readable ∧ t = e.first.token ∧ ∃ stop, q.taken = e.tokens ++ stop ∧
      (stop.map Token.kind = [] ∨ stop.map Token.kind = [.semicolon]) := by
  have hr : q.rules = .standard := rules_of_mem_attempts hq
  obtain ⟨⟨hw, hs, hn⟩, ht, stop, htaken, hstop⟩ := (segment_taken hr h).of_expression
  refine ⟨⟨hw, hs, hn, ?_⟩, ht, stop, htaken, hstop⟩
  intro u hu
  have hmem : u ∈ q.taken := by
    rw [htaken]
    exact List.mem_append_left _ hu
  have hne : u.kind ≠ .illegal := by
    intro hk
    have hin := hw.inExpression u hu
    rw [hk] at hin
    cases hin
  exact spelled_of_mem_tokenize (mem_tokenize_of_mem_taken hq hmem) hne

theorem readable_of_mem_parse (h : .expression t e ∈ (parse source file).1.statements) :
    e.Readable ∧ t = e.first.token := by
  rw [(parse_eq_attempts source file).1] at h
  obtain ⟨q, hq, hs⟩ := List.mem_filterMap.1 h
  obtain ⟨he, ht, -⟩ := readable_of_attempt hq hs
  exact ⟨he, ht⟩

end Parser

/-! ### Reading the text without parentheses -/

theorem Expr.Readable.map_bare_tokenize (h : e.Readable) (file : Option String) :
    (tokenize (unparenthesized e.text) file).dropLast.map Token.bare =
      e.tokens.map Token.bare := by
  apply map_bare_of_map_entry
  rw [map_entry_tokenize, toList_unparenthesized_text h.spelled,
    entries_plain h.written h.spelled_tokens]

theorem Expr.Readable.parse_unparenthesized (h : e.Readable) (file : Option String) :
    (parse (unparenthesized e.text) file).1.bare = ⟨[e.statement.mapTokens Token.bare]⟩ ∧
      (parse (unparenthesized e.text) file).2 = [] := by
  have htokens := h.map_bare_tokenize file
  rw [← List.append_nil e.tokens] at htokens
  obtain ⟨t', e', hp, he⟩ := exists_parse_eq h.written h.shaped h.need_le (.inl rfl) htokens
  have hmem : .expression t' e' ∈ (parse (unparenthesized e.text) file).1.statements := by
    rw [hp]
    exact List.mem_singleton_self _
  obtain ⟨-, rfl⟩ := Parser.readable_of_mem_parse hmem
  have hs : e'.statement.mapTokens Token.bare = e.statement.mapTokens Token.bare := by
    rw [statement_mapTokens, statement_mapTokens]
    exact congrArg statement he
  rw [hp]
  exact ⟨congrArg (fun s => Program.mk [s]) hs, rfl⟩

/-- Every expression that is a statement of a program has the tokens of its attempt, but for a
semicolon at the end. Its text without parentheses is read as these tokens, and as one statement
that is the same apart from spans. -/
theorem parse_of_unparenthesized (source : String) (file file' : Option String) :
    (tokenize source file).dropLast =
        (Parser.ofSource source file).attempts.flatMap Parser.taken ∧
      (parse source file).1.statements =
        (Parser.ofSource source file).attempts.filterMap (·.statement.1) ∧
      ∀ q ∈ (Parser.ofSource source file).attempts, ∀ t e,
        q.statement.1 = some (.expression t e) →
        (∃ stop, q.taken = e.tokens ++ stop ∧
          (stop.map Token.kind = [] ∨ stop.map Token.kind = [.semicolon])) ∧
        (tokenize (unparenthesized (Statement.expression t e).text) file').dropLast.map
          Token.bare = e.tokens.map Token.bare ∧
        (parse (unparenthesized (Statement.expression t e).text) file').1.bare =
          ⟨[(Statement.expression t e).mapTokens Token.bare]⟩ ∧
        (parse (unparenthesized (Statement.expression t e).text) file').2 = [] := by
  refine ⟨?_, (Parser.parse_eq_attempts source file).1, ?_⟩
  · rw [dropLast_tokenize]
    exact Parser.pending_eq_flatMap_taken (.ofSource source file)
  · intro q hq t e h
    obtain ⟨he, rfl, htaken⟩ := Parser.readable_of_attempt hq h
    obtain ⟨hbare, herrors⟩ := he.parse_unparenthesized file'
    exact ⟨htaken, he.map_bare_tokenize file', hbare, herrors⟩

theorem parse_of_unparenthesized_signs :
    ∃ t e, (Parser.ofSource "!-!x==2;" none).statement.1 = some (.expression t e) ∧
      e.text = "((!(-(!x))) == 2)" ∧
      (∃ stop, (Parser.ofSource "!-!x==2;" none).taken = e.tokens ++ stop ∧
        (stop.map Token.kind = [] ∨ stop.map Token.kind = [.semicolon])) ∧
      (tokenize "!-!x == 2" none).dropLast.map Token.bare = e.tokens.map Token.bare ∧
      (parse "!-!x == 2" none).1.bare = ⟨[(Statement.expression t e).mapTokens Token.bare]⟩ ∧
      (parse "!-!x == 2" none).2 = [] := by
  let t := Token.atOffset "shell" 0 .bang ['!']
  let e := Expr.infixOp (.atOffset "shell" 4 .equal ['=', '=']) "=="
    (.prefixOp t "!" (.prefixOp (.atOffset "shell" 1 .minus ['-']) "-"
      (.prefixOp (.atOffset "shell" 2 .bang ['!']) "!"
        (.name (.atOffset "shell" 3 .identifier ['x']) "x"))))
    (.integer (.atOffset "shell" 6 .integer ['2']) 2)
  have hk : (Parser.ofSource "!-!x==2;" none).current.kind ≠ .eof := by decide +kernel
  have hs : (Parser.ofSource "!-!x==2;" none).statement.1 = some (.expression t e) := by
    decide +kernel
  have hplain : unparenthesized (Statement.expression t e).text = "!-!x == 2" := by
    decide +kernel
  obtain ⟨-, -, hall⟩ := parse_of_unparenthesized "!-!x==2;" none none
  have h := hall _ (Parser.mem_attempts_self hk) t e hs
  rw [hplain] at h
  exact ⟨t, e, hs, by decide +kernel, h⟩

end MonkeySyntax
