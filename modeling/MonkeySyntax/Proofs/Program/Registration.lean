import MonkeySyntax.Proofs.Program.Comparison
import MonkeySyntax.Tree.Printer

/-! # Registered rules

A rule that is registered for a kind is asked for at tokens of that kind only, and an infix operator
only if it binds tighter than something. Where neither happens, a program is read as before.
-/

namespace MonkeySyntax

inductive Registration where
  | statement (kind : TokenKind) (rule : StatementRule)
  | operand (kind : TokenKind) (rule : OperandRule)
  | infixOp (kind : TokenKind)
  deriving DecidableEq, Repr

def Registration.kind : Registration → TokenKind
  | statement kind _ => kind
  | operand kind _ => kind
  | infixOp kind => kind

namespace Rules

def register (r : Rules) : Registration → Rules
  | .statement kind rule => r.setStatement kind rule
  | .operand kind rule => r.setOperand kind rule
  | .infixOp kind => r.setInfixOp kind

/-- The rules say the same wherever they are asked at one of the tokens. Whether a kind is an infix
operator is asked only if it binds tighter than the lowest precedence. -/
structure AgreeOn (ts : List Token) (r r' : Rules) : Prop where
  statement_eq : ∀ t ∈ ts, r.statement t.kind = r'.statement t.kind
  operand_eq : ∀ t ∈ ts, r.operand t.kind = r'.operand t.kind
  infixOp_eq : ∀ t ∈ ts, .lowest < t.kind.precedence → r.infixOp t.kind = r'.infixOp t.kind

variable {ts : List Token}

theorem AgreeOn.refl (ts : List Token) (r : Rules) : AgreeOn ts r r :=
  ⟨fun _ _ => rfl, fun _ _ => rfl, fun _ _ _ => rfl⟩

theorem agreeOn_register (r : Rules) {g : Registration} (h : ∀ t ∈ ts, t.kind ≠ g.kind) :
    AgreeOn ts (r.register g) r := by
  cases g with
  | statement kind rule => exact ⟨fun t ht => if_neg (h t ht), fun _ _ => rfl, fun _ _ _ => rfl⟩
  | operand kind rule => exact ⟨fun _ _ => rfl, fun t ht => if_neg (h t ht), fun _ _ _ => rfl⟩
  | infixOp kind =>
    refine ⟨fun _ _ => rfl, fun _ _ => rfl, fun t ht _ => ?_⟩
    have hk : t.kind ≠ kind := h t ht
    simp [register, setInfixOp, hk]

theorem agreeOn_setInfixOp (ts : List Token) (r : Rules) {kind : TokenKind}
    (h : kind.precedence = .lowest) : AgreeOn ts (r.setInfixOp kind) r := by
  refine ⟨fun _ _ => rfl, fun _ _ => rfl, fun t _ hlt => ?_⟩
  have hk : t.kind ≠ kind := by
    rintro hk
    rw [hk, h] at hlt
    exact absurd hlt (by decide)
  simp [setInfixOp, hk]

end Rules

namespace Parser

def withRules (r : Rules) (p : Parser) : Parser := { p with rules := r }

def register (p : Parser) (g : Registration) : Parser := p.withRules (p.rules.register g)

def forgetErrors (p : Parser) : Parser := { p with errors := #[] }

variable {p : Parser}

theorem program_eq_of_runs {ss : List Statement} {r : Parser} (h : Runs p ss r) :
    p.program.1 = ⟨ss⟩ ∧ p.program.2.errors = r.errors := by
  obtain ⟨rfl, rfl⟩ := (runs_statementsWithin (Nat.le_refl _)).unique h
  exact ⟨rfl, rfl⟩

theorem exists_comparison (p p' : Parser) (hs : p.stream = p'.stream) (hd : p.depth = p'.depth)
    (he : p'.errors = #[]) (h : p.rules.AgreeOn p.stream.toList p'.rules) :
    ∃ c : Comparison, c.Holds p p' ∧ c.earlier = p.errors.toList ∧ c.behind = [] ∧
      ∀ t t', c.same t t' → t = t' := by
  let c : Comparison := {
    same := fun t t' => t = t' ∧ t ∈ p.stream.toList
    rules := p.rules
    rules' := p'.rules
    earlier := p.errors.toList
    cut := False
    behind := []
    kind_eq := fun ht => by rw [ht.1]
    literal_eq := fun ht => by rw [ht.1]
    statement_eq := fun ht => by rw [h.statement_eq _ ht.2, ht.1]
    operand_eq := fun ht => by rw [h.operand_eq _ ht.2, ht.1]
    infixOp_eq := fun ht hlt => by rw [h.infixOp_eq _ ht.2 hlt, ht.1]
    behind_eq_nil := fun _ => rfl
    head_behind := False.elim
    semicolon_rules := False.elim }
  have hsame : ∀ t ∈ p.stream.toList, c.same t t := fun t ht => ⟨rfl, ht⟩
  refine ⟨c, ?_, rfl, rfl, fun _ _ ht => ht.1⟩
  exact {
    rules_eq := rfl
    rules_eq' := rfl
    depth_eq := hd
    errors := ⟨[], (List.append_nil _).symm, by rw [he]; exact .nil⟩
    pending := by
      refine ⟨p.stream.pending, (List.append_nil _).symm, ?_⟩
      rw [← hs]
      exact List.forall₂_same.2 fun t ht => hsame t (List.mem_append_left _ ht)
    ending := fun _ => by
      rw [← hs]
      exact hsame _ (List.mem_append_right _ (List.mem_singleton_self _))
    semicolon := False.elim }

/-- Parsers with the same tokens read the same program by rules that agree on them, and add the same
errors to those they have. -/
theorem program_of_agreeOn (p p' : Parser) (hs : p.stream = p'.stream) (hd : p.depth = p'.depth)
    (he : p'.errors = #[]) (h : p.rules.AgreeOn p.stream.toList p'.rules) :
    p.program.1 = p'.program.1 ∧
      p.program.2.errors.toList = p.errors.toList ++ p'.program.2.errors.toList := by
  obtain ⟨c, hc, hearlier, hbehind, heq⟩ := exists_comparison p p' hs hd he h
  obtain ⟨ss', r', hrun'⟩ := exists_runs p'
  obtain ⟨ss, r, hss, hl, hp, -, hruns⟩ := Comparison.exists_runs_append hrun' hc
  obtain ⟨es, hes, hes'⟩ := hl.errors
  have hrun := hruns [] r (.stop (kind_current_eq_eof_iff.2 (hp.trans hbehind)))
  rw [List.append_nil] at hrun
  obtain ⟨hprogram, herrors⟩ := program_eq_of_runs hrun
  obtain ⟨hprogram', herrors'⟩ := program_eq_of_runs hrun'
  rw [hprogram, hprogram', herrors, herrors', hes, hearlier,
    eq_map_of_forall₂ (g := id) hss fun _ _ hs => hs.eq heq,
    eq_map_of_forall₂ (g := id) hes' fun _ _ he => he.eq heq, List.map_id, List.map_id]
  exact ⟨rfl, rfl⟩

theorem program_withRules {r : Rules} (h : r.AgreeOn p.stream.toList p.rules) :
    (p.withRules r).program.1 = p.program.1 ∧
      (p.withRules r).program.2.errors = p.program.2.errors := by
  -- both are compared with the parser that has no errors yet
  obtain ⟨hprogram, herrors⟩ :=
    program_of_agreeOn (p.withRules r) p.forgetErrors rfl rfl rfl h
  obtain ⟨hprogram', herrors'⟩ :=
    program_of_agreeOn p p.forgetErrors rfl rfl rfl (.refl _ _)
  exact ⟨hprogram.trans hprogram'.symm, Array.toList_inj.1 (herrors.trans herrors'.symm)⟩

/-- The program and the errors of a parser in any state, by any rules, are the same after a
registration for a kind that none of its tokens has; the end token has a kind as well. They are the
same after any registration of an infix operator that binds no tighter than the lowest. -/
theorem program_register (p : Parser) :
    (∀ g : Registration, (∀ t ∈ p.stream.toList, t.kind ≠ g.kind) →
      (p.register g).program.1 = p.program.1 ∧
      (p.register g).program.2.errors = p.program.2.errors) ∧
    ∀ kind : TokenKind, kind.precedence = .lowest →
      (p.register (.infixOp kind)).program.1 = p.program.1 ∧
      (p.register (.infixOp kind)).program.2.errors = p.program.2.errors :=
  ⟨fun _ h => program_withRules (Rules.agreeOn_register p.rules h),
    fun _ h => program_withRules (Rules.agreeOn_setInfixOp _ p.rules h)⟩

theorem program_register_list :
    (∀ t ∈ (ofSource "-a, b; let" none).stream.toList, t.kind ≠ .openParen) ∧
      TokenKind.comma.precedence = .lowest ∧
      (((ofSource "-a, b; let" none).register (.infixOp .comma)).register
          (.operand .openParen .prefixOp)).program.1.statements.map Statement.text =
        ["(-a)", "b"] ∧
      (((ofSource "-a, b; let" none).register (.infixOp .comma)).register
          (.operand .openParen .prefixOp)).program.2.errors.map SyntaxError.message =
        #["no prefix parse function for token kind COMMA",
          "expected next token to be IDENT, got EOF instead"] := by
  have htokens : ∀ t ∈ (ofSource "-a, b; let" none).stream.toList, t.kind ≠ .openParen := by
    decide +kernel
  obtain ⟨-, hlowest⟩ := program_register (ofSource "-a, b; let" none)
  obtain ⟨hcomma, hcomma'⟩ := hlowest .comma rfl
  obtain ⟨habsent, -⟩ := program_register ((ofSource "-a, b; let" none).register (.infixOp .comma))
  obtain ⟨hparen, hparen'⟩ := habsent (.operand .openParen .prefixOp) htokens
  rw [hparen, hparen', hcomma, hcomma']
  exact ⟨htokens, rfl, by decide +kernel, by decide +kernel⟩

end Parser

end MonkeySyntax
