import MonkeySyntax.Proofs.Expression.Refusal
import MonkeySyntax.Proofs.Program.Machine

/-! # Depth

An action changes the depth of a parser only where an expression is entered or left, and what was
entered is left again. So a call ends at the depth at which it began, and between the two the depth
tells how many expressions are open.
-/

namespace MonkeySyntax

def Task.isLeave : Task → Bool
  | .leave => true
  | _ => false

namespace Machine

open MonkeySyntax.Parser

/-- The number of expressions that were entered and not left yet. -/
def entered (m : Machine) : Nat := m.tasks.countP Task.isLeave

/-- The parser is as many levels below a depth as expressions were entered, and not too deep. -/
structure Balanced (d : Nat) (m : Machine) : Prop where
  depth_eq : m.parser.depth = d + m.entered
  depth_le : m.parser.depth ≤ maxDepth

variable {d : Nat} {m m' : Machine} {t : Task} {ts : List Task} {p q : Parser} {o : Operation}
  {os : List Operation}

/-! ### One action -/

theorem entered_leave (b : Bool) (c : Nat) (p : Parser) :
    entered ⟨.leave :: ts, b, c, p⟩ = entered ⟨ts, b, c, p⟩ + 1 :=
  List.countP_cons_of_pos rfl

theorem depth_expect (kind : TokenKind) (p : Parser) : (p.expect kind).2.depth = p.depth := by
  by_cases h : p.peek.kind = kind
  · rw [expect_of_eq h]
    rfl
  · rw [expect_of_ne h]
    rfl

/-- An action enters an expression, or leaves one, or keeps both the depth and the expressions that
were entered. -/
theorem step_depth (m : Machine) :
    (m.parser.depth < maxDepth ∧ m.step.parser.depth = m.parser.depth + 1 ∧
        m.step.entered = m.entered + 1) ∨
      (m.step.parser.depth = m.parser.depth - 1 ∧ m.entered = m.step.entered + 1) ∨
      (m.step.parser.depth = m.parser.depth ∧ m.step.entered = m.entered) := by
  obtain ⟨_ | ⟨t, ts⟩, b, c, p⟩ := m
  · exact .inr (.inr ⟨rfl, rfl⟩)
  cases t with
  | expression floor =>
    rw [step]
    split
    · next h => exact .inl ⟨h, rfl, entered_leave b c (p.setDepth (p.depth + 1))⟩
    · exact .inr (.inr ⟨rfl, rfl⟩)
  | leave => exact .inr (.inl ⟨rfl, entered_leave b c p⟩)
  | operandBy rule =>
    cases rule with
    | integer => exact .inr (.inr ⟨(outcome_integer p).depth_eq, rfl⟩)
    | name | prefixOp => exact .inr (.inr ⟨rfl, rfl⟩)
  | statementBy rule =>
    cases rule with
    | binding =>
      have hd := depth_expect .identifier p
      rw [step]
      split
      all_goals
        next h => exact .inr (.inr ⟨by rwa [h] at hd, rfl⟩)
    | returning | expression => exact .inr (.inr ⟨rfl, rfl⟩)
  | assign =>
    have hd := depth_expect .assign p
    rw [step]
    split
    all_goals
      next h => exact .inr (.inr ⟨by rwa [h] at hd, rfl⟩)
  | semicolon =>
    refine .inr (.inr ⟨?_, rfl⟩)
    rw [step]
    dsimp only
    split <;> rfl
  -- what is left puts no `leave` on the stack and takes none from it
  | operand | operators floor | statements | skip more =>
    rw [step]
    split <;> exact .inr (.inr ⟨rfl, rfl⟩)
  | infixOp | statement | program | next | ending => exact .inr (.inr ⟨rfl, rfl⟩)

/-! ### Calls -/

theorem Balanced.step (h : Balanced d m) : Balanced d m.step := by
  obtain ⟨heq, hle⟩ := h
  rcases step_depth m with ⟨hlt, hdepth, hentered⟩ | ⟨hdepth, hentered⟩ | ⟨hdepth, hentered⟩
  · exact ⟨by omega, by omega⟩
  · exact ⟨by omega, by omega⟩
  · exact ⟨by omega, by omega⟩

theorem Balanced.becomes (h : Balanced d m) (hm : Becomes m m') : Balanced d m' := by
  obtain ⟨n, rfl⟩ := hm
  induction n with
  | zero => exact h
  | succ n ih =>
    rw [Function.iterate_succ_apply']
    exact ih.step

theorem balanced_start (ht : o.task? = some t) (hd : p.depth ≤ maxDepth) :
    Balanced p.depth (start t p) := by
  have hleave : t.isLeave = false := by
    cases o <;> cases ht <;> rfl
  refine ⟨?_, hd⟩
  rw [entered, start, List.countP_singleton, hleave]
  rfl

theorem Balanced.lt_of_leave (h : Balanced d m) (ht : m.tasks = .leave :: ts) :
    d < m.parser.depth := by
  have hpos : 0 < m.entered := by
    rw [entered, ht]
    exact List.countP_pos_iff.2 ⟨.leave, List.mem_cons_self, rfl⟩
  have heq := h.depth_eq
  omega

/-- A call of a reader ends, at the depth at which it began. -/
theorem exists_perform?_of_task? (ht : o.task? = some t) (hd : p.depth ≤ maxDepth) :
    ∃ q b c, p.perform? o = some q ∧ Becomes (start t p) ⟨[], b, c, q⟩ ∧ q.depth = p.depth := by
  obtain ⟨q, hq⟩ : ∃ q, p.perform? o = some q := by
    cases o <;> cases ht <;> exact ⟨_, rfl⟩
  obtain ⟨b, c, hdone⟩ := becomes_of_perform? ht hq
  exact ⟨q, b, c, hq, hdone, ((balanced_start ht hd).becomes hdone).depth_eq⟩

/-! ### Entering -/

theorem enter_eq_false_iff : p.enter.1 = false ↔ maxDepth ≤ p.depth := by
  by_cases h : p.depth < maxDepth
  · rw [enter_of_lt h]
    simpa using h
  · rw [enter_of_not_lt h]
    simpa using h

theorem becomes_of_refused {floor : Precedence} (ht : m.tasks = .expression floor :: ts)
    (h : m.parser.enter.1 = false) : Becomes m ⟨ts, false, m.count, m.parser.enter.2⟩ := by
  obtain ⟨tasks, b, c, p⟩ := m
  cases ht
  have hd : ¬ p.depth < maxDepth := Nat.not_lt.2 (enter_eq_false_iff.1 h)
  obtain ⟨n, hn⟩ := exists_skipTakes (fun _ => pending_ne_nil_of_inBroken)
    (p.report (.tooDeep maxDepth) p.current.start)
  rw [enter_of_not_lt hd]
  exact .step (step_expression_of_not_lt hd) hn.becomes

/-! ### Operations one after another -/

theorem depth_le_of_perform? (h : p.perform? o = some q) (hd : p.depth ≤ maxDepth) :
    q.depth ≤ maxDepth := by
  cases ht : o.task? with
  | some t =>
    obtain ⟨r, -, -, hr, -, hdepth⟩ := exists_perform?_of_task? ht hd
    cases h.symm.trans hr
    exact hdepth ▸ hd
  | none =>
    cases o with
    | enter =>
      cases h
      by_cases hlt : p.depth < maxDepth
      · rw [enter_of_lt hlt]
        exact hlt
      · rw [enter_of_not_lt hlt, depth_refuse]
        exact hd
    | leave =>
      rw [perform?] at h
      split at h
      · cases h
        exact Nat.le_trans (Nat.sub_le _ _) hd
      · cases h
    | expect kind =>
      cases h
      rwa [depth_expect]
    | synchronize =>
      cases h
      exact Nat.le_trans (Nat.le_of_eq (quiet_skipWhile _ p).depth_eq) hd
    | advance | report | setStatement | setOperand | setInfixOp =>
      cases h
      exact hd
    | _ => cases ht

theorem depth_le_of_performAll? (h : p.performAll? os = some q) (hd : p.depth ≤ maxDepth) :
    q.depth ≤ maxDepth := by
  induction os generalizing p with
  | nil =>
    cases h
    exact hd
  | cons o os ih =>
    rw [performAll?, List.foldlM_cons] at h
    obtain ⟨p', ho, hos⟩ := Option.bind_eq_some_iff.1 h
    exact ih hos (depth_le_of_perform? ho hd)

/-- Whatever operations were performed, no expression is deeper than the limit. A call of a reader
ends at the depth at which it began. All the while it is as many levels below as it has entered
expressions, it leaves none that it has not entered, and what it is refused is refused with one
error and at the depth that there is. -/
theorem depth_of_operations (hp : p.depth ≤ maxDepth) (h : p.performAll? os = some q) :
    q.depth ≤ maxDepth ∧
    (∀ o t, o.task? = some t → ∃ r b c, q.perform? o = some r ∧ r.depth = q.depth ∧
      Becomes (start t q) ⟨[], b, c, r⟩ ∧
      ∀ m, Becomes (start t q) m →
        q.depth ≤ m.parser.depth ∧ m.parser.depth ≤ maxDepth ∧
        m.parser.depth = q.depth + m.entered ∧ m.entered ≤ maxDepth - q.depth ∧
        (∀ ts, m.tasks = .leave :: ts → q.depth < m.parser.depth) ∧
        (∀ floor ts, m.tasks = .expression floor :: ts → m.parser.enter.1 = false →
          Becomes m ⟨ts, false, m.count, m.parser.enter.2⟩)) ∧
    ∀ r : Parser, r.enter.1 = false → r.enter.2.depth = r.depth ∧
      r.enter.2.errors = r.errors.push ⟨.tooDeep 256, r.current.start⟩ := by
  have hq := depth_le_of_performAll? h hp
  refine ⟨hq, ?_, ?_⟩
  · intro o t ht
    obtain ⟨r, b, c, hr, hdone, hdepth⟩ := exists_perform?_of_task? ht hq
    refine ⟨r, b, c, hr, hdepth, hdone, ?_⟩
    intro m hm
    have hb := (balanced_start ht hq).becomes hm
    have heq := hb.depth_eq
    have hle := hb.depth_le
    refine ⟨by omega, hle, heq, by omega, ?_, ?_⟩
    · intro ts hts
      exact hb.lt_of_leave hts
    · intro floor ts hts hfalse
      exact becomes_of_refused hts hfalse
  · intro r hr
    rw [enter_of_not_lt (Nat.not_lt.2 (enter_eq_false_iff.1 hr))]
    exact ⟨depth_refuse r, errors_refuse r⟩

theorem depth_of_operations_refused :
    ∃ q r m, ((ofSource "-a" none).setDepth 255).performAll? [.enter, .leave, .enter, .leave] =
        some q ∧
      q.perform? (.expression .lowest) = some r ∧ r.depth = q.depth ∧ q.depth = 255 ∧
      Becomes (start (.expression .lowest) q) m ∧ m.parser.depth = 255 + m.entered ∧
      m.entered = 1 ∧ m.parser.enter.1 = false ∧ m.parser.enter.2.depth = m.parser.depth ∧
      m.parser.enter.2.errors = m.parser.errors.push ⟨.tooDeep 256, ⟨1, "shell"⟩⟩ ∧
      Becomes m ⟨[.operators .lowest, .leave], false, 0, m.parser.enter.2⟩ := by
  have hq : ((ofSource "-a" none).setDepth 255).performAll? [.enter, .leave, .enter, .leave] =
      some ((ofSource "-a" none).setDepth 255) := rfl
  obtain ⟨-, hcalls, hrefused⟩ := depth_of_operations (by decide) hq
  obtain ⟨r, b, c, hr, hdepth, -, hmoment⟩ := hcalls (.expression .lowest) _ rfl
  let m : Machine := ⟨.expression .unary :: [.operators .lowest, .leave], true, 0,
    ((ofSource "-a" none).setDepth 256).advance⟩
  have hm : Becomes (start (.expression .lowest) ((ofSource "-a" none).setDepth 255)) m := by
    have hk : (ofSource "-a" none).rules.operand (ofSource "-a" none).current.kind =
        some .prefixOp := by
      decide +kernel
    exact .step (step_expression (by decide)) (.step (step_operand hk) (.single rfl))
  have hfalse : m.parser.enter.1 = false := by decide +kernel
  obtain ⟨-, -, heq, -, -, hskip⟩ := hmoment m hm
  have hstart : m.parser.current.start = ⟨1, "shell"⟩ := by decide +kernel
  obtain ⟨hkept, herrors⟩ := hrefused m.parser hfalse
  rw [hstart] at herrors
  exact ⟨_, r, m, rfl, hr, hdepth, rfl, hm, heq, rfl, hfalse, hkept, herrors,
    hskip _ _ rfl hfalse⟩

end Machine

end MonkeySyntax
