import Mathlib.Tactic.ByContra
import MonkeySyntax.Parser.Program
import MonkeySyntax.Proofs.Parser.Window

/-! # Outcomes

Whatever the rules of a parser, none of its operations changes them or its depth, and none goes back
in the stream. A reader either gives a result and keeps the errors as they are, or gives none and
adds exactly one error.
-/

namespace MonkeySyntax.Parser

/-- The second parser is the first one further on, whatever it reported on the way. -/
structure Ahead (p q : Parser) : Prop where
  rules_eq : q.rules = p.rules
  depth_eq : q.depth = p.depth
  ending_eq : q.stream.ending = p.stream.ending
  suffix : q.stream.pending <:+ p.stream.pending

/-- The second parser is the first one further on, and nothing was reported on the way. -/
structure Quiet (p q : Parser) : Prop extends Ahead p q where
  errors_eq : q.errors = p.errors

/-- Either there is a result and no new error, or there is no result and one new error. -/
structure Outcome {α : Type} (p : Parser) (r : Option α × Parser) : Prop extends Ahead p r.2 where
  errors_eq : r.1.isSome = true → r.2.errors = p.errors
  errors_push : r.1 = none → ∃ e, r.2.errors = p.errors.push e

variable {α β : Type} {p q s : Parser} {o : Option α} {r : Option α × Parser} {inner : ExprReader}

theorem Ahead.refl (p : Parser) : Ahead p p := ⟨rfl, rfl, rfl, List.suffix_rfl⟩

theorem Ahead.trans (h : Ahead p q) (h' : Ahead q s) : Ahead p s where
  rules_eq := h'.rules_eq.trans h.rules_eq
  depth_eq := h'.depth_eq.trans h.depth_eq
  ending_eq := h'.ending_eq.trans h.ending_eq
  suffix := h'.suffix.trans h.suffix

theorem Ahead.length_le (h : Ahead p q) : q.stream.pending.length ≤ p.stream.pending.length :=
  h.suffix.length_le

theorem ahead_report (cause : SyntaxError.Cause) (position : Position) :
    Ahead p (p.report cause position) :=
  ⟨rfl, rfl, rfl, List.suffix_rfl⟩

theorem Quiet.refl (p : Parser) : Quiet p p := ⟨.refl p, rfl⟩

theorem Quiet.trans (h : Quiet p q) (h' : Quiet q s) : Quiet p s :=
  ⟨h.toAhead.trans h'.toAhead, h'.errors_eq.trans h.errors_eq⟩

theorem quiet_advance (p : Parser) : Quiet p p.advance :=
  ⟨⟨rfl, rfl, rfl, List.tail_suffix _⟩, rfl⟩

theorem quiet_skipWhile (more : Parser → Bool) (p : Parser) : Quiet p (p.skipWhile more) := by
  fun_induction skipWhile more p with
  | case1 p _ ih => exact (quiet_advance p).trans ih
  | case2 p _ => exact .refl p

theorem Quiet.outcome (h : Quiet p q) (h' : Outcome q r) : Outcome p r where
  toAhead := h.toAhead.trans h'.toAhead
  errors_eq hr := (h'.errors_eq hr).trans h.errors_eq
  errors_push hr := by
    obtain ⟨e, he⟩ := h'.errors_push hr
    exact ⟨e, by rw [he, h.errors_eq]⟩

theorem Outcome.quiet (h : Outcome p (o, q)) (h' : Quiet q s) : Outcome p (o, s) where
  toAhead := h.toAhead.trans h'.toAhead
  errors_eq hr := h'.errors_eq.trans (h.errors_eq hr)
  errors_push hr := by
    obtain ⟨e, he⟩ := h.errors_push hr
    exact ⟨e, by rw [h'.errors_eq, he]⟩

theorem Outcome.map (h : Outcome p (o, q)) (f : α → β) : Outcome p (o.map f, q) where
  toAhead := h.toAhead
  errors_eq hr := h.errors_eq (by simpa using hr)
  errors_push hr := h.errors_push (by simpa using hr)

theorem Quiet.outcome_some (h : Quiet p q) (a : α) : Outcome p (some a, q) where
  toAhead := h.toAhead
  errors_eq _ := h.errors_eq
  errors_push hr := by cases hr

/-- A report, and then no more than moves, is a failure with its one error. -/
theorem outcome_none (cause : SyntaxError.Cause) (position : Position)
    (h : Quiet (p.report cause position) q) : Outcome p ((none : Option α), q) where
  toAhead := (ahead_report cause position).trans h.toAhead
  errors_eq hr := by cases hr
  errors_push _ := ⟨⟨cause, position⟩, h.errors_eq⟩

theorem outcome_report (cause : SyntaxError.Cause) (position : Position) :
    Outcome p ((none : Option α), p.report cause position) :=
  outcome_none cause position (.refl _)

theorem outcome_refuse (p : Parser) : Outcome p ((none : Option α), p.refuse) :=
  outcome_none _ _ (quiet_skipWhile _ _)

theorem Outcome.size_errors_le (h : Outcome p r) : p.errors.size ≤ r.2.errors.size := by
  cases hr : r.1 with
  | none =>
    obtain ⟨e, he⟩ := h.errors_push hr
    simp [he]
  | some a =>
    have he : r.2.errors = p.errors := h.errors_eq (by rw [hr]; rfl)
    exact Nat.le_of_eq (congrArg Array.size he.symm)

theorem Outcome.isSome_of_size_le (h : Outcome p r) (hle : r.2.errors.size ≤ p.errors.size) :
    r.1.isSome = true := by
  by_contra hr
  obtain ⟨e, he⟩ := h.errors_push (by simpa using hr)
  rw [he, Array.size_push] at hle
  omega

/-! ### Expressions -/

theorem outcome_name (p : Parser) : Outcome p p.name := (Quiet.refl p).outcome_some _

theorem outcome_integer (p : Parser) : Outcome p p.integer := by
  unfold integer
  split
  · exact (Quiet.refl p).outcome_some _
  · exact outcome_report _ _

theorem Outcome.bind {next : Expr → Parser → Option Expr × Parser} {r : Option Expr × Parser}
    (h : Outcome p r) (hn : ∀ e q, Outcome q (next e q)) :
    Outcome p (match r with | (some e, q) => next e q | (none, q) => (none, q)) := by
  obtain ⟨_ | e, q⟩ := r
  · exact h
  · exact Quiet.outcome ⟨h.toAhead, h.errors_eq rfl⟩ (hn e q)

section Inner

variable (hi : ∀ floor p, Outcome p (inner floor p))

include hi

theorem outcome_prefixOp (p : Parser) : Outcome p (p.prefixOp inner) :=
  ((quiet_advance p).outcome (hi _ p.advance)).map _

theorem outcome_infixOp (left : Expr) (p : Parser) : Outcome p (p.infixOp inner left) :=
  ((quiet_advance p).outcome (hi _ p.advance)).map _

theorem outcome_operand (p : Parser) : Outcome p (p.operand inner) := by
  unfold operand
  split
  · exact outcome_name p
  · exact outcome_integer p
  · exact outcome_prefixOp hi p
  · exact outcome_report _ _

theorem outcome_climb (floor : Precedence) (turns : Nat) (left : Expr) (p : Parser) :
    Outcome p (p.climb inner floor turns left) := by
  induction turns generalizing left p with
  | zero => exact (Quiet.refl p).outcome_some _
  | succ turns ih =>
    rw [climb]
    split
    · exact ((quiet_advance p).outcome (outcome_infixOp hi left p.advance)).bind ih
    · exact (Quiet.refl p).outcome_some _

theorem outcome_operandAndOperators (floor : Precedence) (p : Parser) :
    Outcome p (p.operandAndOperators inner floor) :=
  (outcome_operand hi p).bind fun e q => outcome_climb hi floor q.stream.pending.length e q

end Inner

theorem Outcome.leave (h : Outcome (p.setDepth (p.depth + 1)) (o, q)) :
    Outcome p (o, q.leave) where
  rules_eq := h.rules_eq
  depth_eq := by
    have : q.depth = p.depth + 1 := h.depth_eq
    simp [leave_eq_setDepth, this]
  ending_eq := h.ending_eq
  suffix := h.suffix
  errors_eq := h.errors_eq
  errors_push := h.errors_push

theorem outcome_expressionWithin (levels : Nat) (floor : Precedence) (p : Parser) :
    Outcome p (expressionWithin levels floor p) := by
  induction levels generalizing floor p with
  | zero => exact outcome_refuse p
  | succ levels ih =>
    rw [expressionWithin]
    by_cases hd : p.depth < maxDepth
    · rw [enter_of_lt hd]
      exact (outcome_operandAndOperators ih floor _).leave
    · rw [enter_of_not_lt hd]
      exact outcome_refuse p

theorem outcome_expression (floor : Precedence) (p : Parser) : Outcome p (p.expression floor) :=
  outcome_expressionWithin _ floor p

/-! ### Statements -/

theorem outcome_bindingStatement (p : Parser) : Outcome p p.bindingStatement := by
  unfold bindingStatement
  by_cases hn : p.peek.kind = .identifier
  · rw [expect_of_eq hn]
    by_cases ha : p.advance.peek.kind = .assign
    · have hq := (quiet_advance p).trans (quiet_advance p.advance)
      simp only [expect_of_eq ha]
      exact (hq.trans (quiet_skipWhile _ _)).outcome_some _
    · simp only [expect_of_ne ha]
      exact (quiet_advance p).outcome (outcome_none _ _ (quiet_skipWhile _ _))
  · rw [expect_of_ne hn]
    exact outcome_none _ _ (quiet_skipWhile _ _)

theorem outcome_returningStatement (p : Parser) : Outcome p p.returningStatement :=
  (quiet_skipWhile _ p).outcome_some _

theorem outcome_expressionStatement (p : Parser) : Outcome p p.expressionStatement := by
  have h := (outcome_expression .lowest p).map (Statement.expression p.current)
  simp only [expressionStatement]
  split
  · exact h.quiet (quiet_advance _)
  · exact h

theorem outcome_statement (p : Parser) : Outcome p p.statement := by
  unfold statement
  split
  · exact outcome_bindingStatement p
  · exact outcome_returningStatement p
  · exact outcome_expressionStatement p
  · exact outcome_expressionStatement p

theorem outcome_of_statement_eq {o : Option Statement} (h : p.statement = (o, q)) :
    Outcome p (o, q) :=
  h ▸ outcome_statement p

end MonkeySyntax.Parser
