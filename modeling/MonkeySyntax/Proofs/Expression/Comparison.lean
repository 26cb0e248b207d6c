import MonkeySyntax.Parser.Expression
import MonkeySyntax.Proofs.Parser.Comparison

/-! # Comparing expression readers

Parsers that are compared read alike expressions. A reader that succeeds does not stop at a
semicolon, so what it looked at lies before the cut.
-/

namespace MonkeySyntax.Parser

variable {p p' : Parser} {inner inner' : ExprReader} {floor : Precedence} {left left' : Expr}

theorem continuesAbove_of_length_le (h : p.stream.pending.length ≤ 0) :
    p.continuesAbove floor = false := by
  have hp : p.stream.pending = [] := List.eq_nil_of_length_eq_zero (Nat.le_zero.1 h)
  have hk : p.peek.kind = .eof := kind_peek_eq_eof_iff.2 (by rw [hp]; rfl)
  have hf : ¬ floor < TokenKind.eof.precedence := Nat.not_lt_zero _
  simp [continuesAbove, peekPrecedence, hk, hf]

theorem climb_of_length_le (hi : ∀ floor p, Outcome p (inner floor p)) {turns turns' : Nat}
    (h : p.stream.pending.length ≤ turns) (h' : p.stream.pending.length ≤ turns') :
    p.climb inner floor turns left = p.climb inner floor turns' left := by
  induction turns generalizing p left turns' with
  | zero => cases turns' <;> simp [climb, continuesAbove_of_length_le h]
  | succ turns ih =>
    cases turns' with
    | zero => simp [climb, continuesAbove_of_length_le h']
    | succ turns' =>
      rw [climb, climb]
      split
      · have hlen := (outcome_infixOp hi left p.advance).length_le
        rw [pending_advance, List.length_tail] at hlen
        generalize p.advance.infixOp inner left = r at hlen ⊢
        obtain ⟨_ | e, q⟩ := r
        · rfl
        · simp only at hlen
          exact ih (by omega) (by omega)
      · rfl

namespace Comparison

/-- The readings give alike expressions, and leave corresponding parsers that can move on. -/
structure Agree (c : Comparison) (r r' : Option Expr × Parser) : Prop where
  result : Option.Rel (Expr.Alike c.same) r.1 r'.1
  holds : c.Holds r.2 r'.2
  clear : r'.1.isSome = true → c.Clear r'.2

variable {c : Comparison}

theorem agree_none (h : c.Holds p p') : c.Agree (none, p) (none, p') := ⟨.none, h, nofun⟩

theorem agree_name (h : c.Holds p p') (hc : c.Clear p') : c.Agree p.name p'.name where
  result := by
    unfold name
    rw [c.literal_eq h.same_current]
    exact .some (.name h.same_current)
  holds := h
  clear _ := hc

theorem agree_integer (h : c.Holds p p') (hc : c.Clear p') : c.Agree p.integer p'.integer := by
  unfold integer
  rw [c.literal_eq h.same_current]
  split
  · exact ⟨.some (.integer h.same_current), h, fun _ => hc⟩
  · exact agree_none (h.report _ h.same_current)

theorem Agree.map {r r' : Option Expr × Parser} (h : c.Agree r r') {f f' : Expr → Expr}
    (hf : ∀ {e e'}, e.Alike c.same e' → (f e).Alike c.same (f' e')) :
    c.Agree (r.1.map f, r.2) (r'.1.map f', r'.2) where
  result := by
    obtain ⟨o, q⟩ := r
    obtain ⟨o', q'⟩ := r'
    cases h.result with
    | none => exact .none
    | some he => exact .some (hf he)
  holds := h.holds
  clear hr := h.clear (by simpa using hr)

theorem continuesAbove_eq (h : c.Holds p p') (hc : c.Clear p') :
    p.continuesAbove floor = p'.continuesAbove floor := by
  have hk := h.kind_peek_eq hc
  rw [Bool.eq_iff_iff, continuesAbove, continuesAbove, decide_eq_true_iff, decide_eq_true_iff,
    peekPrecedence, peekPrecedence, hk]
  refine and_congr_right fun _ => and_congr_right fun hlt => ?_
  have hlow : Precedence.lowest < p.peek.kind.precedence := by
    rw [hk]
    exact Precedence.lowest_lt_of_lt hlt
  rw [h.rules_eq, h.rules_eq', ← hk, c.infixOp_eq (h.same_peek hc) hlow]

theorem Agree.bind {next next' : Expr → Parser → Option Expr × Parser}
    {r r' : Option Expr × Parser} :
    c.Agree r r' →
    (∀ e e' q q', e.Alike c.same e' → c.Holds q q' → c.Clear q' →
      c.Agree (next e q) (next' e' q')) →
    c.Agree (match r with | (some e, q) => next e q | (none, q) => (none, q))
      (match r' with | (some e, q) => next' e q | (none, q) => (none, q)) := by
  obtain ⟨o, q⟩ := r
  obtain ⟨o', q'⟩ := r'
  rintro ⟨hr, hq, hc⟩ hn
  cases hr with
  | none => exact agree_none hq
  | some he => exact hn _ _ _ _ he hq (hc rfl)

theorem clear_of_operand (h : c.Holds p p') {rule : OperandRule}
    (hr : p'.rules.operand p'.current.kind = some rule) : c.Clear p' := by
  intro hcut hs
  rw [h.rules_eq', hs, (c.semicolon_rules hcut).2] at hr
  cases hr

section Inner

variable (hi : ∀ floor p p', c.Holds p p' → c.Agree (inner floor p) (inner' floor p'))

include hi

theorem agree_prefixOp (h : c.Holds p p') (hc : c.Clear p') :
    c.Agree (p.prefixOp inner) (p'.prefixOp inner') := by
  unfold prefixOp
  rw [c.literal_eq h.same_current]
  exact (hi _ _ _ (h.advance hc)).map (.prefixOp h.same_current)

theorem agree_infixOp (h : c.Holds p p') (hc : c.Clear p') (hl : left.Alike c.same left') :
    c.Agree (p.infixOp inner left) (p'.infixOp inner' left') := by
  unfold infixOp currentPrecedence
  rw [c.literal_eq h.same_current, h.kind_current_eq]
  exact (hi _ _ _ (h.advance hc)).map (.infixOp h.same_current hl)

theorem agree_operand (h : c.Holds p p') : c.Agree (p.operand inner) (p'.operand inner') := by
  have hr : p.rules.operand p.current.kind = p'.rules.operand p'.current.kind := by
    rw [h.rules_eq, h.rules_eq', c.operand_eq h.same_current, h.kind_current_eq]
  unfold operand
  rw [hr]
  split
  · next hr' => exact agree_name h (clear_of_operand h hr')
  · next hr' => exact agree_integer h (clear_of_operand h hr')
  · next hr' => exact agree_prefixOp hi h (clear_of_operand h hr')
  · rw [c.literal_eq h.same_current, h.kind_current_eq]
    exact agree_none (h.report _ h.same_current)

theorem agree_climb (turns : Nat) (h : c.Holds p p') (hc : c.Clear p')
    (hl : left.Alike c.same left') :
    c.Agree (p.climb inner floor turns left) (p'.climb inner' floor turns left') := by
  induction turns generalizing p p' left left' with
  | zero => exact ⟨.some hl, h, fun _ => hc⟩
  | succ turns ih =>
    rw [climb, climb, continuesAbove_eq h hc]
    split
    · next hcont =>
      have hs : p'.peek.kind ≠ .semicolon := by
        rw [continuesAbove, decide_eq_true_iff] at hcont
        exact hcont.1
      have hop := agree_infixOp hi (h.advance hc) (fun _ => hs) hl
      exact hop.bind fun e e' q q' he hq hcl => ih hq hcl he
    · exact ⟨.some hl, h, fun _ => hc⟩

theorem agree_operandAndOperators (floor : Precedence)
    (ho : ∀ floor p, Outcome p (inner floor p))
    (ho' : ∀ floor p, Outcome p (inner' floor p)) (h : c.Holds p p') :
    c.Agree (p.operandAndOperators inner floor) (p'.operandAndOperators inner' floor) := by
  refine (agree_operand hi h).bind fun e e' q q' he hq hcl => ?_
  -- the first parser may have more tokens left, so the bounds are made equal
  rw [climb_of_length_le ho (Nat.le_refl _) (Nat.le_max_left _ q'.stream.pending.length),
    climb_of_length_le ho' (Nat.le_refl _) (Nat.le_max_right q.stream.pending.length _)]
  exact agree_climb hi _ hq hcl he

end Inner

theorem agree_expressionWithin (levels : Nat) (h : c.Holds p p') :
    c.Agree (expressionWithin levels floor p) (expressionWithin levels floor p') := by
  induction levels generalizing floor p p' with
  | zero => exact agree_none h.refuse
  | succ levels ih =>
    rw [expressionWithin, expressionWithin]
    by_cases hd : p.depth < maxDepth
    · have hd' : p'.depth < maxDepth := h.depth_eq ▸ hd
      have hq := h.setDepth (p.depth + 1)
      have ho := outcome_expressionWithin levels
      have hi : ∀ floor q q', c.Holds q q' →
          c.Agree (expressionWithin levels floor q) (expressionWithin levels floor q') :=
        fun _ _ _ hq => ih hq
      have ha := agree_operandAndOperators hi floor ho ho hq
      rw [enter_of_lt hd, enter_of_lt hd', ← h.depth_eq]
      exact ⟨ha.result, ha.holds.leave, ha.clear⟩
    · have hd' : ¬ p'.depth < maxDepth := h.depth_eq ▸ hd
      rw [enter_of_not_lt hd, enter_of_not_lt hd']
      exact agree_none h.refuse

theorem agree_expression (h : c.Holds p p') :
    c.Agree (p.expression floor) (p'.expression floor) := by
  unfold expression
  rw [h.depth_eq]
  exact agree_expressionWithin _ h

end Comparison

end MonkeySyntax.Parser
