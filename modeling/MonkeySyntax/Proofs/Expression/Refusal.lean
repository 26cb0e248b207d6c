import MonkeySyntax.Proofs.Expression.Reading
import MonkeySyntax.Proofs.Parser.Outcome
import MonkeySyntax.Proofs.Tree.Level

/-! # Refused expressions

Where the levels run out inside a tree, the parser has moved on to the first token of the subtree
that is too deep. It refuses to read on there, and no reader further out does anything more.
-/

namespace MonkeySyntax.Parser

/-- An inner reader that breaks off in every tree that needs more than `n` levels, at the first
subtree that is too deep. -/
def Refuses (depth n : Nat) (inner : ExprReader) : Prop :=
  ∀ (floor : Precedence) (p : Parser) (e : Expr) (rest : List Token) (index : Nat),
    p.rules = .standard → p.depth = depth → e.Written → e.Shaped → e.Above floor →
    p.stream.pending = e.tokens ++ rest → e.refusedAt n = some index →
    inner floor p = (none, (advance^[index] p).refuse)

variable {p q : Parser} {e l r : Expr} {t : Token} {rest : List Token} {floor : Precedence}
  {depth n index : Nat} {inner : ExprReader}

/-! ### Depth and errors -/

theorem skipWhile_setDepth {more : Parser → Bool} (h : ∀ d q, more (q.setDepth d) = more q)
    (d : Nat) (p : Parser) : (p.setDepth d).skipWhile more = (p.skipWhile more).setDepth d := by
  fun_induction skipWhile more p with
  | case1 p hp ih =>
    rw [skipWhile, if_pos (by rwa [h])]
    exact ih
  | case2 p hp => rw [skipWhile, if_neg (by rwa [h])]

theorem refuse_setDepth (d : Nat) (p : Parser) : (p.setDepth d).refuse = p.refuse.setDepth d :=
  skipWhile_setDepth (fun _ _ => rfl) d (p.report (.tooDeep maxDepth) p.current.start)

theorem depth_refuse (p : Parser) : p.refuse.depth = p.depth :=
  (outcome_refuse (α := Expr) p).depth_eq

theorem errors_refuse (p : Parser) :
    p.refuse.errors = p.errors.push ⟨.tooDeep maxDepth, p.current.start⟩ :=
  (quiet_skipWhile _ (p.report _ _)).errors_eq

/-! ### Expressions -/

section Inner

variable (hn : Refuses depth n inner)

include hn

theorem climb_of_refused {turns : Nat} {o : String} (h : Spans p l q)
    (hr : p.rules = .standard) (hd : p.depth = depth)
    (hw : (Expr.infixOp t o l r).Written) (hs : (Expr.infixOp t o l r).Shaped)
    (hp : q.stream.pending.tail = t :: (r.tokens ++ rest)) (ht : floor < t.kind.precedence)
    (hturns : q.stream.pending.length ≤ turns) (hrefused : r.refusedAt n = some index) :
    q.climb inner floor turns l = (none, (advance^[l.tokens.length + 1 + index] p).refuse) := by
  have hlen := congrArg List.length hp
  rw [List.length_tail, List.length_cons] at hlen
  obtain ⟨turns, rfl⟩ : ∃ m, turns = m + 1 := ⟨turns - 1, by omega⟩
  have hpeek : q.peek = t := peek_of_pending hp
  have hfloor : floor < q.peekPrecedence := by rwa [peekPrecedence, hpeek]
  have hright : inner t.kind.precedence q.advance.advance =
      (none, (advance^[index] q.advance.advance).refuse) := by
    have hpending : q.advance.advance.stream.pending = r.tokens ++ rest := by
      rw [pending_advance, pending_advance, hp, List.tail_cons]
    exact hn _ _ r rest index (h.rules_eq.trans hr) (h.depth_eq.trans hd) hw.2.2.2 hs.2.2.2 hs.2.1
      hpending hrefused
  have hmoved : advance^[index] q.advance.advance = advance^[l.tokens.length + 1 + index] p := by
    have hpos := l.length_tokens_pos
    rw [h.moved, ← Function.iterate_succ_apply' advance, ← Function.iterate_succ_apply' advance,
      ← Function.iterate_add_apply]
    congr 1
    omega
  have hop : q.advance.infixOp inner l = (none, (advance^[index] q.advance.advance).refuse) := by
    have hprecedence : q.advance.currentPrecedence = t.kind.precedence := by
      rw [currentPrecedence, current_advance, hpeek]
    rw [infixOp, hprecedence, hright]
    rfl
  rw [climb, if_pos ((continuesAbove_iff (h.rules_eq.trans hr)).2 hfloor), hop, hmoved]

theorem operandAndOperators_of_refused (hi : Exact depth n inner)
    (hr : p.rules = .standard) (hd : p.depth = depth)
    (hw : e.Written) (hs : e.Shaped) (ha : e.Above floor)
    (hp : p.stream.pending = e.tokens ++ rest) (hrefused : e.refusedAt (n + 1) = some index) :
    p.operandAndOperators inner floor = (none, (advance^[index] p).refuse) := by
  induction e generalizing rest index with
  | name t value => cases hrefused
  | integer t value => cases hrefused
  | prefixOp t o r _ =>
    obtain ⟨i, hi', rfl⟩ := Option.map_eq_some_iff.1 hrefused
    have hc : p.current = t := current_of_pending hp
    have hinner : inner .unary p.advance = (none, (advance^[i] p.advance).refuse) := by
      have hpending : p.advance.stream.pending = r.tokens ++ rest := by
        rw [pending_advance, hp]
        rfl
      exact hn _ _ r rest i hr hd hw.2.2 hs.2 (Expr.above_of_root?_eq_none hs.1) hpending hi'
    have hoperand : p.operand inner = (none, (advance^[i + 1] p).refuse) := by
      rw [operand, hr, hc, TokenKind.standard_operand_eq_prefixOp_iff.2 hw.1]
      simp only [prefixOp, hinner, Option.map_none]
      rfl
    rw [operandAndOperators, hoperand]
  | infixOp t o l r ihl _ =>
    have ht : floor < t.kind.precedence := ha _ rfl
    rw [Expr.tokens, List.append_assoc, List.cons_append] at hp
    rcases Option.or_eq_some_iff.1 hrefused with hleft | ⟨hleft, hright⟩
    · exact ihl hw.2.2.1 hs.2.2.1 (hs.1.above ht) hp hleft
    · -- the left operand is read, so the loop comes to its operator
      obtain ⟨i, hi', rfl⟩ := Option.map_eq_some_iff.1 hright
      obtain ⟨hspans, htail⟩ := spans_of_prefix hw.2.2.1 hs.2.2.1 hp
      have hpeek := peek_of_pending htail
      have hheld : Held floor n p l (advance^[l.tokens.length - 1] p) := by
        refine ⟨hspans, hs.1.above ht, ?_, Expr.refusedAt_eq_none_iff.1 hleft⟩
        rw [peekPrecedence, hpeek]
        exact hs.1
      obtain ⟨turns, hturns, hclimb⟩ := climb_of_held hi hheld hr hd
      rw [hclimb]
      exact climb_of_refused hn hspans hr hd hw hs htail ht hturns hi'

end Inner

/-- With some levels left, an expression that needs more is refused at the first subtree that is
too deep. -/
theorem refuses_expressionWithin (levels : Nat) :
    ∀ depth, depth + levels = maxDepth → Refuses depth levels (expressionWithin levels) := by
  induction levels with
  | zero =>
    intro depth _ floor p e rest index _ _ _ _ _ _ hrefused
    rw [Expr.refusedAt_zero] at hrefused
    cases hrefused
    rfl
  | succ levels ih =>
    intro depth hlevels floor p e rest index hr hd hw hs ha hp hrefused
    have henter : p.enter = (true, p.setDepth (depth + 1)) := by
      rw [enter_of_lt (by omega), hd]
    have hexact := exact_expressionWithin levels (depth + 1) (by omega)
    have hinner : (p.setDepth (depth + 1)).operandAndOperators (expressionWithin levels) floor =
        (none, (advance^[index] (p.setDepth (depth + 1))).refuse) :=
      operandAndOperators_of_refused (ih (depth + 1) (by omega)) hexact hr rfl hw hs ha hp hrefused
    rw [iterate_advance_setDepth, refuse_setDepth] at hinner
    have hdepth : (advance^[index] p).refuse.depth = depth := by
      rw [depth_refuse, depth_iterate_advance, hd]
    simp only [expressionWithin, henter, hinner, leave_eq_setDepth, depth_setDepth,
      setDepth_setDepth, Nat.add_sub_cancel]
    rw [← hdepth, setDepth_depth]

theorem expression_of_refused (hr : p.rules = .standard) (hd : p.depth ≤ maxDepth) (hw : e.Written)
    (hs : e.Shaped) (ha : e.Above floor) (hp : p.stream.pending = e.tokens ++ rest)
    (hrefused : e.refusedAt (maxDepth - p.depth) = some index) :
    p.expression floor = (none, (advance^[index] p).refuse) :=
  refuses_expressionWithin (maxDepth - p.depth) p.depth (by omega) floor p e rest index hr rfl hw hs
    ha hp hrefused

end MonkeySyntax.Parser
