import MonkeySyntax.Parser.Expression
import MonkeySyntax.Proofs.Expression.Shape
import MonkeySyntax.Proofs.Parser.Window
import MonkeySyntax.Tree.Printer

/-! # Reading expressions

`Reads floor p e q` says without the parser what it means to read `e` between `p` and `q`: the
window moves from the first token of `e` to the last, and the shape of `e` fits the place. The
parser reads exactly the expressions that are so related and need no more levels than are left.
-/

namespace MonkeySyntax.Parser

/-- The window moves from the first token of a written and shaped expression to the last. -/
structure Spans (p : Parser) (e : Expr) (q : Parser) : Prop where
  written : e.Written
  shaped : e.Shaped
  pending_eq : p.stream.pending = e.tokens ++ q.stream.pending.tail
  moved : q = advance^[e.tokens.length - 1] p

/-- The expression between two places is one that binds tighter than the precedence, and what stands
behind it does not continue it. -/
structure Reads (floor : Precedence) (p : Parser) (e : Expr) (q : Parser) : Prop
    extends Spans p e q where
  above : e.Above floor
  stops : q.peekPrecedence ≤ floor

/-- An inner reader that reads what it should wherever `n` levels are left at the given depth. -/
def Exact (depth n : Nat) (inner : ExprReader) : Prop :=
  ∀ floor p e q, p.rules = .standard → p.depth = depth →
    (inner floor p = (some e, q) ↔ Reads floor p e q ∧ e.need ≤ n)

variable {p q s : Parser} {e l r : Expr} {t : Token} {floor : Precedence} {depth n : Nat}
  {inner : ExprReader}

theorem Spans.rules_eq (h : Spans p e q) : q.rules = p.rules := by
  rw [h.moved, rules_iterate_advance]

theorem Spans.depth_eq (h : Spans p e q) : q.depth = p.depth := by
  rw [h.moved, depth_iterate_advance]

theorem Spans.length_lt (h : Spans p e q) :
    q.stream.pending.tail.length < p.stream.pending.length := by
  have hpos := e.length_tokens_pos
  rw [h.pending_eq, List.length_append]
  omega

theorem spans_of_prefix {rest : List Token} (hw : e.Written) (hs : e.Shaped)
    (hp : p.stream.pending = e.tokens ++ rest) :
    Spans p e (advance^[e.tokens.length - 1] p) ∧
      (advance^[e.tokens.length - 1] p).stream.pending.tail = rest := by
  have ht : (advance^[e.tokens.length - 1] p).stream.pending.tail = rest := by
    have := e.length_tokens_pos
    rw [pending_iterate_advance, List.tail_drop, hp, Nat.sub_add_cancel this, List.drop_left]
  exact ⟨⟨hw, hs, by rw [ht, hp], rfl⟩, ht⟩

theorem spans_name (hk : p.current.kind = .identifier) :
    Spans p (.name p.current p.current.literal) p where
  written := ⟨hk, rfl⟩
  shaped := trivial
  pending_eq := pending_of_kind_ne_eof (by rw [hk]; decide)
  moved := rfl

theorem spans_integer {value : Int64} (hk : p.current.kind = .integer)
    (hv : Numeral.decode? p.current.literal = some value) :
    Spans p (.integer p.current value) p where
  written := ⟨hk, hv⟩
  shaped := trivial
  pending_eq := pending_of_kind_ne_eof (by rw [hk]; decide)
  moved := rfl

theorem Spans.prefixOp (hk : p.current.kind.isPrefixOp = true) (h : Spans p.advance r q)
    (hr : r.root? = none) : Spans p (.prefixOp p.current p.current.literal r) q where
  written := ⟨hk, rfl, h.written⟩
  shaped := ⟨hr, h.shaped⟩
  pending_eq := by
    have hne : p.current.kind ≠ .eof := by rintro he; simp [he, TokenKind.isPrefixOp] at hk
    rw [pending_of_kind_ne_eof hne, Expr.tokens, List.cons_append, ← h.pending_eq]
    rfl
  moved := by
    have := r.length_tokens_pos
    rw [h.moved, ← Function.iterate_succ_apply advance, Expr.tokens, List.length_cons]
    congr 1
    omega

theorem Spans.infixOp (h : Spans p l q) (hk : q.peek.kind.isInfixOp = true)
    (h' : Spans q.advance.advance r s) (hl : l.AtLeast q.peekPrecedence)
    (hr : r.Above q.peekPrecedence) : Spans p (.infixOp q.peek q.peek.literal l r) s where
  written := ⟨hk, rfl, h.written, h'.written⟩
  shaped := ⟨hl, hr, h.shaped, h'.shaped⟩
  pending_eq := by
    have hne : q.peek.kind ≠ .eof := by rintro he; simp [he, TokenKind.isInfixOp] at hk
    have ht : q.stream.pending.tail.tail = r.tokens ++ s.stream.pending.tail := h'.pending_eq
    rw [h.pending_eq, pending_tail_of_kind_ne_eof hne, ht, Expr.tokens, List.append_assoc,
      List.cons_append]
  moved := by
    have hl := l.length_tokens_pos
    have hr := r.length_tokens_pos
    rw [h'.moved, h.moved, ← Function.iterate_succ_apply' advance,
      ← Function.iterate_succ_apply' advance, ← Function.iterate_add_apply, Expr.tokens,
      List.length_append, List.length_cons]
    congr 1
    omega

theorem Spans.of_prefixOp {o : String} (h : Spans p (.prefixOp t o r) q) :
    p.current = t ∧ o = t.literal ∧ t.kind.isPrefixOp = true ∧ r.root? = none ∧
      Spans p.advance r q := by
  obtain ⟨⟨hk, ho, hw⟩, ⟨hr, hs⟩, hp, hm⟩ := h
  refine ⟨current_of_pending hp, ho, hk, hr, hw, hs, ?_, ?_⟩
  · rw [pending_advance, hp]
    rfl
  · have := r.length_tokens_pos
    rw [hm, ← Function.iterate_succ_apply advance, Expr.tokens, List.length_cons]
    congr 1
    omega

theorem Spans.of_infixOp {o : String} (h : Spans p (.infixOp t o l r) s) :
    ∃ q, Spans p l q ∧ q.peek = t ∧ o = t.literal ∧ t.kind.isInfixOp = true ∧
      Spans q.advance.advance r s ∧ l.AtLeast t.kind.precedence ∧
      r.Above t.kind.precedence := by
  obtain ⟨⟨hk, ho, hwl, hwr⟩, ⟨hl, hr, hsl, hsr⟩, hp, hm⟩ := h
  rw [Expr.tokens, List.append_assoc, List.cons_append] at hp
  obtain ⟨hq, ht⟩ := spans_of_prefix hwl hsl hp
  refine ⟨_, hq, peek_of_pending ht, ho, hk, ⟨hwr, hsr, ?_, ?_⟩, hl, hr⟩
  · rw [pending_advance, pending_advance, ht, List.tail_cons]
  · have hl := l.length_tokens_pos
    have hr := r.length_tokens_pos
    rw [hm, ← Function.iterate_succ_apply' advance, ← Function.iterate_succ_apply' advance,
      ← Function.iterate_add_apply, Expr.tokens, List.length_append, List.length_cons]
    congr 1
    omega

theorem continuesAbove_iff (hr : p.rules = .standard) :
    p.continuesAbove floor = true ↔ floor < p.peekPrecedence := by
  unfold continuesAbove
  rw [hr, TokenKind.standard_infixOp, decide_eq_true_iff]
  constructor
  · rintro ⟨-, h, -⟩
    exact h
  · intro h
    have hk := TokenKind.lowest_lt_precedence_iff.1 (Precedence.lowest_lt_of_lt h)
    refine ⟨?_, h, hk⟩
    rintro hs
    rw [hs] at hk
    cases hk

theorem not_continuesAbove_iff (hr : p.rules = .standard) :
    p.continuesAbove floor = false ↔ p.peekPrecedence ≤ floor := by
  rw [← Bool.not_eq_true, continuesAbove_iff hr, Precedence.not_lt]

section Operand

variable (hi : Exact depth n inner) (hr : p.rules = .standard) (hd : p.depth = depth)

include hi hr hd

theorem spans_of_operand (h : p.operand inner = (some e, q)) :
    Spans p e q ∧ e.root? = none ∧ e.need ≤ n + 1 := by
  unfold operand at h
  rw [hr] at h
  split at h
  · next hk =>
    cases h
    exact ⟨spans_name (TokenKind.standard_operand_eq_name_iff.1 hk), rfl, by simp [Expr.need]⟩
  · next hk =>
    unfold Parser.integer at h
    split at h
    · next v hv =>
      cases h
      exact ⟨spans_integer (TokenKind.standard_operand_eq_integer_iff.1 hk) hv, rfl,
        by simp [Expr.need]⟩
    · cases h
  · next hk =>
    unfold Parser.prefixOp at h
    rw [Prod.mk.injEq, Option.map_eq_some_iff] at h
    obtain ⟨⟨r, hr', rfl⟩, hq⟩ := h
    obtain ⟨hs, hn⟩ := (hi .unary p.advance r q hr hd).1 (Prod.ext hr' hq)
    refine ⟨hs.toSpans.prefixOp (TokenKind.standard_operand_eq_prefixOp_iff.1 hk)
      (Expr.root?_eq_none_of_above_unary hs.above), rfl, ?_⟩
    rw [Expr.need]
    omega
  · cases h

theorem operand_of_spans (h : Spans p e q) (he : e.root? = none) (hn : e.need ≤ n + 1) :
    p.operand inner = (some e, q) := by
  unfold operand
  rw [hr]
  cases e with
  | name t v =>
    obtain ⟨⟨hk, rfl⟩, -, hp, rfl⟩ := h
    have hc := current_of_pending hp
    rw [hc, TokenKind.standard_operand_eq_name_iff.2 hk]
    simp [Parser.name, hc]
  | integer t v =>
    obtain ⟨⟨hk, hv⟩, -, hp, rfl⟩ := h
    have hc := current_of_pending hp
    rw [hc, TokenKind.standard_operand_eq_integer_iff.2 hk]
    simp [Parser.integer, hc, hv]
  | prefixOp t o r =>
    obtain ⟨rfl, rfl, hk, hr', hs⟩ := h.of_prefixOp
    rw [TokenKind.standard_operand_eq_prefixOp_iff.2 hk]
    rw [Expr.need] at hn
    have hreads : Reads .unary p.advance r q :=
      ⟨hs, Expr.above_of_root?_eq_none hr', TokenKind.precedence_le_unary _⟩
    simp [Parser.prefixOp, (hi .unary p.advance r q hr hd).2 ⟨hreads, by omega⟩]
  | infixOp t o l r => cases he

end Operand

/-- What holds between two turns of the loop over operators: the expression so far can be the left
side of whatever operator comes next. -/
structure Held (floor : Precedence) (n : Nat) (p : Parser) (e : Expr) (q : Parser) : Prop
    extends Spans p e q where
  above : e.Above floor
  settled : e.AtLeast q.peekPrecedence
  need_le : e.need ≤ n + 1

theorem Held.of_operand (h : Spans p e q) (he : e.root? = none) (hn : e.need ≤ n + 1) :
    Held floor n p e q :=
  ⟨h, Expr.above_of_root?_eq_none he, by simp [Expr.AtLeast, he], hn⟩

theorem Held.infixOp (h : Held floor n p l q) (hq : floor < q.peekPrecedence)
    (h' : Reads q.peekPrecedence q.advance.advance r s) (hn : r.need ≤ n) :
    Held floor n p (.infixOp q.peek q.peek.literal l r) s where
  toSpans := h.toSpans.infixOp
    (TokenKind.lowest_lt_precedence_iff.1 (Precedence.lowest_lt_of_lt hq)) h'.toSpans
    h.settled h'.above
  above := by rintro _ ⟨⟩; exact hq
  settled := by rintro _ ⟨⟩; exact h'.stops
  need_le := by
    have := h.need_le
    rw [Expr.need]
    omega

section Climb

variable (hi : Exact depth n inner)

include hi

theorem infixOp_eq_some_iff (hr : q.rules = .standard) (hd : q.depth = depth) :
    q.advance.infixOp inner l = (some e, s) ↔
      ∃ r, e = .infixOp q.peek q.peek.literal l r ∧
        Reads q.peekPrecedence q.advance.advance r s ∧ r.need ≤ n := by
  have h := fun r => hi q.peekPrecedence q.advance.advance r s hr hd
  unfold Parser.infixOp
  rw [Prod.mk.injEq, Option.map_eq_some_iff]
  constructor
  · rintro ⟨⟨r, hr', rfl⟩, hs⟩
    exact ⟨r, rfl, (h r).1 (Prod.ext hr' hs)⟩
  · rintro ⟨r, rfl, hr'⟩
    have he := (h r).2 hr'
    exact ⟨⟨r, congrArg Prod.fst he, rfl⟩, congrArg Prod.snd he⟩

/-- Each turn keeps what holds, and the last one stops where nothing continues the expression. -/
theorem reads_of_climb {turns : Nat} (h : Held floor n p l q) (hr : p.rules = .standard)
    (hd : p.depth = depth) (ht : q.stream.pending.length ≤ turns)
    (hc : q.climb inner floor turns l = (some e, s)) :
    Reads floor p e s ∧ e.need ≤ n + 1 := by
  induction turns generalizing l q with
  | zero =>
    obtain ⟨rfl, rfl⟩ : l = e ∧ q = s := by simpa [climb] using hc
    have hk : q.peek.kind = .eof := by
      rw [kind_peek_eq_eof_iff, List.eq_nil_of_length_eq_zero (Nat.le_zero.1 ht), List.tail_nil]
    refine ⟨⟨h.toSpans, h.above, ?_⟩, h.need_le⟩
    rw [peekPrecedence, hk]
    exact Nat.zero_le _
  | succ turns ih =>
    have hqr : q.rules = .standard := h.rules_eq.trans hr
    rw [climb] at hc
    split at hc
    · next hcont =>
      rw [continuesAbove_iff hqr] at hcont
      split at hc
      · next e' q' hop =>
        obtain ⟨r, rfl, hreads, hn⟩ :=
          (infixOp_eq_some_iff hi hqr (h.depth_eq.trans hd)).1 hop
        refine ih (h.infixOp hcont hreads hn) ?_ hc
        have hlen := hreads.length_lt
        simp only [pending_advance, List.length_tail] at hlen
        omega
      · cases hc
    · next hcont =>
      cases hc
      rw [Bool.not_eq_true, not_continuesAbove_iff hqr] at hcont
      exact ⟨⟨h.toSpans, h.above, hcont⟩, h.need_le⟩

/-- From the operand on, the parser comes by the loop to every expression that holds so far. -/
theorem climb_of_held (h : Held floor n p e q) (hr : p.rules = .standard) (hd : p.depth = depth) :
    ∃ turns, q.stream.pending.length ≤ turns ∧
      p.operandAndOperators inner floor = q.climb inner floor turns e := by
  -- the left spine of the tree is the loop, read backwards
  induction e generalizing q with
  | infixOp t o l r ihl _ =>
    obtain ⟨q₁, hl, rfl, rfl, hk, hr', hla, hra⟩ := h.of_infixOp
    have hq := h.above _ rfl
    have hneed := h.need_le
    rw [Expr.need] at hneed
    have hqr := hl.rules_eq.trans hr
    obtain ⟨turns, hturns, heq⟩ := ihl ⟨hl, hla.above hq, hla, by omega⟩
    have hreads : Reads q₁.peekPrecedence q₁.advance.advance r q :=
      ⟨hr', hra, h.settled _ rfl⟩
    have hop : q₁.advance.infixOp inner l = (some (.infixOp q₁.peek q₁.peek.literal l r), q) :=
      (infixOp_eq_some_iff hi hqr (hl.depth_eq.trans hd)).2 ⟨r, rfl, hreads, by omega⟩
    have hlen := hreads.length_lt
    simp only [pending_advance, List.length_tail] at hlen
    obtain ⟨m, rfl⟩ : ∃ m, turns = m + 1 := ⟨turns - 1, by omega⟩
    refine ⟨m, by omega, ?_⟩
    rw [heq, climb, if_pos ((continuesAbove_iff hqr).2 hq), hop]
  | _ =>
    refine ⟨q.stream.pending.length, (Nat.le_refl _), ?_⟩
    rw [operandAndOperators, operand_of_spans hi hr hd h.toSpans rfl h.need_le]

theorem operandAndOperators_eq_some_iff (hr : p.rules = .standard) (hd : p.depth = depth) :
    p.operandAndOperators inner floor = (some e, s) ↔ Reads floor p e s ∧ e.need ≤ n + 1 := by
  constructor
  · intro h
    unfold operandAndOperators at h
    split at h
    · next l q hl =>
      obtain ⟨hs, hroot, hn⟩ := spans_of_operand hi hr hd hl
      exact reads_of_climb hi (.of_operand hs hroot hn) hr hd (Nat.le_refl _) h
    · cases h
  · rintro ⟨h, hn⟩
    have hstop := (not_continuesAbove_iff (h.rules_eq.trans hr)).2 h.stops
    have hheld : Held floor n p e s :=
      ⟨h.toSpans, h.above, fun q hq => Nat.le_trans h.stops (Nat.le_of_lt (h.above q hq)), hn⟩
    obtain ⟨turns, -, heq⟩ := climb_of_held hi hheld hr hd
    rw [heq]
    cases turns <;> simp [climb, hstop]

end Climb

theorem Reads.setDepth (h : Reads floor p e q) (d : Nat) :
    Reads floor (p.setDepth d) e (q.setDepth d) where
  written := h.written
  shaped := h.shaped
  pending_eq := h.pending_eq
  moved := by rw [iterate_advance_setDepth, ← h.moved]
  above := h.above
  stops := h.stops

/-- Levels left and levels in use make up the limit, so the two ways to run out agree. -/
theorem exact_expressionWithin (levels : Nat) :
    ∀ depth, depth + levels = maxDepth → Exact depth levels (expressionWithin levels) := by
  induction levels with
  | zero =>
    intro depth _ floor p e q _ _
    have := e.need_pos
    simp only [expressionWithin, Prod.mk.injEq, reduceCtorEq, false_and, false_iff, not_and]
    omega
  | succ levels ih =>
    intro depth hlevels floor p e q hr hd
    have henter : p.enter = (true, p.setDepth (depth + 1)) := by
      rw [enter_of_lt (by omega), hd]
    have hinner : ∀ r,
        (p.setDepth (depth + 1)).operandAndOperators (expressionWithin levels) floor = (some e, r) ↔
          Reads floor (p.setDepth (depth + 1)) e r ∧ e.need ≤ levels + 1 :=
      fun _ => operandAndOperators_eq_some_iff (ih (depth + 1) (by omega)) hr rfl
    simp only [expressionWithin, henter, Prod.mk.injEq]
    constructor
    · rintro ⟨he, rfl⟩
      obtain ⟨hreads, hn⟩ := (hinner _).1 (Prod.ext he rfl)
      refine ⟨?_, hn⟩
      rw [leave_eq_setDepth, hreads.depth_eq]
      simpa [← hd] using hreads.setDepth depth
    · rintro ⟨hreads, hn⟩
      have h := (hinner (q.setDepth (depth + 1))).2 ⟨hreads.setDepth _, hn⟩
      rw [h]
      refine ⟨rfl, ?_⟩
      have hq := hreads.depth_eq.trans hd
      simp [leave_eq_setDepth, ← hq]

/-- The parser reads exactly the expressions that stand at the window and need no more levels than
are left, and it does nothing else but move on. -/
theorem expression_eq_some_iff (hr : p.rules = .standard) :
    p.expression floor = (some e, q) ↔ Reads floor p e q ∧ p.depth + e.need ≤ maxDepth := by
  have hpos := e.need_pos
  by_cases hd : p.depth ≤ maxDepth
  · have hexact := exact_expressionWithin (maxDepth - p.depth) p.depth (by omega)
    rw [expression, hexact floor p e q hr rfl]
    exact and_congr_right fun _ => by omega
  · have hz : maxDepth - p.depth = 0 := by omega
    simp only [expression, hz, expressionWithin, Prod.mk.injEq, reduceCtorEq, false_and, false_iff,
      not_and]
    omega

theorem Spans.slice (h : Spans p e q) :
    ∃ front, p.stream.pending = front ++ q.stream.pending ∧ q.stream.pending ≠ [] ∧
      e.tokens = front ++ [q.current] := by
  rcases List.eq_nil_or_concat e.tokens with he | ⟨front, last, he⟩
  · exact absurd he e.tokens_ne_nil
  · rw [List.concat_eq_append] at he
    have hp : p.stream.pending = front ++ last :: q.stream.pending.tail := by
      rw [h.pending_eq, he, List.append_assoc, List.singleton_append]
    have hq : q.stream.pending = last :: q.stream.pending.tail := by
      have hm := congrArg (·.stream.pending) h.moved
      simpa [he, hp] using hm
    refine ⟨front, by rw [hp, ← hq], by rw [hq]; exact List.cons_ne_nil _ _, ?_⟩
    rw [he, current_of_pending hq]

/-- An expression that is read has, in order, the tokens from the one at the window up to the one
where reading ends. Its operators group by precedence, bind tighter than the place allows, and what
stands behind it binds no tighter. -/
theorem expression_slice (hr : p.rules = .standard) (h : p.expression floor = (some e, q)) :
    (∃ front, p.stream.pending = front ++ q.stream.pending ∧ q.stream.pending ≠ [] ∧
      e.tokens = front ++ [q.current]) ∧
    (e.Written ∧ e.Shaped) ∧
    e.Above floor ∧ (q.peek.kind = .semicolon ∨ q.peek.kind.precedence ≤ floor) := by
  obtain ⟨hreads, -⟩ := (expression_eq_some_iff hr).1 h
  exact ⟨hreads.slice, ⟨hreads.written, hreads.shaped⟩, hreads.above, .inr hreads.stops⟩

theorem expression_slice_mixed :
    ∃ e q, (ofSource "a - b * -7 == !c; d" none).expression .lowest = (some e, q) ∧
      e.text = "((a - (b * (-7))) == (!c))" ∧
      (∃ front, (ofSource "a - b * -7 == !c; d" none).stream.pending = front ++ q.stream.pending ∧
        q.stream.pending ≠ [] ∧ e.tokens = front ++ [q.current]) ∧
      (e.Written ∧ e.Shaped) ∧
      e.Above .lowest ∧ (q.peek.kind = .semicolon ∨ q.peek.kind.precedence ≤ .lowest) := by
  obtain ⟨e, he⟩ := Option.isSome_iff_exists.1 (show
    ((ofSource "a - b * -7 == !c; d" none).expression .lowest).1.isSome = true by decide +kernel)
  have htext : ((ofSource "a - b * -7 == !c; d" none).expression .lowest).1.map Expr.text =
      some "((a - (b * (-7))) == (!c))" := by decide +kernel
  rw [he] at htext
  exact ⟨e, _, Prod.ext he rfl, Option.some.inj htext, expression_slice rfl (Prod.ext he rfl)⟩

end MonkeySyntax.Parser
