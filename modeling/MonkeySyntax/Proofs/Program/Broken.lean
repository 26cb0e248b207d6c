import MonkeySyntax.Proofs.Expression.Break
import MonkeySyntax.Proofs.Expression.Shape

/-! # Broken statements

A statement that breaks off adds one error, at a token that the error describes. Of the tokens that
are passed on the way there and skipped behind it, none starts a statement but the first one of all.
-/

namespace MonkeySyntax

/-- What a cause says about the token at which it is reported. -/
def SyntaxError.Cause.Describes (t : Token) : SyntaxError.Cause → Prop
  | unexpectedNext expected found =>
    found = t.kind ∧ (expected = .identifier ∨ expected = .assign) ∧ found ≠ expected
  | noOperand kind literal =>
    kind = t.kind ∧ literal = t.literal ∧
      kind ∉ [TokenKind.identifier, .integer, .bang, .minus]
  | badInteger literal =>
    t.kind = .integer ∧ literal = t.literal ∧ Numeral.decode? literal = none
  | tooDeep limit => limit = 256

namespace Parser

/-- The statement at `p` breaks off with an error at the current token of `s`, and is given up
at `q`. -/
structure Broken (p : Parser) (e : SyntaxError) (s q : Parser) : Prop where
  errors_eq : q.errors = p.errors.push e
  position_eq : e.position = s.current.start
  describes : e.cause.Describes s.current
  ending_eq : s.stream.ending = p.stream.ending
  reached : ∃ front, p.stream.pending = front ++ s.stream.pending ∧
    (∀ t ∈ front.tail, startsStatement t.kind = false) ∧
    (startsStatement p.current.kind = true → front ≠ [])
  /-- Either the token of the error is passed as well, or the next statement begins with it. -/
  given_up :
    (∃ back, s.stream.pending = s.current :: (back ++ q.advance.stream.pending) ∧
      (∀ t ∈ back, startsStatement t.kind = false) ∧
      (startsStatement s.current.kind = true →
        e.cause = .noOperand s.current.kind s.current.literal ∨ e.cause = .tooDeep 256)) ∨
    s.stream.pending = q.advance.stream.pending ∧
      (startsStatement s.current.kind = true ∨ s.current.kind = .eof)

variable {p q s : Parser} {cause : SyntaxError.Cause}

theorem startsStatement_of_inExpression {k : TokenKind}
    (h : Rules.standard.inExpression k = true) : startsStatement k = false := by
  revert h
  cases k <;> decide

/-- Skipping passes the next token, unless a statement or the end is there. -/
theorem given_up_of_synchronize (h : endsStatement p.current.kind = false) :
    (∃ back, p.advance.stream.pending = p.peek :: (back ++ p.synchronize.advance.stream.pending) ∧
      (∀ t ∈ back, startsStatement t.kind = false) ∧ startsStatement p.peek.kind = false) ∨
    p.advance.stream.pending = p.synchronize.advance.stream.pending ∧
      (startsStatement p.peek.kind = true ∨ p.peek.kind = .eof) := by
  cases hs : startsStatement p.peek.kind with
  | true =>
    have hp : p.synchronize = p := by
      rw [synchronize, skipWhile, if_neg]
      simp [hs]
    exact .inr ⟨by rw [hp], .inl rfl⟩
  | false =>
    by_cases he : p.peek.kind = .eof
    · have hnil : p.advance.stream.pending = [] := kind_peek_eq_eof_iff.1 he
      obtain ⟨back, hb, -⟩ := skips_synchronize p
      rw [kind_peek_eq_eof_iff.1 he] at hb
      exact .inr ⟨hnil.trans (List.nil_eq_append_iff.1 hb).2.symm, .inr he⟩
    · have hp : p.synchronize = p.advance.synchronize := by
        have hne : p.stream.pending ≠ [] :=
          mt kind_current_eq_eof_iff.2 (endsStatement_eq_false_iff.1 h).2
        rw [synchronize, skipWhile, if_pos]
        · rfl
        · exact ⟨by rw [h, hs]; rfl, hne⟩
      obtain ⟨back, hb, hback⟩ := skips_synchronize p.advance
      refine .inl ⟨back, ?_, hback, rfl⟩
      rw [hp, pending_of_kind_ne_eof (p := p.advance) he, hb]
      rfl

theorem broken_of_peek_ne {m : Parser} {expected : TokenKind} (front : List Token)
    (hm : Quiet p m) (hends : endsStatement m.current.kind = false)
    (hp : p.stream.pending = front ++ m.advance.stream.pending) (hne : front ≠ [])
    (hfront : ∀ t ∈ front.tail, startsStatement t.kind = false)
    (he : expected = .identifier ∨ expected = .assign) (hk : m.peek.kind ≠ expected) :
    Broken p ⟨.unexpectedNext expected m.peek.kind, m.peek.start⟩ m.advance
      (m.report (.unexpectedNext expected m.peek.kind) m.peek.start).synchronize where
  errors_eq := by
    rw [← hm.errors_eq]
    exact (quiet_skipWhile _ (m.report _ _)).errors_eq
  position_eq := rfl
  describes := ⟨rfl, he, hk⟩
  ending_eq := hm.ending_eq
  reached := ⟨front, hp, hfront, fun _ => hne⟩
  given_up := by
    -- the report changes no token, so what is skipped is what is skipped from `m`
    have hsync := given_up_of_synchronize
      (p := m.report (.unexpectedNext expected m.peek.kind) m.peek.start) hends
    rcases hsync with ⟨back, hb, hback, hs⟩ | hb
    · exact .inl ⟨back, hb, hback, fun hs' => absurd (hs.symm.trans hs') Bool.false_ne_true⟩
    · exact .inr hb

theorem broken_bindingStatement (hk : p.current.kind = .letWord)
    (h : p.bindingStatement = (none, q)) : ∃ e s, Broken p e s q := by
  have hp : p.stream.pending = [p.current] ++ p.advance.stream.pending :=
    pending_of_kind_ne_eof (by rw [hk]; decide)
  unfold bindingStatement at h
  by_cases hn : p.peek.kind = .identifier
  · rw [expect_of_eq hn] at h
    by_cases ha : p.advance.peek.kind = .assign
    · simp [expect_of_eq ha] at h
    · simp only [expect_of_ne ha, Prod.mk.injEq, true_and] at h
      subst h
      have hp' : p.advance.stream.pending = [p.peek] ++ p.advance.advance.stream.pending :=
        pending_of_kind_ne_eof (p := p.advance) (by rw [current_advance, hn]; decide)
      refine ⟨_, _, broken_of_peek_ne [p.current, p.peek] (quiet_advance p) ?_ ?_
        (List.cons_ne_nil _ _) ?_ (.inr rfl) ha⟩
      · rw [current_advance, hn]
        rfl
      · rw [hp, hp']
        rfl
      · simp [hn, startsStatement]
  · rw [expect_of_ne hn] at h
    simp only [Prod.mk.injEq, true_and] at h
    subst h
    refine ⟨_, _, broken_of_peek_ne [p.current] (.refl p) ?_ hp (List.cons_ne_nil _ _) (by simp)
      (.inl rfl) hn⟩
    rw [hk]
    rfl

theorem Offence.describes (h : Offence p cause) (hr : p.rules = .standard) :
    cause.Describes p.current := by
  cases h with
  | noOperand h =>
    refine ⟨rfl, rfl, ?_⟩
    intro hk
    rw [hr] at h
    generalize p.current.kind = k at h hk
    cases k <;> simp_all [Rules.standard]
  | badInteger h hd =>
    rw [hr] at h
    exact ⟨TokenKind.standard_operand_eq_integer_iff.1 h, rfl, hd⟩
  | tooDeep => rfl

theorem Offence.cause_of_startsStatement (h : Offence p cause) (hr : p.rules = .standard)
    (hs : startsStatement p.current.kind = true) :
    cause = .noOperand p.current.kind p.current.literal ∨ cause = .tooDeep 256 := by
  cases h with
  | noOperand _ => exact .inl rfl
  | badInteger h _ =>
    rw [hr] at h
    rw [TokenKind.standard_operand_eq_integer_iff.1 h] at hs
    cases hs
  | tooDeep => exact .inr rfl

theorem broken_expressionStatement (hr : p.rules = .standard)
    (hk : startsStatement p.current.kind = false) (h : p.expressionStatement = (none, q)) :
    ∃ e s, Broken p e s q := by
  have ht := traced_expression .lowest p
  unfold expressionStatement at h
  generalize p.expression .lowest = r at h ht
  obtain ⟨o, r⟩ := r
  rw [Prod.mk.injEq, Option.map_eq_none_iff] at h
  obtain ⟨rfl, hq⟩ := h
  obtain ⟨s, hw, ⟨cause, ho, herr⟩, hskips⟩ := ht.breaks rfl
  have hrs := hw.rules_eq.trans hr
  obtain ⟨front, hp, hfront⟩ := hw.passed
  -- a semicolon behind the broken expression is passed as well
  have hsq : Skips s q ∧ q.errors = r.errors := by
    rw [← hq]
    split
    · next hsemi =>
      refine ⟨hskips.trans (Skips.advance ?_ (.refl _)), rfl⟩
      rw [hsemi]
      rfl
    · exact ⟨hskips, rfl⟩
  obtain ⟨⟨back, hb, hback⟩, herrq⟩ := hsq
  refine ⟨⟨cause, s.current.start⟩, s, ?_, rfl, ho.describes hrs, hw.ending_eq,
    ⟨front, hp, ?_, fun hs => ?_⟩, ?_⟩
  · rw [herrq, herr, hw.errors_eq]
  · intro t ht
    have := hfront t (List.mem_of_mem_tail ht)
    rw [hr] at this
    exact startsStatement_of_inExpression this
  · rw [hk] at hs
    cases hs
  · by_cases he : s.current.kind = .eof
    · have hnil := kind_current_eq_eof_iff.1 he
      rw [hnil] at hb
      exact .inr ⟨hnil.trans (List.nil_eq_append_iff.1 hb).2.symm, .inr he⟩
    · refine .inl ⟨back, ?_, hback, ho.cause_of_startsStatement hrs⟩
      rw [pending_of_kind_ne_eof he, hb]
      rfl

theorem exists_broken (hr : p.rules = .standard) (h : p.statement = (none, q)) :
    ∃ e s, Broken p e s q := by
  have hk (hs : p.rules.statement p.current.kind ≠ some .binding)
      (hs' : p.rules.statement p.current.kind ≠ some .returning) :
      startsStatement p.current.kind = false := by
    rw [hr] at hs hs'
    generalize p.current.kind = k at hs hs'
    cases k <;> simp_all [Rules.standard, startsStatement]
  unfold statement at h
  split at h
  · next hs =>
    rw [hr] at hs
    exact broken_bindingStatement (TokenKind.standard_statement_eq_binding_iff.1 hs) h
  · cases h
  · next hs => exact broken_expressionStatement hr (hk (by simp [hs]) (by simp [hs])) h
  · next hs => exact broken_expressionStatement hr (hk (by simp [hs]) (by simp [hs])) h

end Parser

end MonkeySyntax
