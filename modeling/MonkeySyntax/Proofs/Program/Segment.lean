import Mathlib.Data.List.TakeWhile
import MonkeySyntax.Proofs.Expression.Chain
import MonkeySyntax.Proofs.Expression.Reading
import MonkeySyntax.Proofs.Program.Run

/-! # The language of the parser

The tokens of a source without errors are segments, one for each statement. A segment is said
without the parser, by what its tokens are and what may stand behind it.
-/

namespace MonkeySyntax

/-- A segment ends with a semicolon, or before something of the given form. -/
def EndsBefore (form : List Token → Prop) (stop rest : List Token) : Prop :=
  (∃ x : Token, x.kind = .semicolon ∧ stop = [x]) ∨ stop = [] ∧ form rest

/-- The tokens of a statement, the statement, and the tokens behind it. -/
inductive Segment : List Token → Statement → List Token → Prop where
  | binding {t n a : Token} {xs stop rest : List Token} (ht : t.kind = .letWord)
      (hn : n.kind = .identifier) (ha : a.kind = .assign) (hx : ∀ x ∈ xs, x.kind ≠ .semicolon)
      (hs : EndsBefore (· = []) stop rest) :
      Segment (t :: n :: a :: (xs ++ stop)) (.binding t n n.literal) rest
  | returning {t : Token} {xs stop rest : List Token} (ht : t.kind = .returnWord)
      (hx : ∀ x ∈ xs, x.kind ≠ .semicolon) (hs : EndsBefore (· = []) stop rest) :
      Segment (t :: (xs ++ stop)) (.returning t) rest
  | expression {t : Token} {ts stop rest : List Token} {e : Expr} (hc : IsChain (t :: ts))
      (he : e.Written ∧ e.Shaped ∧ e.tokens = t :: ts) (hn : e.need ≤ Parser.maxDepth)
      (hs : EndsBefore (fun us => ∀ x ∈ us.head?, x.kind.isInfixOp = false) stop rest) :
      Segment (t :: ts ++ stop) (.expression t e) rest

/-- Tokens that are segments one after another, and the statements of the segments. -/
inductive Segmented : List Token → List Statement → Prop where
  | nil : Segmented [] []
  | cons {ts rest : List Token} {s : Statement} {ss : List Statement} (h : Segment ts s rest)
      (h' : Segmented rest ss) : Segmented (ts ++ rest) (s :: ss)

theorem IsChain.exists_cons {ts : List Token} (h : IsChain ts) :
    ∃ t us, ts = t :: us ∧ (Rules.standard.operand t.kind).isSome = true := by
  induction h with
  | operand h =>
    cases h with
    | name hk => exact ⟨_, _, rfl, by simp [hk, Rules.standard]⟩
    | integer hk _ => exact ⟨_, _, rfl, by simp [hk, Rules.standard]⟩
    | prefixOp hk _ =>
      exact ⟨_, _, rfl, by rw [TokenKind.standard_operand_eq_prefixOp_iff.2 hk]; rfl⟩
  | infixOp _ _ _ ih =>
    obtain ⟨u, us, rfl, hu⟩ := ih
    exact ⟨u, _, rfl, hu⟩

theorem IsChain.head_kind {t : Token} {ts : List Token} (h : IsChain (t :: ts)) :
    (Rules.standard.operand t.kind).isSome = true := by
  obtain ⟨u, us, he, hu⟩ := h.exists_cons
  rwa [(List.cons.inj he).1]

theorem TokenKind.of_standard_operand {k : TokenKind}
    (h : (Rules.standard.operand k).isSome = true) :
    Rules.standard.statement k = none ∧ k ≠ .semicolon ∧ k ≠ .eof := by
  cases k <;> simp_all [Rules.standard]

theorem Segment.exists_cons {ts rest : List Token} {s : Statement} (h : Segment ts s rest) :
    ∃ t us, ts = t :: us ∧ t.kind ≠ .semicolon ∧ t.kind ≠ .eof := by
  cases h with
  | binding ht => exact ⟨_, _, rfl, by simp [ht]⟩
  | returning ht => exact ⟨_, _, rfl, by simp [ht]⟩
  | expression hc => exact ⟨_, _, rfl, (TokenKind.of_standard_operand hc.head_kind).2⟩

theorem Segmented.head_ne_semicolon {ts : List Token} {ss : List Statement} (h : Segmented ts ss) :
    ∀ t ∈ ts.head?, t.kind ≠ .semicolon := by
  cases h with
  | nil => simp
  | cons h _ =>
    obtain ⟨t, us, rfl, ht, -⟩ := h.exists_cons
    simpa using ht

namespace Parser

variable {p q : Parser} {s : Statement} {ts rest : List Token}

/-! ### Skipping to the end of a statement -/

theorem pending_skipToEnd (p : Parser) :
    p.skipToEnd.stream.pending = p.stream.pending.dropWhile (·.kind ≠ .semicolon) := by
  rw [skipToEnd]
  fun_induction skipWhile (fun q : Parser => !endsStatement q.current.kind) p with
  | case1 p h ih =>
    obtain ⟨hs, he⟩ := endsStatement_eq_false_iff.1 (by simpa using h.1)
    rw [ih, pending_of_kind_ne_eof he, List.dropWhile_cons_of_pos (by simpa using hs)]
    rfl
  | case2 p h =>
    by_cases hp : p.stream.pending = []
    · rw [hp, List.dropWhile_nil]
    · have he := mt kind_current_eq_eof_iff.1 hp
      have hs : p.current.kind = .semicolon := by
        by_contra hs
        exact h ⟨by rw [endsStatement_eq_false_iff.2 ⟨hs, he⟩]; rfl, hp⟩
      rw [pending_of_kind_ne_eof he, List.dropWhile_cons_of_neg (by simpa using hs)]

theorem skipToEnd_of_ne (hs : p.current.kind ≠ .semicolon) (he : p.current.kind ≠ .eof) :
    p.skipToEnd = p.advance.skipToEnd := by
  rw [skipToEnd, skipWhile, if_pos]
  · rfl
  · exact ⟨by rw [endsStatement_eq_false_iff.2 ⟨hs, he⟩]; rfl, mt kind_current_eq_eof_iff.2 he⟩

/-- What is skipped holds no semicolon, and ends with one or with the source. -/
theorem exists_skipped (p : Parser) :
    ∃ xs stop, (∀ x ∈ xs, x.kind ≠ .semicolon) ∧
      p.stream.pending = xs ++ (stop ++ p.skipToEnd.advance.stream.pending) ∧
      EndsBefore (· = []) stop p.skipToEnd.advance.stream.pending := by
  have hx : ∀ x ∈ p.stream.pending.takeWhile (·.kind ≠ .semicolon), x.kind ≠ .semicolon := by
    intro x hx
    simpa using List.mem_takeWhile_imp hx
  have happ := List.takeWhile_append_dropWhile (p := fun t : Token => t.kind ≠ .semicolon)
    (l := p.stream.pending)
  rw [← pending_skipToEnd] at happ
  cases hs : p.skipToEnd.stream.pending with
  | nil => exact ⟨_, [], hx, by simpa [hs] using happ.symm, .inr ⟨rfl, by simp [hs]⟩⟩
  | cons t ts =>
    have ht : t.kind = .semicolon := by
      have := List.head?_dropWhile_not (fun t : Token => t.kind ≠ .semicolon) p.stream.pending
      rw [← pending_skipToEnd, hs] at this
      simpa using this
    exact ⟨_, [t], hx, by simpa [hs] using happ.symm, .inl ⟨t, ht, rfl⟩⟩

theorem pending_after_skipToEnd {xs stop : List Token} (hx : ∀ x ∈ xs, x.kind ≠ .semicolon)
    (hp : p.stream.pending = xs ++ (stop ++ rest)) (hs : EndsBefore (· = []) stop rest) :
    p.skipToEnd.advance.stream.pending = rest := by
  rw [pending_advance, pending_skipToEnd, hp,
    List.dropWhile_append_of_pos (by simpa using hx)]
  rcases hs with ⟨t, ht, rfl⟩ | ⟨rfl, rfl⟩
  · rw [List.singleton_append, List.dropWhile_cons_of_neg (by simpa using ht), List.tail_cons]
  · rfl

/-! ### Statements that are read are segments -/

theorem segment_of_bindingStatement (hk : p.current.kind = .letWord)
    (h : p.bindingStatement = (some s, q)) :
    ∃ ts, p.stream.pending = ts ++ q.advance.stream.pending ∧
      Segment ts s q.advance.stream.pending := by
  unfold bindingStatement at h
  by_cases hn : p.peek.kind = .identifier
  · rw [expect_of_eq hn] at h
    by_cases ha : p.advance.peek.kind = .assign
    · simp only [expect_of_eq ha, Prod.mk.injEq, Option.some.injEq] at h
      obtain ⟨rfl, rfl⟩ := h
      have hc : p.advance.advance.current.kind = .assign := ha
      have hp : p.stream.pending = p.current :: p.peek :: p.advance.peek ::
          p.advance.advance.advance.stream.pending := by
        rw [pending_of_kind_ne_eof (by rw [hk]; decide),
          pending_tail_of_kind_ne_eof (by rw [hn]; decide)]
        exact congrArg (p.current :: p.peek :: ·)
          (pending_of_kind_ne_eof (p := p.advance.advance) (by rw [hc]; decide))
      rw [skipToEnd_of_ne (by rw [hc]; decide) (by rw [hc]; decide)]
      obtain ⟨xs, stop, hx, he, hs⟩ := p.advance.advance.advance.exists_skipped
      refine ⟨_, ?_, .binding hk hn ha hx hs⟩
      rw [hp]
      simpa using he
    · simp [expect_of_ne ha] at h
  · simp [expect_of_ne hn] at h

theorem segment_of_returningStatement (hk : p.current.kind = .returnWord)
    (h : p.returningStatement = (some s, q)) :
    ∃ ts, p.stream.pending = ts ++ q.advance.stream.pending ∧
      Segment ts s q.advance.stream.pending := by
  simp only [returningStatement, Prod.mk.injEq, Option.some.injEq] at h
  obtain ⟨rfl, rfl⟩ := h
  rw [skipToEnd_of_ne (by rw [hk]; decide) (by rw [hk]; decide)]
  obtain ⟨xs, stop, hx, he, hs⟩ := p.advance.exists_skipped
  refine ⟨_, ?_, .returning hk hx hs⟩
  rw [pending_of_kind_ne_eof (by rw [hk]; decide)]
  simpa using he

theorem segment_of_expressionStatement (hr : p.rules = .standard)
    (h : p.expressionStatement = (some s, q)) :
    ∃ ts, p.stream.pending = ts ++ q.advance.stream.pending ∧
      Segment ts s q.advance.stream.pending := by
  unfold expressionStatement at h
  rw [Prod.mk.injEq, Option.map_eq_some_iff] at h
  obtain ⟨⟨e, he, rfl⟩, hq⟩ := h
  obtain ⟨q₁, hexpr⟩ : ∃ q₁, p.expression .lowest = (some e, q₁) := ⟨_, Prod.ext he rfl⟩
  obtain ⟨hreads, hn⟩ := (expression_eq_some_iff hr).1 hexpr
  rw [hexpr] at hq
  obtain ⟨t, ts, het⟩ := List.exists_cons_of_ne_nil e.tokens_ne_nil
  have hp := hreads.pending_eq
  have hc : t = p.current := (current_of_pending (by rw [hp, het]; rfl)).symm
  subst hc
  have hchain := Expr.isChain_tokens hreads.written hreads.shaped
  rw [het] at hp hchain
  split at hq
  · next hk =>
    have hpeek := pending_tail_of_kind_ne_eof (p := q₁) (by rw [hk]; decide)
    subst hq
    refine ⟨_, ?_, .expression hchain ⟨hreads.written, hreads.shaped, het⟩ (by omega)
      (.inl ⟨_, hk, rfl⟩)⟩
    rw [hp, hpeek]
    simp
  · subst hq
    refine ⟨_, ?_, .expression hchain ⟨hreads.written, hreads.shaped, het⟩ (by omega)
      (.inr ⟨rfl, ?_⟩)⟩
    · simpa using hp
    · intro x hx
      obtain ⟨us, hus⟩ := List.head?_eq_some_iff.1 hx
      have hle := hreads.stops
      rw [peekPrecedence, peek_of_pending hus, ← Precedence.not_lt,
        TokenKind.lowest_lt_precedence_iff] at hle
      simpa using hle

theorem segment_of_statement (hr : p.rules = .standard) (h : p.statement = (some s, q)) :
    ∃ ts, p.stream.pending = ts ++ q.advance.stream.pending ∧
      Segment ts s q.advance.stream.pending := by
  unfold statement at h
  rw [hr] at h
  split at h
  · next hk =>
    exact segment_of_bindingStatement (TokenKind.standard_statement_eq_binding_iff.1 hk) h
  · next hk =>
    exact segment_of_returningStatement (TokenKind.standard_statement_eq_returning_iff.1 hk) h
  · exact segment_of_expressionStatement hr h
  · exact segment_of_expressionStatement hr h

/-! ### Segments are read as their statements -/

theorem bindingStatement_of_pending {t n a : Token} {us : List Token}
    (hp : p.stream.pending = t :: n :: a :: us) (hn : n.kind = .identifier)
    (ha : a.kind = .assign) :
    p.bindingStatement = (some (.binding t n n.literal), p.advance.advance.skipToEnd) := by
  have ht : p.current = t := current_of_pending hp
  have hn' : p.peek = n := peek_of_pending (by rw [hp]; rfl)
  have ha' : p.advance.peek = a :=
    peek_of_pending (by rw [pending_advance, hp]; rfl)
  unfold bindingStatement
  rw [expect_of_eq (by rw [hn', hn])]
  simp only [expect_of_eq (show p.advance.peek.kind = .assign by rw [ha', ha]), ht,
    current_advance, hn']

theorem expressionStatement_of_reads {e : Expr} (hr : p.rules = .standard)
    (hreads : Reads .lowest p e q) (hn : p.depth + e.need ≤ maxDepth) :
    p.expressionStatement = (some (.expression p.current e),
      if q.peek.kind = .semicolon then q.advance else q) := by
  unfold expressionStatement
  rw [(expression_eq_some_iff hr).2 ⟨hreads, hn⟩]
  rfl

theorem kind_peek_of_tail {us : List Token} (hq : q.stream.pending.tail = us)
    {P : TokenKind → Prop} (he : P .eof) (hus : ∀ x ∈ us.head?, P x.kind) : P q.peek.kind := by
  cases us with
  | nil => rwa [kind_peek_eq_eof_iff.2 hq]
  | cons x us =>
    rw [peek_of_pending hq]
    exact hus x rfl

theorem exists_expressionStatement_eq {e : Expr} {stop : List Token} (hr : p.rules = .standard)
    (hw : e.Written) (hsh : e.Shaped) (hn : p.depth + e.need ≤ maxDepth)
    (hp : p.stream.pending = e.tokens ++ (stop ++ rest))
    (hs : EndsBefore (fun us => ∀ x ∈ us.head?, x.kind.isInfixOp = false) stop rest)
    (hrest : ∀ t ∈ rest.head?, t.kind ≠ .semicolon) :
    ∃ q, p.expressionStatement = (some (.expression p.current e), q) ∧
      q.advance.stream.pending = rest := by
  obtain ⟨hspans, htail⟩ := spans_of_prefix hw hsh hp
  generalize advance^[e.tokens.length - 1] p = q at hspans htail
  rcases hs with ⟨x, hx, rfl⟩ | ⟨rfl, hfollow⟩
  · have hpeek : q.peek.kind = .semicolon := by rw [peek_of_pending htail, hx]
    have hreads : Reads .lowest p e q :=
      ⟨hspans, Expr.above_lowest hw, by rw [peekPrecedence, hpeek]; exact Nat.le_refl _⟩
    refine ⟨q.advance, ?_, ?_⟩
    · rw [expressionStatement_of_reads hr hreads hn, if_pos hpeek]
    · rw [pending_advance, pending_advance, htail]
      rfl
  · have hpeek : q.peek.kind ≠ .semicolon :=
      kind_peek_of_tail htail (P := (· ≠ .semicolon)) (by decide) hrest
    have hinfix : q.peek.kind.isInfixOp = false :=
      kind_peek_of_tail htail (P := fun k => k.isInfixOp = false) (by decide) hfollow
    have hreads : Reads .lowest p e q := by
      refine ⟨hspans, Expr.above_lowest hw, ?_⟩
      rw [← Precedence.not_lt, peekPrecedence, TokenKind.lowest_lt_precedence_iff, hinfix]
      decide
    refine ⟨q, ?_, htail⟩
    rw [expressionStatement_of_reads hr hreads hn, if_neg hpeek]

theorem statement_eq_expressionStatement {e : Expr} (hr : p.rules = .standard) (hw : e.Written)
    (hsh : e.Shaped) (hp : p.stream.pending = e.tokens ++ rest) :
    p.statement = p.expressionStatement := by
  obtain ⟨t, ts, het⟩ := List.exists_cons_of_ne_nil e.tokens_ne_nil
  have hchain := Expr.isChain_tokens hw hsh
  rw [het] at hchain hp
  rw [statement, hr, current_of_pending hp, (TokenKind.of_standard_operand hchain.head_kind).1]

theorem statement_of_segment (hr : p.rules = .standard) (hd : p.depth = 0)
    (hp : p.stream.pending = ts ++ rest) (h : Segment ts s rest)
    (hrest : ∀ t ∈ rest.head?, t.kind ≠ .semicolon) :
    ∃ q, p.statement = (some s, q) ∧ q.advance.stream.pending = rest := by
  cases h with
  | @binding t n a xs stop _ ht hn ha hx hs =>
    have hc : p.current = t := current_of_pending hp
    have hskip : p.advance.advance.skipToEnd = p.advance.advance.advance.skipToEnd := by
      have hc : p.advance.advance.current = a := current_of_pending (by
        rw [pending_advance, pending_advance, hp]
        rfl)
      exact skipToEnd_of_ne (by rw [hc, ha]; decide) (by rw [hc, ha]; decide)
    refine ⟨p.advance.advance.skipToEnd, ?_, ?_⟩
    · rw [statement, hr, hc, TokenKind.standard_statement_eq_binding_iff.2 ht]
      exact bindingStatement_of_pending hp hn ha
    · rw [hskip]
      exact pending_after_skipToEnd hx (by simp [hp]) hs
  | @returning t xs stop _ ht hx hs =>
    have hc : p.current = t := current_of_pending hp
    refine ⟨p.skipToEnd, ?_, ?_⟩
    · rw [statement, hr, hc, TokenKind.standard_statement_eq_returning_iff.2 ht,
        ← hc]
      rfl
    · rw [skipToEnd_of_ne (by rw [hc, ht]; decide) (by rw [hc, ht]; decide)]
      exact pending_after_skipToEnd hx (by simp [hp]) hs
  | @expression t ts stop _ e hchain he hn hs =>
    obtain ⟨hw, hsh, het⟩ := he
    have hc : p.current = t := current_of_pending hp
    rw [List.append_assoc, ← het] at hp
    rw [statement_eq_expressionStatement hr hw hsh hp, ← hc]
    exact exists_expressionStatement_eq hr hw hsh (by omega) hp hs hrest

/-! ### Runs without errors -/

theorem segmented_of_runs {ss : List Statement} {r : Parser} (h : Runs p ss r)
    (hr : p.rules = .standard) (he : r.errors = p.errors) : Segmented p.stream.pending ss := by
  induction h with
  | stop h =>
    rw [kind_current_eq_eof_iff.1 h]
    exact .nil
  | @step p q r o ss _ hs hrun ih =>
    have ho := outcome_of_statement_eq hs
    have hsize : q.errors.size ≤ p.errors.size := by
      rw [← he]
      exact hrun.size_errors_le
    obtain ⟨s, rfl⟩ := Option.isSome_iff_exists.1 (ho.isSome_of_size_le hsize)
    obtain ⟨ts, hp, hseg⟩ := segment_of_statement hr hs
    rw [hp]
    exact .cons hseg (ih (ho.rules_eq.trans hr) (he.trans (ho.errors_eq rfl).symm))

theorem exists_runs_behind_segment (hr : p.rules = .standard) (hd : p.depth = 0)
    (hp : p.stream.pending = ts ++ rest) (h : Segment ts s rest)
    (hrest : ∀ t ∈ rest.head?, t.kind ≠ .semicolon) :
    ∃ q, q.rules = .standard ∧ q.depth = 0 ∧ q.errors = p.errors ∧ q.stream.pending = rest ∧
      ∀ ss r, Runs q ss r → Runs p (s :: ss) r := by
  obtain ⟨q, hs, hq⟩ := statement_of_segment hr hd hp h hrest
  have ho := outcome_of_statement_eq hs
  obtain ⟨t, us, rfl, -, ht⟩ := h.exists_cons
  refine ⟨q.advance, ho.rules_eq.trans hr, ho.depth_eq.trans hd, ho.errors_eq rfl, hq, ?_⟩
  intro ss r hrun
  refine .step (s := some s) ?_ hs hrun
  rwa [current_of_pending hp]

theorem runs_of_segmented {ss : List Statement} (h : Segmented p.stream.pending ss)
    (hr : p.rules = .standard) (hd : p.depth = 0) : ∃ r, Runs p ss r ∧ r.errors = p.errors := by
  generalize hp : p.stream.pending = ts at h
  induction h generalizing p with
  | nil => exact ⟨p, .stop (kind_current_eq_eof_iff.2 hp), rfl⟩
  | @cons ts rest s ss hseg hrest ih =>
    obtain ⟨q, hr', hd', he, hq, hruns⟩ :=
      exists_runs_behind_segment hr hd hp hseg hrest.head_ne_semicolon
    obtain ⟨r, hrun, he'⟩ := ih hr' hd' hq
    exact ⟨r, hruns ss r hrun, he'.trans he⟩

end Parser

section

variable {source : String} {file : Option String} {ss : List Statement}

theorem parse_of_segmented (h : Segmented (tokenize source file).dropLast ss) :
    parse source file = (⟨ss⟩, []) := by
  rw [dropLast_tokenize] at h
  obtain ⟨r, hrun, he⟩ := Parser.runs_of_segmented (p := .ofSource source file) h rfl rfl
  rw [Parser.parse_eq_of_runs hrun, he]
  rfl

theorem segmented_of_parse (h : (parse source file).2 = []) :
    Segmented (tokenize source file).dropLast (parse source file).1.statements := by
  obtain ⟨ss, r, hrun⟩ := Parser.exists_runs (.ofSource source file)
  rw [Parser.parse_eq_of_runs hrun] at h ⊢
  rw [dropLast_tokenize]
  exact Parser.segmented_of_runs hrun rfl (Array.toList_inj.1 h)

end

/-- A source has no errors exactly if its tokens are segments, and then the program has the
statement of each segment, in order. -/
theorem parse_without_errors_iff (source : String) (file : Option String) :
    ((parse source file).2 = [] ↔ ∃ ss, Segmented (tokenize source file).dropLast ss) ∧
      ∀ ss, Segmented (tokenize source file).dropLast ss →
        (parse source file).1.statements = ss := by
  refine ⟨⟨fun h => ⟨_, segmented_of_parse h⟩, ?_⟩, ?_⟩
  · rintro ⟨ss, h⟩
    rw [parse_of_segmented h]
  · intro ss h
    rw [parse_of_segmented h]

theorem parse_without_errors_mixed :
    ∃ ss, Segmented (tokenize "let x = 5 ) ;return\n; a - -b !c 7" none).dropLast ss ∧
      (parse "let x = 5 ) ;return\n; a - -b !c 7" none).1.statements = ss ∧
      ss.map Statement.text = ["let x = ;", "return ;", "(a - (-b))", "(!c)", "7"] := by
  have h := parse_without_errors_iff "let x = 5 ) ;return\n; a - -b !c 7" none
  obtain ⟨ss, hss⟩ := h.1.1 (by decide +kernel)
  refine ⟨ss, hss, h.2 ss hss, ?_⟩
  rw [← h.2 ss hss]
  decide +kernel

end MonkeySyntax
