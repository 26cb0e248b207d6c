import Mathlib.Order.Bounds.Basic
import MonkeySyntax.Proofs.Expression.Duration
import MonkeySyntax.Proofs.Program.Attempt
import MonkeySyntax.Proofs.Token.Delivery

/-! # Resumption

Where reading resumes is an index of the stream. Skipping stops at the least index at which it may,
so behind a `let` the next attempt begins at one that the tokens alone tell.
-/

namespace MonkeySyntax

namespace TokenStream

def tokenAt (s : TokenStream) (k : Nat) : Token := s.pending.getD k s.ending

variable (s : TokenStream) (k : Nat)

theorem current_iterate_next : (next^[k] s).current = s.tokenAt k := by
  rw [current, pending_iterate_next, ending_iterate_next, tokenAt, List.headD_eq_head?_getD,
    List.head?_drop, List.getD_eq_getElem?_getD]

theorem kind_tokenAt_eq_eof_iff : (s.tokenAt k).kind = .eof ↔ s.pending.length ≤ k := by
  rw [← current_iterate_next, kind_current_eq_eof_iff, pending_iterate_next, List.drop_eq_nil_iff]

end TokenStream

namespace Parser

def StandsAt (s : TokenStream) (k : Nat) (p : Parser) : Prop := p.stream = TokenStream.next^[k] s

/-- A broken statement is given up at an index: it ends there, or another one comes next. -/
def GivesUpAt (s : TokenStream) (j : Nat) : Prop :=
  (s.tokenAt j).kind = .semicolon ∨ (s.tokenAt j).kind = .eof ∨
    (s.tokenAt (j + 1)).kind = .letWord ∨ (s.tokenAt (j + 1)).kind = .returnWord

instance (s : TokenStream) (j : Nat) : Decidable (GivesUpAt s j) :=
  inferInstanceAs (Decidable (_ ∨ _))

/-- The next attempt begins at an index of the stream, and there is none if the stream has ended. -/
structure GoesOnAt (s : TokenStream) (k : Nat) (rest : List Parser) : Prop where
  ends : (s.tokenAt k).kind = .eof → rest = []
  begins : (s.tokenAt k).kind ≠ .eof → ∃ r, rest.head? = some r ∧ StandsAt s k r

/-- The attempt matches the tokens up to an index, reports the one behind it, and gives up. -/
structure Abandons (s : TokenStream) (k : Nat) (expected : TokenKind) (q : Parser)
    (rest : List Parser) : Prop where
  statement_eq : q.statement.1 = none
  errors_eq : q.statement.2.errors = q.errors.push
    ⟨.unexpectedNext expected (s.tokenAt (k + 1)).kind, (s.tokenAt (k + 1)).start⟩
  resumes : ∃ j, IsLeast {j | k ≤ j ∧ GivesUpAt s j} j ∧ GoesOnAt s (j + 1) rest

variable {s : TokenStream} {i j k : Nat} {p q : Parser} {front rest : List Parser}
  {more : Parser → Bool}

/-! ### Indices -/

namespace StandsAt

theorem current (h : StandsAt s k p) : p.current = s.tokenAt k := by
  rw [Parser.current, h, TokenStream.current_iterate_next]

theorem advance (h : StandsAt s k p) : StandsAt s (k + 1) p.advance := by
  rw [StandsAt, Function.iterate_succ_apply', ← h]
  rfl

theorem peek (h : StandsAt s k p) : p.peek = s.tokenAt (k + 1) := h.advance.current

/-- Skipping moves to the least index at which it may stop. -/
theorem skipWhile {stop : Nat → Prop} (h : StandsAt s k p)
    (hstop : ∀ {j q}, StandsAt s j q → (more q = false ↔ stop j))
    (hm : ∀ q : Parser, more q = true → q.stream.pending ≠ []) :
    ∃ j, IsLeast {j | k ≤ j ∧ stop j} j ∧ StandsAt s j (p.skipWhile more) := by
  fun_induction Parser.skipWhile more p generalizing k with
  | case1 p hp ih =>
    obtain ⟨j, ⟨⟨hkj, hj⟩, hleast⟩, hat⟩ := ih h.advance
    refine ⟨j, ⟨⟨by omega, hj⟩, ?_⟩, hat⟩
    rintro j' ⟨hkj', hj'⟩
    have hne : j' ≠ k := by
      rintro rfl
      rw [(hstop h).2 hj'] at hp
      exact Bool.false_ne_true hp.1
    exact hleast ⟨by omega, hj'⟩
  | case2 p hp =>
    have hfalse : more p = false := by
      by_contra hne
      rw [Bool.not_eq_false] at hne
      exact hp ⟨hne, hm p hne⟩
    exact ⟨k, ⟨⟨Nat.le_refl k, (hstop h).1 hfalse⟩, fun j' hj' => hj'.1⟩, h⟩

theorem synchronize (h : StandsAt s k p) :
    ∃ j, IsLeast {j | k ≤ j ∧ GivesUpAt s j} j ∧ StandsAt s j p.synchronize := by
  have hstop {j : Nat} {q : Parser} (hq : StandsAt s j q) :
      q.inBroken = false ↔ GivesUpAt s j := by
    simp only [inBroken, hq.current, hq.peek, GivesUpAt, endsStatement, startsStatement,
      Bool.and_eq_false_iff, Bool.not_eq_false', decide_eq_true_eq, or_assoc]
  exact h.skipWhile hstop fun _ => pending_ne_nil_of_inBroken

theorem skipToEnd (h : StandsAt s k p) :
    ∃ j, IsLeast {j | k ≤ j ∧ ((s.tokenAt j).kind = .semicolon ∨ (s.tokenAt j).kind = .eof)} j ∧
      StandsAt s j p.skipToEnd := by
  have hstop {j : Nat} {q : Parser} (hq : StandsAt s j q) : q.inStatement = false ↔
      ((s.tokenAt j).kind = .semicolon ∨ (s.tokenAt j).kind = .eof) := by
    simp only [inStatement, hq.current, endsStatement, Bool.not_eq_false', decide_eq_true_eq]
  exact h.skipWhile hstop fun _ => pending_ne_nil_of_inStatement

theorem goesOnAt (h : StandsAt s k p) : GoesOnAt s k p.attempts where
  ends he := attempts_of_eof (by rw [h.current, he])
  begins hne := by
    rw [← h.current] at hne
    exact ⟨p, by rw [attempts_of_ne hne]; rfl, h⟩

end StandsAt

theorem attempts_behind (h : p.attempts = front ++ q :: rest) : rest = q.following.attempts := by
  fun_induction attempts p generalizing front with
  | case1 p he => simp at h
  | case2 p he ih =>
    cases front with
    | nil =>
      obtain ⟨rfl, rfl⟩ := List.cons.inj h
      rfl
    | cons p' front => exact ih (List.cons.inj h).2

/-! ### Attempts at a `let` -/

theorem StandsAt.abandons {m : Parser} {expected : TokenKind} (h : StandsAt s k m)
    (he : m.errors = q.errors)
    (hs : q.statement = (none,
      (m.report (.unexpectedNext expected m.peek.kind) m.peek.start).synchronize)) :
    Abandons s k expected q q.following.attempts := by
  -- a report changes no token
  have hreport : StandsAt s k (m.report (.unexpectedNext expected m.peek.kind) m.peek.start) := h
  obtain ⟨j, hj, hat⟩ := hreport.synchronize
  refine ⟨by rw [hs], ?_, j, hj, ?_⟩
  · rw [hs, ← h.peek, ← he]
    exact (quiet_skipWhile _ (m.report _ _)).errors_eq
  · rw [following, hs]
    exact hat.advance.goesOnAt

section Binding

variable (hs : q.statement = q.bindingStatement) (hi : StandsAt s i q)

include hs hi

theorem abandons_of_no_name (hn : (s.tokenAt (i + 1)).kind ≠ .identifier) :
    Abandons s i .identifier q q.following.attempts := by
  rw [← hi.peek] at hn
  apply hi.abandons rfl
  rw [hs, bindingStatement, expect_of_ne hn]

theorem abandons_of_no_assign (hn : (s.tokenAt (i + 1)).kind = .identifier)
    (ha : (s.tokenAt (i + 2)).kind ≠ .assign) :
    Abandons s (i + 1) .assign q q.following.attempts := by
  rw [← hi.peek] at hn
  rw [← hi.advance.peek] at ha
  apply hi.advance.abandons (errors_advance q)
  rw [hs, bindingStatement, expect_of_eq hn]
  simp only [expect_of_ne ha]

theorem statement_of_name_of_assign (hn : (s.tokenAt (i + 1)).kind = .identifier)
    (ha : (s.tokenAt (i + 2)).kind = .assign) :
    q.statement = (some (.binding (s.tokenAt i) (s.tokenAt (i + 1)) (s.tokenAt (i + 1)).literal),
      q.advance.advance.skipToEnd) := by
  rw [← hi.peek] at hn
  rw [← hi.advance.peek] at ha
  rw [hs, bindingStatement, expect_of_eq hn]
  simp only [expect_of_eq ha, hi.current, hi.advance.current]

/-- A `let` statement that is read goes up to the first semicolon, or to the end of the stream. -/
theorem goesOnAt_of_name_of_assign (hn : (s.tokenAt (i + 1)).kind = .identifier)
    (ha : (s.tokenAt (i + 2)).kind = .assign) :
    (∀ j, IsLeast {j | i + 3 ≤ j ∧ (s.tokenAt j).kind = .semicolon} j →
      GoesOnAt s (j + 1) q.following.attempts) ∧
    ((∀ j, i + 3 ≤ j → (s.tokenAt j).kind ≠ .semicolon) → q.following.attempts = []) := by
  obtain ⟨e, ⟨⟨hle, he⟩, hleast⟩, hat⟩ := hi.advance.advance.skipToEnd
  have hgoes : GoesOnAt s (e + 1) q.following.attempts := by
    rw [following, statement_of_name_of_assign hs hi hn ha]
    exact hat.advance.goesOnAt
  have hne : e ≠ i + 2 := by
    rintro rfl
    simp [ha] at he
  constructor
  · rintro j ⟨⟨hj, hk⟩, hfirst⟩
    have hej : e ≤ j := hleast ⟨by omega, .inl hk⟩
    rcases he with he | he
    · have hje : j ≤ e := hfirst ⟨by omega, he⟩
      rwa [Nat.le_antisymm hje hej]
    · -- behind the end of the stream there is no semicolon
      have hend : (s.tokenAt j).kind = .eof :=
        (s.kind_tokenAt_eq_eof_iff j).2
          (Nat.le_trans ((s.kind_tokenAt_eq_eof_iff e).1 he) hej)
      rw [hk] at hend
      cases hend
  · intro hno
    have he' : (s.tokenAt e).kind = .eof := he.resolve_left (hno e (by omega))
    have hlength := (s.kind_tokenAt_eq_eof_iff e).1 he'
    exact hgoes.ends ((s.kind_tokenAt_eq_eof_iff (e + 1)).2 (by omega))

end Binding

/-- Where a program attempts a `let`, the next two tokens decide. If they are not a name and `=`,
the first that is not as it should be is reported, and the next attempt begins behind the first
index, from the last token that matched, at which the statement ends or another one comes next.
Otherwise the statement is kept and goes up to the first semicolon behind `=`. -/
theorem resumes_behind_binding (hr : p.rules.statement .letWord = some .binding)
    (ha : p.attempts = front ++ q :: rest) (hi : StandsAt p.stream i q)
    (hk : (p.stream.tokenAt i).kind = .letWord) :
    ((p.stream.tokenAt (i + 1)).kind ≠ .identifier →
      Abandons p.stream i .identifier q rest) ∧
    ((p.stream.tokenAt (i + 1)).kind = .identifier → (p.stream.tokenAt (i + 2)).kind ≠ .assign →
      Abandons p.stream (i + 1) .assign q rest) ∧
    ((p.stream.tokenAt (i + 1)).kind = .identifier → (p.stream.tokenAt (i + 2)).kind = .assign →
      q.statement.1 = some (.binding (p.stream.tokenAt i) (p.stream.tokenAt (i + 1))
        (p.stream.tokenAt (i + 1)).literal) ∧
      q.statement.2.errors = q.errors ∧
      (∀ j, IsLeast {j | i + 3 ≤ j ∧ (p.stream.tokenAt j).kind = .semicolon} j →
        GoesOnAt p.stream (j + 1) rest) ∧
      ((∀ j, i + 3 ≤ j → (p.stream.tokenAt j).kind ≠ .semicolon) → rest = [])) := by
  have hq : q ∈ p.attempts := ha ▸ List.mem_append_right front List.mem_cons_self
  have hs : q.statement = q.bindingStatement := by
    rw [statement, rules_of_mem_attempts hq, hi.current, hk, hr]
  rw [attempts_behind ha]
  refine ⟨abandons_of_no_name hs hi, abandons_of_no_assign hs hi, ?_⟩
  intro hname hassign
  have heq := statement_of_name_of_assign hs hi hname hassign
  refine ⟨by rw [heq], ?_, goesOnAt_of_name_of_assign hs hi hname hassign⟩
  exact (outcome_statement q).errors_eq (by rw [heq]; rfl)

theorem isLeast_succ {P : Nat → Prop} (h : ¬ P k) (h' : P (k + 1)) :
    IsLeast {j | k ≤ j ∧ P j} (k + 1) := by
  refine ⟨⟨Nat.le_succ k, h'⟩, ?_⟩
  rintro j ⟨hle, hj⟩
  have hne : j ≠ k := by
    rintro rfl
    exact h hj
  omega

theorem resumes_behind_binding_twice :
    let p := ofSource "let x 5 let y = 1;;" none
    ∃ r rest, p.attempts = p :: r :: rest ∧ p.statement.1 = none ∧
      p.statement.2.errors = #[⟨.unexpectedNext .assign .integer, ⟨6, "shell"⟩⟩] ∧
      StandsAt p.stream 3 r ∧
      r.statement.1 = some (.binding (p.stream.tokenAt 3) (p.stream.tokenAt 4) "y") ∧
      r.statement.2.errors = r.errors ∧ ∃ q, rest.head? = some q ∧ StandsAt p.stream 8 q := by
  intro p
  have hp : p.attempts = [] ++ p :: p.following.attempts := attempts_of_ne (by decide +kernel)
  obtain ⟨-, hbroken, -⟩ := resumes_behind_binding (i := 0) rfl hp rfl (by decide +kernel)
  obtain ⟨hnone, herrors, j, hj, hgoes⟩ := hbroken (by decide +kernel) (by decide +kernel)
  have hleast : IsLeast {j | 1 ≤ j ∧ GivesUpAt p.stream j} 2 :=
    isLeast_succ (by decide +kernel) (by decide +kernel)
  rw [hj.unique hleast] at hgoes
  obtain ⟨r, hr, hat⟩ := hgoes.begins (by decide +kernel)
  obtain ⟨rest, hrest⟩ := List.head?_eq_some_iff.1 hr
  rw [hrest] at hp
  have hp' : p.attempts = [p] ++ r :: rest := hp
  obtain ⟨-, -, hkept⟩ := resumes_behind_binding rfl hp' hat (by decide +kernel)
  obtain ⟨hsome, hquiet, hbehind, -⟩ := hkept (by decide +kernel) (by decide +kernel)
  have hfirst : IsLeast {j | 6 ≤ j ∧ (p.stream.tokenAt j).kind = .semicolon} 7 :=
    isLeast_succ (by decide +kernel) (by decide +kernel)
  have hliteral : (p.stream.tokenAt 4).literal = "y" := by decide +kernel
  have herror : p.errors.push ⟨.unexpectedNext .assign (p.stream.tokenAt 2).kind,
      (p.stream.tokenAt 2).start⟩ = #[⟨.unexpectedNext .assign .integer, ⟨6, "shell"⟩⟩] := by
    decide +kernel
  rw [hliteral] at hsome
  exact ⟨r, rest, hp, hnone, herrors.trans herror, hat, hsome, hquiet,
    (hbehind 7 hfirst).begins (by decide +kernel)⟩

end Parser

end MonkeySyntax
