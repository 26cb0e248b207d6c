import MonkeySyntax.Proofs.Parser.Outcome

/-! # Runs of a parser

A run reads statements until the end of the stream. `Runs` describes it without a bound on the
number of statements; it is deterministic, and `parse` gives what the run of a source gives.
-/

namespace MonkeySyntax

namespace Parser

/-- Reading statements to the end of the stream gives these statements and this parser. -/
inductive Runs : Parser → List Statement → Parser → Prop where
  | stop {p : Parser} (h : p.current.kind = .eof) : Runs p [] p
  | step {p q r : Parser} {s : Option Statement} {ss : List Statement}
      (h : p.current.kind ≠ .eof) (hs : p.statement = (s, q)) (hr : Runs q.advance ss r) :
      Runs p (s.toList ++ ss) r

variable {p q r r' : Parser} {s : Option Statement} {ss ss' : List Statement}

theorem length_pending_after_statement (h : p.current.kind ≠ .eof) (hs : p.statement = (s, q)) :
    q.advance.stream.pending.length < p.stream.pending.length := by
  have hq : q.stream.pending.length ≤ p.stream.pending.length :=
    (outcome_of_statement_eq hs).length_le
  have hp := List.length_pos_iff.2 (mt kind_current_eq_eof_iff.2 h)
  simp only [pending_advance, List.length_tail]
  omega

theorem runs_statementsWithin {turns : Nat} (h : p.stream.pending.length ≤ turns) :
    Runs p (p.statementsWithin turns).1 (p.statementsWithin turns).2 := by
  induction turns generalizing p with
  | zero =>
    have : p.stream.pending = [] := List.eq_nil_of_length_eq_zero (Nat.le_zero.1 h)
    exact .stop (kind_current_eq_eof_iff.2 this)
  | succ turns ih =>
    rw [statementsWithin]
    split
    · next he => exact .stop he
    · next he =>
      have := length_pending_after_statement he rfl
      exact .step he rfl (ih (by omega))

theorem Runs.unique (h : Runs p ss r) (h' : Runs p ss' r') : ss = ss' ∧ r = r' := by
  induction h generalizing ss' r' with
  | stop he =>
    cases h' with
    | stop _ => exact ⟨rfl, rfl⟩
    | step he' => exact absurd he he'
  | step he hs _ ih =>
    cases h' with
    | stop he' => exact absurd he' he
    | step _ hs' hr' =>
      obtain ⟨rfl, rfl⟩ := Prod.mk.inj (hs.symm.trans hs')
      obtain ⟨rfl, rfl⟩ := ih hr'
      exact ⟨rfl, rfl⟩

theorem exists_runs (p : Parser) : ∃ ss r, Runs p ss r :=
  ⟨_, _, runs_statementsWithin (Nat.le_refl _)⟩

theorem Runs.depth_eq (h : Runs p ss r) : r.depth = p.depth := by
  induction h with
  | stop _ => rfl
  | step _ hs _ ih => exact ih.trans (outcome_of_statement_eq hs).depth_eq

theorem Runs.size_errors_le (h : Runs p ss r) : p.errors.size ≤ r.errors.size := by
  induction h with
  | stop _ => exact Nat.le_refl _
  | step _ hs _ ih => exact Nat.le_trans (outcome_of_statement_eq hs).size_errors_le ih

theorem parse_eq_of_runs {source : String} {file : Option String}
    (h : Runs (ofSource source file) ss r) : parse source file = (⟨ss⟩, r.errors.toList) := by
  obtain ⟨hss, hr⟩ := (runs_statementsWithin (Nat.le_refl _)).unique h
  simp only [parse, program]
  rw [hss, hr]

end Parser

end MonkeySyntax
