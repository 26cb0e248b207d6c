import MonkeySyntax.Proofs.Expression.Comparison
import MonkeySyntax.Proofs.Program.Run

/-! # Comparing runs

Parsers that are compared read alike statements, one step after another, until the second one is at
its end. The first one has then come to what only it has.
-/

namespace MonkeySyntax.Parser.Comparison

variable {c : Comparison} {p p' : Parser}

def AgreeStatement (c : Comparison) (r r' : Option Statement × Parser) : Prop :=
  Option.Rel (Statement.Alike c.same) r.1 r'.1 ∧ c.Holds r.2 r'.2

theorem agree_bindingStatement (h : c.Holds p p') (hc : c.Clear p') :
    c.AgreeStatement p.bindingStatement p'.bindingStatement := by
  unfold bindingStatement
  have hk := h.kind_peek_eq hc
  by_cases hn : p'.peek.kind = .identifier
  · have hq := h.advance hc
    have hcq : c.Clear p'.advance := fun _ => by simp [hn]
    have hkq := hq.kind_peek_eq hcq
    rw [expect_of_eq (hk.trans hn), expect_of_eq hn]
    by_cases ha : p'.advance.peek.kind = .assign
    · simp only [expect_of_eq (hkq.trans ha), expect_of_eq ha]
      rw [c.literal_eq hq.same_current]
      exact ⟨.some (.binding h.same_current hq.same_current), (hq.advance hcq).skipToEnd⟩
    · simp only [expect_of_ne (hkq ▸ ha), expect_of_ne ha]
      rw [hkq]
      exact ⟨.none, (hq.report _ (hq.same_peek hcq)).synchronize⟩
  · rw [expect_of_ne (hk ▸ hn), expect_of_ne hn, hk]
    exact ⟨.none, (h.report _ (h.same_peek hc)).synchronize⟩

theorem agree_returningStatement (h : c.Holds p p') :
    c.AgreeStatement p.returningStatement p'.returningStatement :=
  ⟨.some (.returning h.same_current), h.skipToEnd⟩

theorem agree_expressionStatement (h : c.Holds p p') :
    c.AgreeStatement p.expressionStatement p'.expressionStatement := by
  have ha : c.Agree (p.expression .lowest) (p'.expression .lowest) := agree_expression h
  unfold expressionStatement
  generalize p.expression .lowest = r at ha
  generalize p'.expression .lowest = r' at ha
  obtain ⟨o, q⟩ := r
  obtain ⟨o', q'⟩ := r'
  obtain ⟨hr, hq, -⟩ := ha
  constructor
  · cases hr with
    | none => exact .none
    | some he => exact .some (.expression h.same_current he)
  · by_cases hk : q'.peek.kind = .semicolon
    · simp only [if_pos hk, if_pos (hq.kind_peek_eq_semicolon_iff.2 hk)]
      exact hq.advance_of_peek (by simp [hk])
    · simp only [if_neg hk, if_neg (mt hq.kind_peek_eq_semicolon_iff.1 hk)]
      exact hq

theorem agree_statement (h : c.Holds p p') : c.AgreeStatement p.statement p'.statement := by
  have hr : p.rules.statement p.current.kind = p'.rules.statement p'.current.kind := by
    rw [h.rules_eq, h.rules_eq', c.statement_eq h.same_current, h.kind_current_eq]
  unfold statement
  rw [hr]
  split
  · next hb =>
    apply agree_bindingStatement h
    intro hcut hs
    rw [h.rules_eq', hs, (c.semicolon_rules hcut).1] at hb
    cases hb
  · exact agree_returningStatement h
  · exact agree_expressionStatement h
  · exact agree_expressionStatement h

/-- Behind a statement both parsers move on, or the second one comes to its end. -/
theorem Holds.advance_or (h : c.Holds p p') :
    c.Holds p.advance p'.advance ∨
      p.advance.stream.pending = c.behind ∧ p'.advance.stream.pending = [] := by
  by_cases ht : c.cut ∧ p'.stream.pending.tail = []
  · rcases h.pending_cases with ⟨-, -, hc⟩ | ⟨_, _, ts, ts', hp, hp', -, hts⟩
    · exact absurd ht.1 hc
    · obtain rfl : ts' = [] := by simpa [hp'] using ht.2
      cases hts
      exact .inr ⟨by simp [hp], by simp [hp']⟩
  · exact .inl (h.advance_of_tail fun hc ht' => ht ⟨hc, ht'⟩)

/-- The first parser reads what the second one reads, and then it reads on. -/
theorem exists_runs_append {ss' : List Statement} {r' : Parser} (hrun : Runs p' ss' r')
    (h : c.Holds p p') :
    ∃ ss q, List.Forall₂ (Statement.Alike c.same) ss ss' ∧ c.Level q r' ∧
      q.stream.pending = c.behind ∧ q.stream.ending = p.stream.ending ∧
      ∀ us r, Runs q us r → Runs p (ss ++ us) r := by
  induction hrun generalizing p with
  | @stop p' he =>
    rcases h.pending_cases with ⟨hp, -, hc⟩ | ⟨_, _, _, _, -, hp', -, -⟩
    · exact ⟨[], p, .nil, h.toLevel, by rw [hp, c.behind_eq_nil hc], rfl, fun _ _ hr => hr⟩
    · rw [kind_current_eq_eof_iff, hp'] at he
      cases he
  | @step p' q' r' o' ss' he hs hr ih =>
    obtain ⟨hres, hq⟩ := agree_statement h
    rw [hs] at hres hq
    have hne : p.current.kind ≠ .eof := by rwa [h.kind_current_eq]
    have hend := (outcome_statement p).ending_eq
    have hss : List.Forall₂ (Statement.Alike c.same) p.statement.1.toList o'.toList := by
      generalize p.statement.1 = o at hres
      cases hres with
      | none => exact .nil
      | some ha => exact .cons ha .nil
    rcases hq.advance_or with hadv | ⟨hb, hb'⟩
    · obtain ⟨ss, r, hss', hl, hp, he', hruns⟩ := ih hadv
      refine ⟨p.statement.1.toList ++ ss, r, List.rel_append hss hss', hl, hp, he'.trans hend, ?_⟩
      intro us t ht
      rw [List.append_assoc]
      exact .step hne rfl (hruns us t ht)
    · obtain ⟨rfl, rfl⟩ := hr.unique (.stop (kind_current_eq_eof_iff.2 hb'))
      refine ⟨p.statement.1.toList, p.statement.2.advance, by simpa using hss, ?_, hb, hend,
        fun us t ht => .step hne rfl ht⟩
      exact ⟨hq.rules_eq, hq.rules_eq', hq.depth_eq, hq.errors⟩

end MonkeySyntax.Parser.Comparison
