import MonkeySyntax.Proofs.Parser.Outcome
import MonkeySyntax.Proofs.Tree.Correspondence

/-! # Comparing parsers

Two parsers that read corresponding tokens find corresponding trees and errors. They may read to the
ends of their streams, or only the second one does: then its tokens end with a semicolon, and what
the first one has behind that makes no difference before it gets there.
-/

namespace MonkeySyntax

namespace Parser

/-- What is fixed while two parsers are compared. -/
structure Comparison where
  same : Token → Token → Prop
  rules : Rules
  rules' : Rules
  /-- The errors that only the first parser had at the start. -/
  earlier : List SyntaxError
  /-- The second parser's tokens end with a semicolon. -/
  cut : Prop
  /-- The tokens that only the first parser has, behind that semicolon. -/
  behind : List Token
  kind_eq : ∀ {t t'}, same t t' → t.kind = t'.kind
  literal_eq : ∀ {t t'}, same t t' → t.literal = t'.literal
  statement_eq : ∀ {t t'}, same t t' → rules.statement t.kind = rules'.statement t.kind
  operand_eq : ∀ {t t'}, same t t' → rules.operand t.kind = rules'.operand t.kind
  infixOp_eq : ∀ {t t'}, same t t' → .lowest < t.kind.precedence →
    rules.infixOp t.kind = rules'.infixOp t.kind
  behind_eq_nil : ¬ cut → behind = []
  head_behind : cut → ∀ t ∈ behind.head?, t.kind ≠ .semicolon
  /-- No rule reads on from a semicolon. -/
  semicolon_rules : cut → rules'.statement .semicolon = none ∧ rules'.operand .semicolon = none

namespace Comparison

/-- The parsers differ in no more than what they have still to read, and in what is fixed. -/
structure Level (c : Comparison) (p p' : Parser) : Prop where
  rules_eq : p.rules = c.rules
  rules_eq' : p'.rules = c.rules'
  depth_eq : p.depth = p'.depth
  errors : ∃ es, p.errors.toList = c.earlier ++ es ∧
    List.Forall₂ (SyntaxError.Alike c.same) es p'.errors.toList

/-- The parsers have corresponding tokens to read, up to the cut if there is one. -/
structure Holds (c : Comparison) (p p' : Parser) : Prop extends Level c p p' where
  pending : ∃ ts, p.stream.pending = ts ++ c.behind ∧ List.Forall₂ c.same ts p'.stream.pending
  ending : ¬ c.cut → c.same p.stream.ending p'.stream.ending
  semicolon : c.cut → ∃ t ∈ p'.stream.pending.getLast?, t.kind = .semicolon

/-- The second parser does not stand at a cut. -/
def Clear (c : Comparison) (p' : Parser) : Prop := c.cut → p'.current.kind ≠ .semicolon

variable {c : Comparison} {p p' : Parser}

theorem Level.report (h : c.Level p p') (cause : SyntaxError.Cause) {t t' : Token}
    (ht : c.same t t') : c.Level (p.report cause t.start) (p'.report cause t'.start) where
  rules_eq := h.rules_eq
  rules_eq' := h.rules_eq'
  depth_eq := h.depth_eq
  errors := by
    obtain ⟨es, he, hes⟩ := h.errors
    refine ⟨es ++ [⟨cause, t.start⟩], ?_, ?_⟩
    · rw [errors_report, Array.toList_push, he, List.append_assoc]
    · rw [errors_report, Array.toList_push]
      exact List.rel_append hes (.cons ⟨rfl, t, t', ht, rfl, rfl⟩ .nil)

namespace Holds

theorem report (h : c.Holds p p') (cause : SyntaxError.Cause) {t t' : Token}
    (ht : c.same t t') : c.Holds (p.report cause t.start) (p'.report cause t'.start) where
  toLevel := h.toLevel.report cause ht
  pending := h.pending
  ending := h.ending
  semicolon := h.semicolon

theorem setDepth (h : c.Holds p p') (d : Nat) : c.Holds (p.setDepth d) (p'.setDepth d) where
  rules_eq := h.rules_eq
  rules_eq' := h.rules_eq'
  depth_eq := rfl
  errors := h.errors
  pending := h.pending
  ending := h.ending
  semicolon := h.semicolon

theorem leave (h : c.Holds p p') : c.Holds p.leave p'.leave := by
  rw [leave_eq_setDepth, leave_eq_setDepth, h.depth_eq]
  exact h.setDepth _

theorem pending_cases (h : c.Holds p p') :
    (p.stream.pending = [] ∧ p'.stream.pending = [] ∧ ¬ c.cut) ∨
      ∃ t t' ts ts', p.stream.pending = t :: (ts ++ c.behind) ∧ p'.stream.pending = t' :: ts' ∧
        c.same t t' ∧ List.Forall₂ c.same ts ts' := by
  obtain ⟨ts, hp, hts⟩ := h.pending
  generalize hp' : p'.stream.pending = ts' at hts
  cases hts with
  | nil =>
    have hc : ¬ c.cut := by
      intro hc
      simpa [hp'] using h.semicolon hc
    exact .inl ⟨by rw [hp, c.behind_eq_nil hc]; rfl, rfl, hc⟩
  | cons ht hts => exact .inr ⟨_, _, _, _, hp, rfl, ht, hts⟩

theorem pending_eq_nil_iff (h : c.Holds p p') :
    p.stream.pending = [] ↔ p'.stream.pending = [] := by
  rcases h.pending_cases with ⟨hp, hp', -⟩ | ⟨_, _, _, _, hp, hp', -, -⟩ <;> simp [hp, hp']

theorem same_current (h : c.Holds p p') : c.same p.current p'.current := by
  rcases h.pending_cases with ⟨hp, hp', hc⟩ | ⟨t, t', _, _, hp, hp', ht, -⟩
  · simpa [Parser.current, TokenStream.current, hp, hp'] using h.ending hc
  · rwa [current_of_pending hp, current_of_pending hp']

theorem kind_current_eq (h : c.Holds p p') : p.current.kind = p'.current.kind :=
  c.kind_eq h.same_current

theorem advance_of_tail (h : c.Holds p p') (hc : c.cut → p'.stream.pending.tail ≠ []) :
    c.Holds p.advance p'.advance where
  toLevel := ⟨h.rules_eq, h.rules_eq', h.depth_eq, h.errors⟩
  pending := by
    rcases h.pending_cases with ⟨hp, hp', hc⟩ | ⟨_, _, ts, ts', hp, hp', -, hts⟩
    · exact ⟨[], by simp [hp, c.behind_eq_nil hc], by simp [hp']⟩
    · exact ⟨ts, by simp [hp], by simpa [hp'] using hts⟩
  ending := h.ending
  semicolon hcut := by
    obtain ⟨t, ht, hk⟩ := h.semicolon hcut
    obtain ⟨u, us, hu⟩ := List.exists_cons_of_ne_nil (hc hcut)
    rcases h.pending_cases with ⟨-, -, hc⟩ | ⟨_, _, ts, ts', -, hp', -, -⟩
    · exact absurd hcut hc
    · simp only [hp', List.tail_cons] at hu
      refine ⟨t, ?_, hk⟩
      rw [hp', hu, List.getLast?_cons_cons] at ht
      rwa [pending_advance, hp', hu, List.tail_cons]

theorem tail_ne_nil (h : c.Holds p p') (hcl : c.Clear p') (hc : c.cut) :
    p'.stream.pending.tail ≠ [] := by
  intro ht
  obtain ⟨t, hl, hk⟩ := h.semicolon hc
  rcases h.pending_cases with ⟨-, -, hc'⟩ | ⟨_, t', _, ts', -, hp', -, -⟩
  · exact hc' hc
  · obtain rfl : ts' = [] := by simpa [hp'] using ht
    obtain rfl : t' = t := by simpa [hp'] using hl
    exact hcl hc (by rw [current_of_pending hp', hk])

theorem advance (h : c.Holds p p') (hc : c.Clear p') : c.Holds p.advance p'.advance :=
  h.advance_of_tail (h.tail_ne_nil hc)

theorem same_peek (h : c.Holds p p') (hc : c.Clear p') : c.same p.peek p'.peek :=
  (h.advance hc).same_current

theorem kind_peek_eq (h : c.Holds p p') (hc : c.Clear p') : p.peek.kind = p'.peek.kind :=
  c.kind_eq (h.same_peek hc)

/-- Also at a cut the parsers agree on whether a semicolon comes next: there none does. -/
theorem kind_peek_eq_semicolon_iff (h : c.Holds p p') :
    p.peek.kind = .semicolon ↔ p'.peek.kind = .semicolon := by
  by_cases ht : c.cut ∧ p'.stream.pending.tail = []
  · obtain ⟨hc, ht⟩ := ht
    have hk' : p'.peek.kind = .eof := kind_peek_eq_eof_iff.2 ht
    rcases h.pending_cases with ⟨-, -, hc'⟩ | ⟨_, _, ts, ts', hp, hp', -, hts⟩
    · exact absurd hc hc'
    · obtain rfl : ts' = [] := by simpa [hp'] using ht
      cases hts
      have hb := c.head_behind hc
      cases hbeh : c.behind with
      | nil =>
        have hk : p.peek.kind = .eof := kind_peek_eq_eof_iff.2 (by simp [hp, hbeh])
        simp [hk, hk']
      | cons t ts =>
        have hpeek : p.peek = t := peek_of_pending (by rw [hp, hbeh]; rfl)
        rw [hpeek, hk']
        simpa using hb t (by rw [hbeh]; rfl)
  · have := (h.advance_of_tail fun hc ht' => ht ⟨hc, ht'⟩).kind_current_eq
    rw [current_advance, current_advance] at this
    rw [this]

theorem advance_of_peek (h : c.Holds p p') (hk : p'.peek.kind ≠ .eof) :
    c.Holds p.advance p'.advance :=
  h.advance_of_tail fun _ => mt kind_peek_eq_eof_iff.2 hk

theorem skipWhile {more : Parser → Bool} (h : c.Holds p p')
    (hm : ∀ {q q'}, c.Holds q q' → more q = more q')
    (hc : ∀ {q'}, more q' = true → c.Clear q') :
    c.Holds (p.skipWhile more) (p'.skipWhile more) := by
  fun_induction Parser.skipWhile more p generalizing p' with
  | case1 p hp ih =>
    have hp' : more p' = true ∧ p'.stream.pending ≠ [] :=
      ⟨hm h ▸ hp.1, mt h.pending_eq_nil_iff.2 hp.2⟩
    have he : p'.skipWhile more = p'.advance.skipWhile more := by
      rw [Parser.skipWhile, if_pos hp']
    rw [he]
    exact ih (h.advance (hc hp'.1))
  | case2 p hp =>
    have hp' : ¬ (more p' = true ∧ p'.stream.pending ≠ []) := fun hp' =>
      hp ⟨hm h ▸ hp'.1, mt h.pending_eq_nil_iff.1 hp'.2⟩
    have he : p'.skipWhile more = p' := by rw [Parser.skipWhile, if_neg hp']
    rwa [he]

theorem clear_of_not_endsStatement (hk : endsStatement p'.current.kind = false) : c.Clear p' := by
  intro _ hs
  simp [endsStatement, hs] at hk

theorem skipToEnd (h : c.Holds p p') : c.Holds p.skipToEnd p'.skipToEnd := by
  apply h.skipWhile
  · intro q q' hq
    rw [hq.kind_current_eq]
  · intro q' hq'
    exact clear_of_not_endsStatement (by simpa using hq')

theorem synchronize (h : c.Holds p p') : c.Holds p.synchronize p'.synchronize := by
  apply h.skipWhile
  · intro q q' hq
    rw [hq.kind_current_eq]
    cases hk : endsStatement q'.current.kind with
    | true => rfl
    | false => rw [hq.kind_peek_eq (clear_of_not_endsStatement hk)]
  · intro q' hq'
    rw [Bool.and_eq_true] at hq'
    exact clear_of_not_endsStatement (by simpa using hq'.1)

theorem refuse (h : c.Holds p p') : c.Holds p.refuse p'.refuse :=
  (h.report (.tooDeep maxDepth) h.same_current).synchronize

end Holds

end Comparison

end Parser

end MonkeySyntax
