import Mathlib.Data.List.Basic
import MonkeySyntax.Proofs.Program.Attempt
import MonkeySyntax.Proofs.Program.Broken

/-! # Recovery

A broken statement leaves the `let` and `return` behind it to the attempts that follow, but for one:
a `let` or `return` that stands where an operand is due, or where an expression would be nested too
deep, is the token of the error, and is lost.
-/

namespace MonkeySyntax.Parser

variable {p q s : Parser} {e : SyntaxError}

theorem Broken.taken_eq (h : Broken p e s q) (hq : p.following = q.advance) :
    ∃ front, (∀ t ∈ front.tail, startsStatement t.kind = false) ∧
      (p.taken = front ∨ ∃ back, p.taken = front ++ s.current :: back ∧
        (∀ t ∈ back, startsStatement t.kind = false) ∧
        (startsStatement s.current.kind = true →
          e.cause = .noOperand s.current.kind s.current.literal ∨ e.cause = .tooDeep 256)) := by
  obtain ⟨front, hp, hfront, -⟩ := h.reached
  have hpend := pending_eq_taken_append p
  rw [hq, hp] at hpend
  refine ⟨front, hfront, ?_⟩
  rcases h.given_up with ⟨back, hb, hback, hcause⟩ | ⟨hb, -⟩
  · rw [hb, ← List.cons_append, ← List.append_assoc] at hpend
    exact .inr ⟨back, (List.append_cancel_right hpend).symm, hback, hcause⟩
  · rw [hb] at hpend
    exact .inl (List.append_cancel_right hpend).symm

theorem Broken.start_taken (h : Broken p e s q) (hq : p.following = q.advance)
    {front back : List Token} {t : Token} (ht : p.taken = front ++ t :: back) (hf : front ≠ [])
    (hs : startsStatement t.kind = true) :
    e.position = t.start ∧ (e.cause = .noOperand t.kind t.literal ∨ e.cause = .tooDeep 256) ∧
      ∀ u ∈ front.tail ++ back, startsStatement u.kind = false := by
  have hmem {ts : List Token} (hts : ∀ u ∈ ts, startsStatement u.kind = false) : t ∉ ts := by
    intro h
    rw [hts t h] at hs
    cases hs
  obtain ⟨a, front, rfl⟩ := List.exists_cons_of_ne_nil hf
  obtain ⟨front', hfront, htaken | ⟨back', htaken, hback, hcause⟩⟩ := h.taken_eq hq
  · refine absurd ?_ (hmem hfront)
    rw [← htaken, ht]
    simp
  · rw [ht] at htaken
    cases front' with
    | nil =>
      refine absurd ?_ (hmem hback)
      rw [← (List.cons.inj htaken).2]
      simp
    | cons b front' =>
      obtain ⟨rfl, rfl, rfl⟩ :=
        (List.append_cons_inj_of_notMem (hmem hfront) (hmem hback)).1 (List.cons.inj htaken).2.symm
      refine ⟨h.position_eq, hcause hs, ?_⟩
      intro u hu
      rcases List.mem_append.1 hu with hu | hu
      · exact hfront u hu
      · exact hback u hu

/-- Behind its first token, a broken statement takes no `let` and no `return` but the token of its
error, which then says that no operand can start there or that the nesting is too deep there. The
next attempt begins with the token behind those it takes. -/
theorem broken_attempt_keeps_starts (source : String) (file : Option String) :
    ∀ q ∈ (ofSource source file).attempts, q.statement.1 = none →
      ∃ e, q.faults = [e] ∧
        (∀ front t back, q.taken = front ++ t :: back → front ≠ [] →
          startsStatement t.kind = true →
          e.position = t.start ∧
            (e.cause = .noOperand t.kind t.literal ∨ e.cause = .tooDeep 256) ∧
            ∀ u ∈ front.tail ++ back, startsStatement u.kind = false) ∧
        q.stream.pending = q.taken ++ q.following.stream.pending ∧
        (q.following.current.kind ≠ .eof → q.following ∈ (ofSource source file).attempts) := by
  intro q hq hs
  obtain ⟨r, hr⟩ : ∃ r, q.statement = (none, r) := ⟨_, Prod.ext hs rfl⟩
  have hfollow : q.following = r.advance := by rw [following, hr]
  obtain ⟨e, s, hb⟩ := exists_broken (rules_of_mem_attempts hq) hr
  refine ⟨e, faults_of_push (by rw [hr, hb.errors_eq]), ?_, pending_eq_taken_append q,
    following_mem_attempts hq⟩
  intro front t back ht hf hst
  exact hb.start_taken hfollow ht hf hst

theorem broken_attempt_keeps_starts_operand :
    ∃ e, (ofSource "a + return 1; let b = 2" none).faults = [e] ∧ e.position.offset = 4 ∧
      (e.cause = .noOperand .returnWord "return" ∨ e.cause = .tooDeep 256) ∧
      (ofSource "a + return 1; let b = 2" none).following ∈
        (ofSource "a + return 1; let b = 2" none).attempts := by
  let t : Token := ⟨.returnWord, "return", ⟨4, "shell"⟩, ⟨10, "shell"⟩⟩
  obtain ⟨e, hf, hstart, -, hnext⟩ :=
    broken_attempt_keeps_starts "a + return 1; let b = 2" none
      (ofSource "a + return 1; let b = 2" none) (mem_attempts_self (by decide +kernel))
      (by decide +kernel)
  have ht : (ofSource "a + return 1; let b = 2" none).taken =
      (ofSource "a + return 1; let b = 2" none).taken.take 2 ++ t :: [] := by decide +kernel
  obtain ⟨hp, hc, -⟩ := hstart _ t [] ht (by decide +kernel) (by decide)
  exact ⟨e, hf, by rw [hp]; rfl, hc, hnext (by decide +kernel)⟩

/-- A `let` behind an operator is lost. -/
theorem broken_attempt_loses_binding :
    ¬ ∀ (source : String) (file : Option String), ∀ q ∈ (ofSource source file).attempts,
      q.statement.1 = none → ∀ t ∈ q.taken.tail, startsStatement t.kind = false := by
  intro h
  have hlet := h "-let x = 5;" none _ (mem_attempts_self (by decide +kernel)) (by decide +kernel)
    ⟨.letWord, "let", ⟨1, "shell"⟩, ⟨4, "shell"⟩⟩ (by decide +kernel)
  exact absurd hlet (by decide)

end MonkeySyntax.Parser
