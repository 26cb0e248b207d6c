import Mathlib.Logic.Function.Iterate
import MonkeySyntax.Parser.Basic

/-! # The window of a parser

The window shows the first two of the pending tokens. Moving on drops one of them, and changes
nothing else but the log.
-/

namespace MonkeySyntax.Parser

def setDepth (d : Nat) (p : Parser) : Parser := { p with depth := d }

section SetDepth

variable (d d' : Nat) (p : Parser)

@[simp] theorem stream_setDepth : (p.setDepth d).stream = p.stream := rfl

@[simp] theorem rules_setDepth : (p.setDepth d).rules = p.rules := rfl

@[simp] theorem depth_setDepth : (p.setDepth d).depth = d := rfl

@[simp] theorem errors_setDepth : (p.setDepth d).errors = p.errors := rfl

@[simp] theorem setDepth_setDepth : (p.setDepth d).setDepth d' = p.setDepth d' := rfl

@[simp] theorem setDepth_depth : p.setDepth p.depth = p := rfl

theorem leave_eq_setDepth : p.leave = p.setDepth (p.depth - 1) := rfl

end SetDepth

theorem pending_advance (p : Parser) : p.advance.stream.pending = p.stream.pending.tail := rfl

section Iterate

variable (n : Nat) (p : Parser)

@[simp] theorem pending_iterate_advance :
    (advance^[n] p).stream.pending = p.stream.pending.drop n := by
  induction n with
  | zero => rfl
  | succ n ih => simp [Function.iterate_succ_apply', ih]

theorem apply_iterate_advance {α : Type} (f : Parser → α) (h : ∀ q : Parser, f q.advance = f q) :
    f (advance^[n] p) = f p := by
  induction n with
  | zero => rfl
  | succ n ih => rw [Function.iterate_succ_apply', h, ih]

@[simp] theorem rules_iterate_advance : (advance^[n] p).rules = p.rules :=
  apply_iterate_advance n p (·.rules) fun _ => rfl

@[simp] theorem depth_iterate_advance : (advance^[n] p).depth = p.depth :=
  apply_iterate_advance n p (·.depth) fun _ => rfl

@[simp] theorem errors_iterate_advance : (advance^[n] p).errors = p.errors :=
  apply_iterate_advance n p (·.errors) fun _ => rfl

theorem iterate_advance_setDepth (d : Nat) :
    advance^[n] (p.setDepth d) = (advance^[n] p).setDepth d := by
  induction n with
  | zero => rfl
  | succ n ih =>
    rw [Function.iterate_succ_apply', Function.iterate_succ_apply', ih]
    rfl

end Iterate

variable {p : Parser} {kind : TokenKind}

theorem expect_of_eq (h : p.peek.kind = kind) : p.expect kind = (true, p.advance) := if_pos h

theorem expect_of_ne (h : p.peek.kind ≠ kind) :
    p.expect kind = (false, p.report (.unexpectedNext kind p.peek.kind) p.peek.start) :=
  if_neg h

theorem enter_of_lt (h : p.depth < maxDepth) : p.enter = (true, p.setDepth (p.depth + 1)) :=
  if_pos h

theorem enter_of_not_lt (h : ¬ p.depth < maxDepth) : p.enter = (false, p.refuse) := if_neg h

theorem current_of_pending {t : Token} {ts : List Token} (h : p.stream.pending = t :: ts) :
    p.current = t := by
  simp [current, TokenStream.current, h]

theorem peek_of_pending {t : Token} {ts : List Token} (h : p.stream.pending.tail = t :: ts) :
    p.peek = t := by
  simp [peek, TokenStream.peek, h]

theorem kind_current_eq_eof_iff : p.current.kind = .eof ↔ p.stream.pending = [] :=
  p.stream.kind_current_eq_eof_iff

theorem kind_peek_eq_eof_iff : p.peek.kind = .eof ↔ p.stream.pending.tail = [] :=
  p.stream.next.kind_current_eq_eof_iff

theorem pending_of_kind_ne_eof (h : p.current.kind ≠ .eof) :
    p.stream.pending = p.current :: p.stream.pending.tail := by
  obtain ⟨t, ts, he⟩ := List.exists_cons_of_ne_nil (mt kind_current_eq_eof_iff.2 h)
  rw [current_of_pending he, he, List.tail_cons]

theorem pending_tail_of_kind_ne_eof (h : p.peek.kind ≠ .eof) :
    p.stream.pending.tail = p.peek :: p.stream.pending.tail.tail :=
  pending_of_kind_ne_eof (p := p.advance) h

theorem endsStatement_eq_false_iff {k : TokenKind} :
    endsStatement k = false ↔ k ≠ .semicolon ∧ k ≠ .eof := by
  simp [endsStatement]

end MonkeySyntax.Parser
