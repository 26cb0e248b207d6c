import MonkeySyntax.Proofs.Program.Attempt
import MonkeySyntax.Proofs.Program.Broken
import MonkeySyntax.Proofs.Token.Order

/-! # The places of errors

The errors of a source stand at tokens that they describe, one behind another. An error may stand
at the first token of the next attempt, but only if that is a `let` or `return`, and these are never
the tokens of the errors of their own statements.
-/

namespace MonkeySyntax

namespace Parser

def Ordered (p : Parser) : Prop :=
  p.stream.toList.Pairwise fun t t' => t.start.offset < t'.start.offset

/-- An error that an attempt at the parser, or a later one, may add: it stands behind the current
token, or at it if that token does not start a statement. -/
structure Late (p : Parser) (e : SyntaxError) : Prop where
  pending_ne_nil : p.stream.pending ≠ []
  offset_le : p.current.start.offset ≤ e.position.offset
  offset_lt : startsStatement p.current.kind = true →
    p.current.start.offset < e.position.offset

variable {p q s : Parser} {e e' : SyntaxError}

theorem current_mem_toList (p : Parser) : p.current ∈ p.stream.toList := by
  by_cases he : p.current.kind = .eof
  · simp [current, TokenStream.current, TokenStream.toList, kind_current_eq_eof_iff.1 he]
  · rw [TokenStream.toList, pending_of_kind_ne_eof he]
    exact List.mem_cons_self

theorem toList_suffix (h : q.stream.pending <:+ p.stream.pending)
    (he : q.stream.ending = p.stream.ending) : q.stream.toList <:+ p.stream.toList := by
  obtain ⟨front, hf⟩ := h
  refine ⟨front, ?_⟩
  rw [TokenStream.toList, TokenStream.toList, ← hf, he, List.append_assoc]

theorem Ordered.of_suffix (h : p.Ordered) (hs : q.stream.pending <:+ p.stream.pending)
    (he : q.stream.ending = p.stream.ending) : q.Ordered :=
  List.Pairwise.sublist (toList_suffix hs he).sublist h

theorem Ordered.offset_lt (h : p.Ordered) (hp : p.stream.pending ≠ [])
    (hs : q.stream.pending <:+ p.stream.pending.tail)
    (he : q.stream.ending = p.stream.ending) :
    p.current.start.offset < q.current.start.offset := by
  have hcons : p.stream.toList = p.current :: p.advance.stream.toList := by
    rw [TokenStream.toList, pending_of_kind_ne_eof (mt kind_current_eq_eof_iff.1 hp)]
    rfl
  rw [Ordered, hcons, List.pairwise_cons] at h
  exact h.1 _ ((toList_suffix (p := p.advance) hs he).subset q.current_mem_toList)

theorem current_eq_of_pending_eq (h : q.stream.pending = p.stream.pending)
    (he : q.stream.ending = p.stream.ending) : q.current = p.current := by
  rw [current, current, TokenStream.current, TokenStream.current, h, he]

/-- The error of an attempt stands behind the first token, or at it if that starts no statement. -/
theorem Broken.late (h : Broken p e s q) (ho : p.Ordered) (hp : p.stream.pending ≠ []) :
    Late p e := by
  obtain ⟨front, hfront, -, hne⟩ := h.reached
  cases front with
  | nil =>
    have hs : s.current = p.current := current_eq_of_pending_eq hfront.symm h.ending_eq
    refine ⟨hp, ?_, fun hst => absurd rfl (hne hst)⟩
    rw [h.position_eq, hs]
    exact UInt32.le_refl _
  | cons t front =>
    have hlt : p.current.start.offset < s.current.start.offset := by
      refine ho.offset_lt hp ?_ h.ending_eq
      rw [hfront]
      exact List.suffix_append _ _
    rw [← h.position_eq] at hlt
    exact ⟨hp, UInt32.le_of_lt hlt, fun _ => hlt⟩

theorem Broken.offset_lt (h : Broken p e s q) (ho : p.Ordered)
    (hq : q.stream.ending = p.stream.ending) (hl : Late q.advance e') :
    e.position.offset < e'.position.offset := by
  obtain ⟨front, hfront, -⟩ := h.reached
  have hend : q.advance.stream.ending = s.stream.ending := hq.trans h.ending_eq.symm
  rw [h.position_eq]
  rcases h.given_up with ⟨back, hb, -⟩ | ⟨hb, hs⟩
  · have hlt : s.current.start.offset < q.advance.current.start.offset := by
      refine (ho.of_suffix ⟨front, hfront.symm⟩ h.ending_eq).offset_lt ?_ ?_ hend
      · rw [hb]
        exact List.cons_ne_nil _ _
      · rw [hb]
        exact List.suffix_append _ _
    exact UInt32.lt_of_lt_of_le hlt hl.offset_le
  · have hc : q.advance.current = s.current := current_eq_of_pending_eq hb.symm hend
    rcases hs with hs | hs
    · rw [← hc] at hs ⊢
      exact hl.offset_lt hs
    · rw [kind_current_eq_eof_iff, hb] at hs
      exact absurd hs hl.pending_ne_nil

theorem Late.of_following (h : Late p.following e) (ho : p.Ordered)
    (hp : p.stream.pending ≠ []) : Late p e := by
  have hlt : p.current.start.offset < p.following.current.start.offset := by
    refine ho.offset_lt hp ?_ (ahead_following p).ending_eq
    have hlen := length_pending_after_statement (mt kind_current_eq_eof_iff.1 hp) rfl
    obtain ⟨front, hf⟩ := (ahead_following p).suffix
    cases front with
    | nil =>
      rw [← hf] at hlen
      exact absurd hlen (Nat.lt_irrefl _)
    | cons t front =>
      rw [← hf]
      exact List.suffix_append _ _
  have hlt' := UInt32.lt_of_lt_of_le hlt h.offset_le
  exact ⟨hp, UInt32.le_of_lt hlt', fun _ => hlt'⟩

theorem pairwise_faults (hr : p.rules = .standard) (ho : p.Ordered) :
    (p.attempts.flatMap faults).Pairwise (fun e e' => e.position.offset < e'.position.offset) ∧
      ∀ e ∈ p.attempts.flatMap faults, Late p e ∧
        ∃ t ∈ p.stream.toList, e.position = t.start ∧ e.cause.Describes t := by
  fun_induction attempts p with
  | case1 p he => simp
  | case2 p he ih =>
    have hp := mt kind_current_eq_eof_iff.2 he
    have hahead := ahead_following p
    obtain ⟨hpair, hall⟩ :=
      ih (hahead.rules_eq.trans hr) (ho.of_suffix hahead.suffix hahead.ending_eq)
    have hrest : ∀ e ∈ p.following.attempts.flatMap faults, Late p e ∧
        ∃ t ∈ p.stream.toList, e.position = t.start ∧ e.cause.Describes t := by
      intro e he
      obtain ⟨hl, t, ht, hat⟩ := hall e he
      exact ⟨hl.of_following ho hp, t,
        (toList_suffix hahead.suffix hahead.ending_eq).subset ht, hat⟩
    rw [List.flatMap_cons]
    cases hs : p.statement.1 with
    | some st =>
      rw [faults_of_some (by rw [hs]; rfl), List.nil_append]
      exact ⟨hpair, hrest⟩
    | none =>
      obtain ⟨q, hq⟩ : ∃ q, p.statement = (none, q) := ⟨_, Prod.ext hs rfl⟩
      have hfollow : p.following = q.advance := by rw [following, hq]
      obtain ⟨e, s, hb⟩ := exists_broken hr hq
      rw [faults_of_push (by rw [hq, hb.errors_eq]), List.singleton_append]
      constructor
      · refine List.pairwise_cons.2 ⟨?_, hpair⟩
        intro e' he'
        have hl := (hall e' he').1
        rw [hfollow] at hl
        exact hb.offset_lt ho (outcome_of_statement_eq hq).ending_eq hl
      · intro e' he'
        rcases List.mem_cons.1 he' with rfl | he'
        · obtain ⟨front, hfront, -⟩ := hb.reached
          have hsub := (toList_suffix ⟨front, hfront.symm⟩ hb.ending_eq).subset
          exact ⟨hb.late ho hp, s.current, hsub s.current_mem_toList, hb.position_eq, hb.describes⟩
        · exact hrest e' he'

end Parser

theorem length_filter_position_le_one {es : List SyntaxError}
    (h : es.Pairwise fun e e' => e.position.offset < e'.position.offset) (x : Position) :
    (es.filter (·.position = x)).length ≤ 1 := by
  have hx : ∀ e ∈ es.filter (·.position = x), e.position = x := by
    intro e he
    simpa using (List.mem_filter.1 he).2
  have hp := h.filter (·.position = x)
  generalize es.filter (·.position = x) = es' at hx hp
  match es' with
  | [] => exact Nat.zero_le _
  | [_] => exact Nat.le_refl _
  | a :: b :: _ =>
    have hab := (List.pairwise_cons.1 hp).1 b List.mem_cons_self
    rw [hx a (by simp), hx b (by simp)] at hab
    exact absurd hab (UInt32.lt_irrefl _)

/-- The errors of a source stand one behind another, so no token has more than one. Each stands at
the start of a token, which may be the end token, and describes that token. -/
theorem errors_at_tokens (source : String) (file : Option String)
    (h : Text.byteLength source.toList < UInt32.size) :
    (parse source file).2.Pairwise (fun e e' => e.position.offset < e'.position.offset) ∧
      (∀ t ∈ tokenize source file,
        ((parse source file).2.filter (·.position = t.start)).length ≤ 1) ∧
      ∀ e ∈ (parse source file).2, e.position.file = file.getD defaultFile ∧
        ∃ t ∈ tokenize source file, e.position = t.start ∧ e.cause.Describes t := by
  obtain ⟨hpair, hall⟩ := Parser.pairwise_faults (p := .ofSource source file) rfl
    (pairwise_start_tokenize h file)
  rw [← (Parser.parse_eq_attempts source file).2] at hpair hall
  refine ⟨hpair, fun t _ => length_filter_position_le_one hpair t.start, ?_⟩
  intro e he
  obtain ⟨-, t, ht, hpos, hd⟩ := hall e he
  refine ⟨?_, t, ht, hpos, hd⟩
  rw [hpos]
  exact file_of_mem_tokenize ht

theorem errors_at_tokens_mixed :
    ((parse "let 5; é - let x let y 09" (some "f")).2.map fun e => (e.name, e.position)) =
        [("PeekMismatch", ⟨4, "f"⟩), ("NoPrefixParseFn", ⟨7, "f"⟩), ("NoPrefixParseFn", ⟨12, "f"⟩),
          ("PeekMismatch", ⟨24, "f"⟩)] ∧
      (parse "let 5; é - let x let y 09" (some "f")).2.Pairwise
        (fun e e' => e.position.offset < e'.position.offset) ∧
      ∀ e ∈ (parse "let 5; é - let x let y 09" (some "f")).2,
        ∃ t ∈ tokenize "let 5; é - let x let y 09" (some "f"),
          e.position = t.start ∧ e.cause.Describes t := by
  have hlen : Text.byteLength "let 5; é - let x let y 09".toList = 26 := by decide +kernel
  obtain ⟨hpair, -, hall⟩ :=
    errors_at_tokens "let 5; é - let x let y 09" (some "f") (by rw [hlen]; decide)
  exact ⟨by decide +kernel, hpair, fun e he => (hall e he).2⟩

end MonkeySyntax
