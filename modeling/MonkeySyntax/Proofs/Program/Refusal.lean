import MonkeySyntax.Proofs.Expression.Refusal
import MonkeySyntax.Proofs.Program.Broken
import MonkeySyntax.Proofs.Program.Plain

/-! # The limit on nesting

A source that is one tree too deep has one error, at the first token that begins a subtree below
the limit. The rest of the tree is skipped up to the semicolon, so no statement is left of it.
-/

namespace MonkeySyntax

namespace Parser

variable {p : Parser} {e : Expr} {x t : Token} {ts : List Token} {source : String}
  {file : Option String} {index : Nat}

theorem endsStatement_of_inExpression {k : TokenKind}
    (h : Rules.standard.inExpression k = true) : endsStatement k = false := by
  revert h
  cases k <;> decide

theorem pending_synchronize (hp : p.stream.pending = ts ++ [x])
    (hts : ∀ t ∈ ts, Rules.standard.inExpression t.kind = true) (hx : x.kind = .semicolon) :
    p.synchronize.stream.pending = [x] := by
  induction ts generalizing p with
  | nil =>
    have hc : p.current = x := current_of_pending hp
    rw [synchronize, skipWhile, if_neg]
    · exact hp
    · rw [hc, hx]
      rintro ⟨hno, -⟩
      cases hno
  | cons t ts ih =>
    obtain ⟨ht, hrest⟩ := List.forall_mem_cons.1 hts
    have hc : p.current = t := current_of_pending hp
    have htail : p.stream.pending.tail = ts ++ [x] := by
      rw [hp]
      rfl
    have hpeek : startsStatement p.peek.kind = false := by
      apply kind_peek_of_tail htail (P := fun k => startsStatement k = false) rfl
      intro u hu
      rcases List.mem_append.1 (List.mem_of_mem_head? hu) with hu | hu
      · exact startsStatement_of_inExpression (hrest u hu)
      · rw [List.mem_singleton.1 hu, hx]
        rfl
    have hstep : p.synchronize = p.advance.synchronize := by
      rw [synchronize, skipWhile, if_pos]
      · rfl
      · rw [hc, endsStatement_of_inExpression ht, hpeek, hp]
        exact ⟨rfl, List.cons_ne_nil _ _⟩
    rw [hstep]
    exact ih (by rw [pending_advance, htail]) hrest

theorem statement_of_refused (hr : p.rules = .standard) (hd : p.depth = 0) (hw : e.Written)
    (hs : e.Shaped) (hp : p.stream.pending = e.tokens ++ [x]) (hx : x.kind = .semicolon)
    (hrefused : e.refusedAt maxDepth = some index) (ht : e.tokens[index]? = some t) :
    ∃ q, p.statement = (none, q) ∧ q.stream.pending = [x] ∧
      q.errors = p.errors.push ⟨.tooDeep maxDepth, t.start⟩ := by
  obtain ⟨hlt, rfl⟩ := List.getElem?_eq_some_iff.1 ht
  have hpending : (advance^[index] p).stream.pending = e.tokens.drop index ++ [x] := by
    rw [pending_iterate_advance, hp, List.drop_append_of_le_length (Nat.le_of_lt hlt)]
  have hcurrent : (advance^[index] p).current = e.tokens[index] := by
    rw [List.drop_eq_getElem_cons hlt] at hpending
    exact current_of_pending hpending
  have hexpr : p.expression .lowest = (none, (advance^[index] p).refuse) := by
    apply expression_of_refused hr (by omega) hw hs (Expr.above_lowest hw) hp
    rwa [hd]
  have hskipped : (advance^[index] p).refuse.stream.pending = [x] := by
    have hin : ∀ u ∈ e.tokens.drop index, Rules.standard.inExpression u.kind = true := by
      intro u hu
      exact hw.inExpression u (List.mem_of_mem_drop hu)
    exact pending_synchronize (p := (advance^[index] p).report _ _) hpending hin hx
  have hpeek : (advance^[index] p).refuse.peek.kind ≠ .semicolon := by
    have hend : (advance^[index] p).refuse.peek.kind = .eof := by
      rw [kind_peek_eq_eof_iff, hskipped]
      rfl
    rw [hend]
    decide
  refine ⟨(advance^[index] p).refuse, ?_, hskipped, ?_⟩
  · rw [statement_eq_expressionStatement hr hw hs hp]
    simp only [expressionStatement, hexpr, if_neg hpeek, Option.map_none]
  · rw [errors_refuse, errors_iterate_advance, hcurrent]

theorem parse_of_refused (hw : e.Written) (hs : e.Shaped)
    (hp : (TokenStream.ofSource source file).pending = e.tokens ++ [x]) (hx : x.kind = .semicolon)
    (hrefused : e.refusedAt maxDepth = some index) (ht : e.tokens[index]? = some t) :
    parse source file = (⟨[]⟩, [⟨.tooDeep maxDepth, t.start⟩]) := by
  obtain ⟨q, hstatement, hq, herrors⟩ :=
    statement_of_refused (p := .ofSource source file) rfl rfl hw hs hp hx hrefused ht
  have hne : (ofSource source file).current.kind ≠ .eof := by
    intro he
    have hnil : (TokenStream.ofSource source file).pending = [] := kind_current_eq_eof_iff.1 he
    rw [hp] at hnil
    cases List.append_eq_nil_iff.1 hnil |>.2
  have hend : q.advance.current.kind = .eof := by
    rw [kind_current_eq_eof_iff, pending_advance, hq]
    rfl
  rw [parse_eq_of_runs (.step hne hstatement (.stop hend)), errors_advance, herrors]
  rfl

end Parser

/-- A source that is a written and shaped tree with a subtree below level 256, and a semicolon, has
no statement and one error, at the first token that begins a subtree of level 257. -/
theorem tooDeep_of_tree {e : Expr} {x : Token} {source : String} {file : Option String}
    (hw : e.Written) (hs : e.Shaped)
    (hdeep : ∃ level index s, e.HasSubtree level index s ∧ 256 < level)
    (hx : x.kind = .semicolon)
    (ht : (tokenize source file).dropLast.map Token.bare = (e.tokens ++ [x]).map Token.bare) :
    ∃ index s t, e.HasSubtree 257 index s ∧ (∀ j s', e.HasSubtree 257 j s' → index ≤ j) ∧
      (tokenize source file)[index]? = some t ∧
      parse source file = (⟨[]⟩, [⟨.tooDeep 256, t.start⟩]) := by
  obtain ⟨index, s, hrefused, hsub, hleast⟩ := Expr.exists_refusedAt hdeep
  -- the tokens of the source are those of a tree that differs in its spans only
  obtain ⟨e', stop, hts, he, hstop⟩ := exists_tree_of_bare_eq ht
  obtain ⟨y, rfl, hy⟩ := List.map_eq_singleton_iff.1 hstop
  obtain ⟨hw', hs', -⟩ := Expr.of_bare_eq he
  have hrefused' : e'.refusedAt Parser.maxDepth = some index := by
    have hsame := congrArg (·.refusedAt 256) he
    simp only [Expr.bare, Expr.refusedAt_mapTokens] at hsame
    exact hsame.trans hrefused
  obtain ⟨s', hsub'⟩ := Expr.exists_subtree_of_refusedAt hrefused'
  have hlt := hsub'.index_lt
  have hget : e'.tokens[index]? = some e'.tokens[index] := List.getElem?_eq_getElem hlt
  have htokens : tokenize source file =
      e'.tokens ++ ([y] ++ [(TokenStream.ofSource source file).ending]) := by
    rw [tokenize, TokenStream.toList, ← dropLast_tokenize, hts, List.append_assoc]
  rw [dropLast_tokenize] at hts
  refine ⟨index, s, e'.tokens[index], hsub, hleast, ?_, ?_⟩
  · rw [htokens, List.getElem?_append_left hlt, hget]
  · exact Parser.parse_of_refused (hw'.2 hw) (hs'.2 hs) hts (hy.trans hx) hrefused' hget

/-- The name `a` behind so many minus signs. -/
def negation : Nat → Expr
  | 0 => .name (.plain .identifier "a") "a"
  | n + 1 => .prefixOp (.plain .minus "-") "-" (negation n)

theorem written_negation (n : Nat) : (negation n).Written := by
  induction n with
  | zero => exact ⟨rfl, rfl⟩
  | succ n ih => exact ⟨rfl, rfl, ih⟩

theorem shaped_negation (n : Nat) : (negation n).Shaped := by
  induction n with
  | zero => trivial
  | succ n ih =>
    refine ⟨?_, ih⟩
    cases n <;> rfl

theorem spelled_negation (n : Nat) : ∀ t ∈ (negation n).tokens, t.Spelled := by
  induction n with
  | zero =>
    have ha : InClass "a".toList (.ofWord (.ofList "a".toList)) :=
      .word (by decide) (List.all_eq_true.1 (by decide))
    exact List.forall_mem_singleton.2 ha
  | succ n ih =>
    have hminus : InClass "-".toList .minus := .symbol (by decide)
    exact List.forall_mem_cons.2 ⟨hminus, ih⟩

theorem hasSubtree_negation (n : Nat) : (negation n).HasSubtree (n + 1) n (negation 0) := by
  induction n with
  | zero => exact .root _
  | succ n ih => exact ih.operand

theorem index_of_negation {n level index : Nat} {s : Expr}
    (h : (negation n).HasSubtree (level + 1) index s) : index = level := by
  induction n generalizing level index with
  | zero =>
    cases h with
    | root => rfl
  | succ n ih =>
    cases h with
    | root => rfl
    | @operand _ _ _ _ level index h =>
      obtain ⟨level, rfl⟩ : ∃ m, level = m + 1 := ⟨level - 1, by have := h.level_pos; omega⟩
      rw [ih h]

theorem map_bare_tokenize_negation (n : Nat) (file : Option String) :
    (tokenize (.ofList ((negation n).plain ++ [';'])) file).dropLast.map Token.bare =
      ((negation n).tokens ++ [Token.plain .semicolon ";"]).map Token.bare := by
  have hentries := entries_semicolon_append (negation n).plain []
  rw [entries_plain (written_negation n) (spelled_negation n), entries_nil,
    List.append_nil] at hentries
  apply map_bare_of_map_entry
  rw [map_entry_tokenize, String.toList_ofList, hentries, List.map_append]
  rfl

/-- 256 minus signs are one too many, and the name behind them is refused. -/
theorem tooDeep_of_tree_negation :
    ∃ t, (tokenize (.ofList ((negation 256).plain ++ [';'])) none)[256]? = some t ∧
      parse (.ofList ((negation 256).plain ++ [';'])) none =
        (⟨[]⟩, [⟨.tooDeep 256, t.start⟩]) := by
  obtain ⟨index, s, t, hsub, -, hget, hparse⟩ :=
    tooDeep_of_tree (written_negation 256) (shaped_negation 256)
      ⟨257, 256, _, hasSubtree_negation 256, by decide⟩ rfl (map_bare_tokenize_negation 256 none)
  obtain rfl := index_of_negation hsub
  exact ⟨t, hget, hparse⟩

end MonkeySyntax
