import MonkeySyntax.Proofs.Program.Segment
import MonkeySyntax.Proofs.Tree.MapTokens

/-! # Reading back the tokens of a tree

A written and shaped tree is what the parser makes of the tokens of the tree, wherever they stand in
the source, if the tree is not nested too deeply.
-/

namespace MonkeySyntax

/-- The tokens of a tree are a segment wherever what stands behind them ends the statement. -/
theorem segment_of_tree {e : Expr} {stop rest : List Token} (hw : e.Written) (hs : e.Shaped)
    (hn : e.need ≤ Parser.maxDepth)
    (hstop : EndsBefore (fun us => ∀ x ∈ us.head?, x.kind.isInfixOp = false) stop rest) :
    Segment (e.tokens ++ stop) (.expression e.first.token e) rest := by
  obtain ⟨t, ts, het⟩ := List.exists_cons_of_ne_nil e.tokens_ne_nil
  have hc : IsChain (t :: ts) := het ▸ Expr.isChain_tokens hw hs
  rw [het, Expr.token_first het]
  exact .expression hc ⟨hw, hs, het⟩ hn hstop

theorem segmented_of_tree {e : Expr} {stop : List Token} (hw : e.Written) (hs : e.Shaped)
    (hn : e.need ≤ Parser.maxDepth)
    (hstop : stop.map Token.kind = [] ∨ stop.map Token.kind = [.semicolon]) :
    ∃ t, Segmented (e.tokens ++ stop) [.expression t e] := by
  have hends : EndsBefore (fun us => ∀ x ∈ us.head?, x.kind.isInfixOp = false) stop [] := by
    rcases hstop with h | h
    · exact .inr ⟨List.map_eq_nil_iff.1 h, by simp⟩
    · obtain ⟨x, rfl, hx⟩ := List.map_eq_singleton_iff.1 h
      exact .inl ⟨x, hx, rfl⟩
  have hseg := Segmented.cons (segment_of_tree hw hs hn hends) .nil
  rw [List.append_nil] at hseg
  exact ⟨_, hseg⟩

theorem exists_tree_of_bare_eq {e : Expr} {ts stop : List Token}
    (h : ts.map Token.bare = (e.tokens ++ stop).map Token.bare) :
    ∃ (e' : Expr) (stop' : List Token), ts = e'.tokens ++ stop' ∧ e'.bare = e.bare ∧
      stop'.map Token.kind = stop.map Token.kind := by
  rw [List.map_append] at h
  obtain ⟨us, stop', rfl, hbare, hstop⟩ := List.map_eq_append_iff.1 h
  obtain ⟨e', rfl, he⟩ := Expr.exists_mapTokens_eq hbare
  have hkind := congrArg (List.map Token.kind) hstop
  rw [List.map_map, List.map_map] at hkind
  exact ⟨e', stop', rfl, he, hkind⟩

/-- A tree whose tokens a source has, apart from their spans, is read from it apart from spans. -/
theorem exists_parse_eq {e : Expr} {source : String} {file : Option String} {stop : List Token}
    (hw : e.Written) (hs : e.Shaped) (hn : e.need ≤ Parser.maxDepth)
    (hstop : stop.map Token.kind = [] ∨ stop.map Token.kind = [.semicolon])
    (ht : (tokenize source file).dropLast.map Token.bare = (e.tokens ++ stop).map Token.bare) :
    ∃ t e', parse source file = (⟨[.expression t e']⟩, []) ∧ e'.bare = e.bare := by
  obtain ⟨e', stop', hts, he, hkind⟩ := exists_tree_of_bare_eq ht
  obtain ⟨hw', hs', hn'⟩ := Expr.of_bare_eq he
  obtain ⟨t, hseg⟩ :=
    segmented_of_tree (hw'.2 hw) (hs'.2 hs) (by rwa [hn']) (by rwa [hkind])
  rw [← hts] at hseg
  exact ⟨t, e', parse_of_segmented hseg, he⟩

/-- The parser reads every written and shaped tree back from its tokens, unless it is nested too
deeply, and no two such trees have the same tokens. -/
theorem parse_tokens_of_tree :
    (∀ (e : Expr) (source : String) (file : Option String) (stop : List Token),
      e.Written → e.Shaped → e.need ≤ Parser.maxDepth →
      stop.map Token.kind = [] ∨ stop.map Token.kind = [.semicolon] →
      (tokenize source file).dropLast.map Token.bare = (e.tokens ++ stop).map Token.bare →
      ∃ t e', parse source file = (⟨[.expression t e']⟩, []) ∧ e'.bare = e.bare) ∧
    ∀ a b : Expr, a.Written → a.Shaped → b.Written → b.Shaped →
      a.tokens.map Token.bare = b.tokens.map Token.bare → a.bare = b.bare := by
  constructor
  · intro e source file stop hw hs hn hstop ht
    exact exists_parse_eq hw hs hn hstop ht
  · intro a b ha ha' hb hb' h
    rw [← Expr.tokens_bare, ← Expr.tokens_bare] at h
    exact Expr.eq_of_tokens_eq (Expr.written_bare_iff.2 ha) (Expr.shaped_bare_iff.2 ha')
      (Expr.written_bare_iff.2 hb) (Expr.shaped_bare_iff.2 hb') h

theorem parse_tokens_of_difference :
    ∃ t e', parse "a - 7\n-c * !d;" none = (⟨[.expression t e']⟩, []) ∧
      e'.bare = Expr.infixOp (.plain .minus "-") "-"
        (.infixOp (.plain .minus "-") "-" (.name (.plain .identifier "a") "a")
          (.integer (.plain .integer "7") 7))
        (.infixOp (.plain .asterisk "*") "*" (.name (.plain .identifier "c") "c")
          (.prefixOp (.plain .bang "!") "!" (.name (.plain .identifier "d") "d"))) :=
  parse_tokens_of_tree.1
    (.infixOp (.plain .minus "-") "-"
      (.infixOp (.plain .minus "-") "-" (.name (.plain .identifier "a") "a")
        (.integer (.plain .integer "7") 7))
      (.infixOp (.plain .asterisk "*") "*" (.name (.plain .identifier "c") "c")
        (.prefixOp (.plain .bang "!") "!" (.name (.plain .identifier "d") "d"))))
    "a - 7\n-c * !d;" none [.plain .semicolon ";"]
    (by decide +kernel) (by decide) (by decide) (by decide) (by decide +kernel)

end MonkeySyntax
