import MonkeySyntax.Proofs.Program.Literal
import MonkeySyntax.Proofs.Program.Plain

/-! # Printed programs as sources

A printed program is read back only if its tokens are names and integers: parentheses are no part
of the language, and nothing keeps the texts of two statements apart. Without parentheses and with a
semicolon behind each statement, every program of expressions is read back.
-/

namespace MonkeySyntax

/-- The token is an operand of its own: a name, or an integer that has a value. -/
def Token.IsLeaf (t : Token) : Prop :=
  t.kind = .identifier ∨ t.kind = .integer ∧ (Numeral.decode? t.literal).isSome = true

instance (t : Token) : Decidable t.IsLeaf := inferInstanceAs (Decidable (_ ∨ _ ∧ _))

def Statement.isExpression : Statement → Bool
  | .expression _ _ => true
  | _ => false

/-- The statements without parentheses, each with a semicolon behind it. -/
def Program.plainText (p : Program) : String :=
  String.join (p.statements.map fun s => unparenthesized s.text ++ ";")

variable {e : Expr} {s : Statement} {ss : List Statement} {t : Token} {ts : List Token}
  {source : String} {file : Option String}

/-! ### Characters of a printed program -/

theorem toList_text (p : Program) :
    p.text.toList = p.statements.flatMap fun s => s.text.toList := by
  rw [Program.text, String.toList_join, List.flatMap_map]

theorem openParen_mem_text (h : e.isOperation = true) : '(' ∈ e.text.toList := by
  cases e with
  | name t value => cases h
  | integer t value => cases h
  | prefixOp t operator r => simp
  | infixOp t operator l r => simp

theorem semicolon_mem_text (h : s.isExpression = false) : ';' ∈ s.text.toList := by
  cases s with
  | binding t n name => simp [Statement.text]
  | returning t => simp [Statement.text]
  | expression t e => cases h

theorem exists_of_isExpression (h : s.isExpression = true) : ∃ t e, s = .expression t e := by
  cases s with
  | binding t n name => cases h
  | returning t => cases h
  | expression t e => exact ⟨t, e, rfl⟩

theorem isBlank_eq_false_of_mem_text (h : e.Spelled) (ho : e.isOperation = false) :
    ∀ c ∈ e.text.toList, isBlank c = false := by
  intro c hc
  cases e with
  | name t value => exact isBlank_eq_false_of_isWordChar (List.all_eq_true.1 h.2 c hc)
  | integer t value => exact isBlank_eq_false_of_isDigit (List.all_eq_true.1 h.2 c hc)
  | prefixOp t operator r => cases ho
  | infixOp t operator l r => cases ho

theorem kind_of_openParen_mem (h : t.Spelled) (hc : '(' ∈ t.literal.toList) :
    t.kind = .openParen := by
  rw [Token.Spelled] at h
  generalize t.literal.toList = text at h hc
  generalize t.kind = kind at h
  cases h with
  | word _ h => exact absurd (h _ hc) (by decide)
  | digits _ h => exact absurd (h _ hc) (by decide)
  | symbol h =>
    have hall : ∀ s ∈ symbols, '(' ∈ s.1 → s.2 = .openParen := by decide
    exact hall _ h hc

theorem semicolon_mem_literal (h : t.Spelled) (hk : t.kind = .semicolon) :
    ';' ∈ t.literal.toList := by
  have hmem := InClass.mem_symbols_of_kind h (by rw [hk]; decide)
  have hall : ∀ s ∈ symbols, s.2 = .semicolon → ';' ∈ s.1 := by decide
  exact hall _ hmem hk

/-! ### Programs of leaves -/

theorem exists_segmented_of_leaves (h : ∀ t ∈ ts, t.IsLeaf) :
    ∃ ss, Segmented ts ss ∧ ss.map Statement.text = ts.map (·.literal) := by
  induction ts with
  | nil => exact ⟨[], .nil, rfl⟩
  | cons t ts ih =>
    obtain ⟨ht, hts⟩ := List.forall_mem_cons.1 h
    obtain ⟨ss, hseg, htext⟩ := ih hts
    have hnext : ∀ u ∈ ts.head?, u.kind.isInfixOp = false := by
      intro u hu
      rcases hts u (List.mem_of_mem_head? hu) with hk | ⟨hk, -⟩
      · rw [hk]
        rfl
      · rw [hk]
        rfl
    rcases ht with hk | ⟨hk, hv⟩
    · have hw : (Expr.name t t.literal).Written := ⟨hk, rfl⟩
      refine ⟨_, .cons (segment_of_operand hw trivial rfl rfl hnext) hseg, ?_⟩
      rw [List.map_cons, List.map_cons, htext]
      rfl
    · obtain ⟨v, hv⟩ := Option.isSome_iff_exists.1 hv
      have hw : (Expr.integer t v).Written := ⟨hk, hv⟩
      refine ⟨_, .cons (segment_of_operand hw trivial rfl rfl hnext) hseg, ?_⟩
      rw [List.map_cons, List.map_cons, htext]
      rfl

/-- A source without blanks whose tokens are leaves is printed as it is. -/
theorem reprint_of_leaves (hb : ∀ c ∈ source.toList, isBlank c = false)
    (h : ∀ t ∈ (tokenize source file).dropLast, t.IsLeaf) :
    (parse source file).2 = [] ∧ (parse source file).1.text = source := by
  obtain ⟨ss, hseg, htext⟩ := exists_segmented_of_leaves h
  rw [parse_of_segmented hseg]
  refine ⟨rfl, ?_⟩
  have hfilter : source.toList.filter (fun c => !isBlank c) = source.toList := by
    apply List.filter_eq_self.2
    intro c hc
    rw [hb c hc]
    rfl
  rw [Program.text, htext, ← String.toList_inj, String.toList_join, List.flatMap_map,
    flatMap_literal_tokenize, hfilter]

/-! ### Programs of expressions -/

theorem mem_tokens_of_segmented (h : Segmented ts ss) (hss : ∀ s ∈ ss, s.isExpression = true) :
    ∀ t ∈ ts, t.kind = .semicolon ∨ ∃ u e, .expression u e ∈ ss ∧ e.Written ∧ t ∈ e.tokens := by
  induction h with
  | nil => simp
  | @cons ts rest s ss hseg _ ih =>
    obtain ⟨hs, hrest⟩ := List.forall_mem_cons.1 hss
    obtain ⟨u, e, rfl⟩ := exists_of_isExpression hs
    obtain ⟨⟨hw, -, -⟩, -, stop, rfl, hstop⟩ := hseg.of_expression
    intro t ht
    rcases List.mem_append.1 ht with ht | ht
    · rcases List.mem_append.1 ht with ht | ht
      · exact .inr ⟨u, e, List.mem_cons_self, hw, ht⟩
      · have hk : t.kind ∈ stop.map Token.kind := List.mem_map_of_mem ht
        rcases hstop with hstop | hstop
        · rw [hstop] at hk
          cases hk
        · rw [hstop] at hk
          exact .inl (List.mem_singleton.1 hk)
    · rcases ih hrest t ht with hk | ⟨u', e', hmem, hw', ht'⟩
      · exact .inl hk
      · exact .inr ⟨u', e', List.mem_cons_of_mem _ hmem, hw', ht'⟩

theorem isLeaf_of_mem_tokens (hw : e.Written) (ho : e.isOperation = false) (h : t ∈ e.tokens) :
    t.IsLeaf := by
  cases e with
  | name u value =>
    obtain rfl := List.mem_singleton.1 h
    exact .inl hw.1
  | integer u value =>
    obtain rfl := List.mem_singleton.1 h
    exact .inr ⟨hw.1, by rw [hw.2]; rfl⟩
  | prefixOp u operator r => cases ho
  | infixOp u operator l r => cases ho

/-- A source without semicolons that is printed as it is has no tokens but leaves. -/
theorem leaves_of_reprint (hsemicolon : ';' ∉ source.toList) (he : (parse source file).2 = [])
    (htext : (parse source file).1.text = source) :
    '(' ∉ source.toList ∧ ∀ t ∈ (tokenize source file).dropLast, t.IsLeaf := by
  have hseg := segmented_of_parse he
  have hmem : ∀ s ∈ (parse source file).1.statements,
      ∀ c ∈ s.text.toList, c ∈ source.toList := by
    intro s hs c hc
    rw [← htext, toList_text]
    exact List.mem_flatMap.2 ⟨s, hs, hc⟩
  have hexpr : ∀ s ∈ (parse source file).1.statements, s.isExpression = true := by
    intro s hs
    by_contra hno
    exact hsemicolon (hmem s hs _ (semicolon_mem_text (by simpa using hno)))
  have hcases := mem_tokens_of_segmented hseg hexpr
  have hopen : '(' ∉ source.toList := by
    intro hc
    obtain ⟨t, ht, hct⟩ := exists_token_of_mem hc (by decide) file
    -- the token is no parenthesis, since it is a semicolon or belongs to an expression
    have hno : t.kind ≠ .illegal ∧ t.kind ≠ .openParen := by
      rcases hcases t ht with hk | ⟨u, e, -, hw, hte⟩
      · rw [hk]
        decide
      · have hin := hw.inExpression t hte
        constructor <;> intro hk <;> rw [hk] at hin <;> cases hin
    exact hno.2 (kind_of_openParen_mem (spelled_of_mem_tokenize ht hno.1) hct)
  refine ⟨hopen, ?_⟩
  intro t ht
  rcases hcases t ht with hk | ⟨u, e, hu, hw, hte⟩
  · have hs := spelled_of_mem_tokenize ht (by rw [hk]; decide)
    exact absurd (mem_of_mem_literal ht (semicolon_mem_literal hs hk)) hsemicolon
  · apply isLeaf_of_mem_tokens hw _ hte
    by_contra ho
    exact hopen (hmem _ hu _ (openParen_mem_text (by simpa using ho)))

theorem exists_trees (h : ∀ s ∈ ss, s.isExpression = true)
    (hr : ∀ t e, .expression t e ∈ ss → e.Readable ∧ t = e.first.token) :
    ∃ es : List Expr, ss = es.map Expr.statement ∧ ∀ e ∈ es, e.Readable := by
  induction ss with
  | nil => exact ⟨[], rfl, by simp⟩
  | cons s ss ih =>
    obtain ⟨hs, hss⟩ := List.forall_mem_cons.1 h
    obtain ⟨t, e, rfl⟩ := exists_of_isExpression hs
    obtain ⟨he, rfl⟩ := hr t e List.mem_cons_self
    obtain ⟨es, rfl, hes⟩ := ih hss fun t e hmem => hr t e (List.mem_cons_of_mem _ hmem)
    exact ⟨e :: es, rfl, List.forall_mem_cons.2 ⟨he, hes⟩⟩

theorem mem_text_of_trees {es : List Expr} {c : Char} :
    c ∈ (Program.mk (es.map Expr.statement)).text.toList ↔ ∃ e ∈ es, c ∈ e.text.toList := by
  rw [toList_text, List.flatMap_map]
  exact List.mem_flatMap

/-! ### Reading the text without parentheses -/

def separatedEntries (es : List Expr) : List (TokenKind × String) :=
  es.flatMap fun e => e.tokens.map Token.entry ++ [(.semicolon, ";")]

theorem toList_plainText {es : List Expr} (h : ∀ e ∈ es, e.Readable) :
    (Program.plainText ⟨es.map Expr.statement⟩).toList =
      es.flatMap fun e => e.plain ++ [';'] := by
  rw [Program.plainText, String.toList_join, List.map_map, List.flatMap_map]
  apply List.flatMap_congr
  intro e he
  have hplain := toList_unparenthesized_text (h e he).spelled
  rw [Function.comp_apply, String.toList_append]
  exact congrArg (· ++ [';']) hplain

theorem entries_flatMap_plain {es : List Expr} (h : ∀ e ∈ es, e.Readable) :
    entries (es.flatMap fun e => e.plain ++ [';']) = separatedEntries es := by
  induction es with
  | nil => exact entries_nil
  | cons e es ih =>
    obtain ⟨he, hes⟩ := List.forall_mem_cons.1 h
    rw [List.flatMap_cons, entries_semicolon_append, entries_plain he.written he.spelled_tokens,
      ih hes, separatedEntries, separatedEntries, List.flatMap_cons, List.append_assoc]
    rfl

theorem exists_segmented_of_trees {es : List Expr} (h : ∀ e ∈ es, e.Readable)
    (ht : ts.map Token.entry = separatedEntries es) :
    ∃ es' : List Expr, Segmented ts (es'.map Expr.statement) ∧
      es'.map Expr.bare = es.map Expr.bare := by
  induction es generalizing ts with
  | nil =>
    obtain rfl := List.map_eq_nil_iff.1 ht
    exact ⟨[], .nil, rfl⟩
  | cons e es ih =>
    obtain ⟨he, hes⟩ := List.forall_mem_cons.1 h
    rw [separatedEntries, List.flatMap_cons] at ht
    obtain ⟨front, rest, rfl, hfront, hrest⟩ := List.map_eq_append_iff.1 ht
    obtain ⟨us, stop, rfl, hus, hstop⟩ := List.map_eq_append_iff.1 hfront
    obtain ⟨x, rfl, hx⟩ := List.map_eq_singleton_iff.1 hstop
    obtain ⟨e', rfl, hbare⟩ := Expr.exists_mapTokens_eq (map_bare_of_map_entry hus)
    obtain ⟨hw, hs, hn⟩ := Expr.of_bare_eq hbare
    obtain ⟨es', hseg, hes'⟩ := ih hes hrest
    have hend : EndsBefore (fun us => ∀ x ∈ us.head?, x.kind.isInfixOp = false) [x] rest :=
      .inl ⟨x, congrArg Prod.fst hx, rfl⟩
    have hfirst := segment_of_tree (hw.2 he.written) (hs.2 he.shaped) (by rw [hn]; exact he.need_le)
      hend
    refine ⟨e' :: es', .cons hfirst hseg, ?_⟩
    rw [List.map_cons, List.map_cons, hes']
    exact congrArg (· :: _) hbare

/-- A program of expressions is read back from its text with semicolons for parentheses. -/
theorem parse_plainText {es : List Expr} (h : ∀ e ∈ es, e.Readable) (file : Option String) :
    (parse (Program.plainText ⟨es.map Expr.statement⟩) file).2 = [] ∧
      (parse (Program.plainText ⟨es.map Expr.statement⟩) file).1.bare =
        Program.bare ⟨es.map Expr.statement⟩ := by
  have ht : (tokenize (Program.plainText ⟨es.map Expr.statement⟩) file).dropLast.map
      Token.entry = separatedEntries es := by
    rw [map_entry_tokenize, toList_plainText h, entries_flatMap_plain h]
  obtain ⟨es', hseg, hes⟩ := exists_segmented_of_trees h ht
  rw [parse_of_segmented hseg]
  refine ⟨rfl, ?_⟩
  have hbare (es : List Expr) : (es.map Expr.statement).map (Statement.mapTokens Token.bare) =
      (es.map Expr.bare).map Expr.statement := by
    rw [List.map_map, List.map_map]
    exact List.map_congr_left fun e _ => e.statement_mapTokens Token.bare
  rw [Program.bare, Program.bare, hbare, hbare, hes]

/-- A program of expressions is read back from its printed text exactly if none of its statements
has an operator and the tokens of the text are names and integers. It is always read back from its
text without parentheses and with a semicolon behind each statement. -/
theorem reprint_of_expressions (source : String) (file file' : Option String)
    (h : ∀ s ∈ (parse source file).1.statements, s.isExpression = true) :
    ((parse (parse source file).1.text file').2 = [] ∧
        (parse (parse source file).1.text file').1.text = (parse source file).1.text ↔
      (∀ t e, .expression t e ∈ (parse source file).1.statements → e.isOperation = false) ∧
        ∀ t ∈ (tokenize (parse source file).1.text file').dropLast, t.IsLeaf) ∧
    (parse (parse source file).1.plainText file').2 = [] ∧
      (parse (parse source file).1.plainText file').1.bare = (parse source file).1.bare ∧
      (parse (parse source file).1.plainText file').1.text = (parse source file).1.text := by
  have hread : ∀ t e, .expression t e ∈ (parse source file).1.statements →
      e.Readable ∧ t = e.first.token := fun _ _ => Parser.readable_of_mem_parse
  generalize (parse source file).1 = p at h hread
  obtain ⟨es, hes, hreadable⟩ := exists_trees h hread
  obtain rfl : p = ⟨es.map Expr.statement⟩ := congrArg Program.mk hes
  refine ⟨?_, ?_⟩
  · constructor
    · rintro ⟨he, htext⟩
      have hsemicolon : ';' ∉ (Program.mk (es.map Expr.statement)).text.toList := by
        intro hc
        obtain ⟨e, hmem, hc⟩ := mem_text_of_trees.1 hc
        exact semicolon_not_mem_text (hreadable e hmem).spelled hc
      obtain ⟨hopen, hleaves⟩ := leaves_of_reprint hsemicolon he htext
      refine ⟨?_, hleaves⟩
      intro t e hmem
      obtain ⟨e', he', ⟨⟩⟩ := List.mem_map.1 hmem
      by_contra ho
      exact hopen (mem_text_of_trees.2 ⟨e, he', openParen_mem_text (by simpa using ho)⟩)
    · rintro ⟨ho, hleaves⟩
      apply reprint_of_leaves _ hleaves
      intro c hc
      obtain ⟨e, hmem, hc⟩ := mem_text_of_trees.1 hc
      have hleaf := ho e.first.token e (List.mem_map_of_mem hmem)
      exact isBlank_eq_false_of_mem_text (hreadable e hmem).spelled hleaf c hc
  · obtain ⟨he, hbare⟩ := parse_plainText hreadable file'
    refine ⟨he, hbare, ?_⟩
    rw [← Program.text_bare, hbare, Program.text_bare]

theorem reprint_of_expressions_glued :
    (∀ s ∈ (parse "a 010 9; -b" none).1.statements, s.isExpression = true) ∧
      (parse "a 010 9; -b" none).1.text = "a0109(-b)" ∧
      ¬ ((parse "a0109(-b)" none).2 = [] ∧
        (parse "a0109(-b)" none).1.text = "a0109(-b)") ∧
      (parse "a;010;9;-b;" none).2 = [] ∧
      (parse "a;010;9;-b;" none).1.bare = (parse "a 010 9; -b" none).1.bare ∧
      (parse "a;010;9;-b;" none).1.text = "a0109(-b)" := by
  have h : ∀ s ∈ (parse "a 010 9; -b" none).1.statements, s.isExpression = true := by
    decide +kernel
  have htext : (parse "a 010 9; -b" none).1.text = "a0109(-b)" := by decide +kernel
  have hplain : (parse "a 010 9; -b" none).1.plainText = "a;010;9;-b;" := by decide +kernel
  obtain ⟨hiff, hread⟩ := reprint_of_expressions "a 010 9; -b" none none h
  rw [hplain, htext] at hread
  rw [htext] at hiff
  refine ⟨h, htext, ?_, hread⟩
  intro hback
  have hleaves := (hiff.1 hback).2
  revert hleaves
  decide +kernel

/-- The printed text of `-a` is not read back. -/
theorem reprint_ne :
    ¬ ∀ (source : String) (file file' : Option String), (parse source file).2 = [] →
      (∀ s ∈ (parse source file).1.statements, s.isExpression = true) →
      (parse (parse source file).1.text file').2 = [] ∧
        (parse (parse source file).1.text file').1.text = (parse source file).1.text := by
  intro h
  obtain ⟨he, -⟩ := h "-a" none none (by decide +kernel) (by decide +kernel)
  revert he
  decide +kernel

end MonkeySyntax
