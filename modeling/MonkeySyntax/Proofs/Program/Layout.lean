import MonkeySyntax.Proofs.Program.Comparison
import MonkeySyntax.Tree.Printer

/-! # Layout

Where the tokens of a source stand makes no difference to the parser. Sources with the same tokens
apart from spans have the same statements apart from spans, and the same errors at the same tokens.
-/

namespace MonkeySyntax

def Program.bare (p : Program) : Program := ⟨p.statements.map (Statement.mapTokens Token.bare)⟩

structure SameIndex (ts ts' : List Token) (t t' : Token) : Prop where
  index : ∃ k : Nat, ts[k]? = some t ∧ ts'[k]? = some t'
  bare_eq : t.bare = t'.bare

theorem Token.kind_eq_of_bare_eq {t t' : Token} (h : t.bare = t'.bare) : t.kind = t'.kind :=
  (Token.mk.inj h).1

theorem Token.literal_eq_of_bare_eq {t t' : Token} (h : t.bare = t'.bare) :
    t.literal = t'.literal :=
  (Token.mk.inj h).2.1

theorem Expr.text_bare (e : Expr) : e.bare.text = e.text := by
  induction e with
  | name t value => rfl
  | integer t value => rfl
  | prefixOp t operator r ih => exact congrArg ("(" ++ operator ++ · ++ ")") ih
  | infixOp t operator l r ihl ihr =>
    exact congrArg₂ (fun l r => "(" ++ l ++ " " ++ operator ++ " " ++ r ++ ")") ihl ihr

theorem Statement.text_bare (s : Statement) : (s.mapTokens Token.bare).text = s.text := by
  cases s with
  | binding t n name => rfl
  | returning t => rfl
  | expression t e => exact e.text_bare

theorem Program.text_bare (p : Program) : p.bare.text = p.text := by
  rw [text, bare, List.map_map]
  exact congrArg String.join (List.map_congr_left fun s _ => s.text_bare)

namespace Parser.Comparison

/-- The parsers read tokens that are equal apart from their spans, up to the end. -/
def ofBare (same : Token → Token → Prop) (hs : ∀ {t t'}, same t t' → t.bare = t'.bare) :
    Comparison where
  same := same
  rules := .standard
  rules' := .standard
  earlier := []
  cut := False
  behind := []
  kind_eq h := Token.kind_eq_of_bare_eq (hs h)
  literal_eq h := Token.literal_eq_of_bare_eq (hs h)
  statement_eq h := by rw [Token.kind_eq_of_bare_eq (hs h)]
  operand_eq h := by rw [Token.kind_eq_of_bare_eq (hs h)]
  infixOp_eq h _ := by rw [Token.kind_eq_of_bare_eq (hs h)]
  behind_eq_nil _ := rfl
  head_behind := False.elim
  semicolon_rules := False.elim

end Parser.Comparison

variable {source source' : String} {file file' : Option String}

theorem map_bare_place (file file' : String) (offset : Nat) (ls : List Lexeme) :
    (place file offset ls).map Token.bare = (place file' offset ls).map Token.bare := by
  induction ls generalizing offset with
  | nil => rfl
  | cons l ls ih =>
    rw [place, place]
    split
    · exact ih _
    · exact congrArg (_ :: ·) (ih _)

theorem map_bare_tokenize (source : String) (file file' : Option String) :
    (tokenize source file).map Token.bare = (tokenize source file').map Token.bare := by
  simp only [tokenize, TokenStream.toList, TokenStream.ofSource, List.map_append]
  rw [map_bare_place (file.getD defaultFile) (file'.getD defaultFile)]
  rfl

theorem forall₂_sameIndex {ts ts' : List Token} (h : ts.map Token.bare = ts'.map Token.bare) :
    List.Forall₂ (SameIndex ts ts') ts ts' := by
  have hlen : ts.length = ts'.length := by simpa using congrArg List.length h
  refine List.forall₂_iff_get.2 ⟨hlen, ?_⟩
  intro k hk hk'
  have hbare : (ts.map Token.bare)[k]? = (ts'.map Token.bare)[k]? := by rw [h]
  refine ⟨⟨k, List.getElem?_eq_getElem hk, List.getElem?_eq_getElem hk'⟩, ?_⟩
  simpa [hk, hk'] using hbare

theorem forall₂_concat {α β : Type} {r : α → β → Prop} {as : List α} {bs : List β} {a : α} {b : β} :
    List.Forall₂ r (as ++ [a]) (bs ++ [b]) ↔ List.Forall₂ r as bs ∧ r a b := by
  rw [← List.forall₂_reverse_iff, List.reverse_concat, List.reverse_concat, List.forall₂_cons,
    List.forall₂_reverse_iff, and_comm]

/-- Sources with the same tokens apart from spans have statements and errors that differ in no more
than the tokens they stand at, and these have the same index. -/
theorem alike_of_bare_eq
    (h : (tokenize source file).map Token.bare = (tokenize source' file').map Token.bare) :
    List.Forall₂ (Statement.Alike (SameIndex (tokenize source file) (tokenize source' file')))
        (parse source file).1.statements (parse source' file').1.statements ∧
      List.Forall₂ (SyntaxError.Alike (SameIndex (tokenize source file) (tokenize source' file')))
        (parse source file).2 (parse source' file').2 := by
  let c := Parser.Comparison.ofBare (SameIndex (tokenize source file) (tokenize source' file'))
    SameIndex.bare_eq
  obtain ⟨hpending, hending⟩ := forall₂_concat.1 (forall₂_sameIndex h)
  have hc : c.Holds (.ofSource source file) (.ofSource source' file') := {
    rules_eq := rfl
    rules_eq' := rfl
    depth_eq := rfl
    errors := ⟨[], rfl, .nil⟩
    pending := ⟨_, (List.append_nil (Parser.ofSource source file).stream.pending).symm, hpending⟩
    ending := fun _ => hending
    semicolon := False.elim }
  obtain ⟨ss', r', hrun'⟩ := Parser.exists_runs (.ofSource source' file')
  obtain ⟨ss, r, hss, hl, hp, -, hruns⟩ := Parser.Comparison.exists_runs_append hrun' hc
  obtain ⟨es, hes, hes'⟩ := hl.errors
  have hrun := hruns [] r (.stop (Parser.kind_current_eq_eof_iff.2 hp))
  rw [Parser.parse_eq_of_runs hrun, Parser.parse_eq_of_runs hrun', List.append_nil, hes]
  exact ⟨hss, hes'⟩

theorem text_parse_of_bare_eq
    (h : (tokenize source file).map Token.bare = (tokenize source' file').map Token.bare) :
    (parse source file).1.text = (parse source' file').1.text := by
  refine congrArg String.join (map_eq_map_of_forall₂ (alike_of_bare_eq h).1 fun s s' hs => ?_)
  rw [← s.text_bare, hs.mapTokens_eq fun _ _ ht => ht.bare_eq, s'.text_bare]

theorem causes_parse_of_bare_eq
    (h : (tokenize source file).map Token.bare = (tokenize source' file').map Token.bare) :
    (parse source file).2.map (·.cause) = (parse source' file').2.map (·.cause) :=
  map_eq_map_of_forall₂ (alike_of_bare_eq h).2 fun _ _ he => he.cause_eq

/-- Sources with the same tokens apart from spans, whatever blanks stand between them and whatever
the sources are called, have the same program apart from spans and the same errors, each at the
token with the same index. -/
theorem parse_of_same_tokens
    (h : (tokenize source file).map Token.bare = (tokenize source' file').map Token.bare) :
    (parse source file).1.bare = (parse source' file').1.bare ∧
      List.Forall₂ (SyntaxError.Alike (SameIndex (tokenize source file) (tokenize source' file')))
        (parse source file).2 (parse source' file').2 := by
  obtain ⟨hss, hes⟩ := alike_of_bare_eq h
  have hbare := map_eq_map_of_forall₂ hss fun _ _ hs => hs.mapTokens_eq fun _ _ ht => ht.bare_eq
  exact ⟨congrArg Program.mk hbare, hes⟩

theorem parse_of_same_tokens_layout :
    (parse "let=1;\n  -é + 2" none).1.bare = (parse "let = 1 ;- é+2" (some "a.mk")).1.bare ∧
      (parse "let=1;\n  -é + 2" none).2.map (fun e => (e.name, e.position.offset)) =
        [("PeekMismatch", 3), ("NoPrefixParseFn", 10), ("NoPrefixParseFn", 13)] ∧
      List.Forall₂ (SyntaxError.Alike (SameIndex (tokenize "let=1;\n  -é + 2" none)
          (tokenize "let = 1 ;- é+2" (some "a.mk"))))
        (parse "let=1;\n  -é + 2" none).2 (parse "let = 1 ;- é+2" (some "a.mk")).2 := by
  have h : (tokenize "let=1;\n  -é + 2" none).map Token.bare =
      (tokenize "let = 1 ;- é+2" (some "a.mk")).map Token.bare := by decide +kernel
  obtain ⟨hbare, hes⟩ := parse_of_same_tokens h
  exact ⟨hbare, by decide +kernel, hes⟩

end MonkeySyntax
