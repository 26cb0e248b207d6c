import MonkeySyntax.Proofs.Program.Attempt
import MonkeySyntax.Proofs.Program.RoundTrip
import MonkeySyntax.Proofs.Token.Seam

/-! # The height of trees

The limit on nesting bounds how many prefix operators and right operands lie on a way through a
tree that is read. Left operands are no further levels of nesting, so sums of any length are read,
and the height of a tree exceeds the limit by no more than the left operands on a way through it.
-/

namespace MonkeySyntax

namespace Expr

/-- The number of nodes on the longest way from the root to a leaf. -/
def height : Expr → Nat
  | name _ _ => 1
  | integer _ _ => 1
  | prefixOp _ _ r => 1 + r.height
  | infixOp _ _ l r => 1 + max l.height r.height

def isOperation : Expr → Bool
  | name _ _ => false
  | integer _ _ => false
  | prefixOp _ _ _ => true
  | infixOp _ _ _ _ => true

/-- The most left operands that are operations on one way from the root to a leaf. -/
def leftNesting : Expr → Nat
  | name _ _ => 0
  | integer _ _ => 0
  | prefixOp _ _ r => r.leftNesting
  | infixOp _ _ l r => max (if l.isOperation then 1 + l.leftNesting else 0) r.leftNesting

variable {f : Token → Token} {e : Expr}

theorem height_of_not_isOperation (h : e.isOperation = false) : e.height = 1 := by
  cases e <;> first | rfl | cases h

theorem height_le_need_add_leftNesting (e : Expr) : e.height ≤ e.need + e.leftNesting := by
  induction e with
  | name _ _ => exact Nat.le_refl _
  | integer _ _ => exact Nat.le_refl _
  | prefixOp _ _ r ih =>
    rw [height, need, leftNesting]
    omega
  | infixOp _ _ l r ihl ihr =>
    have hr := r.need_pos
    rw [height, need, leftNesting]
    cases hl : l.isOperation with
    | false =>
      rw [height_of_not_isOperation hl]
      omega
    | true =>
      rw [if_pos rfl]
      omega

theorem height_mapTokens (f : Token → Token) (e : Expr) : (e.mapTokens f).height = e.height := by
  induction e <;> simp_all [mapTokens, height]

theorem leftNesting_mapTokens (f : Token → Token) (e : Expr) :
    (e.mapTokens f).leftNesting = e.leftNesting := by
  have hop : ∀ l : Expr, (l.mapTokens f).isOperation = l.isOperation := by
    intro l
    cases l <;> rfl
  induction e <;> simp_all [mapTokens, leftNesting]

end Expr

/-! ### The expressions of a program -/

namespace Parser

variable {p : Parser} {t : Token} {e : Expr}

theorem expression_of_statement (h : p.statement.1 = some (.expression t e)) :
    (p.expression .lowest).1 = some e := by
  have hexpr (h : p.expressionStatement.1 = some (.expression t e)) :
      (p.expression .lowest).1 = some e := by
    obtain ⟨e', he, h⟩ := Option.map_eq_some_iff.1 h
    cases h
    exact he
  unfold statement at h
  split at h
  · unfold bindingStatement at h
    split at h
    · cases h
    · split at h <;> cases h
  · cases h
  · exact hexpr h
  · exact hexpr h

theorem need_le_of_mem_parse {source : String} {file : Option String}
    (h : .expression t e ∈ (parse source file).1.statements) : e.need ≤ maxDepth := by
  rw [(parse_eq_attempts source file).1] at h
  obtain ⟨q, hq, hs⟩ := List.mem_filterMap.1 h
  obtain ⟨-, hn⟩ := (expression_eq_some_iff (rules_of_mem_attempts hq)).1
    (Prod.ext (expression_of_statement hs) rfl)
  omega

end Parser

/-! ### Long sums -/

def sumText : Nat → List Char
  | 0 => ['1']
  | n + 1 => sumText n ++ ['+', '1']

def sumTree : Nat → Expr
  | 0 => .integer (.plain .integer "1") 1
  | n + 1 => .infixOp (.plain .plus "+") "+" (sumTree n) (.integer (.plain .integer "1") 1)

theorem height_sumTree (n : Nat) : (sumTree n).height = n + 1 := by
  induction n with
  | zero => rfl
  | succ n ih =>
    rw [sumTree, Expr.height, ih, Expr.height]
    omega

theorem leftNesting_sumTree (n : Nat) : (sumTree n).leftNesting = n - 1 := by
  induction n with
  | zero => rfl
  | succ n ih =>
    rw [sumTree, Expr.leftNesting, Expr.leftNesting, ih]
    cases n with
    | zero => rfl
    | succ n =>
      rw [sumTree, Expr.isOperation, if_pos rfl]
      omega

theorem need_sumTree_le (n : Nat) : (sumTree n).need ≤ 2 := by
  induction n with
  | zero => decide
  | succ n ih =>
    rw [sumTree, Expr.need, Expr.need]
    omega

theorem written_sumTree (n : Nat) : (sumTree n).Written := by
  induction n with
  | zero => decide
  | succ n ih => exact ⟨rfl, rfl, ih, by decide⟩

theorem shaped_sumTree (n : Nat) : (sumTree n).Shaped := by
  induction n with
  | zero => trivial
  | succ n ih =>
    refine ⟨?_, nofun, ih, trivial⟩
    cases n with
    | zero => exact nofun
    | succ n =>
      rintro q ⟨⟩
      exact Nat.le_refl _

theorem Lexeme.growsBy_plus (l : Lexeme) : l.growsBy '+' = false :=
  growsBy_of_no_class (by decide) (by decide) l

theorem lexemes_sumText_zero : lexemes (sumText 0) = [⟨some .integer, ['1']⟩] := by
  have hf : Lexeme.front '1' [] = ⟨some .integer, ['1']⟩ := by decide
  simp [sumText, lexemes, hf]

theorem lexemes_sumText_succ (n : Nat) :
    lexemes (sumText (n + 1)) =
      lexemes (sumText n) ++ [⟨some .plus, ['+']⟩, ⟨some .integer, ['1']⟩] := by
  have hf : Lexeme.front '+' ['1'] = ⟨some .plus, ['+']⟩ := by decide
  have hs : lexemes ['+', '1'] = ⟨some .plus, ['+']⟩ :: lexemes (sumText 0) := by
    simp [sumText, lexemes, hf]
  rw [sumText, lexemes_append, hs, lexemes_sumText_zero]
  rintro l - y ⟨⟩
  exact l.growsBy_plus

theorem bare_place_sumText (file : String) (n : Nat) :
    (place file 0 (lexemes (sumText n))).map Token.bare = (sumTree n).tokens.map Token.bare := by
  induction n with
  | zero =>
    rw [lexemes_sumText_zero]
    rfl
  | succ n ih =>
    rw [lexemes_sumText_succ, place_append, List.map_append, ih, sumTree, Expr.tokens,
      List.map_append]
    rfl

/-- A sum of any length is read, into a tree as high as the sum is long. -/
theorem exists_parse_sumText (file : Option String) (n : Nat) :
    ∃ t e, parse (.ofList (sumText n)) file = (⟨[.expression t e]⟩, []) ∧
      e.height = n + 1 ∧ e.leftNesting = n - 1 := by
  have ht : (tokenize (.ofList (sumText n)) file).dropLast.map Token.bare =
      ((sumTree n).tokens ++ []).map Token.bare := by
    rw [dropLast_tokenize, List.append_nil, ← bare_place_sumText (file.getD defaultFile)]
    simp only [TokenStream.ofSource, String.toList_ofList]
  obtain ⟨t, e, hp, he⟩ := exists_parse_eq (written_sumTree n) (shaped_sumTree n)
    (Nat.le_trans (need_sumTree_le n) (by decide)) (.inl rfl) ht
  refine ⟨t, e, hp, ?_, ?_⟩
  · have hh := congrArg Expr.height he
    rwa [Expr.bare, Expr.bare, Expr.height_mapTokens, Expr.height_mapTokens, height_sumTree] at hh
  · have hl := congrArg Expr.leftNesting he
    rwa [Expr.bare, Expr.bare, Expr.leftNesting_mapTokens, Expr.leftNesting_mapTokens,
      leftNesting_sumTree] at hl

/-- The limit on nesting bounds the trees of a program but for their left operands, so it bounds the
height of those whose left operands are no operations. -/
theorem height_of_parsed (source : String) (file : Option String) {t : Token} {e : Expr}
    (h : .expression t e ∈ (parse source file).1.statements) :
    e.need ≤ Parser.maxDepth ∧ e.height ≤ Parser.maxDepth + e.leftNesting ∧
      (e.leftNesting = 0 → e.height ≤ Parser.maxDepth) := by
  have hn := Parser.need_le_of_mem_parse h
  have hh := e.height_le_need_add_leftNesting
  exact ⟨hn, by omega, by omega⟩

theorem height_of_parsed_sum :
    ∃ t e, parse "1+1" none = (⟨[.expression t e]⟩, []) ∧ e.need ≤ Parser.maxDepth ∧
      e.height ≤ Parser.maxDepth + e.leftNesting ∧ e.leftNesting = 0 ∧
      e.height ≤ Parser.maxDepth := by
  have hsource : String.ofList (sumText 1) = "1+1" := by decide
  obtain ⟨t, e, hp, -, hl⟩ := exists_parse_sumText none 1
  rw [hsource] at hp
  have hmem : .expression t e ∈ (parse "1+1" none).1.statements := by
    rw [hp]
    exact List.mem_singleton_self _
  obtain ⟨hneed, hheight, hcapped⟩ := height_of_parsed "1+1" none hmem
  exact ⟨t, e, hp, hneed, hheight, hl, hcapped hl⟩

/-- A sum with 256 plus signs is higher than the limit. -/
theorem height_not_le_maxDepth :
    ¬ ∀ (source : String) (file : Option String) (t : Token) (e : Expr),
      .expression t e ∈ (parse source file).1.statements → e.height ≤ Parser.maxDepth := by
  intro h
  obtain ⟨t, e, hp, he, -⟩ := exists_parse_sumText none 256
  have hle := h (.ofList (sumText 256)) none t e (by rw [hp]; exact List.mem_singleton_self _)
  rw [he] at hle
  exact absurd hle (by decide)

end MonkeySyntax
