import Mathlib.Data.List.Basic
import MonkeySyntax.Proofs.Tree.Spelling

/-! # Decoding printed trees

The outline of a tree is what it holds besides tokens: its form and the texts at its nodes. An
outline is read back from the printed text. Behind an open parenthesis stands a prefix operator or
the left operand of an infix operator, and no operand starts with an operator.
-/

namespace MonkeySyntax

inductive Outline where
  | name (value : String)
  | integer (literal : String)
  | prefixOp (operator : String) (right : Outline)
  | infixOp (operator : String) (left right : Outline)
  deriving DecidableEq, Repr

def Expr.outline : Expr → Outline
  | name _ value => .name value
  | integer t _ => .integer t.literal
  | prefixOp _ operator r => .prefixOp operator r.outline
  | infixOp _ operator l r => .infixOp operator l.outline r.outline

namespace Outline

def leaf? (cs : List Char) : Option (Outline × List Char) :=
  if cs.takeWhile isWordChar ≠ [] then
    some (.name (.ofList (cs.takeWhile isWordChar)), cs.dropWhile isWordChar)
  else if cs.takeWhile Char.isDigit ≠ [] then
    some (.integer (.ofList (cs.takeWhile Char.isDigit)), cs.dropWhile Char.isDigit)
  else none

def operator? (operators : List String) (cs : List Char) : Option (String × List Char) :=
  operators.findSome? fun o => (cs.dropPrefix? o.toList).map (o, ·)

/-- The outline at the front of a text, and what stands behind it, when only `levels` parentheses
may be open at once. -/
def readWithin : Nat → List Char → Option (Outline × List Char)
  | 0, cs => leaf? cs
  | levels + 1, cs =>
    match cs.dropPrefix? ['('] with
    | none => leaf? cs
    | some cs =>
      match operator? prefixOperators cs with
      | some (operator, cs) => do
        let (r, cs) ← readWithin levels cs
        let cs ← cs.dropPrefix? [')']
        return (.prefixOp operator r, cs)
      | none => do
        let (l, cs) ← readWithin levels cs
        let cs ← cs.dropPrefix? [' ']
        let (operator, cs) ← operator? infixOperators cs
        let cs ← cs.dropPrefix? [' ']
        let (r, cs) ← readWithin levels cs
        let cs ← cs.dropPrefix? [')']
        return (.infixOp operator l r, cs)

/-- The outline that a text is printed from. Each open parenthesis takes a character, so the length
of the text bounds their number. -/
def ofText? (text : String) : Option Outline :=
  match readWithin text.toList.length text.toList with
  | some (o, []) => some o
  | _ => none

end Outline

variable {e : Expr} {operators : List String} {operator : String} {text rest cs : List Char}
  {c : Char} {levels : Nat}

/-! ### Reading the text of one node -/

theorem dropPrefix?_singleton (c : Char) (cs : List Char) :
    (c :: cs).dropPrefix? [c] = some cs :=
  List.dropPrefix?_append_of_beq cs (BEq.refl [c])

theorem dropPrefix?_singleton_eq_none {d : Char} (h : c ≠ d) (cs : List Char) :
    (c :: cs).dropPrefix? [d] = none := by
  simp [List.dropPrefix?, h]

theorem prefix_of_dropPrefix? (h : cs.dropPrefix? text = some rest) : text <+: cs := by
  obtain ⟨text', rfl, htext⟩ := List.dropPrefix?_eq_some_iff.1 h
  obtain rfl := eq_of_beq htext
  exact List.prefix_append _ _

theorem split_run {f : Char → Bool} (h : ∀ c ∈ text, f c = true)
    (hrest : ∀ y ∈ rest.head?, f y = false) :
    (text ++ rest).takeWhile f = text ∧ (text ++ rest).dropWhile f = rest := by
  rw [List.takeWhile_append_of_pos h, List.dropWhile_append_of_pos h]
  cases rest with
  | nil => simp
  | cons y rest => simp [hrest y rfl]

theorem leaf?_word (hne : text ≠ []) (h : ∀ c ∈ text, isWordChar c = true)
    (hrest : ∀ y ∈ rest.head?, endsRun y = true) :
    Outline.leaf? (text ++ rest) = some (.name (.ofList text), rest) := by
  have hend : ∀ y ∈ rest.head?, isWordChar y = false := by
    intro y hy
    have := hrest y hy
    simp_all [endsRun]
  obtain ⟨htake, hdrop⟩ := split_run h hend
  rw [Outline.leaf?, htake, hdrop, if_pos hne]

theorem leaf?_digits (hne : text ≠ []) (h : ∀ c ∈ text, c.isDigit = true)
    (hrest : ∀ y ∈ rest.head?, endsRun y = true) :
    Outline.leaf? (text ++ rest) = some (.integer (.ofList text), rest) := by
  have hend : ∀ y ∈ rest.head?, y.isDigit = false := by
    intro y hy
    have := hrest y hy
    simp_all [endsRun]
  obtain ⟨htake, hdrop⟩ := split_run h hend
  have hword : (text ++ rest).takeWhile isWordChar = [] := by
    obtain ⟨c, cs, rfl⟩ := List.exists_cons_of_ne_nil hne
    have hc := isWordChar_eq_false_of_isDigit (h c List.mem_cons_self)
    rw [List.cons_append, List.takeWhile_cons_of_neg (by simp [hc])]
  rw [Outline.leaf?, hword, if_neg (by simp), htake, hdrop, if_pos hne]

/-- An operator is found at the front, if none of the operators starts with another one. -/
theorem operator?_append
    (hp : ∀ o ∈ operators, ∀ o' ∈ operators, o.toList <+: o'.toList → o = o')
    (h : operator ∈ operators) (rest : List Char) :
    Outline.operator? operators (operator.toList ++ rest) = some (operator, rest) := by
  have hself : (operator.toList ++ rest).dropPrefix? operator.toList = some rest :=
    List.dropPrefix?_append_of_beq rest BEq.rfl
  rw [Outline.operator?]
  cases hf : operators.findSome? fun o =>
      ((operator.toList ++ rest).dropPrefix? o.toList).map (o, ·) with
  | none =>
    have hnone := List.findSome?_eq_none_iff.1 hf operator h
    rw [hself] at hnone
    cases hnone
  | some found =>
    obtain ⟨o, ho, hmap⟩ := List.exists_of_findSome?_eq_some hf
    obtain ⟨behind, hbehind, rfl⟩ := Option.map_eq_some_iff.1 hmap
    have heq : o = operator := by
      rcases List.prefix_or_prefix_of_prefix (prefix_of_dropPrefix? hbehind)
        (List.prefix_append operator.toList rest) with hle | hle
      · exact hp o ho operator h hle
      · exact (hp operator h o ho hle).symm
    subst heq
    rw [hself] at hbehind
    obtain rfl := Option.some.inj hbehind
    rfl

theorem prefix_free_prefixOperators :
    ∀ o ∈ prefixOperators, ∀ o' ∈ prefixOperators, o.toList <+: o'.toList → o = o' := by
  decide

theorem prefix_free_infixOperators :
    ∀ o ∈ infixOperators, ∀ o' ∈ infixOperators, o.toList <+: o'.toList → o = o' := by
  decide

theorem operator?_prefixOperators_eq_none (h : c ≠ '!' ∧ c ≠ '-') (cs : List Char) :
    Outline.operator? prefixOperators (c :: cs) = none := by
  simp [Outline.operator?, prefixOperators, dropPrefix?_singleton_eq_none, h]

/-! ### Reading the text of a tree -/

theorem operator?_text_append (h : e.Spelled) (rest : List Char) :
    Outline.operator? prefixOperators (e.text.toList ++ rest) = none := by
  obtain ⟨c, cs, hc, hne⟩ : ∃ c cs, e.text.toList = c :: cs ∧ (c ≠ '!' ∧ c ≠ '-') := by
    cases e with
    | name t value =>
      obtain ⟨c, cs, hc, hw⟩ := exists_cons_of_run h
      refine ⟨c, cs, hc, ?_⟩
      constructor <;> rintro rfl <;> exact absurd hw (by decide)
    | integer t value =>
      obtain ⟨c, cs, hc, hd⟩ := exists_cons_of_run h
      refine ⟨c, cs, hc, ?_⟩
      constructor <;> rintro rfl <;> exact absurd hd (by decide)
    | prefixOp t operator r => exact ⟨'(', _, toList_text_prefixOp, by decide⟩
    | infixOp t operator l r => exact ⟨'(', _, toList_text_infixOp, by decide⟩
  rw [hc, List.cons_append]
  exact operator?_prefixOperators_eq_none hne _

theorem readWithin_of_run {f : Char → Bool} (hf : f '(' = false) (hne : text ≠ [])
    (h : ∀ c ∈ text, f c = true) (rest : List Char) (levels : Nat) :
    Outline.readWithin levels (text ++ rest) = Outline.leaf? (text ++ rest) := by
  cases levels with
  | zero => rfl
  | succ levels =>
    obtain ⟨c, cs, rfl⟩ := List.exists_cons_of_ne_nil hne
    have hc : c ≠ '(' := by
      rintro rfl
      rw [h '(' List.mem_cons_self] at hf
      cases hf
    rw [Outline.readWithin, List.cons_append, dropPrefix?_singleton_eq_none hc]

/-- The text of a tree is read as its outline wherever no run that it ends with goes on. -/
theorem readWithin_text_append (h : e.Spelled) (hl : e.text.toList.length ≤ levels)
    (hrest : ∀ y ∈ rest.head?, endsRun y = true) :
    Outline.readWithin levels (e.text.toList ++ rest) = some (e.outline, rest) := by
  have hclose (cs : List Char) : ∀ y ∈ (')' :: cs).head?, endsRun y = true := by
    rintro _ ⟨⟩
    decide
  have hblank (cs : List Char) : ∀ y ∈ (' ' :: cs).head?, endsRun y = true := by
    rintro _ ⟨⟩
    decide
  induction e generalizing levels rest with
  | name t value =>
    have hne : value.toList ≠ [] := by simpa using h.1
    have hall := List.all_eq_true.1 h.2
    rw [Expr.text, readWithin_of_run (by decide) hne hall, leaf?_word hne hall hrest,
      String.ofList_toList]
    rfl
  | integer t value =>
    have hne : t.literal.toList ≠ [] := by simpa using h.1
    have hall := List.all_eq_true.1 h.2
    rw [Expr.text, readWithin_of_run (by decide) hne hall, leaf?_digits hne hall hrest,
      String.ofList_toList]
    rfl
  | prefixOp t operator r ih =>
    rw [toList_text_prefixOp] at hl ⊢
    simp only [List.length_cons, List.length_append] at hl
    obtain ⟨levels, rfl⟩ : ∃ n, levels = n + 1 := ⟨levels - 1, by omega⟩
    have hright : Outline.readWithin levels (r.text.toList ++ ')' :: rest) =
        some (r.outline, ')' :: rest) :=
      ih h.2 (by omega) (hclose rest)
    rw [List.cons_append, Outline.readWithin, dropPrefix?_singleton]
    simp only [List.append_assoc, operator?_append prefix_free_prefixOperators h.1,
      List.singleton_append, hright, Option.bind_eq_bind, Option.bind_some, dropPrefix?_singleton]
    rfl
  | infixOp t operator l r ihl ihr =>
    rw [toList_text_infixOp] at hl ⊢
    simp only [List.length_cons, List.length_append] at hl
    obtain ⟨levels, rfl⟩ : ∃ n, levels = n + 1 := ⟨levels - 1, by omega⟩
    have hleft (cs : List Char) : Outline.readWithin levels (l.text.toList ++ ' ' :: cs) =
        some (l.outline, ' ' :: cs) :=
      ihl h.2.1 (by omega) (hblank cs)
    have hright : Outline.readWithin levels (r.text.toList ++ ')' :: rest) =
        some (r.outline, ')' :: rest) :=
      ihr h.2.2 (by omega) (hclose rest)
    rw [List.cons_append, Outline.readWithin, dropPrefix?_singleton]
    simp only [List.append_assoc, List.cons_append, operator?_text_append h.2.1, hleft,
      Option.bind_eq_bind, Option.bind_some, dropPrefix?_singleton,
      operator?_append prefix_free_infixOperators h.1, List.nil_append, hright]
    rfl

theorem ofText?_text (h : e.Spelled) : Outline.ofText? e.text = some e.outline := by
  have hread : Outline.readWithin e.text.toList.length (e.text.toList ++ []) =
      some (e.outline, []) := by
    apply readWithin_text_append h (Nat.le_refl _)
    rintro _ ⟨⟩
  rw [List.append_nil] at hread
  rw [Outline.ofText?, hread]

/-- The outline of every spelled tree is decoded from its text, so trees with one text have one
form and the same texts at their nodes. -/
theorem outline_of_text :
    (∀ e : Expr, e.Spelled → Outline.ofText? e.text = some e.outline) ∧
      ∀ a b : Expr, a.Spelled → b.Spelled → a.text = b.text → a.outline = b.outline := by
  constructor
  · intro e h
    exact ofText?_text h
  · intro a b ha hb htext
    have hdecode := ofText?_text ha
    rw [htext, ofText?_text hb] at hdecode
    exact (Option.some.inj hdecode).symm

/-- Two trees that no source parses to, one text. -/
theorem outline_of_text_product :
    ∃ a b : Expr, a ≠ b ∧ a.Spelled ∧ b.Spelled ∧ a.text = "((x + 09) * (-let))" ∧
      Outline.ofText? a.text = some (.infixOp "*" (.infixOp "+" (.name "x") (.integer "09"))
        (.prefixOp "-" (.name "let"))) ∧
      a.text = b.text ∧ a.outline = b.outline := by
  let tree (t : Token) (n : Int64) : Expr :=
    .infixOp t "*" (.infixOp t "+" (.name t "x") (.integer (.plain .integer "09") n))
      (.prefixOp t "-" (.name t "let"))
  have ha : (tree (.plain .asterisk "*") 9).Spelled := by decide
  have hb : (tree (.plain .eof "") 0).Spelled := by decide
  exact ⟨_, _, by decide, ha, hb, rfl, outline_of_text.1 _ ha, rfl, outline_of_text.2 _ _ ha hb rfl⟩

end MonkeySyntax
