import MonkeySyntax.Proofs.Token.Spelling
import MonkeySyntax.Tree.Printer

/-! # The texts of trees

A tree is *spelled* if each of its texts is one that a name, an integer or an operator may have,
whatever its tokens are. The printed text of such a tree without the parentheses is read as the
tokens of the tree, if they agree with its nodes.
-/

namespace MonkeySyntax

def prefixOperators : List String := ["!", "-"]

def infixOperators : List String := ["==", "!=", "<", ">", "+", "-", "*", "/"]

/-- Names are runs of word characters, integers are runs of digits, and operators are those of the
language. -/
def Expr.Spelled : Expr → Prop
  | name _ value => value ≠ "" ∧ value.toList.all isWordChar = true
  | integer t _ => t.literal ≠ "" ∧ t.literal.toList.all Char.isDigit = true
  | prefixOp _ operator r => operator ∈ prefixOperators ∧ r.Spelled
  | infixOp _ operator l r => operator ∈ infixOperators ∧ l.Spelled ∧ r.Spelled

instance Expr.decidableSpelled : (e : Expr) → Decidable e.Spelled
  | name _ _ => inferInstanceAs (Decidable (_ ∧ _))
  | integer _ _ => inferInstanceAs (Decidable (_ ∧ _))
  | prefixOp _ _ r => have := decidableSpelled r; inferInstanceAs (Decidable (_ ∧ _))
  | infixOp _ _ l r =>
    have := decidableSpelled l
    have := decidableSpelled r
    inferInstanceAs (Decidable (_ ∧ _ ∧ _))

def isParenthesis (c : Char) : Bool := c == '(' || c == ')'

def unparenthesized (text : String) : String :=
  .ofList (text.toList.filter fun c => !isParenthesis c)

def Expr.plain : Expr → List Char
  | name _ value => value.toList
  | integer t _ => t.literal.toList
  | prefixOp _ operator r => operator.toList ++ r.plain
  | infixOp _ operator l r => l.plain ++ ' ' :: (operator.toList ++ ' ' :: r.plain)

variable {e l r : Expr} {t : Token} {operator : String} {rest text : List Char} {kind : TokenKind}
  {y : Char}

/-! ### Characters -/

@[simp] theorem toList_text_prefixOp : (Expr.prefixOp t operator r).text.toList =
    '(' :: (operator.toList ++ r.text.toList ++ [')']) := by
  simp [Expr.text]

@[simp] theorem toList_text_infixOp : (Expr.infixOp t operator l r).text.toList =
    '(' :: (l.text.toList ++ ' ' :: (operator.toList ++ ' ' :: (r.text.toList ++ [')']))) := by
  simp [Expr.text]

/-- The characters of operators and what stands around them. -/
def operatorChars : List Char := ['=', '!', '<', '>', '+', '-', '*', '/', ' ', '(', ')']

theorem mem_operatorChars (h : operator ∈ prefixOperators ++ infixOperators) :
    ∀ c ∈ operator.toList, c ∈ operatorChars := by
  have hall : (prefixOperators ++ infixOperators).all
      (·.toList.all (· ∈ operatorChars)) = true := by
    decide
  simpa using List.all_eq_true.1 hall operator h

theorem Expr.Spelled.forall_mem_text {P : Char → Prop} (h : e.Spelled)
    (hw : ∀ c, isWordChar c = true → P c) (hd : ∀ c, c.isDigit = true → P c)
    (ho : ∀ c ∈ operatorChars, P c) : ∀ c ∈ e.text.toList, P c := by
  induction e with
  | name t value => exact fun c hc => hw c (List.all_eq_true.1 h.2 c hc)
  | integer t value => exact fun c hc => hd c (List.all_eq_true.1 h.2 c hc)
  | prefixOp t operator r ih =>
    have hop := mem_operatorChars (List.mem_append_left _ h.1)
    have hr := ih h.2
    simp only [toList_text_prefixOp, List.mem_cons, List.mem_append, List.not_mem_nil, or_false]
    rintro c (rfl | (hc | hc) | rfl)
    · exact ho _ (by decide)
    · exact ho c (hop c hc)
    · exact hr c hc
    · exact ho _ (by decide)
  | infixOp t operator l r ihl ihr =>
    have hop := mem_operatorChars (List.mem_append_right _ h.1)
    have hl := ihl h.2.1
    have hr := ihr h.2.2
    simp only [toList_text_infixOp, List.mem_cons, List.mem_append, List.not_mem_nil, or_false]
    rintro c (rfl | hc | rfl | hc | rfl | hc | rfl)
    · exact ho _ (by decide)
    · exact hl c hc
    · exact ho _ (by decide)
    · exact ho c (hop c hc)
    · exact ho _ (by decide)
    · exact hr c hc
    · exact ho _ (by decide)

theorem semicolon_not_mem_text (h : e.Spelled) : ';' ∉ e.text.toList := by
  intro hc
  refine h.forall_mem_text (P := (· ≠ ';')) ?_ ?_ (by simp [operatorChars]) _ hc rfl
  · rintro c hw rfl
    exact absurd hw (by decide)
  · rintro c hd rfl
    exact absurd hd (by decide)

theorem filter_of_run {f : Char → Bool} (hf : f '(' = false ∧ f ')' = false)
    (h : text.all f = true) : text.filter (fun c => !isParenthesis c) = text := by
  apply List.filter_eq_self.2
  intro c hc
  have hfc := List.all_eq_true.1 h c hc
  have hl : c ≠ '(' := by
    rintro rfl
    rw [hf.1] at hfc
    cases hfc
  have hr : c ≠ ')' := by
    rintro rfl
    rw [hf.2] at hfc
    cases hfc
  simp [isParenthesis, hl, hr]

theorem filter_text (h : e.Spelled) :
    e.text.toList.filter (fun c => !isParenthesis c) = e.plain := by
  have hopen : isParenthesis '(' = true := by decide
  have hclose : isParenthesis ')' = true := by decide
  have hblank : isParenthesis ' ' = false := by decide
  have hop : ∀ o ∈ prefixOperators ++ infixOperators,
      o.toList.filter (fun c => !isParenthesis c) = o.toList := by
    decide
  induction e with
  | name t value => exact filter_of_run (by decide) h.2
  | integer t value => exact filter_of_run (by decide) h.2
  | prefixOp t operator r ih =>
    simp [hopen, hclose, hop operator (List.mem_append_left _ h.1), ih h.2, Expr.plain]
  | infixOp t operator l r ihl ihr =>
    simp [hopen, hclose, hblank, hop operator (List.mem_append_right _ h.1), ihl h.2.1, ihr h.2.2,
      Expr.plain]

theorem toList_unparenthesized_text (h : e.Spelled) :
    (unparenthesized e.text).toList = e.plain := by
  rw [unparenthesized, String.toList_ofList, filter_text h]

/-! ### Reading the text without parentheses -/

def endsRun (c : Char) : Bool := !isWordChar c && !c.isDigit

theorem growsBy_of_run (h : ∀ c ∈ text, isWordChar c = true ∨ c.isDigit = true)
    (hy : endsRun y = true) (kind? : Option TokenKind) :
    (⟨kind?, text⟩ : Lexeme).growsBy y = false := by
  cases text with
  | nil => rfl
  | cons x xs =>
    obtain ⟨hw, hd⟩ : isWordChar y = false ∧ y.isDigit = false := by simpa [endsRun] using hy
    have hx := h x List.mem_cons_self
    have hb : isBlank x = false :=
      hx.elim isBlank_eq_false_of_isWordChar isBlank_eq_false_of_isDigit
    have he : x ≠ '=' := by
      rintro rfl
      revert hx
      decide
    have hn : x ≠ '!' := by
      rintro rfl
      revert hx
      decide
    simp [Lexeme.growsBy, hb, hw, hd, he, hn]

theorem growsBy_of_mem_symbols (h : (text, kind) ∈ symbols) (hy : y ≠ '=')
    (kind? : Option TokenKind) : (⟨kind?, text⟩ : Lexeme).growsBy y = false := by
  cases text with
  | nil => rfl
  | cons x xs =>
    obtain ⟨hb, hw, hd⟩ := not_class_of_mem_symbols _ h x List.mem_cons_self
    simp [Lexeme.growsBy, hb, hw, hd, hy]

theorem mem_symbols_of_kind {f : TokenKind → Bool} {operators : List String}
    (hf : ∀ k, f k = true → k ∈ symbols.map (·.2))
    (ho : ∀ s ∈ symbols, f s.2 = true → String.ofList s.1 ∈ operators) (h : t.Spelled)
    (hk : f t.kind = true) : (t.literal.toList, t.kind) ∈ symbols ∧ t.literal ∈ operators := by
  have hmem := InClass.mem_symbols_of_kind h (hf _ hk)
  refine ⟨hmem, ?_⟩
  simpa using ho _ hmem hk

theorem mem_symbols_of_isPrefixOp (h : t.Spelled) (hk : t.kind.isPrefixOp = true) :
    (t.literal.toList, t.kind) ∈ symbols ∧ t.literal ∈ prefixOperators := by
  apply mem_symbols_of_kind (f := TokenKind.isPrefixOp) _ (by decide) h hk
  intro k
  cases k <;> decide

theorem mem_symbols_of_isInfixOp (h : t.Spelled) (hk : t.kind.isInfixOp = true) :
    (t.literal.toList, t.kind) ∈ symbols ∧ t.literal ∈ infixOperators := by
  apply mem_symbols_of_kind (f := TokenKind.isInfixOp) _ (by decide) h hk
  intro k
  cases k <;> decide

theorem spelled_of_written (hw : e.Written) (ht : ∀ t ∈ e.tokens, t.Spelled) : e.Spelled := by
  induction e with
  | name t value =>
    obtain ⟨hk, rfl⟩ := hw
    have hc : InClass t.literal.toList .identifier := hk ▸ ht t List.mem_cons_self
    obtain ⟨hne, hall⟩ := hc.of_identifier
    exact ⟨by simpa using hne, List.all_eq_true.2 hall⟩
  | integer t value =>
    have hc : InClass t.literal.toList .integer := hw.1 ▸ ht t List.mem_cons_self
    obtain ⟨hne, hall⟩ := hc.of_integer
    exact ⟨by simpa using hne, List.all_eq_true.2 hall⟩
  | prefixOp t operator r ih =>
    obtain ⟨hk, rfl, hr⟩ := hw
    have htr : ∀ u ∈ r.tokens, u.Spelled := fun u hu => ht u (List.mem_cons_of_mem _ hu)
    exact ⟨(mem_symbols_of_isPrefixOp (ht t List.mem_cons_self) hk).2, ih hr htr⟩
  | infixOp t operator l r ihl ihr =>
    obtain ⟨hk, rfl, hl, hr⟩ := hw
    simp only [Expr.tokens, List.mem_append, List.mem_cons] at ht
    refine ⟨(mem_symbols_of_isInfixOp (ht t (.inr (.inl rfl))) hk).2, ?_, ?_⟩
    · exact ihl hl fun u hu => ht u (.inl hu)
    · exact ihr hr fun u hu => ht u (.inr (.inr hu))

theorem exists_cons_of_run {f : Char → Bool} {s : String} (hs : s ≠ "" ∧ s.toList.all f = true) :
    ∃ y ys, s.toList = y :: ys ∧ f y = true := by
  obtain ⟨y, ys, hy⟩ := List.exists_cons_of_ne_nil (by simpa using hs.1 : s.toList ≠ [])
  exact ⟨y, ys, hy, List.all_eq_true.1 hs.2 y (by simp [hy])⟩

/-- No text starts with the sign that would make another operator of a prefix operator. -/
theorem exists_plain_cons (h : e.Spelled) : ∃ y ys, e.plain = y :: ys ∧ y ≠ '=' := by
  induction e with
  | name t value =>
    obtain ⟨y, ys, hy, hw⟩ := exists_cons_of_run h
    refine ⟨y, ys, hy, ?_⟩
    rintro rfl
    exact absurd hw (by decide)
  | integer t value =>
    obtain ⟨y, ys, hy, hd⟩ := exists_cons_of_run h
    refine ⟨y, ys, hy, ?_⟩
    rintro rfl
    exact absurd hd (by decide)
  | prefixOp t operator r ih =>
    have hall : ∀ o ∈ prefixOperators, ∃ y ys, o.toList = y :: ys ∧ y ≠ '=' := by
      simp [prefixOperators]
    obtain ⟨y, ys, hy, hne⟩ := hall operator h.1
    exact ⟨y, ys ++ r.plain, by rw [Expr.plain, hy, List.cons_append], hne⟩
  | infixOp t operator l r ihl _ =>
    obtain ⟨y, ys, hy, hne⟩ := ihl h.2.1
    exact ⟨y, _, by rw [Expr.plain, hy, List.cons_append], hne⟩

theorem entries_literal_append (h : t.Spelled)
    (hg : ∀ y ∈ rest.head?, (⟨some t.kind, t.literal.toList⟩ : Lexeme).growsBy y = false) :
    entries (t.literal.toList ++ rest) = t.entry :: entries rest := by
  rw [entries_append_of_inClass h hg, String.ofList_toList]
  rfl

/-- The text of a tree without parentheses is read as the tokens of the tree. -/
theorem entries_plain_append (hw : e.Written) (ht : ∀ t ∈ e.tokens, t.Spelled)
    (hrest : ∀ y ∈ rest.head?, endsRun y = true) :
    entries (e.plain ++ rest) = e.tokens.map Token.entry ++ entries rest := by
  have hblank : isBlank ' ' = true := by decide
  induction e generalizing rest with
  | name t value =>
    obtain ⟨hk, rfl⟩ := hw
    have hs := ht t List.mem_cons_self
    have hc : InClass t.literal.toList .identifier := hk ▸ hs
    apply entries_literal_append hs
    intro y hy
    exact growsBy_of_run (fun c hc' => .inl (hc.of_identifier.2 c hc')) (hrest y hy) _
  | integer t value =>
    have hs := ht t List.mem_cons_self
    have hc : InClass t.literal.toList .integer := hw.1 ▸ hs
    apply entries_literal_append hs
    intro y hy
    exact growsBy_of_run (fun c hc' => .inr (hc.of_integer.2 c hc')) (hrest y hy) _
  | prefixOp t operator r ih =>
    obtain ⟨hk, rfl, hr⟩ := hw
    have htr : ∀ u ∈ r.tokens, u.Spelled := fun u hu => ht u (List.mem_cons_of_mem _ hu)
    have hs := ht t List.mem_cons_self
    obtain ⟨y, ys, hplain, hne⟩ := exists_plain_cons (spelled_of_written hr htr)
    rw [Expr.plain, List.append_assoc, entries_literal_append hs, ih hr htr hrest]
    · rfl
    · rw [hplain]
      rintro _ ⟨⟩
      exact growsBy_of_mem_symbols (mem_symbols_of_isPrefixOp hs hk).1 hne _
  | infixOp t operator l r ihl ihr =>
    obtain ⟨hk, rfl, hl, hr⟩ := hw
    simp only [Expr.tokens, List.mem_append, List.mem_cons] at ht
    have hs := ht t (.inr (.inl rfl))
    have hsymbol := (mem_symbols_of_isInfixOp hs hk).1
    -- each operand and the operator end before a blank
    have hleft : entries (l.plain ++ ' ' :: (t.literal.toList ++ ' ' :: (r.plain ++ rest))) =
        l.tokens.map Token.entry ++
          entries (' ' :: (t.literal.toList ++ ' ' :: (r.plain ++ rest))) := by
      apply ihl hl fun u hu => ht u (.inl hu)
      rintro _ ⟨⟩
      decide
    have hright := ihr hr (fun u hu => ht u (.inr (.inr hu))) hrest
    have hmiddle : entries (t.literal.toList ++ ' ' :: (r.plain ++ rest)) =
        t.entry :: entries (' ' :: (r.plain ++ rest)) := by
      apply entries_literal_append hs
      rintro _ ⟨⟩
      exact growsBy_of_mem_symbols hsymbol (by decide) _
    have hassoc : (Expr.infixOp t t.literal l r).plain ++ rest =
        l.plain ++ ' ' :: (t.literal.toList ++ ' ' :: (r.plain ++ rest)) := by
      simp [Expr.plain]
    rw [hassoc, hleft, entries_cons_of_isBlank hblank, hmiddle, entries_cons_of_isBlank hblank,
      hright, Expr.tokens, List.map_append, List.map_cons, List.append_assoc, List.cons_append]

theorem entries_plain (hw : e.Written) (ht : ∀ t ∈ e.tokens, t.Spelled) :
    entries e.plain = e.tokens.map Token.entry := by
  have hnil : entries (e.plain ++ []) = e.tokens.map Token.entry ++ entries [] := by
    apply entries_plain_append hw ht
    rintro _ ⟨⟩
  rwa [entries_nil, List.append_nil, List.append_nil] at hnil

end MonkeySyntax
