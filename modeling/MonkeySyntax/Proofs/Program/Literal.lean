import MonkeySyntax.Proofs.Numeral
import MonkeySyntax.Proofs.Program.Segment
import MonkeySyntax.Proofs.Token.Spelling

/-! # Integer literals in a source

A text that has a value as an integer literal is read as that literal if it is a run of digits. A
letter for the radix is part of no run of digits, so a text with one is cut behind its zero.
-/

namespace MonkeySyntax

variable {c : Char} {cs : List Char} {file : Option String}

/-! ### Lexemes -/

theorem lexemes_cons_of_front {kind? : Option TokenKind} {f : Char → Bool}
    (hf : Lexeme.front c cs = ⟨kind?, (c :: cs).takeWhile f⟩) :
    lexemes (c :: cs) =
      ⟨kind?, (c :: cs).takeWhile f⟩ :: lexemes ((c :: cs).dropWhile f) := by
  have hdrop := Lexeme.drop_of_takeWhile (congrArg Lexeme.text hf)
  rw [lexemes, ← hdrop, hf]

theorem lexemes_of_digits (hne : cs ≠ []) (h : ∀ c ∈ cs, c.isDigit = true) :
    lexemes cs = [⟨some .integer, cs⟩] :=
  lexemes_of_inClass (.digits hne h)

theorem ofWord_of_radixLetter (hc : Numeral.isRadixLetter c = true) (cs : List Char) :
    TokenKind.ofWord (.ofList (c :: cs)) = .identifier := by
  have hall : TokenKind.reserved.all
      (·.1.toList.head?.all fun d => !Numeral.isRadixLetter d) = true := by
    decide
  have hnone : TokenKind.reserved.lookup (.ofList (c :: cs)) = none := by
    rw [List.lookup_eq_none_iff]
    intro e he
    rw [bne_iff_ne]
    intro heq
    have hd := List.all_eq_true.1 hall e he
    simp [← heq, hc] at hd
  rw [TokenKind.ofWord, hnone]
  rfl

theorem isWordChar_of_radixLetter (hc : Numeral.isRadixLetter c = true) :
    isWordChar c = true := by
  simp only [Numeral.isRadixLetter, decide_eq_true_eq, List.mem_cons, List.not_mem_nil,
    or_false] at hc
  rcases hc with rfl | rfl | rfl | rfl | rfl | rfl <;> decide

/-- A literal with a letter for its radix is a zero, a name, and a run of digits if anything. -/
theorem lexemes_of_radixLetter (hc : Numeral.isRadixLetter c = true)
    (h : ∀ d ∈ cs, d.isDigit = true ∨ isWordChar d = true) :
    ∃ ls, lexemes ('0' :: c :: cs) = ⟨some .integer, ['0']⟩ ::
        ⟨some .identifier, (c :: cs).takeWhile isWordChar⟩ :: ls ∧
      ∀ l ∈ ls.head?, l.kind? = some .integer := by
  have hw := isWordChar_of_radixLetter hc
  have hd : c.isDigit = false := isDigit_eq_false_of_isWordChar hw
  refine ⟨lexemes ((c :: cs).dropWhile isWordChar), ?_, ?_⟩
  · have hzero : '0'.isDigit = true := by decide
    rw [lexemes_cons_of_front (Lexeme.front_of_digit hzero _), List.takeWhile_cons_of_pos hzero,
      List.takeWhile_cons_of_neg (by simp [hd]), List.dropWhile_cons_of_pos hzero,
      List.dropWhile_cons_of_neg (by simp [hd]),
      lexemes_cons_of_front (Lexeme.front_of_wordChar hw cs),
      List.takeWhile_cons_of_pos hw, ofWord_of_radixLetter hc]
  · cases hrest : (c :: cs).dropWhile isWordChar with
    | nil => simp [lexemes]
    | cons d ds =>
      have hmem : d ∈ cs := by
        have hd : d ∈ (c :: cs).dropWhile isWordChar := by simp [hrest]
        rw [List.dropWhile_cons_of_pos hw] at hd
        exact (List.dropWhile_suffix _).subset hd
      have hno : ¬ isWordChar d = true := by
        have hne : (c :: cs).dropWhile isWordChar ≠ [] := by simp [hrest]
        have := List.head_dropWhile_not isWordChar hne
        simpa [hrest] using this
      have hdigit := (h d hmem).resolve_right hno
      rw [lexemes_cons_of_front (Lexeme.front_of_digit hdigit ds)]
      simp

/-! ### Programs -/

theorem segment_of_operand {t : Token} {e : Expr} {rest : List Token} (hw : e.Written)
    (hs : e.Shaped) (ht : e.tokens = [t]) (hn : e.need = 1)
    (hrest : ∀ u ∈ rest.head?, u.kind.isInfixOp = false) :
    Segment [t] (.expression t e) rest := by
  have hc : IsChain [t] := ht ▸ Expr.isChain_tokens hw hs
  have hneed : e.need ≤ Parser.maxDepth := by
    rw [hn]
    decide
  exact .expression hc ⟨hw, hs, ht⟩ hneed (.inr ⟨rfl, hrest⟩)

theorem head_kind_place {offset : Nat} {ls : List Lexeme} {file : String} {k : TokenKind}
    (h : ∀ l ∈ ls.head?, l.kind? = some k) : ∀ t ∈ (place file offset ls).head?, t.kind = k := by
  cases ls with
  | nil => simp [place]
  | cons l ls =>
    rw [place, h l rfl]
    simp [Token.atOffset]

theorem exists_statements_of_zero {text : String} {word : List Char} {ls : List Lexeme}
    (hls : lexemes text.toList = ⟨some .integer, ['0']⟩ :: ⟨some .identifier, word⟩ :: ls)
    (hnext : ∀ l ∈ ls.head?, l.kind? = some .integer) (file : Option String) :
    ∃ (t u : Token) (ss : List Statement), (parse text file).1.statements =
        .expression t (.integer t 0) :: .expression u (.name u u.literal) :: ss ∧
      t.literal = "0" ∧ u.literal = .ofList word := by
  let f := file.getD defaultFile
  let t := Token.atOffset f 0 .integer ['0']
  let u := Token.atOffset f (0 + Text.byteLength ['0']) .identifier word
  let rest := place f (0 + Text.byteLength ['0'] + Text.byteLength word) ls
  have hp : (Parser.ofSource text file).stream.pending = [t] ++ (u :: rest) := by
    have hplace : (Parser.ofSource text file).stream.pending =
        place f 0 (lexemes text.toList) := rfl
    rw [hplace, hls]
    rfl
  have hrest : ∀ x ∈ rest.head?, x.kind = .integer := head_kind_place hnext
  have hzero : Numeral.decode? (.ofList ['0']) = some 0 := by decide
  have ht : Segment [t] (.expression t (.integer t 0)) (u :: rest) :=
    segment_of_operand (e := .integer t 0) ⟨rfl, hzero⟩ trivial rfl rfl (by rintro _ ⟨⟩; rfl)
  have hu : Segment [u] (.expression u (.name u u.literal)) rest := by
    apply segment_of_operand (e := .name u u.literal) ⟨rfl, rfl⟩ trivial rfl rfl
    intro x hx
    rw [hrest x hx]
    rfl
  obtain ⟨q, hr, hd, -, hq, hruns⟩ :=
    Parser.exists_runs_behind_segment rfl rfl hp ht (by rintro _ ⟨⟩; exact nofun)
  replace hq : q.stream.pending = [u] ++ rest := hq
  have hsemicolon : ∀ x ∈ rest.head?, x.kind ≠ .semicolon := by
    intro x hx
    rw [hrest x hx]
    exact nofun
  obtain ⟨q', -, -, -, -, hruns'⟩ :=
    Parser.exists_runs_behind_segment hr hd hq hu hsemicolon
  obtain ⟨ss, r, hrun⟩ := Parser.exists_runs q'
  refine ⟨t, u, ss, ?_, rfl, rfl⟩
  rw [Parser.parse_eq_of_runs (hruns _ r (hruns' ss r hrun))]

/-- A run of digits that has a value is read as one statement, the literal with that value. A text
that has a value by a letter for its radix is cut: its program starts with a zero and a name. -/
theorem parse_of_literal {text : String} {value : Int64}
    (h : Numeral.decode? text = some value) (file : Option String) :
    ((∀ c ∈ text.toList, c.isDigit = true) → ∃ t : Token, t.literal = text ∧
        parse text file = (⟨[.expression t (.integer t value)]⟩, [])) ∧
      ((∃ c ∈ text.toList, c.isDigit = false) → ∃ (t u : Token) (ss : List Statement),
        (parse text file).1.statements =
          .expression t (.integer t 0) :: .expression u (.name u u.literal) :: ss ∧
        t.literal = "0" ∧ u.literal = .ofList (text.toList.tail.takeWhile isWordChar)) := by
  rcases Numeral.literal_cases h with ⟨hne, hall⟩ | ⟨m, ds, htext, hm, hds⟩
  · constructor
    · intro _
      let t := Token.atOffset (file.getD defaultFile) 0 .integer text.toList
      have ht : t.literal = text := String.ofList_toList
      refine ⟨t, ht, parse_of_segmented ?_⟩
      have hp : (TokenStream.ofSource text file).pending = [t] ++ [] := by
        simp only [TokenStream.ofSource, lexemes_of_digits hne hall]
        rfl
      rw [dropLast_tokenize, hp]
      have hw : (Expr.integer t value).Written := ⟨rfl, by rw [ht, h]⟩
      exact .cons (segment_of_operand hw trivial rfl rfl nofun) .nil
    · rintro ⟨c, hc, hd⟩
      rw [hall c hc] at hd
      cases hd
  · constructor
    · intro hall
      have hd := isDigit_eq_false_of_isWordChar (isWordChar_of_radixLetter hm)
      rw [hall m (by simp [htext])] at hd
      cases hd
    · intro _
      obtain ⟨ls, hls, hnext⟩ := lexemes_of_radixLetter hm hds
      rw [← htext] at hls
      obtain ⟨t, u, ss, hss, ht, hu⟩ := exists_statements_of_zero hls hnext file
      refine ⟨t, u, ss, hss, ht, ?_⟩
      rw [hu, htext, List.tail_cons]

theorem parse_of_literal_bases :
    Numeral.decode? "017" = some 15 ∧ Numeral.decode? "0x1F" = some 31 ∧
      (∃ t : Token, t.literal = "017" ∧
        parse "017" none = (⟨[.expression t (.integer t 15)]⟩, [])) ∧
      ∃ (t u : Token) (ss : List Statement), (parse "0x1F" none).1.statements =
          .expression t (.integer t 0) :: .expression u (.name u u.literal) :: ss ∧
        t.literal = "0" ∧ u.literal = .ofList ("0x1F".toList.tail.takeWhile isWordChar) := by
  have hoctal : Numeral.decode? "017" = some 15 := by decide +kernel
  have hhex : Numeral.decode? "0x1F" = some 31 := by decide +kernel
  have hdigits : "017".toList.all Char.isDigit = true := by decide +kernel
  have hletter : ∃ c ∈ "0x1F".toList, c.isDigit = false := ⟨'x', by simp, by decide⟩
  exact ⟨hoctal, hhex, (parse_of_literal hoctal none).1 (List.all_eq_true.1 hdigits),
    (parse_of_literal hhex none).2 hletter⟩

/-- A hexadecimal literal is not read as one: `0x1F` gives four statements, and no error. -/
theorem parse_hexadecimal_ne :
    ¬ ∀ (text : String) (value : Int64) (file : Option String),
      Numeral.decode? text = some value → ∃ t : Token, t.literal = text ∧
        parse text file = (⟨[.expression t (.integer t value)]⟩, []) := by
  intro h
  obtain ⟨t, -, hp⟩ := h "0x1F" 31 none (by decide +kernel)
  have hlen : (parse "0x1F" none).1.statements.length = 4 := by decide +kernel
  rw [hp] at hlen
  cases hlen

end MonkeySyntax
