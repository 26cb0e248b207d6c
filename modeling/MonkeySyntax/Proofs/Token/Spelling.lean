import MonkeySyntax.Proofs.Token.Cover
import MonkeySyntax.Proofs.Tree.MapTokens

/-! # The texts of tokens

The text of a token belongs to the class that its kind names. Written down again, with nothing
behind it that it would grow by, such a text is read as the same kind and text.
-/

namespace MonkeySyntax

def Token.entry (t : Token) : TokenKind × String := (t.kind, t.literal)

def Token.Spelled (t : Token) : Prop := InClass t.literal.toList t.kind

/-- The kinds and texts of the tokens of a text. -/
def entries (cs : List Char) : List (TokenKind × String) := (lexemes cs).filterMap Lexeme.entry?

variable {source : String} {file : Option String} {text rest cs : List Char} {kind : TokenKind}
  {t : Token} {c : Char}

@[simp] theorem entries_nil : entries [] = [] := by
  rw [entries, lexemes, List.filterMap_nil]

theorem map_entry_tokenize (source : String) (file : Option String) :
    (tokenize source file).dropLast.map Token.entry = entries source.toList := by
  rw [dropLast_tokenize]
  exact entries_place (file.getD defaultFile) 0 (lexemes source.toList)

theorem map_bare_of_map_entry {ts us : List Token} (h : ts.map Token.entry = us.map Token.entry) :
    ts.map Token.bare = us.map Token.bare := by
  have hbare : Token.bare = (fun x => Token.plain x.1 x.2) ∘ Token.entry := rfl
  rw [hbare, ← List.map_map, ← List.map_map, h]

/-! ### Classes -/

theorem ofWord_mem (word : String) :
    TokenKind.ofWord word ∈ TokenKind.identifier :: TokenKind.reserved.map (·.2) := by
  rw [TokenKind.ofWord]
  cases h : TokenKind.reserved.lookup word with
  | none => exact List.mem_cons_self
  | some k =>
    obtain ⟨l, r, hr, -⟩ := List.lookup_eq_some_iff.1 h
    apply List.mem_cons_of_mem
    exact List.mem_map.2 ⟨(word, k), by simp [hr], rfl⟩

theorem InClass.of_identifier (h : InClass text .identifier) :
    text ≠ [] ∧ ∀ c ∈ text, isWordChar c = true := by
  generalize hk : TokenKind.identifier = k at h
  cases h with
  | word hne h => exact ⟨hne, h⟩
  | digits _ _ => cases hk
  | symbol h => exact absurd hk.symm ((by decide : ∀ s ∈ symbols, s.2 ≠ .identifier) _ h)

theorem InClass.of_integer (h : InClass text .integer) :
    text ≠ [] ∧ ∀ c ∈ text, c.isDigit = true := by
  generalize hk : TokenKind.integer = k at h
  cases h with
  | word _ _ =>
    have hmem := ofWord_mem (.ofList text)
    rw [← hk] at hmem
    exact absurd hmem (by decide)
  | digits hne h => exact ⟨hne, h⟩
  | symbol h => exact absurd hk.symm ((by decide : ∀ s ∈ symbols, s.2 ≠ .integer) _ h)

theorem InClass.mem_symbols_of_kind (h : InClass text kind) (hk : kind ∈ symbols.map (·.2)) :
    (text, kind) ∈ symbols := by
  cases h with
  | word _ _ =>
    have hall : ∀ k ∈ TokenKind.identifier :: TokenKind.reserved.map (·.2),
        k ∉ symbols.map (·.2) := by decide
    exact absurd hk (hall _ (ofWord_mem _))
  | digits _ _ => exact absurd hk (by decide)
  | symbol h => exact h

/-! ### Reading a text again -/

theorem Lexeme.inClass_front {c : Char} {cs : List Char} (h : (front c cs).kind? = some kind)
    (hi : kind ≠ .illegal) : InClass (front c cs).text kind := by
  cases hb : isBlank c with
  | true =>
    rw [front_of_blank hb] at h
    cases h
  | false =>
    rcases front_longest hb cs with ⟨kind', hk, hl⟩ | ⟨hf, -⟩
    · obtain rfl := Option.some.inj (hk.symm.trans h)
      exact hl.inClass
    · rw [hf] at h
      exact absurd (Option.some.inj h).symm hi

theorem inClass_of_mem_lexemes {l : Lexeme} (h : l ∈ lexemes cs) (hk : l.kind? = some kind)
    (hi : kind ≠ .illegal) : InClass l.text kind := by
  fun_induction lexemes cs with
  | case1 => cases h
  | case2 c cs l' ih =>
    rcases List.mem_cons.1 h with rfl | h
    · exact Lexeme.inClass_front hk hi
    · exact ih h

/-- A token of a source is illegal, or its text is in the class of its kind. -/
theorem spelled_of_mem_tokenize (h : t ∈ (tokenize source file).dropLast)
    (hi : t.kind ≠ .illegal) : t.Spelled := by
  have hmem : t.entry ∈ entries source.toList := by
    rw [← map_entry_tokenize source file]
    exact List.mem_map_of_mem h
  obtain ⟨l, hl, he⟩ := List.mem_filterMap.1 hmem
  obtain ⟨kind, hk, he⟩ := Option.map_eq_some_iff.1 he
  obtain ⟨rfl, ht⟩ := Prod.mk.inj he
  have hc := inClass_of_mem_lexemes hl hk hi
  rwa [Token.Spelled, ← ht, String.toList_ofList]

/-- The texts of the tokens are the source without its blanks. -/
theorem flatMap_literal_tokenize (source : String) (file : Option String) :
    (tokenize source file).dropLast.flatMap (·.literal.toList) =
      source.toList.filter fun c => !isBlank c := by
  have hplace : (place (file.getD defaultFile) 0 (lexemes source.toList)).flatMap
      (·.literal.toList) = _ :=
    literals_place fun _ => tidy_of_mem_lexemes
  rw [dropLast_tokenize, ← flatMap_text_lexemes source.toList]
  exact hplace

theorem mem_filter_of_mem_literal (h : t ∈ (tokenize source file).dropLast)
    (hc : c ∈ t.literal.toList) : c ∈ source.toList.filter fun c => !isBlank c := by
  rw [← flatMap_literal_tokenize source file]
  exact List.mem_flatMap.2 ⟨t, h, hc⟩

theorem mem_of_mem_literal (h : t ∈ (tokenize source file).dropLast)
    (hc : c ∈ t.literal.toList) : c ∈ source.toList :=
  (List.mem_filter.1 (mem_filter_of_mem_literal h hc)).1

theorem isBlank_of_mem_literal (h : t ∈ (tokenize source file).dropLast)
    (hc : c ∈ t.literal.toList) : isBlank c = false := by
  simpa using (List.mem_filter.1 (mem_filter_of_mem_literal h hc)).2

theorem exists_token_of_mem (h : c ∈ source.toList) (hb : isBlank c = false)
    (file : Option String) : ∃ t ∈ (tokenize source file).dropLast, c ∈ t.literal.toList := by
  have hmem : c ∈ source.toList.filter fun c => !isBlank c :=
    List.mem_filter.2 ⟨h, by rw [hb]; rfl⟩
  rw [← flatMap_literal_tokenize source file] at hmem
  exact List.mem_flatMap.1 hmem

theorem lexemes_of_inClass (h : InClass text kind) : lexemes text = [⟨some kind, text⟩] := by
  have hself : Longest text text kind :=
    ⟨h, List.prefix_rfl, fun _ _ _ hp => hp.length_le⟩
  obtain ⟨c, cs, rfl⟩ := List.exists_cons_of_ne_nil h.ne_nil
  have hb := h.isBlank_eq_false c List.mem_cons_self
  rcases Lexeme.front_longest hb cs with ⟨kind', hk, hl⟩ | ⟨-, hn⟩
  · obtain ⟨ht, rfl⟩ := hl.unique hself
    have hf : Lexeme.front c cs = ⟨some kind', c :: cs⟩ := by
      rw [← hk, ← ht]
    simp [lexemes, hf]
  · exact absurd List.prefix_rfl (hn _ _ h)

/-- A text in a class is read as one token wherever nothing behind it belongs to it. -/
theorem entries_append_of_inClass (h : InClass text kind)
    (hg : ∀ y ∈ rest.head?, (⟨some kind, text⟩ : Lexeme).growsBy y = false) :
    entries (text ++ rest) = (kind, .ofList text) :: entries rest := by
  have hl := lexemes_of_inClass h
  rw [entries, lexemes_append, hl]
  · rfl
  · rw [hl]
    rintro l ⟨⟩ y hy
    exact hg y hy

theorem entries_semicolon_append (a b : List Char) :
    entries (a ++ [';'] ++ b) = entries a ++ (.semicolon, ";") :: entries b := by
  rw [entries, lexemes_semicolon_append, lexemes_append_semicolon, List.filterMap_append,
    List.filterMap_append, List.append_assoc]
  rfl

theorem entries_cons_of_isBlank (h : isBlank c = true) (cs : List Char) :
    entries (c :: cs) = entries cs := by
  have hdrop (ds : List Char) : entries ds = entries (ds.dropWhile isBlank) := by
    cases ds with
    | nil => rfl
    | cons d ds =>
      cases hd : isBlank d with
      | true =>
        have hf := Lexeme.front_of_blank hd ds
        rw [← Lexeme.drop_of_takeWhile (congrArg Lexeme.text hf), entries, lexemes, hf]
        rfl
      | false => rw [List.dropWhile_cons_of_neg (by simp [hd])]
  rw [hdrop (c :: cs), List.dropWhile_cons_of_pos h, ← hdrop cs]

end MonkeySyntax
