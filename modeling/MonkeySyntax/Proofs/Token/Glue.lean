import MonkeySyntax.Proofs.Token.Spelling

/-! # Where texts glue

Two texts written one behind the other have the tokens of the first and then those of the second,
unless the last token of the first one grows into the second: a word by a letter, a number by a
digit, or one of the signs `=` and `!` by a `=`.
-/

namespace MonkeySyntax

/-- The last character of the first text and the first one of the second are both of a class. -/
def Meet (f : Char → Bool) (a b : String) : Prop :=
  ∃ x ∈ a.toList.getLast?, ∃ y ∈ b.toList.head?, f x = true ∧ f y = true

/-- The last token of the text is the sign `=` or `!`, and nothing stands behind it. -/
def EndsInSign (a : String) (file : Option String) : Prop :=
  ∃ t ∈ (tokenize a file).dropLast.getLast?, (t.kind = .assign ∨ t.kind = .bang) ∧
    t.span.stop.offset.toNat = a.utf8ByteSize

instance (f : Char → Bool) (a b : String) : Decidable (Meet f a b) :=
  decidable_of_iff (a.toList.getLast?.any f = true ∧ b.toList.head?.any f = true) <| by
    simp only [Option.any_eq_true, Meet, Option.mem_def]
    constructor
    · rintro ⟨⟨x, hx, hfx⟩, y, hy, hfy⟩
      exact ⟨x, hx, y, hy, hfx, hfy⟩
    · rintro ⟨x, hx, y, hy, hfx, hfy⟩
      exact ⟨⟨x, hx, hfx⟩, y, hy, hfy⟩

instance (a : String) (file : Option String) : Decidable (EndsInSign a file) :=
  decidable_of_iff ((tokenize a file).dropLast.getLast?.any (fun t =>
      (t.kind = .assign ∨ t.kind = .bang) ∧ t.span.stop.offset.toNat = a.utf8ByteSize) = true) <| by
    simp only [Option.any_eq_true, EndsInSign, Option.mem_def, decide_eq_true_eq]

variable {a b cs : List Char} {c x y : Char} {l : Lexeme} {ls : List Lexeme}

/-! ### Growing lexemes -/

def IsStray (c : Char) : Prop := isBlank c = false ∧ ∀ kind, ¬ InClass [c] kind

/-- A lexeme is made of blanks, or is a text in a class, or a stray character. -/
def Lexeme.Formed (l : Lexeme) : Prop :=
  (l.kind? = none ∧ ∀ c ∈ l.text, isBlank c = true) ∨
    (∃ kind, l.kind? = some kind ∧ InClass l.text kind) ∨
      ∃ c, l = ⟨some .illegal, [c]⟩ ∧ IsStray c

theorem Lexeme.formed_front (c : Char) (cs : List Char) : (front c cs).Formed := by
  cases hb : isBlank c with
  | true =>
    refine .inl ?_
    rw [front_of_blank hb]
    exact ⟨rfl, fun _ => List.mem_takeWhile_imp⟩
  | false =>
    rcases front_longest hb cs with ⟨kind, hk, hl⟩ | ⟨hf, hn⟩
    · exact .inr (.inl ⟨kind, hk, hl.inClass⟩)
    · exact .inr (.inr ⟨c, hf, hb, fun kind hc => hn _ kind hc ⟨cs, rfl⟩⟩)

theorem formed_of_mem_lexemes (h : l ∈ lexemes cs) : l.Formed := by
  fun_induction lexemes cs with
  | case1 => cases h
  | case2 c cs l' ih =>
    rcases List.mem_cons.1 h with rfl | h
    · exact Lexeme.formed_front c cs
    · exact ih h

theorem IsStray.not_class (h : IsStray c) :
    isBlank c = false ∧ isWordChar c = false ∧ c.isDigit = false ∧ c ≠ '=' ∧ c ≠ '!' := by
  obtain ⟨hb, hn⟩ := h
  refine ⟨hb, ?_, ?_, ?_, ?_⟩
  · exact Bool.eq_false_iff.2 fun hw => hn _ (.word (List.cons_ne_nil c []) (by simpa))
  · exact Bool.eq_false_iff.2 fun hd => hn _ (.digits (List.cons_ne_nil c []) (by simpa))
  · rintro rfl
    exact hn .assign (.symbol (by decide))
  · rintro rfl
    exact hn .bang (.symbol (by decide))

theorem not_class_of_isBlank (h : isBlank c = true) :
    isWordChar c = false ∧ c.isDigit = false := by
  constructor
  · cases hw : isWordChar c with
    | false => rfl
    | true => rw [isBlank_eq_false_of_isWordChar hw] at h; cases h
  · cases hd : c.isDigit with
    | false => rfl
    | true => rw [isBlank_eq_false_of_isDigit hd] at h; cases h

theorem ne_sign_of_class (h : isBlank c = true ∨ isWordChar c = true ∨ c.isDigit = true) :
    c ≠ '=' ∧ c ≠ '!' := by
  constructor <;> (rintro rfl; revert h; decide)

theorem ofWord_ne_sign (word : String) : ¬ (TokenKind.ofWord word = .assign ∨
    TokenKind.ofWord word = .bang) :=
  (by decide : ∀ k ∈ TokenKind.identifier :: TokenKind.reserved.map (·.2),
    ¬ (k = .assign ∨ k = .bang)) _ (ofWord_mem word)

theorem signs_of_symbols : ∀ s ∈ symbols,
    (s.1 = ['='] ∨ s.1 = ['!'] ↔ s.2 = .assign ∨ s.2 = .bang) := by decide

/-- A text in a class grows by a character of the class of its last one, or as a sign by a `=`. -/
theorem InClass.growsBy_iff {text : List Char} {kind : TokenKind} (h : InClass text kind)
    (hx : x ∈ text.getLast?) : (⟨some kind, text⟩ : Lexeme).growsBy y = true ↔
      isWordChar x = true ∧ isWordChar y = true ∨ x.isDigit = true ∧ y.isDigit = true ∨
        (kind = .assign ∨ kind = .bang) ∧ y = '=' := by
  have hmem : x ∈ text := List.mem_of_getLast? hx
  obtain ⟨c, text, rfl⟩ := List.exists_cons_of_ne_nil h.ne_nil
  cases h with
  | word _ hw =>
    have hc := hw c List.mem_cons_self
    simp [Lexeme.growsBy, hc, ne_sign_of_class (.inr (.inl hc)), hw x hmem, ofWord_ne_sign,
      isBlank_eq_false_of_isWordChar, isDigit_eq_false_of_isWordChar]
  | digits _ hd =>
    have hc := hd c List.mem_cons_self
    simp [Lexeme.growsBy, hc, ne_sign_of_class (.inr (.inr hc)), hd x hmem,
      isBlank_eq_false_of_isDigit, isWordChar_eq_false_of_isDigit]
  | symbol hs =>
    have hno := not_class_of_mem_symbols _ hs
    have hg : (⟨some kind, c :: text⟩ : Lexeme).growsBy y =
        (text.isEmpty && (c == '=' || c == '!') && y == '=') := by
      simp [Lexeme.growsBy, hno c List.mem_cons_self]
    have hx := hno x hmem
    rw [← signs_of_symbols _ hs, hg]
    grind

theorem Lexeme.Formed.growsBy_iff (h : l.Formed) (hx : x ∈ l.text.getLast?) :
    l.kind?.isSome = true ∧ l.growsBy y = true ↔ isWordChar x = true ∧ isWordChar y = true ∨
      x.isDigit = true ∧ y.isDigit = true ∨
        (l.kind? = some .assign ∨ l.kind? = some .bang) ∧ y = '=' := by
  have hmem : x ∈ l.text := List.mem_of_getLast? hx
  obtain ⟨kind?, text⟩ := l
  rcases h with ⟨hk, hb⟩ | ⟨kind, hk, hc⟩ | ⟨c, hl, hstray⟩
  · simp_all [not_class_of_isBlank (hb x hmem)]
  · cases hk
    simp [hc.growsBy_iff hx]
  · cases hl
    obtain rfl := List.mem_singleton.1 hmem
    simp [growsBy, hstray.not_class]

theorem Lexeme.Formed.isBlank_of_growsBy (h : l.Formed) (hk : ¬ l.kind?.isSome = true)
    (hg : l.growsBy y = true) : (∀ c ∈ l.text, isBlank c = true) ∧ isBlank y = true := by
  rcases h with ⟨-, hb⟩ | ⟨kind, hsome, -⟩ | ⟨c, rfl, -⟩
  · refine ⟨hb, ?_⟩
    unfold growsBy at hg
    split at hg
    · cases hg
    · next c cs ht =>
      have hc := hb c (by simp [ht])
      simpa [hc, ne_sign_of_class (.inl hc), not_class_of_isBlank hc] using hg
  · simp [hsome] at hk
  · simp at hk

theorem Lexeme.front_operator (hc : c = '=' ∨ c = '!') (cs : List Char) :
    ∃ kind, front c ('=' :: cs) = ⟨some kind, [c, '=']⟩ := by
  rcases hc with rfl | rfl
  · exact ⟨.equal, rfl⟩
  · exact ⟨.notEqual, rfl⟩

/-- A lexeme that is all of a text and grows is longer with the character behind it. -/
theorem Lexeme.front_of_growsBy (ht : (front c cs).text = c :: cs)
    (hk : (front c cs).kind?.isSome = true) (hg : (front c cs).growsBy y = true) (b : List Char) :
    (front c cs).text.length < (front c (cs ++ y :: b)).text.length ∧
      (front c (cs ++ y :: b)).kind?.isSome = true := by
  have hrun {f : Char → Bool} (hf : (c :: cs).takeWhile f = c :: cs) (hy : f y = true) :
      (c :: cs).length < ((c :: (cs ++ y :: b)).takeWhile f).length := by
    have happ : c :: (cs ++ y :: b) = (c :: cs) ++ y :: b := rfl
    rw [happ, List.takeWhile_append, hf, if_pos rfl, List.takeWhile_cons_of_pos hy]
    simp
  simp only [growsBy, ht, Bool.or_eq_true, Bool.and_eq_true] at hg
  rcases hg with ((⟨hc, -⟩ | ⟨hc, hy⟩) | ⟨hc, hy⟩) | ⟨⟨hcs, hc⟩, hy⟩
  · rw [front_of_blank hc] at hk
    cases hk
  · rw [front_of_wordChar hc] at ht ⊢
    rw [ht, front_of_wordChar hc]
    exact ⟨hrun ht hy, rfl⟩
  · rw [front_of_digit hc] at ht ⊢
    rw [ht, front_of_digit hc]
    exact ⟨hrun ht hy, rfl⟩
  · obtain rfl := List.isEmpty_iff.1 hcs
    obtain rfl := beq_iff_eq.1 hy
    obtain ⟨kind, hf⟩ := front_operator (by simpa using hc) b
    rw [List.nil_append, hf, ht]
    exact ⟨by simp, rfl⟩

/-! ### Texts one behind the other -/

theorem lexemes_eq_singleton (h : (Lexeme.front c cs).text = c :: cs) :
    lexemes (c :: cs) = [Lexeme.front c cs] := by
  rw [lexemes, h, List.length_cons, Nat.add_sub_cancel, List.drop_length, lexemes]

/-- What stands behind a text that is more than a lexeme stands behind the rest of that text. -/
theorem lexemes_cons_append (h : (Lexeme.front c cs).text ≠ c :: cs) (b : List Char) :
    lexemes (c :: cs ++ b) = Lexeme.front c cs ::
      lexemes (cs.drop ((Lexeme.front c cs).text.length - 1) ++ b) := by
  have hlen := (Lexeme.text_front_prefix c cs).length_le
  rw [List.length_cons] at hlen
  rw [List.cons_append, lexemes, Lexeme.front_append fun ht => absurd ht h,
    List.drop_append_of_le_length (by omega)]

theorem getLast?_lexemes (h : (Lexeme.front c cs).text ≠ c :: cs) :
    (lexemes (c :: cs)).getLast? =
      (lexemes (cs.drop ((Lexeme.front c cs).text.length - 1))).getLast? := by
  have hrest := Lexeme.text_front_append_drop c cs
  rw [lexemes]
  cases hd : cs.drop ((Lexeme.front c cs).text.length - 1) with
  | nil =>
    rw [hd, List.append_nil] at hrest
    exact absurd hrest h
  | cons d ds => rw [lexemes, List.getLast?_cons_cons]

/-- The last lexeme of the first text makes a token, and grows by the start of the second text. -/
def Glued (a b : List Char) : Prop :=
  ∃ l ∈ (lexemes a).getLast?, ∃ y ∈ b.head?, l.kind?.isSome = true ∧ l.growsBy y = true

/-- Texts that are glued have a longer lexeme in the place of the last one of the first text. -/
theorem exists_lexemes_of_glued (h : Glued a b) :
    ∃ ls l l' ls', lexemes a = ls ++ [l] ∧ lexemes (a ++ b) = ls ++ l' :: ls' ∧
      l.text.length < l'.text.length ∧ l.kind?.isSome = true ∧ l'.kind?.isSome = true := by
  obtain ⟨l, hl, y, hy, hk, hg⟩ := h
  obtain ⟨b, rfl⟩ := List.head?_eq_some_iff.1 hy
  induction a using lexemes.induct with
  | case1 =>
    rw [lexemes] at hl
    cases hl
  | case2 c cs l₀ ih =>
    by_cases ht : l₀.text = c :: cs
    · rw [lexemes_eq_singleton ht] at hl ⊢
      obtain rfl : l₀ = l := Option.some.inj hl
      obtain ⟨hlen, hk'⟩ := Lexeme.front_of_growsBy ht hk hg b
      exact ⟨[], l₀, _, _, rfl, lexemes.eq_2 c (cs ++ y :: b), hlen, hk, hk'⟩
    · rw [getLast?_lexemes ht] at hl
      obtain ⟨ls, l, l', ls', h₁, h₂, hlen, hk, hk'⟩ := ih hl
      refine ⟨l₀ :: ls, l, l', ls', ?_, ?_, hlen, hk, hk'⟩
      · rw [lexemes, h₁]
        rfl
      · rw [lexemes_cons_append ht, h₂]
        rfl

theorem place_lexemes_of_isBlank (h : isBlank c = true) (file : String) (offset : Nat)
    (cs : List Char) : place file offset (lexemes (c :: cs)) =
      place file (offset + Text.byteLength ((c :: cs).takeWhile isBlank))
        (lexemes ((c :: cs).dropWhile isBlank)) := by
  have hf := Lexeme.front_of_blank h cs
  rw [lexemes, place, Lexeme.drop_of_takeWhile (congrArg Lexeme.text hf), hf]

/-- Where blanks meet there is one run of them in place of two, and no token is changed. -/
theorem place_append_of_isBlank (hc : isBlank c = true)
    (hcs : (c :: cs).takeWhile isBlank = c :: cs) (hy : isBlank y = true) (file : String)
    (offset : Nat) :
    place file offset (lexemes (c :: cs ++ y :: b)) =
      place file (offset + Text.byteLength (c :: cs)) (lexemes (y :: b)) := by
  have hall : ∀ d ∈ c :: cs, isBlank d = true := List.takeWhile_eq_self_iff.1 hcs
  have htake : (c :: cs ++ y :: b).takeWhile isBlank = c :: cs ++ (y :: b).takeWhile isBlank :=
    List.takeWhile_append_of_pos hall
  have hdrop : (c :: cs ++ y :: b).dropWhile isBlank = (y :: b).dropWhile isBlank :=
    List.dropWhile_append_of_pos hall
  rw [List.cons_append] at htake hdrop ⊢
  rw [place_lexemes_of_isBlank hc, place_lexemes_of_isBlank hy, htake, hdrop,
    Text.byteLength_append (c :: cs), Nat.add_assoc]

/-- Texts that are not glued give their tokens apart. -/
theorem place_append_of_not_glued (h : ¬ Glued a b) (file : String) (offset : Nat) :
    place file offset (lexemes (a ++ b)) = place file offset (lexemes a) ++
      place file (offset + Text.byteLength a) (lexemes b) := by
  induction a using lexemes.induct generalizing offset with
  | case1 =>
    rw [lexemes]
    rfl
  | case2 c cs l ih =>
    by_cases ht : l.text = c :: cs
    · have hs := lexemes_eq_singleton ht
      by_cases hg : ∀ y ∈ b.head?, l.growsBy y = false
      · have happ : lexemes (c :: cs ++ b) = lexemes (c :: cs) ++ lexemes b := by
          apply lexemes_append
          rw [hs]
          rintro _ ⟨⟩
          exact hg
        rw [happ, place_append, flatMap_text_lexemes]
      · -- the lexeme grows and makes no token, so blanks meet
        simp only [not_forall, Bool.not_eq_false] at hg
        obtain ⟨y, hy, hg⟩ := hg
        have hk : ¬ l.kind?.isSome = true := fun hk => h ⟨l, by rw [hs]; rfl, y, hy, hk, hg⟩
        obtain ⟨hb, hyb⟩ := (Lexeme.formed_front c cs).isBlank_of_growsBy hk hg
        obtain ⟨b, rfl⟩ := List.head?_eq_some_iff.1 hy
        have hall : (c :: cs).takeWhile isBlank = c :: cs := List.takeWhile_eq_self_iff.2 (ht ▸ hb)
        have hc : isBlank c = true := Lexeme.head_of_takeWhile_eq hall
        rw [place_append_of_isBlank hc hall hyb, place_lexemes_of_isBlank hc, hall,
          List.dropWhile_eq_nil_iff.2 (ht ▸ hb), lexemes, place, List.nil_append]
    · have hrest : ¬ Glued (cs.drop (l.text.length - 1)) b := by
        rwa [Glued, ← getLast?_lexemes ht]
      have hlen : Text.byteLength l.text + Text.byteLength (cs.drop (l.text.length - 1)) =
          Text.byteLength (c :: cs) := by
        rw [← Text.byteLength_append, Lexeme.text_front_append_drop]
      rw [lexemes_cons_append ht, lexemes, place, place, ih hrest, ← hlen, Nat.add_assoc]
      split <;> rfl

/-! ### Tokens -/

variable {a b : String} {file : Option String}

theorem endsInSign_iff (h : a.utf8ByteSize < UInt32.size) (hls : lexemes a.toList = ls ++ [l]) :
    EndsInSign a file ↔ l.kind? = some .assign ∨ l.kind? = some .bang := by
  have htidy : ∀ l' ∈ ls ++ [l], l'.Tidy := hls ▸ fun _ => tidy_of_mem_lexemes
  have hlen : Text.byteLength (ls.flatMap Lexeme.text) + Text.byteLength l.text =
      a.utf8ByteSize := by
    rw [← Text.byteLength_toList, ← flatMap_text_lexemes a.toList, hls, ← Text.byteLength_append]
    simp
  have hl := Text.byteLength_pos (htidy l (by simp)).text_ne_nil
  rw [EndsInSign, dropLast_tokenize, TokenStream.ofSource]
  simp only [hls, place_append, Nat.zero_add]
  cases hk : l.kind? with
  | none =>
    -- the token before the blanks ends where they start
    refine iff_of_false ?_ (by simp)
    rintro ⟨t, ht, -, hstop⟩
    simp only [place, hk, List.append_nil] at ht
    have hle := (bounds_of_mem_place (fun l' hl' => htidy l' (List.mem_append_left _ hl'))
      (by omega) (List.mem_of_getLast? ht)).2.2
    omega
  | some kind =>
    have hstop : (Token.atOffset (file.getD defaultFile) (Text.byteLength (ls.flatMap Lexeme.text))
        kind l.text).span.stop.offset.toNat = a.utf8ByteSize := by
      rw [stop_atOffset kind (by omega), hlen]
    simp only [place, hk, List.getLast?_concat, Option.mem_some_iff, exists_eq_left', hstop,
      and_true, Option.some.injEq]
    rfl

/-- Texts are glued where letters or digits meet, or a sign and a `=`. -/
theorem glued_iff (h : a.utf8ByteSize < UInt32.size) : Glued a.toList b.toList ↔
    Meet isWordChar a b ∨ Meet Char.isDigit a b ∨
      b.toList.head? = some '=' ∧ EndsInSign a file := by
  rcases List.eq_nil_or_concat (lexemes a.toList) with hls | ⟨ls, l, hls⟩
  · have ha : a.toList = [] := by rw [← flatMap_text_lexemes a.toList, hls, List.flatMap_nil]
    simp [Glued, Meet, EndsInSign, dropLast_tokenize, TokenStream.ofSource, ha, lexemes, place]
  · rw [List.concat_eq_append] at hls
    have hmem : l ∈ lexemes a.toList := by simp [hls]
    have hne : l.text ≠ [] := text_ne_nil_of_mem_lexemes hmem
    obtain ⟨x, hx⟩ := Option.ne_none_iff_exists'.1 (mt List.getLast?_eq_none_iff.1 hne)
    have hax : a.toList.getLast? = some x := by
      rw [← flatMap_text_lexemes a.toList, hls]
      simp [hx]
    have hgrows (y : Char) := (formed_of_mem_lexemes hmem).growsBy_iff (y := y) hx
    simp only [Glued, Meet, endsInSign_iff h hls, hax, hls, List.getLast?_concat,
      Option.mem_some_iff, exists_eq_left', hgrows]
    cases b.toList.head? with
    | none => simp
    | some y => simp [and_comm]

/-- The kinds and texts of the tokens of two texts are not those of the texts together if they are
glued: a token of the first text is longer there. -/
theorem entries_append_ne_of_glued {a b : List Char} (h : Glued a b) :
    entries (a ++ b) ≠ entries a ++ entries b := by
  obtain ⟨ls, l, l', ls', ha, hab, hlen, hk, hk'⟩ := exists_lexemes_of_glued h
  obtain ⟨kind, hk⟩ := Option.isSome_iff_exists.1 hk
  obtain ⟨kind', hk'⟩ := Option.isSome_iff_exists.1 hk'
  have hl : l.entry? = some (kind, .ofList l.text) := by rw [Lexeme.entry?, hk]; rfl
  have hl' : l'.entry? = some (kind', .ofList l'.text) := by rw [Lexeme.entry?, hk']; rfl
  rw [entries, entries, ha, hab, List.filterMap_append, List.filterMap_append,
    List.filterMap_cons_some hl', List.filterMap_cons_some hl, List.append_assoc]
  intro heq
  have htext := (List.cons.inj (List.append_cancel_left heq)).1
  simp only [Prod.mk.injEq, String.ofList_inj] at htext
  rw [htext.2] at hlen
  omega

theorem map_entry_shift (n : Nat) (ts : List Token) :
    (ts.map (Token.shift n)).map Token.entry = ts.map Token.entry := by
  rw [List.map_map]
  rfl

theorem tokenize_ne_nil (source : String) (file : Option String) : tokenize source file ≠ [] :=
  List.append_ne_nil_of_right_ne_nil _ (List.cons_ne_nil _ _)

/-- Two texts have their tokens one behind the other exactly if no letters meet, no digits meet, and
no sign meets a `=`. -/
theorem tokenize_append_iff (a b : String) (file : Option String)
    (h : a.utf8ByteSize + b.utf8ByteSize < UInt32.size) :
    tokenize (a ++ b) file =
        (tokenize a file).dropLast ++ (tokenize b file).map (Token.shift a.utf8ByteSize) ↔
      ¬ (Meet isWordChar a b ∨ Meet Char.isDigit a b ∨
        b.toList.head? = some '=' ∧ EndsInSign a file) := by
  have ha : a.utf8ByteSize < UInt32.size := Nat.lt_of_le_of_lt (Nat.le_add_right _ _) h
  rw [← glued_iff ha]
  constructor
  · intro heq hg
    apply entries_append_ne_of_glued hg
    have hne : (tokenize b file).map (Token.shift a.utf8ByteSize) ≠ [] := by
      simpa using tokenize_ne_nil b file
    have hentry := congrArg (fun ts => ts.dropLast.map Token.entry) heq
    simp only [List.dropLast_append_of_ne_nil hne, ← List.map_dropLast, List.map_append,
      map_entry_shift, map_entry_tokenize, String.toList_append] at hentry
    exact hentry
  · intro hg
    have htokens (source : String) : tokenize source file =
        place (file.getD defaultFile) 0 (lexemes source.toList) ++
          [.ending (file.getD defaultFile) source.toList] := rfl
    have hback : place (file.getD defaultFile) (0 + a.utf8ByteSize) (lexemes b.toList) =
        (place (file.getD defaultFile) 0 (lexemes b.toList)).map (Token.shift a.utf8ByteSize) := by
      rw [Nat.zero_add, ← place_add, Nat.add_zero]
    rw [htokens, htokens b, dropLast_tokenize, String.toList_append, place_append_of_not_glued hg,
      Token.ending_append, Text.byteLength_toList, hback, List.map_append, List.append_assoc]
    rfl

theorem tokenize_append_iff_operators :
    tokenize ("a==" ++ "= é") none = (tokenize "a==" none).dropLast ++
        (tokenize "= é" none).map (Token.shift 3) ∧
      tokenize ("a=" ++ "= é") none ≠ (tokenize "a=" none).dropLast ++
        (tokenize "= é" none).map (Token.shift 2) := by
  have hsize : "a==".utf8ByteSize = 3 ∧ "a=".utf8ByteSize = 2 := by decide
  constructor
  · rw [← hsize.1]
    exact (tokenize_append_iff "a==" "= é" none (by decide)).2 (by decide +kernel)
  · rw [← hsize.2]
    exact mt (tokenize_append_iff "a=" "= é" none (by decide)).1 (by decide +kernel)

end MonkeySyntax
