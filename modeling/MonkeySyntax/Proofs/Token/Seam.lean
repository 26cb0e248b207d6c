import Mathlib.Data.List.TakeWhile
import Mathlib.Tactic.ByContra
import MonkeySyntax.Token.Stream

/-! # Cutting a text between lexemes

A lexeme can only grow by a character of its own class, or from `=` and `!` to a longer operator.
A text that is cut where the last lexeme before the cut does not grow has the lexemes of its parts.
-/

namespace MonkeySyntax

/-- A character behind the lexeme would belong to it. -/
def Lexeme.growsBy (l : Lexeme) (y : Char) : Bool :=
  match l.text with
  | [] => false
  | x :: xs =>
    isBlank x && isBlank y || isWordChar x && isWordChar y || x.isDigit && y.isDigit ||
      xs.isEmpty && (x == '=' || x == '!') && y == '='

variable {a b : List Char}

theorem takeWhile_append_of_all {f : Char → Bool}
    (h : a.takeWhile f = a → ∀ y ∈ b.head?, f y = false) :
    (a ++ b).takeWhile f = a.takeWhile f := by
  rw [List.takeWhile_append]
  split
  · next hl =>
    have ha : a.takeWhile f = a := (List.takeWhile_prefix f).eq_of_length hl
    cases b with
    | nil => simp [ha]
    | cons y b => rw [List.takeWhile_cons_of_neg (by simp [h ha y rfl]), ha, List.append_nil]
  · rfl

theorem isBlank_eq_false_of_isWordChar {c : Char} (h : isWordChar c = true) :
    isBlank c = false := by
  by_contra hb
  simp only [isBlank, Bool.not_eq_false, Bool.or_eq_true, beq_iff_eq] at hb
  rcases hb with ((rfl | rfl) | rfl) | rfl <;> exact absurd h (by decide)

theorem isBlank_eq_false_of_isDigit {c : Char} (h : c.isDigit = true) : isBlank c = false := by
  by_contra hb
  simp only [isBlank, Bool.not_eq_false, Bool.or_eq_true, beq_iff_eq] at hb
  rcases hb with ((rfl | rfl) | rfl) | rfl <;> exact absurd h (by decide)

theorem isWordChar_iff {c : Char} : isWordChar c = true ↔
    (('A' ≤ c ∧ c ≤ 'Z') ∨ 'a' ≤ c ∧ c ≤ 'z') ∨ c = '_' := by
  delta isWordChar Char.isAlpha Char.isUpper Char.isLower
  simp only [Bool.or_eq_true, Bool.and_eq_true, decide_eq_true_eq, beq_iff_eq, ge_iff_le,
    Char.le_def]

theorem isWordChar_eq_false_of_isDigit {c : Char} (h : c.isDigit = true) :
    isWordChar c = false := by
  by_contra hw
  rcases isWordChar_iff.1 (by simpa using hw) with hw | rfl
  · simp only [Char.le_def] at hw
    simp only [Char.isDigit, Bool.and_eq_true, decide_eq_true_eq] at h
    grind
  · exact absurd h (by decide)

theorem isDigit_eq_false_of_isWordChar {c : Char} (h : isWordChar c = true) :
    c.isDigit = false := by
  by_contra hd
  rw [isWordChar_eq_false_of_isDigit (by simpa using hd)] at h
  cases h

/-- A fixed text is one character, or an operator that has grown from `=` or `!`. -/
def Pattern.isShort : Pattern → Bool
  | fixed [_] _ => true
  | fixed [x, y] _ => (x == '=' || x == '!') && y == '='
  | fixed _ _ => false
  | _ => true

theorem Pattern.isShort_of_mem : ∀ p ∈ patterns, p.isShort = true := by decide

namespace Lexeme

variable {c : Char} {cs : List Char}

theorem front_of_blank (h : isBlank c = true) (cs : List Char) :
    front c cs = ⟨none, (c :: cs).takeWhile isBlank⟩ := by
  simp [front, patterns, Pattern.lexeme?, Pattern.front, Pattern.kindOf?, h]

theorem front_of_wordChar (h : isWordChar c = true) (cs : List Char) :
    front c cs = ⟨some (.ofWord (.ofList ((c :: cs).takeWhile isWordChar))),
      (c :: cs).takeWhile isWordChar⟩ := by
  have hb := isBlank_eq_false_of_isWordChar h
  simp [front, patterns, Pattern.lexeme?, Pattern.front, Pattern.kindOf?, h, hb]

theorem front_of_digit (h : c.isDigit = true) (cs : List Char) :
    front c cs = ⟨some .integer, (c :: cs).takeWhile Char.isDigit⟩ := by
  have hb := isBlank_eq_false_of_isDigit h
  have hw := isWordChar_eq_false_of_isDigit h
  simp [front, patterns, Pattern.lexeme?, Pattern.front, Pattern.kindOf?, h, hb, hw]

/-- Behind a lexeme that is a run of one class stands what is left of the text without it. -/
theorem drop_of_takeWhile {f : Char → Bool}
    (h : (front c cs).text = (c :: cs).takeWhile f) :
    cs.drop ((front c cs).text.length - 1) = (c :: cs).dropWhile f := by
  have hd := text_front_append_drop c cs
  have ht : (c :: cs).takeWhile f ++ (c :: cs).dropWhile f = c :: cs :=
    List.takeWhile_append_dropWhile
  rw [h] at hd ⊢
  exact List.append_cancel_left (hd.trans ht.symm)

theorem front_congr {cs' : List Char}
    (h : ∀ p ∈ patterns, p.front (c :: cs) = p.front (c :: cs')) : front c cs = front c cs' := by
  have hps : ∀ ps : List Pattern, (∀ p ∈ ps, p.front (c :: cs) = p.front (c :: cs')) →
      ps.findSome? (·.lexeme? (c :: cs)) = ps.findSome? (·.lexeme? (c :: cs')) := by
    intro ps hps
    induction ps with
    | nil => rfl
    | cons p ps ih =>
      have hp : p.lexeme? (c :: cs) = p.lexeme? (c :: cs') := by
        rw [Pattern.lexeme?, Pattern.lexeme?, hps p List.mem_cons_self]
      rw [List.findSome?_cons, List.findSome?_cons, hp,
        ih fun q hq => hps q (List.mem_cons_of_mem p hq)]
  rw [front, front, hps patterns h]

theorem head_of_takeWhile_eq {f : Char → Bool} (h : (c :: cs).takeWhile f = c :: cs) :
    f c = true := by
  by_contra hf
  rw [List.takeWhile_cons_of_neg hf] at h
  cases h

theorem text_front_nil (c : Char) : (front c []).text = [c] := by
  have h := text_front_prefix c []
  exact h.eq_of_length_le (List.length_pos_iff.2 (text_front_ne_nil c []))

/-- A fixed text can only reach over a cut from `=` or `!` to a `=`. -/
theorem front_fixed_append {text : List Char} {k : TokenKind}
    (hs : (Pattern.fixed text k).isShort = true)
    (h : cs = [] → (c = '=' ∨ c = '!') → ∀ y ∈ b.head?, y ≠ '=') :
    (Pattern.fixed text k).front (c :: (cs ++ b)) = (Pattern.fixed text k).front (c :: cs) := by
  match text, hs with
  | [x], _ => simp [Pattern.front]
  | [x, y], hs =>
    cases cs with
    | cons d ds => simp [Pattern.front]
    | nil =>
      cases b with
      | nil => rfl
      | cons z b =>
        obtain ⟨hx, rfl⟩ : (x = '=' ∨ x = '!') ∧ y = '=' := by simpa [Pattern.isShort] using hs
        have hz : ¬ (x = c ∧ '=' = z) := by
          rintro ⟨rfl, rfl⟩
          exact h rfl hx '=' rfl rfl
        simpa [Pattern.front] using hz

/-- What stands behind a text changes its first lexeme only if that is the whole text and grows. -/
theorem front_append
    (h : (front c cs).text = c :: cs → ∀ y ∈ b.head?, (front c cs).growsBy y = false) :
    front c (cs ++ b) = front c cs := by
  apply front_congr
  intro p hp
  cases p with
  | blanks =>
    refine takeWhile_append_of_all (a := c :: cs) fun ha y hy => ?_
    have hc := head_of_takeWhile_eq ha
    have hg := h (by rw [front_of_blank hc, ha]) y hy
    simp_all [growsBy, front_of_blank]
  | word =>
    refine takeWhile_append_of_all (a := c :: cs) fun ha y hy => ?_
    have hc := head_of_takeWhile_eq ha
    have hg := h (by rw [front_of_wordChar hc, ha]) y hy
    simp_all [growsBy, front_of_wordChar]
  | digits =>
    refine takeWhile_append_of_all (a := c :: cs) fun ha y hy => ?_
    have hc := head_of_takeWhile_eq ha
    have hg := h (by rw [front_of_digit hc, ha]) y hy
    simp_all [growsBy, front_of_digit]
  | fixed text k =>
    apply front_fixed_append (Pattern.isShort_of_mem _ hp)
    rintro rfl hc y hy rfl
    have hg := h (text_front_nil c) '=' hy
    rcases hc with rfl | rfl <;> simp [growsBy, text_front_nil] at hg

end Lexeme

theorem lexemes_append
    (h : ∀ l ∈ (lexemes a).getLast?, ∀ y ∈ b.head?, l.growsBy y = false) :
    lexemes (a ++ b) = lexemes a ++ lexemes b := by
  fun_induction lexemes a with
  | case1 => rfl
  | case2 c cs l ih =>
    have hl := Lexeme.text_front_prefix c cs
    have hlen : l.text.length ≤ cs.length + 1 := hl.length_le
    have hf : Lexeme.front c (cs ++ b) = l := by
      apply Lexeme.front_append
      intro ht
      exact h l (by simp [l, ht, lexemes])
    rw [List.cons_append, lexemes]
    simp only [hf]
    rw [List.drop_append_of_le_length (by omega), ih, List.cons_append]
    intro l' hl'
    exact h l' (by simp [List.getLast?_cons, Option.mem_def.1 hl'])

theorem Lexeme.growsBy_of_no_class {y : Char}
    (h : isBlank y = false ∧ isWordChar y = false ∧ y.isDigit = false) (he : y ≠ '=')
    (l : Lexeme) : l.growsBy y = false := by
  unfold growsBy
  split <;> simp [h, he]

theorem semicolon_of_no_class :
    isBlank ';' = false ∧ isWordChar ';' = false ∧ ';'.isDigit = false := by
  decide

theorem Lexeme.growsBy_semicolon (l : Lexeme) : l.growsBy ';' = false :=
  growsBy_of_no_class semicolon_of_no_class (by decide) l

theorem lexemes_append_semicolon (a : List Char) :
    lexemes (a ++ [';']) = lexemes a ++ [⟨some .semicolon, [';']⟩] := by
  have hs : lexemes [';'] = [⟨some .semicolon, [';']⟩] := by decide +kernel
  rw [lexemes_append, hs]
  rintro l - y ⟨⟩
  exact l.growsBy_semicolon

theorem lexemes_semicolon_append (a b : List Char) :
    lexemes (a ++ [';'] ++ b) = lexemes (a ++ [';']) ++ lexemes b := by
  apply lexemes_append
  intro l hl y _
  rw [lexemes_append_semicolon, List.getLast?_concat] at hl
  cases hl
  simp [Lexeme.growsBy, semicolon_of_no_class]

/-! ### Shifted tokens -/

def Position.shift (n : Nat) (p : Position) : Position := { p with offset := .ofNat n + p.offset }

def Token.shift (n : Nat) (t : Token) : Token :=
  { t with span := ⟨t.span.start.shift n, t.span.stop.shift n⟩ }

variable {file : String} {n : Nat}

theorem Token.atOffset_add (offset : Nat) (kind : TokenKind) (text : List Char) :
    Token.atOffset file (n + offset) kind text =
      (Token.atOffset file offset kind text).shift n := by
  simp [atOffset, shift, Position.shift, Nat.add_assoc, UInt32.ofNat_add]

theorem place_add (offset : Nat) (ls : List Lexeme) :
    place file (n + offset) ls = (place file offset ls).map (Token.shift n) := by
  induction ls generalizing offset with
  | nil => rfl
  | cons l ls ih =>
    rw [place, place, Nat.add_assoc, ih]
    split
    · rfl
    · rw [List.map_cons, Token.atOffset_add]

theorem place_append (offset : Nat) (ls ls' : List Lexeme) :
    place file offset (ls ++ ls') = place file offset ls ++
      place file (offset + Text.byteLength (ls.flatMap Lexeme.text)) ls' := by
  induction ls generalizing offset with
  | nil => rfl
  | cons l ls ih =>
    rw [List.cons_append, place, place, ih]
    split <;> simp [Nat.add_assoc]

theorem place_lexemes_append {a : List Char} (ls : List Lexeme) :
    place file 0 (lexemes a ++ ls) =
      place file 0 (lexemes a) ++ (place file 0 ls).map (Token.shift (Text.byteLength a)) := by
  rw [place_append, flatMap_text_lexemes, Nat.zero_add, ← place_add, Nat.add_zero]

theorem Token.ending_append (a b : List Char) :
    Token.ending file (a ++ b) = (Token.ending file b).shift (Text.byteLength a) := by
  rw [Token.ending, Text.byteLength_append, Token.atOffset_add]
  rfl

end MonkeySyntax
