import Mathlib.Data.List.DropRight
import MonkeySyntax.Proofs.Token.Seam

/-! # Longest match

The first pattern that matches decides what a lexeme is, and patterns are greedy. Since an operator
of two characters is tried before its first character, this gives the tokens of longest match: each
is the longest text at its place that is in any lexical class.
-/

namespace MonkeySyntax

/-- The operators and delimiters, and the kinds of token that they make. -/
def symbols : List (List Char × TokenKind) :=
  [(['=', '='], .equal), (['!', '='], .notEqual), (['='], .assign), (['!'], .bang),
   (['+'], .plus), (['-'], .minus), (['*'], .asterisk), (['/'], .slash), (['<'], .less),
   (['>'], .greater), ([','], .comma), ([';'], .semicolon), (['('], .openParen),
   ([')'], .closeParen), (['{'], .openBrace), (['}'], .closeBrace)]

/-- The texts of the lexical classes, with the kinds of token that they make. -/
inductive InClass : List Char → TokenKind → Prop where
  | word {text : List Char} (hne : text ≠ []) (h : ∀ c ∈ text, isWordChar c = true) :
      InClass text (.ofWord (.ofList text))
  | digits {text : List Char} (hne : text ≠ []) (h : ∀ c ∈ text, c.isDigit = true) :
      InClass text .integer
  | symbol {text : List Char} {kind : TokenKind} (h : (text, kind) ∈ symbols) : InClass text kind

/-- No longer text at the front of `cs` is in any class. -/
structure Longest (cs text : List Char) (kind : TokenKind) : Prop where
  inClass : InClass text kind
  front : text <+: cs
  length_le : ∀ text' kind', InClass text' kind' → text' <+: cs → text'.length ≤ text.length

/-- The kinds and texts of the tokens of a text by longest match. Blanks are skipped, and where no
class matches, one character is an illegal token. -/
inductive Scans : List Char → List (TokenKind × String) → Prop where
  | ending {cs : List Char} (hb : cs.dropWhile isBlank = []) : Scans cs [(.eof, "")]
  | token {cs text rest : List Char} {kind : TokenKind} {ts : List (TokenKind × String)}
      (hb : cs.dropWhile isBlank = text ++ rest) (hl : Longest (text ++ rest) text kind)
      (h : Scans rest ts) : Scans cs ((kind, .ofList text) :: ts)
  | illegal {cs rest : List Char} {c : Char} {ts : List (TokenKind × String)}
      (hb : cs.dropWhile isBlank = c :: rest)
      (hn : ∀ text kind, InClass text kind → ¬ text <+: c :: rest)
      (h : Scans rest ts) : Scans cs ((.illegal, .ofList [c]) :: ts)

/-! ### Classes -/

theorem ne_nil_of_mem_symbols : ∀ s ∈ symbols, s.1 ≠ [] := by decide

theorem not_class_of_mem_symbols : ∀ s ∈ symbols, ∀ c ∈ s.1,
    isBlank c = false ∧ isWordChar c = false ∧ c.isDigit = false := by
  have hall : symbols.all (·.1.all fun c => !isBlank c && !isWordChar c && !c.isDigit) = true := by
    decide
  simpa [and_assoc] using hall

theorem kind_unique_of_mem_symbols : ∀ s ∈ symbols, ∀ s' ∈ symbols, s.1 = s'.1 → s.2 = s'.2 := by
  decide

theorem pairwise_symbols : symbols.Pairwise fun s s' => ¬ s.1 <+: s'.1 := by decide

variable {cs text text' : List Char} {c : Char} {kind kind' : TokenKind}

theorem InClass.ne_nil (h : InClass text kind) : text ≠ [] := by
  cases h with
  | word hne _ => exact hne
  | digits hne _ => exact hne
  | symbol h => exact ne_nil_of_mem_symbols _ h

theorem InClass.eq_cons (h : InClass text kind) (hp : text <+: c :: cs) :
    ∃ rest, text = c :: rest := by
  obtain ⟨d, rest, rfl⟩ := List.exists_cons_of_ne_nil h.ne_nil
  obtain ⟨rfl, -⟩ := List.cons_prefix_cons.1 hp
  exact ⟨rest, rfl⟩

theorem InClass.of_wordChar (h : InClass (c :: text) kind) (hc : isWordChar c = true) :
    (∀ d ∈ c :: text, isWordChar d = true) ∧ kind = .ofWord (.ofList (c :: text)) := by
  cases h with
  | word _ h => exact ⟨h, rfl⟩
  | digits _ h =>
    have hd := isWordChar_eq_false_of_isDigit (h c List.mem_cons_self)
    rw [hc] at hd
    cases hd
  | symbol h =>
    obtain ⟨-, hw, -⟩ := not_class_of_mem_symbols _ h c List.mem_cons_self
    rw [hc] at hw
    cases hw

theorem InClass.of_digit (h : InClass (c :: text) kind) (hc : c.isDigit = true) :
    (∀ d ∈ c :: text, d.isDigit = true) ∧ kind = .integer := by
  cases h with
  | word _ h =>
    have hw := isWordChar_eq_false_of_isDigit hc
    rw [h c List.mem_cons_self] at hw
    cases hw
  | digits _ h => exact ⟨h, rfl⟩
  | symbol h =>
    obtain ⟨-, -, hd⟩ := not_class_of_mem_symbols _ h c List.mem_cons_self
    rw [hc] at hd
    cases hd

theorem InClass.mem_symbols (h : InClass (c :: text) kind) (hw : isWordChar c = false)
    (hd : c.isDigit = false) : (c :: text, kind) ∈ symbols := by
  cases h with
  | word _ h =>
    rw [h c List.mem_cons_self] at hw
    cases hw
  | digits _ h =>
    rw [h c List.mem_cons_self] at hd
    cases hd
  | symbol h => exact h

theorem InClass.kind_unique (h : InClass text kind) (h' : InClass text kind') : kind = kind' := by
  obtain ⟨c, text, rfl⟩ := List.exists_cons_of_ne_nil h.ne_nil
  cases hw : isWordChar c with
  | true => rw [(h.of_wordChar hw).2, (h'.of_wordChar hw).2]
  | false =>
    cases hd : c.isDigit with
    | true => rw [(h.of_digit hd).2, (h'.of_digit hd).2]
    | false =>
      exact kind_unique_of_mem_symbols _ (h.mem_symbols hw hd) _ (h'.mem_symbols hw hd) rfl

theorem Longest.unique (h : Longest cs text kind) (h' : Longest cs text' kind') :
    text = text' ∧ kind = kind' := by
  have hlen : text.length = text'.length :=
    Nat.le_antisymm (h'.length_le _ _ h.inClass h.front) (h.length_le _ _ h'.inClass h'.front)
  have htext : text = text' :=
    (List.prefix_of_prefix_length_le h.front h'.front (Nat.le_of_eq hlen)).eq_of_length hlen
  subst htext
  exact ⟨rfl, h.inClass.kind_unique h'.inClass⟩

theorem Scans.unique {ts ts' : List (TokenKind × String)} (h : Scans cs ts) (h' : Scans cs ts') :
    ts = ts' := by
  induction h generalizing ts' with
  | ending hb =>
    cases h' with
    | ending _ => rfl
    | token hb' hl =>
      rw [hb] at hb'
      exact absurd (List.append_eq_nil_iff.1 hb'.symm).1 hl.inClass.ne_nil
    | illegal hb' => rw [hb] at hb'; cases hb'
  | token hb hl _ ih =>
    cases h' with
    | ending hb' =>
      rw [hb] at hb'
      exact absurd (List.append_eq_nil_iff.1 hb').1 hl.inClass.ne_nil
    | token hb' hl' hs =>
      rw [hb] at hb'
      rw [← hb'] at hl'
      obtain ⟨rfl, rfl⟩ := hl.unique hl'
      obtain rfl := List.append_cancel_left hb'
      rw [ih hs]
    | illegal hb' hn =>
      rw [hb] at hb'
      rw [hb'] at hl
      exact absurd hl.front (hn _ _ hl.inClass)
  | illegal hb hn _ ih =>
    cases h' with
    | ending hb' => rw [hb] at hb'; cases hb'
    | token hb' hl =>
      rw [hb] at hb'
      rw [← hb'] at hl
      exact absurd hl.front (hn _ _ hl.inClass)
    | illegal hb' _ hs =>
      rw [hb] at hb'
      obtain ⟨rfl, rfl⟩ := List.cons.inj hb'
      rw [ih hs]

/-! ### Patterns -/

namespace Pattern

def Accepts (text : List Char) : Pattern → Prop
  | blanks => text ≠ [] ∧ ∀ c ∈ text, isBlank c = true
  | word => text ≠ [] ∧ ∀ c ∈ text, isWordChar c = true
  | digits => text ≠ [] ∧ ∀ c ∈ text, c.isDigit = true
  | fixed text' _ => text = text'

theorem prefix_takeWhile {f : Char → Bool} (h : ∀ c ∈ text, f c = true) (hp : text <+: cs) :
    text <+: cs.takeWhile f := by
  obtain ⟨rest, rfl⟩ := hp
  rw [List.takeWhile_append_of_pos h]
  exact List.prefix_append _ _

/-- A pattern is greedy: it takes all that has its form. -/
theorem prefix_front {p : Pattern} (h : p.Accepts text) (hp : text <+: cs) :
    text <+: p.front cs := by
  cases p with
  | blanks => exact prefix_takeWhile h.2 hp
  | word => exact prefix_takeWhile h.2 hp
  | digits => exact prefix_takeWhile h.2 hp
  | fixed t k =>
    obtain rfl : text = t := h
    have hfront : (fixed text k).front cs = text := if_pos (List.isPrefixOf_iff_prefix.2 hp)
    exact ⟨[], by rw [List.append_nil, hfront]⟩

theorem accepts_front {p : Pattern} (h : p.front cs ≠ []) : p.Accepts (p.front cs) := by
  cases p with
  | blanks => exact ⟨h, fun _ => List.mem_takeWhile_imp⟩
  | word => exact ⟨h, fun _ => List.mem_takeWhile_imp⟩
  | digits => exact ⟨h, fun _ => List.mem_takeWhile_imp⟩
  | fixed t k =>
    rw [front] at h ⊢
    split
    · rfl
    · next hn => exact absurd (if_neg hn) h

theorem lexeme?_fixed (h : text ≠ []) (kind : TokenKind) (cs : List Char) :
    (fixed text kind).lexeme? cs =
      if text.isPrefixOf cs = true then some ⟨some kind, text⟩ else none := by
  obtain ⟨c, text, rfl⟩ := List.exists_cons_of_ne_nil h
  rw [lexeme?, front]
  cases (c :: text).isPrefixOf cs <;> rfl

theorem findSome?_fixed {ss : List (List Char × TokenKind)} (h : ∀ s ∈ ss, s.1 ≠ [])
    (cs : List Char) :
    (ss.map fun s => fixed s.1 s.2).findSome? (·.lexeme? cs) =
      (ss.find? (·.1.isPrefixOf cs)).map fun s => ⟨some s.2, s.1⟩ := by
  induction ss with
  | nil => rfl
  | cons s ss ih =>
    rw [List.map_cons, List.findSome?_cons, List.find?_cons,
      lexeme?_fixed (h s List.mem_cons_self), ih fun s' hs' => h s' (List.mem_cons_of_mem s hs')]
    cases s.1.isPrefixOf cs <;> rfl

end Pattern

theorem patterns_eq :
    patterns = .blanks :: .word :: .digits :: symbols.map fun s => .fixed s.1 s.2 :=
  rfl

/-! ### The lexeme at the front -/

namespace Lexeme

/-- What a pattern takes is the longest text, if all texts in a class have its form there. -/
theorem longest_of_front {p : Pattern} (h : InClass (p.front (c :: cs)) kind)
    (hp : ∀ text kind, InClass (c :: text) kind → p.Accepts (c :: text)) :
    Longest (c :: cs) (p.front (c :: cs)) kind := by
  refine ⟨h, p.front_prefix _, ?_⟩
  intro text kind' hc hfront
  obtain ⟨text, rfl⟩ := hc.eq_cons hfront
  exact (Pattern.prefix_front (hp text kind' hc) hfront).length_le

theorem longest_of_wordChar (hc : isWordChar c = true) (cs : List Char) :
    Longest (c :: cs) ((c :: cs).takeWhile isWordChar)
      (.ofWord (.ofList ((c :: cs).takeWhile isWordChar))) := by
  have hne : Pattern.word.front (c :: cs) ≠ [] := by simp [Pattern.front, hc]
  obtain ⟨-, hall⟩ := Pattern.accepts_front hne
  apply longest_of_front (p := .word) (.word hne hall)
  intro text kind h
  exact ⟨h.ne_nil, (h.of_wordChar hc).1⟩

theorem longest_of_digit (hc : c.isDigit = true) (cs : List Char) :
    Longest (c :: cs) ((c :: cs).takeWhile Char.isDigit) .integer := by
  have hne : Pattern.digits.front (c :: cs) ≠ [] := by simp [Pattern.front, hc]
  obtain ⟨-, hall⟩ := Pattern.accepts_front hne
  apply longest_of_front (p := .digits) (.digits hne hall)
  intro text kind h
  exact ⟨h.ne_nil, (h.of_digit hc).1⟩

/-- Outside the classes of many characters, the first symbol that matches decides. -/
theorem front_of_no_class (hb : isBlank c = false) (hw : isWordChar c = false)
    (hd : c.isDigit = false) (cs : List Char) :
    front c cs = ((symbols.find? (·.1.isPrefixOf (c :: cs))).map fun s =>
      ⟨some s.2, s.1⟩).getD ⟨some .illegal, [c]⟩ := by
  have hnone (p : Pattern) (hp : p.front (c :: cs) = []) : p.lexeme? (c :: cs) = none := by
    rw [Pattern.lexeme?, hp]
  rw [front, patterns_eq, List.findSome?_cons, hnone .blanks (by simp [Pattern.front, hb]),
    List.findSome?_cons, hnone .word (by simp [Pattern.front, hw]), List.findSome?_cons,
    hnone .digits (by simp [Pattern.front, hd]), ← Pattern.findSome?_fixed ne_nil_of_mem_symbols]

theorem longest_of_find? {s : List Char × TokenKind} (hw : isWordChar c = false)
    (hd : c.isDigit = false) (h : symbols.find? (·.1.isPrefixOf (c :: cs)) = some s) :
    Longest (c :: cs) s.1 s.2 := by
  obtain ⟨hs, before, behind, hsplit, hbefore⟩ := List.find?_eq_some_iff_append.1 h
  have hfront : s.1 <+: c :: cs := List.isPrefixOf_iff_prefix.1 hs
  refine ⟨.symbol (List.mem_of_find?_eq_some h), hfront, ?_⟩
  intro text kind hc hp
  obtain ⟨text, rfl⟩ := hc.eq_cons hp
  have hmem := hc.mem_symbols hw hd
  rw [hsplit] at hmem
  rcases List.mem_append.1 hmem with hmem | hmem
  · have hno := hbefore _ hmem
    rw [List.isPrefixOf_iff_prefix.2 hp] at hno
    cases hno
  · rcases List.mem_cons.1 hmem with rfl | hmem
    · exact Nat.le_refl _
    · have hpair := pairwise_symbols
      rw [hsplit] at hpair
      have hno := (List.pairwise_cons.1 (List.pairwise_append.1 hpair).2.1).1 _ hmem
      rcases List.prefix_or_prefix_of_prefix hfront hp with hle | hle
      · exact absurd hle hno
      · exact hle.length_le

/-- The lexeme at a character that is no blank is the longest text in any class, or the character
alone if there is none. -/
theorem front_longest (hb : isBlank c = false) (cs : List Char) :
    (∃ kind, (front c cs).kind? = some kind ∧ Longest (c :: cs) (front c cs).text kind) ∨
      front c cs = ⟨some .illegal, [c]⟩ ∧
        ∀ text kind, InClass text kind → ¬ text <+: c :: cs := by
  cases hw : isWordChar c with
  | true =>
    rw [front_of_wordChar hw]
    exact .inl ⟨_, rfl, longest_of_wordChar hw cs⟩
  | false =>
    cases hd : c.isDigit with
    | true =>
      rw [front_of_digit hd]
      exact .inl ⟨_, rfl, longest_of_digit hd cs⟩
    | false =>
      rw [front_of_no_class hb hw hd]
      cases hf : symbols.find? (·.1.isPrefixOf (c :: cs)) with
      | some s => exact .inl ⟨_, rfl, longest_of_find? hw hd hf⟩
      | none =>
        refine .inr ⟨rfl, ?_⟩
        intro text kind hc hp
        obtain ⟨text, rfl⟩ := hc.eq_cons hp
        have hno := List.find?_eq_none.1 hf _ (hc.mem_symbols hw hd)
        exact hno (List.isPrefixOf_iff_prefix.2 hp)

end Lexeme

/-! ### The tokens of a text -/

theorem Scans.of_dropWhile {ts : List (TokenKind × String)}
    (h : Scans (cs.dropWhile isBlank) ts) : Scans cs ts := by
  cases h with
  | ending hb => exact .ending (by rwa [List.dropWhile_idempotent] at hb)
  | token hb hl h => exact .token (by rwa [List.dropWhile_idempotent] at hb) hl h
  | illegal hb hn h => exact .illegal (by rwa [List.dropWhile_idempotent] at hb) hn h

def Lexeme.entry? (l : Lexeme) : Option (TokenKind × String) :=
  l.kind?.map fun kind => (kind, .ofList l.text)

theorem scans_lexemes (cs : List Char) :
    Scans cs ((lexemes cs).filterMap Lexeme.entry? ++ [(.eof, "")]) := by
  fun_induction lexemes cs with
  | case1 => exact .ending rfl
  | case2 c cs l ih =>
    have hcs : c :: cs = l.text ++ cs.drop (l.text.length - 1) :=
      (Lexeme.text_front_append_drop c cs).symm
    cases hb : isBlank c with
    | true =>
      have hl : l = ⟨none, (c :: cs).takeWhile isBlank⟩ := Lexeme.front_of_blank hb cs
      have hrest : cs.drop (l.text.length - 1) = (c :: cs).dropWhile isBlank :=
        Lexeme.drop_of_takeWhile (by rw [Lexeme.front_of_blank hb])
      have hentry : l.entry? = none := by rw [hl]; rfl
      rw [List.filterMap_cons, hentry]
      apply Scans.of_dropWhile
      rw [← hrest]
      exact ih
    | false =>
      have hdrop : (c :: cs).dropWhile isBlank = c :: cs :=
        List.dropWhile_cons_of_neg (by simp [hb])
      rcases Lexeme.front_longest hb cs with ⟨kind, hk, hlong⟩ | ⟨hl, hn⟩
      · have hentry : l.entry? = some (kind, .ofList l.text) := by rw [Lexeme.entry?, hk]; rfl
        rw [List.filterMap_cons, hentry]
        exact .token (hdrop.trans hcs) (hcs ▸ hlong) ih
      · have hl : l = ⟨some .illegal, [c]⟩ := hl
        have hentry : l.entry? = some (.illegal, .ofList [c]) := by rw [hl]; rfl
        rw [List.filterMap_cons, hentry]
        exact .illegal hdrop hn (by simpa [hl] using ih)

theorem entries_place (file : String) (offset : Nat) (ls : List Lexeme) :
    (place file offset ls).map (fun t => (t.kind, t.literal)) = ls.filterMap Lexeme.entry? := by
  induction ls generalizing offset with
  | nil => rfl
  | cons l ls ih =>
    rw [place, List.filterMap_cons, Lexeme.entry?]
    split
    · next hk => rw [hk]; exact ih _
    · next kind hk => rw [hk, List.map_cons, ih]; rfl

/-- The kinds and texts of the tokens of a source are those of longest match, and no others. -/
theorem scans_iff_tokenize (source : String) (file : Option String)
    (ts : List (TokenKind × String)) :
    Scans source.toList ts ↔ ts = (tokenize source file).map fun t => (t.kind, t.literal) := by
  have hs : Scans source.toList ((tokenize source file).map fun t => (t.kind, t.literal)) := by
    have h := scans_lexemes source.toList
    rw [← entries_place (file.getD defaultFile) 0] at h
    rw [tokenize, TokenStream.toList, List.map_append]
    exact h
  constructor
  · intro h
    exact h.unique hs
  · rintro rfl
    exact hs

end MonkeySyntax
