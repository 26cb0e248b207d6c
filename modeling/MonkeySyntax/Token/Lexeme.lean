import MonkeySyntax.Text.Bytes
import MonkeySyntax.Token.Kind

/-! # Lexemes

`lexemes` cuts a text into lexemes. At each place the first pattern of `patterns` that matches
decides; a place where none matches gives one illegal character. Blanks are lexemes without a
kind, so the lexemes of a text hold all of it.
-/

namespace MonkeySyntax

def isBlank (c : Char) : Bool := c == ' ' || c == '\t' || c == '\n' || c == '\r'

def isWordChar (c : Char) : Bool := c.isAlpha || c == '_'

/-- A piece of text and the kind of token it makes, if any. -/
structure Lexeme where
  kind? : Option TokenKind
  text : List Char
  deriving DecidableEq, Repr

inductive Pattern where
  | blanks
  | word
  | digits
  | fixed (text : List Char) (kind : TokenKind)
  deriving DecidableEq, Repr

namespace Pattern

/-- The longest text at the front that has the form of the pattern; empty if there is none. -/
def front (cs : List Char) : Pattern → List Char
  | blanks => cs.takeWhile isBlank
  | word => cs.takeWhile isWordChar
  | digits => cs.takeWhile Char.isDigit
  | fixed text _ => if text.isPrefixOf cs then text else []

theorem front_prefix (p : Pattern) (cs : List Char) : p.front cs <+: cs := by
  cases p with
  | blanks => exact List.takeWhile_prefix _
  | word => exact List.takeWhile_prefix _
  | digits => exact List.takeWhile_prefix _
  | fixed text kind =>
    rw [front]
    split
    · next h => exact List.isPrefixOf_iff_prefix.1 h
    · exact List.nil_prefix

def kindOf? (text : List Char) : Pattern → Option TokenKind
  | blanks => none
  | word => some (TokenKind.ofWord (String.ofList text))
  | digits => some .integer
  | fixed _ kind => some kind

def lexeme? (cs : List Char) (p : Pattern) : Option Lexeme :=
  match p.front cs with
  | [] => none
  | c :: text => some ⟨p.kindOf? (c :: text), c :: text⟩

end Pattern

open Pattern in
/-- The patterns in the order in which they are tried: two-character operators come before their
first characters. -/
def patterns : List Pattern :=
  [blanks, word, digits,
   fixed ['=', '='] .equal, fixed ['!', '='] .notEqual,
   fixed ['='] .assign, fixed ['!'] .bang,
   fixed ['+'] .plus, fixed ['-'] .minus, fixed ['*'] .asterisk, fixed ['/'] .slash,
   fixed ['<'] .less, fixed ['>'] .greater,
   fixed [','] .comma, fixed [';'] .semicolon,
   fixed ['('] .openParen, fixed [')'] .closeParen,
   fixed ['{'] .openBrace, fixed ['}'] .closeBrace]

namespace Lexeme

/-- The lexeme at the front of a text that starts with the character `c`. -/
def front (c : Char) (cs : List Char) : Lexeme :=
  (patterns.findSome? (·.lexeme? (c :: cs))).getD ⟨some .illegal, [c]⟩

theorem front_mem (c : Char) (cs : List Char) :
    (∃ p ∈ patterns, p.lexeme? (c :: cs) = some (front c cs)) ∨
      front c cs = ⟨some .illegal, [c]⟩ := by
  rw [front]
  cases h : patterns.findSome? (·.lexeme? (c :: cs)) with
  | none => exact .inr rfl
  | some l => exact .inl (List.exists_of_findSome?_eq_some h)

theorem text_front_prefix (c : Char) (cs : List Char) : (front c cs).text <+: c :: cs := by
  rcases front_mem c cs with ⟨p, -, hp⟩ | h
  · rw [Pattern.lexeme?] at hp
    split at hp
    · cases hp
    · next d text hf =>
      have hl : (front c cs).text = p.front (c :: cs) := by rw [← Option.some.inj hp, hf]
      rw [hl]
      exact p.front_prefix _
  · rw [h]
    exact ⟨cs, rfl⟩

theorem text_front_ne_nil (c : Char) (cs : List Char) : (front c cs).text ≠ [] := by
  rcases front_mem c cs with ⟨p, -, hp⟩ | h
  · rw [Pattern.lexeme?] at hp
    split at hp
    · cases hp
    · rw [← Option.some.inj hp]
      exact List.cons_ne_nil _ _
  · rw [h]
    exact List.cons_ne_nil _ _

theorem text_front_append_drop (c : Char) (cs : List Char) :
    (front c cs).text ++ cs.drop ((front c cs).text.length - 1) = c :: cs := by
  obtain ⟨rest, hr⟩ := text_front_prefix c cs
  obtain ⟨d, text, ht⟩ := List.exists_cons_of_ne_nil (text_front_ne_nil c cs)
  rw [ht, List.cons_append] at hr
  obtain ⟨rfl, rfl⟩ := List.cons.inj hr
  simp only [ht, List.length_cons, Nat.add_sub_cancel, List.drop_left, List.cons_append]

theorem ofWord_ne_eof (word : String) : TokenKind.ofWord word ≠ .eof := by
  rw [TokenKind.ofWord]
  cases h : TokenKind.reserved.lookup word with
  | none => simp
  | some k =>
    obtain ⟨l, r, hr, -⟩ := List.lookup_eq_some_iff.1 h
    have hm : (word, k) ∈ TokenKind.reserved := by rw [hr]; simp
    have hall : ∀ e ∈ TokenKind.reserved, e.2 ≠ .eof := by decide
    exact hall _ hm

theorem kind?_front_ne_eof (c : Char) (cs : List Char) : (front c cs).kind? ≠ some .eof := by
  rcases front_mem c cs with ⟨p, hm, hp⟩ | h
  · rw [Pattern.lexeme?] at hp
    split at hp
    · cases hp
    · rw [← Option.some.inj hp]
      cases p with
      | blanks => simp [Pattern.kindOf?]
      | word => simpa [Pattern.kindOf?] using ofWord_ne_eof _
      | digits => simp [Pattern.kindOf?]
      | fixed t k =>
        have hall : ∀ q ∈ patterns, q.kindOf? [] ≠ some .eof := by decide
        exact hall _ hm
  · rw [h]
    simp

end Lexeme

def lexemes : List Char → List Lexeme
  | [] => []
  | c :: cs =>
    let l := Lexeme.front c cs
    l :: lexemes (cs.drop (l.text.length - 1))
termination_by cs => cs.length
decreasing_by simp only [List.length_drop, List.length_cons]; omega

/-- The lexemes of a text hold all of it, in order. -/
theorem flatMap_text_lexemes (cs : List Char) : (lexemes cs).flatMap Lexeme.text = cs := by
  fun_induction lexemes cs with
  | case1 => rfl
  | case2 c cs l ih => rw [List.flatMap_cons, ih, Lexeme.text_front_append_drop]

theorem kind?_ne_eof_of_mem_lexemes {cs : List Char} {l : Lexeme} (h : l ∈ lexemes cs) :
    l.kind? ≠ some .eof := by
  fun_induction lexemes cs with
  | case1 => cases h
  | case2 c cs l' ih =>
    rcases List.mem_cons.1 h with rfl | h
    · exact Lexeme.kind?_front_ne_eof c cs
    · exact ih h

end MonkeySyntax
