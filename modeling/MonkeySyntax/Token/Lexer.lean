import MonkeySyntax.Token.Stream

/-! # Lexers

A lexer takes tokens from a source one at a time, from a place that can also be moved by hand. An
operation that would cut the source inside a character or past its end is refused, and gives `none`.
-/

namespace MonkeySyntax

/-- A source and the byte offset of the next token in it. -/
structure Lexer where
  source : List Char
  file : String
  offset : Nat
  /-- The end token was given out by `iterate?`. -/
  finished : Bool
  deriving DecidableEq, Repr

namespace Lexer

def ofSource (source : String) (file : Option String) : Lexer :=
  ⟨source.toList, file.getD defaultFile, 0, false⟩

def atEnd (l : Lexer) : Bool := Text.byteLength l.source ≤ l.offset

def ending (l : Lexer) : Token := Token.ending l.file l.source

def remainder? (l : Lexer) : Option (List Char) := (Text.splitAt? l.offset l.source).map (·.2)

/-- Move on by a number of bytes, without looking at the text. -/
def advance (n : Nat) (l : Lexer) : Lexer := { l with offset := l.offset + n }

/-- Make a token of the next bytes, and move behind it. -/
def emit? (kind : TokenKind) (n : Nat) (l : Lexer) : Option (Token × Lexer) := do
  let rest ← l.remainder?
  let (text, _) ← Text.splitAt? n rest
  some (.atOffset l.file l.offset kind text, l.advance n)

/-- The first lexeme with a kind, and the number of bytes before it. -/
def firstToken? : List Lexeme → Option (Nat × TokenKind × List Char)
  | [] => none
  | l :: ls =>
    match l.kind? with
    | some kind => some (0, kind, l.text)
    | none => (firstToken? ls).map fun (skipped, token) => (Text.byteLength l.text + skipped, token)

/-- Take the next token. At the end it is the end token, time and again. -/
def next? (l : Lexer) : Option (Token × Lexer) :=
  if l.atEnd then some (l.ending, l)
  else do
    let rest ← l.remainder?
    match firstToken? (lexemes rest) with
    | some (skipped, kind, text) =>
      let l := l.advance skipped
      some (.atOffset l.file l.offset kind text, l.advance (Text.byteLength text))
    | none => some (l.ending, { l with offset := Text.byteLength l.source })

/-- Take the next token, the end token only once: then there is none. -/
def iterate? (l : Lexer) : Option (Option Token × Lexer) :=
  if l.finished then some (none, l)
  else do
    let (t, l) ← l.next?
    some (some t, { l with finished := t.kind = .eof })

/-- Take all tokens up to and including the end token; none if it was taken before. -/
def drain? (l : Lexer) : Option (List Token × Lexer) :=
  if l.finished then some ([], l)
  else if l.atEnd then some ([l.ending], { l with finished := true })
  else do
    let rest ← l.remainder?
    some (place l.file l.offset (lexemes rest) ++ [l.ending],
      { l with offset := Text.byteLength l.source, finished := true })

end Lexer

end MonkeySyntax
