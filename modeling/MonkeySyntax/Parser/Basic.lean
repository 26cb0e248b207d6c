import MonkeySyntax.Event
import MonkeySyntax.Parser.Rules
import MonkeySyntax.Precedence
import MonkeySyntax.SyntaxError
import MonkeySyntax.Token.Stream

/-! # Parsers

A parser reads a token stream by its rules, and keeps the errors it finds and the events it
notes. A token is scanned, and its event noted, when it enters the window of two tokens. Skipping
stops at the end of the stream at the latest.
-/

namespace MonkeySyntax

structure Parser where
  stream : TokenStream
  rules : Rules
  /-- The number of expressions that are being read, one inside the other. -/
  depth : Nat
  errors : Array SyntaxError
  log : Array Event

namespace Parser

/-- Expressions nested deeper than this are refused. -/
def maxDepth : Nat := 256

/-- The parser at the start of a stream, with the events of the first two tokens. -/
def ofStream (s : TokenStream) : Parser where
  stream := s
  rules := .standard
  depth := 0
  errors := #[]
  log := ([s.current, s.peek].filterMap Event.ofToken?).toArray

def ofSource (source : String) (file : Option String) : Parser := ofStream (.ofSource source file)

def current (p : Parser) : Token := p.stream.current

def peek (p : Parser) : Token := p.stream.peek

def advance (p : Parser) : Parser :=
  { p with
    stream := p.stream.next
    log := p.log ++ (Event.ofToken? p.stream.next.peek).toArray }

def report (cause : SyntaxError.Cause) (position : Position) (p : Parser) : Parser :=
  { p with
    errors := p.errors.push ⟨cause, position⟩
    log := p.log.push (.syntaxError cause.message position.offset) }

/-- Move on if the next token has the given kind; report it if not. -/
def expect (kind : TokenKind) (p : Parser) : Bool × Parser :=
  if p.peek.kind = kind then (true, p.advance)
  else (false, p.report (.unexpectedNext kind p.peek.kind) p.peek.start)

def currentPrecedence (p : Parser) : Precedence := p.current.kind.precedence

def peekPrecedence (p : Parser) : Precedence := p.peek.kind.precedence

/-- Move on while the condition holds and tokens are left. -/
def skipWhile (more : Parser → Bool) (p : Parser) : Parser :=
  if more p ∧ p.stream.pending ≠ [] then skipWhile more p.advance else p
termination_by p.stream.pending.length
decreasing_by
  have := List.length_pos_iff.2 (by assumption : _ ∧ p.stream.pending ≠ []).2
  simp only [advance, TokenStream.length_pending_next]
  omega

section

variable (p : Parser) (cause : SyntaxError.Cause) (position : Position)

@[simp] theorem stream_advance : p.advance.stream = p.stream.next := rfl

@[simp] theorem rules_advance : p.advance.rules = p.rules := rfl

@[simp] theorem depth_advance : p.advance.depth = p.depth := rfl

@[simp] theorem errors_advance : p.advance.errors = p.errors := rfl

@[simp] theorem current_advance : p.advance.current = p.peek := rfl

@[simp] theorem stream_report : (p.report cause position).stream = p.stream := rfl

@[simp] theorem rules_report : (p.report cause position).rules = p.rules := rfl

@[simp] theorem depth_report : (p.report cause position).depth = p.depth := rfl

@[simp] theorem errors_report :
    (p.report cause position).errors = p.errors.push ⟨cause, position⟩ := rfl

end

def endsStatement (kind : TokenKind) : Bool := kind = .semicolon ∨ kind = .eof

/-- The token starts a statement whatever stands before it. -/
def startsStatement (kind : TokenKind) : Bool := kind = .letWord ∨ kind = .returnWord

/-- Skip the rest of a broken statement: up to its end, or to just before the next statement. -/
def synchronize (p : Parser) : Parser :=
  p.skipWhile fun q => !endsStatement q.current.kind && !startsStatement q.peek.kind

def skipToEnd (p : Parser) : Parser := p.skipWhile fun q => !endsStatement q.current.kind

def refuse (p : Parser) : Parser := (p.report (.tooDeep maxDepth) p.current.start).synchronize

/-- Begin an expression inside the ones being read, unless they are as deep as they may be. -/
def enter (p : Parser) : Bool × Parser :=
  if p.depth < maxDepth then (true, { p with depth := p.depth + 1 }) else (false, p.refuse)

def leave (p : Parser) : Parser := { p with depth := p.depth - 1 }

end Parser

end MonkeySyntax
