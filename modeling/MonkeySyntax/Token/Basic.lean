import MonkeySyntax.Text.Quoted
import MonkeySyntax.Token.Kind

/-! # Tokens

A token has a kind, the text it was read from and the span of that text. Positions count bytes
from the start of a named source, in 32 bits.
-/

namespace MonkeySyntax

structure Position where
  offset : UInt32
  file : String
  deriving DecidableEq, Repr

structure Span where
  start : Position
  stop : Position
  deriving DecidableEq, Repr

structure Token where
  kind : TokenKind
  literal : String
  span : Span
  deriving DecidableEq, Repr

namespace Token

def start (t : Token) : Position := t.span.start

def display (t : Token) : String :=
  "Token \x7b kind: " ++ t.kind.name ++ ", literal: " ++ Text.quote t.literal ++ " \x7d"

end Token

/-- The name of a source that has none of its own. -/
def defaultFile : String := "shell"

end MonkeySyntax
