import MonkeySyntax.Token.Basic

/-! # Syntax errors

A syntax error is a cause at a position. Each cause has a name, a message that says what is wrong
and a tip that speaks to the writer of the source.
-/

namespace MonkeySyntax

inductive SyntaxError.Cause where
  /-- The next token has another kind than the one that must follow. -/
  | unexpectedNext (expected found : TokenKind)
  /-- No expression starts with this token. -/
  | noOperand (kind : TokenKind) (literal : String)
  /-- The text is no integer of 64 bits. -/
  | badInteger (literal : String)
  /-- Expressions are nested deeper than the limit. -/
  | tooDeep (limit : Nat)
  deriving DecidableEq, Repr

structure SyntaxError where
  cause : SyntaxError.Cause
  position : Position
  deriving DecidableEq, Repr

namespace SyntaxError.Cause

def name : Cause → String
  | unexpectedNext _ _ => "PeekMismatch"
  | noOperand _ _ => "NoPrefixParseFn"
  | badInteger _ => "IntegerParse"
  | tooDeep _ => "NestingTooDeep"

def message : Cause → String
  | unexpectedNext expected found =>
    "expected next token to be " ++ expected.name ++ ", got " ++ found.name ++ " instead"
  | noOperand kind _ => "no prefix parse function for token kind " ++ kind.name
  | badInteger literal => "could not parse " ++ Text.quote literal ++ " as integer"
  | tooDeep limit => "expression nested more than " ++ Nat.repr limit ++ " levels deep"

def tip : Cause → String
  | unexpectedNext expected found =>
    "Expected `" ++ expected.name ++ "` but found `" ++ found.name ++ "`"
  | noOperand .illegal literal => "Unrecognised character `" ++ literal ++ "`"
  | noOperand _ literal => "`" ++ literal ++ "` cannot start an expression"
  | badInteger literal =>
    "Invalid integer: `" ++ literal ++ "`, is it above the 64-bit integer limit?"
  | tooDeep _ => "Break the expression into smaller ones"

end SyntaxError.Cause

namespace SyntaxError

def name (e : SyntaxError) : String := e.cause.name

def message (e : SyntaxError) : String := e.cause.message

def tip (e : SyntaxError) : String := e.cause.tip

end SyntaxError

end MonkeySyntax
