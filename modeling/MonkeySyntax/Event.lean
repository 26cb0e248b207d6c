import MonkeySyntax.Session.Mode
import MonkeySyntax.Text.Terminal
import MonkeySyntax.Token.Basic

/-! # Events

What the library notes while it works, in the order in which it happens. An event has a level, a
target that says which part it comes from, and fields, of which the message is the first.
-/

namespace MonkeySyntax

inductive Level where
  | error
  | debug
  | trace
  deriving DecidableEq, Repr

inductive Event where
  /-- A character that starts no token was scanned. -/
  | illegalCharacter (literal : String) (offset : UInt32)
  /-- A syntax error was found. -/
  | syntaxError (message : String) (offset : UInt32)
  /-- A source was parsed to its end. -/
  | parsedProgram (statements errors : Nat)
  /-- A session took up a line of the given number of bytes. -/
  | sessionLine (mode : Mode) (length : Nat)
  /-- A session ended before its input did. -/
  | sessionFailed (reason : String)
  /-- A file could not be read. -/
  | unreadable (file reason : String)
  /-- A file was parsed. -/
  | parsedFile (file : String)
  deriving DecidableEq, Repr

def Level.name : Level → String
  | .error => "ERROR"
  | .debug => "DEBUG"
  | .trace => "TRACE"

/-- The level is shown at a verbosity: errors always, traces from two on. -/
def Level.shownAt (verbosity : Nat) : Level → Bool
  | .error => true
  | .debug => 1 ≤ verbosity
  | .trace => 2 ≤ verbosity

namespace Event

def ofToken? (t : Token) : Option Event :=
  if t.kind = .illegal then some (.illegalCharacter t.literal t.start.offset) else none

def level : Event → Level
  | illegalCharacter _ _ => .trace
  | syntaxError _ _ | parsedProgram _ _ | sessionLine _ _ | parsedFile _ => .debug
  | sessionFailed _ | unreadable _ _ => .error

def target : Event → String
  | illegalCharacter _ _ => "monkey::lexer::lexer"
  | syntaxError _ _ | parsedProgram _ _ => "monkey::parser::parser"
  | sessionLine _ _ => "monkey::repl"
  | sessionFailed _ | unreadable _ _ | parsedFile _ => "monkey"

def message : Event → String
  | illegalCharacter _ _ => "illegal character"
  | syntaxError message _ => "syntax error: " ++ message
  | parsedProgram _ _ => "parsed program"
  | sessionLine _ _ => "repl line"
  | sessionFailed reason => "repl failed: " ++ reason
  | unreadable file reason => "failed to read " ++ file ++ ": " ++ reason
  | parsedFile file => "parsed " ++ file

def fields : Event → List (String × String)
  | illegalCharacter literal offset => [("literal", literal), ("offset", Nat.repr offset.toNat)]
  | syntaxError _ offset => [("offset", Nat.repr offset.toNat)]
  | parsedProgram statements errors =>
    [("statements", Nat.repr statements), ("errors", Nat.repr errors)]
  | sessionLine mode length => [("mode", mode.name), ("len", Nat.repr length)]
  | sessionFailed _ | unreadable _ _ | parsedFile _ => []

/-- An event as a line of a log. Terminal controls in its message are shown by their code points;
its fields are written as they are. -/
def line (e : Event) : String :=
  e.level.name ++ " " ++ e.target ++ ": " ++ Text.showControls e.message ++
    String.join (e.fields.map fun (key, value) => " " ++ key ++ "=" ++ value)

end Event

end MonkeySyntax
