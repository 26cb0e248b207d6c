import MonkeySyntax.Parser.Program
import MonkeySyntax.Session.Sink
import MonkeySyntax.Tree.Printer

/-! # Sessions

A session answers its input line by line. `script` says what it does, step by step, and `perform`
carries the steps out on a sink; the first step that fails is the last.
-/

namespace MonkeySyntax.Session

def dropReturn (line : List UInt8) : List UInt8 :=
  if line.getLast? = some 0x0d then line.dropLast else line

/-- The lines of an input, without the newline and one carriage return before it. What stands
behind the last newline is a line if it is not empty. -/
def lines (input : List UInt8) : List (List UInt8) :=
  let parts := input.splitOn 0x0a
  parts.dropLast.map dropReturn ++ parts.getLast?.toList.filter (· ≠ [])

/-- The text of a line, if it is UTF-8. -/
def decode? (line : List UInt8) : Option String := String.fromUTF8? line.toByteArray

inductive Failure where
  | notText
  | sinkFull
  deriving DecidableEq, Repr

def Failure.message : Failure → String
  | notText => "stream did not contain valid UTF-8"
  | sinkFull => "failed to write whole buffer"

inductive Step where
  | write (text : String)
  | note (event : Event)
  | fail (failure : Failure)
  deriving DecidableEq, Repr

def prompt : String := ">> "

def lineFile : String := "repl"

def echo (t : Token) : List Step :=
  (Event.ofToken? t).toList.map .note ++ [.write (t.display ++ "\n")]

def parseLine (line : String) : List Step :=
  let (program, p) := (Parser.ofSource line (some lineFile)).program
  p.log.toList.map .note ++
    if p.errors.isEmpty then [.write (program.text ++ "\n")]
    else
      .write "parser errors:\n" ::
        p.errors.toList.map fun e => .write ("\t" ++ e.message ++ "\n")

def answer (mode : Mode) (line : String) : List Step :=
  .note (.sessionLine mode line.utf8ByteSize) ::
    match mode with
    | .tokens => (TokenStream.ofSource line (some lineFile)).pending.flatMap echo
    | .parse => parseLine line

/-- Answer a line of bytes, or fail if it is no text. -/
def reply (mode : Mode) (line : List UInt8) : List Step :=
  match decode? line with
  | some text => answer mode text
  | none => [.fail .notText]

/-- The steps of a session on the given lines: a prompt and a reply for each, and a last prompt. -/
def script (mode : Mode) (lines : List (List UInt8)) : List Step :=
  lines.flatMap (fun line => .write prompt :: reply mode line) ++ [.write prompt]

structure Transcript where
  output : ByteArray
  log : Array Event
  failure : Option Failure

/-- Carry out steps up to the first that fails. -/
def perform (sink : Sink) (log : Array Event) : List Step → Transcript
  | [] => ⟨sink.written, log, none⟩
  | .write text :: steps =>
    match sink.write text with
    | (true, sink) => perform sink log steps
    | (false, sink) => ⟨sink.written, log, some .sinkFull⟩
  | .note event :: steps => perform sink (log.push event) steps
  | .fail failure :: _ => ⟨sink.written, log, some failure⟩

def run (mode : Mode) (capacity : Option Nat) (input : List UInt8) : Transcript :=
  perform ⟨.empty, capacity⟩ #[] (script mode (lines input))

end MonkeySyntax.Session
