import MonkeySyntax.CommandLine.Request
import MonkeySyntax.Diagnostic
import MonkeySyntax.Session.Script

/-! # What a command answers

A command parses a file or holds a session. Its report has an exit code, what it writes to its two
outputs, and the events that its verbosity shows.
-/

namespace MonkeySyntax.CommandLine

inductive FileFailure where
  | missing
  | isDirectory
  | notText
  | other (reason : String)
  deriving DecidableEq, Repr

def FileFailure.reason : FileFailure → String
  | missing => "No such file or directory (os error 2)"
  | isDirectory => "Is a directory (os error 21)"
  | notText => "stream did not contain valid UTF-8"
  | other reason => reason

/-- What a command finds around it. -/
structure Surroundings where
  user : Option String
  username : Option String
  file : String → Except FileFailure ByteArray
  input : List UInt8

structure Report where
  code : UInt32
  output : ByteArray
  diagnostics : String
  log : List Event

def versionText : String := "monkey 0.1.0\n"

def usageText : String := "Usage: monkey [OPTIONS] [FILE]\n"

def helpText : String :=
  String.join
    ["Tokenizer and parser front-end for the Monkey language\n\n",
     usageText,
     "\nArguments:\n",
     "  [FILE]  Source file to parse. Starts an interactive session when omitted\n",
     "\nOptions:\n",
     "      --parse       Parse REPL lines instead of echoing their tokens\n",
     "  -v, --verbose...  Increase log verbosity (-v, -vv)\n",
     "  -h, --help        Print help\n",
     "  -V, --version     Print version\n"]

def greeting (user username : Option String) : String :=
  "Hello, " ++ ((user.or username).getD "there") ++
    "! This is the Monkey programming language!\nFeel free to type in commands\n"

def fileText (content : Except FileFailure ByteArray) : Except FileFailure String := do
  match String.fromUTF8? (← content) with
  | some text => .ok text
  | none => .error .notText

/-- Parse a file: print its program, and a diagnostic for each syntax error. -/
def parseFile (file : String) (content : Except FileFailure ByteArray) : Report :=
  match fileText content with
  | .error failure =>
    { code := 1
      output := .empty
      diagnostics := "Failed to read " ++ file ++ ": " ++ failure.reason ++ "\n"
      log := [.unreadable file failure.reason] }
  | .ok source =>
    let (program, p) := (Parser.ofSource source (some file)).program
    let errors := p.errors.toList
    { code := if errors = [] then 0 else 1
      output := (if program.statements = [] then "" else program.text ++ "\n").toByteArray
      diagnostics :=
        if errors = [] then ""
        else
          String.join (errors.map (Diagnostic.render · source)) ++
            Nat.repr errors.length ++ " syntax error(s)\n"
      log := p.log.toList ++ [.parsedFile file] }

def holdSession (mode : Mode) (s : Surroundings) : Report :=
  let t := Session.run mode none s.input
  { code := if t.failure.isSome then 1 else 0
    output := (greeting s.user s.username).toByteArray ++ t.output
    diagnostics := ""
    log := t.log.toList ++ t.failure.toList.map fun f => .sessionFailed f.message }

def Report.shownAt (verbosity : Nat) (r : Report) : Report :=
  { r with log := r.log.filter (·.level.shownAt verbosity) }

def Request.report (s : Surroundings) : Request → Report
  | .help => ⟨0, helpText.toByteArray, "", []⟩
  | .version => ⟨0, versionText.toByteArray, "", []⟩
  | .misused => ⟨2, .empty, usageText, []⟩
  | .run o =>
    match o.file with
    | some file => (parseFile file (s.file file)).shownAt o.verbosity
    | none => (holdSession o.mode s).shownAt o.verbosity

end MonkeySyntax.CommandLine
