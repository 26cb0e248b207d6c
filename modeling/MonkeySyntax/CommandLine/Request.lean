import MonkeySyntax.Session.Mode

/-! # Arguments

The arguments of the command line are options and at most one file name. They are read from left
to right, and the first that settles the matter does so: a request for help or for the version, or
an argument that may not stand where it stands.
-/

namespace MonkeySyntax.CommandLine

structure Options where
  file : Option String
  mode : Mode
  verbosity : Nat
  deriving DecidableEq, Repr

inductive Request where
  | help
  | version
  | misused
  | run (options : Options)
  deriving DecidableEq, Repr

inductive Flag where
  | help
  | version
  | parse
  | verbose
  | unknown
  deriving DecidableEq, Repr

def Flag.ofName (name : String) : Flag :=
  if name = "--help" then .help
  else if name = "--version" then .version
  else if name = "--parse" then .parse
  else if name = "--verbose" then .verbose
  else .unknown

def Flag.ofLetter : Char → Flag
  | 'h' => .help
  | 'V' => .version
  | 'v' => .verbose
  | _ => .unknown

/-- The options in an argument; `none` if it is a file name. Letters behind one dash are options
of their own, and a lone dash is a name. -/
def flags? (argument : String) : Option (List Flag) :=
  match argument.toList with
  | '-' :: '-' :: _ => some [.ofName argument]
  | '-' :: c :: letters => some ((c :: letters).map .ofLetter)
  | _ => none

/-- Take up options from left to right, then go on. Parsing may be asked for once. -/
def takeFlags (next : Options → Request) : List Flag → Options → Request
  | [], o => next o
  | .help :: _, _ => .help
  | .version :: _, _ => .version
  | .unknown :: _, _ => .misused
  | .parse :: flags, o =>
    if o.mode = .parse then .misused else takeFlags next flags { o with mode := .parse }
  | .verbose :: flags, o => takeFlags next flags { o with verbosity := o.verbosity + 1 }

/-- Take up a file name, then go on. There is at most one, and it is not empty. -/
def takeFile (next : Options → Request) (name : String) (o : Options) : Request :=
  if name = "" ∨ o.file.isSome then .misused else next { o with file := some name }

def readFiles : List String → Options → Request
  | [], o => .run o
  | name :: rest, o => takeFile (readFiles rest) name o

/-- Read arguments; behind a double dash there are only file names. -/
def readArguments : List String → Options → Request
  | [], o => .run o
  | argument :: rest, o =>
    if argument = "--" then readFiles rest o
    else
      match flags? argument with
      | some flags => takeFlags (readArguments rest) flags o
      | none => takeFile (readArguments rest) argument o

def request (arguments : List String) : Request := readArguments arguments ⟨none, .tokens, 0⟩

end MonkeySyntax.CommandLine
