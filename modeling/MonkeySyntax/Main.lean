import MonkeySyntax.CommandLine.Report

/-! # The command

The command reads its arguments, files and input, and prints what the library answers. A session
answers each line as soon as it is read.
-/

namespace MonkeySyntax.Main

open CommandLine

def logEvent (verbosity : Nat) (e : Event) : IO Unit := do
  if e.level.shownAt verbosity then
    IO.eprintln e.line

def print (r : Report) : IO UInt32 := do
  let out ← IO.getStdout
  out.write r.output
  out.flush
  for e in r.log do
    IO.eprintln e.line
  IO.eprint r.diagnostics
  return r.code

def readFile (file : String) : IO (Except FileFailure ByteArray) := do
  try
    return .ok (← IO.FS.readBinFile file)
  catch
    | .noFileOrDirectory .. => return .error .missing
    | .inappropriateType .. => return .error .isDirectory
    | e => return .error (.other (toString e))

/-- Read the bytes of a line up to its newline, and say whether it has one. -/
partial def readLine (input : IO.FS.Stream) (line : ByteArray) : IO (Bool × ByteArray) := do
  let byte ← input.read 1
  if byte.isEmpty then return (false, line)
  else if byte.toList = [0x0a] then return (true, line)
  else readLine input (line ++ byte)

def carryOut (verbosity : Nat) (steps : List Session.Step) : IO (Option Session.Failure) := do
  let out ← IO.getStdout
  for step in steps do
    match step with
    | .write text => out.putStr text
    | .note event => logEvent verbosity event
    | .fail failure => return some failure
  out.flush
  return none

/-- Hold a session up to the end of the input. -/
partial def converse (mode : Mode) (verbosity : Nat) : IO UInt32 := do
  discard <| carryOut verbosity [.write Session.prompt]
  let (terminated, line) ← readLine (← IO.getStdin) .empty
  if !terminated && line.isEmpty then return 0
  let line := if terminated then Session.dropReturn line.toList else line.toList
  match ← carryOut verbosity (Session.reply mode line) with
  | some failure =>
    logEvent verbosity (.sessionFailed failure.message)
    return 1
  | none => converse mode verbosity

end MonkeySyntax.Main

open MonkeySyntax in
def main (arguments : List String) : IO UInt32 := do
  let user ← IO.getEnv "USER"
  let username ← IO.getEnv "USERNAME"
  match CommandLine.request arguments with
  | .run ⟨none, mode, verbosity⟩ =>
    IO.print (CommandLine.greeting user username)
    Main.converse mode verbosity
  | .run ⟨some file, mode, verbosity⟩ =>
    let content ← Main.readFile file
    let request := CommandLine.Request.run ⟨some file, mode, verbosity⟩
    Main.print (request.report ⟨user, username, fun _ => content, []⟩)
  | request => Main.print (request.report ⟨user, username, fun _ => .error .missing, []⟩)
