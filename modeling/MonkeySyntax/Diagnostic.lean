import MonkeySyntax.SyntaxError
import MonkeySyntax.Text.Blank
import MonkeySyntax.Text.Lines

/-! # Diagnostics

A diagnostic shows a syntax error together with the line of the source it is about, and a caret
under the character where it is. Columns of the caret count characters.
-/

namespace MonkeySyntax.Diagnostic

open Text

def padLeft (width : Nat) (fill : Char) (cs : List Char) : List Char :=
  List.replicate (width - cs.length) fill ++ cs

/-- The number of characters of the line before a byte column; inside a character the column is
taken as it is. -/
def characterColumn (p : Place) : Nat :=
  match splitAt? p.column p.line with
  | some (front, _) => front.length
  | none => p.column

def caretColumn (p : Place) : Nat := characterColumn p - (indentOf p.line).length

/-- A line of a source with its number, and a caret under the place. -/
def excerpt (p : Place) : String :=
  let number := Nat.repr p.number
  let bar := String.ofList (padLeft (number.length + 2) ' ' ['|'])
  let shown := String.ofList (trimEnd (dropIndent p.line))
  let caret := String.ofList (padLeft (caretColumn p + 1) '-' ['^'])
  bar ++ "\n" ++ number ++ " | " ++ shown ++ "\n" ++ bar ++ " " ++ caret ++ "\n"

/-- The diagnostic of a syntax error in a source. A position past the end of the source has no
line to show, and gives the message alone. -/
def render (e : SyntaxError) (source : String) : String :=
  "Error: " ++ e.name ++ " (" ++ e.tip ++ ")\n-> " ++ e.position.file ++ "\n" ++
    match lineAt source.toList e.position.offset.toNat with
    | none => "   " ++ e.message ++ "\n"
    | some p => excerpt p

end MonkeySyntax.Diagnostic
