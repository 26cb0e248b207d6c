import MonkeySyntax.Text.GraphemeExtend
import MonkeySyntax.Text.Printable

/-! # Quoted text

A quoted text stands between double quotes. The null character, tab, carriage return, newline,
quote and backslash have short escapes; marks that join the character before them and unprintable
characters are written by their code point; every other character stands for itself.
-/

namespace MonkeySyntax.Text

/-- A code point between braces, in the fewest lower-case hexadecimal digits. -/
def escapeCodePoint (c : Char) : List Char :=
  ['\\', 'u', '{'] ++ Nat.toDigits 16 c.toNat ++ ['}']

/-- The halfwidth voiced and semi-voiced sound marks. They are grapheme extenders, but letters too,
and can be read on their own. -/
def isSoundMark (c : Char) : Bool := c = '\uff9e' || c = '\uff9f'

def isJoiningMark (c : Char) : Bool := isGraphemeExtend c && !isSoundMark c

def escape (c : Char) : List Char :=
  if c = '\x00' then ['\\', '0']
  else if c = '\t' then ['\\', 't']
  else if c = '\r' then ['\\', 'r']
  else if c = '\n' then ['\\', 'n']
  else if c = '"' then ['\\', '"']
  else if c = '\\' then ['\\', '\\']
  else if isJoiningMark c || !isPrintable c then escapeCodePoint c
  else [c]

def quote (s : String) : String := String.ofList ('"' :: s.toList.flatMap escape ++ ['"'])

end MonkeySyntax.Text
