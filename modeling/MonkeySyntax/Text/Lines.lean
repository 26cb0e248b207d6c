import MonkeySyntax.Text.Bytes

/-! # Lines of a text

A text is cut after every newline, so a text that ends in a newline has an empty last line.
`lineAt` finds the line that holds a byte offset; the end of the text belongs to the last line.
-/

namespace MonkeySyntax.Text

/-- A line of a text with its newline, its number counted from one, and a byte offset into it. -/
structure Place where
  number : Nat
  line : List Char
  column : Nat
  deriving DecidableEq, Repr

/-- Put a character in front of the first line; a newline closes a line of its own. -/
def attach (c : Char) : List (List Char) → List (List Char)
  | [] => [[c]]
  | l :: ls => if c = '\n' then [c] :: l :: ls else (c :: l) :: ls

def lines (cs : List Char) : List (List Char) := cs.foldr attach [[]]

/-- Walk down the lines, numbered from `number`, to the one that holds the offset. -/
def placeIn (number offset : Nat) : List (List Char) → Option Place
  | [] => none
  | [l] => if offset ≤ byteLength l then some ⟨number, l, offset⟩ else none
  | l :: ls =>
    if offset < byteLength l then some ⟨number, l, offset⟩
    else placeIn (number + 1) (offset - byteLength l) ls

def lineAt (cs : List Char) (offset : Nat) : Option Place := placeIn 1 offset (lines cs)

theorem lines_ne_nil (cs : List Char) : lines cs ≠ [] := by
  cases cs with
  | nil => simp [lines]
  | cons c cs =>
    rw [lines, List.foldr_cons, attach.eq_def]
    split
    · simp
    · split <;> simp

theorem flatten_attach (c : Char) (ls : List (List Char)) :
    (attach c ls).flatten = c :: ls.flatten := by
  rw [attach.eq_def]
  split
  · rfl
  · split <;> simp

/-- Cutting into lines loses nothing. -/
theorem flatten_lines (cs : List Char) : (lines cs).flatten = cs := by
  induction cs with
  | nil => rfl
  | cons c cs ih => rw [lines, List.foldr_cons, flatten_attach]; exact congrArg _ ih

end MonkeySyntax.Text
