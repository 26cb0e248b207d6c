/-! # White space

The characters with the Unicode property `White_Space`, and the removal of blanks at the ends of
a line.
-/

namespace MonkeySyntax.Text

/-- The character has the Unicode property `White_Space`. -/
def isWhiteSpace (c : Char) : Bool :=
  let n := c.toNat
  (0x09 ≤ n && n ≤ 0x0d) || n == 0x20 || n == 0x85 || n == 0xa0 || n == 0x1680 ||
    (0x2000 ≤ n && n ≤ 0x200a) || n == 0x2028 || n == 0x2029 || n == 0x202f || n == 0x205f ||
    n == 0x3000

def isIndent (c : Char) : Bool := c == ' ' || c == '\t'

def trimEnd (cs : List Char) : List Char := (cs.reverse.dropWhile isWhiteSpace).reverse

def indentOf (cs : List Char) : List Char := cs.takeWhile isIndent

def dropIndent (cs : List Char) : List Char := cs.dropWhile isIndent

theorem indentOf_append_dropIndent (cs : List Char) : indentOf cs ++ dropIndent cs = cs :=
  List.takeWhile_append_dropWhile

end MonkeySyntax.Text
