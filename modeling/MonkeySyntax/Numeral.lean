/-! # Integer literals

The front of a literal fixes its radix: `0x` sixteen, `0o` or a leading zero eight, `0b` two, and
ten otherwise. `Numeral.decode?` gives the value of a literal, unless it has no digits, a digit
that its radix lacks, or a value of 2⁶³ or more.
-/

namespace MonkeySyntax

structure Numeral where
  radix : Nat
  digits : List Char
  deriving DecidableEq, Repr

namespace Numeral

def ofText : List Char → Numeral
  | '0' :: 'x' :: ds => ⟨16, ds⟩
  | '0' :: 'X' :: ds => ⟨16, ds⟩
  | '0' :: 'o' :: ds => ⟨8, ds⟩
  | '0' :: 'O' :: ds => ⟨8, ds⟩
  | '0' :: 'b' :: ds => ⟨2, ds⟩
  | '0' :: 'B' :: ds => ⟨2, ds⟩
  | '0' :: d :: ds => ⟨8, d :: ds⟩
  | ds => ⟨10, ds⟩

/-- The value of an ASCII letter or digit as a digit of any radix up to thirty-six. -/
def digit? (c : Char) : Option Nat :=
  if '0' ≤ c ∧ c ≤ '9' then some (c.toNat - '0'.toNat)
  else if 'a' ≤ c ∧ c ≤ 'z' then some (c.toNat - 'a'.toNat + 10)
  else if 'A' ≤ c ∧ c ≤ 'Z' then some (c.toNat - 'A'.toNat + 10)
  else none

def digitIn? (radix : Nat) (c : Char) : Option Nat := (digit? c).filter (· < radix)

/-- Read digits behind others whose value is already known. -/
def valueFrom? (radix value : Nat) : List Char → Option Nat
  | [] => some value
  | c :: cs => (digitIn? radix c).bind fun d => valueFrom? radix (value * radix + d) cs

def value? (n : Numeral) : Option Nat :=
  if n.digits = [] then none else valueFrom? n.radix 0 n.digits

/-- The greatest value that 64 bits with a sign can hold. -/
def greatest : Nat := 9223372036854775807

/-- The value of an integer literal, if it is not too great. -/
def decode? (literal : String) : Option Int64 :=
  ((ofText literal.toList).value?.filter (· ≤ greatest)).map Int64.ofNat

end Numeral

end MonkeySyntax
