import MonkeySyntax.Proofs.Numeral
import MonkeySyntax.Text.Quoted

/-! # Reading quoted text

Quoted text can be read back: a reader with four states undoes the escapes one character after
another, so that two texts that are written the same between quotes are the same.
-/

namespace MonkeySyntax.Text

/-- Where a reader of quoted text stands: outside of escapes, behind a backslash, before the brace
of a code point, or behind some of its digits. -/
inductive Reader where
  | plain
  | backslash
  | brace
  | digits (value : Nat)
  deriving DecidableEq, Repr

def shortEscapes : List (Char × Char) :=
  [('0', '\x00'), ('t', '\t'), ('r', '\r'), ('n', '\n'), ('"', '"'), ('\\', '\\')]

def unescape? : Reader → List Char → Option (List Char)
  | .plain, [] => some []
  | _, [] => none
  | .plain, c :: cs =>
    if c = '\\' then unescape? .backslash cs else (unescape? .plain cs).map (c :: ·)
  | .backslash, c :: cs =>
    if c = 'u' then unescape? .brace cs
    else (shortEscapes.lookup c).bind fun d => (unescape? .plain cs).map (d :: ·)
  | .brace, c :: cs => if c = '{' then unescape? (.digits 0) cs else none
  | .digits n, c :: cs =>
    if c = '}' then (unescape? .plain cs).map (.ofNat n :: ·)
    else (Numeral.digitIn? 16 c).bind fun d => unescape? (.digits (n * 16 + d)) cs

/-! ### Code points -/

theorem digitIn?_digitChar : ∀ n < 16,
    n.digitChar ≠ '}' ∧ Numeral.digitIn? 16 n.digitChar = some n := by
  decide

theorem unescape?_digitChar {n : Nat} (h : n < 16) (value : Nat) (cs : List Char) :
    unescape? (.digits value) (n.digitChar :: cs) = unescape? (.digits (value * 16 + n)) cs := by
  obtain ⟨hne, hdigit⟩ := digitIn?_digitChar n h
  rw [unescape?, if_neg hne, hdigit, Option.bind_some]

theorem unescape?_toDigits (n : Nat) (cs : List Char) :
    unescape? (.digits 0) (Nat.toDigits 16 n ++ cs) = unescape? (.digits n) cs := by
  induction n using Nat.strongRecOn generalizing cs with
  | ind n ih =>
    rw [Nat.toDigits_eq_if (by decide)]
    split
    · next hlt => rw [List.singleton_append, unescape?_digitChar hlt, Nat.zero_mul, Nat.zero_add]
    · next hge =>
      have hlt : n / 16 < n := Nat.div_lt_self (by omega) (by decide)
      have hn : n / 16 * 16 + n % 16 = n := by omega
      rw [List.append_assoc, ih _ hlt, List.singleton_append,
        unescape?_digitChar (Nat.mod_lt n (by decide)), hn]

theorem unescape?_escapeCodePoint (c : Char) (cs : List Char) :
    unescape? .plain (escapeCodePoint c ++ cs) = (unescape? .plain cs).map (c :: ·) := by
  have hdigits : unescape? .plain (escapeCodePoint c ++ cs) =
      unescape? (.digits 0) (Nat.toDigits 16 c.toNat ++ '}' :: cs) := by
    rw [escapeCodePoint, List.append_assoc, List.append_assoc]
    rfl
  rw [hdigits, unescape?_toDigits, unescape?, if_pos rfl, Char.ofNat_toNat]

/-! ### Texts -/

theorem unescape?_escape (c : Char) (cs : List Char) :
    unescape? .plain (escape c ++ cs) = (unescape? .plain cs).map (c :: ·) := by
  unfold escape
  repeat' split
  · next hc => subst hc; rfl
  · next hc => subst hc; rfl
  · next hc => subst hc; rfl
  · next hc => subst hc; rfl
  · next hc => subst hc; rfl
  · next hc => subst hc; rfl
  · exact unescape?_escapeCodePoint c cs
  · next hc _ => rw [List.singleton_append, unescape?, if_neg hc]

theorem unescape?_flatMap_escape (cs : List Char) :
    unescape? .plain (cs.flatMap escape) = some cs := by
  induction cs with
  | nil => rfl
  | cons c cs ih => rw [List.flatMap_cons, unescape?_escape, ih, Option.map_some]

end MonkeySyntax.Text
