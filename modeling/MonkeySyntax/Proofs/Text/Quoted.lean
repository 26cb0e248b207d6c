import MonkeySyntax.Text.Quoted

/-! # Quoted text stays on one line

Nothing that stands between quotes is a newline, whatever the text: a newline has an escape, and the
escapes hold letters, digits and signs only.
-/

namespace MonkeySyntax.Text

theorem newline_not_mem_toDigitsCore {b fuel n : Nat} {ds : List Char} (hds : '\n' ∉ ds) :
    '\n' ∉ Nat.toDigitsCore b fuel n ds := by
  induction fuel generalizing n ds with
  | zero => exact hds
  | succ fuel ih =>
    have hdigit : Nat.digitChar (n % b) ≠ '\n' := Nat.digitChar_ne '\n' (by decide)
    have hcons : '\n' ∉ Nat.digitChar (n % b) :: ds :=
      List.not_mem_cons_of_ne_of_not_mem hdigit.symm hds
    rw [Nat.toDigitsCore]
    split
    · exact hcons
    · exact ih hcons

theorem newline_not_mem_toDigits (b n : Nat) : '\n' ∉ Nat.toDigits b n :=
  newline_not_mem_toDigitsCore List.not_mem_nil

theorem newline_not_mem_escapeCodePoint (c : Char) : '\n' ∉ escapeCodePoint c := by
  simp [escapeCodePoint, newline_not_mem_toDigits]

theorem newline_not_mem_escape (c : Char) : '\n' ∉ escape c := by
  unfold escape
  repeat' split
  · decide
  · decide
  · decide
  · decide
  · decide
  · decide
  · exact newline_not_mem_escapeCodePoint c
  · next hc _ _ _ => simpa using Ne.symm hc

theorem newline_not_mem_quote (s : String) : '\n' ∉ (quote s).toList := by
  simp [quote, newline_not_mem_escape]

end MonkeySyntax.Text
