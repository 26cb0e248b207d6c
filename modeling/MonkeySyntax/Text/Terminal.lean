import MonkeySyntax.Text.Quoted

/-! # Terminal controls

Some control characters can steer the terminal that a text is shown on: bell, backspace, form feed,
escape, delete and the controls from U+0080 to U+009F. `showControls` writes them by their code
point; what it writes holds none of them.
-/

namespace MonkeySyntax.Text

def isTerminalControl (c : Char) : Bool :=
  c = '\x07' || c = '\x08' || c = '\x0c' || c = '\x1b' || (0x7f ≤ c.toNat && c.toNat ≤ 0x9f)

/-- A terminal control by its code point, in two digits if it is an ASCII character; any other
character as it is. -/
def escapeControl (c : Char) : List Char :=
  if isTerminalControl c then
    if c.toNat < 0x80 then
      ['\\', 'x', Nat.digitChar (c.toNat / 16), Nat.digitChar (c.toNat % 16)]
    else escapeCodePoint c
  else [c]

def showControls (s : String) : String := String.ofList (s.toList.flatMap escapeControl)

theorem mem_of_isTerminalControl {c : Char} (h : isTerminalControl c) :
    c = '\x07' ∨ c = '\x08' ∨ c = '\x0c' ∨ c = '\x1b' ∨ ∃ n < 33, c = Char.ofNat (0x7f + n) := by
  simp only [isTerminalControl, Bool.or_eq_true, Bool.and_eq_true, decide_eq_true_eq] at h
  rcases h with (((h | h) | h) | h) | ⟨hl, hh⟩
  · exact .inl h
  · exact .inr (.inl h)
  · exact .inr (.inr (.inl h))
  · exact .inr (.inr (.inr (.inl h)))
  · refine .inr (.inr (.inr (.inr ⟨c.toNat - 0x7f, by omega, ?_⟩)))
    rw [Nat.add_sub_cancel' hl, Char.ofNat_toNat]

theorem all_escapeControl (c : Char) : (escapeControl c).all (!isTerminalControl ·) := by
  by_cases hc : isTerminalControl c
  · have hhigh : ∀ n < 33, (escapeControl (Char.ofNat (0x7f + n))).all (!isTerminalControl ·) := by
      decide +kernel
    rcases mem_of_isTerminalControl hc with rfl | rfl | rfl | rfl | ⟨n, hn, rfl⟩
    · decide
    · decide
    · decide
    · decide
    · exact hhigh n hn
  · rw [escapeControl, if_neg hc]
    simpa using hc

/-- What is shown cannot steer a terminal. -/
theorem isTerminalControl_eq_false_of_mem_showControls {s : String} {d : Char}
    (h : d ∈ (showControls s).toList) : isTerminalControl d = false := by
  rw [showControls, String.toList_ofList] at h
  obtain ⟨c, -, hd⟩ := List.mem_flatMap.1 h
  simpa using List.all_eq_true.1 (all_escapeControl c) d hd

end MonkeySyntax.Text
