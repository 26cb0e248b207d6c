import MonkeySyntax.Numeral
import MonkeySyntax.Proofs.Token.Seam

/-! # The form of integer literals

A text that has a value as an integer literal is a run of digits, or a zero, a letter for the radix
and digits of it, which may be letters.
-/

namespace MonkeySyntax.Numeral

/-- The letters that fix a radix behind a leading zero. -/
def isRadixLetter (c : Char) : Bool := c ∈ ['x', 'X', 'o', 'O', 'b', 'B']

variable {radix value d n : Nat} {c : Char} {cs : List Char}

theorem digitIn?_eq_some_iff : digitIn? radix c = some d ↔ digit? c = some d ∧ d < radix := by
  simp [digitIn?, Option.filter_eq_some_iff]

theorem isDigit_iff : c.isDigit = true ↔ '0' ≤ c ∧ c ≤ '9' := by
  simp [Char.isDigit, Char.le_def]

/-- A digit of any radix is a decimal digit or a letter, and a letter only in a radix above ten. -/
theorem isDigit_or_of_digitIn? (h : digitIn? radix c = some d) :
    c.isDigit = true ∨ isWordChar c = true ∧ 10 < radix := by
  obtain ⟨hd, hlt⟩ := digitIn?_eq_some_iff.1 h
  unfold digit? at hd
  split at hd
  · next hc => exact .inl (isDigit_iff.2 hc)
  · split at hd
    · next hc =>
      cases hd
      exact .inr ⟨isWordChar_iff.2 (.inl (.inr hc)), by omega⟩
    · split at hd
      · next hc =>
        cases hd
        exact .inr ⟨isWordChar_iff.2 (.inl (.inl hc)), by omega⟩
      · cases hd

theorem digits_of_valueFrom? (h : valueFrom? radix value cs = some n) :
    ∀ c ∈ cs, ∃ d, digitIn? radix c = some d := by
  induction cs generalizing value with
  | nil => simp
  | cons c cs ih =>
    obtain ⟨d, hd, hrest⟩ := Option.bind_eq_some_iff.1 h
    intro e he
    rcases List.mem_cons.1 he with rfl | he
    · exact ⟨d, hd⟩
    · exact ih hrest e he

theorem digits_of_value? {m : Numeral} (h : m.value? = some n) :
    m.digits ≠ [] ∧ ∀ c ∈ m.digits, ∃ d, digitIn? m.radix c = some d := by
  unfold value? at h
  split at h
  · cases h
  · next hne => exact ⟨hne, digits_of_valueFrom? h⟩

theorem ofText_cases (cs : List Char) :
    (∃ m, cs = '0' :: m :: (ofText cs).digits ∧ isRadixLetter m = true) ∨
      (ofText cs).radix ≤ 10 ∧
        (cs = (ofText cs).digits ∨ cs = '0' :: (ofText cs).digits) := by
  fun_cases ofText cs with
  | case1 ds => exact .inl ⟨'x', rfl, rfl⟩
  | case2 ds => exact .inl ⟨'X', rfl, rfl⟩
  | case3 ds => exact .inl ⟨'o', rfl, rfl⟩
  | case4 ds => exact .inl ⟨'O', rfl, rfl⟩
  | case5 ds => exact .inl ⟨'b', rfl, rfl⟩
  | case6 ds => exact .inl ⟨'B', rfl, rfl⟩
  | case7 => exact .inr ⟨by simp, .inr rfl⟩
  | case8 => exact .inr ⟨by simp, .inl rfl⟩

theorem exists_value?_of_decode? {text : String} {v : Int64} (h : decode? text = some v) :
    ∃ n, (ofText text.toList).value? = some n ∧ v = .ofNat n := by
  obtain ⟨n, hn, rfl⟩ := Option.map_eq_some_iff.1 h
  exact ⟨n, (Option.filter_eq_some_iff.1 hn).1, rfl⟩

/-- The texts that have a value are runs of decimal digits, or have a letter for the radix. -/
theorem literal_cases {text : String} {v : Int64} (h : decode? text = some v) :
    (text.toList ≠ [] ∧ ∀ c ∈ text.toList, c.isDigit = true) ∨
      ∃ m ds, text.toList = '0' :: m :: ds ∧ isRadixLetter m = true ∧
        ∀ c ∈ ds, c.isDigit = true ∨ isWordChar c = true := by
  obtain ⟨n, hn, -⟩ := exists_value?_of_decode? h
  obtain ⟨hne, hds⟩ := digits_of_value? hn
  rcases ofText_cases text.toList with ⟨m, ht, hm⟩ | ⟨hr, ht⟩
  · refine .inr ⟨m, _, ht, hm, ?_⟩
    intro c hc
    obtain ⟨d, hd⟩ := hds c hc
    exact (isDigit_or_of_digitIn? hd).imp_right And.left
  · have hall : ∀ c ∈ (ofText text.toList).digits, c.isDigit = true := by
      intro c hc
      obtain ⟨d, hd⟩ := hds c hc
      rcases isDigit_or_of_digitIn? hd with hc | ⟨-, hlt⟩
      · exact hc
      · omega
    left
    rcases ht with ht | ht <;> rw [ht]
    · exact ⟨hne, hall⟩
    · exact ⟨List.cons_ne_nil _ _, List.forall_mem_cons.2 ⟨by decide, hall⟩⟩

end MonkeySyntax.Numeral
