import MonkeySyntax.Proofs.Text.Encoding
import MonkeySyntax.Session.Script

/-! # The lines of an input

`Splits` says which lines an input has, by what ends each of them. Every input has one splitting,
and it is cut into parts wherever a line ends. A line is a text if it is the UTF-8 form of one.
-/

namespace MonkeySyntax.Session

/-- The input falls into these lines. A line ends at a newline, or at a carriage return and a
newline; what stands behind the last newline is a line if it is not empty. -/
inductive Splits : List UInt8 → List (List UInt8) → Prop where
  | done : Splits [] []
  | tail {line : List UInt8} (hne : line ≠ []) (hn : 0x0a ∉ line) : Splits line [line]
  | newline {line input : List UInt8} {ls : List (List UInt8)} (hn : 0x0a ∉ line)
      (hr : line.getLast? ≠ some 0x0d) (h : Splits input ls) :
      Splits (line ++ 0x0a :: input) (line :: ls)
  | returnNewline {line input : List UInt8} {ls : List (List UInt8)} (hn : 0x0a ∉ line)
      (h : Splits input ls) : Splits (line ++ 0x0d :: 0x0a :: input) (line :: ls)

def encode (text : String) : List UInt8 := Text.bytes text.toList

variable {line input : List UInt8} {ls ls' : List (List UInt8)}

theorem dropReturn_of_ne (h : line.getLast? ≠ some 0x0d) : dropReturn line = line := if_neg h

theorem dropReturn_concat (line : List UInt8) : dropReturn (line ++ [0x0d]) = line := by
  rw [dropReturn, if_pos List.getLast?_concat, List.dropLast_concat]

/-! ### One splitting for every input -/

theorem lines_of_not_mem (hne : line ≠ []) (hn : 0x0a ∉ line) : lines line = [line] := by
  simp [lines, List.splitOn_eq_singleton hn, hne]

theorem lines_append_newline (hn : 0x0a ∉ line) (input : List UInt8) :
    lines (line ++ 0x0a :: input) = dropReturn line :: lines input := by
  have hne := List.splitOn_ne_nil (0x0a : UInt8) input
  simp only [lines, List.splitOn_append_cons_self_of_not_mem hn]
  rw [List.dropLast_cons_of_ne_nil hne, List.getLast?_cons_of_ne_nil hne, List.map_cons,
    List.cons_append]

theorem Splits.lines_eq (h : Splits input ls) : lines input = ls := by
  induction h with
  | done => rfl
  | tail hne hn => exact lines_of_not_mem hne hn
  | newline hn hr _ ih => rw [lines_append_newline hn, dropReturn_of_ne hr, ih]
  | @returnNewline line input ls hn _ ih =>
    have hn' : 0x0a ∉ line ++ [0x0d] := by simp [hn]
    have happ := lines_append_newline hn' input
    rw [dropReturn_concat, ih, List.append_assoc] at happ
    exact happ

theorem splits_lines (input : List UInt8) : Splits input (lines input) := by
  by_cases hin : 0x0a ∈ input
  · obtain ⟨line, rest, rfl, hn⟩ := List.eq_append_cons_of_mem hin
    have ih := splits_lines rest
    rw [lines_append_newline hn]
    by_cases hr : line.getLast? = some 0x0d
    · obtain ⟨line, rfl⟩ := List.getLast?_eq_some_iff.1 hr
      rw [dropReturn_concat, List.append_assoc]
      exact .returnNewline (fun h => hn (List.mem_append_left _ h)) ih
    · rw [dropReturn_of_ne hr]
      exact .newline hn hr ih
  · by_cases hne : input = []
    · rw [hne]
      exact .done
    · rw [lines_of_not_mem hne hin]
      exact .tail hne hin
termination_by input.length

theorem splits_iff : Splits input ls ↔ ls = lines input := by
  constructor
  · intro h
    exact h.lines_eq.symm
  · rintro rfl
    exact splits_lines input

theorem Splits.exists_append (h : Splits input (ls ++ ls')) :
    ∃ front back, input = front ++ back ∧ Splits front ls ∧ Splits back ls' := by
  induction ls generalizing input with
  | nil => exact ⟨[], input, rfl, .done, h⟩
  | cons line ls ih =>
    generalize heq : line :: ls ++ ls' = all at h
    cases h with
    | done => cases heq
    | tail hne hn =>
      obtain ⟨rfl, hnil⟩ := List.cons.inj heq
      obtain ⟨rfl, rfl⟩ := List.append_eq_nil_iff.1 hnil
      exact ⟨line, [], (List.append_nil _).symm, .tail hne hn, .done⟩
    | newline hn hr h =>
      obtain ⟨rfl, rfl⟩ := List.cons.inj heq
      obtain ⟨front, back, rfl, hf, hb⟩ := ih h
      refine ⟨line ++ 0x0a :: front, back, ?_, .newline hn hr hf, hb⟩
      rw [List.append_assoc, List.cons_append]
    | returnNewline hn h =>
      obtain ⟨rfl, rfl⟩ := List.cons.inj heq
      obtain ⟨front, back, rfl, hf, hb⟩ := ih h
      refine ⟨line ++ 0x0d :: 0x0a :: front, back, ?_, .returnNewline hn hf, hb⟩
      rw [List.append_assoc, List.cons_append, List.cons_append]

/-! ### Lines that are texts -/

theorem toByteArray_encode (text : String) : (encode text).toByteArray = text.toByteArray := by
  apply ByteArray.ext
  rw [encode, Text.bytes_toList, List.data_toByteArray, Array.toArray_toList]
  rfl

theorem decode?_encode (text : String) : decode? (encode text) = some text := by
  rw [decode?, String.fromUTF8?, toByteArray_encode, dif_pos text.isValidUTF8]
  rfl

theorem decode?_eq_some_iff {text : String} : decode? line = some text ↔ line = encode text := by
  constructor
  · intro h
    rw [decode?, String.fromUTF8?] at h
    split at h
    · obtain rfl := Option.some.inj h
      rw [encode, Text.bytes_toList]
      exact List.toList_data_toByteArray.symm
    · cases h
  · rintro rfl
    exact decode?_encode text

theorem decode?_eq_none_iff : decode? line = none ↔ ∀ text, line ≠ encode text := by
  rw [Option.eq_none_iff_forall_ne_some]
  exact forall_congr' fun _ => not_congr decode?_eq_some_iff

/-- Lines are texts up to a first one that is none, or they are all texts. -/
theorem exists_texts (ls : List (List UInt8)) : (∃ texts : List String, ls = texts.map encode) ∨
    ∃ (texts : List String) (line : List UInt8) (rest : List (List UInt8)),
      ls = texts.map encode ++ line :: rest ∧ ∀ text, line ≠ encode text := by
  induction ls with
  | nil => exact .inl ⟨[], rfl⟩
  | cons line ls ih =>
    cases hd : decode? line with
    | none => exact .inr ⟨[], line, ls, rfl, decode?_eq_none_iff.1 hd⟩
    | some text =>
      obtain rfl := decode?_eq_some_iff.1 hd
      rcases ih with ⟨texts, rfl⟩ | ⟨texts, line, rest, rfl, hline⟩
      · exact .inl ⟨text :: texts, rfl⟩
      · exact .inr ⟨text :: texts, line, rest, rfl, hline⟩

end MonkeySyntax.Session
