import MonkeySyntax.Proofs.Text.Encoding
import MonkeySyntax.Text.Lines

/-! # The line of an offset

A line goes from behind a newline up to the next one. An offset may stand inside a character, so
newlines are looked for among the bytes: no other character has the byte of a newline in its form.
-/

namespace MonkeySyntax.Text

def NewlineAt (source : String) (n : Nat) : Prop := source.toUTF8.data[n]? = some 0x0a

/-- A line starts behind the last newline before the offset, or with the source if there is none. -/
structure StartsLine (source : String) (offset start : Nat) : Prop where
  le : start ≤ offset
  behind : start = 0 ∨ ∃ n, start = n + 1 ∧ NewlineAt source n
  last : ∀ n, start ≤ n → n < offset → ¬ NewlineAt source n

/-- A line ends behind the first newline from the offset on, or with the source if there is none. -/
structure EndsLine (source : String) (offset stop : Nat) : Prop where
  le : offset ≤ stop
  behind : (∃ n, offset ≤ n ∧ stop = n + 1 ∧ NewlineAt source n) ∨ stop = source.utf8ByteSize
  first : ∀ n, offset ≤ n → n + 1 < stop → ¬ NewlineAt source n

/-- The place of an offset into the source: the newlines before it give the number of its line, and
its column counts the bytes from the start of that line. -/
structure Locates (source : String) (offset : Nat) (p : Place) : Prop where
  le : offset ≤ source.utf8ByteSize
  number_eq : p.number = 1 + (source.toUTF8.data.toList.take offset).count 0x0a
  exists_line : ∃ before behind : String, source = before ++ .ofList p.line ++ behind ∧
    StartsLine source offset before.utf8ByteSize ∧
    EndsLine source offset (before ++ .ofList p.line).utf8ByteSize ∧
    p.column = offset - before.utf8ByteSize

/-! ### Newlines among the bytes -/

variable {source : String} {cs text before behind ending : List Char} {offset n : Nat}

theorem newline_mem_utf8EncodeChar {c : Char} (h : 0x0a ∈ String.utf8EncodeChar c) : c = '\n' := by
  have hb : isBlank c = true := (isBlankByte_of_mem h).symm.trans (by decide)
  simp only [isBlank, Bool.or_eq_true, beq_iff_eq] at hb
  rcases hb with ((rfl | rfl) | rfl) | rfl
  · exact absurd h (by decide)
  · exact absurd h (by decide)
  · rfl
  · exact absurd h (by decide)

theorem newline_not_mem_bytes (h : '\n' ∉ cs) : 0x0a ∉ bytes cs := by
  intro hb
  obtain ⟨c, hc, hb⟩ := List.mem_flatMap.1 hb
  exact h (newline_mem_utf8EncodeChar hb ▸ hc)

theorem bytes_newline_cons (cs : List Char) : bytes ('\n' :: cs) = 0x0a :: bytes cs := by
  rw [bytes, List.flatMap_cons]
  rfl

theorem newlineAt_iff : NewlineAt source n ↔ (bytes source.toList)[n]? = some 0x0a := by
  rw [NewlineAt, bytes_toList, Array.getElem?_toList]

theorem newlineAt_byteLength (before behind : List Char)
    (h : source.toList = before ++ '\n' :: behind) : NewlineAt source (byteLength before) := by
  rw [newlineAt_iff, h, bytes_append, bytes_newline_cons, ← length_bytes,
    List.getElem?_append_right (Nat.le_refl _), Nat.sub_self]
  rfl

theorem NewlineAt.lt (h : NewlineAt source n) : n < source.utf8ByteSize := by
  obtain ⟨hn, -⟩ := List.getElem?_eq_some_iff.1 (newlineAt_iff.1 h)
  rwa [length_bytes, byteLength_toList] at hn

/-! ### Lines -/

theorem lines_of_no_newline (h : '\n' ∉ text) : lines text = [text] := by
  induction text with
  | nil => rfl
  | cons c text ih =>
    have hc : c ≠ '\n' := (List.ne_of_not_mem_cons h).symm
    have ht : '\n' ∉ text := List.not_mem_of_not_mem_cons h
    have hl : lines (c :: text) = attach c (lines text) := rfl
    rw [hl, ih ht, attach, if_neg hc]

theorem lines_append_newline (h : '\n' ∉ text) (cs : List Char) :
    lines (text ++ '\n' :: cs) = (text ++ ['\n']) :: lines cs := by
  induction text with
  | nil =>
    have hl : lines ('\n' :: cs) = attach '\n' (lines cs) := rfl
    obtain ⟨l, ls, hls⟩ := List.exists_cons_of_ne_nil (lines_ne_nil cs)
    rw [List.nil_append, hl, hls, attach, if_pos rfl, List.nil_append]
  | cons c text ih =>
    have hc : c ≠ '\n' := (List.ne_of_not_mem_cons h).symm
    have ht : '\n' ∉ text := List.not_mem_of_not_mem_cons h
    have hl : lines (c :: text ++ '\n' :: cs) = attach c (lines (text ++ '\n' :: cs)) := rfl
    rw [hl, ih ht, attach, if_neg hc, List.cons_append]

theorem placeIn_cons {ls : List (List Char)} (h : ls ≠ []) (number offset : Nat) (l : List Char) :
    placeIn number offset (l :: ls) = if offset < byteLength l then some ⟨number, l, offset⟩
      else placeIn (number + 1) (offset - byteLength l) ls := by
  obtain ⟨l', ls, rfl⟩ := List.exists_cons_of_ne_nil h
  rfl

theorem placeIn_eq_none {ls : List (List Char)} {number : Nat}
    (h : byteLength ls.flatten < offset) : placeIn number offset ls = none := by
  fun_induction placeIn number offset ls with
  | case1 => rfl
  | case2 number offset l hle =>
    rw [List.flatten_cons, List.flatten_nil, List.append_nil] at h
    omega
  | case3 => rfl
  | case4 number offset l ls _ hlt =>
    rw [List.flatten_cons, byteLength_append] at h
    omega
  | case5 number offset l ls _ hlt ih =>
    rw [List.flatten_cons, byteLength_append] at h
    exact ih (by omega)

/-- The text that holds an offset, with its ending, between what stands before and behind it. -/
structure Around (cs : List Char) (offset : Nat) (before text ending behind : List Char) :
    Prop where
  eq : cs = before ++ (text ++ ending) ++ behind
  newline_not_mem : '\n' ∉ text
  before_cases : before = [] ∨ ∃ front, before = front ++ ['\n']
  ending_cases : ending = ['\n'] ∨ ending = [] ∧ behind = []
  le : byteLength before ≤ offset
  le_add : offset ≤ byteLength before + byteLength text

theorem Around.cons {line : List Char} (hle : byteLength (line ++ ['\n']) ≤ offset)
    (h : Around cs (offset - byteLength (line ++ ['\n'])) before text ending behind) :
    Around (line ++ ['\n'] ++ cs) offset (line ++ ['\n'] ++ before) text ending behind where
  eq := by rw [h.eq]; simp only [List.append_assoc]
  newline_not_mem := h.newline_not_mem
  before_cases := by
    rcases h.before_cases with rfl | ⟨front, rfl⟩
    · exact .inr ⟨line, List.append_nil _⟩
    · exact .inr ⟨line ++ ['\n'] ++ front, (List.append_assoc _ _ _).symm⟩
  ending_cases := h.ending_cases
  le := by
    have := h.le
    rw [byteLength_append]
    omega
  le_add := by
    have := h.le_add
    rw [byteLength_append]
    omega

/-- The walk down the lines comes to the text that holds the offset. -/
theorem exists_placeIn_lines {cs : List Char} {offset : Nat} (number : Nat)
    (h : offset ≤ byteLength cs) :
    ∃ before text ending behind, Around cs offset before text ending behind ∧
      placeIn number offset (lines cs) = some ⟨number + (bytes before).count 0x0a, text ++ ending,
        offset - byteLength before⟩ := by
  by_cases hin : '\n' ∈ cs
  · obtain ⟨line, rest, rfl, hn⟩ := List.eq_append_cons_of_mem hin
    rw [lines_append_newline hn, placeIn_cons (lines_ne_nil rest)]
    have hlen : byteLength (line ++ ['\n']) = byteLength line + 1 := byteLength_append _ _
    by_cases hlt : offset < byteLength (line ++ ['\n'])
    · refine ⟨[], line, ['\n'], rest, ?_, if_pos hlt⟩
      exact ⟨by simp, hn, .inl rfl, .inl rfl, Nat.zero_le _, by simp; omega⟩
    · have hrest : offset - byteLength (line ++ ['\n']) ≤ byteLength rest := by
        rw [byteLength_append, byteLength_cons] at h
        have hc : '\n'.utf8Size = 1 := by decide
        omega
      obtain ⟨before, text, ending, behind, ha, hp⟩ := exists_placeIn_lines (number + 1) hrest
      have hcs : line ++ '\n' :: rest = line ++ ['\n'] ++ rest := by simp
      rw [hcs, if_neg hlt, hp]
      refine ⟨_, text, ending, behind, ha.cons (by omega), ?_⟩
      have hcount : (bytes (line ++ ['\n'])).count 0x0a = 1 := by
        rw [bytes_append, List.count_append,
          List.count_eq_zero_of_not_mem (newline_not_mem_bytes hn), bytes_newline_cons]
        rfl
      rw [bytes_append, List.count_append, hcount, byteLength_append (line ++ ['\n']) before,
        Nat.add_assoc, Nat.sub_sub]
  · rw [lines_of_no_newline hin]
    refine ⟨[], cs, [], [], ?_, ?_⟩
    · exact ⟨by simp, hin, .inl rfl, .inr ⟨rfl, rfl⟩, Nat.zero_le _, by simpa using h⟩
    · simp [placeIn, h, bytes]
termination_by cs.length

/-! ### The place of an offset -/

theorem Around.not_newlineAt (h : Around source.toList offset before text ending behind)
    (hn : byteLength before ≤ n) (hn' : n < byteLength before + byteLength text) :
    ¬ NewlineAt source n := by
  rw [newlineAt_iff, h.eq, bytes_append, bytes_append, bytes_append,
    List.getElem?_append_left (by simp; omega), List.getElem?_append_right (by simpa using hn),
    List.getElem?_append_left (by simp; omega)]
  intro hb
  exact newline_not_mem_bytes h.newline_not_mem (List.mem_of_getElem? hb)

theorem Around.startsLine (h : Around source.toList offset before text ending behind) :
    StartsLine source offset (byteLength before) where
  le := h.le
  behind := by
    rcases h.before_cases with rfl | ⟨front, rfl⟩
    · exact .inl rfl
    · refine .inr ⟨byteLength front, byteLength_append _ _, ?_⟩
      exact newlineAt_byteLength front (text ++ ending ++ behind) (by simp [h.eq])
  last n hn hlt := h.not_newlineAt hn (by have := h.le_add; omega)

theorem Around.endsLine (h : Around source.toList offset before text ending behind) :
    EndsLine source offset (byteLength (before ++ (text ++ ending))) := by
  have hle := h.le
  have hadd := h.le_add
  rcases h.ending_cases with rfl | ⟨rfl, rfl⟩
  · have hlen : byteLength (before ++ (text ++ ['\n'])) = byteLength (before ++ text) + 1 := by
      rw [← List.append_assoc]
      exact byteLength_append _ _
    have hn : NewlineAt source (byteLength (before ++ text)) :=
      newlineAt_byteLength (before ++ text) behind (by simp [h.eq])
    rw [hlen]
    rw [byteLength_append] at hn ⊢
    refine ⟨by omega, .inl ⟨_, hadd, rfl, hn⟩, ?_⟩
    intro n hle hlt
    exact h.not_newlineAt (by omega) (by omega)
  · have hsize : source.utf8ByteSize = byteLength (before ++ (text ++ [])) := by
      rw [← byteLength_toList, h.eq, List.append_nil]
    rw [← hsize]
    rw [List.append_nil, byteLength_append] at hsize
    refine ⟨by omega, .inr rfl, ?_⟩
    intro n hle hlt
    exact h.not_newlineAt (by omega) (by omega)

theorem Around.locates (h : Around source.toList offset before text ending behind) :
    Locates source offset ⟨1 + (bytes before).count 0x0a, text ++ ending,
      offset - byteLength before⟩ where
  le := by
    rw [← byteLength_toList, h.eq]
    have := h.le_add
    simp only [byteLength_append]
    omega
  number_eq := by
    have hle := h.le
    have hadd := h.le_add
    have htake : (bytes source.toList).take offset =
        bytes before ++ (bytes text).take (offset - byteLength before) := by
      rw [h.eq, List.append_assoc, List.append_assoc, bytes_append, List.take_append, length_bytes,
        List.take_of_length_le (by rwa [length_bytes]), bytes_append,
        List.take_append_of_le_length (by rw [length_bytes]; omega)]
    have hcount : ((bytes text).take (offset - byteLength before)).count 0x0a = 0 := by
      apply List.count_eq_zero_of_not_mem
      intro hb
      exact newline_not_mem_bytes h.newline_not_mem (List.mem_of_mem_take hb)
    rw [← bytes_toList, htake, List.count_append, hcount, Nat.add_zero]
  exists_line := by
    refine ⟨.ofList before, .ofList behind, ?_, ?_, ?_, ?_⟩
    · rw [← String.toList_inj, h.eq]
      simp
    · rw [← byteLength_toList, String.toList_ofList]
      exact h.startsLine
    · rw [← byteLength_toList, String.toList_append, String.toList_ofList, String.toList_ofList]
      exact h.endsLine
    · rw [← byteLength_toList, String.toList_ofList]

/-! ### One place for every offset -/

theorem append_inj_of_byteLength {a a' b b' : List Char} (h : a ++ b = a' ++ b')
    (hlen : byteLength a = byteLength a') : a = a' ∧ b = b' := by
  have hs := splitAt?_byteLength a b
  rw [h, hlen, splitAt?_byteLength] at hs
  cases hs
  exact ⟨rfl, rfl⟩

theorem StartsLine.start_le {start start' : Nat} (h : StartsLine source offset start)
    (h' : StartsLine source offset start') : start' ≤ start := by
  rcases h'.behind with rfl | ⟨n, rfl, hn⟩
  · exact Nat.zero_le _
  · refine Nat.le_of_not_lt fun hlt => ?_
    exact h.last n (by omega) h'.le hn

theorem EndsLine.stop_le_size {stop : Nat} (h : EndsLine source offset stop) :
    stop ≤ source.utf8ByteSize := by
  rcases h.behind with ⟨n, -, rfl, hn⟩ | rfl
  · exact hn.lt
  · exact Nat.le_refl _

theorem EndsLine.stop_le {stop stop' : Nat} (h : EndsLine source offset stop)
    (h' : EndsLine source offset stop') : stop ≤ stop' := by
  rcases h'.behind with ⟨n, hle, rfl, hn⟩ | rfl
  · refine Nat.le_of_not_lt fun hlt => ?_
    exact h.first n hle hlt hn
  · exact h.stop_le_size

theorem Locates.unique {p q : Place} (h : Locates source offset p) (h' : Locates source offset q) :
    p = q := by
  obtain ⟨before, behind, hs, hstart, hstop, hcolumn⟩ := h.exists_line
  obtain ⟨before', behind', hs', hstart', hstop', hcolumn'⟩ := h'.exists_line
  have hb : before.utf8ByteSize = before'.utf8ByteSize :=
    Nat.le_antisymm (hstart'.start_le hstart) (hstart.start_le hstart')
  have he := Nat.le_antisymm (hstop.stop_le hstop') (hstop'.stop_le hstop)
  have hnumber : p.number = q.number := h.number_eq.trans h'.number_eq.symm
  have hcol : p.column = q.column := by rw [hcolumn, hcolumn', hb]
  have htext : before.toList ++ (p.line ++ behind.toList) =
      before'.toList ++ (q.line ++ behind'.toList) := by
    have := congrArg String.toList (hs.symm.trans hs')
    simpa using this
  simp only [← byteLength_toList, String.toList_append, String.toList_ofList,
    byteLength_append] at hb he
  obtain ⟨-, hrest⟩ := append_inj_of_byteLength htext hb
  obtain ⟨hline, -⟩ := append_inj_of_byteLength hrest (by omega)
  cases p
  cases q
  cases hnumber
  cases hcol
  cases hline
  rfl

/-- An offset past the end of the source has no line. Every other one is on the line between the
last newline before it and the first one from there on, whatever it stands at. -/
theorem lineAt_locates (source : String) (offset : Nat) :
    (lineAt source.toList offset = none ↔ source.utf8ByteSize < offset) ∧
      ∀ p, lineAt source.toList offset = some p ↔ Locates source offset p := by
  rcases Nat.lt_or_ge source.utf8ByteSize offset with hlt | hle
  · have hnone : lineAt source.toList offset = none := by
      apply placeIn_eq_none
      rwa [flatten_lines, byteLength_toList]
    refine ⟨iff_of_true hnone hlt, fun p => ?_⟩
    rw [hnone]
    refine iff_of_false (fun h => Option.some_ne_none _ h.symm) fun h => ?_
    have := h.le
    omega
  · rw [← byteLength_toList] at hle
    obtain ⟨before, text, ending, behind, ha, hp⟩ := exists_placeIn_lines 1 hle
    rw [byteLength_toList] at hle
    have hl := ha.locates
    rw [lineAt, hp]
    refine ⟨iff_of_false (Option.some_ne_none _) (by omega), fun p => ⟨?_, ?_⟩⟩
    · rintro ⟨⟩
      exact hl
    · intro h
      exact congrArg some (hl.unique h)

example : [1, 2, 3, 4].map (lineAt ['é', '\n']) = [some ⟨1, ['é', '\n'], 1⟩,
    some ⟨1, ['é', '\n'], 2⟩, some ⟨2, [], 0⟩, none] := by
  decide

end MonkeySyntax.Text
