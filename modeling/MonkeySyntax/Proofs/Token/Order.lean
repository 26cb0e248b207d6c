import MonkeySyntax.Token.Stream

/-! # The order of tokens

The tokens of a source start one behind another, as long as the offsets fit into a position.
-/

namespace MonkeySyntax

variable {file : String} {source : String} {offset : Nat} {ls : List Lexeme} {t : Token}

theorem text_ne_nil_of_mem_lexemes {cs : List Char} {l : Lexeme} (h : l ∈ lexemes cs) :
    l.text ≠ [] := by
  fun_induction lexemes cs with
  | case1 => cases h
  | case2 c cs l' ih =>
    rcases List.mem_cons.1 h with rfl | h
    · exact Lexeme.text_front_ne_nil c cs
    · exact ih h

theorem Text.byteLength_pos {cs : List Char} (h : cs ≠ []) : 0 < byteLength cs := by
  obtain ⟨c, cs, rfl⟩ := List.exists_cons_of_ne_nil h
  have := c.utf8Size_pos
  rw [byteLength_cons]
  omega

theorem exists_start_of_mem_place (hls : ∀ l ∈ ls, l.text ≠ []) (ht : t ∈ place file offset ls) :
    ∃ n, offset ≤ n ∧ n < offset + Text.byteLength (ls.flatMap Lexeme.text) ∧
      t.start = ⟨.ofNat n, file⟩ := by
  induction ls generalizing offset with
  | nil => cases ht
  | cons l ls ih =>
    have hl := Text.byteLength_pos (hls l List.mem_cons_self)
    rw [List.flatMap_cons, Text.byteLength_append]
    have hrest (ht : t ∈ place file (offset + Text.byteLength l.text) ls) : ∃ n, offset ≤ n ∧
        n < offset + (Text.byteLength l.text + Text.byteLength (ls.flatMap Lexeme.text)) ∧
        t.start = ⟨.ofNat n, file⟩ := by
      obtain ⟨n, hn, hn', hs⟩ := ih (fun l' hl' => hls l' (List.mem_cons_of_mem _ hl')) ht
      exact ⟨n, by omega, by omega, hs⟩
    rw [place] at ht
    split at ht
    · exact hrest ht
    · rcases List.mem_cons.1 ht with rfl | ht
      · exact ⟨offset, Nat.le_refl _, by omega, rfl⟩
      · exact hrest ht

theorem pairwise_place (hls : ∀ l ∈ ls, l.text ≠ [])
    (h : offset + Text.byteLength (ls.flatMap Lexeme.text) < UInt32.size) :
    (place file offset ls).Pairwise fun t t' => t.start.offset < t'.start.offset := by
  induction ls generalizing offset with
  | nil => exact .nil
  | cons l ls ih =>
    have hl := Text.byteLength_pos (hls l List.mem_cons_self)
    have hls' : ∀ l' ∈ ls, l'.text ≠ [] := fun l' hl' => hls l' (List.mem_cons_of_mem _ hl')
    rw [List.flatMap_cons, Text.byteLength_append, ← Nat.add_assoc] at h
    rw [place]
    split
    · exact ih hls' h
    · refine List.pairwise_cons.2 ⟨?_, ih hls' h⟩
      intro t ht
      obtain ⟨n, hn, hn', hs⟩ := exists_start_of_mem_place hls' ht
      rw [hs]
      exact (UInt32.ofNat_lt_iff_lt (by omega) (by omega)).2 (by omega)

/-- The tokens of a source start one behind another, the end token behind all others. -/
theorem pairwise_start_tokenize (h : Text.byteLength source.toList < UInt32.size)
    (file : Option String) :
    (tokenize source file).Pairwise fun t t' => t.start.offset < t'.start.offset := by
  have hls : ∀ l ∈ lexemes source.toList, l.text ≠ [] := fun _ => text_ne_nil_of_mem_lexemes
  have hlen := congrArg Text.byteLength (flatMap_text_lexemes source.toList)
  refine List.pairwise_append.2 ⟨pairwise_place hls (by omega), List.pairwise_singleton _ _, ?_⟩
  intro t ht t' ht'
  obtain ⟨n, -, hn, hs⟩ := exists_start_of_mem_place hls ht
  rw [hs, List.mem_singleton.1 ht']
  exact (UInt32.ofNat_lt_iff_lt (by omega) h).2 (by omega)

theorem file_of_mem_tokenize {file : Option String} (h : t ∈ tokenize source file) :
    t.start.file = file.getD defaultFile := by
  have hls : ∀ l ∈ lexemes source.toList, l.text ≠ [] := fun _ => text_ne_nil_of_mem_lexemes
  rcases List.mem_append.1 h with h | h
  · obtain ⟨n, -, -, hs⟩ := exists_start_of_mem_place hls h
    rw [hs]
  · rw [List.mem_singleton.1 h]
    rfl

end MonkeySyntax
