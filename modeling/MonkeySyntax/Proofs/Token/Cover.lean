import MonkeySyntax.Proofs.Text.Encoding
import MonkeySyntax.Proofs.Token.LongestMatch
import MonkeySyntax.Proofs.Token.Order

/-! # What tokens cover

The spans of the tokens of a source cover all of it but the blanks. Each span is where the text of
its token stands, so the texts of the tokens, one after another, are the source without its blanks.
-/

namespace MonkeySyntax

def Span.Holds (s : Span) (n : Nat) : Prop := s.start.offset.toNat ≤ n ∧ n < s.stop.offset.toNat

/-- The text of the token is the part of the source from the start to the end of the span. -/
def Token.StandsIn (source : String) (t : Token) : Prop :=
  ∃ before behind : String, source = before ++ t.literal ++ behind ∧
    before.utf8ByteSize = t.span.start.offset.toNat ∧
    (before ++ t.literal).utf8ByteSize = t.span.stop.offset.toNat

/-- The tokens hold all of a source but its blanks, and the end token stands behind the others. -/
structure Covers (source file : String) (ts : List Token) : Prop where
  /-- No span starts before those in front of it have ended. -/
  ordered : ts.Pairwise fun t t' => t.span.stop.offset.toNat ≤ t'.span.start.offset.toNat
  standsIn : ∀ t ∈ ts, t.StandsIn source
  nonempty : ∀ t ∈ ts.dropLast, t.span.start.offset.toNat < t.span.stop.offset.toNat
  /-- The bytes outside all spans are the blanks. -/
  isBlank_iff : ∀ n b, source.toUTF8.data[n]? = some b →
    (Text.isBlankByte b = true ↔ ∀ t ∈ ts, ¬ t.span.Holds n)
  ending : ∃ t, ts.getLast? = some t ∧ t.kind = .eof ∧ t.literal = "" ∧
    t.span.start.offset.toNat = source.utf8ByteSize ∧
    t.span.stop.offset.toNat = source.utf8ByteSize
  kind_ne_eof : ∀ t ∈ ts.dropLast, t.kind ≠ .eof
  literals : ts.flatMap (·.literal.toList) = source.toList.filter fun c => !isBlank c
  length_le : ts.length ≤ source.utf8ByteSize + 1
  file_eq : ∀ t ∈ ts, t.span.start.file = file ∧ t.span.stop.file = file

/-! ### Lexemes -/

theorem InClass.isBlank_eq_false {text : List Char} {kind : TokenKind} (h : InClass text kind) :
    ∀ c ∈ text, isBlank c = false := by
  intro c hc
  cases h with
  | word _ h => exact isBlank_eq_false_of_isWordChar (h c hc)
  | digits _ h => exact isBlank_eq_false_of_isDigit (h c hc)
  | symbol h => exact (not_class_of_mem_symbols _ h c hc).1

theorem Lexeme.isBlank_front (c : Char) (cs : List Char) :
    ∀ d ∈ (front c cs).text, isBlank d = (front c cs).kind?.isNone := by
  cases hb : isBlank c with
  | true =>
    rw [front_of_blank hb]
    intro d hd
    exact List.mem_takeWhile_imp hd
  | false =>
    intro d hd
    rcases front_longest hb cs with ⟨kind, hk, hl⟩ | ⟨hf, -⟩
    · rw [hk]
      exact hl.inClass.isBlank_eq_false d hd
    · rw [hf] at hd ⊢
      rw [List.mem_singleton.1 hd, hb]
      rfl

theorem isBlank_of_mem_lexemes {cs : List Char} {l : Lexeme} (h : l ∈ lexemes cs) :
    ∀ c ∈ l.text, isBlank c = l.kind?.isNone := by
  fun_induction lexemes cs with
  | case1 => cases h
  | case2 c cs l' ih =>
    rcases List.mem_cons.1 h with rfl | h
    · exact Lexeme.isBlank_front c cs
    · exact ih h

/-- A lexeme that makes a token of its text, or holds only blanks. -/
structure Lexeme.Tidy (l : Lexeme) : Prop where
  text_ne_nil : l.text ≠ []
  isBlank_eq : ∀ c ∈ l.text, isBlank c = l.kind?.isNone

theorem tidy_of_mem_lexemes {cs : List Char} {l : Lexeme} (h : l ∈ lexemes cs) : l.Tidy :=
  ⟨text_ne_nil_of_mem_lexemes h, isBlank_of_mem_lexemes h⟩

/-! ### Placed tokens -/

section Place

variable {file : String} {offset : Nat} {ls : List Lexeme} {t : Token}

theorem exists_lexeme_of_mem_place (h : t ∈ place file offset ls) :
    ∃ before l behind kind, ls = before ++ l :: behind ∧ t = Token.atOffset file
      (offset + Text.byteLength (before.flatMap Lexeme.text)) kind l.text := by
  induction ls generalizing offset with
  | nil => cases h
  | cons l ls ih =>
    have hrest (h : t ∈ place file (offset + Text.byteLength l.text) ls) :
        ∃ before l' behind kind, l :: ls = before ++ l' :: behind ∧ t = Token.atOffset file
          (offset + Text.byteLength (before.flatMap Lexeme.text)) kind l'.text := by
      obtain ⟨before, l', behind, kind, rfl, rfl⟩ := ih h
      refine ⟨l :: before, l', behind, kind, rfl, ?_⟩
      simp [Nat.add_assoc]
    rw [place] at h
    split at h
    · exact hrest h
    · next kind _ =>
      rcases List.mem_cons.1 h with rfl | h
      · exact ⟨[], l, ls, kind, rfl, rfl⟩
      · exact hrest h

theorem start_atOffset {n : Nat} (kind : TokenKind) {text : List Char} (h : n < UInt32.size) :
    (Token.atOffset file n kind text).span.start.offset.toNat = n :=
  UInt32.toNat_ofNat_of_lt' h

theorem stop_atOffset {n : Nat} (kind : TokenKind) {text : List Char}
    (h : n + Text.byteLength text < UInt32.size) :
    (Token.atOffset file n kind text).span.stop.offset.toNat = n + Text.byteLength text :=
  UInt32.toNat_ofNat_of_lt' h

variable (hls : ∀ l ∈ ls, l.Tidy)
  (hlen : offset + Text.byteLength (ls.flatMap Lexeme.text) < UInt32.size)

include hls hlen

theorem bounds_of_mem_place (ht : t ∈ place file offset ls) :
    offset ≤ t.span.start.offset.toNat ∧ t.span.start.offset.toNat < t.span.stop.offset.toNat ∧
      t.span.stop.offset.toNat ≤ offset + Text.byteLength (ls.flatMap Lexeme.text) := by
  obtain ⟨before, l, behind, kind, rfl, rfl⟩ := exists_lexeme_of_mem_place ht
  have hl := Text.byteLength_pos (hls l (by simp)).text_ne_nil
  simp only [List.flatMap_append, List.flatMap_cons, Text.byteLength_append] at hlen ⊢
  rw [start_atOffset kind (by omega), stop_atOffset kind (by omega)]
  omega

/-- The bytes of the lexemes that are outside the spans of their tokens are the blanks. -/
theorem isBlankByte_iff_of_place {n : Nat} {b : UInt8}
    (hb : (Text.bytes (ls.flatMap Lexeme.text))[n]? = some b) :
    Text.isBlankByte b = true ↔ ∀ t ∈ place file offset ls, ¬ t.span.Holds (offset + n) := by
  induction ls generalizing offset n with
  | nil => simp [Text.bytes] at hb
  | cons l ls ih =>
    have hl := hls l List.mem_cons_self
    have hls' : ∀ l' ∈ ls, l'.Tidy := fun l' h => hls l' (List.mem_cons_of_mem l h)
    rw [List.flatMap_cons, Text.byteLength_append] at hlen
    have hlen' : offset + Text.byteLength l.text +
        Text.byteLength (ls.flatMap Lexeme.text) < UInt32.size := by omega
    rw [List.flatMap_cons, Text.bytes_append] at hb
    rcases Nat.lt_or_ge n (Text.byteLength l.text) with hn | hn
    · -- the byte is in the first lexeme, and the later spans start behind it
      have hrest : ∀ t ∈ place file (offset + Text.byteLength l.text) ls,
          ¬ t.span.Holds (offset + n) := by
        rintro t ht ⟨hle, -⟩
        have := (bounds_of_mem_place hls' hlen' ht).1
        omega
      rw [List.getElem?_append_left (by rwa [Text.length_bytes])] at hb
      rw [Text.isBlankByte_of_mem_bytes hl.isBlank_eq (List.mem_of_getElem? hb), place]
      cases l.kind? with
      | none => simpa using hrest
      | some kind =>
        simp only [Option.isNone_some, Bool.false_eq_true, false_iff, not_forall, not_not]
        refine ⟨_, List.mem_cons_self, ?_⟩
        rw [Span.Holds, start_atOffset kind (by omega), stop_atOffset kind (by omega)]
        omega
    · -- the byte is behind the first lexeme, and so behind the span of its token
      rw [List.getElem?_append_right (by rwa [Text.length_bytes]), Text.length_bytes] at hb
      rw [ih hls' hlen' hb, place, Nat.add_assoc, Nat.add_sub_cancel' hn]
      cases l.kind? with
      | none => rfl
      | some kind =>
        have hfirst : ¬ (Token.atOffset file offset kind l.text).span.Holds (offset + n) := by
          rw [Span.Holds, start_atOffset kind (by omega), stop_atOffset kind (by omega)]
          omega
        simp [hfirst]

theorem pairwise_stop_place : (place file offset ls).Pairwise
    fun t t' => t.span.stop.offset.toNat ≤ t'.span.start.offset.toNat := by
  induction ls generalizing offset with
  | nil => exact .nil
  | cons l ls ih =>
    have hls' : ∀ l' ∈ ls, l'.Tidy := fun l' h => hls l' (List.mem_cons_of_mem l h)
    rw [List.flatMap_cons, Text.byteLength_append] at hlen
    have hlen' : offset + Text.byteLength l.text +
        Text.byteLength (ls.flatMap Lexeme.text) < UInt32.size := by omega
    rw [place]
    split
    · exact ih hls' hlen'
    · apply List.pairwise_cons.2
      refine ⟨?_, ih hls' hlen'⟩
      intro t ht
      rw [stop_atOffset _ (by omega)]
      exact (bounds_of_mem_place hls' hlen' ht).1

omit hlen in
theorem literals_place : (place file offset ls).flatMap (·.literal.toList) =
    (ls.flatMap Lexeme.text).filter fun c => !isBlank c := by
  induction ls generalizing offset with
  | nil => rfl
  | cons l ls ih =>
    have hl := (hls l List.mem_cons_self).isBlank_eq
    rw [place, List.flatMap_cons, List.filter_append]
    split
    · next hk =>
      have hnone : l.text.filter (fun c => !isBlank c) = [] := by
        apply List.filter_eq_nil_iff.2
        intro c hc
        simp [hl c hc, hk]
      rw [hnone, List.nil_append]
      exact ih fun l' h => hls l' (List.mem_cons_of_mem l h)
    · next kind hk =>
      have hall : l.text.filter (fun c => !isBlank c) = l.text := by
        apply List.filter_eq_self.2
        intro c hc
        simp [hl c hc, hk]
      rw [hall, List.flatMap_cons, ih fun l' h => hls l' (List.mem_cons_of_mem l h)]
      simp [Token.atOffset]

omit hlen in
theorem length_place_le :
    (place file offset ls).length ≤ Text.byteLength (ls.flatMap Lexeme.text) := by
  induction ls generalizing offset with
  | nil => exact Nat.le_refl _
  | cons l ls ih =>
    have hl := Text.byteLength_pos (hls l List.mem_cons_self).text_ne_nil
    have hrest : (place file (offset + Text.byteLength l.text) ls).length ≤
        Text.byteLength (ls.flatMap Lexeme.text) :=
      ih fun l' h => hls l' (List.mem_cons_of_mem l h)
    rw [place, List.flatMap_cons, Text.byteLength_append]
    split
    · omega
    · rw [List.length_cons]
      omega

end Place

/-! ### The tokens of a source -/

theorem standsIn_of_mem_place {file source : String} {t : Token}
    (hlen : Text.byteLength source.toList < UInt32.size)
    (ht : t ∈ place file 0 (lexemes source.toList)) : t.StandsIn source := by
  obtain ⟨before, l, behind, kind, hls, rfl⟩ := exists_lexeme_of_mem_place ht
  have htext := flatMap_text_lexemes source.toList
  rw [hls, List.flatMap_append, List.flatMap_cons, ← List.append_assoc] at htext
  rw [← htext] at hlen
  simp only [Text.byteLength_append] at hlen
  rw [Nat.zero_add]
  refine ⟨.ofList (before.flatMap Lexeme.text), .ofList (behind.flatMap Lexeme.text), ?_, ?_, ?_⟩
  · rw [← String.toList_inj, ← htext]
    simp [Token.atOffset]
  · rw [start_atOffset kind (by omega), ← Text.byteLength_toList, String.toList_ofList]
  · rw [stop_atOffset kind (by omega), ← Text.byteLength_toList]
    simp [Token.atOffset]

/-- The tokens of a source of less than 2³² bytes cover it without its blanks, and they carry its
name, which is `shell` if it has none. -/
theorem covers_tokenize (source : String) (file : Option String)
    (h : source.utf8ByteSize < UInt32.size) :
    Covers source (file.getD "shell") (tokenize source file) := by
  have hlen : Text.byteLength source.toList < UInt32.size := by rwa [Text.byteLength_toList]
  have htext := flatMap_text_lexemes source.toList
  have htidy : ∀ l ∈ lexemes source.toList, l.Tidy := fun _ => tidy_of_mem_lexemes
  have hplace : 0 + Text.byteLength ((lexemes source.toList).flatMap Lexeme.text) <
      UInt32.size := by
    rwa [htext, Nat.zero_add]
  have hend (file : String) :
      (Token.ending file source.toList).span.start.offset.toNat = source.utf8ByteSize ∧
        (Token.ending file source.toList).span.stop.offset.toNat = source.utf8ByteSize := by
    rw [Token.ending, start_atOffset .eof hlen, stop_atOffset .eof (by simpa using hlen)]
    simp [Text.byteLength_toList]
  have hts : tokenize source file = place (file.getD "shell") 0 (lexemes source.toList) ++
      [Token.ending (file.getD "shell") source.toList] := rfl
  generalize file.getD "shell" = f at hts ⊢
  have hbounds {t : Token} (ht : t ∈ place f 0 (lexemes source.toList)) :=
    bounds_of_mem_place htidy hplace ht
  rw [htext, Text.byteLength_toList, Nat.zero_add] at hbounds
  rw [hts]
  constructor
  case ordered =>
    apply List.pairwise_append.2
    refine ⟨pairwise_stop_place htidy hplace, List.pairwise_singleton _ _, ?_⟩
    intro t ht t' ht'
    rw [List.mem_singleton.1 ht', (hend f).1]
    exact (hbounds ht).2.2
  case standsIn =>
    intro t ht
    rcases List.mem_append.1 ht with ht | ht
    · exact standsIn_of_mem_place hlen ht
    · obtain rfl := List.mem_singleton.1 ht
      refine ⟨source, "", ?_, (hend f).1.symm, ?_⟩
      · simp [Token.ending, Token.atOffset]
      · rw [(hend f).2]
        simp [Token.ending, Token.atOffset]
  case nonempty =>
    rw [List.dropLast_concat]
    intro t ht
    exact (hbounds ht).2.1
  case isBlank_iff =>
    intro n b hb
    rw [← Array.getElem?_toList, ← Text.bytes_toList, ← htext] at hb
    have hiff : Text.isBlankByte b = true ↔
        ∀ t ∈ place f 0 (lexemes source.toList), ¬ t.span.Holds (0 + n) :=
      isBlankByte_iff_of_place htidy hplace hb
    rw [Nat.zero_add] at hiff
    have hlast : ¬ (Token.ending f source.toList).span.Holds n := by
      rintro ⟨hle, hlt⟩
      rw [(hend f).1] at hle
      rw [(hend f).2] at hlt
      omega
    simp [hiff, or_imp, forall_and, hlast]
  case ending =>
    exact ⟨_, List.getLast?_concat, rfl, rfl, hend f⟩
  case kind_ne_eof =>
    rw [List.dropLast_concat]
    intro t
    exact kind_ne_eof_of_mem_place fun _ => kind?_ne_eof_of_mem_lexemes
  case literals =>
    rw [List.flatMap_append, literals_place htidy, htext]
    simp [Token.ending, Token.atOffset]
  case length_le =>
    have hle : (place f 0 (lexemes source.toList)).length ≤
        Text.byteLength ((lexemes source.toList).flatMap Lexeme.text) :=
      length_place_le htidy
    rw [htext, Text.byteLength_toList] at hle
    rw [List.length_append]
    exact Nat.add_le_add_right hle 1
  case file_eq =>
    intro t ht
    rcases List.mem_append.1 ht with ht | ht
    · obtain ⟨before, l, behind, kind, -, rfl⟩ := exists_lexeme_of_mem_place ht
      exact ⟨rfl, rfl⟩
    · rw [List.mem_singleton.1 ht]
      exact ⟨rfl, rfl⟩

theorem covers_tokenize_accent :
    "x\t== é\n".utf8ByteSize < UInt32.size ∧
      Covers "x\t== é\n" "shell" (tokenize "x\t== é\n" none) ∧
      (tokenize "x\t== é\n" none).map (fun t => (t.kind, t.literal, t.span.stop.offset)) =
        [(.identifier, "x", 1), (.equal, "==", 4), (.illegal, "é", 7), (.eof, "", 8)] :=
  ⟨by decide, covers_tokenize "x\t== é\n" none (by decide), by decide +kernel⟩

end MonkeySyntax
