import MonkeySyntax.Diagnostic
import MonkeySyntax.Proofs.Program.Location
import MonkeySyntax.Proofs.Text.Lines
import MonkeySyntax.Proofs.Token.Spelling

/-! # The caret of a diagnostic

The diagnostic of an error shows the line of its token, and the caret stands under the first
character of that token. The line is cut where the blanks at its front end and where the token
starts, so that nothing has to be counted in bytes.
-/

namespace MonkeySyntax

namespace Diagnostic

open Text

/-- A numbered line that is cut behind the blanks at its front, and again at a place further on.
What it shows ends before the white space at its end. -/
structure CutLine where
  number : Nat
  indent : List Char
  front : List Char
  back : List Char
  shown : List Char
  trailing : List Char
  isIndent_of_mem : ∀ c ∈ indent, isIndent c = true
  isIndent_head : ∀ c ∈ (front ++ back).head?, isIndent c = false
  append_eq : front ++ back = shown ++ trailing
  isWhiteSpace_of_mem : ∀ c ∈ trailing, isWhiteSpace c = true
  isWhiteSpace_getLast : ∀ c ∈ shown.getLast?, isWhiteSpace c = false

namespace CutLine

def place (x : CutLine) : Place :=
  ⟨x.number, x.indent ++ (x.front ++ x.back), byteLength (x.indent ++ x.front)⟩

/-- The line with its number between two bars, and a caret behind as many dashes as there are
characters between its blanks and the place. -/
def text (x : CutLine) : String :=
  let number := Nat.repr x.number
  let margin := String.ofList (List.replicate (number.length + 1) ' ')
  margin ++ "|\n" ++ number ++ " | " ++ .ofList x.shown ++ "\n" ++
    margin ++ "| " ++ .ofList (List.replicate x.front.length '-') ++ "^\n"

/-! ### Cutting a line -/

theorem span_of_head? {p : Char → Bool} {cs : List Char} (h : ∀ c ∈ cs.head?, p c = false) :
    cs.takeWhile p = [] ∧ cs.dropWhile p = cs := by
  cases cs with
  | nil => exact ⟨rfl, rfl⟩
  | cons c cs => simp [h c rfl]

theorem head?_dropWhile {p : Char → Bool} (cs : List Char) :
    ∀ c ∈ (cs.dropWhile p).head?, p c = false := by
  intro c hc
  have hnot := List.head?_dropWhile_not p cs
  rw [hc] at hnot
  exact hnot

theorem indentOf_place (x : CutLine) : indentOf x.place.line = x.indent := by
  rw [place, indentOf, List.takeWhile_append_of_pos x.isIndent_of_mem,
    (span_of_head? x.isIndent_head).1, List.append_nil]

theorem dropIndent_place (x : CutLine) : dropIndent x.place.line = x.front ++ x.back := by
  rw [place, dropIndent, List.dropWhile_append_of_pos x.isIndent_of_mem,
    (span_of_head? x.isIndent_head).2]

theorem trimEnd_place (x : CutLine) : trimEnd (dropIndent x.place.line) = x.shown := by
  have htrailing : ∀ c ∈ x.trailing.reverse, isWhiteSpace c = true := by
    intro c hc
    exact x.isWhiteSpace_of_mem c (List.mem_reverse.1 hc)
  have hshown : ∀ c ∈ x.shown.reverse.head?, isWhiteSpace c = false := by
    rw [List.head?_reverse]
    exact x.isWhiteSpace_getLast
  rw [dropIndent_place, x.append_eq, trimEnd, List.reverse_append,
    List.dropWhile_append_of_pos htrailing, (span_of_head? hshown).2, List.reverse_reverse]

theorem splitAt?_place (x : CutLine) :
    splitAt? x.place.column x.place.line = some (x.indent ++ x.front, x.back) := by
  rw [place, ← List.append_assoc]
  exact splitAt?_byteLength _ _

theorem characterColumn_place (x : CutLine) :
    characterColumn x.place = x.indent.length + x.front.length := by
  rw [characterColumn, splitAt?_place]
  exact List.length_append

theorem caretColumn_place (x : CutLine) : caretColumn x.place = x.front.length := by
  rw [caretColumn, characterColumn_place, indentOf_place, Nat.add_sub_cancel_left]

theorem excerpt_place (x : CutLine) : excerpt x.place = x.text := by
  have hpad (n : Nat) (fill c : Char) : String.ofList (padLeft (n + 1) fill [c]) =
      .ofList (List.replicate n fill) ++ .ofList [c] := by
    rw [padLeft, String.ofList_append]
    rfl
  have hnumber : x.place.number = x.number := rfl
  unfold excerpt text
  simp only [trimEnd_place, caretColumn_place, hpad, hnumber, ← String.toList_inj]
  simp

theorem exists_eq_trimEnd_append (cs : List Char) : ∃ trailing, cs = trimEnd cs ++ trailing ∧
    (∀ c ∈ trailing, isWhiteSpace c = true) ∧
    ∀ c ∈ (trimEnd cs).getLast?, isWhiteSpace c = false := by
  refine ⟨(cs.reverse.takeWhile isWhiteSpace).reverse, ?_, ?_, ?_⟩
  · rw [trimEnd, ← List.reverse_append, List.takeWhile_append_dropWhile, List.reverse_reverse]
  · intro c hc
    exact List.mem_takeWhile_imp (List.mem_reverse.1 hc)
  · rw [trimEnd, List.getLast?_reverse]
    exact head?_dropWhile cs.reverse

/-- A line can be cut at any place that no blank of its front stands at. -/
theorem exists_place_eq (number : Nat) (before : List Char) {back : List Char}
    (h : ∀ c ∈ back.head?, isIndent c = false) :
    ∃ x : CutLine, x.place = ⟨number, before ++ back, byteLength before⟩ ∧ x.back = back := by
  obtain ⟨trailing, happ, htrailing, hlast⟩ := exists_eq_trimEnd_append (dropIndent before ++ back)
  have hhead : ∀ c ∈ (dropIndent before ++ back).head?, isIndent c = false := by
    intro c hc
    rw [List.head?_append] at hc
    rcases Option.or_eq_some_iff.1 hc with hc | ⟨-, hc⟩
    · exact head?_dropWhile before c hc
    · exact h c hc
  refine ⟨⟨number, indentOf before, dropIndent before, back, _, trailing,
    fun c hc => List.mem_takeWhile_imp hc, hhead, happ, htrailing, hlast⟩, ?_, rfl⟩
  rw [place, ← List.append_assoc, indentOf_append_dropIndent]

end CutLine

end Diagnostic

/-! ### The line of a token -/

/-- What stands before the text of a token in the source, and what stands behind it. -/
structure Token.Between (source : String) (t : Token) (before behind : List Char) : Prop where
  eq : source.toList = before ++ (t.literal.toList ++ behind)
  byteLength_eq : Text.byteLength before = t.start.offset.toNat
  isBlank_eq : ∀ c ∈ t.literal.toList, isBlank c = false
  eof_iff : t.kind = .eof ↔ t.literal.toList = []
  behind_eq : t.kind = .eof → behind = []

variable {source : String} {file : Option String} {t : Token} {before behind : List Char}

theorem literal_ne_of_mem_dropLast (ht : t ∈ (tokenize source file).dropLast) :
    t.literal.toList ≠ [] := by
  rw [dropLast_tokenize] at ht
  obtain ⟨front, l, back, kind, hls, rfl⟩ := exists_lexeme_of_mem_place ht
  have hl : l ∈ lexemes source.toList := by simp [hls]
  simpa [Token.atOffset] using text_ne_nil_of_mem_lexemes hl

theorem exists_between_of_mem_tokenize (hlen : source.utf8ByteSize < UInt32.size)
    (ht : t ∈ tokenize source file) : ∃ before behind, t.Between source before behind := by
  rw [← Text.byteLength_toList] at hlen
  rcases List.mem_append.1 ht with hp | hp
  · have hd : t ∈ (tokenize source file).dropLast := by rwa [dropLast_tokenize]
    have hkind : t.kind ≠ .eof := (TokenStream.ofSource source file).pending_ne_eof t hp
    obtain ⟨before, behind, hs, hstart, -⟩ := standsIn_of_mem_place hlen hp
    refine ⟨before.toList, behind.toList, ?_, ?_, fun c => isBlank_of_mem_literal hd,
      iff_of_false hkind (literal_ne_of_mem_dropLast hd), fun h => absurd h hkind⟩
    · rw [hs]
      simp
    · rw [Text.byteLength_toList, hstart]
      rfl
  · obtain rfl := List.mem_singleton.1 hp
    exact ⟨source.toList, [], (List.append_nil _).symm, (start_atOffset .eof hlen).symm,
      fun c hc => absurd hc List.not_mem_nil, iff_of_true rfl rfl, fun _ => rfl⟩

theorem exists_append_of_byteLength_le {a b c d : List Char} (h : a ++ b = c ++ d)
    (hle : Text.byteLength a ≤ Text.byteLength c) : ∃ m, c = a ++ m ∧ b = m ++ d := by
  rcases List.append_eq_append_iff.1 h with ⟨m, rfl, rfl⟩ | ⟨m, rfl, rfl⟩
  · exact ⟨m, rfl, rfl⟩
  · have hm : m = [] := by
      by_contra hne
      have := Text.byteLength_pos hne
      rw [Text.byteLength_append] at hle
      omega
    rw [hm]
    exact ⟨[], by simp, rfl⟩

theorem prefix_of_newline_not_mem {text line ending rest : List Char}
    (h : text ++ behind = line ++ (ending ++ rest)) (hn : '\n' ∉ text)
    (hending : ending = ['\n'] ∨ ending = [] ∧ rest = []) : text <+: line := by
  rcases hending with rfl | ⟨rfl, rfl⟩
  · rcases List.append_eq_append_iff.1 h with ⟨m, rfl, -⟩ | ⟨m, rfl, hm⟩
    · exact List.prefix_append _ _
    · cases m with
      | nil => exact ⟨[], by simp⟩
      | cons c m =>
        obtain ⟨rfl, -⟩ := List.cons.inj hm
        simp at hn
  · rw [List.append_nil, List.append_nil] at h
    exact ⟨behind, h⟩

/-- The line that holds the start of a token is cut there, and the text of the token is on it. -/
theorem Token.Between.exists_cut {outer line ending rest : List Char}
    (h : t.Between source before behind)
    (ha : Text.Around source.toList t.start.offset.toNat outer line ending rest) :
    ∃ front back, before = outer ++ front ∧ line ++ ending = front ++ back ∧
      t.literal.toList <+: back ∧ (t.kind = .eof → back = []) := by
  have hle := ha.le
  have hadd := ha.le_add
  rw [← h.byteLength_eq] at hle hadd
  have heq : outer ++ (line ++ (ending ++ rest)) = before ++ (t.literal.toList ++ behind) := by
    rw [← h.eq, ha.eq]
    simp
  obtain ⟨front, rfl, hfront⟩ := exists_append_of_byteLength_le heq hle
  rw [Text.byteLength_append] at hadd
  obtain ⟨back, rfl, hback⟩ := exists_append_of_byteLength_le hfront.symm (by omega)
  refine ⟨front, back ++ ending, rfl, List.append_assoc _ _ _, ?_, ?_⟩
  · have hn : '\n' ∉ t.literal.toList := fun hc => absurd (h.isBlank_eq _ hc) (by decide)
    exact (prefix_of_newline_not_mem hback hn ha.ending_cases).trans (List.prefix_append _ _)
  · intro hk
    rw [h.eof_iff.1 hk, h.behind_eq hk] at hback
    have hnil : back ++ (ending ++ rest) = [] := hback.symm
    rw [← List.append_assoc, List.append_eq_nil_iff] at hnil
    exact hnil.1

theorem isIndent_eq_false_of_isBlank {c : Char} (h : isBlank c = false) :
    Text.isIndent c = false := by
  simp only [isBlank, Bool.or_eq_false_iff] at h
  simp [Text.isIndent, h]

theorem Token.Between.isIndent_head {back : List Char} (h : t.Between source before behind)
    (hstarts : t.literal.toList <+: back) (hend : t.kind = .eof → back = []) :
    ∀ c ∈ back.head?, Text.isIndent c = false := by
  obtain ⟨more, rfl⟩ := hstarts
  intro c hc
  by_cases hk : t.kind = .eof
  · rw [hend hk] at hc
    cases hc
  · obtain ⟨d, ds, hd⟩ := List.exists_cons_of_ne_nil (mt h.eof_iff.2 hk)
    rw [hd] at hc
    obtain rfl := Option.some.inj hc
    exact isIndent_eq_false_of_isBlank (h.isBlank_eq d (by simp [hd]))

open Diagnostic in
/-- The line of a token is cut at the token, behind the blanks at its front. -/
theorem exists_cutLine (hlen : source.utf8ByteSize < UInt32.size) (ht : t ∈ tokenize source file) :
    ∃ x : CutLine, Text.lineAt source.toList t.start.offset.toNat = some x.place ∧
      Text.Locates source t.start.offset.toNat x.place ∧ t.literal.toList <+: x.back ∧
      (t.kind = .eof ↔ t.literal.toList = []) ∧ (t.kind = .eof → x.back = []) := by
  obtain ⟨before, behind, hb⟩ := exists_between_of_mem_tokenize hlen ht
  have hle : t.start.offset.toNat ≤ Text.byteLength source.toList := by
    rw [hb.eq, ← hb.byteLength_eq, Text.byteLength_append]
    exact Nat.le_add_right _ _
  obtain ⟨outer, line, ending, rest, ha, hp⟩ := Text.exists_placeIn_lines 1 hle
  obtain ⟨front, back, rfl, hline, hstarts, hend⟩ := hb.exists_cut ha
  have hhead := hb.isIndent_head hstarts hend
  obtain ⟨x, hx, rfl⟩ :=
    CutLine.exists_place_eq (1 + (Text.bytes outer).count 0x0a) front hhead
  have hcolumn : t.start.offset.toNat - Text.byteLength outer = Text.byteLength front := by
    rw [← hb.byteLength_eq, Text.byteLength_append, Nat.add_sub_cancel_left]
  have hl := ha.locates
  rw [hline, hcolumn, ← hx] at hp hl
  exact ⟨x, hp, hl, hstarts, hb.eof_iff, hend⟩

/-! ### The diagnostics of a source -/

namespace Diagnostic

variable {e : SyntaxError} {x : CutLine}

/-- The diagnostic of an error at a token is the line of the source that the error is on, cut where
the token starts. -/
structure Shows (source : String) (e : SyntaxError) (t : Token) (x : CutLine) : Prop where
  lineAt_eq : Text.lineAt source.toList e.position.offset.toNat = some x.place
  locates : Text.Locates source e.position.offset.toNat x.place
  /-- The error is between two characters, so characters are counted and not bytes. -/
  splitAt?_eq :
    Text.splitAt? x.place.column x.place.line = some (x.indent ++ x.front, x.back)
  /-- The error is not among the blanks at the front of the line. -/
  indent_le : (Text.indentOf x.place.line).length ≤ characterColumn x.place
  caretColumn_eq : caretColumn x.place = x.front.length
  render_eq : render e source = "Error: " ++ e.name ++ " (" ++ e.tip ++ ")\n-> " ++
    e.position.file ++ "\n" ++ x.text
  starts_with_literal : t.literal.toList <+: x.back
  /-- The caret is under the first character of the token. -/
  exists_char : t.kind ≠ .eof → ∃ c, t.literal.toList.head? = some c ∧
    (Text.dropIndent x.place.line)[caretColumn x.place]? = some c
  /-- The caret of the end token is behind the last character of the line. -/
  back_eq : t.kind = .eof → x.back = []

theorem render_of_lineAt (h : Text.lineAt source.toList e.position.offset.toNat = some x.place) :
    render e source = "Error: " ++ e.name ++ " (" ++ e.tip ++ ")\n-> " ++ e.position.file ++
      "\n" ++ x.text := by
  unfold render
  rw [h]
  exact congrArg _ x.excerpt_place

theorem CutLine.getElem?_caretColumn (x : CutLine) :
    (Text.dropIndent x.place.line)[caretColumn x.place]? = x.back.head? := by
  rw [dropIndent_place, caretColumn_place, List.getElem?_append_right (Nat.le_refl _), Nat.sub_self,
    List.head?_eq_getElem?]

theorem exists_shows (hlen : source.utf8ByteSize < UInt32.size) (ht : t ∈ tokenize source file)
    (hpos : e.position = t.start) : ∃ x, Shows source e t x := by
  obtain ⟨x, hline, hl, hstarts, heof, hend⟩ := exists_cutLine hlen ht
  rw [← hpos] at hline hl
  refine ⟨x, hline, hl, x.splitAt?_place, ?_, x.caretColumn_place, render_of_lineAt hline, hstarts,
    ?_, hend⟩
  · rw [x.indentOf_place, x.characterColumn_place]
    exact Nat.le_add_right _ _
  · intro hk
    obtain ⟨c, cs, hc⟩ := List.exists_cons_of_ne_nil (mt heof.2 hk)
    obtain ⟨more, hmore⟩ := hstarts
    refine ⟨c, by rw [hc]; rfl, ?_⟩
    rw [x.getElem?_caretColumn, ← hmore, hc]
    rfl

/-- Every error of a source of less than 2³² bytes is at a token that it describes. Its diagnostic
shows the line of that token, from behind the blanks at its front up to the white space at its end,
and its caret is under the first character of the token. -/
theorem caret_at_token (h : source.utf8ByteSize < UInt32.size) (he : e ∈ (parse source file).2) :
    ∃ t ∈ tokenize source file, e.position = t.start ∧ e.cause.Describes t ∧
      ∃ x, Shows source e t x := by
  have hlen : Text.byteLength source.toList < UInt32.size := by rwa [Text.byteLength_toList]
  obtain ⟨-, hall⟩ := Parser.pairwise_faults (p := .ofSource source file) rfl
    (pairwise_start_tokenize hlen file)
  rw [← (Parser.parse_eq_attempts source file).2] at hall
  obtain ⟨-, t, ht, hpos, hd⟩ := hall e he
  exact ⟨t, ht, hpos, hd, exists_shows h ht hpos⟩

theorem caret_at_token_accent :
    "x;\r\n\té; )\r\n".utf8ByteSize < UInt32.size ∧
      (⟨.noOperand .closeParen ")", ⟨9, "f"⟩⟩ : SyntaxError) ∈
        (parse "x;\r\n\té; )\r\n" (some "f")).2 ∧
      render ⟨.noOperand .closeParen ")", ⟨9, "f"⟩⟩ "x;\r\n\té; )\r\n" =
        "Error: NoPrefixParseFn (`)` cannot start an expression)\n-> f\n" ++
          "  |\n2 | é; )\n  | ---^\n" ∧
      ∃ t ∈ tokenize "x;\r\n\té; )\r\n" (some "f"), t.start = ⟨9, "f"⟩ ∧
        ∃ x, Shows "x;\r\n\té; )\r\n" ⟨.noOperand .closeParen ")", ⟨9, "f"⟩⟩ t x := by
  have hlen : "x;\r\n\té; )\r\n".utf8ByteSize < UInt32.size := by decide
  have he : (⟨.noOperand .closeParen ")", ⟨9, "f"⟩⟩ : SyntaxError) ∈
      (parse "x;\r\n\té; )\r\n" (some "f")).2 := by decide +kernel
  obtain ⟨t, ht, hpos, -, hx⟩ := caret_at_token hlen he
  exact ⟨hlen, he, by decide +kernel, t, ht, hpos.symm, hx⟩

end Diagnostic

end MonkeySyntax
