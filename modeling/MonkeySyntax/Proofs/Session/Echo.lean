import MonkeySyntax.Proofs.Session.Transcript
import MonkeySyntax.Proofs.Text.Unescape
import MonkeySyntax.Proofs.Token.Spelling

/-! # Reading echoed tokens

What a session prints for the tokens of a line can be read back: newlines end the tokens, the name
of a kind ends at the first comma, and the text of a token is what is quoted behind it.
-/

namespace MonkeySyntax.Session

def readToken? (shown : List Char) : Option (TokenKind × String) := do
  let named ← shown.dropPrefix? "Token \x7b kind: ".toList
  let kind ← TokenKind.ofName? (.ofList (named.takeWhile (· ≠ ',')))
  let quoted ← (named.dropWhile (· ≠ ',')).dropPrefix? ", literal: \"".toList
  let escaped ← quoted.dropSuffix? "\" \x7d".toList
  let text ← Text.unescape? .plain escaped
  return (kind, .ofList text)

/-- Read the kinds and the texts of tokens that are shown, each on a line of its own. -/
def readEcho? (echo : String) : Option (List (TokenKind × String)) :=
  (echo.toList.splitOn '\n').dropLast.mapM readToken?

variable {line line' : String} {file : Option String} {input input' : List UInt8}

/-! ### One token -/

theorem comma_not_mem_name (k : TokenKind) : ',' ∉ k.name.toList := by
  cases k <;> decide

theorem span_name (k : TokenKind) (cs : List Char) :
    (k.name.toList ++ ',' :: cs).takeWhile (· ≠ ',') = k.name.toList ∧
      (k.name.toList ++ ',' :: cs).dropWhile (· ≠ ',') = ',' :: cs := by
  have hname : ∀ c ∈ k.name.toList, decide (c ≠ ',') = true := by
    intro c hc
    exact decide_eq_true fun h => comma_not_mem_name k (h ▸ hc)
  rw [List.takeWhile_append_of_pos hname, List.dropWhile_append_of_pos hname]
  simp

theorem readToken?_display (t : Token) : readToken? t.display.toList = some t.entry := by
  let escaped := t.literal.toList.flatMap Text.escape
  let quoted := escaped ++ "\" \x7d".toList
  let literal := " literal: \"".toList ++ quoted
  have hshown : t.display.toList =
      "Token \x7b kind: ".toList ++ (t.kind.name.toList ++ ',' :: literal) := by
    unfold Token.display Text.quote
    simp [literal, quoted, escaped]
  have hnamed : t.display.toList.dropPrefix? "Token \x7b kind: ".toList =
      some (t.kind.name.toList ++ ',' :: literal) := by
    rw [hshown]
    exact List.dropPrefix?_append_of_beq _ BEq.rfl
  obtain ⟨hname, hliteral⟩ := span_name t.kind literal
  have hquoted : (',' :: literal).dropPrefix? ", literal: \"".toList = some quoted :=
    List.dropPrefix?_append_of_beq quoted BEq.rfl
  have hescaped : quoted.dropSuffix? "\" \x7d".toList = some escaped :=
    List.dropSuffix?_eq_some_iff.2 ⟨_, rfl, BEq.rfl⟩
  have htext : Text.unescape? .plain escaped = some t.literal.toList :=
    Text.unescape?_flatMap_escape _
  simp only [readToken?, hnamed, hname, hliteral, hquoted, hescaped, htext, String.ofList_toList,
    TokenKind.ofName?_name, Option.bind_eq_bind, Option.bind_some]
  rfl

/-! ### Lines of tokens -/

theorem splitOn_flatMap_append {α : Type} [DecidableEq α] {a : α} {ls : List (List α)}
    (h : ∀ l ∈ ls, a ∉ l) : (ls.flatMap (· ++ [a])).splitOn a = ls ++ [[]] := by
  induction ls with
  | nil => rfl
  | cons l ls ih =>
    obtain ⟨hl, hls⟩ := List.forall_mem_cons.1 h
    rw [List.flatMap_cons, List.append_assoc, List.singleton_append,
      List.splitOn_append_cons_self_of_not_mem hl, ih hls, List.cons_append]

theorem readEcho?_join (ts : List Token) :
    readEcho? (String.join (ts.map fun t => t.display ++ "\n")) = some (ts.map Token.entry) := by
  have hlines : (String.join (ts.map fun t => t.display ++ "\n")).toList =
      (ts.map (·.display.toList)).flatMap (· ++ ['\n']) := by
    simp [String.toList_join, List.flatMap_map]
  have hnewline : ∀ l ∈ ts.map (·.display.toList), '\n' ∉ l :=
    List.forall_mem_map.2 fun t _ => newline_not_mem_display t
  have hread : readToken? ∘ (fun t : Token => t.display.toList) = fun t => some t.entry :=
    funext readToken?_display
  rw [readEcho?, hlines, splitOn_flatMap_append hnewline, List.dropLast_concat, List.mapM_map,
    hread]
  exact List.mapM_pure

theorem printed_tokens (file : Option String) (line : String) : printed .tokens file line =
    String.join ((tokenize line file).dropLast.map fun t => t.display ++ "\n") := by
  rw [printed, filter_tokenize, dropLast_tokenize]

theorem readEcho?_printed (file : Option String) (line : String) :
    readEcho? (printed .tokens file line) =
      some ((tokenize line file).dropLast.map Token.entry) := by
  rw [printed_tokens, readEcho?_join]

/-! ### Sessions on one line -/

theorem map_entry_eq_iff :
    (tokenize line file).map Token.entry = (tokenize line' file).map Token.entry ↔
      (tokenize line file).dropLast.map Token.entry =
        (tokenize line' file).dropLast.map Token.entry := by
  have hending (line : String) : (tokenize line file).map Token.entry =
      (tokenize line file).dropLast.map Token.entry ++ [(.eof, "")] := by
    rw [dropLast_tokenize, tokenize, TokenStream.toList, List.map_append]
    rfl
  rw [hending, hending, List.append_left_inj]

theorem printed_eq_iff : printed .tokens file line = printed .tokens file line' ↔
    (tokenize line file).map Token.entry = (tokenize line' file).map Token.entry := by
  rw [map_entry_eq_iff]
  constructor
  · intro h
    have hread := congrArg readEcho? h
    rw [readEcho?_printed, readEcho?_printed] at hread
    exact Option.some.inj hread
  · intro h
    have hshown (ts : List Token) : ts.map (fun t => t.display ++ "\n") =
        (ts.map Token.entry).map fun e => (Token.plain e.1 e.2).display ++ "\n" := by
      rw [List.map_map]
      rfl
    rw [printed_tokens, printed_tokens, hshown, hshown, h]

theorem output_of_line (file : Option String) (h : Splits input [encode line]) :
    (run .tokens none input).output =
      (">> " ++ printed .tokens file line ++ ">> ").toByteArray := by
  have hlines : Splits input ([line].map encode) := h
  rw [(run_of_texts .tokens file hlines).2, transcript, List.map_singleton, String.join_cons,
    String.join_nil, String.append_empty]

/-- What a session prints for the tokens of a line can be read back: their kinds and texts. So two
sessions of a line each print the same bytes exactly if the tokens of the lines have the same kinds
and texts, one after another. -/
theorem echo_lossless (file : Option String) (h : Splits input [encode line])
    (h' : Splits input' [encode line']) :
    (∃ echo, (run .tokens none input).output = (">> " ++ echo ++ ">> ").toByteArray ∧
      readEcho? echo = some ((tokenize line file).dropLast.map Token.entry)) ∧
    ((run .tokens none input).output = (run .tokens none input').output ↔
      (tokenize line file).map Token.entry = (tokenize line' file).map Token.entry) := by
  refine ⟨⟨_, output_of_line file h, readEcho?_printed file line⟩, ?_⟩
  rw [output_of_line file h, output_of_line file h', String.toByteArray_inj, ← printed_eq_iff,
    String.append_left_inj, String.append_right_inj]

/-- A mark that is escaped and the text of its escape are not echoed alike. -/
theorem echo_lossless_escapes :
    Splits (encode "\\u\x7b301\x7d\n") [encode "\\u\x7b301\x7d"] ∧
      Splits (encode "\u0301\"\n") [encode "\u0301\""] ∧
      (run .tokens none (encode "\\u\x7b301\x7d\n")).output ≠
        (run .tokens none (encode "\u0301\"\n")).output := by
  have h : Splits (encode "\\u\x7b301\x7d\n") [encode "\\u\x7b301\x7d"] :=
    splits_iff.2 (by decide +kernel)
  have h' : Splits (encode "\u0301\"\n") [encode "\u0301\""] := splits_iff.2 (by decide +kernel)
  refine ⟨h, h', fun heq => ?_⟩
  have hentries := (echo_lossless none h h').2.1 heq
  exact absurd hentries (by decide +kernel)

end MonkeySyntax.Session
