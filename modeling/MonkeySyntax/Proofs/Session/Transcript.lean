import MonkeySyntax.Proofs.Program.Layout
import MonkeySyntax.Proofs.Session.Lines
import MonkeySyntax.Proofs.Text.Quoted

/-! # What a session writes

A session writes what each of its lines prints on its own, one behind another with a prompt before
each, up to the first line that is no text. What a line prints is said without steps and sinks.
-/

namespace MonkeySyntax

/-! ### Texts on one line -/

theorem newline_not_mem_name (k : TokenKind) : '\n' ∉ k.name.toList := by
  cases k <;> decide

theorem newline_not_mem_display (t : Token) : '\n' ∉ t.display.toList := by
  unfold Token.display
  simp [newline_not_mem_name, Text.newline_not_mem_quote]

theorem newline_not_mem_message (e : SyntaxError) : '\n' ∉ e.message.toList := by
  unfold SyntaxError.message SyntaxError.Cause.message
  split
  · simp [newline_not_mem_name]
  · simp [newline_not_mem_name]
  · simp [Text.newline_not_mem_quote]
  · simp [Nat.repr, Text.newline_not_mem_toDigits]

namespace Session

/-- What a line prints: its tokens, each on a line of its own, or its program, or its errors, each
on a line of its own. -/
def printed (mode : Mode) (file : Option String) (line : String) : String :=
  match mode with
  | .tokens =>
    String.join (((tokenize line file).filter (·.kind ≠ .eof)).map fun t => t.display ++ "\n")
  | .parse =>
    if (parse line file).2 = [] then (parse line file).1.text ++ "\n"
    else
      "parser errors:\n" ++
        String.join ((parse line file).2.map fun e => "\t" ++ e.message ++ "\n")

/-- What a session on the lines writes: a prompt and what it prints for each, and a last prompt. -/
def transcript (mode : Mode) (file : Option String) (lines : List String) : String :=
  String.join (lines.map fun line => ">> " ++ printed mode file line) ++ ">> "

variable {steps steps' : List Step}

theorem printed_file (mode : Mode) (file file' : Option String) (line : String) :
    printed mode file line = printed mode file' line := by
  have hbare := map_bare_tokenize line file file'
  cases mode with
  | tokens =>
    have hfilter (file : Option String) :
        ((tokenize line file).filter (·.kind ≠ .eof)).map (fun t => t.display ++ "\n") =
          (((tokenize line file).map Token.bare).filter (·.kind ≠ .eof)).map
            fun t => t.display ++ "\n" := by
      rw [List.filter_map, List.map_map]
      rfl
    rw [printed, printed, hfilter, hfilter, hbare]
  | parse =>
    have hcauses := causes_parse_of_bare_eq hbare
    have hnil : (parse line file).2 = [] ↔ (parse line file').2 = [] := by
      rw [← List.map_eq_nil_iff, hcauses, List.map_eq_nil_iff]
    have hmessages (es : List SyntaxError) : es.map (fun e => "\t" ++ e.message ++ "\n") =
        (es.map (·.cause)).map fun c => "\t" ++ c.message ++ "\n" := by
      rw [List.map_map]
      rfl
    simp only [printed, text_parse_of_bare_eq hbare, hnil, hmessages, hcauses]

/-! ### Steps -/

def Step.text : Step → String
  | .write text => text
  | .note _ | .fail _ => ""

def written (steps : List Step) : String := String.join (steps.map Step.text)

@[simp] theorem written_nil : written [] = "" := rfl

@[simp] theorem written_cons (step : Step) : written (step :: steps) = step.text ++ written steps :=
  String.join_cons

@[simp] theorem written_append : written (steps ++ steps') = written steps ++ written steps' := by
  rw [written, List.map_append, String.join_append, written, written]

theorem written_notes (events : List Event) : written (events.map .note) = "" := by
  induction events with
  | nil => rfl
  | cons e events ih => simp [ih, Step.text]

theorem written_flatMap {α : Type} (f : α → List Step) (as : List α) :
    written (as.flatMap f) = String.join (as.map fun a => written (f a)) := by
  induction as with
  | nil => rfl
  | cons a as ih => simp [ih]

/-- Without a limit, steps that do not fail write their texts, and the steps behind them go on. -/
theorem exists_perform_append (h : ∀ f, .fail f ∉ steps) (bytes : ByteArray) (log : Array Event)
    (rest : List Step) : ∃ log', perform ⟨bytes, none⟩ log (steps ++ rest) =
      perform ⟨bytes ++ (written steps).toByteArray, none⟩ log' rest := by
  induction steps generalizing bytes log with
  | nil => exact ⟨log, by simp⟩
  | cons step steps ih =>
    have hsteps : ∀ f, .fail f ∉ steps := fun f hf => h f (List.mem_cons_of_mem _ hf)
    cases step with
    | write text =>
      obtain ⟨log', hlog⟩ := ih hsteps (bytes ++ text.toByteArray) log
      refine ⟨log', ?_⟩
      rw [written_cons, String.toByteArray_append, ← ByteArray.append_assoc]
      exact hlog
    | note event =>
      obtain ⟨log', hlog⟩ := ih hsteps bytes (log.push event)
      refine ⟨log', ?_⟩
      rw [written_cons, Step.text, String.empty_append]
      exact hlog
    | fail f => exact absurd List.mem_cons_self (h f)

/-! ### Answers -/

theorem fail_not_mem_answer (mode : Mode) (line : String) (f : Failure) :
    .fail f ∉ answer mode line := by
  cases mode with
  | tokens => simp [answer, echo]
  | parse =>
    simp only [answer, parseLine]
    split <;> simp

theorem written_echo (t : Token) : written (echo t) = t.display ++ "\n" := by
  rw [echo, written_append, written_notes, String.empty_append, written_cons, written_nil,
    String.append_empty, Step.text]

theorem written_parseLine (line : String) :
    written (parseLine line) = printed .parse (some lineFile) line := by
  have herrors : (Parser.ofSource line (some lineFile)).program.2.errors.isEmpty = true ↔
      (parse line (some lineFile)).2 = [] := by
    rw [Array.isEmpty_iff, ← Array.toList_eq_nil_iff]
    rfl
  simp only [parseLine, written_append, written_notes, String.empty_append, printed, herrors]
  split
  · rw [written_cons, written_nil, String.append_empty]
    rfl
  · rw [written_cons, written, List.map_map]
    rfl

theorem filter_tokenize (line : String) (file : Option String) :
    (tokenize line file).filter (·.kind ≠ .eof) = (TokenStream.ofSource line file).pending := by
  have hpending := (TokenStream.ofSource line file).pending_ne_eof
  have hending := (TokenStream.ofSource line file).ending_eq_eof
  rw [tokenize, TokenStream.toList, List.filter_append, List.filter_eq_self.2]
  · simp [hending]
  · simpa using hpending

theorem written_answer (mode : Mode) (line : String) :
    written (answer mode line) = printed mode (some lineFile) line := by
  cases mode with
  | tokens =>
    rw [answer, written_cons, Step.text, String.empty_append, written_flatMap, printed,
      filter_tokenize]
    simp only [written_echo]
  | parse =>
    rw [answer, written_cons, Step.text, String.empty_append]
    exact written_parseLine line

/-! ### Sessions -/

theorem script_append (mode : Mode) (ls ls' : List (List UInt8)) :
    script mode (ls ++ ls') =
      ls.flatMap (fun line => .write prompt :: reply mode line) ++ script mode ls' := by
  rw [script, List.flatMap_append, List.append_assoc, script]

theorem reply_encode (mode : Mode) (text : String) :
    reply mode (encode text) = answer mode text := by
  rw [reply, decode?_encode]

theorem written_reply_encode (mode : Mode) (file : Option String) (text : String) :
    written (.write prompt :: reply mode (encode text)) = ">> " ++ printed mode file text := by
  rw [written_cons, reply_encode, written_answer, printed_file mode _ file]
  rfl

/-- A session that starts with texts has written what they print when it goes on. -/
theorem exists_perform_script (mode : Mode) (file : Option String) (texts : List String)
    (rest : List (List UInt8)) :
    ∃ log, perform ⟨.empty, none⟩ #[] (script mode (texts.map encode ++ rest)) =
      perform ⟨(String.join (texts.map fun line => ">> " ++ printed mode file line)).toByteArray,
        none⟩ log (script mode rest) := by
  have hfail : ∀ f, .fail f ∉ (texts.map encode).flatMap
      fun line => .write prompt :: reply mode line := by
    intro f hf
    obtain ⟨line, hline, hf⟩ := List.mem_flatMap.1 hf
    obtain ⟨text, -, rfl⟩ := List.mem_map.1 hline
    rw [reply_encode] at hf
    rcases List.mem_cons.1 hf with hf | hf
    · cases hf
    · exact fail_not_mem_answer mode text f hf
  obtain ⟨log, hlog⟩ := exists_perform_append hfail .empty #[] (script mode rest)
  refine ⟨log, ?_⟩
  rw [script_append, hlog, written_flatMap, List.map_map, ByteArray.empty_append]
  simp only [Function.comp_def, written_reply_encode mode file]

theorem run_of_texts {texts : List String} {input : List UInt8} (mode : Mode)
    (file : Option String) (h : Splits input (texts.map encode)) :
    (run mode none input).failure = none ∧
      (run mode none input).output = (transcript mode file texts).toByteArray := by
  obtain ⟨log, hlog⟩ := exists_perform_script mode file texts []
  rw [run, h.lines_eq, ← List.append_nil (texts.map encode), hlog, transcript,
    String.toByteArray_append]
  exact ⟨rfl, rfl⟩

theorem run_of_not_text {texts : List String} {line input : List UInt8} {rest : List (List UInt8)}
    (mode : Mode) (file : Option String) (h : Splits input (texts.map encode ++ line :: rest))
    (hline : ∀ text, line ≠ encode text) :
    (run mode none input).failure = some .notText ∧
      (run mode none input).output = (transcript mode file texts).toByteArray := by
  obtain ⟨log, hlog⟩ := exists_perform_script mode file texts (line :: rest)
  have hscript : script mode (line :: rest) =
      .write prompt :: .fail .notText :: script mode rest := by
    rw [script, List.flatMap_cons, reply, decode?_eq_none_iff.2 hline]
    rfl
  rw [run, h.lines_eq, hlog, hscript, transcript, String.toByteArray_append]
  exact ⟨rfl, rfl⟩

/-- Every input has one splitting into lines. If they are all texts, the session ends well, having
written a prompt and what the line prints on its own for each, and a last prompt. If not, it fails,
having written what it writes for the part of the input with the lines before the first that is no
text. Each token and each error that is printed stays on its line. -/
theorem session_of_lines (mode : Mode) (file : Option String) (input : List UInt8) :
    (∃ ls, (∀ ls', Splits input ls' ↔ ls' = ls) ∧
      ((∃ texts : List String, ls = texts.map encode) ∨
        ∃ (texts : List String) (line : List UInt8) (rest : List (List UInt8)),
          ls = texts.map encode ++ line :: rest ∧ ∀ text, line ≠ encode text)) ∧
    (∀ texts : List String, Splits input (texts.map encode) →
      (run mode none input).failure = none ∧
      (run mode none input).output = (transcript mode file texts).toByteArray) ∧
    (∀ (texts : List String) (line : List UInt8) (rest : List (List UInt8)),
      Splits input (texts.map encode ++ line :: rest) → (∀ text, line ≠ encode text) →
      (run mode none input).failure = some .notText ∧
      ∃ front back, input = front ++ back ∧ Splits front (texts.map encode) ∧
        Splits back (line :: rest) ∧ (run mode none front).failure = none ∧
        (run mode none input).output = (run mode none front).output) ∧
    ∀ line, (∀ t ∈ tokenize line file, '\n' ∉ t.display.toList) ∧
      ∀ e ∈ (parse line file).2, '\n' ∉ e.message.toList := by
  refine ⟨⟨lines input, fun ls' => splits_iff, exists_texts _⟩, fun texts => run_of_texts mode file,
    ?_, fun line => ⟨fun t _ => newline_not_mem_display t, fun e _ => newline_not_mem_message e⟩⟩
  intro texts line rest h hline
  obtain ⟨hfailure, houtput⟩ := run_of_not_text mode file h hline
  obtain ⟨front, back, hinput, hfront, hback⟩ := h.exists_append
  obtain ⟨hfailure', houtput'⟩ := run_of_texts mode file hfront
  exact ⟨hfailure, front, back, hinput, hfront, hback, hfailure', houtput.trans houtput'.symm⟩

theorem session_of_lines_broken :
    (run .parse none (encode "1 + é\r\n-1 * 2\n" ++ [0xff, 0x0a, 0x78])).failure = some .notText ∧
      (run .parse none (encode "1 + é\r\n-1 * 2\n" ++ [0xff, 0x0a, 0x78])).output =
        (">> parser errors:\n\tno prefix parse function for token kind ILLEGAL\n" ++
          ">> ((-1) * 2)\n>> ").toByteArray := by
  have hsplits : Splits (encode "1 + é\r\n-1 * 2\n" ++ [0xff, 0x0a, 0x78])
      (["1 + é", "-1 * 2"].map encode ++ [0xff] :: [[0x78]]) := splits_iff.2 (by decide +kernel)
  have hline : ∀ text, [0xff] ≠ encode text := decode?_eq_none_iff.1 (by decide +kernel)
  have htext : transcript .parse none ["1 + é", "-1 * 2"] =
      ">> parser errors:\n\tno prefix parse function for token kind ILLEGAL\n" ++
        ">> ((-1) * 2)\n>> " := by decide +kernel
  obtain ⟨-, -, hbroken, -⟩ :=
    session_of_lines .parse none (encode "1 + é\r\n-1 * 2\n" ++ [0xff, 0x0a, 0x78])
  obtain ⟨hfailure, front, back, -, hfront, -, -, houtput⟩ := hbroken _ _ _ hsplits hline
  obtain ⟨-, hall, -, -⟩ := session_of_lines .parse none front
  rw [houtput, (hall _ hfront).2, htext]
  exact ⟨hfailure, rfl⟩

end Session

end MonkeySyntax
