import MonkeySyntax.Proofs.Session.Transcript

/-! # Sinks that fill up

A session on a sink of limited capacity does what it does without a limit, up to the first text that
does not fit. In how many pieces a text is written makes no difference to that.
-/

namespace MonkeySyntax

/-! ### Writing to a sink -/

theorem extract_of_size_le {bytes : ByteArray} {n : Nat} (h : bytes.size ≤ n) :
    bytes.extract 0 n = bytes := by
  apply ByteArray.ext
  rw [ByteArray.data_extract]
  exact Array.extract_eq_self_of_le h

theorem extract_append_of_le_size {bytes : ByteArray} {n : Nat} (h : n ≤ bytes.size)
    (behind : ByteArray) : (bytes ++ behind).extract 0 n = bytes.extract 0 n := by
  rw [ByteArray.extract_append, Nat.sub_eq_zero_of_le h, Nat.zero_sub, ByteArray.extract_same,
    ByteArray.append_empty]

theorem extract_min_size (bytes : ByteArray) (n : Nat) :
    bytes.extract 0 (min n bytes.size) = bytes.extract 0 n := by
  rcases Nat.le_total n bytes.size with h | h
  · rw [Nat.min_eq_left h]
  · rw [Nat.min_eq_right h, ByteArray.extract_zero_size, extract_of_size_le h]

section Sink

variable {bytes : ByteArray} {text : String} {capacity : Nat}

theorem Sink.write_of_le (h : bytes.size + text.utf8ByteSize ≤ capacity) :
    Sink.write text ⟨bytes, some capacity⟩ =
      (true, ⟨bytes ++ text.toByteArray, some capacity⟩) := by
  have hroom : text.utf8ByteSize ≤ capacity - bytes.size := by omega
  have hall : text.toByteArray.extract 0 (capacity - bytes.size) = text.toByteArray :=
    extract_of_size_le (by simpa using hroom)
  simp [write, hroom, hall]

theorem Sink.write_of_lt (hb : bytes.size ≤ capacity)
    (h : capacity < bytes.size + text.utf8ByteSize) :
    Sink.write text ⟨bytes, some capacity⟩ =
      (false, ⟨(bytes ++ text.toByteArray).extract 0 capacity, some capacity⟩) := by
  have hroom : ¬ text.utf8ByteSize ≤ capacity - bytes.size := by omega
  simp [write, hroom, ByteArray.extract_append, extract_of_size_le hb]

end Sink

namespace Session

def Step.failure? : Step → Option Failure
  | .write _ | .note _ => none
  | .fail failure => some failure

def beforeFailure (steps : List Step) : List Step := steps.takeWhile (·.failure?.isNone)

/-- The steps are carried out as these pieces: the writes of each text as the writes of parts of it,
which may be empty, and all else as it is. -/
inductive InPieces : List Step → List Step → Prop where
  | done : InPieces [] []
  | write (texts : List String) {steps pieces : List Step} (h : InPieces steps pieces) :
      InPieces (.write (String.join texts) :: steps) (texts.map .write ++ pieces)
  | note (event : Event) {steps pieces : List Step} (h : InPieces steps pieces) :
      InPieces (.note event :: steps) (.note event :: pieces)
  | fail (failure : Failure) {steps pieces : List Step} (h : InPieces steps pieces) :
      InPieces (.fail failure :: steps) (.fail failure :: pieces)

variable {steps pieces : List Step} {bytes : ByteArray} {capacity : Nat}

theorem written_beforeFailure_write (text : String) (steps : List Step) :
    written (beforeFailure (.write text :: steps)) = text ++ written (beforeFailure steps) :=
  written_cons _

theorem written_beforeFailure_note (event : Event) (steps : List Step) :
    written (beforeFailure (.note event :: steps)) = written (beforeFailure steps) :=
  (written_cons _).trans String.empty_append

/-- All that steps do without a limit: they write their texts up to the first that fails. -/
theorem perform_unlimited (bytes : ByteArray) (log : Array Event) (steps : List Step) :
    (perform ⟨bytes, none⟩ log steps).output =
        bytes ++ (written (beforeFailure steps)).toByteArray ∧
      (perform ⟨bytes, none⟩ log steps).failure = steps.findSome? Step.failure? := by
  induction steps generalizing bytes log with
  | nil => exact ⟨ByteArray.append_empty.symm, rfl⟩
  | cons step steps ih =>
    cases step with
    | write text =>
      rw [written_beforeFailure_write, String.toByteArray_append, ← ByteArray.append_assoc]
      exact ih (bytes ++ text.toByteArray) log
    | note event =>
      rw [written_beforeFailure_note]
      exact ih bytes (log.push event)
    | fail failure => exact ⟨ByteArray.append_empty.symm, rfl⟩

theorem perform_end {failure : Option Failure} (h : bytes.size ≤ capacity) :
    bytes = (bytes ++ "".toByteArray).extract 0 capacity ∧
      failure = if capacity < (bytes ++ "".toByteArray).size then some .sinkFull else failure := by
  have hempty : bytes ++ "".toByteArray = bytes := ByteArray.append_empty
  rw [hempty, extract_of_size_le h, if_neg (Nat.not_lt.2 h)]
  exact ⟨rfl, rfl⟩

/-- With a limit, steps write the part of the same bytes that fits, and fail for want of room if it
is not all of them. -/
theorem perform_limited (h : bytes.size ≤ capacity) (log : Array Event) (steps : List Step) :
    (perform ⟨bytes, some capacity⟩ log steps).output =
        (bytes ++ (written (beforeFailure steps)).toByteArray).extract 0 capacity ∧
      (perform ⟨bytes, some capacity⟩ log steps).failure =
        if capacity < (bytes ++ (written (beforeFailure steps)).toByteArray).size then
          some .sinkFull
        else steps.findSome? Step.failure? := by
  induction steps generalizing bytes log with
  | nil => exact perform_end h
  | cons step steps ih =>
    cases step with
    | write text =>
      rw [written_beforeFailure_write, String.toByteArray_append, ← ByteArray.append_assoc]
      have hsize : (bytes ++ text.toByteArray).size = bytes.size + text.utf8ByteSize := by
        simp [ByteArray.size_append]
      by_cases hfit : bytes.size + text.utf8ByteSize ≤ capacity
      · rw [perform, Sink.write_of_le hfit]
        exact ih (hsize ▸ hfit) log
      · have hlt : capacity < (bytes ++ text.toByteArray).size := by omega
        rw [perform, Sink.write_of_lt h (by omega), extract_append_of_le_size (Nat.le_of_lt hlt),
          if_pos (by rw [ByteArray.size_append]; omega)]
        exact ⟨rfl, rfl⟩
    | note event =>
      rw [written_beforeFailure_note]
      exact ih h (log.push event)
    | fail failure => exact perform_end h

theorem written_beforeFailure_writes (texts : List String) (steps : List Step) :
    written (beforeFailure (texts.map .write ++ steps)) =
      String.join texts ++ written (beforeFailure steps) := by
  induction texts with
  | nil => exact String.empty_append.symm
  | cons text texts ih =>
    rw [List.map_cons, List.cons_append, written_beforeFailure_write, ih, String.join_cons,
      String.append_assoc]

theorem findSome?_failure?_writes (texts : List String) (steps : List Step) :
    (texts.map Step.write ++ steps).findSome? Step.failure? = steps.findSome? Step.failure? := by
  induction texts with
  | nil => rfl
  | cons text texts ih => exact ih

theorem InPieces.refl (steps : List Step) : InPieces steps steps := by
  induction steps with
  | nil => exact .done
  | cons step steps ih =>
    cases step with
    | write text => simpa using InPieces.write [text] ih
    | note event => exact .note event ih
    | fail failure => exact .fail failure ih

theorem InPieces.written_eq (h : InPieces steps pieces) :
    written (beforeFailure pieces) = written (beforeFailure steps) := by
  induction h with
  | done => rfl
  | write texts _ ih => rw [written_beforeFailure_writes, written_beforeFailure_write, ih]
  | note event _ ih => rw [written_beforeFailure_note, written_beforeFailure_note, ih]
  | fail failure _ _ => rfl

theorem InPieces.failure_eq (h : InPieces steps pieces) :
    pieces.findSome? Step.failure? = steps.findSome? Step.failure? := by
  induction h with
  | done => rfl
  | write texts _ ih => exact (findSome?_failure?_writes _ _).trans ih
  | note event _ ih => exact ih
  | fail failure _ _ => rfl

/-! ### Sessions -/

theorem perform_pieces {mode : Mode} {input : List UInt8} (capacity : Nat)
    (h : InPieces (script mode (lines input)) pieces) :
    (perform ⟨.empty, some capacity⟩ #[] pieces).output =
        (run mode none input).output.extract 0
          (min capacity (run mode none input).output.size) ∧
      (perform ⟨.empty, some capacity⟩ #[] pieces).failure =
        if capacity < (run mode none input).output.size then some .sinkFull
        else (run mode none input).failure := by
  have hsize : ByteArray.empty.size ≤ capacity := Nat.zero_le capacity
  obtain ⟨houtput, hfailure⟩ := perform_limited hsize #[] pieces
  obtain ⟨houtput', hfailure'⟩ := perform_unlimited .empty #[] (script mode (lines input))
  rw [h.written_eq, ← houtput'] at houtput hfailure
  rw [h.failure_eq, ← hfailure'] at hfailure
  exact ⟨houtput.trans (extract_min_size _ _).symm, hfailure⟩

/-- A limited session that fares as the unlimited one fails because of a line that is no text
exactly if what is written up to the prompt before that line fits. -/
theorem notText_iff {mode : Mode} {input : List UInt8} {capacity : Nat} (file : Option String)
    {limited : Transcript}
    (houtput : limited.output = (run mode none input).output.extract 0
      (min capacity (run mode none input).output.size))
    (hfailure : limited.failure =
      if capacity < (run mode none input).output.size then some .sinkFull
      else (run mode none input).failure) :
    limited.failure = some .notText ↔
      ∃ (texts : List String) (line : List UInt8) (rest : List (List UInt8)),
        Splits input (texts.map encode ++ line :: rest) ∧ (∀ text, line ≠ encode text) ∧
        (transcript mode file texts).utf8ByteSize ≤ capacity ∧
        limited.output = (transcript mode file texts).toByteArray := by
  constructor
  · intro h
    rw [hfailure] at h
    split at h
    · cases h
    next hfits =>
    rw [extract_min_size, extract_of_size_le (Nat.not_lt.1 hfits)] at houtput
    rcases exists_texts (lines input) with ⟨texts, hls⟩ | ⟨texts, line, rest, hls, hline⟩
    · have hsplits : Splits input (texts.map encode) := splits_iff.2 hls.symm
      rw [(run_of_texts mode file hsplits).1] at h
      cases h
    · have hsplits : Splits input (texts.map encode ++ line :: rest) := splits_iff.2 hls.symm
      obtain ⟨-, htranscript⟩ := run_of_not_text mode file hsplits hline
      rw [htranscript] at houtput hfits
      exact ⟨texts, line, rest, hsplits, hline, by simpa using hfits, houtput⟩
  · rintro ⟨texts, line, rest, hsplits, hline, hle, -⟩
    obtain ⟨hfailure', htranscript⟩ := run_of_not_text mode file hsplits hline
    rw [hfailure, htranscript, if_neg (by simpa using hle), hfailure']

/-- On a sink of limited capacity, a session writes the first bytes of what it writes without a
limit, as many as the sink takes up. It fails because the sink is full if there are more, and ends
as without a limit if not, in however many pieces it writes its texts. So it fails because of a line
that is no text exactly if all that is written up to the prompt before that line fits, and then all
of it is there. -/
theorem run_of_capacity (mode : Mode) (file : Option String) (capacity : Nat)
    (input : List UInt8) :
    ((run mode (some capacity) input).output =
        (run mode none input).output.extract 0
          (min capacity (run mode none input).output.size) ∧
      (run mode (some capacity) input).failure =
        if capacity < (run mode none input).output.size then some .sinkFull
        else (run mode none input).failure) ∧
    (∀ pieces, InPieces (script mode (lines input)) pieces →
      (perform ⟨.empty, some capacity⟩ #[] pieces).output =
          (run mode (some capacity) input).output ∧
        (perform ⟨.empty, some capacity⟩ #[] pieces).failure =
          (run mode (some capacity) input).failure) ∧
    ((run mode (some capacity) input).failure = some .notText ↔
      ∃ (texts : List String) (line : List UInt8) (rest : List (List UInt8)),
        Splits input (texts.map encode ++ line :: rest) ∧ (∀ text, line ≠ encode text) ∧
        (transcript mode file texts).utf8ByteSize ≤ capacity ∧
        (run mode (some capacity) input).output = (transcript mode file texts).toByteArray) := by
  have hrun := perform_pieces capacity (.refl (script mode (lines input)))
  refine ⟨hrun, fun pieces h => ?_, ?_⟩
  · obtain ⟨houtput, hfailure⟩ := perform_pieces capacity h
    exact ⟨houtput.trans hrun.1.symm, hfailure.trans hrun.2.symm⟩
  · exact notText_iff file hrun.1 hrun.2

theorem run_of_capacity_broken :
    (run .parse (some 7) (encode "a + b\n" ++ [0xff, 0x0a])).output = ">> (a +".toByteArray ∧
      (run .parse (some 7) (encode "a + b\n" ++ [0xff, 0x0a])).failure = some .sinkFull ∧
      (run .parse (some 15) (encode "a + b\n" ++ [0xff, 0x0a])).failure = some .notText ∧
      (perform ⟨.empty, some 7⟩ #[] [.write ">> ", .note (.sessionLine .parse 5),
          .note (.parsedProgram 1 0), .write "(", .write "a", .write " + ", .write "b",
          .write ")\n", .write ">> ", .fail .notText, .write ">> "]).failure =
        some .sinkFull := by
  have hpieces : InPieces (script .parse (lines (encode "a + b\n" ++ [0xff, 0x0a])))
      [.write ">> ", .note (.sessionLine .parse 5), .note (.parsedProgram 1 0), .write "(",
        .write "a", .write " + ", .write "b", .write ")\n", .write ">> ", .fail .notText,
        .write ">> "] := by
    have hscript : script .parse (lines (encode "a + b\n" ++ [0xff, 0x0a])) =
        [.write (String.join [">> "]), .note (.sessionLine .parse 5), .note (.parsedProgram 1 0),
          .write (String.join ["(", "a", " + ", "b", ")\n"]), .write (String.join [">> "]),
          .fail .notText, .write (String.join [">> "])] := by decide +kernel
    rw [hscript]
    exact .write [">> "] (.note _ (.note _ (.write ["(", "a", " + ", "b", ")\n"]
      (.write [">> "] (.fail _ (.write [">> "] .done))))))
  have houtput : (run .parse none (encode "a + b\n" ++ [0xff, 0x0a])).output =
      ">> (a + b)\n>> ".toByteArray := by decide +kernel
  have hfailure : (run .parse none (encode "a + b\n" ++ [0xff, 0x0a])).failure =
      some .notText := by decide +kernel
  obtain ⟨⟨houtput₇, hfailure₇⟩, hpieces₇, -⟩ :=
    run_of_capacity .parse none 7 (encode "a + b\n" ++ [0xff, 0x0a])
  obtain ⟨⟨-, hfailure₁₅⟩, -, -⟩ :=
    run_of_capacity .parse none 15 (encode "a + b\n" ++ [0xff, 0x0a])
  rw [houtput] at houtput₇ hfailure₇ hfailure₁₅
  rw [hfailure] at hfailure₁₅
  have hfull := hfailure₇.trans (if_pos (by decide))
  exact ⟨houtput₇.trans (by decide +kernel), hfull, hfailure₁₅.trans (if_neg (by decide)),
    (hpieces₇ _ hpieces).2.trans hfull⟩

end Session

end MonkeySyntax
