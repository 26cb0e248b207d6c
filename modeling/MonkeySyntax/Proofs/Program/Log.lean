import Mathlib.Logic.Relation
import MonkeySyntax.Proofs.Program.Duration
import MonkeySyntax.Proofs.Program.Location

/-! # The log of a parser

Whatever a parser reads, it only moves on, reports at the window and counts levels. Each of these
moves keeps what the log tells: the illegal characters up to the window and the errors found so far,
each once and in order, and no error before an illegal character that stands in front of it.
-/

namespace MonkeySyntax

def SyntaxError.event (e : SyntaxError) : Event := .syntaxError e.message e.position.offset

namespace Event

def isIllegalCharacter : Event → Bool
  | illegalCharacter _ _ => true
  | _ => false

def isSyntaxError : Event → Bool
  | syntaxError _ _ => true
  | _ => false

/-- Of an error and an illegal character, the first event does not stand behind the second. -/
def InTime (e e' : Event) : Prop :=
  ∀ message offset literal offset', e = syntaxError message offset →
    e' = illegalCharacter literal offset' → offset < offset'

variable {ts : List Token}

theorem filterMap_ofToken? (ts : List Token) :
    ts.filterMap ofToken? = (ts.filter (·.kind = .illegal)).map fun t =>
      illegalCharacter t.literal t.start.offset := by
  induction ts with
  | nil => rfl
  | cons t ts ih =>
    by_cases h : t.kind = .illegal
    · simp [ofToken?, h, ih]
    · simp [ofToken?, h, ih]

theorem exists_of_mem_filterMap_ofToken? {e : Event} (h : e ∈ ts.filterMap ofToken?) :
    ∃ t ∈ ts, t.kind = .illegal ∧ e = illegalCharacter t.literal t.start.offset := by
  rw [filterMap_ofToken?] at h
  obtain ⟨t, ht, rfl⟩ := List.mem_map.1 h
  obtain ⟨ht, hk⟩ := List.mem_filter.1 ht
  exact ⟨t, ht, by simpa using hk, rfl⟩

theorem filter_isIllegalCharacter_filterMap (ts : List Token) :
    (ts.filterMap ofToken?).filter isIllegalCharacter = ts.filterMap ofToken? := by
  rw [List.filter_eq_self]
  intro e he
  obtain ⟨t, -, -, rfl⟩ := exists_of_mem_filterMap_ofToken? he
  rfl

theorem filter_isSyntaxError_filterMap (ts : List Token) :
    (ts.filterMap ofToken?).filter isSyntaxError = [] := by
  rw [List.filter_eq_nil_iff]
  intro e he
  obtain ⟨t, -, -, rfl⟩ := exists_of_mem_filterMap_ofToken? he
  nofun

theorem pairwise_inTime_filterMap (ts : List Token) :
    (ts.filterMap ofToken?).Pairwise InTime := by
  refine List.pairwise_of_forall_mem_list ?_
  rintro e he e' - message offset literal offset' rfl -
  obtain ⟨t, -, -, ht⟩ := exists_of_mem_filterMap_ofToken? he
  cases ht

end Event

namespace Parser

/-- What the operations of a parser are made of. -/
inductive Move : Parser → Parser → Prop where
  | advance (p : Parser) : Move p p.advance
  | reportCurrent (cause : SyntaxError.Cause) (p : Parser) :
      Move p (p.report cause p.current.start)
  | reportPeek (cause : SyntaxError.Cause) (p : Parser) : Move p (p.report cause p.peek.start)
  | setDepth (d : Nat) (p : Parser) : Move p (p.setDepth d)

abbrev Reaches : Parser → Parser → Prop := Relation.ReflTransGen Move

variable {p q : Parser} {more : Parser → Bool} {part : Part} {rule : StatementRule} {n : Nat}
  {ts : List Token}

theorem Reaches.keeps {P : Parser → Prop} (hP : ∀ {p q}, Move p q → P p → P q) (h : Reaches p q)
    (hp : P p) : P q := by
  induction h with
  | refl => exact hp
  | tail _ hm ih => exact hP hm ih

/-! ### Reading is made of moves -/

theorem reaches_advance (p : Parser) : Reaches p p.advance := .single (.advance p)

theorem reaches_reportCurrent (cause : SyntaxError.Cause) (p : Parser) :
    Reaches p (p.report cause p.current.start) :=
  .single (.reportCurrent cause p)

theorem reaches_leave (p : Parser) : Reaches p p.leave := .single (.setDepth _ p)

theorem SkipTakes.reaches (h : SkipTakes more p n q) : Reaches p q := by
  induction h with
  | stop _ => exact .refl
  | step _ _ ih => exact (reaches_advance _).trans ih

theorem reaches_integer (p : Parser) : Reaches p p.integer.2 := by
  unfold integer
  split
  · exact .refl
  · exact reaches_reportCurrent _ p

theorem Takes.reaches {r : Option Expr × Parser} (h : Takes part p n r) : Reaches p r.2 := by
  induction h with
  | refused _ hs => exact (reaches_reportCurrent _ _).trans hs.reaches
  | broken _ _ ih => exact .head (.setDepth _ _) (ih.trans (reaches_leave _))
  | read _ _ _ iho ihr => exact .head (.setDepth _ _) ((iho.trans ihr).trans (reaches_leave _))
  | name _ => exact .refl
  | integer _ => exact reaches_integer _
  | prefixOp _ _ ih => exact (reaches_advance _).trans ih
  | noOperand _ => exact reaches_reportCurrent _ _
  | infixOp _ ih => exact (reaches_advance _).trans ih
  | stop _ => exact .refl
  | brokenTurn _ _ ih => exact (reaches_advance _).trans ih
  | turn _ _ _ ihi ihr => exact (reaches_advance _).trans (ihi.trans ihr)

theorem StatementTakes.reaches {r : Option Statement × Parser} (h : StatementTakes rule p n r) :
    Reaches p r.2 := by
  cases h with
  | noName _ hs => exact .head (.reportPeek _ p) hs.reaches
  | noAssign _ _ hs => exact (reaches_advance p).trans (.head (.reportPeek _ _) hs.reaches)
  | binding _ _ hs => exact (reaches_advance p).trans (.head (.advance _) hs.reaches)
  | returning hs => exact hs.reaches
  | expression hr =>
    dsimp only
    split
    · exact hr.reaches.trans (reaches_advance _)
    · exact hr.reaches

theorem ProgramTakes.reaches {ss : List Statement} (h : ProgramTakes p n ss q) : Reaches p q := by
  induction h with
  | stop _ => exact .refl
  | step _ hs _ ih => exact hs.reaches.trans (.head (.advance _) ih)

/-! ### What is told -/

/-- The log has the illegal characters among the tokens up to the window and the errors found, each
once and in order, and no other events. -/
structure Told (ts : List Token) (p : Parser) : Prop where
  illegal : p.log.toList.filter Event.isIllegalCharacter ++
    p.stream.pending.tail.tail.filterMap Event.ofToken? = ts.filterMap Event.ofToken?
  errors : p.log.toList.filter Event.isSyntaxError = p.errors.toList.map SyntaxError.event
  sort : ∀ e ∈ p.log.toList, e.isIllegalCharacter = true ∨ e.isSyntaxError = true

/-- The tokens that are left stand one behind another, no error in the log stands behind the window,
and no illegal character comes in the log after an error that stands at it or behind it. -/
structure Timely (p : Parser) : Prop where
  ordered : p.Ordered
  le_peek : ∀ message offset, Event.syntaxError message offset ∈ p.log.toList →
    offset ≤ p.peek.start.offset
  inTime : p.log.toList.Pairwise Event.InTime

theorem toList_log_advance (p : Parser) :
    p.advance.log.toList = p.log.toList ++ [p.advance.peek].filterMap Event.ofToken? := by
  have hlog : p.advance.log = p.log ++ (Event.ofToken? p.advance.peek).toArray := rfl
  rw [hlog, Array.toList_append, List.filterMap_cons]
  cases Event.ofToken? p.advance.peek <;> rfl

theorem toList_log_report (cause : SyntaxError.Cause) (position : Position) (p : Parser) :
    (p.report cause position).log.toList =
      p.log.toList ++ [SyntaxError.event ⟨cause, position⟩] :=
  Array.toList_push

theorem filterMap_pending (p : Parser) :
    p.stream.pending.filterMap Event.ofToken? =
      [p.current].filterMap Event.ofToken? ++ p.stream.pending.tail.filterMap Event.ofToken? := by
  by_cases h : p.current.kind = .eof
  · simp [Event.filterMap_ofToken?, h, kind_current_eq_eof_iff.1 h]
  · conv_lhs => rw [pending_of_kind_ne_eof h]
    exact List.filterMap_append (l := [p.current])

theorem told_ofStream (s : TokenStream) : Told s.toList (ofStream s) where
  illegal := by
    have hlog : (ofStream s).log.toList =
        [(ofStream s).current].filterMap Event.ofToken? ++
          [(ofStream s).advance.current].filterMap Event.ofToken? :=
      List.filterMap_append (l := [(ofStream s).current])
    have hending : [s.ending].filterMap Event.ofToken? = [] := by
      simp [Event.filterMap_ofToken?, s.ending_eq_eof]
    rw [hlog, List.filter_append, Event.filter_isIllegalCharacter_filterMap,
      Event.filter_isIllegalCharacter_filterMap, TokenStream.toList, List.filterMap_append, hending,
      List.append_nil, List.append_assoc, ← pending_advance, ← filterMap_pending]
    exact (filterMap_pending (ofStream s)).symm
  errors := Event.filter_isSyntaxError_filterMap _
  sort := by
    intro e he
    obtain ⟨t, -, -, rfl⟩ := Event.exists_of_mem_filterMap_ofToken? he
    exact .inl rfl

theorem Told.advance (h : Told ts p) : Told ts p.advance where
  illegal := by
    rw [toList_log_advance, List.filter_append, Event.filter_isIllegalCharacter_filterMap,
      List.append_assoc]
    exact (congrArg (_ ++ ·) (filterMap_pending p.advance.advance).symm).trans h.illegal
  errors := by
    rw [toList_log_advance, List.filter_append, Event.filter_isSyntaxError_filterMap,
      List.append_nil]
    exact h.errors
  sort := by
    intro e he
    rw [toList_log_advance] at he
    rcases List.mem_append.1 he with he | he
    · exact h.sort e he
    · obtain ⟨t, -, -, rfl⟩ := Event.exists_of_mem_filterMap_ofToken? he
      exact .inl rfl

theorem Told.report (cause : SyntaxError.Cause) (position : Position) (h : Told ts p) :
    Told ts (p.report cause position) where
  illegal := by
    rw [toList_log_report, List.filter_append]
    exact (congrArg (· ++ _) (List.append_nil _)).trans h.illegal
  errors := by
    rw [toList_log_report, List.filter_append, h.errors, errors_report, Array.toList_push,
      List.map_append]
    rfl
  sort := by
    intro e he
    rw [toList_log_report] at he
    rcases List.mem_append.1 he with he | he
    · exact h.sort e he
    · rw [List.mem_singleton.1 he]
      exact .inr rfl

theorem Move.told (hm : Move p q) (h : Told ts p) : Told ts q := by
  cases hm with
  | advance _ => exact h.advance
  | reportCurrent cause _ => exact h.report cause _
  | reportPeek cause _ => exact h.report cause _
  | setDepth _ _ => exact ⟨h.illegal, h.errors, h.sort⟩

/-! ### When it is told -/

theorem Ordered.advance (h : p.Ordered) : p.advance.Ordered :=
  h.of_suffix (quiet_advance p).suffix rfl

theorem Ordered.current_lt_peek (h : p.Ordered) (hp : p.current.kind ≠ .eof) :
    p.current.start.offset < p.peek.start.offset :=
  h.offset_lt (q := p.advance) (mt kind_current_eq_eof_iff.2 hp) List.suffix_rfl rfl

theorem Ordered.current_le_peek (h : p.Ordered) :
    p.current.start.offset ≤ p.peek.start.offset := by
  by_cases hp : p.current.kind = .eof
  · have hnil := kind_current_eq_eof_iff.1 hp
    have heq : p.peek = p.current := current_eq_of_pending_eq (q := p.advance)
      (by rw [pending_advance, hnil, List.tail_nil]) rfl
    rw [heq]
    exact UInt32.le_refl _
  · exact UInt32.le_of_lt (h.current_lt_peek hp)

theorem timely_ofStream {s : TokenStream} (h : (ofStream s).Ordered) : Timely (ofStream s) where
  ordered := h
  le_peek := by
    intro message offset he
    obtain ⟨t, -, -, ht⟩ := Event.exists_of_mem_filterMap_ofToken? he
    cases ht
  inTime := Event.pairwise_inTime_filterMap _

theorem Timely.advance (h : Timely p) : Timely p.advance where
  ordered := h.ordered.advance
  le_peek := by
    intro message offset he
    rw [toList_log_advance] at he
    rcases List.mem_append.1 he with he | he
    · exact UInt32.le_trans (h.le_peek message offset he) h.ordered.advance.current_le_peek
    · obtain ⟨t, -, -, ht⟩ := Event.exists_of_mem_filterMap_ofToken? he
      cases ht
  inTime := by
    rw [toList_log_advance]
    refine List.pairwise_append.2 ⟨h.inTime, Event.pairwise_inTime_filterMap _, ?_⟩
    rintro e he e' he' message offset literal offset' rfl rfl
    obtain ⟨t, ht, hk, heq⟩ := Event.exists_of_mem_filterMap_ofToken? he'
    obtain rfl := List.mem_singleton.1 ht
    cases heq
    -- the token that enters the window is not the end token, so it stands behind the one before it
    have hne : p.advance.current.kind ≠ .eof := by
      intro heof
      have hnil : p.advance.stream.pending = [] := kind_current_eq_eof_iff.1 heof
      have heof' : p.advance.peek.kind = .eof :=
        kind_peek_eq_eof_iff.2 (by rw [hnil, List.tail_nil])
      rw [heof'] at hk
      cases hk
    exact UInt32.lt_of_le_of_lt (h.le_peek message offset he)
      (h.ordered.advance.current_lt_peek hne)

/-- An error is reported at the window, where all illegal characters are in the log already. -/
theorem Timely.report {cause : SyntaxError.Cause} {position : Position} (h : Timely p)
    (hp : position.offset ≤ p.peek.start.offset) : Timely (p.report cause position) where
  ordered := h.ordered
  le_peek := by
    intro message offset he
    rw [toList_log_report] at he
    rcases List.mem_append.1 he with he | he
    · exact h.le_peek message offset he
    · cases List.mem_singleton.1 he
      exact hp
  inTime := by
    rw [toList_log_report]
    refine List.pairwise_append.2 ⟨h.inTime, List.pairwise_singleton _ _, ?_⟩
    rintro e - e' he' message offset literal offset' - rfl
    cases List.mem_singleton.1 he'

theorem Move.timely (hm : Move p q) (h : Timely p) : Timely q := by
  cases hm with
  | advance _ => exact h.advance
  | reportCurrent _ _ => exact h.report h.ordered.current_le_peek
  | reportPeek _ _ => exact h.report (UInt32.le_refl _)
  | setDepth _ _ => exact ⟨h.ordered, h.le_peek, h.inTime⟩

/-! ### The whole log -/

theorem exists_reaches_program (p : Parser) :
    ∃ q, Reaches p q ∧ q.stream.pending = [] ∧
      p.program.2 = { q with
        log := q.log.push (.parsedProgram p.program.1.statements.length q.errors.size) } := by
  have hruns := runs_statementsWithin (Nat.le_refl p.stream.pending.length)
  obtain ⟨n, hn⟩ := hruns.exists_programTakes
  exact ⟨_, hn.reaches, kind_current_eq_eof_iff.1 (kind_current_program p), rfl⟩

theorem lt_of_pairwise_inTime {es : List Event} (h : es.Pairwise Event.InTime) {i j : Nat}
    {literal message : String} {offset offset' : UInt32}
    (hi : es[i]? = some (.illegalCharacter literal offset))
    (hj : es[j]? = some (.syntaxError message offset')) (hle : offset ≤ offset') : i < j := by
  obtain ⟨hi', hi⟩ := List.getElem?_eq_some_iff.1 hi
  obtain ⟨hj', hj⟩ := List.getElem?_eq_some_iff.1 hj
  by_contra hij
  rcases Nat.lt_or_eq_of_le (Nat.le_of_not_lt hij) with hlt | rfl
  · have hin := List.pairwise_iff_getElem.1 h j i hj' hi' hlt
    exact absurd (hin _ _ _ _ hj hi) (UInt32.not_lt.2 hle)
  · rw [hi] at hj
    cases hj

/-- Parsing a source logs each illegal character of its tokens once and in order, wherever it
stands, each syntax error that it gives once and in order, and at last how many statements and
errors there are. An illegal character is logged before the errors that stand at it or behind it. -/
theorem log_of_source (source : String) (file : Option String) :
    ∃ events : List Event,
      (ofSource source file).program.2.log.toList = events ++
        [.parsedProgram (parse source file).1.statements.length (parse source file).2.length] ∧
      events.filter Event.isIllegalCharacter =
        ((tokenize source file).filter (·.kind = .illegal)).map
          (fun t => Event.illegalCharacter t.literal t.start.offset) ∧
      events.filter Event.isSyntaxError =
        (parse source file).2.map (fun e => Event.syntaxError e.message e.position.offset) ∧
      (∀ e ∈ events, e.isIllegalCharacter = true ∨ e.isSyntaxError = true) ∧
      (Text.byteLength source.toList < UInt32.size →
        ∀ (i j : Nat) (literal message : String) (offset offset' : UInt32),
          events[i]? = some (.illegalCharacter literal offset) →
          events[j]? = some (.syntaxError message offset') → offset ≤ offset' → i < j) := by
  obtain ⟨q, hq, hnil, hprogram⟩ := exists_reaches_program (ofSource source file)
  have herrors : (ofSource source file).program.2.errors = q.errors := by rw [hprogram]
  have hparse : (parse source file).2 = q.errors.toList := congrArg Array.toList herrors
  obtain ⟨hillegal, hsyntax, hsort⟩ := hq.keeps Move.told (told_ofStream _)
  refine ⟨q.log.toList, ?_, ?_, ?_, hsort, ?_⟩
  · rw [hprogram, hparse, Array.length_toList, Array.toList_push]
    rfl
  · rw [hnil, List.tail_nil, List.tail_nil, List.filterMap_nil, List.append_nil] at hillegal
    exact hillegal.trans (Event.filterMap_ofToken? _)
  · rw [hparse]
    exact hsyntax
  · intro hlen i j literal message offset offset' hi hj hle
    have htimely := hq.keeps Move.timely (timely_ofStream (pairwise_start_tokenize hlen file))
    exact lt_of_pairwise_inTime htimely.inTime hi hj hle

theorem log_of_source_skipped :
    ∃ events : List Event,
      (ofSource "let x = $; - é 1; let 2 @" none).program.2.log.toList =
        events ++ [.parsedProgram 2 2] ∧
      events.filter Event.isIllegalCharacter =
        [.illegalCharacter "$" 8, .illegalCharacter "é" 13, .illegalCharacter "@" 25] ∧
      ∀ (i j : Nat) (literal message : String) (offset offset' : UInt32),
        events[i]? = some (.illegalCharacter literal offset) →
        events[j]? = some (.syntaxError message offset') → offset ≤ offset' → i < j := by
  have hlen : Text.byteLength "let x = $; - é 1; let 2 @".toList = 26 := by decide +kernel
  have hcount : (parse "let x = $; - é 1; let 2 @" none).1.statements.length = 2 ∧
      (parse "let x = $; - é 1; let 2 @" none).2.length = 2 := by decide +kernel
  obtain ⟨events, hlog, hillegal, -, -, htime⟩ := log_of_source "let x = $; - é 1; let 2 @" none
  refine ⟨events, ?_, ?_, htime (by rw [hlen]; decide)⟩
  · rw [hlog, hcount.1, hcount.2]
  · rw [hillegal]
    decide +kernel

end Parser

end MonkeySyntax
