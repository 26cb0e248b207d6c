import MonkeySyntax.Proofs.Token.Delivery

/-! # Pulling tokens

Tokens can be pulled from a lexer one by one, through its iterator, all at once, or from a copy. In
any order of such pulls none fails, the tokens come in the order of the source, and the iterator
gives the end token once.
-/

namespace MonkeySyntax.Lexer

/-- A way to take tokens from a lexer, or to look at what is left in it. -/
inductive Pull where
  | next
  | iterate
  | drain
  | remainder
  | drainCopy
  deriving DecidableEq, Repr

inductive Answer where
  | token (t : Token)
  | item (t? : Option Token)
  | items (ts : List Token)
  | text (cs : List Char)
  | copied (ts : List Token)
  deriving DecidableEq, Repr

/-- Pull once. A copy is drained in place of the lexer itself. -/
def pull? (l : Lexer) : Pull → Option (Answer × Lexer)
  | .next => l.next?.map fun (t, l) => (.token t, l)
  | .iterate => l.iterate?.map fun (t?, l) => (.item t?, l)
  | .drain => l.drain?.map fun (ts, l) => (.items ts, l)
  | .remainder => l.remainder?.map fun cs => (.text cs, l)
  | .drainCopy => l.drain?.map fun (ts, _) => (.copied ts, l)

def pullAll? (l : Lexer) : List Pull → Option (List Answer × Lexer)
  | [] => some ([], l)
  | p :: ps => do
    let (a, l) ← l.pull? p
    let (as, l) ← l.pullAll? ps
    some (a :: as, l)

def Answer.taken : Answer → List Token
  | token t => [t]
  | item t? => t?.toList
  | items ts => ts
  | text _ | copied _ => []

/-- Of the tokens taken, those that the iterator has given; only they end it. -/
def Answer.iterated : Answer → List Token
  | item t? => t?.toList
  | items ts => ts
  | token _ | text _ | copied _ => []

def count (as : List Answer) : Nat := (as.flatMap Answer.taken).length

def Ended (as : List Answer) : Prop := ∃ t ∈ as.flatMap Answer.iterated, t.kind = .eof

def tokensFrom (source : String) (file : Option String) (k : Nat) : List Token :=
  (tokenize source file).dropLast.drop k ++ [.ending (file.getD defaultFile) source.toList]

/-- The answer to a pull that comes behind other answers. -/
inductive Answers (source : String) (file : Option String) (as : List Answer) :
    Pull → Answer → Prop where
  | next : Answers source file as .next (.token (tokenAt source file (count as)))
  | iterate (h : ¬ Ended as) :
      Answers source file as .iterate (.item (some (tokenAt source file (count as))))
  | iterateEnded (h : Ended as) : Answers source file as .iterate (.item none)
  | drain (h : ¬ Ended as) :
      Answers source file as .drain (.items (tokensFrom source file (count as)))
  | drainEnded (h : Ended as) : Answers source file as .drain (.items [])
  | remainder {front behind : List Char} (hs : source.toList = front ++ behind)
      (ht : place (file.getD defaultFile) (Text.byteLength front) (lexemes behind) =
        (tokenize source file).dropLast.drop (count as)) :
      Answers source file as .remainder (.text behind)
  | drainCopy (h : ¬ Ended as) :
      Answers source file as .drainCopy (.copied (tokensFrom source file (count as)))
  | drainCopyEnded (h : Ended as) : Answers source file as .drainCopy (.copied [])

/-- The next token is looked for by one lexeme at a time. -/
inductive Finds : Lexer → Token → Lexer → Prop where
  | atEnd {l : Lexer} (hend : l.atEnd = true) : Finds l l.ending l
  | skip {l l' : Lexer} {t : Token} {cs text : List Char} {ls : List Lexeme}
      (hend : l.atEnd = false) (hrest : l.remainder? = some cs)
      (hls : lexemes cs = ⟨none, text⟩ :: ls)
      (h : Finds (l.advance (Text.byteLength text)) t l') : Finds l t l'
  | emit {l l' : Lexer} {t : Token} {kind : TokenKind} {cs text : List Char} {ls : List Lexeme}
      (hend : l.atEnd = false) (hrest : l.remainder? = some cs)
      (hls : lexemes cs = ⟨some kind, text⟩ :: ls)
      (he : l.emit? kind (Text.byteLength text) = some (t, l')) : Finds l t l'

/-- The iterator is asked until it gives none. -/
inductive Drains : Lexer → List Token → Lexer → Prop where
  | done {l l' : Lexer} (h : l.iterate? = some (none, l')) : Drains l [] l'
  | more {l l' l'' : Lexer} {t : Token} {ts : List Token} (h : l.iterate? = some (some t, l'))
      (hd : Drains l' ts l'') : Drains l (t :: ts) l''

variable {source : String} {file : Option String} {as : List Answer} {l l' : Lexer}
  {s : TokenStream} {t : Token}

/-! ### Single calls -/

theorem frame_of_emit? {kind : TokenKind} {n : Nat} (h : l.emit? kind n = some (t, l')) :
    t.kind = kind ∧ l' = l.advance n := by
  obtain ⟨rest, -, h⟩ := Option.bind_eq_some_iff.1 h
  obtain ⟨_, -, h⟩ := Option.bind_eq_some_iff.1 h
  cases h
  exact ⟨rfl, rfl⟩

theorem Finds.frame (h : l.Finds t l') : l' = { l with offset := l'.offset } := by
  induction h with
  | atEnd _ => rfl
  | skip _ _ _ _ ih => exact ih
  | emit _ _ _ he =>
    obtain ⟨-, rfl⟩ := frame_of_emit? he
    rfl

theorem Finds.byteLength_le (h : l.Finds t l') (ht : t.kind = .eof) :
    Text.byteLength l.source ≤ l'.offset := by
  induction h with
  | atEnd hend => simpa [Lexer.atEnd] using hend
  | skip _ _ _ _ ih => exact ih ht
  | emit _ _ hls he =>
    obtain ⟨hk, -⟩ := frame_of_emit? he
    rw [hk] at ht
    cases ht
    exact absurd rfl (kind?_ne_eof_of_mem_lexemes (hls ▸ List.mem_cons_self))

def found (l : Lexer) (ls : List Lexeme) : Token × Lexer :=
  match firstToken? ls with
  | some (skipped, kind, text) =>
    (.atOffset l.file (l.offset + skipped) kind text,
      (l.advance skipped).advance (Text.byteLength text))
  | none => (l.ending, { l with offset := Text.byteLength l.source })

theorem found_cons_none (l : Lexer) (text : List Char) (ls : List Lexeme) :
    l.found (⟨none, text⟩ :: ls) = (l.advance (Text.byteLength text)).found ls := by
  rw [found, found, firstToken?]
  cases firstToken? ls <;> simp [advance, ending, Nat.add_assoc]

section

variable {front behind : List Char} (hsource : l.source = front ++ behind)
  (hoffset : l.offset = Text.byteLength front)

include hsource hoffset

theorem remainder?_of_append : l.remainder? = some behind := by
  rw [remainder?, hsource, hoffset, Text.splitAt?_byteLength]
  rfl

theorem atEnd_iff_of_append : l.atEnd = true ↔ behind = [] := by
  rw [atEnd, decide_eq_true_iff, hsource, hoffset, Text.byteLength_append]
  cases behind with
  | nil => simp
  | cons c cs =>
    have hpos := Text.byteLength_pos (List.cons_ne_nil c cs)
    simp only [reduceCtorEq, iff_false]
    omega

theorem next?_eq_found : l.next? = some (l.found (lexemes behind)) := by
  by_cases hend : l.atEnd = true
  · obtain rfl := (atEnd_iff_of_append hsource hoffset).1 hend
    rw [List.append_nil] at hsource
    rw [next?, if_pos hend, lexemes, found, firstToken?, hsource, ← hoffset, ← hsource]
  · rw [next?, if_neg hend, remainder?_of_append hsource hoffset, Option.bind_eq_bind,
      Option.bind_some, found]
    cases firstToken? (lexemes behind) <;> rfl

/-- No cut of the source fails on the way to the next token. -/
theorem finds_found : l.Finds (l.found (lexemes behind)).1 (l.found (lexemes behind)).2 := by
  have hrest := remainder?_of_append hsource hoffset
  fun_induction lexemes behind generalizing l front with
  | case1 =>
    have hend := (atEnd_iff_of_append hsource hoffset).2 rfl
    obtain rfl : front = l.source := by rw [hsource, List.append_nil]
    rw [found, firstToken?, ← hoffset]
    exact .atEnd hend
  | case2 c cs lexeme =>
    rename_i ih
    have hend : l.atEnd = false := by simp [← Bool.not_eq_true, atEnd_iff_of_append hsource hoffset]
    have hcs : lexeme.text ++ cs.drop (lexeme.text.length - 1) = c :: cs :=
      Lexeme.text_front_append_drop c cs
    have hls : lexemes (c :: cs) = lexeme :: lexemes (cs.drop (lexeme.text.length - 1)) := by
      rw [lexemes]
    clear_value lexeme
    obtain ⟨_ | kind, text⟩ := lexeme
    · rw [found_cons_none]
      have hsource' : (l.advance (Text.byteLength text)).source =
          (front ++ text) ++ cs.drop (text.length - 1) := by
        rw [List.append_assoc, hcs]
        exact hsource
      have hoffset' : (l.advance (Text.byteLength text)).offset =
          Text.byteLength (front ++ text) := by
        rw [Text.byteLength_append, ← hoffset]
        rfl
      exact .skip hend hrest hls (ih hsource' hoffset' (remainder?_of_append hsource' hoffset'))
    · refine .emit hend hrest hls ?_
      rw [emit?, hrest, ← hcs]
      simp [Text.splitAt?_byteLength, found, firstToken?, advance]

end

/-- A call gives the token in front, with no cut that fails, and the stream moves on. -/
theorem Shows.finds (h : l.Shows s) :
    ∃ l', l.next? = some (s.current, l') ∧ l.Finds s.current l' ∧ l'.Shows s.next := by
  obtain ⟨l', hl', hs⟩ := h.next?
  obtain ⟨front, behind, hsource, hoffset, -, -⟩ := h
  have hfinds := finds_found hsource hoffset
  rw [Option.some_inj.1 ((next?_eq_found hsource hoffset).symm.trans hl')] at hfinds
  exact ⟨l', hl', hfinds, hs⟩

/-! ### Draining -/

/-- The lexer behind the end of its source, where the iterator has given the end token. -/
def spent (l : Lexer) : Lexer := { l with offset := Text.byteLength l.source, finished := true }

theorem Shows.offset_le (h : l.Shows s) : l.offset ≤ Text.byteLength l.source := by
  obtain ⟨front, behind, hsource, hoffset, -⟩ := h
  rw [hsource, hoffset, Text.byteLength_append]
  exact Nat.le_add_right _ _

theorem Shows.ending_eq (h : l.Shows s) : s.ending = l.ending := by
  obtain ⟨-, -, -, -, -, he⟩ := h
  exact he

theorem Shows.of_atEnd (h : l.Shows s) (hend : l.atEnd = true) :
    s.pending = [] ∧ l.offset = Text.byteLength l.source := by
  have hle : Text.byteLength l.source ≤ l.offset := by simpa [atEnd] using hend
  refine ⟨?_, Nat.le_antisymm h.offset_le hle⟩
  obtain ⟨front, behind, hsource, hoffset, hpending, -⟩ := h
  rw [hpending, (atEnd_iff_of_append hsource hoffset).1 hend, lexemes, place]

/-- What is left in the lexer is the text of the tokens that are left. -/
theorem Shows.remainder? (h : l.Shows s) : ∃ front behind, l.source = front ++ behind ∧
    l.offset = Text.byteLength front ∧ l.remainder? = some behind ∧
    s.pending = place l.file l.offset (lexemes behind) := by
  obtain ⟨front, behind, hsource, hoffset, hpending, -⟩ := h
  exact ⟨front, behind, hsource, hoffset, remainder?_of_append hsource hoffset, hpending⟩

theorem Shows.spent (h : l.Shows s) : l.spent.Shows (TokenStream.next^[s.toList.length] s) := by
  refine ⟨l.source, [], (List.append_nil _).symm, rfl, ?_, ?_⟩
  · rw [TokenStream.pending_iterate_next, TokenStream.toList, lexemes, place]
    exact List.drop_of_length_le (by simp)
  · rw [TokenStream.ending_iterate_next]
    exact h.ending_eq

theorem Shows.drain? (h : l.Shows s) (hf : l.finished = false) :
    l.drain? = some (s.toList, l.spent) := by
  rw [Lexer.drain?, if_neg (by simp [hf]), TokenStream.toList, h.ending_eq]
  by_cases hend : l.atEnd = true
  · obtain ⟨hp, ho⟩ := h.of_atEnd hend
    rw [if_pos hend, hp, Lexer.spent, ← ho]
    rfl
  · obtain ⟨front, behind, -, -, hrest, hpending⟩ := h.remainder?
    rw [if_neg hend, hrest, hpending]
    rfl

theorem Shows.iterate? (h : l.Shows s) (hf : l.finished = false) :
    ∃ l', l.iterate? = some (some s.current, l') ∧ l'.Shows s.next ∧
      l' = { l with offset := l'.offset, finished := decide (s.pending = []) } ∧
      (s.pending = [] → l' = l.spent) := by
  obtain ⟨l', hl', hfinds, hs⟩ := h.finds
  have hframe := hfinds.frame
  have hkind : decide (s.current.kind = .eof) = decide (s.pending = []) :=
    decide_eq_decide.2 s.kind_current_eq_eof_iff
  refine ⟨{ l' with finished := decide (s.pending = []) }, ?_, hs, by rw [hframe], ?_⟩
  · rw [Lexer.iterate?, if_neg (by simp [hf]), hl', ← hkind]
    rfl
  · intro hp
    have hle := hfinds.byteLength_le (s.kind_current_eq_eof_iff.2 hp)
    have hge := hs.offset_le
    rw [hframe] at hge
    have ho : l'.offset = Text.byteLength l.source := Nat.le_antisymm hge hle
    rw [hframe, ho, hp]
    rfl

theorem Shows.drains (h : l.Shows s) (hf : l.finished = false) : Drains l s.toList l.spent := by
  generalize hp : s.pending = ts
  induction ts generalizing l s with
  | nil =>
    obtain ⟨l', hl', -, -, hspent⟩ := h.iterate? hf
    rw [hspent hp] at hl'
    have hts : s.toList = [s.current] := by rw [TokenStream.toList, TokenStream.current, hp]; rfl
    rw [hts]
    exact .more hl' (.done rfl)
  | cons t ts ih =>
    obtain ⟨l', hl', hs, hframe, -⟩ := h.iterate? hf
    have hnext : s.next.pending = ts := by rw [TokenStream.pending_next, hp]; rfl
    have hts : s.toList = s.current :: s.next.toList := by
      rw [TokenStream.toList, TokenStream.toList, TokenStream.current, hnext, hp]
      rfl
    have hspent : l'.spent = l.spent := by rw [hframe]; rfl
    have hf' : l'.finished = false := by rw [hframe, hp]; rfl
    rw [hts, ← hspent]
    exact .more hl' (ih hs hf' hnext)

/-! ### The tokens of a source from an index on -/

theorem toList_eq_map (s : TokenStream) :
    s.toList = (List.range (s.pending.length + 1)).map fun i =>
      (TokenStream.next^[i] s).current := by
  apply List.ext_getElem
  · simp [TokenStream.toList]
  · intro i hi _
    simp only [TokenStream.toList, List.getElem_map, List.getElem_range, TokenStream.current,
      TokenStream.pending_iterate_next, TokenStream.ending_iterate_next,
      List.headD_eq_head?_getD, List.head?_drop]
    rcases Nat.lt_or_ge i s.pending.length with hlt | hge
    · rw [List.getElem_append_left hlt, List.getElem?_eq_getElem hlt, Option.getD_some]
    · rw [List.getElem_append_right hge, List.getElem_singleton, List.getElem?_eq_none hge,
        Option.getD_none]

theorem tokensFrom_eq_toList (source : String) (file : Option String) (k : Nat) :
    tokensFrom source file k = (TokenStream.next^[k] (.ofSource source file)).toList := by
  rw [tokensFrom, dropLast_tokenize, TokenStream.toList, TokenStream.pending_iterate_next,
    TokenStream.ending_iterate_next]
  rfl

theorem tokensFrom_eq_map (source : String) (file : Option String) (k : Nat) :
    tokensFrom source file k = (List.range (tokensFrom source file k).length).map fun i =>
      tokenAt source file (k + i) := by
  simp only [tokensFrom_eq_toList, tokenAt_eq_current, Nat.add_comm k, Function.iterate_add_apply]
  rw [toList_eq_map, List.length_map, List.length_range]

theorem kind_ne_eof_of_mem_dropLast_tokensFrom {k : Nat} :
    ∀ t ∈ (tokensFrom source file k).dropLast, t.kind ≠ .eof := by
  intro t ht
  rw [tokensFrom, List.dropLast_concat, dropLast_tokenize] at ht
  exact (TokenStream.ofSource source file).pending_ne_eof t (List.mem_of_mem_drop ht)

theorem getLast?_tokenize (source : String) (file : Option String) :
    (tokenize source file).getLast? = some (.ending (file.getD defaultFile) source.toList) :=
  List.getLast?_concat

theorem tokenAt_of_kind_eq_eof {i k : Nat} (h : (tokenAt source file i).kind = .eof)
    (hk : i ≤ k) :
    tokenAt source file k = .ending (file.getD defaultFile) source.toList := by
  rw [tokenAt_eq_current, TokenStream.kind_current_eq_eof_iff, TokenStream.pending_iterate_next,
    List.drop_eq_nil_iff] at h
  rw [tokenAt_eq_current, TokenStream.current, TokenStream.pending_iterate_next,
    TokenStream.ending_iterate_next, List.drop_of_length_le (Nat.le_trans h hk)]
  rfl

theorem map_tokenAt_prefix (source : String) (file : Option String) (n : Nat) :
    (List.range n).map (tokenAt source file) <+: tokenize source file ++
      List.replicate n (.ending (file.getD defaultFile) source.toList) := by
  rw [List.prefix_iff_eq_take]
  apply List.ext_getElem
  · simp
  · intro i hi _
    rw [List.length_map, List.length_range] at hi
    simp only [List.getElem_map, List.getElem_range, List.getElem_take, tokenAt,
      List.getD_eq_getElem?_getD]
    rcases Nat.lt_or_ge i (tokenize source file).length with hlt | hge
    · rw [List.getElem_append_left hlt, List.getElem?_eq_getElem hlt, Option.getD_some]
    · rw [List.getElem_append_right hge, List.getElem_replicate, List.getElem?_eq_none hge,
        Option.getD_none]

/-! ### Pulls one behind another -/

/-- What holds of the lexer of a source behind answers that it gave. -/
structure Behind (source : String) (file : Option String) (as : List Answer) (l : Lexer) :
    Prop where
  source_eq : l.source = source.toList
  file_eq : l.file = file.getD defaultFile
  shows : l.Shows (TokenStream.next^[count as] (.ofSource source file))
  taken_eq : as.flatMap Answer.taken = (List.range (count as)).map (tokenAt source file)
  finished_iff : l.finished = true ↔ Ended as
  iterated : ∀ t ∈ (as.flatMap Answer.iterated).dropLast, t.kind ≠ .eof

theorem behind_nil (source : String) (file : Option String) :
    Behind source file [] (ofSource source file) where
  source_eq := rfl
  file_eq := rfl
  shows := shows_ofSource source file
  taken_eq := rfl
  finished_iff := by simp [ofSource, Ended]
  iterated := List.forall_mem_nil _

theorem count_concat (as : List Answer) (a : Answer) :
    count (as ++ [a]) = count as + a.taken.length := by
  simp [count]

theorem iterated_subset_taken (a : Answer) : a.iterated ⊆ a.taken := by
  cases a <;> simp [Answer.iterated, Answer.taken]

theorem ended_concat (as : List Answer) (a : Answer) :
    Ended (as ++ [a]) ↔ Ended as ∨ ∃ t ∈ a.iterated, t.kind = .eof := by
  simp [Ended, or_and_right, exists_or]

/-- Behind one more answer, whose tokens are the next ones. -/
theorem Behind.concat {a : Answer} (h : Behind source file as l)
    (hl : l' = { l with offset := l'.offset, finished := l'.finished })
    (hs : l'.Shows (TokenStream.next^[count as + a.taken.length] (.ofSource source file)))
    (ht : a.taken = (List.range a.taken.length).map fun i => tokenAt source file (count as + i))
    (hf : l'.finished = true ↔ Ended as ∨ ∃ t ∈ a.iterated, t.kind = .eof)
    (hi : a.iterated = [] ∨ ¬ Ended as ∧ ∀ t ∈ a.iterated.dropLast, t.kind ≠ .eof) :
    Behind source file (as ++ [a]) l' where
  source_eq := by rw [hl]; exact h.source_eq
  file_eq := by rw [hl]; exact h.file_eq
  shows := by rwa [count_concat]
  taken_eq := by
    rw [count_concat, List.range_add, List.map_append, List.map_map, ← h.taken_eq,
      List.flatMap_append, List.flatMap_singleton]
    exact congrArg _ ht
  finished_iff := by rw [hf, ended_concat]
  iterated := by
    rw [List.flatMap_append, List.flatMap_singleton]
    rcases hi with hnil | ⟨hno, hi⟩
    · rw [hnil, List.append_nil]
      exact h.iterated
    · by_cases hnil : a.iterated = []
      · rw [hnil, List.append_nil]
        exact h.iterated
      · rw [List.dropLast_append_of_ne_nil hnil]
        intro t ht heof
        rcases List.mem_append.1 ht with ht | ht
        · exact hno ⟨t, ht, heof⟩
        · exact hi t ht heof

theorem Behind.concat_self {a : Answer} (h : Behind source file as l) (ht : a.taken = [])
    (hi : a.iterated = []) : Behind source file (as ++ [a]) l := by
  apply h.concat rfl
  · rw [ht]
    exact h.shows
  · rw [ht]
    rfl
  · simp [hi, h.finished_iff]
  · exact .inl hi

theorem Behind.finished_eq_false (h : Behind source file as l) (he : ¬ Ended as) :
    l.finished = false := by
  simpa using mt h.finished_iff.1 he

theorem Behind.drain?_cases (h : Behind source file as l) :
    Ended as ∧ l.drain? = some ([], l) ∧ Drains l [] l ∨
    ¬ Ended as ∧ l.drain? = some (tokensFrom source file (count as), l.spent) ∧
      Drains l (tokensFrom source file (count as)) l.spent := by
  by_cases he : Ended as
  · have hf := h.finished_iff.2 he
    exact .inl ⟨he, if_pos hf, .done (if_pos hf)⟩
  · have hf := h.finished_eq_false he
    rw [tokensFrom_eq_toList]
    exact .inr ⟨he, h.shows.drain? hf, h.shows.drains hf⟩

theorem Behind.tokenAt_of_ended (h : Behind source file as l) (he : Ended as) :
    tokenAt source file (count as) = .ending (file.getD defaultFile) source.toList := by
  obtain ⟨t, ht, heof⟩ := he
  obtain ⟨a, ha, hta⟩ := List.mem_flatMap.1 ht
  have htaken := List.mem_flatMap.2 ⟨a, ha, iterated_subset_taken a hta⟩
  rw [h.taken_eq] at htaken
  obtain ⟨i, hi, rfl⟩ := List.mem_map.1 htaken
  exact tokenAt_of_kind_eq_eof heof (Nat.le_of_lt (List.mem_range.1 hi))

def Pull.looks : Pull → Bool
  | next | iterate | drain => false
  | remainder | drainCopy => true

/-- Every pull is answered as the answers before it demand. -/
theorem Behind.pull? (h : Behind source file as l) (p : Pull) :
    ∃ a l', l.pull? p = some (a, l') ∧ Answers source file as p a ∧
      Behind source file (as ++ [a]) l' ∧ (p.looks = true → l' = l) := by
  have hcurrent := tokenAt_eq_current source file (count as)
  cases p with
  | next =>
    obtain ⟨l', hl', hfinds, hs⟩ := h.shows.finds
    have hframe := hfinds.frame
    rw [← hcurrent] at hl'
    rw [← Function.iterate_succ_apply' TokenStream.next] at hs
    refine ⟨_, l', by rw [Lexer.pull?, hl']; rfl, .next, ?_, fun hl => absurd hl (by decide)⟩
    refine h.concat (by rw [hframe]) hs rfl ?_ (.inl rfl)
    rw [hframe]
    simp [Answer.iterated, h.finished_iff]
  | iterate =>
    by_cases he : Ended as
    · have hi : l.iterate? = some (none, l) := if_pos (h.finished_iff.2 he)
      exact ⟨_, l, by rw [Lexer.pull?, hi]; rfl, .iterateEnded he, h.concat_self rfl rfl,
        fun _ => rfl⟩
    · obtain ⟨l', hl', hs, hframe, -⟩ := h.shows.iterate? (h.finished_eq_false he)
      have heof := TokenStream.kind_current_eq_eof_iff
        (TokenStream.next^[count as] (.ofSource source file))
      rw [← hcurrent] at hl' heof
      rw [← Function.iterate_succ_apply' TokenStream.next] at hs
      refine ⟨_, l', by rw [Lexer.pull?, hl']; rfl, .iterate he, ?_,
        fun hl => absurd hl (by decide)⟩
      refine h.concat (by rw [hframe]) hs rfl ?_ (.inr ⟨he, List.forall_mem_nil _⟩)
      rw [hframe]
      simp [Answer.iterated, he, heof]
  | drain =>
    rcases h.drain?_cases with ⟨he, hd, -⟩ | ⟨he, hd, -⟩
    · exact ⟨_, l, by rw [Lexer.pull?, hd]; rfl, .drainEnded he, h.concat_self rfl rfl,
        fun _ => rfl⟩
    · refine ⟨_, l.spent, by rw [Lexer.pull?, hd]; rfl, .drain he, ?_,
        fun hl => absurd hl (by decide)⟩
      refine h.concat rfl ?_ (tokensFrom_eq_map source file _) ?_ (.inr ⟨he, ?_⟩)
      · have hs := h.shows.spent
        rwa [← tokensFrom_eq_toList, ← Function.iterate_add_apply, Nat.add_comm] at hs
      · exact iff_of_true rfl (.inr ⟨_, List.mem_concat_self, rfl⟩)
      · exact kind_ne_eof_of_mem_dropLast_tokensFrom
  | remainder =>
    obtain ⟨front, behind, hsource, hoffset, hrest, hpending⟩ := h.shows.remainder?
    refine ⟨_, l, by rw [Lexer.pull?, hrest]; rfl, ?_, h.concat_self rfl rfl, fun _ => rfl⟩
    rw [h.source_eq] at hsource
    apply Answers.remainder hsource
    rw [dropLast_tokenize, ← h.file_eq, ← hoffset, ← hpending, TokenStream.pending_iterate_next]
  | drainCopy =>
    rcases h.drain?_cases with ⟨he, hd, -⟩ | ⟨he, hd, -⟩
    · exact ⟨_, l, by rw [Lexer.pull?, hd]; rfl, .drainCopyEnded he, h.concat_self rfl rfl,
        fun _ => rfl⟩
    · exact ⟨_, l, by rw [Lexer.pull?, hd]; rfl, .drainCopy he, h.concat_self rfl rfl,
        fun _ => rfl⟩

/-- No run of pulls fails, and each one leaves the lexer behind its answers. -/
theorem exists_pullAll? (ps : List Pull) (h : Behind source file as l) :
    ∃ as' l', l.pullAll? ps = some (as', l') ∧ Behind source file (as ++ as') l' := by
  induction ps generalizing as l with
  | nil => exact ⟨[], l, rfl, by rwa [List.append_nil]⟩
  | cons p ps ih =>
    obtain ⟨a, l₁, hp, -, h₁, -⟩ := h.pull? p
    obtain ⟨as', l', hps, h'⟩ := ih h₁
    rw [List.append_assoc, List.singleton_append] at h'
    refine ⟨a :: as', l', ?_, h'⟩
    rw [pullAll?, hp]
    simp [hps]

/-- In any order of pulls none fails. The tokens that the lexer gives are those of the source in
their order, and then its last one for ever, but the iterator gives that one once. Behind the pulls
any other is answered, and to look at the lexer or to drain a copy of it changes nothing. A call
looks for its token by cuts of the source that do not fail, and draining is asking the iterator. -/
theorem answers_of_pulls (source : String) (file : Option String) (ps : List Pull) :
    ∃ last as l, (tokenize source file).getLast? = some last ∧
      (ofSource source file).pullAll? ps = some (as, l) ∧
      (∃ n, as.flatMap Answer.taken <+: tokenize source file ++ List.replicate n last) ∧
      (∀ t ∈ (as.flatMap Answer.iterated).dropLast, t.kind ≠ .eof) ∧
      (Ended as → tokenAt source file (count as) = last) ∧
      (∀ p, ∃ a l', l.pull? p = some (a, l') ∧ Answers source file as p a ∧
        (p.looks = true → l' = l)) ∧
      (∃ t l', l.next? = some (t, l') ∧ l.Finds t l') ∧
      ∃ ts l', l.drain? = some (ts, l') ∧ Drains l ts l' := by
  obtain ⟨as, l, hps, h⟩ := exists_pullAll? ps (behind_nil source file)
  rw [List.nil_append] at h
  refine ⟨_, as, l, getLast?_tokenize source file, hps, ⟨count as, ?_⟩, h.iterated,
    h.tokenAt_of_ended, ?_, ?_, ?_⟩
  · rw [h.taken_eq]
    exact map_tokenAt_prefix source file _
  · intro p
    obtain ⟨a, l', hp, ha, -, hl⟩ := h.pull? p
    exact ⟨a, l', hp, ha, hl⟩
  · obtain ⟨l', hl', hfinds, -⟩ := h.shows.finds
    exact ⟨_, l', hl', hfinds⟩
  · rcases h.drain?_cases with ⟨-, hd, hdrains⟩ | ⟨-, hd, hdrains⟩
    · exact ⟨_, _, hd, hdrains⟩
    · exact ⟨_, _, hd, hdrains⟩

end MonkeySyntax.Lexer
