import Mathlib.Logic.Function.Iterate
import Mathlib.Tactic.ByContra
import MonkeySyntax.Proofs.Token.Order
import MonkeySyntax.Token.Lexer

/-! # Delivery of tokens

A lexer that is asked for one token after another gives the tokens of its source, and then the end
token for ever. It is a stream that moves by one token at each call, and two tokens taken from it in
advance are the window of the stream.
-/

namespace MonkeySyntax

/-- The token at an index. Behind the last token stands the end token, time and again. -/
def tokenAt (source : String) (file : Option String) (k : Nat) : Token :=
  (tokenize source file).getD k (.ending (file.getD defaultFile) source.toList)

/-! ### Streams -/

namespace TokenStream

variable {s s' : TokenStream} {n : Nat}

theorem eq_of_pending_of_ending (hp : s.pending = s'.pending) (he : s.ending = s'.ending) :
    s = s' := by
  cases s
  cases s'
  cases hp
  cases he
  rfl

@[simp] theorem pending_iterate_next : (next^[n] s).pending = s.pending.drop n := by
  induction n with
  | zero => rfl
  | succ n ih => simp [Function.iterate_succ_apply', ih]

@[simp] theorem ending_iterate_next : (next^[n] s).ending = s.ending := by
  induction n with
  | zero => rfl
  | succ n ih => rw [Function.iterate_succ_apply', ending_next, ih]

theorem eq_iterate_next_of_suffix (hs : s'.pending <:+ s.pending) (he : s'.ending = s.ending) :
    s' = next^[s.pending.length - s'.pending.length] s := by
  apply eq_of_pending_of_ending
  · rw [pending_iterate_next]
    exact List.suffix_iff_eq_drop.1 hs
  · rw [ending_iterate_next, he]

end TokenStream

theorem tokenAt_eq_current (source : String) (file : Option String) (k : Nat) :
    tokenAt source file k = (TokenStream.next^[k] (.ofSource source file)).current := by
  have hts : tokenize source file = (TokenStream.ofSource source file).pending ++
      [.ending (file.getD defaultFile) source.toList] := rfl
  have he : (TokenStream.ofSource source file).ending =
      .ending (file.getD defaultFile) source.toList := rfl
  rw [tokenAt, TokenStream.current, TokenStream.pending_iterate_next,
    TokenStream.ending_iterate_next, hts, he, List.headD_eq_head?_getD, List.head?_drop,
    List.getD_eq_getElem?_getD]
  rcases Nat.lt_trichotomy k (TokenStream.ofSource source file).pending.length with hk | rfl | hk
  · rw [List.getElem?_append_left hk]
  · simp
  · rw [List.getElem?_eq_none (by rw [List.length_append]; exact hk),
      List.getElem?_eq_none (by omega)]

/-! ### Lexemes -/

theorem exists_behind_of_lexemes_eq_append {cs : List Char} {ls ls' : List Lexeme}
    (h : lexemes cs = ls ++ ls') :
    ∃ behind, cs = ls.flatMap Lexeme.text ++ behind ∧ lexemes behind = ls' := by
  induction ls generalizing cs with
  | nil => exact ⟨cs, rfl, h⟩
  | cons l ls ih =>
    cases cs with
    | nil =>
      rw [lexemes] at h
      cases h
    | cons c cs =>
      rw [lexemes] at h
      obtain ⟨rfl, hrest⟩ := List.cons.inj h
      obtain ⟨behind, hcs, hls⟩ := ih hrest
      refine ⟨behind, ?_, hls⟩
      rw [List.flatMap_cons, List.append_assoc, ← hcs, Lexeme.text_front_append_drop]

namespace Lexer

variable {file : String} {offset skipped : Nat} {kind : TokenKind} {text : List Char}
  {ls : List Lexeme}

theorem place_of_firstToken?_eq_none (h : firstToken? ls = none) : place file offset ls = [] := by
  induction ls generalizing offset with
  | nil => rfl
  | cons l ls ih =>
    rw [firstToken?] at h
    rw [place]
    split at h
    · cases h
    · next hk =>
      rw [hk]
      exact ih (Option.map_eq_none_iff.1 h)

/-- The first lexeme with a kind gives the first token, and those behind it give the others. -/
theorem exists_of_firstToken?_eq_some (h : firstToken? ls = some (skipped, kind, text)) :
    ∃ front behind, ls = front ++ behind ∧
      Text.byteLength (front.flatMap Lexeme.text) = skipped + Text.byteLength text ∧
      ∀ offset, place file offset ls = Token.atOffset file (offset + skipped) kind text ::
        place file (offset + skipped + Text.byteLength text) behind := by
  induction ls generalizing skipped with
  | nil => cases h
  | cons l ls ih =>
    rw [firstToken?] at h
    split at h
    · next hk =>
      cases h
      refine ⟨[l], ls, rfl, by simp, ?_⟩
      intro offset
      rw [place, hk]
      rfl
    · next hk =>
      obtain ⟨⟨skipped, _⟩, hf, he⟩ := Option.map_eq_some_iff.1 h
      cases he
      obtain ⟨front, behind, rfl, hlen, hplace⟩ := ih hf
      refine ⟨l :: front, behind, rfl, ?_, ?_⟩
      · rw [List.flatMap_cons, Text.byteLength_append, hlen, Nat.add_assoc]
      · intro offset
        rw [place, hk]
        simp only [hplace, Nat.add_assoc]

/-! ### Lexers -/

/-- The lexer has in front of it the tokens that the stream has. -/
def Shows (l : Lexer) (s : TokenStream) : Prop :=
  ∃ front behind, l.source = front ++ behind ∧ l.offset = Text.byteLength front ∧
    s.pending = place l.file l.offset (lexemes behind) ∧ s.ending = l.ending

theorem shows_ofSource (source : String) (file : Option String) :
    (ofSource source file).Shows (.ofSource source file) :=
  ⟨[], source.toList, rfl, rfl, rfl, rfl⟩

/-- A call gives the token in front, and the stream moves on. -/
theorem Shows.next? {l : Lexer} {s : TokenStream} (h : l.Shows s) :
    ∃ l', l.next? = some (s.current, l') ∧ l'.Shows s.next := by
  obtain ⟨front, behind, hsource, hoffset, hpending, hending⟩ := h
  have hrest : l.remainder? = some behind := by
    rw [remainder?, hsource, hoffset, Text.splitAt?_byteLength]
    rfl
  rw [Lexer.next?]
  by_cases hend : l.atEnd = true
  · -- nothing is left, and neither the lexer nor the stream moves
    have hnil : behind = [] := by
      by_contra hne
      have := Text.byteLength_pos hne
      simp only [atEnd, hsource, hoffset, Text.byteLength_append, decide_eq_true_eq] at hend
      omega
    subst hnil
    have hp : s.pending = [] := by rw [hpending, lexemes, place]
    refine ⟨l, ?_, front, [], hsource, hoffset, ?_, hending⟩
    · simp [hend, TokenStream.current, hp, hending]
    · simp [hp, lexemes, place]
  · rw [if_neg hend, hrest]
    cases hf : firstToken? (lexemes behind) with
    | none =>
      -- only blanks are left
      have hp : s.pending = [] := by rw [hpending, place_of_firstToken?_eq_none hf]
      refine ⟨{ l with offset := Text.byteLength l.source }, ?_, l.source, [], ?_, rfl, ?_, hending⟩
      · simp [hf, TokenStream.current, hp, hending]
      · simp
      · simp [hp, lexemes, place]
    | some found =>
      obtain ⟨skipped, kind, text⟩ := found
      obtain ⟨ls, ls', hls, hlen, hplace⟩ := exists_of_firstToken?_eq_some hf
      obtain ⟨behind', rfl, rfl⟩ := exists_behind_of_lexemes_eq_append hls
      rw [hplace] at hpending
      refine ⟨(l.advance skipped).advance (Text.byteLength text), ?_,
        front ++ ls.flatMap Lexeme.text, behind', ?_, ?_, ?_, hending⟩
      · simp [hf, TokenStream.current, hpending, advance]
      · simp [advance, hsource]
      · simp [advance, hoffset, hlen, Nat.add_assoc]
      · simp [advance, hpending]

def after? (l : Lexer) : Nat → Option Lexer
  | 0 => some l
  | n + 1 => do
    let (_, l) ← (← l.after? n).next?
    some l

end Lexer

/-! ### Windows -/

/-- Two tokens taken from a lexer in advance, and the lexer behind them. -/
structure Window where
  current : Token
  peek : Token
  lexer : Lexer

namespace Window

variable {l : Lexer} {s : TokenStream} {w w' : Window} {n : Nat}

def ofLexer? (l : Lexer) : Option Window := do
  let (current, l) ← l.next?
  let (peek, l) ← l.next?
  some ⟨current, peek, l⟩

def advance? (w : Window) : Option Window := do
  let (t, l) ← w.lexer.next?
  some ⟨w.peek, t, l⟩

def after? (w : Window) : Nat → Option Window
  | 0 => some w
  | n + 1 => do (← w.after? n).advance?

/-- The tokens are the first two of the stream, and the lexer has those behind them. -/
structure Shows (w : Window) (s : TokenStream) : Prop where
  current_eq : w.current = s.current
  peek_eq : w.peek = s.peek
  lexer_shows : w.lexer.Shows s.next.next

theorem exists_shows_ofLexer? (h : l.Shows s) : ∃ w, ofLexer? l = some w ∧ w.Shows s := by
  obtain ⟨l₁, hl₁, hs₁⟩ := h.next?
  obtain ⟨l₂, hl₂, hs₂⟩ := hs₁.next?
  refine ⟨⟨s.current, s.peek, l₂⟩, ?_, rfl, rfl, hs₂⟩
  simp [ofLexer?, hl₁, hl₂]

theorem Shows.advance? (h : w.Shows s) : ∃ w', w.advance? = some w' ∧ w'.Shows s.next := by
  obtain ⟨l', hl, hs⟩ := h.lexer_shows.next?
  refine ⟨⟨w.peek, s.next.peek, l'⟩, ?_, h.peek_eq, rfl, hs⟩
  simp [Window.advance?, hl]

theorem Shows.after? (h : w.Shows s) (n : Nat) :
    ∃ w', w.after? n = some w' ∧ w'.Shows (TokenStream.next^[n] s) := by
  induction n with
  | zero => exact ⟨w, rfl, h⟩
  | succ n ih =>
    obtain ⟨w₁, hw₁, hs₁⟩ := ih
    obtain ⟨w₂, hw₂, hs₂⟩ := hs₁.advance?
    refine ⟨w₂, ?_, ?_⟩
    · simp [Window.after?, hw₁, hw₂]
    · rw [Function.iterate_succ_apply']
      exact hs₂

/-- The lexer behind a window is two tokens ahead of it. -/
theorem lexer_after? (hw : ofLexer? l = some w) (hn : w.after? n = some w') :
    l.after? (n + 2) = some w'.lexer := by
  induction n generalizing w' with
  | zero =>
    cases hn
    simp only [ofLexer?, Option.bind_eq_bind, Option.bind_eq_some_iff, Prod.exists,
      Option.some.injEq] at hw
    obtain ⟨t, l₁, hl₁, u, l₂, hl₂, rfl⟩ := hw
    simp [Lexer.after?, hl₁, hl₂]
  | succ n ih =>
    obtain ⟨w₁, hw₁, hadvance⟩ := Option.bind_eq_some_iff.1 hn
    simp only [advance?, Option.bind_eq_bind, Option.bind_eq_some_iff, Prod.exists,
      Option.some.injEq] at hadvance
    obtain ⟨t, l', hl', rfl⟩ := hadvance
    rw [Lexer.after?, ih hw₁]
    simp [hl']

end Window

end MonkeySyntax
