import MonkeySyntax.Token.Basic
import MonkeySyntax.Token.Lexeme

/-! # Token streams

The tokens of a source are its lexemes with a kind, each at its place, and the end token at the
end. A `TokenStream` reads them through a window of two tokens; after the last token it shows the
end token for ever.
-/

namespace MonkeySyntax

def Token.atOffset (file : String) (offset : Nat) (kind : TokenKind) (text : List Char) : Token :=
  ⟨kind, String.ofList text,
    ⟨⟨.ofNat offset, file⟩, ⟨.ofNat (offset + Text.byteLength text), file⟩⟩⟩

/-- Place lexemes one after another from a byte offset; blanks take room and give no token. -/
def place (file : String) (offset : Nat) : List Lexeme → List Token
  | [] => []
  | l :: ls =>
    let rest := place file (offset + Text.byteLength l.text) ls
    match l.kind? with
    | none => rest
    | some kind => Token.atOffset file offset kind l.text :: rest

theorem kind_ne_eof_of_mem_place {file : String} {ls : List Lexeme}
    (hl : ∀ l ∈ ls, l.kind? ≠ some .eof) {offset : Nat} {t : Token}
    (ht : t ∈ place file offset ls) : t.kind ≠ .eof := by
  induction ls generalizing offset with
  | nil => cases ht
  | cons l ls ih =>
    have hls : ∀ l' ∈ ls, l'.kind? ≠ some .eof := fun l' h => hl l' (List.mem_cons_of_mem _ h)
    rw [place] at ht
    split at ht
    · exact ih hls ht
    · next k hk =>
      rcases List.mem_cons.1 ht with rfl | ht
      · have := hl l List.mem_cons_self
        rw [hk] at this
        simpa [Token.atOffset] using this
      · exact ih hls ht

def Token.ending (file : String) (source : List Char) : Token :=
  Token.atOffset file (Text.byteLength source) .eof []

structure TokenStream where
  pending : List Token
  ending : Token
  pending_ne_eof : ∀ t ∈ pending, t.kind ≠ .eof
  ending_eq_eof : ending.kind = .eof

namespace TokenStream

def ofSource (source : String) (file : Option String) : TokenStream :=
  let file := file.getD defaultFile
  { pending := place file 0 (lexemes source.toList)
    ending := Token.ending file source.toList
    pending_ne_eof := fun _ => kind_ne_eof_of_mem_place fun _ => kind?_ne_eof_of_mem_lexemes
    ending_eq_eof := rfl }

def current (s : TokenStream) : Token := s.pending.headD s.ending

def peek (s : TokenStream) : Token := s.pending.tail.headD s.ending

def next (s : TokenStream) : TokenStream :=
  { s with
    pending := s.pending.tail
    pending_ne_eof := fun t h => s.pending_ne_eof t (List.mem_of_mem_tail h) }

def toList (s : TokenStream) : List Token := s.pending ++ [s.ending]

@[simp] theorem current_next (s : TokenStream) : s.next.current = s.peek := rfl

@[simp] theorem pending_next (s : TokenStream) : s.next.pending = s.pending.tail := rfl

@[simp] theorem ending_next (s : TokenStream) : s.next.ending = s.ending := rfl

theorem kind_current_eq_eof_iff (s : TokenStream) : s.current.kind = .eof ↔ s.pending = [] := by
  rw [current]
  cases h : s.pending with
  | nil => simp [s.ending_eq_eof]
  | cons t ts => simpa using s.pending_ne_eof t (by simp [h])

theorem length_pending_next (s : TokenStream) : s.next.pending.length = s.pending.length - 1 :=
  List.length_tail

end TokenStream

/-- The tokens of a source, up to and including the end token. -/
def tokenize (source : String) (file : Option String) : List Token :=
  (TokenStream.ofSource source file).toList

theorem dropLast_tokenize (source : String) (file : Option String) :
    (tokenize source file).dropLast = (TokenStream.ofSource source file).pending :=
  List.dropLast_concat

end MonkeySyntax
