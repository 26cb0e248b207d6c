import MonkeySyntax.Proofs.Expression.Shape

/-! # Trees with other tokens

Trees that differ only in their tokens: a map of tokens acts on a whole tree. Erasing the spans is
such a map, and trees are equal apart from spans if they are equal when all spans are erased.
-/

namespace MonkeySyntax

/-- A token of a kind and a text that stands nowhere. -/
def Token.plain (kind : TokenKind) (literal : String) : Token := ⟨kind, literal, ⟨0, ""⟩, ⟨0, ""⟩⟩

def Token.bare (t : Token) : Token := .plain t.kind t.literal

def Expr.mapTokens (f : Token → Token) : Expr → Expr
  | name t value => name (f t) value
  | integer t value => integer (f t) value
  | prefixOp t operator r => prefixOp (f t) operator (r.mapTokens f)
  | infixOp t operator l r => infixOp (f t) operator (l.mapTokens f) (r.mapTokens f)

def Statement.mapTokens (f : Token → Token) : Statement → Statement
  | binding t n name => binding (f t) (f n) name
  | returning t => returning (f t)
  | expression t e => expression (f t) (e.mapTokens f)

namespace Expr

def bare (e : Expr) : Expr := e.mapTokens Token.bare

variable {f : Token → Token} {e : Expr} {floor : Precedence}

@[simp] theorem mapTokens_name (f : Token → Token) (t : Token) (value : String) :
    (name t value).mapTokens f = name (f t) value := rfl

@[simp] theorem mapTokens_integer (f : Token → Token) (t : Token) (value : Int64) :
    (integer t value).mapTokens f = integer (f t) value := rfl

@[simp] theorem mapTokens_prefixOp (f : Token → Token) (t : Token) (operator : String) (r : Expr) :
    (prefixOp t operator r).mapTokens f = prefixOp (f t) operator (r.mapTokens f) := rfl

@[simp] theorem mapTokens_infixOp (f : Token → Token) (t : Token) (operator : String)
    (l r : Expr) : (infixOp t operator l r).mapTokens f =
      infixOp (f t) operator (l.mapTokens f) (r.mapTokens f) := rfl

theorem tokens_mapTokens (f : Token → Token) (e : Expr) :
    (e.mapTokens f).tokens = e.tokens.map f := by
  induction e <;> simp_all [tokens]

theorem need_mapTokens (f : Token → Token) (e : Expr) : (e.mapTokens f).need = e.need := by
  induction e <;> simp_all [need]

section Kind

variable (hk : ∀ t, (f t).kind = t.kind)

include hk

theorem root?_mapTokens (e : Expr) : (e.mapTokens f).root? = e.root? := by
  cases e <;> simp [root?, hk]

theorem shaped_mapTokens_iff : (e.mapTokens f).Shaped ↔ e.Shaped := by
  induction e <;> simp_all [Shaped, AtLeast, Above, root?_mapTokens hk]

theorem written_mapTokens_iff (hl : ∀ t, (f t).literal = t.literal) :
    (e.mapTokens f).Written ↔ e.Written := by
  induction e <;> simp_all [Written]

end Kind

theorem shaped_bare_iff : e.bare.Shaped ↔ e.Shaped := shaped_mapTokens_iff fun _ => rfl

theorem written_bare_iff : e.bare.Written ↔ e.Written :=
  written_mapTokens_iff (fun _ => rfl) fun _ => rfl

theorem tokens_bare (e : Expr) : e.bare.tokens = e.tokens.map Token.bare :=
  tokens_mapTokens Token.bare e

theorem need_bare (e : Expr) : e.bare.need = e.need := need_mapTokens Token.bare e

theorem of_bare_eq {e' : Expr} (h : e'.bare = e.bare) :
    (e'.Written ↔ e.Written) ∧ (e'.Shaped ↔ e.Shaped) ∧ e'.need = e.need := by
  refine ⟨?_, ?_, ?_⟩
  · rw [← written_bare_iff, h, written_bare_iff]
  · rw [← shaped_bare_iff, h, shaped_bare_iff]
  · rw [← need_bare, h, need_bare]

/-- Tokens with the same images as those of a tree are the tokens of a tree with the same image. -/
theorem exists_mapTokens_eq {ts : List Token} (h : ts.map f = e.tokens.map f) :
    ∃ e' : Expr, e'.tokens = ts ∧ e'.mapTokens f = e.mapTokens f := by
  induction e generalizing ts with
  | name t v =>
    obtain ⟨t', rfl, ht⟩ : ∃ t', ts = [t'] ∧ f t' = f t := by simpa [tokens] using h
    exact ⟨name t' v, rfl, by rw [mapTokens, mapTokens, ht]⟩
  | integer t v =>
    obtain ⟨t', rfl, ht⟩ : ∃ t', ts = [t'] ∧ f t' = f t := by simpa [tokens] using h
    exact ⟨integer t' v, rfl, by rw [mapTokens, mapTokens, ht]⟩
  | prefixOp t o r ih =>
    obtain ⟨t', us, rfl, ht, hus⟩ := List.map_eq_cons_iff.1 h
    obtain ⟨r', rfl, hr⟩ := ih hus
    exact ⟨prefixOp t' o r', rfl, by rw [mapTokens, mapTokens, ht, hr]⟩
  | infixOp t o l r ihl ihr =>
    rw [tokens, List.map_append, List.map_cons] at h
    obtain ⟨us, vs, rfl, hus, hvs⟩ := List.map_eq_append_iff.1 h
    obtain ⟨t', ws, rfl, ht, hws⟩ := List.map_eq_cons_iff.1 hvs
    obtain ⟨l', rfl, hl⟩ := ihl hus
    obtain ⟨r', rfl, hr⟩ := ihr hws
    exact ⟨infixOp t' o l' r', rfl, by rw [mapTokens, mapTokens, ht, hl, hr]⟩

end Expr

theorem Expr.mapTokens_id (e : Expr) : e.mapTokens id = e := by
  induction e <;> simp_all [mapTokens]

theorem Statement.mapTokens_id (s : Statement) : s.mapTokens id = s := by
  cases s <;> simp [mapTokens, Expr.mapTokens_id]

end MonkeySyntax
