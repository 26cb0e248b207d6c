import Mathlib.Logic.ExistsUnique
import MonkeySyntax.Proofs.Expression.Shape

/-! # Chains of operands

Written without its tree, an expression is a chain: operands with infix operators between them. Each
chain has exactly one tree that is written and shaped. `attach` builds it from the left, operator by
operator, and `links` takes it apart again.
-/

namespace MonkeySyntax

/-- A name or an integer, behind any number of prefix operators. -/
inductive IsOperand : List Token → Prop where
  | name {t : Token} (hk : t.kind = .identifier) : IsOperand [t]
  | integer {t : Token} (hk : t.kind = .integer)
      (hv : (Numeral.decode? t.literal).isSome = true) : IsOperand [t]
  | prefixOp {t : Token} {ts : List Token} (hk : t.kind.isPrefixOp = true) (h : IsOperand ts) :
      IsOperand (t :: ts)

inductive IsChain : List Token → Prop where
  | operand {ts : List Token} (h : IsOperand ts) : IsChain ts
  | infixOp {ts us : List Token} {t : Token} (h : IsChain ts) (hk : t.kind.isInfixOp = true)
      (h' : IsOperand us) : IsChain (ts ++ t :: us)

theorem IsChain.append {ts us : List Token} {t : Token} (h : IsChain ts)
    (hk : t.kind.isInfixOp = true) (h' : IsChain us) : IsChain (ts ++ t :: us) := by
  induction h' with
  | operand h' => exact .infixOp h hk h'
  | infixOp _ hk' h' ih =>
    have := ih.infixOp hk' h'
    rwa [List.append_assoc] at this

namespace Expr

variable {a b e l r x : Expr} {t : Token} {floor : Precedence}

/-- An expression that is no infix operator, in a form in which the parser reads it. -/
structure Operand (e : Expr) : Prop where
  written : e.Written
  shaped : e.Shaped
  root?_eq : e.root? = none

theorem Operand.of_prefixOp {o : String} (h : (prefixOp t o r).Operand) : r.Operand :=
  ⟨h.written.2.2, h.shaped.2, h.shaped.1⟩

theorem Operand.isOperand (h : e.Operand) : IsOperand e.tokens := by
  induction e with
  | name t v => exact .name h.written.1
  | integer t v => exact .integer h.written.1 (by rw [h.written.2]; rfl)
  | prefixOp t o r ih => exact .prefixOp h.written.1 (ih h.of_prefixOp)
  | infixOp t o l r => cases h.root?_eq

theorem isChain_tokens (hw : e.Written) (hs : e.Shaped) : IsChain e.tokens := by
  induction e with
  | infixOp t o l r ihl ihr => exact (ihl hw.2.2.1 hs.2.2.1).append hw.1 (ihr hw.2.2.2 hs.2.2.2)
  | _ => exact .operand (Operand.isOperand ⟨hw, hs, rfl⟩)

theorem exists_operand {ts : List Token} (h : IsOperand ts) :
    ∃ e : Expr, e.Operand ∧ e.tokens = ts := by
  induction h with
  | @name t hk => exact ⟨name t t.literal, ⟨⟨hk, rfl⟩, trivial, rfl⟩, rfl⟩
  | @integer t hk hv =>
    obtain ⟨v, hv⟩ := Option.isSome_iff_exists.1 hv
    exact ⟨integer t v, ⟨⟨hk, hv⟩, trivial, rfl⟩, rfl⟩
  | @prefixOp t ts hk _ ih =>
    obtain ⟨r, hr, rfl⟩ := ih
    exact ⟨prefixOp t t.literal r, ⟨⟨hk, rfl, hr.written⟩, ⟨hr.root?_eq, hr.shaped⟩, rfl⟩, rfl⟩

/-! ### Building the tree of a chain -/

/-- Put an infix operator and its right operand behind an expression: the operator takes as its
left side what binds at least as tightly. -/
def attach (t : Token) : Expr → Expr → Expr
  | infixOp u o l r, x =>
    if u.kind.precedence < t.kind.precedence then infixOp u o l (attach t r x)
    else infixOp t t.literal (infixOp u o l r) x
  | e, x => infixOp t t.literal e x

theorem attach_of_atLeast (h : e.AtLeast t.kind.precedence) :
    e.attach t x = infixOp t t.literal e x := by
  cases e with
  | infixOp u o l r => exact if_neg (Precedence.not_lt.2 (h _ rfl))
  | _ => rfl

theorem attach_of_lt {u : Token} {o : String} (h : u.kind.precedence < t.kind.precedence) :
    (infixOp u o l r).attach t x = infixOp u o l (r.attach t x) :=
  if_pos h

theorem atLeast_or_lt (q : Precedence) (e : Expr) :
    e.AtLeast q ∨ ∃ u o l r, e = infixOp u o l r ∧ u.kind.precedence < q := by
  cases e with
  | infixOp u o l r =>
    rcases Nat.lt_or_ge u.kind.precedence.rank q.rank with h | h
    · exact .inr ⟨u, o, l, r, rfl, h⟩
    · exact .inl (by rintro _ ⟨⟩; exact h)
  | _ => exact .inl (by rintro _ ⟨⟩)

theorem tokens_attach : (e.attach t x).tokens = e.tokens ++ t :: x.tokens := by
  fun_induction attach t e x <;> simp_all [tokens]

theorem written_attach (he : e.Written) (ht : t.kind.isInfixOp = true) (hx : x.Written) :
    (e.attach t x).Written := by
  fun_induction attach t e x with
  | case1 u o l r x _ ih => exact ⟨he.1, he.2.1, he.2.2.1, ih he.2.2.2 hx⟩
  | _ => exact ⟨ht, rfl, he, hx⟩

theorem above_attach (he : e.Above floor) (ht : floor < t.kind.precedence) :
    (e.attach t x).Above floor := by
  rcases e.atLeast_or_lt t.kind.precedence with h | ⟨u, o, l, r, rfl, h⟩
  · rw [attach_of_atLeast h]
    rintro _ ⟨⟩
    exact ht
  · rw [attach_of_lt h]
    exact he

theorem shaped_attach (he : e.Shaped) (hx : x.Shaped) (hr : x.root? = none) :
    (e.attach t x).Shaped := by
  induction e with
  | infixOp u o l r _ ih =>
    rcases (infixOp u o l r).atLeast_or_lt t.kind.precedence with h | ⟨_, _, _, _, ⟨⟩, h⟩
    · rw [attach_of_atLeast h]
      exact ⟨h, above_of_root?_eq_none hr, he, hx⟩
    · rw [attach_of_lt h]
      exact ⟨he.1, above_attach he.2.1 h, he.2.2.1, ih he.2.2.2⟩
  | _ => exact ⟨by rintro _ ⟨⟩, above_of_root?_eq_none hr, he, hx⟩

theorem exists_of_isChain {ts : List Token} (h : IsChain ts) :
    ∃ e : Expr, e.Written ∧ e.Shaped ∧ e.tokens = ts := by
  induction h with
  | operand h =>
    obtain ⟨e, he, rfl⟩ := exists_operand h
    exact ⟨e, he.written, he.shaped, rfl⟩
  | @infixOp ts us t _ hk h ih =>
    obtain ⟨e, hw, hs, rfl⟩ := ih
    obtain ⟨x, hx, rfl⟩ := exists_operand h
    exact ⟨e.attach t x, written_attach hw hk hx.written, shaped_attach hs hx.shaped hx.root?_eq,
      tokens_attach⟩

/-! ### Taking a tree apart -/

def first : Expr → Expr
  | infixOp _ _ l _ => l.first
  | e => e

/-- The infix operators of a tree from left to right, each with the operand behind it. -/
def links : Expr → List (Token × Expr)
  | infixOp t _ l r => l.links ++ (t, r.first) :: r.links
  | _ => []

def linkTokens (ls : List (Token × Expr)) : List Token := ls.flatMap fun x => x.1 :: x.2.tokens

def ofLinks (e : Expr) (ls : List (Token × Expr)) : Expr :=
  ls.foldl (fun e x => e.attach x.1 x.2) e

theorem tokens_eq_first_append_links (e : Expr) :
    e.tokens = e.first.tokens ++ linkTokens e.links := by
  induction e with
  | infixOp t o l r ihl ihr => simp [tokens, first, links, linkTokens, ihl, ihr]
  | _ => simp [first, links, linkTokens]

theorem head?_tokens (e : Expr) : e.tokens.head? = some e.first.token := by
  induction e with
  | infixOp t o l r ihl _ => rw [tokens, List.head?_append, ihl, first, Option.some_or]
  | _ => rfl

theorem token_first {ts : List Token} (h : e.tokens = t :: ts) : e.first.token = t := by
  have hhead := e.head?_tokens
  rw [h] at hhead
  exact (Option.some.inj hhead).symm

theorem operand_first (hw : e.Written) (hs : e.Shaped) : e.first.Operand := by
  induction e with
  | infixOp t o l r ihl _ => exact ihl hw.2.2.1 hs.2.2.1
  | _ => exact ⟨hw, hs, rfl⟩

theorem operand_of_mem_links (hw : e.Written) (hs : e.Shaped) : ∀ y ∈ e.links, y.2.Operand := by
  induction e with
  | infixOp t o l r ihl ihr =>
    simp only [links, List.forall_mem_append, List.forall_mem_cons]
    exact ⟨ihl hw.2.2.1 hs.2.2.1, operand_first hw.2.2.2 hs.2.2.2, ihr hw.2.2.2 hs.2.2.2⟩
  | _ => simp [links]

theorem lt_of_mem_links (hs : e.Shaped) (ha : e.Above floor) :
    ∀ y ∈ e.links, floor < y.1.kind.precedence := by
  induction e generalizing floor with
  | infixOp t o l r ihl ihr =>
    have ht := ha _ rfl
    simp only [links, List.forall_mem_append, List.forall_mem_cons]
    refine ⟨ihl hs.2.2.1 (hs.1.above ht), ht, fun y hy => ?_⟩
    exact Precedence.lt_of_lt_of_le ht (Precedence.le_of_lt (ihr hs.2.2.2 hs.2.1 y hy))
  | _ => simp [links]

/-- Links that bind tighter than the root all go to its right operand. -/
theorem ofLinks_infixOp {o : String} {ls : List (Token × Expr)}
    (h : ∀ y ∈ ls, t.kind.precedence < y.1.kind.precedence) :
    (infixOp t o l r).ofLinks ls = infixOp t o l (r.ofLinks ls) := by
  induction ls generalizing r with
  | nil => rfl
  | cons y ls ih =>
    rw [List.forall_mem_cons] at h
    rw [ofLinks, List.foldl_cons, attach_of_lt h.1, ← ofLinks, ih h.2]
    rfl

theorem ofLinks_links (hw : e.Written) (hs : e.Shaped) : e.first.ofLinks e.links = e := by
  induction e with
  | infixOp t o l r ihl ihr =>
    have hlt := lt_of_mem_links hs.2.2.2 hs.2.1
    calc (infixOp t o l r).first.ofLinks (infixOp t o l r).links
        = ((l.first.ofLinks l.links).attach t r.first).ofLinks r.links := by
          simp [first, links, ofLinks]
      _ = (infixOp t o l r.first).ofLinks r.links := by
          rw [ihl hw.2.2.1 hs.2.2.1, attach_of_atLeast hs.1, hw.2.1]
      _ = infixOp t o l r := by
          rw [ofLinks_infixOp hlt, ihr hw.2.2.2 hs.2.2.2]
  | _ => rfl

theorem Operand.eq_of_append_eq {ts us : List Token} (ha : a.Operand) (hb : b.Operand)
    (h : a.tokens ++ ts = b.tokens ++ us) : a = b ∧ ts = us := by
  induction a generalizing b with
  | infixOp t o l r => cases ha.root?_eq
  | name t v =>
    obtain ⟨hk, rfl⟩ := ha.written
    cases b with
    | name t' v' =>
      obtain ⟨-, rfl⟩ := hb.written
      obtain ⟨rfl, rfl⟩ := List.cons.inj h
      exact ⟨rfl, rfl⟩
    | infixOp t' o' l' r' => cases hb.root?_eq
    | _ =>
      obtain ⟨rfl, -⟩ := List.cons.inj h
      have := hb.written.1
      simp [hk, TokenKind.isPrefixOp] at this
  | integer t v =>
    obtain ⟨hk, hv⟩ := ha.written
    cases b with
    | integer t' v' =>
      obtain ⟨rfl, rfl⟩ := List.cons.inj h
      exact ⟨by rw [Option.some.inj (hv.symm.trans hb.written.2)], rfl⟩
    | infixOp t' o' l' r' => cases hb.root?_eq
    | _ =>
      obtain ⟨rfl, -⟩ := List.cons.inj h
      have := hb.written.1
      simp [hk, TokenKind.isPrefixOp] at this
  | prefixOp t o r ih =>
    obtain ⟨hk, rfl, -⟩ := ha.written
    cases b with
    | prefixOp t' o' r' =>
      obtain ⟨rfl, hrest⟩ := List.cons.inj h
      obtain ⟨rfl, rfl⟩ := ih ha.of_prefixOp hb.of_prefixOp hrest
      exact ⟨by rw [hb.written.2.1], rfl⟩
    | infixOp t' o' l' r' => cases hb.root?_eq
    | _ =>
      obtain ⟨rfl, -⟩ := List.cons.inj h
      simp [hb.written.1, TokenKind.isPrefixOp] at hk

theorem eq_of_linkTokens_eq {ls ls' : List (Token × Expr)} (hl : ∀ y ∈ ls, y.2.Operand)
    (hl' : ∀ y ∈ ls', y.2.Operand) (h : linkTokens ls = linkTokens ls') : ls = ls' := by
  induction ls generalizing ls' with
  | nil => cases ls' <;> simp_all [linkTokens]
  | cons y ls ih =>
    cases ls' with
    | nil => simp [linkTokens] at h
    | cons y' ls' =>
      rw [List.forall_mem_cons] at hl hl'
      simp only [linkTokens, List.flatMap_cons, List.cons_append] at h
      obtain ⟨ht, h⟩ := List.cons.inj h
      obtain ⟨he, h⟩ := hl.1.eq_of_append_eq hl'.1 h
      rw [Prod.ext ht he, ih hl.2 hl'.2 h]

theorem eq_of_tokens_eq (ha : a.Written) (ha' : a.Shaped) (hb : b.Written) (hb' : b.Shaped)
    (h : a.tokens = b.tokens) : a = b := by
  rw [a.tokens_eq_first_append_links, b.tokens_eq_first_append_links] at h
  obtain ⟨hf, hl⟩ := (operand_first ha ha').eq_of_append_eq (operand_first hb hb') h
  have hl := eq_of_linkTokens_eq (operand_of_mem_links ha ha') (operand_of_mem_links hb hb') hl
  rw [← ofLinks_links ha ha', ← ofLinks_links hb hb', hf, hl]

end Expr

/-- The chains are the token lists of written and shaped trees, each of one tree. -/
theorem isChain_iff_existsUnique {ts : List Token} :
    IsChain ts ↔ ∃! e : Expr, e.Written ∧ e.Shaped ∧ e.tokens = ts := by
  constructor
  · intro h
    obtain ⟨e, hw, hs, rfl⟩ := Expr.exists_of_isChain h
    exact ⟨e, ⟨hw, hs, rfl⟩, fun e' ⟨hw', hs', h'⟩ => Expr.eq_of_tokens_eq hw' hs' hw hs h'⟩
  · rintro ⟨e, ⟨hw, hs, rfl⟩, -⟩
    exact Expr.isChain_tokens hw hs

end MonkeySyntax
