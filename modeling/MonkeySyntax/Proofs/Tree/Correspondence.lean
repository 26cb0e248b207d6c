import Mathlib.Data.List.Forall2
import MonkeySyntax.Proofs.Tree.MapTokens
import MonkeySyntax.SyntaxError

/-! # Corresponding trees and errors

A relation of tokens extends to trees of one form whose tokens are related, and to errors of one
cause that stand at related tokens. For the graph of a map these are the images of the map.
-/

namespace MonkeySyntax

variable {same : Token → Token → Prop} {f : Token → Token}

/-- The trees differ in no more than their tokens, which are related one to one. -/
inductive Expr.Alike (same : Token → Token → Prop) : Expr → Expr → Prop where
  | name {t t' : Token} {value : String} (h : same t t') :
      Alike same (.name t value) (.name t' value)
  | integer {t t' : Token} {value : Int64} (h : same t t') :
      Alike same (.integer t value) (.integer t' value)
  | prefixOp {t t' : Token} {operator : String} {r r' : Expr} (h : same t t')
      (hr : Alike same r r') : Alike same (.prefixOp t operator r) (.prefixOp t' operator r')
  | infixOp {t t' : Token} {operator : String} {l l' r r' : Expr} (h : same t t')
      (hl : Alike same l l') (hr : Alike same r r') :
      Alike same (.infixOp t operator l r) (.infixOp t' operator l' r')

inductive Statement.Alike (same : Token → Token → Prop) : Statement → Statement → Prop where
  | binding {t t' n n' : Token} {name : String} (h : same t t') (hn : same n n') :
      Alike same (.binding t n name) (.binding t' n' name)
  | returning {t t' : Token} (h : same t t') : Alike same (.returning t) (.returning t')
  | expression {t t' : Token} {e e' : Expr} (h : same t t') (he : e.Alike same e') :
      Alike same (.expression t e) (.expression t' e')

structure SyntaxError.Alike (same : Token → Token → Prop) (e e' : SyntaxError) : Prop where
  cause_eq : e.cause = e'.cause
  position : ∃ t t', same t t' ∧ e.position = t.start ∧ e'.position = t'.start

theorem Expr.Alike.eq_mapTokens {e e' : Expr} (h : e.Alike (fun t t' => t = f t') e') :
    e = e'.mapTokens f := by
  induction h with
  | name h => rw [mapTokens, h]
  | integer h => rw [mapTokens, h]
  | prefixOp h _ ih => rw [mapTokens, h, ih]
  | infixOp h _ _ ihl ihr => rw [mapTokens, h, ihl, ihr]

theorem Statement.Alike.eq_mapTokens {s s' : Statement} (h : s.Alike (fun t t' => t = f t') s') :
    s = s'.mapTokens f := by
  cases h with
  | binding h hn => rw [mapTokens, h, hn]
  | returning h => rw [mapTokens, h]
  | expression h he => rw [mapTokens, h, he.eq_mapTokens]

theorem Expr.Alike.mapTokens_eq {e e' : Expr} (h : e.Alike same e')
    (hf : ∀ t t', same t t' → f t = f t') : e.mapTokens f = e'.mapTokens f := by
  induction h with
  | name h => rw [mapTokens, mapTokens, hf _ _ h]
  | integer h => rw [mapTokens, mapTokens, hf _ _ h]
  | prefixOp h _ ih => rw [mapTokens, mapTokens, hf _ _ h, ih]
  | infixOp h _ _ ihl ihr => rw [mapTokens, mapTokens, hf _ _ h, ihl, ihr]

theorem Statement.Alike.mapTokens_eq {s s' : Statement} (h : s.Alike same s')
    (hf : ∀ t t', same t t' → f t = f t') : s.mapTokens f = s'.mapTokens f := by
  cases h with
  | binding h hn => rw [mapTokens, mapTokens, hf _ _ h, hf _ _ hn]
  | returning h => rw [mapTokens, mapTokens, hf _ _ h]
  | expression h he => rw [mapTokens, mapTokens, hf _ _ h, he.mapTokens_eq hf]

theorem SyntaxError.Alike.eq_map {f : Token → Token} {g : Position → Position} {e e' : SyntaxError}
    (h : e.Alike (fun t t' => t = f t') e') (hf : ∀ t, (f t).start = g t.start) :
    e = ⟨e'.cause, g e'.position⟩ := by
  obtain ⟨hc, t, t', rfl, hp, hp'⟩ := h
  cases e
  simp_all

theorem Statement.Alike.eq {s s' : Statement} (h : s.Alike same s')
    (hs : ∀ t t', same t t' → t = t') : s = s' := by
  have hid := h.mapTokens_eq (f := id) hs
  rwa [mapTokens_id, mapTokens_id] at hid

theorem SyntaxError.Alike.eq {e e' : SyntaxError} (h : e.Alike same e')
    (hs : ∀ t t', same t t' → t = t') : e = e' := by
  obtain ⟨hc, t, t', ht, hp, hp'⟩ := h
  cases hs t t' ht
  cases e
  cases e'
  simp_all

theorem map_eq_map_of_forall₂ {α β γ : Type} {r : α → β → Prop} {f : α → γ} {g : β → γ}
    {as : List α} {bs : List β} (h : List.Forall₂ r as bs) (hr : ∀ a b, r a b → f a = g b) :
    as.map f = bs.map g := by
  induction h with
  | nil => rfl
  | cons hab _ ih => rw [List.map_cons, List.map_cons, hr _ _ hab, ih]

theorem eq_map_of_forall₂ {α β : Type} {r : α → β → Prop} {g : β → α} {as : List α} {bs : List β}
    (h : List.Forall₂ r as bs) (hr : ∀ a b, r a b → a = g b) : as = bs.map g := by
  rw [← map_eq_map_of_forall₂ (f := id) h hr, List.map_id]

end MonkeySyntax
