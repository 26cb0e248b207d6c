import MonkeySyntax.Proofs.Tree.MapTokens

/-! # Levels of a tree

A right operand and the operand of a prefix operator are one level deeper than the operator, and a
left operand is at the level of the operator. Where only some levels are left, reading a tree is
refused at the first token that begins a subtree below them.
-/

namespace MonkeySyntax.Expr

/-- A subtree at a level, whose tokens begin at the given index among those of the tree. -/
inductive HasSubtree : Expr → Nat → Nat → Expr → Prop where
  | root (e : Expr) : HasSubtree e 1 0 e
  | operand {t : Token} {operator : String} {r s : Expr} {level index : Nat}
      (h : r.HasSubtree level index s) :
      HasSubtree (prefixOp t operator r) (level + 1) (index + 1) s
  | left {t : Token} {operator : String} {l r s : Expr} {level index : Nat}
      (h : l.HasSubtree level index s) : HasSubtree (infixOp t operator l r) level index s
  | right {t : Token} {operator : String} {l r s : Expr} {level index : Nat}
      (h : r.HasSubtree level index s) :
      HasSubtree (infixOp t operator l r) (level + 1) (l.tokens.length + 1 + index) s

/-- The index of the token at which reading the tree is refused when so many levels are left. -/
def refusedAt : Expr → Nat → Option Nat
  | _, 0 => some 0
  | name _ _, _ + 1 => none
  | integer _ _, _ + 1 => none
  | prefixOp _ _ r, levels + 1 => (r.refusedAt levels).map (· + 1)
  | infixOp _ _ l r, levels + 1 =>
    (l.refusedAt (levels + 1)).or ((r.refusedAt levels).map (l.tokens.length + 1 + ·))

variable {e l r s : Expr} {t : Token} {operator : String} {levels level index : Nat}

@[simp] theorem refusedAt_zero (e : Expr) : e.refusedAt 0 = some 0 := by
  cases e <;> rfl

@[simp] theorem refusedAt_prefixOp : (prefixOp t operator r).refusedAt (levels + 1) =
    (r.refusedAt levels).map (· + 1) := rfl

@[simp] theorem refusedAt_infixOp : (infixOp t operator l r).refusedAt (levels + 1) =
    (l.refusedAt (levels + 1)).or
      ((r.refusedAt levels).map (l.tokens.length + 1 + ·)) := rfl

theorem HasSubtree.level_pos (h : e.HasSubtree level index s) : 0 < level := by
  induction h with
  | root e => exact Nat.one_pos
  | operand _ _ => exact Nat.succ_pos _
  | left _ ih => exact ih
  | right _ _ => exact Nat.succ_pos _

theorem HasSubtree.level_le (h : e.HasSubtree level index s) : level ≤ e.need := by
  induction h with
  | root e => exact e.need_pos
  | operand _ ih =>
    rw [need]
    omega
  | left _ ih =>
    rw [need]
    omega
  | right _ ih =>
    rw [need]
    omega

theorem HasSubtree.tokens_eq (h : e.HasSubtree level index s) :
    ∃ front behind, e.tokens = front ++ s.tokens ++ behind ∧ front.length = index := by
  induction h with
  | root e => exact ⟨[], [], by simp, rfl⟩
  | @operand t operator r s level index _ ih =>
    obtain ⟨front, behind, he, hlen⟩ := ih
    refine ⟨t :: front, behind, ?_, ?_⟩
    · rw [tokens, he]
      rfl
    · rw [List.length_cons, hlen]
  | @left t operator l r s level index _ ih =>
    obtain ⟨front, behind, he, hlen⟩ := ih
    refine ⟨front, behind ++ t :: r.tokens, ?_, hlen⟩
    rw [tokens, he, List.append_assoc]
  | @right t operator l r s level index _ ih =>
    obtain ⟨front, behind, he, hlen⟩ := ih
    refine ⟨l.tokens ++ t :: front, behind, ?_, ?_⟩
    · rw [tokens, he]
      simp
    · rw [List.length_append, List.length_cons, hlen]
      omega

theorem HasSubtree.index_lt (h : e.HasSubtree level index s) : index < e.tokens.length := by
  obtain ⟨front, behind, he, rfl⟩ := h.tokens_eq
  have hpos := s.length_tokens_pos
  rw [he, List.length_append, List.length_append]
  omega

/-! ### Where reading is refused -/

/-- Reading is refused nowhere exactly if there are enough levels. -/
theorem refusedAt_eq_none_iff : e.refusedAt levels = none ↔ e.need ≤ levels := by
  fun_induction refusedAt e levels with
  | case1 e =>
    have hpos := e.need_pos
    simp only [reduceCtorEq, false_iff]
    omega
  | case2 t value levels => simp [need]
  | case3 t value levels => simp [need]
  | case4 t operator r levels ih =>
    rw [Option.map_eq_none_iff, ih, need]
    omega
  | case5 t operator l r levels ihl ihr =>
    rw [Option.or_eq_none_iff, Option.map_eq_none_iff, ihl, ihr, need]
    omega

theorem exists_subtree_of_refusedAt (h : e.refusedAt levels = some index) :
    ∃ s, e.HasSubtree (levels + 1) index s := by
  fun_induction refusedAt e levels generalizing index with
  | case1 e =>
    obtain rfl := Option.some.inj h
    exact ⟨e, .root e⟩
  | case2 t value levels => cases h
  | case3 t value levels => cases h
  | case4 t operator r levels ih =>
    obtain ⟨i, hi, rfl⟩ := Option.map_eq_some_iff.1 h
    obtain ⟨s, hs⟩ := ih hi
    exact ⟨s, hs.operand⟩
  | case5 t operator l r levels ihl ihr =>
    rcases Option.or_eq_some_iff.1 h with h | ⟨-, h⟩
    · obtain ⟨s, hs⟩ := ihl h
      exact ⟨s, hs.left⟩
    · obtain ⟨i, hi, rfl⟩ := Option.map_eq_some_iff.1 h
      obtain ⟨s, hs⟩ := ihr hi
      exact ⟨s, hs.right⟩

/-- Reading is refused at the first such subtree. -/
theorem refusedAt_le (h : e.HasSubtree (levels + 1) index s) :
    ∃ i, e.refusedAt levels = some i ∧ i ≤ index := by
  generalize hlevel : levels + 1 = level at h
  induction h generalizing levels with
  | root e =>
    obtain rfl : levels = 0 := by omega
    exact ⟨0, e.refusedAt_zero, Nat.le_refl 0⟩
  | @operand t operator r s level index h ih =>
    obtain rfl : levels = level := by omega
    obtain ⟨levels, rfl⟩ : ∃ n, levels = n + 1 := ⟨levels - 1, by have := h.level_pos; omega⟩
    obtain ⟨i, hi, hle⟩ := ih rfl
    exact ⟨i + 1, by rw [refusedAt_prefixOp, hi]; rfl, Nat.succ_le_succ hle⟩
  | @left t operator l r s level index h ih =>
    obtain ⟨i, hi, hle⟩ := ih hlevel
    refine ⟨i, ?_, hle⟩
    cases levels with
    | zero =>
      rw [refusedAt_zero] at hi ⊢
      exact hi
    | succ levels => rw [refusedAt_infixOp, hi, Option.some_or]
  | @right t operator l r s level index h ih =>
    obtain rfl : levels = level := by omega
    obtain ⟨levels, rfl⟩ : ∃ n, levels = n + 1 := ⟨levels - 1, by have := h.level_pos; omega⟩
    obtain ⟨i, hi, hle⟩ := ih rfl
    rw [refusedAt_infixOp, hi]
    cases hl : l.refusedAt (levels + 1) with
    | none =>
      refine ⟨l.tokens.length + 1 + i, rfl, ?_⟩
      omega
    | some j =>
      -- a refusal in the left operand comes first
      obtain ⟨s', hs'⟩ := exists_subtree_of_refusedAt hl
      have hlt := hs'.index_lt
      refine ⟨j, rfl, ?_⟩
      omega

/-- A tree with a subtree below the levels that are left is refused at the first one that is one
level too deep. -/
theorem exists_refusedAt (h : ∃ level index s, e.HasSubtree level index s ∧ levels < level) :
    ∃ index s, e.refusedAt levels = some index ∧ e.HasSubtree (levels + 1) index s ∧
      ∀ j s', e.HasSubtree (levels + 1) j s' → index ≤ j := by
  obtain ⟨level, _, _, hlevel, hle⟩ := h
  have hneed := hlevel.level_le
  obtain ⟨index, hrefused⟩ : ∃ index, e.refusedAt levels = some index := by
    rw [← Option.ne_none_iff_exists', Ne, refusedAt_eq_none_iff]
    omega
  obtain ⟨s, hs⟩ := exists_subtree_of_refusedAt hrefused
  refine ⟨index, s, hrefused, hs, ?_⟩
  intro j s' h
  obtain ⟨i, hi, hij⟩ := refusedAt_le h
  rw [hrefused] at hi
  cases hi
  exact hij

theorem refusedAt_mapTokens (f : Token → Token) (e : Expr) (levels : Nat) :
    (e.mapTokens f).refusedAt levels = e.refusedAt levels := by
  fun_induction refusedAt e levels with
  | case1 e => exact refusedAt_zero _
  | case2 t value levels => rfl
  | case3 t value levels => rfl
  | case4 t operator r levels ih => rw [mapTokens, refusedAt_prefixOp, ih]
  | case5 t operator l r levels ihl ihr =>
    rw [mapTokens, refusedAt_infixOp, ihl, ihr, tokens_mapTokens, List.length_map]

end MonkeySyntax.Expr
