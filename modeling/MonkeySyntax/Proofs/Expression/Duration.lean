import MonkeySyntax.Proofs.Expression.Comparison

/-! # How long reading an expression takes

`Takes` says what the calls of the expression reader do, one step for each call and each turn of a
loop, and puts no bound on them. Whatever the rules of a parser, each call comes to its end, and its
steps are bounded by the tokens and the levels that are left.
-/

namespace MonkeySyntax.Parser

def tokensLeft (p : Parser) : Nat := p.stream.pending.length

def levelsLeft (p : Parser) : Nat := maxDepth - p.depth

def inStatement (p : Parser) : Bool := !endsStatement p.current.kind

def inBroken (p : Parser) : Bool := !endsStatement p.current.kind && !startsStatement p.peek.kind

/-- Moving on while the condition holds makes that many tests of it. -/
inductive SkipTakes (more : Parser → Bool) : Parser → Nat → Parser → Prop where
  | stop {p : Parser} (h : more p = false) : SkipTakes more p 1 p
  | step {p q : Parser} {n : Nat} (h : more p = true) (hs : SkipTakes more p.advance n q) :
      SkipTakes more p (n + 1) q

/-- The calls that make up the reading of an expression. -/
inductive Part where
  | expression (floor : Precedence)
  | operand
  | infixOp (left : Expr)
  | operators (floor : Precedence) (left : Expr)

/-- The call takes that many steps, and gives that result. -/
inductive Takes : Part → Parser → Nat → Option Expr × Parser → Prop where
  | refused {floor : Precedence} {p q : Parser} {n : Nat} (hd : ¬ p.depth < maxDepth)
      (hs : SkipTakes inBroken (p.report (.tooDeep maxDepth) p.current.start) n q) :
      Takes (.expression floor) p (n + 1) (none, q)
  | broken {floor : Precedence} {p q : Parser} {n : Nat} (hd : p.depth < maxDepth)
      (ho : Takes .operand (p.setDepth (p.depth + 1)) n (none, q)) :
      Takes (.expression floor) p (n + 1) (none, q.leave)
  | read {floor : Precedence} {p q : Parser} {left : Expr} {n m : Nat}
      {r : Option Expr × Parser} (hd : p.depth < maxDepth)
      (ho : Takes .operand (p.setDepth (p.depth + 1)) n (some left, q))
      (hr : Takes (.operators floor left) q m r) :
      Takes (.expression floor) p (n + m + 1) (r.1, r.2.leave)
  | name {p : Parser} (h : p.rules.operand p.current.kind = some .name) :
      Takes .operand p 1 p.name
  | integer {p : Parser} (h : p.rules.operand p.current.kind = some .integer) :
      Takes .operand p 1 p.integer
  | prefixOp {p : Parser} {n : Nat} {r : Option Expr × Parser}
      (h : p.rules.operand p.current.kind = some .prefixOp)
      (hr : Takes (.expression .unary) p.advance n r) :
      Takes .operand p (n + 1) (r.1.map (.prefixOp p.current p.current.literal), r.2)
  | noOperand {p : Parser} (h : p.rules.operand p.current.kind = none) :
      Takes .operand p 1
        (none, p.report (.noOperand p.current.kind p.current.literal) p.current.start)
  | infixOp {left : Expr} {p : Parser} {n : Nat} {r : Option Expr × Parser}
      (hr : Takes (.expression p.currentPrecedence) p.advance n r) :
      Takes (.infixOp left) p (n + 1) (r.1.map (.infixOp p.current p.current.literal left), r.2)
  | stop {floor : Precedence} {left : Expr} {p : Parser} (h : p.continuesAbove floor = false) :
      Takes (.operators floor left) p 1 (some left, p)
  | brokenTurn {floor : Precedence} {left : Expr} {p q : Parser} {n : Nat}
      (h : p.continuesAbove floor = true)
      (hi : Takes (.infixOp left) p.advance n (none, q)) :
      Takes (.operators floor left) p (n + 1) (none, q)
  | turn {floor : Precedence} {left e : Expr} {p q : Parser} {n m : Nat}
      {r : Option Expr × Parser} (h : p.continuesAbove floor = true)
      (hi : Takes (.infixOp left) p.advance n (some e, q))
      (hr : Takes (.operators floor e) q m r) :
      Takes (.operators floor left) p (n + m + 1) r

def Part.read : Part → Parser → Option Expr × Parser
  | .expression floor, p => p.expression floor
  | .operand, p => p.operand Parser.expression
  | .infixOp left, p => p.infixOp Parser.expression left
  | .operators floor left, p => p.climb Parser.expression floor p.tokensLeft left

variable {p q q' : Parser} {more : Parser → Bool} {part : Part} {n n' : Nat}
  {r r' : Option Expr × Parser}

/-! ### Skipping -/

theorem pending_ne_nil_of_inStatement (h : p.inStatement = true) : p.stream.pending ≠ [] := by
  intro hp
  rw [inStatement, kind_current_eq_eof_iff.2 hp] at h
  cases h

theorem pending_ne_nil_of_inBroken (h : p.inBroken = true) : p.stream.pending ≠ [] :=
  pending_ne_nil_of_inStatement (Bool.and_eq_true_iff.1 h).1

theorem SkipTakes.quiet (h : SkipTakes more p n q) : Quiet p q := by
  induction h with
  | stop _ => exact .refl _
  | step _ _ ih => exact (quiet_advance _).trans ih

theorem SkipTakes.unique (h : SkipTakes more p n q) (h' : SkipTakes more p n' q') :
    n = n' ∧ q = q' := by
  induction h generalizing n' with
  | stop hm =>
    cases h' with
    | stop _ => exact ⟨rfl, rfl⟩
    | step hm' _ => simp [hm] at hm'
  | step hm _ ih =>
    cases h' with
    | stop hm' => simp [hm] at hm'
    | step _ hs' =>
      obtain ⟨rfl, rfl⟩ := ih hs'
      exact ⟨rfl, rfl⟩

section Skip

variable (hm : ∀ q : Parser, more q = true → q.stream.pending ≠ [])

include hm

theorem SkipTakes.add_tokensLeft_eq (h : SkipTakes more p n q) :
    n + q.tokensLeft = p.tokensLeft + 1 := by
  induction h with
  | stop _ => exact Nat.add_comm _ _
  | @step p q n hp _ ih =>
    have hpos := List.length_pos_iff.2 (hm p hp)
    have hadv : p.advance.tokensLeft = p.tokensLeft - 1 := List.length_tail
    rw [hadv] at ih
    simp only [tokensLeft] at ih ⊢
    omega

theorem exists_skipTakes (p : Parser) : ∃ n, SkipTakes more p n (p.skipWhile more) := by
  fun_induction skipWhile more p with
  | case1 p hp ih =>
    obtain ⟨n, hn⟩ := ih
    exact ⟨n + 1, .step hp.1 hn⟩
  | case2 p hp =>
    refine ⟨1, .stop ?_⟩
    by_contra hne
    rw [Bool.not_eq_false] at hne
    exact hp ⟨hne, hm p hne⟩

end Skip

/-! ### One result -/

theorem Takes.unique (h : Takes part p n r) (h' : Takes part p n' r') : n = n' ∧ r = r' := by
  induction h generalizing n' r' with
  | refused hd hs =>
    cases h' with
    | refused _ hs' =>
      obtain ⟨rfl, rfl⟩ := hs.unique hs'
      exact ⟨rfl, rfl⟩
    | broken hd' _ | read hd' _ _ => exact absurd hd' hd
  | broken hd _ ih =>
    cases h' with
    | refused hd' _ => exact absurd hd hd'
    | broken _ ho' =>
      obtain ⟨rfl, hq⟩ := ih ho'
      cases hq
      exact ⟨rfl, rfl⟩
    | read _ ho' _ => cases (ih ho').2
  | read hd _ _ iho ihr =>
    cases h' with
    | refused hd' _ => exact absurd hd hd'
    | broken _ ho' => cases (iho ho').2
    | read _ ho' hr' =>
      obtain ⟨rfl, hq⟩ := iho ho'
      cases hq
      obtain ⟨rfl, rfl⟩ := ihr hr'
      exact ⟨rfl, rfl⟩
  | name hk =>
    cases h' with
    | name _ => exact ⟨rfl, rfl⟩
    | integer hk' | prefixOp hk' _ | noOperand hk' => simp [hk] at hk'
  | integer hk =>
    cases h' with
    | integer _ => exact ⟨rfl, rfl⟩
    | name hk' | prefixOp hk' _ | noOperand hk' => simp [hk] at hk'
  | noOperand hk =>
    cases h' with
    | noOperand _ => exact ⟨rfl, rfl⟩
    | name hk' | integer hk' | prefixOp hk' _ => simp [hk] at hk'
  | prefixOp hk _ ih =>
    cases h' with
    | prefixOp _ hr' =>
      obtain ⟨rfl, rfl⟩ := ih hr'
      exact ⟨rfl, rfl⟩
    | name hk' | integer hk' | noOperand hk' => simp [hk] at hk'
  | infixOp _ ih =>
    cases h' with
    | infixOp hr' =>
      obtain ⟨rfl, rfl⟩ := ih hr'
      exact ⟨rfl, rfl⟩
  | stop hc =>
    cases h' with
    | stop _ => exact ⟨rfl, rfl⟩
    | brokenTurn hc' _ | turn hc' _ _ => simp [hc] at hc'
  | brokenTurn hc _ ih =>
    cases h' with
    | stop hc' => simp [hc] at hc'
    | brokenTurn _ hi' =>
      obtain ⟨rfl, hq⟩ := ih hi'
      cases hq
      exact ⟨rfl, rfl⟩
    | turn _ hi' _ => cases (ih hi').2
  | turn hc _ _ ihi ihr =>
    cases h' with
    | stop hc' => simp [hc] at hc'
    | brokenTurn _ hi' => cases (ihi hi').2
    | turn _ hi' hr' =>
      obtain ⟨rfl, hq⟩ := ihi hi'
      cases hq
      obtain ⟨rfl, rfl⟩ := ihr hr'
      exact ⟨rfl, rfl⟩

/-! ### Every call comes to its end -/

section Inner

variable {inner : ExprReader} {d : Nat}
  (hi : ∀ floor p, p.depth = d → ∃ n, Takes (.expression floor) p n (inner floor p))

include hi

theorem exists_takes_infixOp (left : Expr) (hd : p.depth = d) :
    ∃ n, Takes (.infixOp left) p n (p.infixOp inner left) := by
  obtain ⟨n, hn⟩ := hi p.currentPrecedence p.advance hd
  exact ⟨n + 1, .infixOp hn⟩

theorem exists_takes_operand (hd : p.depth = d) : ∃ n, Takes .operand p n (p.operand inner) := by
  unfold operand
  split
  · next h => exact ⟨1, .name h⟩
  · next h => exact ⟨1, .integer h⟩
  · next h =>
    obtain ⟨n, hn⟩ := hi .unary p.advance hd
    exact ⟨n + 1, .prefixOp h hn⟩
  · next h => exact ⟨1, .noOperand h⟩

theorem exists_takes_operators (ho : ∀ floor p, Outcome p (inner floor p)) {floor : Precedence}
    {turns : Nat} (left : Expr) (hd : p.depth = d) (h : p.tokensLeft ≤ turns) :
    ∃ n, Takes (.operators floor left) p n (p.climb inner floor turns left) := by
  induction turns generalizing p left with
  | zero => exact ⟨1, .stop (continuesAbove_of_length_le h)⟩
  | succ turns ih =>
    rw [climb]
    split
    · next hc =>
      have hop := outcome_infixOp ho left p.advance
      obtain ⟨n, hn⟩ := exists_takes_infixOp hi left (p := p.advance) hd
      generalize p.advance.infixOp inner left = r at hop hn
      obtain ⟨_ | e, q⟩ := r
      · exact ⟨n + 1, .brokenTurn hc hn⟩
      · have hlen : q.tokensLeft ≤ p.tokensLeft - 1 := by
          simpa [tokensLeft] using hop.length_le
        obtain ⟨m, hm⟩ := ih e (hop.depth_eq.trans hd) (show q.tokensLeft ≤ turns by omega)
        exact ⟨n + m + 1, .turn hc hn hm⟩
    · next hc => exact ⟨1, .stop (by simpa using hc)⟩

end Inner

theorem exists_takes_expressionWithin {levels : Nat} (floor : Precedence) (p : Parser)
    (h : p.levelsLeft = levels) :
    ∃ n, Takes (.expression floor) p n (expressionWithin levels floor p) := by
  induction levels generalizing floor p with
  | zero =>
    obtain ⟨n, hn⟩ := exists_skipTakes (fun _ => pending_ne_nil_of_inBroken)
      (p.report (.tooDeep maxDepth) p.current.start)
    exact ⟨n + 1, .refused (by rw [levelsLeft] at h; omega) hn⟩
  | succ levels ih =>
    have hd : p.depth < maxDepth := by rw [levelsLeft] at h; omega
    have hinner (floor : Precedence) (q : Parser) (hq : q.depth = p.depth + 1) :
        ∃ n, Takes (.expression floor) q n (expressionWithin levels floor q) :=
      ih floor q (by rw [levelsLeft] at h ⊢; omega)
    have ho := outcome_expressionWithin levels
    rw [expressionWithin, enter_of_lt hd]
    obtain ⟨n, hn⟩ := exists_takes_operand hinner (p := p.setDepth (p.depth + 1)) rfl
    have hop := outcome_operand ho (p.setDepth (p.depth + 1))
    simp only [operandAndOperators]
    generalize (p.setDepth (p.depth + 1)).operand (expressionWithin levels) = r at hn hop
    obtain ⟨_ | left, q⟩ := r
    · exact ⟨n + 1, .broken hd hn⟩
    · obtain ⟨m, hm⟩ := exists_takes_operators hinner ho left hop.depth_eq (Nat.le_refl _)
      exact ⟨n + m + 1, .read hd hn hm⟩

theorem exists_takes (part : Part) (p : Parser) : ∃ n, Takes part p n (part.read p) := by
  have hi (floor : Precedence) (q : Parser) (_ : q.depth = p.depth) :
      ∃ n, Takes (.expression floor) q n (q.expression floor) :=
    exists_takes_expressionWithin floor q rfl
  cases part with
  | expression floor => exact hi floor p rfl
  | operand => exact exists_takes_operand hi rfl
  | infixOp left => exact exists_takes_infixOp hi left rfl
  | operators floor left =>
    exact exists_takes_operators hi outcome_expression left rfl (Nat.le_refl _)

theorem Takes.eq_read (h : Takes part p n r) : r = part.read p := by
  obtain ⟨m, hm⟩ := exists_takes part p
  exact (h.unique hm).2

/-! ### How soon -/

theorem Takes.ahead (h : Takes part p n r) : Ahead p r.2 := by
  rw [h.eq_read]
  cases part with
  | expression floor => exact (outcome_expression floor p).toAhead
  | operand => exact (outcome_operand outcome_expression p).toAhead
  | infixOp left => exact (outcome_infixOp outcome_expression left p).toAhead
  | operators floor left => exact (outcome_climb outcome_expression floor _ left p).toAhead

/-- The steps of a call beside those for the tokens it passes, while tokens are left. -/
def Part.overhead : Part → Nat
  | expression _ => 3
  | operand | infixOp _ | operators _ _ => 1

/-- The steps of a call beside those for the tokens and the levels that are left. -/
def Part.slack : Part → Nat
  | expression _ => 3
  | operand | infixOp _ | operators _ _ => 4

/-- Three steps for each token that is passed. Where the tokens end three more for each level, since
prefix operators may be read there without passing a token. -/
structure Prompt (part : Part) (p : Parser) (n : Nat) (q : Parser) : Prop where
  le_left : n ≤ 3 * p.tokensLeft + 3 * p.levelsLeft + part.slack
  le_passed : q.tokensLeft ≠ 0 → n + 3 * q.tokensLeft ≤ 3 * p.tokensLeft + part.overhead

theorem tokensLeft_advance (p : Parser) : p.advance.tokensLeft = p.tokensLeft - 1 :=
  List.length_tail

theorem one_lt_tokensLeft_of_continuesAbove {floor : Precedence}
    (h : p.continuesAbove floor = true) : 1 < p.tokensLeft := by
  by_contra hle
  have hlen : p.advance.tokensLeft = 0 := by rw [tokensLeft_advance]; omega
  have hk : p.peek.kind = .eof := kind_peek_eq_eof_iff.2 (List.eq_nil_of_length_eq_zero hlen)
  simp only [continuesAbove, peekPrecedence, hk, decide_eq_true_eq] at h
  exact absurd h.2.1 (Nat.not_lt_zero _)

theorem Takes.eq_one_of_tokensLeft_eq_zero {floor : Precedence} {left : Expr}
    (h : Takes (.operators floor left) p n r) (hp : p.tokensLeft = 0) : n = 1 := by
  cases h with
  | stop _ => rfl
  | brokenTurn hc _ | turn hc _ _ =>
    have := one_lt_tokensLeft_of_continuesAbove hc
    omega

theorem prompt_one (part : Part) (h : q.tokensLeft = p.tokensLeft) : Prompt part p 1 q := by
  constructor
  · cases part <;> simp only [Part.slack] <;> omega
  · cases part <;> simp only [Part.overhead] <;> omega

theorem Prompt.operation {floor : Precedence} (h : Prompt (.expression floor) p.advance n q)
    (hle : q.tokensLeft ≤ p.advance.tokensLeft) (hs : part.slack = 4) (ho : part.overhead = 1) :
    Prompt part p (n + 1) q := by
  obtain ⟨hleft, hpassed⟩ := h
  have hadv := tokensLeft_advance p
  have hl : p.advance.levelsLeft = p.levelsLeft := rfl
  simp only [Part.slack, Part.overhead] at hleft hpassed
  constructor
  · omega
  · omega

theorem levelsLeft_setDepth_succ (h : p.depth < maxDepth) :
    (p.setDepth (p.depth + 1)).levelsLeft + 1 = p.levelsLeft := by
  simp only [levelsLeft, depth_setDepth]
  omega

/-- Operators are read behind an operand. Only one of the two calls can meet the end of the tokens
and go on there, so the levels are paid for once. -/
theorem Prompt.andThen {floor : Precedence} {left : Expr} {m : Nat} (h : Prompt part p n q)
    (hs : part.slack = 4) (ho : part.overhead = 1) (hl : q.levelsLeft = p.levelsLeft)
    (hr : Takes (.operators floor left) q m r) (h' : Prompt (.operators floor left) q m r.2) :
    n + m ≤ 3 * p.tokensLeft + 3 * p.levelsLeft + 5 ∧
      (r.2.tokensLeft ≠ 0 → n + m + 3 * r.2.tokensLeft ≤ 3 * p.tokensLeft + 2) := by
  obtain ⟨hleft, hpassed⟩ := h
  obtain ⟨hleft', hpassed'⟩ := h'
  have hle : r.2.tokensLeft ≤ q.tokensLeft := hr.ahead.length_le
  have hone := hr.eq_one_of_tokensLeft_eq_zero
  simp only [Part.slack, Part.overhead] at hleft' hpassed'
  constructor
  · omega
  · omega

theorem Takes.prompt (h : Takes part p n r) : Prompt part p n r.2 := by
  induction h with
  | @refused floor p q n hd hs =>
    have hn := hs.add_tokensLeft_eq fun _ hq => pending_ne_nil_of_inBroken hq
    have hp : (p.report (.tooDeep maxDepth) p.current.start).tokensLeft = p.tokensLeft := rfl
    have hle : q.tokensLeft ≤ p.tokensLeft := hs.quiet.length_le
    constructor
    · simp only [Part.slack]
      omega
    · simp only [Part.overhead]
      omega
  | @broken floor p q n hd ho ih =>
    obtain ⟨hleft, hpassed⟩ := ih
    have hp : (p.setDepth (p.depth + 1)).tokensLeft = p.tokensLeft := rfl
    have hl := levelsLeft_setDepth_succ hd
    have hq : q.leave.tokensLeft = q.tokensLeft := rfl
    simp only [Part.slack, Part.overhead] at hleft hpassed
    constructor
    · simp only [Part.slack]
      omega
    · simp only [Part.overhead]
      omega
  | @read floor p q left n m r hd ho hr iho ihr =>
    have hq : q.levelsLeft = (p.setDepth (p.depth + 1)).levelsLeft :=
      congrArg (maxDepth - ·) ho.ahead.depth_eq
    obtain ⟨hleft, hpassed⟩ := iho.andThen rfl rfl hq hr ihr
    have hp : (p.setDepth (p.depth + 1)).tokensLeft = p.tokensLeft := rfl
    have hl := levelsLeft_setDepth_succ hd
    have hr' : r.2.leave.tokensLeft = r.2.tokensLeft := rfl
    constructor
    · simp only [Part.slack]
      omega
    · simp only [Part.overhead]
      omega
  | name _ => exact prompt_one .operand rfl
  | @integer p _ =>
    have hq : p.integer.2.tokensLeft = p.tokensLeft := by
      unfold Parser.integer
      split <;> rfl
    exact prompt_one .operand hq
  | noOperand _ => exact prompt_one .operand rfl
  | prefixOp _ hr ih => exact ih.operation hr.ahead.length_le rfl rfl
  | infixOp hr ih => exact ih.operation hr.ahead.length_le rfl rfl
  | stop _ => exact prompt_one _ rfl
  | @brokenTurn floor left p q n hc hi ih =>
    obtain ⟨hleft, hpassed⟩ := ih
    have hadv := tokensLeft_advance p
    have hlt := one_lt_tokensLeft_of_continuesAbove hc
    have hl : p.advance.levelsLeft = p.levelsLeft := rfl
    simp only [Part.slack, Part.overhead] at hleft hpassed
    constructor
    · simp only [Part.slack]
      omega
    · simp only [Part.overhead]
      omega
  | @turn floor left e p q n m r hc hi hr ihi ihr =>
    have hq : q.levelsLeft = p.advance.levelsLeft := congrArg (maxDepth - ·) hi.ahead.depth_eq
    obtain ⟨hleft, hpassed⟩ := ihi.andThen rfl rfl hq hr ihr
    have hadv := tokensLeft_advance p
    have hlt := one_lt_tokensLeft_of_continuesAbove hc
    have hl : p.advance.levelsLeft = p.levelsLeft := rfl
    constructor
    · simp only [Part.slack]
      omega
    · simp only [Part.overhead]
      omega

end MonkeySyntax.Parser
