import Mathlib.Data.Nat.Digits.Defs
import MonkeySyntax.Proofs.Numeral

/-! # The value of an integer literal

A literal has a value exactly if it is written as a prefix for its radix and digits of that radix,
or as a decimal number, and the number that the digits stand for fits into 64 bits with a sign.
-/

namespace MonkeySyntax.Numeral

def isDigitOf (radix : Nat) (c : Char) : Bool :=
  match radix with
  | 2 => '0' ≤ c ∧ c ≤ '1'
  | 8 => '0' ≤ c ∧ c ≤ '7'
  | 10 => '0' ≤ c ∧ c ≤ '9'
  | 16 => '0' ≤ c ∧ c ≤ '9' ∨ 'a' ≤ c ∧ c ≤ 'f' ∨ 'A' ≤ c ∧ c ≤ 'F'
  | _ => false

def radices : List Nat := [2, 8, 10, 16]

/-- What stands before the digits of a literal, and the radix that it fixes. -/
def prefixes : List (List Char × Nat) :=
  [(['0', 'x'], 16), (['0', 'X'], 16), (['0', 'o'], 8), (['0', 'O'], 8), (['0', 'b'], 2),
   (['0', 'B'], 2), (['0'], 8)]

/-- The literals of a radix with the given digits. -/
inductive Written : Nat → List Char → List Char → Prop where
  | prefixed {front ds : List Char} {radix : Nat} (hp : (front, radix) ∈ prefixes) (hne : ds ≠ [])
      (hds : ∀ c ∈ ds, isDigitOf radix c = true) : Written radix ds (front ++ ds)
  | zero : Written 10 ['0'] ['0']
  | decimal {c : Char} {ds : List Char} (hc : '1' ≤ c ∧ c ≤ '9')
      (hds : ∀ d ∈ ds, isDigitOf 10 d = true) : Written 10 (c :: ds) (c :: ds)

def digitValue (c : Char) : Nat :=
  ['0', '1', '2', '3', '4', '5', '6', '7', '8', '9', 'a', 'b', 'c', 'd', 'e', 'f'].idxOf c.toLower

/-- The number that digits stand for, the first of them being the greatest one. -/
def magnitude (radix : Nat) (ds : List Char) : Nat :=
  Nat.ofDigits radix (ds.map digitValue).reverse

variable {radix value d n : Nat} {c : Char} {cs ds front : List Char}

/-! ### Digits -/

theorem digits_of_code_points : ∀ k ∈ List.range' 48 55, isDigitOf 16 (.ofNat k) = true →
    digit? (.ofNat k) = some (digitValue (.ofNat k)) ∧
      ∀ radix ∈ radices, (digitValue (.ofNat k) < radix ↔ isDigitOf radix (.ofNat k) = true) := by
  decide

theorem isDigitOf_sixteen_iff : isDigitOf 16 c = true ↔
    (48 ≤ c.toNat ∧ c.toNat ≤ 57) ∨ (97 ≤ c.toNat ∧ c.toNat ≤ 102) ∨
      65 ≤ c.toNat ∧ c.toNat ≤ 70 := by
  simp only [isDigitOf, decide_eq_true_eq]
  exact Iff.rfl

theorem isDigitOf_sixteen (hr : radix ∈ radices) (h : isDigitOf radix c = true) :
    isDigitOf 16 c = true := by
  have hle {high : Char} (hh : high ≤ '9') (hc : '0' ≤ c ∧ c ≤ high) : isDigitOf 16 c = true := by
    simp only [isDigitOf, decide_eq_true_eq]
    exact .inl ⟨hc.1, Char.le_trans hc.2 hh⟩
  simp only [radices, List.mem_cons, List.not_mem_nil, or_false] at hr
  rcases hr with rfl | rfl | rfl | rfl
  · exact hle (by decide) (of_decide_eq_true h)
  · exact hle (by decide) (of_decide_eq_true h)
  · exact hle (by decide) (of_decide_eq_true h)
  · exact h

theorem digit_of_isDigitOf (h : isDigitOf 16 c = true) : digit? c = some (digitValue c) ∧
    ∀ radix ∈ radices, (digitValue c < radix ↔ isDigitOf radix c = true) := by
  have hmem : c.toNat ∈ List.range' 48 55 := by
    rw [List.mem_range'_1]
    rw [isDigitOf_sixteen_iff] at h
    omega
  have hall := digits_of_code_points c.toNat hmem
  rw [Char.ofNat_toNat] at hall
  exact hall h

theorem isDigitOf_of_digit? (h : digit? c = some d) (hd : d < 16) : isDigitOf 16 c = true := by
  rw [isDigitOf_sixteen_iff]
  unfold digit? at h
  split at h
  · next hc => exact .inl hc
  · split at h
    · next hc =>
      cases h
      obtain ⟨hlow, hhigh⟩ := hc
      have hlow : 97 ≤ c.toNat := hlow
      have hd : c.toNat - 97 + 10 < 16 := hd
      omega
    · split at h
      · next hc =>
        cases h
        obtain ⟨hlow, hhigh⟩ := hc
        have hlow : 65 ≤ c.toNat := hlow
        have hd : c.toNat - 65 + 10 < 16 := hd
        omega
      · cases h

/-- The characters that are read as a digit of a radix are its digits, at their value. -/
theorem digitIn?_iff (hr : radix ∈ radices) :
    digitIn? radix c = some d ↔ isDigitOf radix c = true ∧ d = digitValue c := by
  rw [digitIn?_eq_some_iff]
  constructor
  · rintro ⟨hd, hlt⟩
    have hle : radix ≤ 16 := (by decide : ∀ r ∈ radices, r ≤ 16) radix hr
    obtain ⟨hv, hiff⟩ := digit_of_isDigitOf (isDigitOf_of_digit? hd (by omega))
    obtain rfl := Option.some.inj (hd.symm.trans hv)
    exact ⟨(hiff radix hr).1 hlt, rfl⟩
  · rintro ⟨hc, rfl⟩
    obtain ⟨hv, hiff⟩ := digit_of_isDigitOf (isDigitOf_sixteen hr hc)
    exact ⟨hv, (hiff radix hr).2 hc⟩

/-! ### Values -/

theorem magnitude_cons (radix : Nat) (c : Char) (cs : List Char) :
    magnitude radix (c :: cs) = digitValue c * radix ^ cs.length + magnitude radix cs := by
  rw [magnitude, List.map_cons, Nat.ofDigits_reverse_cons, List.length_map, Nat.add_comm,
    Nat.mul_comm]
  rfl

theorem magnitude_zeros_append (radix k : Nat) (ds : List Char) :
    magnitude radix (List.replicate k '0' ++ ds) = magnitude radix ds := by
  have hzero : digitValue '0' = 0 := by decide
  rw [magnitude, List.map_append, List.map_replicate, hzero, List.reverse_append,
    List.reverse_replicate, Nat.ofDigits_append_replicate_zero]
  rfl

theorem valueFrom?_eq_some_iff (hr : radix ∈ radices) : valueFrom? radix value cs = some n ↔
    (∀ c ∈ cs, isDigitOf radix c = true) ∧ n = value * radix ^ cs.length + magnitude radix cs := by
  induction cs generalizing value with
  | nil =>
    have hn : value * radix ^ ([] : List Char).length + magnitude radix [] = value := by
      simp [magnitude]
    rw [hn, valueFrom?, Option.some.injEq, eq_comm]
    exact ⟨fun h => ⟨List.forall_mem_nil _, h⟩, And.right⟩
  | cons c cs ih =>
    rw [valueFrom?, Option.bind_eq_some_iff, magnitude_cons, List.forall_mem_cons,
      List.length_cons, Nat.pow_succ']
    have hsum : value * (radix * radix ^ cs.length) +
        (digitValue c * radix ^ cs.length + magnitude radix cs) =
        (value * radix + digitValue c) * radix ^ cs.length + magnitude radix cs := by
      rw [Nat.add_mul, Nat.mul_assoc, Nat.add_assoc]
    rw [hsum]
    constructor
    · rintro ⟨d, hd, h⟩
      obtain ⟨hc, rfl⟩ := (digitIn?_iff hr).1 hd
      obtain ⟨hcs, hn⟩ := ih.1 h
      exact ⟨⟨hc, hcs⟩, hn⟩
    · rintro ⟨⟨hc, hcs⟩, hn⟩
      exact ⟨_, (digitIn?_iff hr).2 ⟨hc, rfl⟩, ih.2 ⟨hcs, hn⟩⟩

theorem value?_eq_some_iff {m : Numeral} (hr : m.radix ∈ radices) : m.value? = some n ↔
    (m.digits ≠ [] ∧ ∀ c ∈ m.digits, isDigitOf m.radix c = true) ∧
      n = magnitude m.radix m.digits := by
  unfold value?
  split
  · next hnil => simp [hnil]
  · next hne => simp [valueFrom?_eq_some_iff hr, hne]

/-! ### Literals -/

theorem radix_ofText_mem (cs : List Char) : (ofText cs).radix ∈ radices := by
  fun_cases ofText cs <;> simp [radices]

theorem ofText_zero_cons (hc : isDigitOf 8 c = true) (cs : List Char) :
    ofText ('0' :: c :: cs) = ⟨8, c :: cs⟩ := by
  have hne (d : Char) (hd : isDigitOf 8 d = false) : c ≠ d := by
    rintro rfl
    rw [hc] at hd
    cases hd
  have := hne 'x' (by decide)
  have := hne 'X' (by decide)
  have := hne 'o' (by decide)
  have := hne 'O' (by decide)
  have := hne 'b' (by decide)
  have := hne 'B' (by decide)
  unfold ofText
  split <;> simp_all

theorem ofText_of_ne_zero (hc : c ≠ '0') (cs : List Char) : ofText (c :: cs) = ⟨10, c :: cs⟩ := by
  unfold ofText
  split <;> simp_all

theorem one_le_of_ne_zero (hc : isDigitOf 10 c = true) (h : c ≠ '0') : '1' ≤ c ∧ c ≤ '9' := by
  obtain ⟨hlow, hhigh⟩ : '0' ≤ c ∧ c ≤ '9' := of_decide_eq_true hc
  have hne : c.toNat ≠ 48 := fun he => h (Char.toNat_inj.1 he)
  have hlow : 48 ≤ c.toNat := hlow
  have hone : 49 ≤ c.toNat := by omega
  exact ⟨hone, hhigh⟩

theorem Written.ofText_eq (h : Written radix ds cs) : ofText cs = ⟨radix, ds⟩ := by
  cases h with
  | zero => rfl
  | decimal hc _ => exact ofText_of_ne_zero (by rintro rfl; revert hc; decide) _
  | prefixed hp hne hds =>
    simp only [prefixes, List.mem_cons, List.not_mem_nil, or_false, Prod.mk.injEq] at hp
    rcases hp with ⟨rfl, rfl⟩ | ⟨rfl, rfl⟩ | ⟨rfl, rfl⟩ | ⟨rfl, rfl⟩ | ⟨rfl, rfl⟩ | ⟨rfl, rfl⟩ |
      ⟨rfl, rfl⟩
    · rfl
    · rfl
    · rfl
    · rfl
    · rfl
    · rfl
    · obtain ⟨d, ds, rfl⟩ := List.exists_cons_of_ne_nil hne
      exact ofText_zero_cons (hds d List.mem_cons_self) ds

theorem written_iff : Written radix ds cs ↔
    ofText cs = ⟨radix, ds⟩ ∧ ds ≠ [] ∧ ∀ c ∈ ds, isDigitOf radix c = true := by
  constructor
  · intro h
    refine ⟨h.ofText_eq, ?_⟩
    cases h with
    | zero => exact ⟨List.cons_ne_nil _ _, List.forall_mem_singleton.2 rfl⟩
    | prefixed hp hne hds => exact ⟨hne, hds⟩
    | decimal hc hds =>
      refine ⟨List.cons_ne_nil _ _, List.forall_mem_cons.2 ⟨?_, hds⟩⟩
      exact decide_eq_true ⟨Char.le_trans (by decide) hc.1, hc.2⟩
  · rintro ⟨ht, hne, hds⟩
    have hprefixed (front : List Char) (hp : (front, radix) ∈ prefixes) :
        Written radix ds (front ++ ds) := .prefixed hp hne hds
    revert ht
    fun_cases ofText cs with
    | case1 => rintro ⟨⟩; exact hprefixed ['0', 'x'] (by decide)
    | case2 => rintro ⟨⟩; exact hprefixed ['0', 'X'] (by decide)
    | case3 => rintro ⟨⟩; exact hprefixed ['0', 'o'] (by decide)
    | case4 => rintro ⟨⟩; exact hprefixed ['0', 'O'] (by decide)
    | case5 => rintro ⟨⟩; exact hprefixed ['0', 'b'] (by decide)
    | case6 => rintro ⟨⟩; exact hprefixed ['0', 'B'] (by decide)
    | case7 => rintro ⟨⟩; exact hprefixed ['0'] (by decide)
    | case8 _ _ _ _ _ _ _ hzero =>
      -- a zero that starts a decimal number is all of it
      rintro ⟨⟩
      obtain ⟨c, rest, rfl⟩ := List.exists_cons_of_ne_nil hne
      obtain ⟨hc, hrest⟩ := List.forall_mem_cons.1 hds
      by_cases h0 : c = '0'
      · subst h0
        cases rest with
        | nil => exact .zero
        | cons d rest => exact (hzero d rest rfl).elim
      · exact .decimal (one_le_of_ne_zero hc h0) hrest

/-- The texts that have a value, of any size, are the written literals. -/
theorem value?_ofText_eq_some_iff : (ofText cs).value? = some n ↔
    ∃ radix ds, Written radix ds cs ∧ n = magnitude radix ds := by
  rw [value?_eq_some_iff (radix_ofText_mem cs)]
  constructor
  · rintro ⟨⟨hne, hds⟩, hn⟩
    exact ⟨_, _, written_iff.2 ⟨rfl, hne, hds⟩, hn⟩
  · rintro ⟨radix, ds, hw, hn⟩
    obtain ⟨ht, hds⟩ := written_iff.1 hw
    rw [ht]
    exact ⟨hds, hn⟩

theorem Written.value?_eq (h : Written radix ds cs) :
    (ofText cs).value? = some (magnitude radix ds) :=
  value?_ofText_eq_some_iff.2 ⟨radix, ds, h, rfl⟩

/-- A literal has the value of its digits, unless that is too great. -/
theorem decode?_eq_some_iff {literal : String} {v : Int64} : decode? literal = some v ↔
    ∃ n, (ofText literal.toList).value? = some n ∧ n ≤ 2 ^ 63 - 1 ∧ v.toInt = n := by
  have hgreatest : greatest = 2 ^ 63 - 1 := rfl
  have hv {n : Nat} (hn : n ≤ 2 ^ 63 - 1) : v.toInt = n ↔ Int64.ofNat n = v := by
    rw [← Int64.toInt_inj, Int64.toInt_ofNat_of_lt (by omega), eq_comm]
  simp only [decode?, Option.map_eq_some_iff, Option.filter_eq_some_iff, decide_eq_true_eq,
    hgreatest]
  constructor
  · rintro ⟨n, ⟨h, hn⟩, hd⟩
    exact ⟨n, h, hn, (hv hn).2 hd⟩
  · rintro ⟨n, h, hn, hd⟩
    exact ⟨n, ⟨h, hn⟩, (hv hn).1 hd⟩

theorem value?_zeros {k : Nat} (hp : (front, radix) ∈ prefixes) (hne : ds ≠ [])
    (hds : ∀ c ∈ ds, isDigitOf radix c = true) :
    (ofText (front ++ (List.replicate k '0' ++ ds))).value? = (ofText (front ++ ds)).value? := by
  have hzero : isDigitOf radix '0' = true :=
    (by decide : ∀ p ∈ prefixes, isDigitOf p.2 '0' = true) _ hp
  have hds' : ∀ c ∈ List.replicate k '0' ++ ds, isDigitOf radix c = true := by
    intro c hc
    rcases List.mem_append.1 hc with hc | hc
    · rwa [List.eq_of_mem_replicate hc]
    · exact hds c hc
  have hne' : List.replicate k '0' ++ ds ≠ [] := List.append_ne_nil_of_right_ne_nil _ hne
  have hzeros : Written radix (List.replicate k '0' ++ ds)
      (front ++ (List.replicate k '0' ++ ds)) := .prefixed hp hne' hds'
  have hshort : Written radix ds (front ++ ds) := .prefixed hp hne hds
  rw [hzeros.value?_eq, hshort.value?_eq, magnitude_zeros_append]

/-- The texts that have a value are the literals whose digits stand for a number below 2⁶³, and that
number is the value. Zeros in front of the digits, behind a prefix, change nothing. -/
theorem decode?_written :
    (∀ (literal : String) (v : Int64), decode? literal = some v ↔ ∃ radix ds,
      Written radix ds literal.toList ∧ magnitude radix ds ≤ 2 ^ 63 - 1 ∧
        v.toInt = magnitude radix ds) ∧
      ∀ front radix ds k, (front, radix) ∈ prefixes → ds ≠ [] →
        (∀ c ∈ ds, isDigitOf radix c = true) →
        decode? (.ofList (front ++ (List.replicate k '0' ++ ds))) =
          decode? (.ofList (front ++ ds)) := by
  constructor
  · intro literal v
    rw [decode?_eq_some_iff]
    simp only [value?_ofText_eq_some_iff]
    constructor
    · rintro ⟨_, ⟨radix, ds, hw, rfl⟩, hn, hv⟩
      exact ⟨radix, ds, hw, hn, hv⟩
    · rintro ⟨radix, ds, hw, hn, hv⟩
      exact ⟨_, ⟨radix, ds, hw, rfl⟩, hn, hv⟩
  · intro front radix ds k hp hne hds
    rw [decode?, decode?, String.toList_ofList, String.toList_ofList, value?_zeros hp hne hds]

theorem decode?_written_greatest :
    decode? "0x7FFFffffFFFFffff" = some 9223372036854775807 ∧
      decode? (.ofList (['0', 'b'] ++ (List.replicate 70 '0' ++ ['1', '1']))) =
        decode? (.ofList (['0', 'b'] ++ ['1', '1'])) := by
  have hw : Written 16 "7FFFffffFFFFffff".toList "0x7FFFffffFFFFffff".toList :=
    written_iff.2 ⟨by decide +kernel, by decide, List.all_eq_true.1 (by decide +kernel)⟩
  exact ⟨(decode?_written.1 _ _).2 ⟨16, _, hw, by decide +kernel⟩,
    decode?_written.2 ['0', 'b'] 2 ['1', '1'] 70 (by decide) (by decide)
      (List.all_eq_true.1 (by decide))⟩

end MonkeySyntax.Numeral
