import MonkeySyntax.Token.Lexeme

/-! # The bytes of a text

A text and its bytes have the same blanks: each blank is one byte, and no other character has a
byte of a blank in its encoding.
-/

namespace MonkeySyntax.Text

/-- The UTF-8 form of a text. -/
def bytes (cs : List Char) : List UInt8 := cs.flatMap String.utf8EncodeChar

def isBlankByte (b : UInt8) : Bool := b == 0x20 || b == 0x09 || b == 0x0a || b == 0x0d

variable {cs : List Char} {c : Char} {b : UInt8}

theorem bytes_append (a b : List Char) : bytes (a ++ b) = bytes a ++ bytes b :=
  List.flatMap_append

@[simp] theorem length_bytes (cs : List Char) : (bytes cs).length = byteLength cs := by
  induction cs with
  | nil => rfl
  | cons c cs ih =>
    have hcons : bytes (c :: cs) = String.utf8EncodeChar c ++ bytes cs := List.flatMap_cons
    simp [hcons, ih]

theorem bytes_toList (s : String) : bytes s.toList = s.toUTF8.data.toList := by
  rw [String.toUTF8_eq_toByteArray, ← String.utf8Encode_toList]
  simp [bytes, List.utf8Encode]

theorem byteLength_toList (s : String) : byteLength s.toList = s.utf8ByteSize := by
  rw [← length_bytes, bytes_toList]
  simp

theorem isBlankByte_ofNat {n : Nat} (hn : n < 256) :
    isBlankByte (.ofNat n) = true ↔ n = 0x20 ∨ n = 0x09 ∨ n = 0x0a ∨ n = 0x0d := by
  have heq (m : Nat) (hm : m < 256) : UInt8.ofNat n = .ofNat m ↔ n = m := by
    simp [← UInt8.toNat_inj, UInt8.toNat_ofNat', Nat.mod_eq_of_lt hn, Nat.mod_eq_of_lt hm]
  simp only [isBlankByte, Bool.or_eq_true, beq_iff_eq]
  have h₁ := heq 0x20 (by decide)
  have h₂ := heq 0x09 (by decide)
  have h₃ := heq 0x0a (by decide)
  have h₄ := heq 0x0d (by decide)
  simp only [or_assoc]
  exact or_congr h₁ (or_congr h₂ (or_congr h₃ h₄))

theorem isBlank_iff : isBlank c = true ↔
    c.val.toNat = 0x20 ∨ c.val.toNat = 0x09 ∨ c.val.toNat = 0x0a ∨ c.val.toNat = 0x0d := by
  have heq (d : Char) : c = d ↔ c.val.toNat = d.val.toNat := by
    rw [Char.ext_iff, UInt32.toNat_inj]
  simp only [isBlank, Bool.or_eq_true, beq_iff_eq, heq, or_assoc]
  rfl

theorem isBlankByte_of_mem (h : b ∈ String.utf8EncodeChar c) : isBlankByte b = isBlank c := by
  rw [Bool.eq_iff_iff, isBlank_iff]
  have hhigh (n : Nat) (hn : 0x80 ≤ n ∧ n < 0x100) (hc : 0x7f < c.val.toNat) :
      isBlankByte (.ofNat n) = true ↔ c.val.toNat = 0x20 ∨ c.val.toNat = 0x09 ∨
        c.val.toNat = 0x0a ∨ c.val.toNat = 0x0d := by
    rw [isBlankByte_ofNat hn.2]
    omega
  unfold String.utf8EncodeChar at h
  simp only at h
  split at h
  · next hc =>
    rw [List.mem_singleton.1 h]
    exact isBlankByte_ofNat (by omega)
  · -- every longer form has only bytes from 0x80 up
    next hc =>
    split at h
    · simp only [List.mem_cons, List.not_mem_nil, or_false] at h
      rcases h with rfl | rfl <;> exact hhigh _ (by omega) (by omega)
    · split at h <;> simp only [List.mem_cons, List.not_mem_nil, or_false] at h
      · rcases h with rfl | rfl | rfl <;> exact hhigh _ (by omega) (by omega)
      · rcases h with rfl | rfl | rfl | rfl <;> exact hhigh _ (by omega) (by omega)

theorem isBlankByte_of_mem_bytes {v : Bool} (h : ∀ c ∈ cs, isBlank c = v) (hb : b ∈ bytes cs) :
    isBlankByte b = v := by
  obtain ⟨c, hc, hb⟩ := List.mem_flatMap.1 hb
  rw [isBlankByte_of_mem hb, h c hc]

end MonkeySyntax.Text
