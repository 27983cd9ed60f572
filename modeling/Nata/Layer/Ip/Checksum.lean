/-
  The 16-bit checksum of the IP family, as the crate computes it.

  `checksum` adds the big-endian words of its input in a `u32`, folds the carries back in twice and
  complements.  Two folds are enough for any 32-bit sum, so up to the point where the `u32` itself
  overflows the result is the Internet checksum (`checksum_eq_internetChecksum`); that point lies
  beyond 131 074 bytes, twice the largest datagram an IP length field can announce.

  A checksum is computed on the serialised header with the checksum field cleared, by writing two
  zero bytes over it (`clearWord`).
-/
import Nata.Lib.OnesComplement

namespace Nata

/-- `input.as_chunks::<2>()`: the whole words, and what remains. -/
def asChunks : Bytes → List (BitVec 8 × BitVec 8) × Bytes
  | hi :: lo :: rest => ((hi, lo) :: (asChunks rest).1, (asChunks rest).2)
  | remainder => ([], remainder)

/-- `u32::from(u16::from_be_bytes([hi, lo]))` -/
def fromBeBytes (hi lo : BitVec 8) : BitVec 32 := (hi ++ lo).setWidth 32

/-- The sum of the words in a `u32`. -/
def checksumSum (input : Bytes) : BitVec 32 :=
  let chunks := (asChunks input).1
  let remainder := (asChunks input).2
  let sum := chunks.foldl (fun sum chunk => sum + fromBeBytes chunk.1 chunk.2) 0#32
  match remainder with
  | [rem] => sum + fromBeBytes rem 0#8
  | _ => sum

/-- 16-bit ip checksum -/
def checksum (input : Bytes) : BitVec 16 :=
  let sum := checksumSum input
  let carryAdd := (sum &&& 0xffff#32) + (sum >>> 16)
  ~~~(((carryAdd &&& 0xffff#32) + (carryAdd >>> 16)).setWidth 16)

/-- `data[i] = 0x00; data[i + 1] = 0x00;` -/
def clearWord (data : Bytes) (i : Nat) : Bytes := (data.set i 0#8).set (i + 1) 0#8

/-! ## The sum -/

/-- Two bytes are a number below 2 ^ 16, in 32 bits. -/
theorem fromBeBytes_eq (hi lo : BitVec 8) :
    fromBeBytes hi lo = BitVec.ofNat 32 (hi.toNat * 256 + lo.toNat) := by
  have h1 := hi.isLt
  have h2 := lo.isLt
  apply BitVec.eq_of_toNat_eq
  rw [fromBeBytes, BitVec.toNat_setWidth, BitVec.toNat_append, BitVec.toNat_ofNat,
    ← Nat.shiftLeft_add_eq_or_of_lt h2, Nat.shiftLeft_eq]

/-- The loop adds up the whole words, whatever it starts from, and the remainder comes last. -/
theorem foldl_asChunks (input : Bytes) (sum : BitVec 32) :
    (match (asChunks input).2 with
      | [rem] => (asChunks input).1.foldl (fun s chunk => s + fromBeBytes chunk.1 chunk.2) sum +
          fromBeBytes rem 0#8
      | _ => (asChunks input).1.foldl (fun s chunk => s + fromBeBytes chunk.1 chunk.2) sum) =
      sum + BitVec.ofNat 32 (wordSum input) := by
  induction input using wordSum.induct generalizing sum with
  | case1 => simp [asChunks, wordSum]
  | case2 b => simp [asChunks, wordSum, fromBeBytes_eq]
  | case3 hi lo rest ih =>
    have hword := ih (sum + fromBeBytes hi lo)
    have hsum : sum + fromBeBytes hi lo + BitVec.ofNat 32 (wordSum rest) =
        sum + BitVec.ofNat 32 (wordSum (hi :: lo :: rest)) := by
      rw [fromBeBytes_eq, BitVec.add_assoc, ← BitVec.ofNat_add]
      rfl
    rw [hsum] at hword
    exact hword

/-- The sum wraps as the sum of the words does, in 32 bits. -/
theorem checksumSum_eq (input : Bytes) : checksumSum input = BitVec.ofNat 32 (wordSum input) := by
  have h := foldl_asChunks input 0#32
  rw [BitVec.zero_add] at h
  exact h

/-- Two folds and a complement of what is left in the `u32`. -/
theorem toNat_checksum (input : Bytes) :
    (checksum input).toNat = 65535 - onesRep (wordSum input % 2 ^ 32) := by
  have hmask : ∀ v : BitVec 32, (v &&& 0xffff#32).toNat = v.toNat % 65536 := by
    intro v
    rw [BitVec.toNat_and]
    exact Nat.and_two_pow_sub_one_eq_mod v.toNat 16
  have hshift : ∀ v : BitVec 32, (v >>> 16).toNat = v.toNat / 65536 := by
    intro v
    rw [BitVec.toNat_ushiftRight, Nat.shiftRight_eq_div_pow]
  have hsum : (checksumSum input).toNat = wordSum input % 2 ^ 32 := by
    rw [checksumSum_eq, BitVec.toNat_ofNat]
  have hlt : wordSum input % 2 ^ 32 < 2 ^ 32 := Nat.mod_lt _ (by decide)
  have hfold := fold_carry_twice hlt
  have hle := onesRep_le (wordSum input % 2 ^ 32)
  rw [← hfold]
  simp only [checksum, BitVec.toNat_not, BitVec.toNat_setWidth, BitVec.toNat_add, hmask, hshift,
    hsum]
  omega

/-- **What the crate computes is the Internet checksum**, as long as the `u32` does not overflow. -/
theorem checksum_eq_internetChecksum {input : Bytes} (h : wordSum input < 2 ^ 32) :
    checksum input = internetChecksum input := by
  apply BitVec.eq_of_toNat_eq
  rw [toNat_checksum, toNat_internetChecksum, onesSum_eq, Nat.mod_eq_of_lt h]

/-- Inputs of at most 131 074 bytes do not overflow the sum. -/
theorem wordSum_lt_of_length {input : Bytes} (h : input.length ≤ 131074) :
    wordSum input < 2 ^ 32 := by
  have hle := wordSum_le input
  omega

/-- The checksum as an element of the ring. -/
theorem checksum_cast {input : Bytes} (h : input.length ≤ 131074) :
    ((checksum input).toNat : ZMod 65535) = -ocs input := by
  rw [checksum_eq_internetChecksum (wordSum_lt_of_length h), internetChecksum_cast]

/-- **The receiver's test**: zero exactly when the words add up to zero and are not all zero. -/
theorem checksum_eq_zero_iff {input : Bytes} (h : input.length ≤ 131074) :
    checksum input = 0 ↔ wordSum input ≠ 0 ∧ ocs input = 0 := by
  rw [checksum_eq_internetChecksum (wordSum_lt_of_length h), internetChecksum_eq_zero_iff]

/-! ## Clearing the checksum field -/

/-- Setting two bytes next to each other. -/
theorem set_set_append {x z : Bytes} {a b a' b' : BitVec 8} :
    ((x ++ [a, b] ++ z).set x.length a').set (x.length + 1) b' = x ++ [a', b'] ++ z := by
  rw [List.append_assoc, List.set_append_right _ _ (Nat.le_refl _),
    List.set_append_right _ _ (Nat.le_succ _), Nat.sub_self, Nat.succ_sub (Nat.le_refl _),
    Nat.sub_self, List.append_assoc]
  rfl

/-- Clearing a word replaces it by zero and leaves the rest. -/
theorem clearWord_append {x z : Bytes} {i : Nat} (v : BitVec 16) (hx : x.length = i) :
    clearWord (x ++ be v ++ z) i = x ++ be 0#16 ++ z := by
  subst hx
  rw [clearWord, be16_eq v, be16_eq 0#16, set_set_append]
  rfl

/-- A field of one word contributes its value to the sum. -/
theorem ocs_field {x z : Bytes} (v : BitVec 16) (hx : 2 ∣ x.length) :
    ocs (x ++ be v ++ z) = ocs (x ++ be 0#16 ++ z) + (v.toNat : ZMod 65535) := by
  have h2 : ∀ w : BitVec 16, 2 ∣ (x ++ be w).length := by
    intro w
    rw [List.length_append, length_be16]
    omega
  have h16 : ∀ w : BitVec 16, ocs (x ++ be w ++ z) = ocs x + (w.toNat : ZMod 65535) + ocs z := by
    intro w
    rw [ocs_append_of_even (h2 w), ocs_append_of_even hx, ocs_be w (Nat.dvd_refl 16)]
  rw [h16, h16, BitVec.toNat_zero, Nat.cast_zero]
  ring

end Nata
