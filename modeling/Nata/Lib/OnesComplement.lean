/-
  One's complement arithmetic on 16-bit words, and the sum of a bit string it belongs to.

  The checksum of a datagram is the complement of the ONE'S COMPLEMENT SUM of its 16-bit words: an
  addition whose carry out of the top bit is added back at the bottom (`onesAdd`, `onesSum`).  Such
  a sum is the residue of the ordinary sum modulo `65535`, except that a multiple of `65535` other
  than zero is represented by `65535` itself (`onesRep`, `onesSum_eq`).

  So everything a checksum can tell apart happens in the ring `ZMod 65535`, where `2 ^ 16 = 1`.
  There the contribution of a byte string is the value of a polynomial: `ocs` evaluates the bytes,
  and `bitSum` the bits, by Horner's rule at one half (`2 ^ 15` is the inverse of `2`).  The three
  facts the rest of a development needs are

  * `ocs_append`   — what follows is scaled by `256` for each byte in front of it;
  * `ocs_pack`     — the sum can be read off the bit fields, each weighted by where it ends
                     (`bitSum_append`, `bitSum_natBits`);
  * `onesRep_inj`, `onesRep_eq_top` — two non-zero sums have the same complement exactly when they
                     agree in `ZMod 65535`, and the complement is zero exactly when the sum is zero
                     there.
-/
import Mathlib.Data.ZMod.Basic
import Mathlib.Tactic.LinearCombination
import Nata.Lib.Bits

namespace Nata

/-- The weight of a byte is a numeral of the ring. -/
instance atLeastTwo_256 : Nat.AtLeastTwo 256 := ⟨by decide⟩

/-- So is the weight of the top four bits of a word. -/
instance atLeastTwo_4096 : Nat.AtLeastTwo 4096 := ⟨by decide⟩

/-! ## Bit strings by Horner's rule -/

section BitSum

variable {R : Type} [CommRing R] (half : R)

/-- The value of a bit string in `R`, each bit weighing `half` of the one before it. -/
def bitSum : Bits → R
  | [] => 0
  | b :: bs => half * ((b.toNat : R) + bitSum bs)

@[simp] theorem bitSum_nil : bitSum half [] = 0 := rfl

/-- The bits behind weigh less, by as much as there are bits in front. -/
theorem bitSum_append (as bs : Bits) :
    bitSum half (as ++ bs) = bitSum half as + half ^ as.length * bitSum half bs := by
  induction as with
  | nil => simp
  | cons a as ih =>
    rw [List.cons_append, bitSum, bitSum, ih, List.length_cons, pow_succ]
    ring

variable {half}

/-- When `half` is the inverse of two, a bit string weighs the number it denotes. -/
theorem bitSum_eq (hh : half * 2 = 1) (bs : Bits) :
    bitSum half bs = half ^ bs.length * (bitsNat bs : R) := by
  induction bs with
  | nil => simp
  | cons b bs ih =>
    have hpow : half ^ bs.length * 2 ^ bs.length = 1 := by rw [← mul_pow, hh, one_pow]
    rw [bitSum, ih, bitsNat_cons, List.length_cons, pow_succ]
    push_cast
    linear_combination (-half * (b.toNat : R)) * hpow

/-- A number weighs what it is worth, at the place of its last bit. -/
theorem bitSum_natBits (hh : half * 2 = 1) {n v : Nat} (hv : v < 2 ^ n) :
    bitSum half (natBits n v) = half ^ n * (v : R) := by
  rw [bitSum_eq hh, length_natBits, bitsNat_natBits_of_lt hv]

end BitSum

/-! ## The ring of 16-bit one's complement sums -/

/-- One half in `ZMod 65535`. -/
def half16 : ZMod 65535 := 32768

/-- Half of one, modulo 65535. -/
theorem half16_two : half16 * 2 = 1 := by decide

/-- A place goes around after a word. -/
theorem half16_pow_word : half16 ^ 16 = 1 := by decide

theorem half16_pow_byte : half16 ^ 8 = 256 := by decide

/-- A run of whole words weighs nothing. -/
theorem half16_pow_of_dvd {n : Nat} (h : 16 ∣ n) : half16 ^ n = 1 := by
  obtain ⟨k, rfl⟩ := h
  rw [pow_mul, half16_pow_word, one_pow]

/-- The one's complement sum of a byte string as an element of the ring: Horner's rule at `256`. -/
def ocs : Bytes → ZMod 65535
  | [] => 0
  | b :: bytes => 256 * ((b.toNat : ZMod 65535) + ocs bytes)

@[simp] theorem ocs_nil : ocs [] = 0 := rfl

/-- Bytes behind are shifted by the number of bytes in front. -/
theorem ocs_append (xs ys : Bytes) : ocs (xs ++ ys) = ocs xs + 256 ^ xs.length * ocs ys := by
  induction xs with
  | nil => simp
  | cons x xs ih =>
    rw [List.cons_append, ocs, ocs, ih, List.length_cons, pow_succ]
    ring

/-- Behind whole words nothing is shifted. -/
theorem pow_256_of_even {n : Nat} (h : 2 ∣ n) : (256 : ZMod 65535) ^ n = 1 := by
  obtain ⟨k, rfl⟩ := h
  rw [pow_mul, show (256 : ZMod 65535) ^ 2 = 1 by decide, one_pow]

/-- After an even number of bytes the words stay in step. -/
theorem ocs_append_of_even {xs : Bytes} (h : 2 ∣ xs.length) (ys : Bytes) :
    ocs (xs ++ ys) = ocs xs + ocs ys := by
  rw [ocs_append, pow_256_of_even h, one_mul]

/-- Zeros add nothing. -/
@[simp] theorem ocs_replicate_zero (k : Nat) : ocs (List.replicate k 0#8) = 0 := by
  induction k with
  | zero => rfl
  | succ k ih =>
    rw [List.replicate_succ, ocs, ih]
    rfl

/-- The sum of the bytes is that of their bits. -/
theorem ocs_eq_bitSum (bytes : Bytes) : ocs bytes = bitSum half16 (toBits bytes) := by
  induction bytes with
  | nil => rfl
  | cons b bytes ih =>
    rw [ocs, ih, toBits_cons, bitSum_append, length_byteBits, byteBits,
      bitSum_natBits half16_two b.isLt, half16_pow_byte]
    ring

/-- The sum of a packed bit string, read off the bits. -/
theorem ocs_pack {bs : Bits} (h : 8 ∣ bs.length) : ocs (pack bs) = bitSum half16 bs := by
  rw [ocs_eq_bitSum, toBits_pack h]

/-- An integer of whole words counts for itself. -/
theorem ocs_be {w : Nat} (v : BitVec w) (h : 16 ∣ w) : ocs (be v) = (v.toNat : ZMod 65535) := by
  have h8 : 8 ∣ (natBits w v.toNat).length := by
    rw [length_natBits]
    omega
  rw [be, ocs_pack h8, bitSum_natBits half16_two v.isLt, half16_pow_of_dvd h, one_mul]

/-- A single byte counts as the high byte of a word. -/
theorem ocs_be8 (v : BitVec 8) : ocs (be v) = 256 * (v.toNat : ZMod 65535) := by
  rw [be, ocs_pack (by rw [length_natBits]), bitSum_natBits half16_two v.isLt, half16_pow_byte]

/-! ## The ordinary sum of words, and its one's complement representative -/

/-- The sum of the big-endian 16-bit words of a byte string, a trailing odd byte being padded with
    zero on the right. -/
def wordSum : Bytes → Nat
  | [] => 0
  | [b] => b.toNat * 256
  | hi :: lo :: bytes => hi.toNat * 256 + lo.toNat + wordSum bytes

/-- The sum of the words is that of the bytes, modulo 65535. -/
theorem wordSum_cast : ∀ bytes : Bytes, (wordSum bytes : ZMod 65535) = ocs bytes
  | [] => by simp [wordSum]
  | [b] => by simp [wordSum, ocs, mul_comm]
  | hi :: lo :: bytes => by
    have h256 : (256 : ZMod 65535) * 256 = 1 := by decide
    rw [wordSum, ocs, ocs]
    push_cast
    rw [wordSum_cast bytes]
    linear_combination (-(lo.toNat : ZMod 65535) - ocs bytes) * h256

/-- No word adds more than 65535. -/
theorem wordSum_le : ∀ bytes : Bytes, wordSum bytes ≤ 65535 * ((bytes.length + 1) / 2)
  | [] => by simp [wordSum]
  | [b] => by have := b.isLt; simp [wordSum]; omega
  | hi :: lo :: bytes => by
    have h1 := hi.isLt
    have h2 := lo.isLt
    have ih := wordSum_le bytes
    have hlen : ((hi :: lo :: bytes).length + 1) / 2 = (bytes.length + 1) / 2 + 1 := by
      simp only [List.length_cons]; omega
    rw [wordSum, hlen]
    omega

theorem byte_eq_zero_iff (b : BitVec 8) : b = 0 ↔ b.toNat = 0 :=
  ⟨fun h => h ▸ rfl, fun h => BitVec.eq_of_toNat_eq h⟩

/-- The words add up to zero only when every byte is zero. -/
theorem wordSum_eq_zero_iff : ∀ bytes : Bytes, wordSum bytes = 0 ↔ ∀ b ∈ bytes, b = 0
  | [] => by simp [wordSum]
  | [b] => by rw [List.forall_mem_singleton, byte_eq_zero_iff, wordSum]; omega
  | hi :: lo :: bytes => by
    have ih := wordSum_eq_zero_iff bytes
    rw [List.forall_mem_cons, List.forall_mem_cons, ← ih, byte_eq_zero_iff, byte_eq_zero_iff,
      wordSum]
    omega

/-- A sum whose bytes are not all zero is positive: one non-zero byte is enough. -/
theorem wordSum_pos {bytes : Bytes} {b : BitVec 8} (hb : b ∈ bytes) (hne : b ≠ 0) :
    wordSum bytes ≠ 0 :=
  fun h => hne ((wordSum_eq_zero_iff bytes).mp h b hb)

/-- Addition with the carry added back. -/
def onesAdd (a b : Nat) : Nat := if a + b < 65536 then a + b else a + b - 65535

/-- The one's complement sum of the words of a byte string. -/
def onesSum : Bytes → Nat
  | [] => 0
  | [b] => b.toNat * 256
  | hi :: lo :: bytes => onesAdd (hi.toNat * 256 + lo.toNat) (onesSum bytes)

/-- The representative of a sum: zero for zero, else the residue between `1` and `65535`. -/
def onesRep (s : Nat) : Nat := if s = 0 then 0 else (s - 1) % 65535 + 1

/-- The sum folds into a word. -/
theorem onesRep_le (s : Nat) : onesRep s ≤ 65535 := by
  unfold onesRep
  split <;> omega

/-- Only zero folds to zero. -/
theorem onesRep_eq_zero_iff (s : Nat) : onesRep s = 0 ↔ s = 0 := by
  unfold onesRep
  split <;> omega

/-- A word is folded already. -/
theorem onesRep_of_le {s : Nat} (h : s ≤ 65535) : onesRep s = s := by
  unfold onesRep
  split <;> omega

/-- Folding at each step folds the sum. -/
theorem onesAdd_onesRep {a : Nat} (ha : a ≤ 65535) (s : Nat) :
    onesAdd a (onesRep s) = onesRep (a + s) := by
  unfold onesAdd onesRep
  split <;> split <;> split <;> omega

/-- The one's complement sum is the representative of the ordinary sum. -/
theorem onesSum_eq : ∀ bytes : Bytes, onesSum bytes = onesRep (wordSum bytes)
  | [] => rfl
  | [b] => by
    have := b.isLt
    rw [onesSum, wordSum, onesRep_of_le (by omega)]
  | hi :: lo :: bytes => by
    have h1 := hi.isLt
    have h2 := lo.isLt
    rw [onesSum, wordSum, onesSum_eq bytes, onesAdd_onesRep (by omega)]

/-- Folding keeps the value modulo 65535. -/
theorem onesRep_mod (s : Nat) : onesRep s % 65535 = s % 65535 := by
  unfold onesRep
  split <;> omega

theorem onesRep_cast (s : Nat) : (onesRep s : ZMod 65535) = (s : ZMod 65535) :=
  (ZMod.natCast_eq_natCast_iff _ _ _).mpr (onesRep_mod s)

/-- Non-zero sums have one representative exactly when they agree modulo `65535`. -/
theorem onesRep_inj {s t : Nat} (hs : s ≠ 0) (ht : t ≠ 0) :
    onesRep s = onesRep t ↔ (s : ZMod 65535) = (t : ZMod 65535) := by
  rw [ZMod.natCast_eq_natCast_iff, Nat.ModEq]
  unfold onesRep
  rw [if_neg hs, if_neg ht]
  omega

/-- The representative is the top value exactly on the non-zero multiples of `65535`. -/
theorem onesRep_eq_top_iff (s : Nat) :
    onesRep s = 65535 ↔ s ≠ 0 ∧ (s : ZMod 65535) = 0 := by
  rw [ZMod.natCast_eq_zero_iff]
  unfold onesRep
  split <;> omega

/-- Folding the carries of a 32-bit sum back in twice leaves its representative. -/
theorem fold_carry_twice {s : Nat} (hs : s < 2 ^ 32) :
    (s % 65536 + s / 65536) % 65536 + (s % 65536 + s / 65536) / 65536 = onesRep s := by
  unfold onesRep
  split <;> omega

/-- The Internet checksum of a byte string: the complement of its one's complement sum. -/
def internetChecksum (bytes : Bytes) : BitVec 16 := ~~~(BitVec.ofNat 16 (onesSum bytes))

/-- The checksum is the complement of the folded sum. -/
theorem toNat_internetChecksum (bytes : Bytes) :
    (internetChecksum bytes).toNat = 65535 - onesSum bytes := by
  have h : onesSum bytes ≤ 65535 := onesSum_eq bytes ▸ onesRep_le _
  rw [internetChecksum, BitVec.toNat_not, BitVec.toNat_ofNat, Nat.mod_eq_of_lt (by omega)]

/-- As a ring element the checksum is minus the sum. -/
theorem internetChecksum_cast (bytes : Bytes) :
    ((internetChecksum bytes).toNat : ZMod 65535) = -ocs bytes := by
  have h : onesSum bytes ≤ 65535 := onesSum_eq bytes ▸ onesRep_le _
  rw [toNat_internetChecksum, Nat.cast_sub h, onesSum_eq, onesRep_cast, wordSum_cast,
    show ((65535 : Nat) : ZMod 65535) = 0 by decide, zero_sub]

/-- The checksum test: zero exactly when the sum is zero in the ring and some byte is not. -/
theorem internetChecksum_eq_zero_iff (bytes : Bytes) :
    internetChecksum bytes = 0 ↔ wordSum bytes ≠ 0 ∧ ocs bytes = 0 := by
  have h : onesSum bytes ≤ 65535 := onesSum_eq bytes ▸ onesRep_le _
  rw [BitVec.toNat_eq, toNat_internetChecksum, ← wordSum_cast, ← onesRep_eq_top_iff, ← onesSum_eq]
  show 65535 - onesSum bytes = 0 ↔ _
  omega

/-- Two byte strings that are not all zero have one checksum exactly when their sums agree. -/
theorem internetChecksum_inj {xs ys : Bytes} (hx : wordSum xs ≠ 0) (hy : wordSum ys ≠ 0) :
    internetChecksum xs = internetChecksum ys ↔ ocs xs = ocs ys := by
  have h1 : onesSum xs ≤ 65535 := onesSum_eq xs ▸ onesRep_le _
  have h2 : onesSum ys ≤ 65535 := onesSum_eq ys ▸ onesRep_le _
  rw [BitVec.toNat_eq, toNat_internetChecksum, toNat_internetChecksum, ← wordSum_cast,
    ← wordSum_cast, ← onesRep_inj hx hy, ← onesSum_eq, ← onesSum_eq]
  omega

end Nata
