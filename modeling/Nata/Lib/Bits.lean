/-
  Bit strings, most significant bit first, and the bytes they pack into.

  A binary format is read and written as a string of bits: a field of width `n` is `n` consecutive
  bits, the most significant one first, and eight bits in a row make a byte whether or not the
  fields respect the byte boundary.  This file is the arithmetic under that picture:

  * `natBits n v` — the `n` low bits of the number `v`;
  * `bitsNat bs`  — the number a bit string denotes;
  * `toBits`      — the bits of a byte string;
  * `pack`        — the bytes of a bit string, a last incomplete byte filled up with zeros.

  `bitsNat` and `natBits` are inverse on numbers that fit (`bitsNat_natBits`, `natBits_bitsNat`),
  and so are `toBits` and `pack` on whole bytes (`pack_toBits`, `toBits_pack`).
-/
import Mathlib.Algebra.Order.Ring.Nat
import Mathlib.Data.List.Basic
import Mathlib.Data.Nat.Bitwise
import Mathlib.Tactic.Ring

namespace Nata

/-- A string of bits, the first one read first. -/
abbrev Bits := List Bool

/-- A string of bytes. -/
abbrev Bytes := List (BitVec 8)

/-! ## Numbers as bit strings -/

/-- The `n` low bits of `v`, most significant first. -/
def natBits : Nat → Nat → Bits
  | 0, _ => []
  | n + 1, v => v.testBit n :: natBits n v

/-- The number a bit string denotes. -/
def bitsNat : Bits → Nat
  | [] => 0
  | b :: bs => b.toNat * 2 ^ bs.length + bitsNat bs

@[simp] theorem natBits_zero (v : Nat) : natBits 0 v = [] := rfl

@[simp] theorem length_natBits (n v : Nat) : (natBits n v).length = n := by
  induction n with
  | zero => rfl
  | succ n ih => rw [natBits, List.length_cons, ih]

@[simp] theorem bitsNat_nil : bitsNat [] = 0 := rfl

/-- The first bit is the highest one. -/
theorem bitsNat_cons (b : Bool) (bs : Bits) :
    bitsNat (b :: bs) = b.toNat * 2 ^ bs.length + bitsNat bs := rfl

/-- `n` bits hold a number below `2 ^ n`. -/
theorem bitsNat_lt (bs : Bits) : bitsNat bs < 2 ^ bs.length := by
  induction bs with
  | nil => exact Nat.one_pos
  | cons b bs ih =>
    have hb : b.toNat ≤ 1 := Bool.toNat_le b
    have hmul : b.toNat * 2 ^ bs.length ≤ 1 * 2 ^ bs.length := Nat.mul_le_mul_right _ hb
    rw [bitsNat_cons, List.length_cons, Nat.pow_succ]
    omega

/-- The bits in front are the higher ones. -/
theorem bitsNat_append (as bs : Bits) :
    bitsNat (as ++ bs) = bitsNat as * 2 ^ bs.length + bitsNat bs := by
  induction as with
  | nil => simp
  | cons a as ih =>
    rw [List.cons_append, bitsNat_cons, ih, bitsNat_cons, List.length_append, Nat.pow_add]
    ring

/-- Reading back the `n` low bits of `v` gives `v` modulo `2 ^ n`. -/
theorem bitsNat_natBits (n v : Nat) : bitsNat (natBits n v) = v % 2 ^ n := by
  induction n with
  | zero => simp [Nat.mod_one]
  | succ n ih =>
    rw [natBits, bitsNat_cons, length_natBits, ih, Nat.testBit_eq_decide_div_mod_eq,
      Nat.pow_succ, Nat.mod_mul]
    rcases Nat.mod_two_eq_zero_or_one (v / 2 ^ n) with h | h
    · simp [h]
    · simp [h, Nat.add_comm]

/-- A number that fits comes back from its bits. -/
theorem bitsNat_natBits_of_lt {n v : Nat} (h : v < 2 ^ n) : bitsNat (natBits n v) = v := by
  rw [bitsNat_natBits, Nat.mod_eq_of_lt h]

/-- Only the low bits of the number matter. -/
theorem natBits_mod {n k : Nat} (hk : k ≤ n) (v : Nat) : natBits k (v % 2 ^ n) = natBits k v := by
  induction k with
  | zero => rfl
  | succ k ih =>
    rw [natBits, natBits, ih (by omega), Nat.testBit_mod_two_pow]
    simp [show k < n by omega]

/-- Writing out the number a bit string denotes gives the string back. -/
theorem natBits_bitsNat (bs : Bits) : natBits bs.length (bitsNat bs) = bs := by
  induction bs with
  | nil => rfl
  | cons b bs ih =>
    have hlt := bitsNat_lt bs
    have hdiv : bitsNat (b :: bs) / 2 ^ bs.length = b.toNat := by
      rw [bitsNat_cons, Nat.mul_comm, Nat.mul_add_div (Nat.two_pow_pos _), Nat.div_eq_of_lt hlt]
      rfl
    have hmod : bitsNat (b :: bs) % 2 ^ bs.length = bitsNat bs := by
      rw [bitsNat_cons, Nat.mul_comm, Nat.mul_add_mod, Nat.mod_eq_of_lt hlt]
    rw [List.length_cons, natBits, Nat.testBit_eq_decide_div_mod_eq, hdiv,
      ← natBits_mod (Nat.le_refl bs.length), hmod, ih]
    cases b <;> rfl

/-- Bits come back from their number. -/
theorem natBits_bitsNat_of_length {n : Nat} {bs : Bits} (h : bs.length = n) :
    natBits n (bitsNat bs) = bs := by
  rw [← h, natBits_bitsNat]

/-- The bits of a number are its high bits and then its low bits. -/
theorem natBits_add (m n v : Nat) : natBits (m + n) v = natBits m (v / 2 ^ n) ++ natBits n v := by
  induction m with
  | zero => rw [Nat.zero_add, natBits_zero, List.nil_append]
  | succ m ih =>
    rw [Nat.succ_add, natBits, natBits, ih, Nat.testBit_div_two_pow, List.cons_append]

/-! ## Bytes -/

/-- The eight bits of a byte. -/
def byteBits (b : BitVec 8) : Bits := natBits 8 b.toNat

/-- The byte eight bits denote. -/
def bitsByte (bs : Bits) : BitVec 8 := BitVec.ofNat 8 (bitsNat bs)

/-- The bits of a byte string. -/
def toBits : Bytes → Bits
  | [] => []
  | b :: bytes => byteBits b ++ toBits bytes

/-- The bytes of a bit string; a last incomplete byte is filled up with zeros on the right. -/
def pack : Bits → Bytes
  | [] => []
  | b₀ :: b₁ :: b₂ :: b₃ :: b₄ :: b₅ :: b₆ :: b₇ :: bs =>
    bitsByte [b₀, b₁, b₂, b₃, b₄, b₅, b₆, b₇] :: pack bs
  | b :: bs => [bitsByte (b :: bs ++ List.replicate (7 - bs.length) false)]

/-- A byte is eight bits. -/
@[simp] theorem length_byteBits (b : BitVec 8) : (byteBits b).length = 8 := length_natBits 8 _

/-- A byte comes back from its bits. -/
@[simp] theorem bitsByte_byteBits (b : BitVec 8) : bitsByte (byteBits b) = b := by
  rw [bitsByte, byteBits, bitsNat_natBits_of_lt b.isLt, BitVec.ofNat_toNat, BitVec.setWidth_eq]

/-- Eight bits come back from their byte. -/
theorem byteBits_bitsByte {bs : Bits} (h : bs.length = 8) : byteBits (bitsByte bs) = bs := by
  have hlt : bitsNat bs < 2 ^ 8 := h ▸ bitsNat_lt bs
  rw [byteBits, bitsByte, BitVec.toNat_ofNat, Nat.mod_eq_of_lt hlt, natBits_bitsNat_of_length h]

@[simp] theorem toBits_nil : toBits [] = [] := rfl

@[simp] theorem toBits_cons (b : BitVec 8) (bytes : Bytes) :
    toBits (b :: bytes) = byteBits b ++ toBits bytes := rfl

/-- Bytes in a row are bits in a row. -/
@[simp] theorem toBits_append (xs ys : Bytes) : toBits (xs ++ ys) = toBits xs ++ toBits ys := by
  induction xs with
  | nil => rfl
  | cons x xs ih => rw [List.cons_append, toBits_cons, ih, toBits_cons, List.append_assoc]

/-- Eight bits a byte. -/
@[simp] theorem length_toBits (bytes : Bytes) : (toBits bytes).length = 8 * bytes.length := by
  induction bytes with
  | nil => rfl
  | cons b bytes ih => rw [toBits_cons, List.length_append, length_byteBits, ih,
      List.length_cons]; omega

@[simp] theorem pack_nil : pack [] = [] := rfl

/-- Eight bits in front are one byte in front. -/
theorem pack_append_of_length {as : Bits} (h : as.length = 8) (bs : Bits) :
    pack (as ++ bs) = bitsByte as :: pack bs := by
  match as, h with
  | [_, _, _, _, _, _, _, _], _ => rfl

/-- Whole bytes in front are packed as they are. -/
@[simp] theorem pack_toBits_append (bytes : Bytes) (bs : Bits) :
    pack (toBits bytes ++ bs) = bytes ++ pack bs := by
  induction bytes with
  | nil => rfl
  | cons b bytes ih =>
    rw [toBits_cons, List.append_assoc, pack_append_of_length (length_byteBits b), ih,
      bitsByte_byteBits, List.cons_append]

/-- Bytes come back from their bits. -/
@[simp] theorem pack_toBits (bytes : Bytes) : pack (toBits bytes) = bytes := by
  simpa using pack_toBits_append bytes []

/-- Different bytes have different bits. -/
theorem toBits_inj {xs ys : Bytes} (h : toBits xs = toBits ys) : xs = ys := by
  rw [← pack_toBits xs, h, pack_toBits]

/-- A bit string of whole bytes is the bits of its bytes. -/
theorem toBits_pack {bs : Bits} (h : 8 ∣ bs.length) : toBits (pack bs) = bs := by
  obtain ⟨k, hk⟩ := h
  induction k generalizing bs with
  | zero => rw [List.eq_nil_of_length_eq_zero hk]; rfl
  | succ k ih =>
    have htake : (bs.take 8).length = 8 := by rw [List.length_take]; omega
    have hdrop : (bs.drop 8).length = 8 * k := by rw [List.length_drop]; omega
    conv_lhs => rw [← List.take_append_drop 8 bs]
    rw [pack_append_of_length htake, toBits_cons, byteBits_bitsByte htake, ih hdrop,
      List.take_append_drop]

/-- Whole bytes in front are packed on their own. -/
theorem pack_append {as : Bits} (h : 8 ∣ as.length) (bs : Bits) :
    pack (as ++ bs) = pack as ++ pack bs := by
  rw [← toBits_pack h, pack_toBits_append, pack_toBits]

/-- Packing whole bytes keeps the size. -/
theorem length_pack {bs : Bits} (h : 8 ∣ bs.length) : 8 * (pack bs).length = bs.length := by
  rw [← length_toBits, toBits_pack h]

/-- A string of `8 * k` bits packs into `k` bytes. -/
theorem length_pack_of_length {bs : Bits} {k : Nat} (h : bs.length = 8 * k) :
    (pack bs).length = k := by
  have := length_pack (h ▸ Nat.dvd_mul_right 8 k)
  omega

/-- An integer as a big-endian byte string. -/
def be {w : Nat} (v : BitVec w) : Bytes := pack (natBits w v.toNat)

/-- A number of `k` bytes. -/
theorem length_be {w k : Nat} (v : BitVec w) (h : w = 8 * k) : (be v).length = k :=
  length_pack_of_length (h ▸ length_natBits w _)

/-- An integer of whole bytes in front of anything. -/
theorem pack_natBits_append {w : Nat} (v : BitVec w) (bs : Bits) (h : 8 ∣ w) :
    pack (natBits w v.toNat ++ bs) = be v ++ pack bs :=
  pack_append (by rwa [length_natBits]) bs

/-- Every string of `k` bytes is an integer. -/
theorem exists_be {w k : Nat} (h : w = 8 * k) (bytes : Bytes) (hlen : bytes.length = k) :
    ∃ v : BitVec w, be v = bytes := by
  have hbits : (toBits bytes).length = w := by rw [length_toBits, hlen, h]
  have hlt : bitsNat (toBits bytes) < 2 ^ w := hbits ▸ bitsNat_lt (toBits bytes)
  refine ⟨BitVec.ofNat w (bitsNat (toBits bytes)), ?_⟩
  rw [be, BitVec.toNat_ofNat, Nat.mod_eq_of_lt hlt, natBits_bitsNat_of_length hbits, pack_toBits]

/-- The bits of an integer of whole bytes. -/
theorem toBits_be {w : Nat} (v : BitVec w) (h : 8 ∣ w) : toBits (be v) = natBits w v.toNat :=
  toBits_pack (by rwa [length_natBits])

/-- The two bytes of a word. -/
theorem be16_eq (v : BitVec 16) :
    be v = [BitVec.ofNat 8 (v.toNat / 2 ^ 8), BitVec.ofNat 8 v.toNat] := by
  have hv := v.isLt
  have hbits : toBits [BitVec.ofNat 8 (v.toNat / 2 ^ 8), BitVec.ofNat 8 v.toNat] =
      natBits 16 v.toNat := by
    rw [toBits_cons, toBits_cons, toBits_nil, List.append_nil, byteBits, byteBits,
      BitVec.toNat_ofNat, BitVec.toNat_ofNat, natBits_mod (Nat.le_refl 8),
      natBits_mod (Nat.le_refl 8), ← natBits_add 8 8]
  rw [be, ← hbits, pack_toBits]

/-- The high bits of a byte. -/
theorem take_toBits_cons {k m : Nat} (h : k + m = 8) (b : BitVec 8) (bytes : Bytes) :
    bitsNat ((toBits (b :: bytes)).take k) = b.toNat / 2 ^ m := by
  have hlt : b.toNat / 2 ^ m < 2 ^ k := by
    rw [Nat.div_lt_iff_lt_mul (Nat.two_pow_pos m), ← Nat.pow_add, h]
    exact b.isLt
  have hbits : byteBits b = natBits k (b.toNat / 2 ^ m) ++ natBits m b.toNat := by
    rw [← natBits_add, h]
    rfl
  rw [toBits_cons, hbits, List.append_assoc, List.take_left' (length_natBits k _),
    bitsNat_natBits_of_lt hlt]

/-- The low bits of a byte. -/
theorem take_drop_toBits_cons {k m : Nat} (h : k + m = 8) (b : BitVec 8) (bytes : Bytes) :
    bitsNat (((toBits (b :: bytes)).drop k).take m) = b.toNat % 2 ^ m := by
  have hbits : byteBits b = natBits k (b.toNat / 2 ^ m) ++ natBits m b.toNat := by
    rw [← natBits_add, h]
    rfl
  rw [toBits_cons, hbits, List.append_assoc, List.drop_left' (length_natBits k _),
    List.take_left' (length_natBits m _), bitsNat_natBits]

/-- Zero bytes are zero. -/
theorem bitsNat_toBits_eq_zero : ∀ {bytes : Bytes}, (∀ b ∈ bytes, b = 0) →
    bitsNat (toBits bytes) = 0
  | [], _ => rfl
  | b :: bytes, h => by
    obtain ⟨hb, hbytes⟩ := List.forall_mem_cons.mp h
    have hzero : bitsNat (byteBits 0) = 0 := by decide
    rw [toBits_cons, bitsNat_append, bitsNat_toBits_eq_zero hbytes, hb, hzero, Nat.zero_mul]

/-- An integer that is not zero has a byte that is not zero. -/
theorem exists_mem_be_ne_zero {w : Nat} {v : BitVec w} (h : 8 ∣ w) (hv : v ≠ 0) :
    ∃ b ∈ be v, b ≠ 0 := by
  by_contra hall
  have hzero : ∀ b ∈ be v, b = 0 := by
    intro b hb
    by_contra hne
    exact hall ⟨b, hb, hne⟩
  have hbits := bitsNat_toBits_eq_zero hzero
  rw [be, toBits_pack (by rwa [length_natBits]), bitsNat_natBits_of_lt v.isLt] at hbits
  exact hv (BitVec.eq_of_toNat_eq hbits)

/-- A single byte is written as it is. -/
theorem be8_eq (v : BitVec 8) : be v = [v] := pack_toBits [v]

@[simp] theorem length_be8 (v : BitVec 8) : (be v).length = 1 := length_be v rfl

@[simp] theorem length_be16 (v : BitVec 16) : (be v).length = 2 := length_be v rfl

@[simp] theorem length_be32 (v : BitVec 32) : (be v).length = 4 := length_be v rfl

@[simp] theorem length_be128 (v : BitVec 128) : (be v).length = 16 := length_be v rfl

end Nata
