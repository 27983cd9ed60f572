/-
  What a checksum is worth.

  * The running sum is a `u32`.  `runningSum` is the loop of `checksum` with every addition checked;
    none overflows exactly when the sum of the words is below `2 ^ 32`, and then the result is the
    Internet checksum (`checksum_right_iff`).  Every input of at most 131 074 bytes is such, but the
    data of an `Icmp4` has no limit.
  * A string with its checksum written in validates, and nothing else written there does, except for
    the other zero (`checksum_validates`).
-/
import Nata.Layer.Icmp

namespace Nata

/-! ## The running sum -/

/-- `a + b` on `u32`; `none` is an overflow. -/
def addU32 (a b : BitVec 32) : Option (BitVec 32) :=
  if a.toNat + b.toNat < 2 ^ 32 then some (a + b) else none

/-- The sum of the words in a `u32`, each addition checked. -/
def runningSum (input : Bytes) : Option (BitVec 32) := do
  let chunks := (asChunks input).1
  let remainder := (asChunks input).2
  let sum ← chunks.foldlM (fun sum chunk => addU32 sum (fromBeBytes chunk.1 chunk.2)) 0#32
  match remainder with
  | [rem] => addU32 sum (fromBeBytes rem 0#8)
  | _ => some sum

/-- A number that was in the type fits it. -/
theorem tryFrom_toNat {w : Nat} (v : BitVec w) : tryFrom w v.toNat = some v := by
  rw [tryFrom, if_pos v.isLt, BitVec.ofNat_toNat, BitVec.setWidth_eq]

/-- A checked addition is a conversion of the exact sum. -/
theorem addU32_fromBeBytes (sum : BitVec 32) (hi lo : BitVec 8) :
    addU32 sum (fromBeBytes hi lo) = tryFrom 32 (sum.toNat + (hi.toNat * 256 + lo.toNat)) := by
  have h1 := hi.isLt
  have h2 := lo.isLt
  have hword : (fromBeBytes hi lo).toNat = hi.toNat * 256 + lo.toNat := by
    rw [fromBeBytes_eq, BitVec.toNat_ofNat, Nat.mod_eq_of_lt (by omega)]
  have hsum : sum + fromBeBytes hi lo =
      BitVec.ofNat 32 (sum.toNat + (hi.toNat * 256 + lo.toNat)) := by
    rw [BitVec.ofNat_add sum.toNat, BitVec.ofNat_toNat, BitVec.setWidth_eq, fromBeBytes_eq]
  rw [addU32, tryFrom, hword, hsum]

/-- So is the whole loop: no addition overflows if the total does not. -/
theorem foldlM_asChunks (input : Bytes) (sum : BitVec 32) :
    ((asChunks input).1.foldlM (fun sum chunk => addU32 sum (fromBeBytes chunk.1 chunk.2)) sum).bind
        (fun sum => match (asChunks input).2 with
          | [rem] => addU32 sum (fromBeBytes rem 0#8)
          | _ => some sum) =
      tryFrom 32 (sum.toNat + wordSum input) := by
  induction input using wordSum.induct generalizing sum with
  | case1 => exact (tryFrom_toNat sum).symm
  | case2 b =>
    have hword := addU32_fromBeBytes sum b 0#8
    rw [BitVec.toNat_zero, Nat.add_zero] at hword
    rw [wordSum]
    exact hword
  | case3 hi lo rest ih =>
    have hcons : wordSum (hi :: lo :: rest) = hi.toNat * 256 + lo.toNat + wordSum rest := rfl
    show ((addU32 sum (fromBeBytes hi lo)).bind fun sum =>
      (asChunks rest).1.foldlM (fun sum chunk => addU32 sum (fromBeBytes chunk.1 chunk.2)) sum).bind
        _ = _
    rw [hcons, ← Nat.add_assoc, addU32_fromBeBytes]
    by_cases h : sum.toNat + (hi.toNat * 256 + lo.toNat) < 2 ^ 32
    · have hnext := ih (BitVec.ofNat 32 (sum.toNat + (hi.toNat * 256 + lo.toNat)))
      rw [BitVec.toNat_ofNat, Nat.mod_eq_of_lt h] at hnext
      rw [tryFrom, if_pos h, Option.bind_some]
      exact hnext
    · rw [tryFrom_eq_none_iff.mpr (by omega), tryFrom_eq_none_iff.mpr (by omega)]
      rfl

/-- **The running sum overflows exactly when the sum of the words does.** -/
theorem runningSum_eq (input : Bytes) : runningSum input = tryFrom 32 (wordSum input) := by
  have h := foldlM_asChunks input 0#32
  rw [BitVec.toNat_zero, Nat.zero_add] at h
  exact h

/-- Where nothing overflows the running sum is the one that `checksum` folds. -/
theorem runningSum_eq_checksumSum_iff {input : Bytes} :
    runningSum input = some (checksumSum input) ↔ wordSum input < 2 ^ 32 := by
  rw [runningSum_eq, checksumSum_eq, tryFrom_eq_some]
  exact and_iff_left rfl

/-- Where the overflow is not noticed, multiples of `2 ^ 32` are lost.  The result is right all the
    same if their number is a multiple of `65535` and what is left is not zero. -/
theorem checksum_eq_internetChecksum_iff {input : Bytes} :
    checksum input = internetChecksum input ↔
      wordSum input < 2 ^ 32 ∨ (65535 ∣ wordSum input / 2 ^ 32 ∧ wordSum input % 2 ^ 32 ≠ 0) := by
  have h1 := onesRep_le (wordSum input % 2 ^ 32)
  have h2 := onesRep_le (wordSum input)
  have hrep : checksum input = internetChecksum input ↔
      onesRep (wordSum input % 2 ^ 32) = onesRep (wordSum input) := by
    rw [BitVec.toNat_eq, toNat_checksum, toNat_internetChecksum, onesSum_eq]
    omega
  rw [hrep]
  by_cases hlt : wordSum input < 2 ^ 32
  · rw [Nat.mod_eq_of_lt hlt]
    exact iff_of_true rfl (.inl hlt)
  · have hne : wordSum input ≠ 0 := by omega
    by_cases hmod : wordSum input % 2 ^ 32 = 0
    · -- Only zero is represented by zero.
      rw [hmod, (onesRep_eq_zero_iff 0).mpr rfl, eq_comm, onesRep_eq_zero_iff]
      omega
    · rw [onesRep_inj hmod hne, ZMod.natCast_eq_natCast_iff, Nat.ModEq]
      omega

/-- The sum is computed without overflow, and the result is the Internet checksum. -/
def ChecksumRight (input : Bytes) (result : BitVec 16) : Prop :=
  runningSum input = some (checksumSum input) ∧ result = internetChecksum input

/-- **When checksum is the Internet checksum**, computed without overflow: when the sum of the words
    fits 32 bits.  For an ICMP message, when that of the message with a cleared checksum does. -/
theorem checksum_right_iff [Deku] {L : Type} (input : Bytes) (prev next : List L) (icmp : Icmp4) :
    (ChecksumRight input (checksum input) ↔ wordSum input < 2 ^ 32) ∧
    ((∃ bytes icmp', icmp.toBytes = .ok bytes ∧ Icmp4.finalize prev next icmp = .ok () icmp' ∧
        ChecksumRight (clearWord bytes 2) icmp'.checksum) ↔ wordSum icmp.cleared < 2 ^ 32) := by
  have hright : ∀ input : Bytes, ChecksumRight input (checksum input) ↔ wordSum input < 2 ^ 32 := by
    intro input
    rw [ChecksumRight, runningSum_eq_checksumSum_iff]
    exact and_iff_left_of_imp checksum_eq_internetChecksum
  refine ⟨hright input, ?_⟩
  rw [← hright]
  constructor
  · rintro ⟨bytes, icmp', hbytes, hfin, h⟩
    obtain rfl := Icmp4.finalize_eq_ok.mp hfin
    rwa [Icmp4.clearWord_toBytes hbytes] at h
  · intro h
    have hbytes := Icmp4.toBytes_eq icmp
    refine ⟨_, _, hbytes, Icmp4.finalize_eq_ok.mpr rfl, ?_⟩
    rwa [Icmp4.clearWord_toBytes hbytes]

/-- Words of ones add up to multiples of 65535. -/
theorem wordSum_replicate : ∀ n : Nat, wordSum (List.replicate (2 * n) 0xff) = 65535 * n
  | 0 => rfl
  | n + 1 => by
    have ih := wordSum_replicate n
    show 65535 + wordSum (List.replicate (2 * n) 0xff) = 65535 * (n + 1)
    omega

/-- 131 076 bytes overflow the sum, if all of them are `0xff`; and what is left of it gives 1. -/
theorem checksum_wrong_replicate :
    (¬∀ input : Bytes, runningSum input = some (checksumSum input)) ∧
      ¬∀ input : Bytes, checksum input = internetChecksum input := by
  have hsum := wordSum_replicate 65538
  constructor
  · intro h
    have hlt := runningSum_eq_checksumSum_iff.mp (h (List.replicate (2 * 65538) 0xff))
    omega
  · intro h
    have hlost := checksum_eq_internetChecksum_iff.mp (h (List.replicate (2 * 65538) 0xff))
    omega

/-! ## Validation -/

/-- Write `v` big-endian at `i` and `i + 1`. -/
def setWord (data : Bytes) (i : Nat) (v : BitVec 16) : Bytes :=
  (data.set i (BitVec.ofNat 8 (v.toNat / 2 ^ 8))).set (i + 1) (BitVec.ofNat 8 v.toNat)

/-- Writing a word replaces the word that is there, and leaves the rest. -/
theorem setWord_append {x z : Bytes} {i : Nat} (v w : BitVec 16) (hx : x.length = i) :
    setWord (x ++ be w ++ z) i v = x ++ be v ++ z := by
  subst hx
  rw [setWord, be16_eq w, be16_eq v, set_set_append]

/-- A string with room for a word at `i` is that word between two others. -/
theorem exists_word {data : Bytes} {i : Nat} (h : i + 2 ≤ data.length) :
    ∃ (x z : Bytes) (w : BitVec 16), x.length = i ∧ data = x ++ be w ++ z := by
  obtain ⟨w, hw⟩ := exists_be (w := 16) (k := 2) (by decide) ((data.drop i).take 2)
    (by rw [List.length_take, List.length_drop]; omega)
  refine ⟨data.take i, (data.drop i).drop 2, w, by rw [List.length_take]; omega, ?_⟩
  rw [hw, List.append_assoc, List.take_append_drop, List.take_append_drop]

/-- The checksum of zeros is all ones. -/
theorem checksum_eq_top_of_zero {input : Bytes} (h : wordSum input = 0) :
    checksum input = 0xffff#16 := by
  apply BitVec.eq_of_toNat_eq
  rw [toNat_checksum, h]
  decide

/-- The words of a string with its checksum in place are not all zero. -/
theorem wordSum_field_ne_zero {x z : Bytes} :
    wordSum (x ++ be (checksum (x ++ be 0#16 ++ z)) ++ z) ≠ 0 := by
  intro hzero
  have hall := (wordSum_eq_zero_iff _).mp hzero
  -- Then the string was all zero before, and its checksum is not.
  have hcleared : wordSum (x ++ be 0#16 ++ z) = 0 := by
    refine (wordSum_eq_zero_iff _).mpr fun b hb => ?_
    rcases List.mem_append.mp hb with hb | hb
    · rcases List.mem_append.mp hb with hb | hb
      · exact hall b (List.mem_append_left _ (List.mem_append_left _ hb))
      · rw [be16_eq] at hb
        simpa using hb
    · exact hall b (List.mem_append_right _ hb)
  rw [checksum_eq_top_of_zero hcleared] at hall
  have hbyte := hall 0xff (List.mem_append_left _ (List.mem_append_right _ (by decide)))
  exact absurd hbyte (by decide)

/-- **A computed checksum validates**, and only it and the other zero do. -/
theorem checksum_validates {data : Bytes} {i : Nat} (hlen : data.length ≤ 131074) (heven : 2 ∣ i)
    (hi : i + 2 ≤ data.length) :
    checksum (setWord data i (checksum (clearWord data i))) = 0 ∧
    ∀ v, checksum (setWord data i v) = 0 →
      v = checksum (clearWord data i) ∨ (v = 0x0000 ∧ checksum (clearWord data i) = 0xffff) ∨
        (v = 0xffff ∧ checksum (clearWord data i) = 0x0000) := by
  obtain ⟨x, z, w, rfl, rfl⟩ := exists_word hi
  have hsame : ∀ v : BitVec 16, (x ++ be v ++ z).length ≤ 131074 := by
    intro v
    simp only [List.length_append, length_be16] at hlen ⊢
    exact hlen
  rw [clearWord_append w rfl]
  have hc := checksum_cast (hsame 0#16)
  constructor
  · rw [setWord_append _ w rfl, checksum_eq_zero_iff (hsame _), ocs_field _ heven, hc]
    exact ⟨wordSum_field_ne_zero, add_neg_cancel _⟩
  · intro v hv
    rw [setWord_append v w rfl, checksum_eq_zero_iff (hsame v), ocs_field v heven] at hv
    have hcast : (v.toNat : ZMod 65535) = ((checksum (x ++ be 0#16 ++ z)).toNat : ZMod 65535) := by
      rw [hc]
      exact eq_neg_of_add_eq_zero_right hv.2
    have hmod := (ZMod.natCast_eq_natCast_iff' _ _ _).mp hcast
    have h1 := v.isLt
    have h2 := (checksum (x ++ be 0#16 ++ z)).isLt
    have hzero : (0x0000 : BitVec 16).toNat = 0 := rfl
    have htop : (0xffff : BitVec 16).toNat = 65535 := rfl
    rw [BitVec.toNat_eq, BitVec.toNat_eq, BitVec.toNat_eq, BitVec.toNat_eq, BitVec.toNat_eq, hzero,
      htop]
    omega

/-- A header, and a byte that is left over. -/
theorem checksum_validates_header :
    let data : Bytes := [0x45, 0x00, 0x00, 0x73, 0x00, 0x00, 0x40, 0x00, 0x40, 0x11, 0x12, 0x34,
      0xc0, 0xa8, 0x00, 0x01, 0xc0, 0xa8, 0x00, 0xc7, 0xaa]
    checksum (clearWord data 10) = 0x0e61 ∧ checksum (setWord data 10 0x0e61) = 0 := by
  intro data
  have hc : checksum (clearWord data 10) = 0x0e61 := by decide
  have hvalid := (@checksum_validates data 10 (by decide) (by decide) (by decide)).1
  rw [hc] at hvalid
  exact ⟨hc, hvalid⟩

end Nata
