/-
  `update` on the options of variable length.

  Two options announce their size in a length octet, a selective acknowledgement and an unknown Ipv4
  option, and for both the expression that `update` evaluates and the count that the reader takes
  from the octet are written separately.  They agree: `update` succeeds as long as the option fits
  the octet, and then the option is well formed, so its encoding is read back
  (`update_selfConsistent`).
-/
import Nata.Layer.Ip.Grammar
import Nata.Layer.Tcp.Grammar

namespace Nata

/-- The value is written as `size` bytes, from which it is read back whatever is behind them. -/
def Codec.ReadsBack {α : Type} (c : Field α) (a : α) (size : Nat) : Prop :=
  ∃ bytes, c.toBytes a = .ok bytes ∧ bytes.length = size ∧
    ∀ rest, c.fromBytes (bytes ++ rest) = .ok ((rest, 0), a)

/-- What is encoded is read back with anything behind it. -/
theorem Codec.Encodes.readsBack {α : Type} {c : Field α} (hal : c.Aligned 8) {a : α}
    {chunk : Bytes} (h : c.Encodes a chunk) : c.ReadsBack a chunk.length :=
  ⟨chunk, h.toBytes, rfl, h.fromBytes hal⟩

/-- Something with the length octet `n` can be built if `n` fits the octet. -/
theorem exists_octet_iff {α : Type} {f : BitVec 8 → α} {n : Nat} :
    (∃ a, ∃ b : BitVec 8, b.toNat = n ∧ a = f b) ↔ n ≤ 255 := by
  constructor
  · rintro ⟨_, b, rfl, rfl⟩
    have hlt := b.isLt
    omega
  · intro h
    refine ⟨_, BitVec.ofNat 8 n, ?_, rfl⟩
    rw [BitVec.toNat_ofNat]
    omega

/-! ## Selective acknowledgements -/

namespace TcpOption

variable {outOfRange : DekuError} {length : BitVec 8} {value : List SAckData}

/-- `update` succeeds when the size of the option fits its length octet. -/
theorem update_sack_iff {o : TcpOption} :
    update outOfRange (.SAck length value) = .ok () o ↔
      ∃ length' : BitVec 8, length'.toNat = 2 + 8 * value.length ∧ o = .SAck length' value := by
  rw [update_sack_eq_ok]
  simp only [updatedLength_eq_ok]

/-- An option whose length counts its blocks is read back. -/
theorem readsBack_sack [Deku] (h : length.toNat = 2 + 8 * value.length) :
    codec.ReadsBack (.SAck length value) (2 + 8 * value.length) := by
  have hwf : (TcpOption.SAck length value).WellFormed := by
    rintro _ _ ⟨⟩
    omega
  have hsize : (TcpOption.SAck length value).bytes.length = 2 + 8 * value.length := by
    show (SAckData.vecBytes value).length + 1 + 1 = _
    rw [SAckData.length_vecBytes]
    omega
  have hencodes : codec.Encodes (.SAck length value) _ := encodes_iff.mpr ⟨hwf, rfl⟩
  exact hsize ▸ hencodes.readsBack aligned_codec

end TcpOption

/-! ## Unknown Ipv4 options -/

namespace Ipv4OptionType

variable {outOfRange : DekuError} {type length : BitVec 8} {value : List (BitVec 8)}

/-- `update` succeeds when the size of the option fits its length octet. -/
theorem update_unknown_iff {o : Ipv4OptionType} :
    update outOfRange (.Unknown type length value) = .ok () o ↔
      ∃ length' : BitVec 8, length'.toNat = 2 + value.length ∧ o = .Unknown type length' value := by
  rw [update_unknown_eq_ok]
  simp only [updatedLength_eq_ok]

/-- An option with a length that counts its value is well formed. -/
theorem wellFormed_unknown (htwo : 2 ≤ type.toNat) (hle : type.toNat ≤ 31)
    (h : length.toNat = 2 + value.length) {copied : BitVec 8} (hcopied : copied.toNat ≤ 1)
    (class_ : Ipv4OptionClass) :
    (Ipv4Option.mk copied class_ (.Unknown type length value)).WellFormed := by
  refine ⟨Nat.lt_succ_of_le hcopied, ?_⟩
  rintro _ _ _ ⟨⟩
  exact ⟨htwo, by omega, by omega⟩

variable [Deku]

/-- With a copied bit and a class in front of it the option is whole bytes. -/
theorem readsBack_unknown (htwo : 2 ≤ type.toNat) (hle : type.toNat ≤ 31)
    (h : length.toNat = 2 + value.length) {copied : BitVec 8} (hcopied : copied.toNat ≤ 1)
    (class_ : Ipv4OptionClass) :
    Ipv4Option.codec.ReadsBack { copied, class_, option := .Unknown type length value }
      (2 + value.length) := by
  have hwf := wellFormed_unknown htwo hle h hcopied class_
  obtain ⟨chunk, hencodes⟩ := Codec.exists_encodes Ipv4Option.aligned_codec
    ((Ipv4Option.valid_iff _).mpr hwf)
  have hsize : chunk.length = 2 + value.length := by
    obtain ⟨-, b, rfl, -⟩ := Ipv4Option.encodes_iff.mp hencodes
    show value.length + 1 + 1 = _
    omega
  exact hsize ▸ hencodes.readsBack Ipv4Option.aligned_codec

/-- On its own it is these bytes less the three bits. -/
theorem read_unknown (htwo : 2 ≤ type.toNat) (hle : type.toNat ≤ 31)
    (h : length.toNat = 2 + value.length) :
    ∃ u, codec.write (.Unknown type length value) = .ok u ∧ u.length + 3 = 8 * (2 + value.length) ∧
      ∀ rest, codec.read.run (u ++ rest) = .ok (.Unknown type length value, rest) := by
  have hcopied : (0 : BitVec 8).toNat ≤ 1 := by decide
  have hwf := wellFormed_unknown htwo hle h hcopied .Control
  have hvalid : codec.Valid (.Unknown type length value) := ((Ipv4Option.valid_iff _).mpr hwf).2.2
  obtain ⟨u, hu⟩ := codec.write_ok _ hvalid
  refine ⟨u, hu, ?_, fun rest => codec.read_eq_ok.mpr ⟨hvalid, u, hu, rfl⟩⟩
  obtain ⟨v, w, hv, hw, rfl⟩ := writeAll_pair_eq_ok.mp hu
  obtain rfl := Except.ok.inj ((body_eq _).symm.trans hw)
  have hfive := Codec.length_writeBits hv
  rw [List.length_append, hfive, length_toBits]
  show 5 + 8 * (value.length + 1) + 3 = _
  omega

end Ipv4OptionType

/-- **`update` makes an option self-consistent or fails.**  It succeeds if the size of the option fits
    the length octet; then the length is that size and nothing else has changed, and the option is
    read back from its encoding with anything behind it.  An unknown Ipv4 option is read behind three
    bits, or in the octet that they are part of. -/
theorem update_selfConsistent [Deku] (outOfRange : DekuError) (length : BitVec 8) :
    (∀ value : List SAckData,
      ((∃ o, TcpOption.update outOfRange (.SAck length value) = .ok () o) ↔
        2 + 8 * value.length ≤ 255) ∧
      ∀ o, TcpOption.update outOfRange (.SAck length value) = .ok () o →
        (∃ length' : BitVec 8, o = .SAck length' value ∧ length'.toNat = 2 + 8 * value.length) ∧
        TcpOption.codec.ReadsBack o (2 + 8 * value.length)) ∧
    (∀ (type : BitVec 8) (value : List (BitVec 8)), 2 ≤ type.toNat → type.toNat ≤ 31 →
      ((∃ o, Ipv4OptionType.update outOfRange (.Unknown type length value) = .ok () o) ↔
        2 + value.length ≤ 255) ∧
      ∀ o, Ipv4OptionType.update outOfRange (.Unknown type length value) = .ok () o →
        (∃ length' : BitVec 8,
          o = .Unknown type length' value ∧ length'.toNat = 2 + value.length) ∧
        (∃ u, Ipv4OptionType.codec.write o = .ok u ∧ u.length + 3 = 8 * (2 + value.length) ∧
          ∀ rest, Ipv4OptionType.codec.read.run (u ++ rest) = .ok (o, rest)) ∧
        ∀ (copied : BitVec 8) (class_ : Ipv4OptionClass), copied.toNat ≤ 1 →
          Ipv4Option.codec.ReadsBack { copied, class_, option := o } (2 + value.length)) := by
  constructor
  · intro value
    simp only [TcpOption.update_sack_iff]
    refine ⟨exists_octet_iff, ?_⟩
    rintro _ ⟨length', hlength, rfl⟩
    exact ⟨⟨length', rfl, hlength⟩, TcpOption.readsBack_sack hlength⟩
  · intro type value htwo hle
    simp only [Ipv4OptionType.update_unknown_iff]
    refine ⟨exists_octet_iff, ?_⟩
    rintro _ ⟨length', hlength, rfl⟩
    exact ⟨⟨length', rfl, hlength⟩, Ipv4OptionType.read_unknown htwo hle hlength,
      fun _ class_ hcopied => Ipv4OptionType.readsBack_unknown htwo hle hlength hcopied class_⟩

theorem update_selfConsistent_sack :
    letI := Deku.truncating
    letI outOfRange := DekuError.parse "out of range integral type conversion attempted"
    (∃ o, TcpOption.update outOfRange (.SAck 0 [⟨1, 2⟩, ⟨3, 4⟩]) = .ok () o ∧
      TcpOption.codec.ReadsBack o 18) ∧
    (¬∃ o, TcpOption.update outOfRange (.SAck 0 (.replicate 32 ⟨1, 2⟩)) = .ok () o) ∧
    ∃ o, Ipv4OptionType.update outOfRange (.Unknown 7 0 [1, 2, 3]) = .ok () o ∧
      Ipv4Option.codec.ReadsBack { copied := 1, class_ := .Control, option := o } 5 := by
  let := Deku.truncating
  let outOfRange := DekuError.parse "out of range integral type conversion attempted"
  have hupdate := update_selfConsistent outOfRange 0
  refine ⟨?_, ?_, ?_⟩
  · obtain ⟨hiff, hback⟩ := hupdate.1 [⟨1, 2⟩, ⟨3, 4⟩]
    obtain ⟨o, ho⟩ := hiff.mpr (by decide)
    exact ⟨o, ho, (hback o ho).2⟩
  · intro h
    have hle := (hupdate.1 (.replicate 32 ⟨1, 2⟩)).1.mp h
    rw [List.length_replicate] at hle
    omega
  · obtain ⟨hiff, hback⟩ := hupdate.2 7 [1, 2, 3] (by decide) (by decide)
    obtain ⟨o, ho⟩ := hiff.mpr (by decide)
    exact ⟨o, ho, (hback o ho).2.2 1 .Control (by decide)⟩

end Nata
