/-
  TCP options: an enum with data, told apart by its first byte.

  The length byte of an option is stored but only `SAck` acts on it, when it is read: its blocks are
  `(length - 2) / 8`, so an odd length is accepted as well.
-/
import Nata.Layer.Basic

namespace Nata

/-- A block of selective acknowledgment: the first number, and the one behind the last. -/
structure SAckData where
  begin_ : BitVec 32
  end_ : BitVec 32
  deriving DecidableEq, Repr

/-- The two clocks of a timestamp. -/
structure TimestampData where
  start : BitVec 32
  end_ : BitVec 32
  deriving DecidableEq, Repr

/-- Tcp options; those with a length keep it as it was read. -/
inductive TcpOption
  | EOL
  | NOP
  | MSS (length : BitVec 8) (value : BitVec 16)
  | WScale (length : BitVec 8) (value : BitVec 8)
  | SAckOK (length : BitVec 8)
  | SAck (length : BitVec 8) (value : List SAckData)
  | Timestamp (length : BitVec 8) (value : TimestampData)
  deriving DecidableEq, Repr

/-- The format of a block. -/
def SAckData.codec : Field SAckData :=
  (Codec.uint.andThen Codec.uint).iso (fun (begin_, end_) => { begin_, end_ })
    (fun d => (d.begin_, d.end_)) (fun _ => rfl) fun _ => rfl

/-- The format of the two clocks. -/
def TimestampData.codec : Field TimestampData :=
  (Codec.uint.andThen Codec.uint).iso (fun (start, end_) => { start, end_ })
    (fun d => (d.start, d.end_)) (fun _ => rfl) fun _ => rfl

/-- A block takes 64 bits. -/
theorem SAckData.sized_codec : SAckData.codec.Sized 64 :=
  (Codec.sized_uint.seq fun _ => Codec.sized_uint).iso

theorem TimestampData.sized_codec : TimestampData.codec.Sized 64 :=
  (Codec.sized_uint.seq fun _ => Codec.sized_uint).iso

namespace TcpOption

/-- The kind of an option. -/
def id : TcpOption → BitVec 8
  | EOL => 0x00
  | NOP => 0x01
  | MSS .. => 0x02
  | WScale .. => 0x03
  | SAckOK .. => 0x04
  | SAck .. => 0x05
  | Timestamp .. => 0x08

/-- `length.checked_sub(2).and_then(|v| v.checked_div(8))` -/
def sackCount (length : BitVec 8) : Except DekuError Nat :=
  match checkedSub length.toNat 2 with
  | some v => .ok (v / 8)
  | none => .error (.parse "overflow when parsing SAckData vec")

/-! The fields of the variants that have some. -/

/-- Behind the kind of `MSS`: a length, which is not checked, and a size. -/
def mss : Field (BitVec 8 × BitVec 16) := Codec.uint.andThen Codec.uint

/-- Behind the kind of `WScale`: a length, which is not checked, and a shift. -/
def wscale : Field (BitVec 8 × BitVec 8) := Codec.uint.andThen Codec.uint

/-- Behind the kind of `SAck`: a length, and as many blocks as it has room for. -/
def sack : Field (BitVec 8 × List SAckData) :=
  Codec.uint.seq fun length => SAckData.codec.count (sackCount length)

/-- Behind the kind of `Timestamp`: a length, which is not checked, and the clocks. -/
def timestamp : Field (BitVec 8 × TimestampData) := Codec.uint.andThen TimestampData.codec

/-- What is read behind a kind; a kind without a variant is refused. -/
def variant [Deku] (i : BitVec 8) : Field TcpOption :=
  match i with
  | 0x00 => .const EOL
  | 0x01 => .const NOP
  | 0x02 => mss.map (fun p => MSS p.1 p.2)
      (fun
        | MSS length value => (length, value)
        | _ => (0, 0))
      fun _ => rfl
  | 0x03 => wscale.map (fun p => WScale p.1 p.2)
      (fun
        | WScale length value => (length, value)
        | _ => (0, 0))
      fun _ => rfl
  | 0x04 => (Codec.uint : Field (BitVec 8)).map SAckOK
      (fun
        | SAckOK length => length
        | _ => 0)
      fun _ => rfl
  | 0x05 => sack.map (fun p => SAck p.1 p.2)
      (fun
        | SAck length value => (length, value)
        | _ => (0, []))
      fun _ => rfl
  | 0x08 => timestamp.map (fun p => Timestamp p.1 p.2)
      (fun
        | Timestamp length value => (length, value)
        | _ => (0, ⟨0, 0⟩))
      fun _ => rfl
  | _ => .reject (Deku.noVariant "TcpOption" i.toNat)

/-- The fields behind the identifier. -/
def body : TcpOption → Except DekuError Bits
  | EOL | NOP => .ok []
  | MSS length value => mss.write (length, value)
  | WScale length value => wscale.write (length, value)
  | SAckOK length => Codec.uint.write length
  | SAck length value => sack.write (length, value)
  | Timestamp length value => timestamp.write (length, value)

/-- An option that is read under a kind is of this kind, and is written as it is read. -/
theorem variant_spec [Deku] (i : BitVec 8) (o : TcpOption) (h : (variant i).Valid o) :
    o.id = i ∧ (variant i).write o = body o := by
  unfold variant at h ⊢
  -- One case for each arm of the match; in an arm with fields only its own variant is valid.
  split at h
  · obtain rfl : o = EOL := h
    exact ⟨rfl, rfl⟩
  · obtain rfl : o = NOP := h
    exact ⟨rfl, rfl⟩
  · obtain ⟨-, ho⟩ := h
    cases o <;> cases ho
    exact ⟨rfl, rfl⟩
  · obtain ⟨-, ho⟩ := h
    cases o <;> cases ho
    exact ⟨rfl, rfl⟩
  · obtain ⟨-, ho⟩ := h
    cases o <;> cases ho
    exact ⟨rfl, rfl⟩
  · obtain ⟨-, ho⟩ := h
    cases o <;> cases ho
    exact ⟨rfl, rfl⟩
  · obtain ⟨-, ho⟩ := h
    cases o <;> cases ho
    exact ⟨rfl, rfl⟩
  · exact h.elim

/-- The format of an option: its kind, and what the kind asks for. -/
def codec [Deku] : Field TcpOption := .enum .uint variant id body variant_spec

/-- Selective acknowledgements announce their blocks. -/
def WellFormed (option : TcpOption) : Prop :=
  ∀ length value, option = .SAck length value →
    2 ≤ length.toNat ∧ (length.toNat - 2) / 8 = value.length

/-- The length that `update` gives to a selective acknowledgement.  `outOfRange` is the error of a
    conversion to `u8` that fails. -/
def updatedLength (outOfRange : DekuError) (value : List SAckData) : Except DekuError (BitVec 8) :=
  match (checkedMul 64 value.length 8).bind fun v => checkedAdd v 2 with
  | some length =>
    match tryFrom 8 length with
    | some length => .ok length
    | none => .error outOfRange
  | none => .error (.parse "overflow when parsing SAckData length")

/-- The only field that `update` sets is the length of `SAck`. -/
def update (outOfRange : DekuError) : Method DekuError TcpOption Unit := do
  match ← get with
  | SAck _ value =>
    let length ← updatedLength outOfRange value
    modify fun _ => SAck length value
  | _ => return ()

/-- The new length is the size of the option, if an octet holds it. -/
theorem updatedLength_eq_ok {outOfRange : DekuError} {value : List SAckData} {length : BitVec 8} :
    updatedLength outOfRange value = .ok length ↔ length.toNat = 2 + 8 * value.length := by
  have hlt := length.isLt
  unfold updatedLength checkedMul checkedAdd tryFrom
  by_cases h : value.length * 8 + 2 < 2 ^ 8
  · rw [if_pos (by omega), Option.bind_some, if_pos (by omega)]
    simp only [if_pos h, Except.ok.injEq, BitVec.toNat_eq, BitVec.toNat_ofNat]
    omega
  · -- Each of the three errors means that there are too many blocks.
    refine iff_of_false ?_ (by omega)
    by_cases hmul : value.length * 8 < 2 ^ 64
    · rw [if_pos hmul, Option.bind_some]
      by_cases hadd : value.length * 8 + 2 < 2 ^ 64
      · simp only [if_pos hadd, if_neg h, reduceCtorEq, not_false_iff]
      · simp only [if_neg hadd, reduceCtorEq, not_false_iff]
    · simp only [if_neg hmul, Option.bind_none, reduceCtorEq, not_false_iff]

/-- `update` replaces the length and nothing else. -/
theorem update_sack_eq_ok {outOfRange : DekuError} {length : BitVec 8} {value : List SAckData}
    {o : TcpOption} :
    update outOfRange (SAck length value) = .ok () o ↔
      ∃ length', updatedLength outOfRange value = .ok length' ∧ o = SAck length' value := by
  show (liftM (updatedLength outOfRange value) >>= fun length => modify fun _ =>
    SAck length value : Method _ _ _) (SAck length value) = _ ↔ _
  exact Method.assign_eq_ok

/-- `update` leaves the options as they are whose length counts the blocks. -/
theorem update_sack_eq_self {outOfRange : DekuError} {length : BitVec 8} {value : List SAckData} :
    update outOfRange (SAck length value) = .ok () (SAck length value) ↔
      length.toNat = 2 + 8 * value.length := by
  rw [update_sack_eq_ok]
  constructor
  · rintro ⟨length', h, heq⟩
    cases heq
    exact updatedLength_eq_ok.mp h
  · intro h
    exact ⟨length, updatedLength_eq_ok.mpr h, rfl⟩

/-- Behind its kind an option is whole bytes. -/
theorem length_body {o : TcpOption} {u : Bits} (h : body o = .ok u) : 8 ∣ u.length := by
  have h8 : (Codec.uint : Field (BitVec 8)).Aligned 8 := Codec.sized_uint.aligned (by decide)
  have h16 : (Codec.uint : Field (BitVec 16)).Aligned 8 := Codec.sized_uint.aligned (by decide)
  have h64 : SAckData.codec.Aligned 8 := SAckData.sized_codec.aligned (by decide)
  cases o with
  | EOL | NOP =>
    cases h
    exact Nat.dvd_zero 8
  | MSS length value => exact h8.seq (fun _ => h16) _ _ h
  | WScale length value => exact h8.seq (fun _ => h8) _ _ h
  | SAckOK length => exact h8 _ _ h
  | SAck length value =>
    exact h8.seq (fun _ _ _ hu => Codec.aligned_writeVec h64 hu) _ _ h
  | Timestamp length value =>
    exact h8.seq (fun _ => TimestampData.sized_codec.aligned (by decide)) _ _ h

/-- An option is whole bytes. -/
theorem aligned_codec [Deku] : codec.Aligned 8 :=
  Codec.Aligned.enum (Codec.sized_uint.aligned (by decide)) fun _ _ => length_body

/-- An option takes one byte at least. -/
theorem nonempty_codec [Deku] : codec.Nonempty := by
  intro o u _ hu
  obtain ⟨v, w, hv, -, rfl⟩ := writeAll_pair_eq_ok.mp hu
  have h8 := Codec.sized_uint _ _ hv
  rw [List.length_append]
  omega

/-- Options are written whatever their length byte says. -/
theorem write_ok [Deku] (o : TcpOption) : ∃ u, codec.write o = .ok u := by
  have hbody : ∃ w, body o = .ok w := by
    cases o with
    | EOL | NOP => exact ⟨[], rfl⟩
    | MSS length value => exact ⟨_, rfl⟩
    | WScale length value => exact ⟨_, rfl⟩
    | SAckOK length => exact ⟨_, rfl⟩
    | SAck length value =>
      have hvec : ∃ w, SAckData.codec.writeVec value = .ok w :=
        SAckData.codec.writeVec_ok fun _ _ => ⟨trivial, trivial⟩
      obtain ⟨w, hw⟩ := hvec
      exact ⟨_, Codec.write_seq_eq_ok.mpr ⟨_, w, rfl, hw, rfl⟩⟩
    | Timestamp length value => exact ⟨_, rfl⟩
  obtain ⟨w, hw⟩ := hbody
  exact ⟨_, writeAll_pair_eq_ok.mpr ⟨_, w, rfl, hw, rfl⟩⟩

/-- An `EOL` is a zero byte, and a padding of them as many. -/
theorem writeVec_replicate_EOL [Deku] : ∀ k : Nat,
    codec.writeVec (List.replicate k EOL) = .ok (toBits (List.replicate k 0#8))
  | 0 => rfl
  | k + 1 => Codec.writeVec_cons_eq_ok.mpr
      ⟨byteBits 0#8, _, rfl, writeVec_replicate_EOL k, rfl⟩

end TcpOption

end Nata
