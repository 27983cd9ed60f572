/-
  The UDP layer: ports, length and checksum.

  `finalize` serialises the header FIRST, with the checksum field cleared but the length field as it
  was, and sets the length afterwards; so the checksum covers the old length (`finalize_eq_ok`).
-/
import Nata.Layer.Ip.PseudoHeader

namespace Nata

/-- UDP Header -/
structure Udp where
  sport : BitVec 16
  dport : BitVec 16
  length : BitVec 16
  checksum : BitVec 16
  deriving DecidableEq, Repr

namespace Udp

instance : Inhabited Udp := ⟨{ sport := 0, dport := 0, length := 0, checksum := 0 }⟩

/-- The format of the header. -/
def codec : Field Udp :=
  (Codec.uint.andThen <| Codec.uint.andThen <| Codec.uint.andThen Codec.uint).iso
    (fun (sport, dport, length, checksum) => { sport, dport, length, checksum })
    (fun h => (h.sport, h.dport, h.length, h.checksum)) (fun _ => rfl) fun _ => rfl

/-- Read a header, and return what is behind it. -/
def parse [Deku] (input : Bytes) : Except LayerError (Bytes × Udp) := derivedParse codec input

/-- The header on the wire. -/
def toBytes [Deku] (udp : Udp) : Except LayerError Bytes := derivedToBytes codec udp

/-- The header takes 64 bits. -/
theorem sized_codec : codec.Sized 64 :=
  (Codec.sized_uint.seq fun _ => Codec.sized_uint.seq fun _ =>
    Codec.sized_uint.seq fun _ => Codec.sized_uint).iso

/-- The header on the wire: four words. -/
theorem toBytes_eq [Deku] (udp : Udp) :
    udp.toBytes = .ok (be udp.sport ++ be udp.dport ++ be udp.length ++ be udp.checksum) := by
  refine derivedToBytes_eq_ok.mpr ⟨natBits 16 udp.sport.toNat ++ (natBits 16 udp.dport.toNat ++
    (natBits 16 udp.length.toNat ++ natBits 16 udp.checksum.toNat)), ?_, ?_⟩
  · rfl
  · rw [pack_natBits_append _ _ (by decide), pack_natBits_append _ _ (by decide),
      pack_natBits_append _ _ (by decide)]
    simp only [List.append_assoc]
    rfl

/-- The header with its checksum field cleared. -/
def cleared (udp : Udp) : Bytes :=
  be udp.sport ++ be udp.dport ++ be udp.length ++ be 0#16

/-- A cleared header takes eight bytes. -/
theorem length_cleared (udp : Udp) : udp.cleared.length = 8 := by
  simp only [cleared, List.length_append, length_be16]

/-- The sum of a header: that of the other fields and the checksum. -/
theorem ocs_cleared (udp : Udp) :
    ocs udp.cleared = udp.sport.toNat + udp.dport.toNat + udp.length.toNat := by
  have h16 : ∀ v : BitVec 16, ocs (be v) = (v.toNat : ZMod 65535) := fun v => ocs_be v (by decide)
  have h4 : (256 : ZMod 65535) ^ (2 + 2) = 1 := by decide
  have h2 : (256 : ZMod 65535) ^ 2 = 1 := by decide
  have h6 : (256 : ZMod 65535) ^ (2 + 2 + 2) = 1 := by decide
  simp only [cleared, ocs_append, List.length_append, length_be16, h16, h2, h4, h6,
    BitVec.toNat_ofNat, one_mul, Nat.zero_mod, Nat.cast_zero, add_zero]

/-- The checksum counts for itself. -/
theorem ocs_toBytes [Deku] {udp : Udp} {bytes : Bytes} (h : udp.toBytes = .ok bytes) :
    ocs bytes = ocs udp.cleared + udp.checksum.toNat := by
  obtain rfl := Except.ok.inj ((toBytes_eq udp).symm.trans h)
  have hfield := ocs_field (x := be udp.sport ++ be udp.dport ++ be udp.length) (z := [])
    udp.checksum (by simp only [List.length_append, length_be16]; decide)
  rwa [List.append_nil, List.append_nil] at hfield

section Finalize

variable [Deku] {L : Type} [LayerBytes L] [GetIp L]

/-- The last part of `finalize`: the checksum, if the layer before is an IP layer. -/
def updateChecksum (prev : List L) (udpHeader udpPayload : Bytes) (udpLength : Nat) :
    Method LayerError Udp Unit := do
  if let some prevLayer := prev.getLast? then
    let pseudo ← ipPseudoHeader "Failed to convert udp_length to u16"
      "Failed to convert udp_length to u32" prevLayer udpLength
    if let some pseudo := pseudo then
      modify fun self =>
        { self with checksum := Nata.checksum (pseudo ++ udpHeader ++ udpPayload) }

/-- The checksum is taken over the header with the OLD length, and the new length is stored after
    that. -/
def finalize (prev next : List L) : Method LayerError Udp Unit := do
  let data ← toBytes (← get)
  let udpHeader := clearWord data 6
  let udpPayload ← layersToBytes next
  let udpLength ← okOr
    (.finalize "Overflow occured when calculating length for udp (v4) checksum")
    (checkedAdd udpHeader.length udpPayload.length)
  let length ← okOr (.finalize s!"Invalid Udp length {udpLength} > 65535")
    (tryFrom 16 udpLength)
  modify fun self => { self with length }
  updateChecksum prev udpHeader udpPayload udpLength

omit [LayerBytes L] in
/-- The checksum is stored behind an IP layer only, and nothing else changes. -/
theorem updateChecksum_eq_ok {prev : List L} {header payload : Bytes} {length : Nat}
    {udp udp' : Udp} :
    updateChecksum prev header payload length udp = .ok () udp' ↔
      match lastIp prev with
      | some ip => ip.Fits length ∧ udp' = { udp with
          checksum := Nata.checksum (ip.pseudoHeader ip.protocol.id length ++ header ++ payload) }
      | none => udp' = udp := by
  unfold updateChecksum lastIp
  cases prev.getLast? with
  | none => exact Method.pure_eq_ok.trans (and_iff_right rfl)
  | some prevLayer =>
    simp only [Method.bind_eq_ok, Method.lift_eq_ok, ipPseudoHeader_eq_ok, Option.bind_some]
    cases getIp prevLayer with
    | none =>
      constructor
      · rintro ⟨_, _, ⟨rfl, rfl⟩, h⟩
        exact (Method.pure_eq_ok.mp h).2
      · rintro rfl
        exact ⟨_, _, ⟨rfl, rfl⟩, rfl⟩
    | some ip =>
      constructor
      · rintro ⟨_, _, ⟨⟨hfits, rfl⟩, rfl⟩, h⟩
        exact ⟨hfits, Method.modify_eq_ok.mp h⟩
      · rintro ⟨hfits, rfl⟩
        exact ⟨_, _, ⟨⟨hfits, rfl⟩, rfl⟩, rfl⟩

/-- The checksum that `finalize` stores behind an IP layer: it covers the header as it was. -/
def newChecksum (udp : Udp) (ip : IpHeader) (payload : Bytes) : BitVec 16 :=
  Nata.checksum (ip.pseudoHeader ip.protocol.id (8 + payload.length) ++ udp.cleared ++ payload)

omit [Deku] in
/-- Clearing the checksum bytes of the header clears its checksum field. -/
theorem clearWord_header (udp : Udp) :
    clearWord (be udp.sport ++ be udp.dport ++ be udp.length ++ be udp.checksum) 6 =
      udp.cleared := by
  have h6 : (be udp.sport ++ be udp.dport ++ be udp.length).length = 6 := by
    simp only [List.length_append, length_be16]
  have h := clearWord_append (z := []) udp.checksum h6
  rwa [List.append_nil, List.append_nil] at h

/-- `finalize` succeeds when the length fits its field, and what it stores then. -/
theorem finalize_eq_ok {prev next : List L} {udp udp' : Udp} :
    finalize prev next udp = .ok () udp' ↔
      ∃ payload, layersToBytes next = .ok payload ∧ 8 + payload.length < 2 ^ 16 ∧
        udp' = { udp with
          length := BitVec.ofNat 16 (8 + payload.length)
          checksum := match lastIp prev with
            | some ip => udp.newChecksum ip payload
            | none => udp.checksum } := by
  simp only [finalize, Method.bind_eq_ok, Method.get_eq_ok, Method.lift_eq_ok,
    Method.modify_eq_ok, okOr_eq_ok, tryFrom_eq_some, checkedAdd_eq_some, toBytes_eq,
    updateChecksum_eq_ok]
  constructor
  · rintro ⟨_, _, ⟨rfl, rfl⟩, _, _, ⟨hdata, rfl⟩, payload, _, ⟨hpayload, rfl⟩, size, _,
      ⟨⟨-, rfl⟩, rfl⟩, _, _, ⟨⟨hlt, rfl⟩, rfl⟩, _, _, rfl, h⟩
    obtain rfl := Except.ok.inj hdata
    rw [clearWord_header, length_cleared] at hlt h
    refine ⟨payload, hpayload, hlt, ?_⟩
    cases hip : lastIp prev with
    | none =>
      rw [hip] at h
      exact h
    | some ip =>
      rw [hip] at h
      exact h.2
  · rintro ⟨payload, hpayload, hlt, rfl⟩
    refine ⟨_, _, ⟨rfl, rfl⟩, _, _, ⟨rfl, rfl⟩, payload, _, ⟨hpayload, rfl⟩, 8 + payload.length, _,
      ⟨⟨?_, ?_⟩, rfl⟩, _, _, ⟨⟨hlt, rfl⟩, rfl⟩, (), _, rfl, ?_⟩ <;> rw [clearWord_header]
    · rw [length_cleared]
      omega
    · rw [length_cleared]
    · cases lastIp prev with
      | none => rfl
      | some ip => exact ⟨IpHeader.fits_of_lt hlt, rfl⟩

omit [LayerBytes L] in
/-- A length that fits the length field fits the pseudo header as well. -/
theorem updateChecksum_ne_error {prev : List L} {header payload : Bytes} {length : Nat}
    {udp udp' : Udp} {e : LayerError} (h : length < 2 ^ 16) :
    updateChecksum prev header payload length udp ≠ .error e udp' := by
  intro herror
  have hok : ∃ udp'', updateChecksum prev header payload length udp = .ok () udp'' := by
    simp only [updateChecksum_eq_ok]
    cases lastIp prev with
    | none => exact ⟨udp, rfl⟩
    | some ip => exact ⟨_, IpHeader.fits_of_lt h, rfl⟩
  obtain ⟨_, hok⟩ := hok
  exact absurd (hok.symm.trans herror) (by simp)

/-- `finalize` fails before it writes anything: a layer behind cannot be serialised, or the total
    does not fit the length field. -/
theorem finalize_eq_error {prev next : List L} {udp udp' : Udp} {e : LayerError} :
    finalize prev next udp = .error e udp' ↔
      udp' = udp ∧ (layersToBytes next = .error e ∨ ∃ payload, layersToBytes next = .ok payload ∧
        2 ^ 16 ≤ 8 + payload.length ∧
        e = .finalize (if 8 + payload.length < 2 ^ 64
          then s!"Invalid Udp length {8 + payload.length} > 65535"
          else "Overflow occured when calculating length for udp (v4) checksum")) := by
  simp only [finalize, Method.bind_eq_error, Method.get_ne_error, Method.get_eq_ok,
    Method.lift_eq_error, Method.lift_eq_ok, Method.modify_ne_error, Method.modify_eq_ok, false_or,
    okOr_eq_error, okOr_eq_ok, checkedAdd_eq_none_iff, checkedAdd_eq_some, tryFrom_eq_none_iff,
    tryFrom_eq_some, toBytes_eq, reduceCtorEq, false_and]
  constructor
  · rintro ⟨_, _, ⟨rfl, rfl⟩, data, _, ⟨hdata, rfl⟩, ⟨herror, rfl⟩ | ⟨payload, _,
      ⟨hpayload, rfl⟩, ⟨⟨hle, rfl⟩, rfl⟩ | ⟨size, _, ⟨⟨hlt, rfl⟩, rfl⟩,
        ⟨⟨hle, rfl⟩, rfl⟩ | ⟨_, _, ⟨⟨hfits, rfl⟩, rfl⟩, _, _, rfl, hupdate⟩⟩⟩⟩
    · exact ⟨rfl, .inl herror⟩
    all_goals
      obtain rfl := Except.ok.inj hdata
      rw [clearWord_header, length_cleared] at *
    · exact ⟨rfl, .inr ⟨payload, hpayload, by omega, by rw [if_neg (by omega)]⟩⟩
    · exact ⟨rfl, .inr ⟨payload, hpayload, hle, by rw [if_pos hlt]⟩⟩
    · exact absurd hupdate (updateChecksum_ne_error hfits)
  · rintro ⟨rfl, herror | ⟨payload, hpayload, hle, rfl⟩⟩
    · exact ⟨_, _, ⟨rfl, rfl⟩, _, _, ⟨rfl, rfl⟩, .inl ⟨herror, rfl⟩⟩
    · refine ⟨_, _, ⟨rfl, rfl⟩, _, _, ⟨rfl, rfl⟩, .inr ⟨payload, _, ⟨hpayload, rfl⟩, ?_⟩⟩
      rw [clearWord_header, length_cleared]
      by_cases hlt : 8 + payload.length < 2 ^ 64
      · rw [if_pos hlt]
        exact .inr ⟨_, _, ⟨⟨hlt, rfl⟩, rfl⟩, .inl ⟨⟨hle, rfl⟩, rfl⟩⟩
      · rw [if_neg hlt]
        exact .inl ⟨⟨by omega, rfl⟩, rfl⟩

end Finalize

end Udp

end Nata
