/-
  What a failed `finalize` leaves behind.

  `finalize` writes to the layer and may fail.  Ether, Raw and Icmp4 do not fail; Ipv4, Ipv6 and Udp
  do everything that can fail first.  Tcp does not: it pads its options, then computes the checksum,
  for which the layers behind have to be serialised and the segment has to fit the pseudo header,
  then writes it, and then finds out whether the offset fits its byte.  So an error leaves a Tcp
  layer alone exactly when the writes before it write nothing new (`Tcp.KeptOnError`).
-/
import Nata.Layer.Owned
import Nata.Packet.RoundTrip

namespace Nata

namespace Tcp

section

variable {L : Type} [LayerBytes L] [GetIp L]

/-- The checksum step of `finalize` succeeds for a header of `length` bytes. -/
def SegmentFits (prev next : List L) (length : Nat) : Prop :=
  match prev.getLast? with
  | none => True
  | some prevLayer => ∃ payload, layersToBytes next = .ok payload ∧
      length + payload.length < 2 ^ 64 ∧
      ∀ ip, getIp prevLayer = some ip → ip.Fits (length + payload.length)

/-- There is a checksum to store when the segment fits the length fields around it. -/
theorem exists_newChecksum_iff {tcp : Tcp} {prev next : List L} {header : Bytes} :
    (∃ checksum, tcp.NewChecksum prev next header checksum) ↔
      SegmentFits prev next header.length := by
  unfold NewChecksum SegmentFits
  cases prev.getLast? with
  | none => exact iff_of_true ⟨_, rfl⟩ trivial
  | some prevLayer =>
    constructor
    · rintro ⟨_, payload, hpayload, hlt, h⟩
      refine ⟨payload, hpayload, hlt, fun ip hip => ?_⟩
      rw [hip] at h
      exact h.1
    · rintro ⟨payload, hpayload, hlt, hfits⟩
      cases hip : getIp prevLayer with
      | none => exact ⟨tcp.checksum, payload, hpayload, hlt, by simp only [hip]⟩
      | some ip => exact ⟨_, payload, hpayload, hlt, by
          simp only [hip]
          exact ⟨hfits ip hip, rfl⟩⟩

variable [Deku]

/-- The checksum step fails exactly when it does not succeed. -/
theorem exists_checksumError_iff {prev next : List L} {header : Bytes} :
    (∃ e, ChecksumError prev next header e) ↔ ¬SegmentFits prev next header.length := by
  -- The step returns either a checksum or an error, whatever the layer.
  have hstep := @updateChecksum_eq_error _ L _ _ prev next header default
  have hok := @updateChecksum_eq_ok _ L _ _ prev next header default
  have hnew : (∃ checksum, (default : Tcp).NewChecksum prev next header checksum) ↔ _ :=
    exists_newChecksum_iff
  rw [← hnew]
  cases hr : updateChecksum prev next header default with
  | ok u tcp' =>
    obtain ⟨checksum, hchecksum, -⟩ := hok.mp hr
    refine iff_of_false ?_ (fun h => h ⟨checksum, hchecksum⟩)
    rintro ⟨e, he⟩
    exact absurd (hr.symm.trans (hstep.mpr ⟨rfl, he⟩)) (by simp)
  | error e tcp' =>
    obtain ⟨rfl, he⟩ := hstep.mp hr
    refine iff_of_true ⟨e, he⟩ ?_
    rintro ⟨checksum, hchecksum⟩
    exact absurd (hr.symm.trans (@hok _ () |>.mpr ⟨checksum, hchecksum, rfl⟩)) (by simp)

/-- An error of `finalize` finds nothing to undo.  Either nothing fails once the header has been
    serialised; or there is nothing to pad, and if it is only the offset that fails, the checksum of
    the segment is in place already. -/
def KeptOnError (prev next : List L) (tcp : Tcp) : Prop :=
  ∀ header, tcp.toBytes = .ok header →
    (SegmentFits prev next (cleared header).length ∧ (cleared header).length / 4 < 2 ^ 8) ∨
    (4 ∣ header.length ∧ (SegmentFits prev next (cleared header).length →
      ∀ ip payload, lastIp prev = some ip → layersToBytes next = .ok payload →
        tcp.checksum = Nata.checksum
          (ip.pseudoHeader ip.protocol.id ((cleared header).length + payload.length) ++
            cleared header ++ payload)))

omit [Deku] in
/-- The checksum step stores what is there already. -/
theorem newChecksum_self_iff {tcp : Tcp} {prev next : List L} {header : Bytes}
    (hfits : SegmentFits prev next header.length) :
    tcp.NewChecksum prev next header tcp.checksum ↔
      ∀ ip payload, lastIp prev = some ip → layersToBytes next = .ok payload →
        tcp.checksum = Nata.checksum
          (ip.pseudoHeader ip.protocol.id (header.length + payload.length) ++ header ++ payload) := by
  cases hlast : prev.getLast? with
  | none =>
    rw [NewChecksum, lastIp, hlast]
    refine iff_of_true rfl fun _ _ h => ?_
    cases h
  | some prevLayer =>
    rw [SegmentFits, hlast] at hfits
    obtain ⟨payload, hpayload, hlt, hfits⟩ := hfits
    rw [newChecksum_iff hpayload hlt]
    cases hip : lastIp prev with
    | none =>
      refine iff_of_true rfl fun _ _ h => ?_
      cases h
    | some ip =>
      rw [lastIp, hlast, Option.bind_some] at hip
      constructor
      · rintro ⟨-, h⟩ _ _ ⟨⟩ hpayload'
        obtain rfl := Except.ok.inj (hpayload.symm.trans hpayload')
        exact h
      · intro h
        exact ⟨hfits ip hip, h ip payload rfl hpayload⟩

omit [Deku] in
/-- The checksum that `finalize` stores is determined by the layers and the header. -/
theorem NewChecksum.unique {tcp : Tcp} {prev next : List L} {header : Bytes}
    {c c' : BitVec 16} (h : tcp.NewChecksum prev next header c)
    (h' : tcp.NewChecksum prev next header c') : c = c' := by
  unfold NewChecksum at h h'
  cases hlast : prev.getLast? with
  | none =>
    rw [hlast] at h h'
    exact h.trans h'.symm
  | some prevLayer =>
    rw [hlast] at h h'
    obtain ⟨payload, hpayload, -, h⟩ := h
    obtain ⟨payload', hpayload', -, h'⟩ := h'
    obtain rfl := Except.ok.inj (hpayload.symm.trans hpayload')
    cases hip : getIp prevLayer with
    | none =>
      rw [hip] at h h'
      exact h.trans h'.symm
    | some ip =>
      rw [hip] at h h'
      exact h.2.trans h'.2.symm

omit [LayerBytes L] [GetIp L] [Deku] in
/-- Padding that is not there pads nothing. -/
theorem pad_eq_self_iff {options : List TcpOption} {n : Nat} :
    options ++ List.replicate (padAmt n) TcpOption.EOL = options ↔ 4 ∣ n := by
  rw [List.append_right_eq_self, List.replicate_eq_nil_iff, padAmt]
  omega

/-- **When an error of `finalize` leaves a Tcp layer as it was.** -/
theorem finalize_keptOnError {prev next : List L} {tcp : Tcp} :
    (∀ e tcp', finalize prev next tcp = .error e tcp' → tcp' = tcp) ↔
      KeptOnError prev next tcp := by
  constructor
  · intro h header hheader
    by_cases hfits : SegmentFits prev next (cleared header).length
    · by_cases hlt : (cleared header).length / 4 < 2 ^ 8
      · exact .inl ⟨hfits, hlt⟩
      · obtain ⟨checksum, hchecksum⟩ : ∃ checksum,
            tcp.NewChecksum prev next (cleared header) checksum := exists_newChecksum_iff.mpr hfits
        have hsame := h _ _ (finalize_eq_error.mpr (.inr ⟨header, hheader,
          .inr ⟨checksum, hchecksum, by omega, rfl, rfl⟩⟩))
        have hc : checksum = tcp.checksum := congrArg Tcp.checksum hsame
        exact .inr ⟨pad_eq_self_iff.mp (congrArg Tcp.options hsame), fun hf =>
          (newChecksum_self_iff hf).mp (hc ▸ hchecksum)⟩
    · obtain ⟨e, he⟩ := exists_checksumError_iff.mpr hfits
      have hsame := h _ _ (finalize_eq_error.mpr (.inr ⟨header, hheader, .inl ⟨he, rfl⟩⟩))
      exact .inr ⟨pad_eq_self_iff.mp (congrArg Tcp.options hsame), fun hf => absurd hf hfits⟩
  · intro h e tcp' herror
    rcases finalize_eq_error.mp herror with ⟨-, rfl⟩ | ⟨header, hheader, ⟨he, rfl⟩ |
      ⟨checksum, hchecksum, hle, -, rfl⟩⟩
    · rfl
    · have hfits := exists_checksumError_iff.mp ⟨e, he⟩
      rcases h header hheader with ⟨hf, -⟩ | ⟨hdvd, -⟩
      · exact absurd hf hfits
      · rw [pad_eq_self_iff.mpr hdvd]
    · have hfits := exists_newChecksum_iff.mp ⟨checksum, hchecksum⟩
      rcases h header hheader with ⟨-, hlt⟩ | ⟨hdvd, hsame⟩
      · omega
      · rw [pad_eq_self_iff.mpr hdvd, hchecksum.unique ((newChecksum_self_iff hfits).mpr (hsame hfits))]

end

end Tcp

section

variable [Deku] {L : Type} [LayerBytes L] [GetIp L]

/-- An error leaves the layer alone: always, but for Tcp. -/
def Layer.KeptOnError (prev next : List L) : Layer → Prop
  | .tcp t => t.KeptOnError prev next
  | _ => True

/-- A Tcp layer in its box. -/
theorem Layer.finalize_tcp_kept_iff {prev next : List L} {t : Tcp} :
    (∀ e layer', (tcp t).finalizeAmong prev next = .error e layer' → layer' = tcp t) ↔
      t.KeptOnError prev next := by
  have hbox : (tcp t).finalizeAmong prev next = Method.zoom tcp (t.finalize prev next) := rfl
  rw [hbox, ← Tcp.finalize_keptOnError]
  simp only [Method.zoom_eq_error]
  constructor
  · intro h e t' hr
    exact tcp.inj (h e _ ⟨t', hr, rfl⟩)
  · rintro h e _ ⟨t', hr, rfl⟩
    rw [h e t' hr]

/-- **When a failed finalize changes nothing**, among layers of any kind. -/
theorem Layer.finalize_kept_iff (prev next : List L) (layer : Layer) :
    (∀ e layer', layer.finalizeAmong prev next = .error e layer' → layer' = layer) ↔
      layer.KeptOnError prev next := by
  have hzoom : ∀ {α : Type} (box : α → Layer) {r : EStateM.Result LayerError α Unit} {a : α},
      (∀ e a', r = .error e a' → a' = a) →
      ∀ e layer', Method.zoom box r = .error e layer' → layer' = box a := by
    intro α box r a h e layer' herror
    obtain ⟨a', hr, rfl⟩ := Method.zoom_eq_error.mp herror
    rw [h e a' hr]
  cases layer with
  | ether e =>
    exact iff_of_true (hzoom ether fun _ _ h => absurd h Method.pure_ne_error) trivial
  | raw r =>
    exact iff_of_true (hzoom raw fun _ _ h => absurd h Method.pure_ne_error) trivial
  | icmp4 i =>
    exact iff_of_true (hzoom icmp4 fun _ _ h => absurd h Icmp4.finalize_ne_error) trivial
  | ipv4 v =>
    exact iff_of_true (hzoom ipv4 fun _ _ h => (Ipv4.finalize_eq_error.mp h).1) trivial
  | ipv6 v =>
    exact iff_of_true (hzoom ipv6 fun _ _ h => (Ipv6.finalize_eq_error.mp h).1) trivial
  | udp u =>
    exact iff_of_true (hzoom udp fun _ _ h => (Udp.finalize_eq_error.mp h).1) trivial
  | tcp t => exact finalize_tcp_kept_iff

end

/-- More than the length field of a pseudo header can announce. -/
def oversized : Raw := ⟨List.replicate (2 ^ 16) 0, 0⟩

/-- One byte more than a length of 16 bits can count. -/
theorem length_oversized : oversized.data.length = 2 ^ 16 := List.length_replicate

/-- An error in the checksum step: the options stay padded. -/
theorem finalize_kept_unalignedTcp :
    letI := Deku.truncating
    ¬∀ e layer', (Layer.tcp unalignedTcp).finalizeAmong [Layer.ipv4 default] [.raw oversized] =
      .error e layer' → layer' = .tcp unalignedTcp := by
  let := Deku.truncating
  intro h
  have hkept := Layer.finalize_tcp_kept_iff.mp h
  have hheader : unalignedTcp.toBytes = .ok [0, 80, 0, 0, 0, 0, 0, 0, 0, 0, 0, 0, 0x50, 0, 0, 0, 0,
      0, 0, 0, 2, 4, 0x05, 0xb4, 3, 3, 7] := by decide +kernel
  rcases hkept _ hheader with ⟨⟨payload, hpayload, -, hfits⟩, -⟩ | ⟨hdvd, -⟩
  · have hraw : payload = oversized.data :=
      Except.ok.inj (hpayload.symm.trans (Layer.layersToBytes_raw oversized))
    have hlt : _ + payload.length < 2 ^ 16 := hfits (.v4 default) rfl
    rw [hraw, length_oversized] at hlt
    omega
  · exact absurd hdvd (by decide)

end Nata
