/-
  Decoding undoes encoding for the headers of variable length.

  The parser of such a header finds the end of the options from a field that the header stores, so a
  header comes back from its bytes when that field is right: `Tcp.Delimited` and `Ipv4.WellFormed` ask
  for `4 * offset` and `4 * ihl` to be the serialised size.  Then the header is representable, and the
  law of its codec reads it back in front of ANY tail, even one whose bytes look like options.
-/
import Nata.Packet.RoundTrip

namespace Nata

/-- A header whose fields fit, and whose offset is its size in words (and so at least five). -/
structure Tcp.Delimited [Deku] (tcp : Tcp) : Prop where
  offset : tcp.offset.toNat < 2 ^ 4
  flags : tcp.flags.WellFormed
  options : ∀ option ∈ tcp.options, option.WellFormed
  size : tcp.toBytes.map List.length = .ok (4 * tcp.offset.toNat)

section

variable [Deku]

/-- A header of `4 * offset` bytes has the options that the offset announces. -/
theorem Tcp.Delimited.valid {tcp : Tcp} (h : tcp.Delimited) : Tcp.codec.Valid tcp := by
  obtain ⟨header, hheader, hsize⟩ := except_map_eq_ok.mp h.size
  obtain ⟨u, hu, hlen⟩ := Tcp.length_toBytes hheader
  have hoffset := h.offset
  refine ⟨trivial, trivial, trivial, trivial, h.offset, h.flags.valid, trivial, trivial, trivial,
    fun o ho => (h.options o ho).valid, 4 * (tcp.offset.toNat - 5), u,
    Tcp.optionsSize_of_le ?_ h.offset, hu, ?_⟩
  · show 5 ≤ tcp.offset.toNat
    omega
  · omega

/-- What a derived parser makes of a representable value in front of a tail. -/
theorem derivedParse_toBytes_append {α : Type} {c : Field α} (hal : c.Aligned 8) {l : α}
    (hl : c.Valid l) :
    ∃ bytes, derivedToBytes c l = .ok bytes ∧
      ∀ tail, derivedParse c (bytes ++ tail) = .ok (tail, l) := by
  obtain ⟨u, hu⟩ := c.write_ok l hl
  have hbytes : derivedToBytes c l = .ok (pack u) := derivedToBytes_eq_ok.mpr ⟨u, hu, rfl⟩
  exact ⟨pack u, hbytes, fun tail =>
    (derivedParse_eq_ok hal).mpr ⟨hl, trivial, pack u, hbytes, rfl⟩⟩

omit [Deku] in
/-- Values that are read back from their bytes have bytes of their own. -/
theorem toBytes_inj_of_parse {α : Type} {toBytes : α → Except LayerError Bytes}
    {parse : Bytes → Except LayerError (Bytes × α)} {P : α → Prop}
    (h : ∀ a, P a → ∃ bytes, toBytes a = .ok bytes ∧ ∀ tail, parse (bytes ++ tail) = .ok (tail, a))
    {a b : α} (ha : P a) (hb : P b) (hab : toBytes a = toBytes b) : a = b := by
  obtain ⟨bytes, hbytes, hparse⟩ := h a ha
  obtain ⟨bytes', hbytes', hparse'⟩ := h b hb
  obtain rfl := Except.ok.inj (hbytes.symm.trans (hab.trans hbytes'))
  exact (Prod.mk.inj (Except.ok.inj ((hparse []).symm.trans (hparse' [])))).2

/-- **Decoding undoes encoding, whatever follows**; so no two such headers share an encoding. -/
theorem decode_encode :
    (∀ tcp : Tcp, tcp.Delimited →
      ∃ bytes, tcp.toBytes = .ok bytes ∧ ∀ tail, Tcp.parse (bytes ++ tail) = .ok (tail, tcp)) ∧
    (∀ ipv4 : Ipv4, ipv4.WellFormed →
      ∃ bytes, ipv4.toBytes = .ok bytes ∧ ∀ tail, Ipv4.parse (bytes ++ tail) = .ok (tail, ipv4)) ∧
    (∀ tcp tcp' : Tcp, tcp.Delimited → tcp'.Delimited → tcp.toBytes = tcp'.toBytes → tcp = tcp') ∧
    (∀ ipv4 ipv4' : Ipv4, ipv4.WellFormed → ipv4'.WellFormed →
      ipv4.toBytes = ipv4'.toBytes → ipv4 = ipv4') := by
  have htcp : ∀ tcp : Tcp, tcp.Delimited →
      ∃ bytes, tcp.toBytes = .ok bytes ∧ ∀ tail, Tcp.parse (bytes ++ tail) = .ok (tail, tcp) :=
    fun tcp h => derivedParse_toBytes_append Tcp.aligned_codec h.valid
  have hipv4 : ∀ ipv4 : Ipv4, ipv4.WellFormed →
      ∃ bytes, ipv4.toBytes = .ok bytes ∧ ∀ tail, Ipv4.parse (bytes ++ tail) = .ok (tail, ipv4) :=
    fun ipv4 h => derivedParse_toBytes_append Ipv4.aligned_codec h.valid
  exact ⟨htcp, hipv4, fun _ _ h h' => toBytes_inj_of_parse htcp h h',
    fun _ _ h h' => toBytes_inj_of_parse hipv4 h h'⟩

end

/-- A header of seven words: the options end in the middle of a word, and `EOL` fills it up. -/
def paddedTcp : Tcp :=
  { (default : Tcp) with offset := 7, options := [.MSS 4 1460, .WScale 3 7, .EOL] }

/-- The tail looks like the options of the header in front of it. -/
theorem decode_encode_paddedTcp :
    letI := Deku.truncating
    ∃ bytes, paddedTcp.toBytes = .ok bytes ∧
      Tcp.parse (bytes ++ [0x02, 0x04, 0x05, 0xb4]) =
        .ok ([0x02, 0x04, 0x05, 0xb4], paddedTcp) := by
  let := Deku.truncating
  have hdelimited : paddedTcp.Delimited :=
    { offset := by decide
      flags := ⟨by decide, by decide, by decide, by decide, by decide, by decide, by decide,
        by decide, by decide, by decide⟩
      options := List.forall_mem_cons.mpr ⟨nofun, List.forall_mem_cons.mpr ⟨nofun,
        List.forall_mem_cons.mpr ⟨nofun, nofun⟩⟩⟩
      size := by decide +kernel }
  obtain ⟨bytes, hbytes, hparse⟩ := decode_encode.1 paddedTcp hdelimited
  exact ⟨bytes, hbytes, hparse _⟩

end Nata
