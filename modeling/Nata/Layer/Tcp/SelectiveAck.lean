/-
  The length octet of a selective acknowledgement.

  The blocks that are read are `(length - 2) / 8`, and the division truncates: a length octet of 3
  to 9 announces one to seven bytes of data, and none are read.  The next option is then read from
  the middle of this one.  What the parser returns serialises to the same bytes all the same, so
  nothing downstream notices.

  `SAckHonest` says of a parsed header that each of its selective acknowledgements occupies the bytes
  that its length octet claims; it does when all these octets are two more than a multiple of eight
  (`sackHonest_iff`).
-/
import Nata.Layer.Tcp.Grammar

namespace Nata

namespace Tcp

variable [Deku]

/-- Each selective acknowledgement has a length that counts its blocks; the options behind it are
    read from the position that the length octet designates, and `update` leaves it as it is. -/
def SAckHonest (input : Bytes) (tcp : Tcp) : Prop :=
  ∀ before length value after, tcp.options = before ++ .SAck length value :: after →
    length.toNat = 2 + 8 * value.length ∧
    (optionArea input).drop ((before.flatMap TcpOption.bytes).length + length.toNat) =
      after.flatMap TcpOption.bytes ∧
    ∀ outOfRange, TcpOption.update outOfRange (.SAck length value) = .ok () (.SAck length value)

/-- **When the selective acknowledgements of a header occupy what they claim**: when their length
    octets are two more than a multiple of eight. -/
theorem sackHonest_iff {input rest : Bytes} {tcp : Tcp} (h : parse input = .ok (rest, tcp)) :
    SAckHonest input tcp ↔
      ∀ chunks : List Bytes, (∀ chunk ∈ chunks, TcpOption.Shape chunk) →
        chunks.flatten = optionArea input → ∀ n v, (0x05 :: n :: v) ∈ chunks → n.toNat % 8 = 2 := by
  obtain ⟨hwf, harea⟩ := area_of_parse h
  constructor
  · intro hhonest chunks hshape hflat n v hmem
    obtain rfl := (splits_iff_of_parse h).mp ⟨hshape, hflat⟩
    obtain ⟨o, ho, hbytes⟩ := List.mem_map.mp hmem
    -- Only a selective acknowledgement begins with its kind.
    cases o with
    | SAck length value =>
      obtain ⟨rfl, -⟩ := List.cons.inj (List.cons.inj hbytes).2
      obtain ⟨before, after, hsplit⟩ := List.append_of_mem ho
      have hlength := (hhonest before length value after hsplit).1
      omega
    | EOL | NOP | MSS _ _ | WScale _ _ | SAckOK _ | Timestamp _ _ =>
      exact absurd (List.cons.inj hbytes).1 (by decide)
  · intro hmod before length value after hsplit
    have hmem : TcpOption.SAck length value ∈ tcp.options := by
      rw [hsplit]
      exact List.mem_append_right before List.mem_cons_self
    obtain ⟨htwo, hcount⟩ := hwf _ hmem length value rfl
    have hshape := (splits_iff_of_parse h).mpr rfl
    have hoctet := hmod _ hshape.1 hshape.2 length (SAckData.vecBytes value)
      (List.mem_map.mpr ⟨_, hmem, rfl⟩)
    have hlength : length.toNat = 2 + 8 * value.length := by omega
    refine ⟨hlength, ?_, fun outOfRange => TcpOption.update_sack_eq_self.mpr hlength⟩
    have hsize : (TcpOption.bytes (.SAck length value)).length = length.toNat := by
      show (SAckData.vecBytes value).length + 1 + 1 = length.toNat
      rw [SAckData.length_vecBytes, hlength]
      omega
    rw [← harea, hsplit, List.flatMap_append, List.flatMap_cons, ← hsize, ← List.append_assoc,
      ← List.length_append, List.drop_left]

end Tcp

/-- A header whose options are one block and two `NOP`. -/
def sackHeader : Bytes :=
  List.replicate 12 0x00 ++ 0x80 :: List.replicate 7 0x00 ++
    [0x05, 0x0a, 0x00, 0x00, 0x00, 0x01, 0x00, 0x00, 0x00, 0x02, 0x01, 0x01]

theorem sackHonest_sackHeader :
    letI := Deku.truncating
    ∃ tcp, Tcp.parse sackHeader = .ok ([], tcp) ∧ Tcp.SAckHonest sackHeader tcp := by
  let := Deku.truncating
  have hoptions : (Tcp.parse sackHeader).map (fun (rest, tcp) => (rest, tcp.options)) =
      .ok ([], [.SAck 10 [⟨1, 2⟩], .NOP, .NOP]) := by decide +kernel
  obtain ⟨⟨rest, tcp⟩, h, hp⟩ := except_map_eq_ok.mp hoptions
  obtain ⟨rfl, hlist⟩ := Prod.mk.inj hp
  refine ⟨tcp, h, (Tcp.sackHonest_iff h).mpr fun chunks hshape hflat n v hmem => ?_⟩
  obtain rfl := (Tcp.splits_iff_of_parse h).mp ⟨hshape, hflat⟩
  have hlist : tcp.options = [.SAck 10 [⟨1, 2⟩], .NOP, .NOP] := hlist
  rw [hlist] at hmem
  -- The other two options are of one byte.
  rcases List.mem_cons.mp hmem with hsack | hmem
  · rw [(List.cons.inj (List.cons.inj hsack).2).1]
    decide
  · rcases List.mem_cons.mp hmem with hnop | hmem
    · cases hnop
    · cases List.mem_singleton.mp hmem

/-- A selective acknowledgement of three bytes by its length octet, of which two are read. -/
def truncatedSack : Bytes :=
  List.replicate 12 0x00 ++ 0x60 :: List.replicate 7 0x00 ++ [0x05, 0x03, 0x01, 0x00]

theorem sackHonest_truncatedSack :
    letI := Deku.truncating
    ¬∀ (input rest : Bytes) (tcp : Tcp), Tcp.parse input = .ok (rest, tcp) →
      Tcp.SAckHonest input tcp := by
  let := Deku.truncating
  intro hall
  have hoptions : (Tcp.parse truncatedSack).map (fun (rest, tcp) => (rest, tcp.options)) =
      .ok ([], [.SAck 3 [], .NOP, .EOL]) := by decide +kernel
  obtain ⟨⟨rest, tcp⟩, h, hp⟩ := except_map_eq_ok.mp hoptions
  obtain ⟨-, hlist⟩ := Prod.mk.inj hp
  have hlength := (hall _ _ _ h [] 3 [] [.NOP, .EOL] hlist).1
  exact absurd hlength (by decide)

end Nata
