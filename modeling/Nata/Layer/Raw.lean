/-
  The Raw layer: un-parsed data or application data such as a UDP payload.
-/
import Nata.Layer.Basic

namespace Nata

/-- Bytes that no layer has been found for. -/
structure Raw where
  data : Bytes
  bitOffset : Nat
  deriving DecidableEq

namespace Raw

instance : Inhabited Raw := ⟨⟨[], 0⟩⟩

/-- The bit offset is skipped: it is neither read nor written. -/
def codec : Last Raw :=
  (Codec.uint.readAll Codec.nonempty_octet).map (fun data => ⟨data, 0⟩) (·.data)
    fun _ => rfl

/-- Nothing depends on other layers. -/
def finalize {L : Type} (_prev _next : List L) : Method LayerError Raw Unit := return ()

/-- Take all of the input. -/
def parse [Deku] (input : Bytes) : Except LayerError (Bytes × Raw) := derivedParse codec input

/-- The data. -/
def toBytes [Deku] (raw : Raw) : Except LayerError Bytes := derivedToBytes codec raw

/-- Nothing is finalised. -/
theorem finalize_eq_ok {L : Type} {prev next : List L} {raw raw' : Raw} :
    finalize prev next raw = .ok () raw' ↔ raw' = raw :=
  Method.pure_eq_ok.trans (and_iff_right rfl)

/-- The data is whole bytes. -/
theorem aligned_codec : codec.Aligned 8 := fun _ _ hu =>
  Codec.aligned_writeVec (Codec.sized_uint.aligned (by decide)) hu

/-- A raw layer is written as its data. -/
theorem toBytes_eq [Deku] (raw : Raw) : raw.toBytes = .ok raw.data :=
  derivedToBytes_eq_ok.mpr ⟨_, Codec.writeVec_uint raw.data, (pack_toBits _).symm⟩

end Raw

end Nata
