/-
  Lists of elements as byte strings cut into chunks.

  A list in a binary format is often described by its bytes: "options of these shapes, one after the
  other, up to the end of the area".  Here `Shape : Bytes → Prop` says which byte strings are an
  element, and a list of elements is a list of `chunks` of that shape, whose concatenation
  (`chunks.flatten`) is the area.

  For a codec of whole bytes the two descriptions agree.  `Codec.Encodes` relates a value to its
  chunk; `bytesRead_eq_ok` says that the reader of a limited `Vec` accepts an input exactly when the
  bytes up to the limit split into chunks, and returns their values; `bytesRead_short_iff_overruns`
  says when it runs out of input instead: when a chunk straddles the limit, and the chunks behind it
  are whole up to a last one that the input cuts short (`Overruns`).
-/
import Nata.Lib.Cut

namespace Nata

/-- A run of whole chunks, none of which ends after `n` bytes, and then the beginning of a chunk. -/
def Overruns (Shape : Bytes → Prop) (n : Nat) (input : Bytes) : Prop :=
  ∃ chunks tail missing, (∀ chunk ∈ chunks, Shape chunk) ∧ missing ≠ [] ∧ Shape (tail ++ missing) ∧
    input = chunks.flatten ++ tail ∧ ∀ front, front <+: chunks → front.flatten.length ≠ n

/-- No bits are no bytes. -/
theorem toBits_eq_nil_iff {bytes : Bytes} : toBits bytes = [] ↔ bytes = [] := by
  constructor
  · exact fun h => toBits_inj h
  · rintro rfl
    rfl

/-- Bits can be cut where bytes can. -/
theorem toBits_take_append_drop (n : Nat) (bytes : Bytes) :
    toBits bytes = toBits (bytes.take n) ++ toBits (bytes.drop n) := by
  rw [← toBits_append, List.take_append_drop]

/-- Dropping whole bytes. -/
theorem drop_toBits (n : Nat) (bytes : Bytes) :
    (toBits bytes).drop (8 * n) = toBits (bytes.drop n) := by
  by_cases h : n ≤ bytes.length
  · have hlen : (toBits (bytes.take n)).length = 8 * n := by
      rw [length_toBits, List.length_take, Nat.min_eq_left h]
    rw [toBits_take_append_drop n, ← hlen, List.drop_left]
  · rw [List.drop_eq_nil_of_le (by rw [length_toBits]; omega), List.drop_eq_nil_of_le (by omega)]
    rfl

namespace Codec

variable {α : Type} {c : Field α}

/-- An octet is read from a byte. -/
theorem read_octet (b : BitVec 8) (bytes : Bytes) :
    (uint : Field (BitVec 8)).read.run (toBits (b :: bytes)) = .ok (b, toBits bytes) :=
  uint.read_eq_ok.mpr ⟨trivial, byteBits b, rfl, rfl⟩

/-- Any format of `k` bytes that is short can be completed to `k` bytes. -/
theorem Total.exists_missing {k : Nat} (hc : c.Total (8 * k)) {tail : Bytes}
    (h : c.read.Short (toBits tail)) : ∃ missing, missing ≠ [] ∧ (tail ++ missing).length = k := by
  have hlt := hc.lt_of_short h
  rw [length_toBits] at hlt
  refine ⟨List.replicate (k - tail.length) 0#8, ?_, ?_⟩
  · intro hnil
    have hlen := congrArg List.length hnil
    rw [List.length_replicate, List.length_nil] at hlen
    omega
  · rw [List.length_append, List.length_replicate]
    omega

/-- The bytes `chunk` are those of the representable value `a`. -/
def Encodes (c : Field α) (a : α) (chunk : Bytes) : Prop :=
  c.Valid a ∧ c.write a = .ok (toBits chunk)

/-- A representable value is read back, whatever is behind it. -/
theorem Encodes.read {a : α} {chunk : Bytes} (h : c.Encodes a chunk) (rest : Bits) :
    c.read.run (toBits chunk ++ rest) = .ok (a, rest) :=
  c.read_eq_ok.mpr ⟨h.1, toBits chunk, h.2, rfl⟩

/-- An encoding is what the value is written as. -/
theorem Encodes.toBytes {a : α} {chunk : Bytes} (h : c.Encodes a chunk) :
    c.toBytes a = .ok chunk := toBytes_eq_ok.mpr ⟨_, h.2, (pack_toBits chunk).symm⟩

/-- **A value is read back from its encoding**, with anything behind it. -/
theorem Encodes.fromBytes (hal : c.Aligned 8) {a : α} {chunk : Bytes} (h : c.Encodes a chunk)
    (rest : Bytes) : c.fromBytes (chunk ++ rest) = .ok ((rest, 0), a) :=
  (fromBytes_eq_ok hal).mpr ⟨rfl, h.1, trivial, chunk, h.toBytes, rfl⟩

/-- A chunk is that of one value only. -/
theorem Encodes.unique {a a' : α} {chunk : Bytes} (h : c.Encodes a chunk)
    (h' : c.Encodes a' chunk) : a = a' :=
  (Prod.mk.inj (Except.ok.inj ((h.read []).symm.trans (h'.read [])))).1

/-- Of two chunks in front of the same bytes neither is a part of the other. -/
theorem Encodes.prefix_free {a a' : α} {chunk chunk' rest rest' : Bytes} (h : c.Encodes a chunk)
    (h' : c.Encodes a' chunk') (heq : chunk ++ rest = chunk' ++ rest') :
    chunk = chunk' ∧ rest = rest' := by
  have hread := h.read (toBits rest)
  rw [← toBits_append, heq, toBits_append, h'.read] at hread
  have hrest := toBits_inj (Prod.mk.inj (Except.ok.inj hread)).2
  rw [hrest] at heq
  exact ⟨List.append_cancel_right heq, hrest.symm⟩

/-- A representable value of a format of whole bytes has a chunk. -/
theorem exists_encodes (hal : c.Aligned 8) {a : α} (ha : c.Valid a) :
    ∃ chunk, c.Encodes a chunk := by
  obtain ⟨u, hu⟩ := c.write_ok a ha
  exact ⟨pack u, ha, by rw [toBits_pack (hal a u hu), hu]⟩

/-- A `Vec` of representable values is written as their chunks. -/
theorem writeVec_iff_chunks (hal : c.Aligned 8) {xs : List α} {u : Bits} :
    ((∀ x ∈ xs, c.Valid x) ∧ c.writeVec xs = .ok u) ↔
      ∃ chunks, List.Forall₂ c.Encodes xs chunks ∧ u = toBits chunks.flatten := by
  induction xs generalizing u with
  | nil =>
    constructor
    · rintro ⟨-, hu⟩
      cases hu
      exact ⟨[], .nil, rfl⟩
    · rintro ⟨_, hnil, rfl⟩
      cases hnil
      exact ⟨fun x hx => absurd hx List.not_mem_nil, rfl⟩
  | cons x xs ih =>
    constructor
    · rintro ⟨hval, hu⟩
      obtain ⟨hx, hxs⟩ := List.forall_mem_cons.mp hval
      obtain ⟨v, w, hv, hw, rfl⟩ := writeVec_cons_eq_ok.mp hu
      obtain ⟨chunk, -, hchunk⟩ := exists_encodes hal hx
      obtain rfl := Except.ok.inj (hv.symm.trans hchunk)
      obtain ⟨chunks, hchunks, rfl⟩ := ih.mp ⟨hxs, hw⟩
      exact ⟨chunk :: chunks, .cons ⟨hx, hchunk⟩ hchunks, by rw [List.flatten_cons, toBits_append]⟩
    · rintro ⟨_, hall, rfl⟩
      cases hall with
      | @cons _ chunk _ chunks hx hxs =>
        obtain ⟨hval, hw⟩ := ih.mpr ⟨chunks, hxs, rfl⟩
        refine ⟨List.forall_mem_cons.mpr ⟨hx.1, hval⟩, ?_⟩
        exact writeVec_cons_eq_ok.mpr ⟨_, _, hx.2, hw, by rw [List.flatten_cons, toBits_append]⟩

/-- **What a limited `Vec` accepts**: the bytes up to the limit split into the chunks of its
    elements. -/
theorem bytesRead_eq_ok (hal : c.Aligned 8) {hne : c.Nonempty} {n : Nat} {input : Bytes}
    {xs : List α} {rest : Bits} :
    (c.bytesRead (.ok n) hne).read.run (toBits input) = .ok (xs, rest) ↔
      n ≤ input.length ∧ rest = toBits (input.drop n) ∧
        ∃ chunks, List.Forall₂ c.Encodes xs chunks ∧ chunks.flatten = input.take n := by
  rw [read_eq_ok]
  constructor
  · rintro ⟨⟨hval, k, u, hk, hu, hlen⟩, u', hu', hin⟩
    cases hk
    obtain rfl := Except.ok.inj (hu.symm.trans hu')
    obtain ⟨chunks, hchunks, rfl⟩ := (writeVec_iff_chunks hal).mp ⟨hval, hu⟩
    have htotal := congrArg List.length hin
    rw [length_toBits] at hlen
    rw [List.length_append, length_toBits, length_toBits] at htotal
    have hn : n ≤ input.length := by omega
    have htake : (toBits chunks.flatten).length = (toBits (input.take n)).length := by
      rw [length_toBits, length_toBits, List.length_take]
      omega
    rw [toBits_take_append_drop n] at hin
    obtain ⟨hflat, hrest⟩ := List.append_inj hin htake.symm
    exact ⟨hn, hrest.symm, chunks, hchunks, (toBits_inj hflat).symm⟩
  · rintro ⟨hn, rfl, chunks, hchunks, hflat⟩
    obtain ⟨hval, hu⟩ := (writeVec_iff_chunks hal).mpr ⟨chunks, hchunks, rfl⟩
    refine ⟨⟨hval, n, _, rfl, hu, ?_⟩, _, hu, ?_⟩
    · rw [hflat, length_toBits, List.length_take]
      omega
    · rw [hflat, ← toBits_take_append_drop]

/-- What all elements of one list have, the chunks of a list of values have. -/
theorem forall_shape_iff {Shape : Bytes → Prop}
    (hshape : ∀ chunk, Shape chunk ↔ ∃ a, c.Encodes a chunk) {chunks : List Bytes} :
    (∀ chunk ∈ chunks, Shape chunk) ↔ ∃ xs, List.Forall₂ c.Encodes xs chunks := by
  induction chunks with
  | nil => exact ⟨fun _ => ⟨[], .nil⟩, fun _ chunk h => absurd h List.not_mem_nil⟩
  | cons chunk chunks ih =>
    rw [List.forall_mem_cons, ih, hshape]
    constructor
    · rintro ⟨⟨x, hx⟩, xs, hxs⟩
      exact ⟨x :: xs, .cons hx hxs⟩
    · rintro ⟨_, h⟩
      cases h with
      | cons hx hxs => exact ⟨⟨_, hx⟩, _, hxs⟩

/-- A chunk of which something is missing at the end is short. -/
theorem Encodes.short {a : α} {tail missing : Bytes} (hc : c.Cuts)
    (h : c.Encodes a (tail ++ missing)) (hmissing : missing ≠ []) : c.read.Short (toBits tail) := by
  refine hc a (toBits tail) (toBits missing) h.1 ?_ ?_
  · rw [← toBits_append]
    exact h.2
  · rwa [ne_eq, toBits_eq_nil_iff]

/-- **When a limited `Vec` runs out of input**: its chunks overrun the limit up to the end of the
    input. -/
theorem bytesRead_short_iff_overruns (hal : c.Aligned 8) (hc : c.Cuts) {hne : c.Nonempty} {n : Nat}
    {Shape : Bytes → Prop} (hshape : ∀ chunk, Shape chunk ↔ ∃ a, c.Encodes a chunk)
    (hshort : ∀ tail, c.read.Short (toBits tail) → ∃ missing, missing ≠ [] ∧ Shape (tail ++ missing))
    {input : Bytes} :
    (c.bytesRead (.ok n) hne).read.Short (toBits input) ↔ Overruns Shape n input := by
  rw [bytesRead_short_iff]
  constructor
  · rintro ⟨xs, u, tail, hval, hu, hin, htail, hfronts⟩
    obtain ⟨chunks, hchunks, rfl⟩ := (writeVec_iff_chunks hal).mp ⟨hval, hu⟩
    -- The bits behind the chunks are whole bytes, since all others are.
    have htotal := congrArg List.length hin
    rw [List.length_append, length_toBits, length_toBits] at htotal
    obtain ⟨tail, rfl⟩ : ∃ bytes, tail = toBits bytes :=
      ⟨pack tail, (toBits_pack (by omega)).symm⟩
    obtain ⟨missing, hmissing, hlast⟩ := hshort tail htail
    rw [← toBits_append] at hin
    refine ⟨chunks, tail, missing, (forall_shape_iff hshape).mpr ⟨xs, hchunks⟩, hmissing, hlast,
      toBits_inj hin, ?_⟩
    rintro front ⟨back, rfl⟩ hlen
    have hfront := List.forall₂_take_append xs front back hchunks
    refine hfronts (xs.take front.length) (toBits front.flatten) (List.take_prefix _ _)
      ((writeVec_iff_chunks hal).mpr ⟨front, hfront, rfl⟩).2 ?_
    rw [length_toBits, hlen]
  · rintro ⟨chunks, tail, missing, hchunks, hmissing, hlast, rfl, hfronts⟩
    obtain ⟨xs, hxs⟩ := (forall_shape_iff hshape).mp hchunks
    obtain ⟨hval, hu⟩ := (writeVec_iff_chunks hal).mpr ⟨chunks, hxs, rfl⟩
    obtain ⟨a, ha⟩ := (hshape _).mp hlast
    refine ⟨xs, _, toBits tail, hval, hu, toBits_append .., ha.short hc hmissing, ?_⟩
    rintro front v ⟨back, rfl⟩ hv hlen
    have hfront := (List.forall₂_take_append chunks front back hxs.flip).flip
    have hwrite := ((writeVec_iff_chunks hal).mpr ⟨_, hfront, rfl⟩).2
    obtain rfl := Except.ok.inj (hv.symm.trans hwrite)
    rw [length_toBits] at hlen
    exact hfronts (chunks.take front.length) (List.take_prefix _ _) (by omega)

end Codec

end Nata
