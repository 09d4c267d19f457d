import PomeloUdp.Delivery.FragmentMeta

/-!
# Metas in views

A meta is encoded behind what a view holds and decoded from its front. The decoder
tests the length of the view twice and then reads without any test: here the reads
are compared with reads that are all tested, and shown to depend on the bytes of
the view only.
-/

namespace PomeloUdp

namespace Delivery

open Memory LittleEndian Payload Codec

section Announced

/-- The length that a meta byte announces. -/
def announcedLength (byte : UInt8) : ℕ :=
  1 + ((byte >>> 3 &&& 0x01).toNat + 1) + ((byte >>> 4 &&& 0x01).toNat + 1) +
    ((byte >>> 5 &&& 0x01).toNat + 1) + ((byte &&& 0x07).toNat + 1)

/-- The number in the `n` bytes from an address on. -/
def numberAt (memory : ℕ → UInt8) (a n : ℕ) : UInt64 := fromLittleEndian 0 0 (load memory a n)

/-- The meta whose bytes start at an address. -/
def metaAt (memory : ℕ → UInt8) (a : ℕ) : FragmentMeta :=
  let byte := memory a
  let sequenceBytes := (byte &&& 0x07).toNat + 1
  let lastIndexBytes := (byte >>> 3 &&& 0x01).toNat + 1
  let fragmentIndexBytes := (byte >>> 4 &&& 0x01).toNat + 1
  let busIdBytes := (byte >>> 5 &&& 0x01).toNat + 1
  ⟨.ofCode (byte >>> 6), numberAt memory (a + 1) busIdBytes,
    numberAt memory (a + (1 + busIdBytes)) fragmentIndexBytes,
    numberAt memory (a + (1 + busIdBytes + fragmentIndexBytes)) lastIndexBytes,
    numberAt memory (a + (1 + busIdBytes + fragmentIndexBytes + lastIndexBytes)) sequenceBytes⟩

theorem metaDecode_eq_ite (view : BufferView) :
    metaDecode view =
      if view.length < fragmentMetaMinSize then none
      else if view.length < announcedLength (view.memory view.offset) then none
      else some (metaAt view.memory view.offset,
        { view with
          offset := view.offset + announcedLength (view.memory view.offset)
          length := view.length - announcedLength (view.memory view.offset) }) := by
  have hbyte : (view.reader.readPackedUint64Unsafe 1).1.toUInt8 = view.memory view.offset := by
    simp [readPackedUint64Unsafe, BufferView.reader, address, load, fromLittleEndian]
  simp only [metaDecode, hbyte]
  simp [announcedLength, metaAt, numberAt, readPackedUint64Unsafe, BufferView.reader, address,
    advance]

theorem numberAt_congr {memory memory' : ℕ → UInt8} {a n : ℕ}
    (h : ∀ i, a ≤ i → i < a + n → memory i = memory' i) :
    numberAt memory a n = numberAt memory' a n := by
  rw [numberAt, load_congr h, numberAt]

theorem metaAt_congr {memory memory' : ℕ → UInt8} {a : ℕ}
    (h : ∀ i, a ≤ i → i < a + announcedLength (memory a) → memory i = memory' i) :
    metaAt memory a = metaAt memory' a := by
  have hbyte : memory a = memory' a := h a (Nat.le_refl a) (by simp only [announcedLength]; omega)
  unfold announcedLength at h
  simp only [metaAt, ← hbyte, FragmentMeta.mk.injEq, true_and]
  refine ⟨?_, ?_, ?_, ?_⟩ <;>
    exact numberAt_congr fun i hi hi' => h i (by omega) (by omega)

theorem metaDecode_congr {view : BufferView} {memory : ℕ → UInt8}
    (h : ∀ i, view.offset ≤ i → i < view.offset + view.length → view.memory i = memory i) :
    metaDecode { view with memory } =
      (metaDecode view).map fun r => (r.1, { r.2 with memory }) := by
  rw [metaDecode_eq_ite, metaDecode_eq_ite]
  dsimp only
  by_cases hmin : view.length < fragmentMetaMinSize
  · rw [if_pos hmin, if_pos hmin, Option.map_none]
  rw [if_neg hmin, if_neg hmin]
  rw [fragmentMetaMinSize] at hmin
  have hbyte : memory view.offset = view.memory view.offset :=
    (h view.offset (Nat.le_refl _) (by omega)).symm
  simp only [hbyte]
  by_cases hlength : view.length < announcedLength (view.memory view.offset)
  · rw [if_pos hlength, if_pos hlength, Option.map_none]
  rw [if_neg hlength, if_neg hlength, Option.map_some,
    metaAt_congr fun i hi hi' => h i hi (by omega)]

end Announced

section Tested

variable {p : Payload}

theorem readPackedUint64_bind {α : Type} (p : Payload) (n : ℕ) (f : UInt64 × Payload → Option α) :
    (p.readPackedUint64 n).bind f =
      if p.capacity < p.position + n then none else f (p.readPackedUint64Unsafe n) := by
  unfold Payload.readPackedUint64 tryRead readPackedUint64Unsafe
  split <;> rfl

/-- The decoder with a test at each read and no other one. -/
def metaDecodeTested (view : BufferView) : Option (FragmentMeta × BufferView) :=
  (view.reader.readPackedUint64 1).bind fun metaByte =>
    let byte := metaByte.1.toUInt8
    let sequenceBytes := (byte &&& 0x07).toNat + 1
    let lastIndexBytes := (byte >>> 3 &&& 0x01).toNat + 1
    let fragmentIndexBytes := (byte >>> 4 &&& 0x01).toNat + 1
    let busIdBytes := (byte >>> 5 &&& 0x01).toNat + 1
    (metaByte.2.readPackedUint64 busIdBytes).bind fun busId =>
      (busId.2.readPackedUint64 fragmentIndexBytes).bind fun fragmentIndex =>
        (fragmentIndex.2.readPackedUint64 lastIndexBytes).bind fun lastIndex =>
          (lastIndex.2.readPackedUint64 sequenceBytes).bind fun sequence =>
            some (⟨.ofCode (byte >>> 6), busId.1, fragmentIndex.1, lastIndex.1, sequence.1⟩,
              view.consumed sequence.2)

theorem capacity_readPackedUint64Unsafe (p : Payload) (n : ℕ) :
    (p.readPackedUint64Unsafe n).2.capacity = p.capacity := rfl

theorem position_readPackedUint64Unsafe (p : Payload) (n : ℕ) :
    (p.readPackedUint64Unsafe n).2.position = p.position + n := rfl

theorem memory_readPackedUint64Unsafe (p : Payload) (n : ℕ) :
    (p.readPackedUint64Unsafe n).2.memory = p.memory := rfl

theorem metaDecode_eq_tested (view : BufferView) : metaDecode view = metaDecodeTested view := by
  have hcapacity : view.reader.capacity = view.length := rfl
  have hposition : view.reader.position = 0 := rfl
  have hmemory : view.reader.memory = view.memory := rfl
  unfold metaDecode metaDecodeTested
  simp only [readPackedUint64_bind, BufferView.consumed, capacity_readPackedUint64Unsafe,
    position_readPackedUint64Unsafe, memory_readPackedUint64Unsafe, hcapacity, hposition, hmemory,
    fragmentMetaMinSize]
  generalize view.reader.readPackedUint64Unsafe 1 = metaByte
  obtain ⟨metaByte, p⟩ := metaByte
  dsimp only
  generalize metaByte.toUInt8 = byte
  generalize (byte &&& 0x07).toNat = s
  generalize (byte >>> 3 &&& 0x01).toNat = l
  generalize (byte >>> 4 &&& 0x01).toNat = f
  generalize (byte >>> 5 &&& 0x01).toNat = b
  -- The reads follow one another, so that the last test is the one of the whole length.
  have hlength : 0 + 1 + (b + 1) + (f + 1) + (l + 1) + (s + 1) =
      1 + (l + 1) + (f + 1) + (b + 1) + (s + 1) := by omega
  rw [hlength]
  split_ifs
  all_goals first
    | rfl
    | omega

end Tested

section Encoded

variable {m : FragmentMeta} {view : BufferView}

theorem metaEncode_eq_some (h : view.offset + view.length + m.metaLength ≤ view.capacity) :
    m.metaEncode view =
      some { view with
        memory := store view.memory (view.offset + view.length) m.bytes
        length := view.length + m.metaLength } := by
  have hroom : ¬view.capacity - (view.offset + view.length) < m.metaLength := by omega
  simp only [FragmentMeta.metaEncode, hroom, if_false, write_write, BufferView.writer]
  simp [write, address, FragmentMeta.bytes]

theorem metaEncode_eq_none (h : view.offset + view.length ≤ view.capacity)
    (hshort : view.capacity < view.offset + view.length + m.metaLength) :
    m.metaEncode view = none :=
  if_pos (by omega)

theorem metaDecode_encoded (h : m.Fits) (memory : ℕ → UInt8) (capacity a n : ℕ) :
    metaDecode ⟨store memory a m.bytes, capacity, a, m.metaLength + n⟩ =
      some (m, ⟨store memory a m.bytes, capacity, a + m.metaLength, n⟩) := by
  have hp : (BufferView.reader ⟨store memory a m.bytes, capacity, a, m.metaLength + n⟩).Holds
      (m.bytes ++ []) := by
    rw [List.append_nil]
    refine ⟨?_, load_store memory a m.bytes⟩
    simp only [BufferView.reader, FragmentMeta.length_bytes]
    omega
  rw [h.metaDecode_of_holds hp (Nat.le_add_right _ _)]
  simp only [Nat.add_sub_cancel_left]

end Encoded

/-- Encoding at the end of a view and decoding what was added gives the meta back;
encoding fails when there is no room; decoding fails or takes the length that the first
byte announces, and reads inside the view. -/
theorem fragmentMeta_codec :
    (∀ (m : FragmentMeta) (view : BufferView), m.Fits →
      view.offset + view.length ≤ view.capacity →
        (view.offset + view.length + m.metaLength ≤ view.capacity →
          ∃ memory, m.metaEncode view =
              some { view with memory, length := view.length + m.metaLength } ∧
            (∀ i, i < view.offset + view.length ∨ view.offset + view.length + m.metaLength ≤ i →
              memory i = view.memory i) ∧
            ∀ n, metaDecode ⟨memory, view.capacity, view.offset + view.length,
                m.metaLength + n⟩ =
              some (m, ⟨memory, view.capacity, view.offset + view.length + m.metaLength, n⟩)) ∧
        (view.capacity < view.offset + view.length + m.metaLength → m.metaEncode view = none)) ∧
    ∀ view : BufferView,
      (metaDecode view = none ∨
        announcedLength (view.memory view.offset) ≤ view.length ∧
          ∃ m, metaDecode view = some (m,
            { view with
              offset := view.offset + announcedLength (view.memory view.offset)
              length := view.length - announcedLength (view.memory view.offset) })) ∧
      metaDecode view = metaDecodeTested view ∧
      ∀ memory, (∀ i, view.offset ≤ i → i < view.offset + view.length → view.memory i = memory i) →
        metaDecode { view with memory } =
          (metaDecode view).map fun r => (r.1, { r.2 with memory }) := by
  refine ⟨fun m view hm hview => ⟨fun hroom => ?_, metaEncode_eq_none hview⟩, fun view =>
    ⟨?_, metaDecode_eq_tested view, fun memory => metaDecode_congr⟩⟩
  · refine ⟨_, metaEncode_eq_some hroom, fun i hi => store_outside ?_, fun n =>
      metaDecode_encoded hm _ _ _ n⟩
    rwa [FragmentMeta.length_bytes]
  · rw [metaDecode_eq_ite]
    by_cases hmin : view.length < fragmentMetaMinSize
    · exact .inl (if_pos hmin)
    by_cases hlength : view.length < announcedLength (view.memory view.offset)
    · exact .inl (by rw [if_neg hmin, if_pos hlength])
    · refine .inr ⟨Nat.not_lt.mp hlength, metaAt view.memory view.offset, ?_⟩
      rw [if_neg hmin, if_neg hlength]

/-- A meta encoded behind three bytes. -/
theorem fragmentMeta_codec_behind :
    FragmentMeta.metaEncode ⟨.reliable, 5, 700, 701, 99999⟩ ⟨fun _ => 0, 64, 2, 3⟩ ≠ none := by
  obtain ⟨memory, hencode, -⟩ := (fragmentMeta_codec.1 ⟨.reliable, 5, 700, 701, 99999⟩
    ⟨fun _ => 0, 64, 2, 3⟩ ⟨by decide, by decide, by decide⟩ (by decide)).1 (by decide)
  rw [hencode]
  exact Option.some_ne_none _

end Delivery

end PomeloUdp
