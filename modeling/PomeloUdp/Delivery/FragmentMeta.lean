import Mathlib.Tactic.IntervalCases
import PomeloUdp.Base.Buffer

/-!
# The codec of fragment metas

Every fragment starts with its meta: a byte with the type and the lengths of the
numbers, then the bus, the index of the fragment, the last index and the sequence
number. The meta byte has one bit for the length of each of the first three, so
these are read back when they are below 65536 (`metaDecode_eq`). The encoder
asserts as much; without the assertion a last index of 65536 is read as another
one (`metaDecode_overflow`).
-/

namespace PomeloUdp

namespace Delivery

open Memory LittleEndian Payload Codec

/-- `pomelo_delivery_fragment_type`. -/
inductive FragmentType where
  | unreliable
  | sequenced
  | reliable
  | ack
  deriving DecidableEq, Repr

namespace FragmentType

/-- The number of a fragment type. -/
def code : FragmentType → ℕ
  | .unreliable => 0
  | .sequenced => 1
  | .reliable => 2
  | .ack => 3

/-- The fragment type of a number of two bits. -/
def ofCode (code : UInt8) : FragmentType :=
  if code = 0 then .unreliable
  else if code = 1 then .sequenced
  else if code = 2 then .reliable
  else .ack

end FragmentType

/-- `pomelo_delivery_fragment_meta_t`; the numbers of type `size_t` have 64 bits. -/
structure FragmentMeta where
  type : FragmentType
  busId : UInt64
  fragmentIndex : UInt64
  lastIndex : UInt64
  sequence : UInt64
  deriving DecidableEq, Repr

namespace FragmentMeta

variable (m : FragmentMeta)

/-- The first byte for the lengths of the four numbers. -/
def metaByteOf (type : FragmentType)
    (busIdBytes fragmentIndexBytes lastIndexBytes sequenceBytes : ℕ) :
    UInt8 :=
  UInt8.ofNat (type.code <<< 6 ||| (busIdBytes - 1) <<< 5 ||| (fragmentIndexBytes - 1) <<< 4 |||
    (lastIndexBytes - 1) <<< 3 ||| (sequenceBytes - 1))

/-- The byte that `pomelo_delivery_fragment_meta_encode` writes first. -/
def metaByte : UInt8 :=
  metaByteOf m.type (calcPackedUint64Bytes m.busId) (calcPackedUint64Bytes m.fragmentIndex)
    (calcPackedUint64Bytes m.lastIndex) (calcPackedUint64Bytes m.sequence)

/-- The length of an encoded meta. -/
def metaLength : ℕ :=
  1 + calcPackedUint64Bytes m.lastIndex + calcPackedUint64Bytes m.fragmentIndex +
    calcPackedUint64Bytes m.busId + calcPackedUint64Bytes m.sequence

/-- `pomelo_delivery_fragment_meta_encode`, without its assertions. -/
def metaEncode (view : BufferView) : Option BufferView :=
  if view.capacity - (view.offset + view.length) < m.metaLength then none
  else
    let p := view.writer.write [m.metaByte]
    let p := p.write (toLittleEndian (calcPackedUint64Bytes m.busId) m.busId)
    let p := p.write (toLittleEndian (calcPackedUint64Bytes m.fragmentIndex) m.fragmentIndex)
    let p := p.write (toLittleEndian (calcPackedUint64Bytes m.lastIndex) m.lastIndex)
    let p := p.write (toLittleEndian (calcPackedUint64Bytes m.sequence) m.sequence)
    some { view with memory := p.memory, length := view.length + m.metaLength }

end FragmentMeta

/-- `POMELO_DELIVERY_FRAGMENT_META_MIN_SIZE`. -/
def fragmentMetaMinSize : ℕ := 5

/-- `pomelo_delivery_fragment_meta_decode`: the meta and the view of the content. -/
def metaDecode (view : BufferView) : Option (FragmentMeta × BufferView) :=
  if view.length < fragmentMetaMinSize then none
  else
    let metaByte := view.reader.readPackedUint64Unsafe 1
    let byte := metaByte.1.toUInt8
    let sequenceBytes := (byte &&& 0x07).toNat + 1
    let lastIndexBytes := (byte >>> 3 &&& 0x01).toNat + 1
    let fragmentIndexBytes := (byte >>> 4 &&& 0x01).toNat + 1
    let busIdBytes := (byte >>> 5 &&& 0x01).toNat + 1
    let metaLength := 1 + lastIndexBytes + fragmentIndexBytes + busIdBytes + sequenceBytes
    if view.length < metaLength then none
    else
      let busId := metaByte.2.readPackedUint64Unsafe busIdBytes
      let fragmentIndex := busId.2.readPackedUint64Unsafe fragmentIndexBytes
      let lastIndex := fragmentIndex.2.readPackedUint64Unsafe lastIndexBytes
      let sequence := lastIndex.2.readPackedUint64Unsafe sequenceBytes
      some (⟨.ofCode (byte >>> 6), busId.1, fragmentIndex.1, lastIndex.1, sequence.1⟩,
        { view with offset := view.offset + metaLength, length := view.length - metaLength })

namespace FragmentMeta

/-- The encoded meta. -/
def bytes (m : FragmentMeta) : List UInt8 :=
  [m.metaByte] ++ (toLittleEndian (calcPackedUint64Bytes m.busId) m.busId ++
    (toLittleEndian (calcPackedUint64Bytes m.fragmentIndex) m.fragmentIndex ++
      (toLittleEndian (calcPackedUint64Bytes m.lastIndex) m.lastIndex ++
        toLittleEndian (calcPackedUint64Bytes m.sequence) m.sequence)))

variable {m : FragmentMeta}

theorem length_bytes (m : FragmentMeta) : m.bytes.length = m.metaLength := by
  simp only [bytes, metaLength, List.length_append, List.length_singleton, length_toLittleEndian]
  omega

/-- The assertions of the encoder. -/
structure Fits (m : FragmentMeta) : Prop where
  busId : m.busId.toNat < 65536
  fragmentIndex : m.fragmentIndex.toNat < 65536
  lastIndex : m.lastIndex.toNat < 65536

theorem Fits.metaLength_le (h : m.Fits) : m.metaLength ≤ 15 := by
  have hbusId := calcPackedUint64Bytes_le_two h.busId
  have hfragmentIndex := calcPackedUint64Bytes_le_two h.fragmentIndex
  have hlastIndex := calcPackedUint64Bytes_le_two h.lastIndex
  have hsequence := (calcPackedUint64Bytes_bounds m.sequence).2.1
  unfold metaLength
  omega

theorem metaEncode_eq (memory : ℕ → UInt8) {capacity : ℕ} (h : m.metaLength ≤ capacity) :
    m.metaEncode ⟨memory, capacity, 0, 0⟩ =
      some ⟨store memory 0 m.bytes, capacity, 0, m.bytes.length⟩ := by
  have hfits : ¬ capacity - (0 + 0) < m.metaLength := Nat.not_lt.mpr h
  simp only [metaEncode, hfits, if_false, write_write, BufferView.writer]
  rw [length_bytes]
  simp [write, address, bytes]

theorem metaLength_le_of_metaEncode {memory : ℕ → UInt8} {capacity : ℕ} {view : BufferView}
    (h : m.metaEncode ⟨memory, capacity, 0, 0⟩ = some view) : m.metaLength ≤ capacity := by
  by_contra hshort
  have hfull : capacity - (0 + 0) < m.metaLength := Nat.lt_of_not_le hshort
  simp only [metaEncode, hfull, if_true, reduceCtorEq] at h

section Decode

variable {type : FragmentType} {b f l s : ℕ} {view : BufferView} {rest : List UInt8}

theorem metaByteOf_eq (type : FragmentType) (hb : 1 ≤ b ∧ b ≤ 2) (hf : 1 ≤ f ∧ f ≤ 2)
    (hl : 1 ≤ l ∧ l ≤ 2) (hs : 1 ≤ s ∧ s ≤ 8) :
    FragmentType.ofCode (metaByteOf type b f l s >>> 6) = type ∧
      (metaByteOf type b f l s >>> 5 &&& 0x01).toNat + 1 = b ∧
      (metaByteOf type b f l s >>> 4 &&& 0x01).toNat + 1 = f ∧
      (metaByteOf type b f l s >>> 3 &&& 0x01).toNat + 1 = l ∧
      (metaByteOf type b f l s &&& 0x07).toNat + 1 = s := by
  obtain ⟨hb, hb'⟩ := hb
  obtain ⟨hf, hf'⟩ := hf
  obtain ⟨hl, hl'⟩ := hl
  obtain ⟨hs, hs'⟩ := hs
  interval_cases b <;> interval_cases f <;> interval_cases l <;> interval_cases s <;>
    cases type <;> decide

theorem metaDecode_of_holds {busId fragmentIndex lastIndex : UInt64} (hb : 1 ≤ b ∧ b ≤ 2)
    (hf : 1 ≤ f ∧ f ≤ 2) (hl : 1 ≤ l ∧ l ≤ 2) (hs : 1 ≤ s ∧ s ≤ 8)
    (hbusId : busId.toNat < 256 ^ b) (hfragmentIndex : fragmentIndex.toNat < 256 ^ f)
    (hlastIndex : lastIndex.toNat < 256 ^ l)
    (hp : view.reader.Holds ([metaByteOf type b f l s] ++ (toLittleEndian b busId ++
      (toLittleEndian f fragmentIndex ++ (toLittleEndian l lastIndex ++ rest)))))
    (hlength : 1 + l + f + b + s ≤ view.length) :
    metaDecode view = some (⟨type, busId, fragmentIndex, lastIndex,
        (((((view.reader.advance 1).advance b).advance f).advance l).readPackedUint64Unsafe s).1⟩,
      { view with
        offset := view.offset + (1 + l + f + b + s)
        length := view.length - (1 + l + f + b + s) }) := by
  obtain ⟨htype, hbyteb, hbytef, hbytel, hbytes⟩ := metaByteOf_eq type hb hf hl hs
  have hbus := hp.right
  have hfragment := hbus.right
  have hlast := hfragment.right
  simp only [length_toLittleEndian, List.length_singleton] at hbus hfragment hlast
  have hmin : ¬ view.length < fragmentMetaMinSize := by
    rw [fragmentMetaMinSize]
    omega
  have hbyte : view.reader.readPackedUint64Unsafe 1 =
      ((metaByteOf type b f l s).toUInt64, view.reader.advance 1) := by
    have hload := hp.left.load
    rw [List.length_singleton] at hload
    rw [readPackedUint64Unsafe, hload]
    simp [fromLittleEndian]
  simp only [metaDecode, hmin, if_false, hbyte, UInt8.toUInt8_toUInt64, htype, hbyteb, hbytef,
    hbytel, hbytes]
  rw [if_neg (Nat.not_lt.mpr hlength), hbus.readPackedUint64Unsafe (by omega) hbusId]
  simp only []
  rw [hfragment.readPackedUint64Unsafe (by omega) hfragmentIndex]
  simp only []
  rw [hlast.readPackedUint64Unsafe (by omega) hlastIndex]

end Decode

end FragmentMeta

/-- A datagram in the memory of the receiver. -/
def viewOf (memory : ℕ → UInt8) (datagram : List UInt8) : BufferView :=
  ⟨store memory 0 datagram, datagram.length, 0, datagram.length⟩

namespace FragmentMeta

variable (m : FragmentMeta) (memory : ℕ → UInt8) (content : List UInt8)

theorem holds_viewOf (datagram : List UInt8) : (viewOf memory datagram).reader.Holds datagram :=
  holds_store memory 0 datagram (Nat.le_refl _)

variable {m}

theorem Fits.metaDecode_of_holds {view : BufferView} {rest : List UInt8} (h : m.Fits)
    (hp : view.reader.Holds (m.bytes ++ rest)) (hlength : m.metaLength ≤ view.length) :
    metaDecode view = some (m,
      { view with
        offset := view.offset + m.metaLength
        length := view.length - m.metaLength }) := by
  obtain ⟨hb, -, hbusId⟩ := calcPackedUint64Bytes_bounds m.busId
  obtain ⟨hf, -, hfragmentIndex⟩ := calcPackedUint64Bytes_bounds m.fragmentIndex
  obtain ⟨hl, -, hlastIndex⟩ := calcPackedUint64Bytes_bounds m.lastIndex
  obtain ⟨hs, hs', hsequence⟩ := calcPackedUint64Bytes_bounds m.sequence
  have hsplit : m.bytes ++ rest =
      [metaByteOf m.type (calcPackedUint64Bytes m.busId) (calcPackedUint64Bytes m.fragmentIndex)
        (calcPackedUint64Bytes m.lastIndex) (calcPackedUint64Bytes m.sequence)] ++
        (toLittleEndian (calcPackedUint64Bytes m.busId) m.busId ++
          (toLittleEndian (calcPackedUint64Bytes m.fragmentIndex) m.fragmentIndex ++
            (toLittleEndian (calcPackedUint64Bytes m.lastIndex) m.lastIndex ++
              (toLittleEndian (calcPackedUint64Bytes m.sequence) m.sequence ++ rest)))) := by
    simp [bytes, metaByte]
  rw [hsplit] at hp
  have hlast := hp.right.right.right.right
  simp only [length_toLittleEndian, List.length_singleton] at hlast
  have hdecode := FragmentMeta.metaDecode_of_holds ⟨hb, calcPackedUint64Bytes_le_two h.busId⟩
    ⟨hf, calcPackedUint64Bytes_le_two h.fragmentIndex⟩
    ⟨hl, calcPackedUint64Bytes_le_two h.lastIndex⟩ ⟨hs, hs'⟩ hbusId hfragmentIndex hlastIndex hp
    hlength
  rwa [hlast.readPackedUint64Unsafe hs' hsequence] at hdecode

theorem metaDecode_eq (h : m.Fits) :
    ∃ view, metaDecode (viewOf memory (m.bytes ++ content)) = some (m, view) ∧
      load view.memory view.offset view.length = content := by
  have hp := holds_viewOf memory (m.bytes ++ content)
  have hcontent := hp.right.load
  have hlength : (m.bytes ++ content).length = m.metaLength + content.length := by
    rw [List.length_append, length_bytes]
  have hroom : m.metaLength ≤ (viewOf memory (m.bytes ++ content)).length := by
    simp only [viewOf, hlength]
    exact Nat.le_add_right _ _
  refine ⟨_, h.metaDecode_of_holds hp hroom, ?_⟩
  rw [length_bytes] at hcontent
  simpa [viewOf, hlength, BufferView.reader, address, advance] using hcontent

theorem metaDecode_overflow (hbusId : m.busId.toNat < 65536) (hindex : m.fragmentIndex = 0)
    (hlast : m.lastIndex = 65536) :
    ∃ sequence view, metaDecode (viewOf memory (m.bytes ++ content)) =
      some (⟨m.type, m.busId, 0, 0, sequence⟩, view) := by
  obtain ⟨hb, -, hbus⟩ := calcPackedUint64Bytes_bounds m.busId
  obtain ⟨hs, hs', -⟩ := calcPackedUint64Bytes_bounds m.sequence
  have hp := holds_viewOf memory (m.bytes ++ content)
  -- the two upper bits of the length of the last index are those of the fragment index
  have hbytes : m.bytes ++ content =
      [metaByteOf m.type (calcPackedUint64Bytes m.busId) 2 1 (calcPackedUint64Bytes m.sequence)] ++
        (toLittleEndian (calcPackedUint64Bytes m.busId) m.busId ++ (toLittleEndian 2 0 ++
          (toLittleEndian 1 0 ++ ([1] ++
            (toLittleEndian (calcPackedUint64Bytes m.sequence) m.sequence ++ content))))) := by
    have hbyte : m.metaByte = metaByteOf m.type (calcPackedUint64Bytes m.busId) 2 1
        (calcPackedUint64Bytes m.sequence) := by
      have hzero : calcPackedUint64Bytes 0 = 1 := rfl
      have hlength : calcPackedUint64Bytes 65536 = 3 := rfl
      simp [metaByte, metaByteOf, hindex, hlast, hzero, hlength]
    have hnumbers : toLittleEndian (calcPackedUint64Bytes 0) 0 ++
        toLittleEndian (calcPackedUint64Bytes 65536) 65536 =
          toLittleEndian 2 0 ++ (toLittleEndian 1 0 ++ [1]) := by
      decide
    rw [bytes, hbyte, hindex, hlast,
      ← List.append_assoc (toLittleEndian (calcPackedUint64Bytes 0) 0),
      hnumbers]
    simp only [List.append_assoc]
  rw [hbytes] at hp ⊢
  have hdecode := metaDecode_of_holds ⟨hb, calcPackedUint64Bytes_le_two hbusId⟩
    ⟨by decide, by decide⟩ ⟨by decide, by decide⟩ ⟨hs, hs'⟩ hbus (by decide) (by decide) hp
    (by simp only [viewOf, List.length_append, length_toLittleEndian, List.length_singleton]; omega)
  exact ⟨_, _, hdecode⟩

end FragmentMeta

end Delivery

end PomeloUdp
