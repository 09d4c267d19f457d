import Mathlib.Data.Nat.Basic
import Mathlib.Tactic.SplitIfs
import PomeloUdp.Library.LittleEndian
import PomeloUdp.Library.Memory

/-!
# Payloads

`Payload` is `pomelo_payload_t`, a window into memory with a position that writing
and reading move on. Numbers are written with their low byte first. A checked
write or read fails without a change when the window is too short; the unchecked
ones touch whatever memory is there.

`Holds` says which bytes lie ahead of the position: what was written lies ahead of
the position it was written from, and a read takes its bytes off the front.

The number of bytes of a packed integer is found by a decision over masks; each mask is a block
of bits, and a number has none of the bits of the block when it lies below the block's first one.
-/

namespace PomeloUdp

open Memory LittleEndian

/-- `pomelo_payload_t`; `data` is the address its data pointer holds. -/
structure Payload where
  memory : ℕ → UInt8
  data : ℕ
  position : ℕ
  capacity : ℕ

namespace Payload

/-- The address of the position. -/
def address (p : Payload) : ℕ := p.data + p.position

/-- Moving the position. -/
def advance (p : Payload) (n : ℕ) : Payload := { p with position := p.position + n }

section Writing

variable (p : Payload)

/-- Writing bytes without a check. -/
def write (bytes : List UInt8) : Payload :=
  { p with
    memory := store p.memory p.address bytes
    position := p.position + bytes.length }

/-- Writing bytes that have to fit. -/
def tryWrite (bytes : List UInt8) : Option Payload :=
  if p.capacity < p.position + bytes.length then none else some (p.write bytes)

/-- A write whose return code is ignored. -/
def attempt (f : Payload → Option Payload) : Payload := (f p).getD p

/-- `pomelo_payload_write_uint8`. -/
def writeUint8 (value : UInt8) (p : Payload) : Option Payload := p.tryWrite [value]

/-- `pomelo_payload_write_uint16`. -/
def writeUint16 (value : UInt16) (p : Payload) : Option Payload :=
  p.tryWrite (toLittleEndian 2 value.toUInt64)

/-- `pomelo_payload_write_uint32`. -/
def writeUint32 (value : UInt32) (p : Payload) : Option Payload :=
  p.tryWrite (toLittleEndian 4 value.toUInt64)

/-- `pomelo_payload_write_uint64`. -/
def writeUint64 (value : UInt64) (p : Payload) : Option Payload :=
  p.tryWrite (toLittleEndian 8 value)

/-- `pomelo_payload_write_int32`. -/
def writeInt32 (value : Int32) (p : Payload) : Option Payload := p.writeUint32 value.toUInt32

/-- `pomelo_payload_write_int64`. -/
def writeInt64 (value : Int64) (p : Payload) : Option Payload := p.writeUint64 value.toUInt64

/-- `pomelo_payload_write_packed_uint64`. -/
def writePackedUint64 (bytes : ℕ) (value : UInt64) (p : Payload) : Option Payload :=
  p.tryWrite (toLittleEndian bytes value)

/-- `pomelo_payload_write_buffer`. -/
def writeBuffer (buffer : List UInt8) (p : Payload) : Option Payload :=
  if buffer.length = 0 then some p else p.tryWrite buffer

/-- `pomelo_payload_zero_pad`. -/
def zeroPad (padSize : ℕ) (p : Payload) : Option Payload :=
  if p.capacity < padSize then none
  else if padSize ≤ p.position then some p
  else p.tryWrite (List.replicate (padSize - p.position) 0)

end Writing

section Reading

variable (p : Payload)

/-- Reading bytes that have to be there. -/
def tryRead (n : ℕ) : Option (List UInt8 × Payload) :=
  if p.capacity < p.position + n then none
  else some (load p.memory p.address n, p.advance n)

/-- `pomelo_payload_read_uint8`. -/
def readUint8 : Option (UInt8 × Payload) :=
  (p.tryRead 1).map fun r => ((fromLittleEndian 0 0 r.1).toUInt8, r.2)

/-- `pomelo_payload_read_uint16`. -/
def readUint16 : Option (UInt16 × Payload) :=
  (p.tryRead 2).map fun r => ((fromLittleEndian 0 0 r.1).toUInt16, r.2)

/-- `pomelo_payload_read_uint32`. -/
def readUint32 : Option (UInt32 × Payload) :=
  (p.tryRead 4).map fun r => ((fromLittleEndian 0 0 r.1).toUInt32, r.2)

/-- `pomelo_payload_read_packed_uint64`. -/
def readPackedUint64 (bytes : ℕ) : Option (UInt64 × Payload) :=
  (p.tryRead bytes).map fun r => (fromLittleEndian 0 0 r.1, r.2)

/-- `pomelo_payload_read_packed_uint64_unsafe`: reading without a check. -/
def readPackedUint64Unsafe (bytes : ℕ) : UInt64 × Payload :=
  (fromLittleEndian 0 0 (load p.memory p.address bytes), p.advance bytes)

/-- `pomelo_payload_read_uint64`. -/
def readUint64 : Option (UInt64 × Payload) := p.readPackedUint64 8

/-- `pomelo_payload_read_int32`. -/
def readInt32 : Option (Int32 × Payload) := p.readUint32.map fun r => (r.1.toInt32, r.2)

/-- `pomelo_payload_read_int64`. -/
def readInt64 : Option (Int64 × Payload) := p.readUint64.map fun r => (r.1.toInt64, r.2)

/-- `pomelo_payload_read_buffer`. -/
def readBuffer (n : ℕ) : Option (Vector UInt8 n × Payload) :=
  if p.capacity < p.position + n then none
  else some (loadVector p.memory p.address n, p.advance n)

/-- Reading `n` values one after the other, each with a default that stays when the
read fails. -/
def readVector {α : Type} (read : Payload → Option (α × Payload)) (default : α) :
    (n : ℕ) → Payload → Vector α n × Payload
  | 0, p => (#v[], p)
  | n + 1, p =>
      let r := readVector read default n p
      let r' := (read r.2).getD (default, r.2)
      (r.1.push r'.1, r'.2)

end Reading

section Written

variable {p : Payload} {xs ys : List UInt8}

@[simp] theorem write_nil : p.write [] = p := by
  simp [write]

theorem write_write : (p.write xs).write ys = p.write (xs ++ ys) := by
  have haddress : (p.write xs).address = p.address + xs.length := by
    simp [address, write, Nat.add_assoc]
  simp only [write] at haddress ⊢
  rw [haddress, store_store, List.length_append, Nat.add_assoc]

theorem attempt_tryWrite (h : p.position + (xs.length + ys.length) ≤ p.capacity) :
    (p.write xs).attempt (·.tryWrite ys) = p.write (xs ++ ys) := by
  have hfits : ¬(p.write xs).capacity < (p.write xs).position + ys.length := by
    simp only [write]
    omega
  rw [attempt, tryWrite, if_neg hfits, Option.getD_some, write_write]

theorem attempt_first (h : p.position + xs.length ≤ p.capacity) :
    p.attempt (·.tryWrite xs) = p.write xs := by
  rw [attempt, tryWrite, if_neg (by omega), Option.getD_some]

theorem attempt_writeBuffer (h : p.position + (xs.length + ys.length) ≤ p.capacity) :
    (p.write xs).attempt (writeBuffer ys) = p.write (xs ++ ys) := by
  by_cases hempty : ys.length = 0
  · obtain rfl := List.length_eq_zero_iff.mp hempty
    simp [attempt, writeBuffer]
  · rw [← attempt_tryWrite h]
    simp [attempt, writeBuffer, hempty]

theorem attempt_zeroPad {n : ℕ} (hfits : n ≤ p.capacity) :
    (p.write xs).attempt (zeroPad n) =
      p.write (xs ++ List.replicate (n - (p.position + xs.length)) 0) := by
  have hcapacity : ¬(p.write xs).capacity < n := by
    simpa [write] using hfits
  have hposition : (p.write xs).position = p.position + xs.length := rfl
  by_cases hpad : n ≤ p.position + xs.length
  · simp [attempt, zeroPad, hcapacity, hposition, hpad, Nat.sub_eq_zero_of_le hpad]
  · rw [← attempt_tryWrite (by simp; omega)]
    simp [attempt, zeroPad, hcapacity, hposition, hpad]

end Written

/-- The bytes ahead of the position. -/
structure Holds (p : Payload) (bytes : List UInt8) : Prop where
  fits : p.position + bytes.length ≤ p.capacity
  load : load p.memory p.address bytes.length = bytes

theorem holds_store (memory : ℕ → UInt8) (data : ℕ) (bytes : List UInt8) {capacity : ℕ}
    (h : bytes.length ≤ capacity) : Holds ⟨store memory data bytes, data, 0, capacity⟩ bytes :=
  ⟨by simpa using h, load_store memory data bytes⟩

section Held

variable {p : Payload} {xs ys : List UInt8}

theorem Holds.left (h : p.Holds (xs ++ ys)) : p.Holds xs := by
  obtain ⟨hfits, hload⟩ := h
  rw [List.length_append] at hfits hload
  rw [load_add] at hload
  exact ⟨by omega, (List.append_inj hload (by simp)).1⟩

theorem Holds.right (h : p.Holds (xs ++ ys)) : (p.advance xs.length).Holds ys := by
  obtain ⟨hfits, hload⟩ := h
  rw [List.length_append] at hfits hload
  rw [load_add] at hload
  refine ⟨by simp only [advance]; omega, ?_⟩
  have haddress : (p.advance xs.length).address = p.address + xs.length := by
    simp [address, advance, Nat.add_assoc]
  rw [haddress]
  exact (List.append_inj hload (by simp)).2

theorem Holds.tryRead (h : p.Holds (xs ++ ys)) :
    p.tryRead xs.length = some (xs, p.advance xs.length) := by
  obtain ⟨hfits, hload⟩ := h.left
  rw [Payload.tryRead, if_neg (by omega), hload]

theorem Holds.readPackedUint64 {n : ℕ} {value : UInt64}
    (h : p.Holds (toLittleEndian n value ++ ys)) (hn : n ≤ 8) (hvalue : value.toNat < 256 ^ n) :
    p.readPackedUint64 n = some (value, p.advance n) := by
  have hread := h.tryRead
  rw [length_toLittleEndian] at hread
  rw [Payload.readPackedUint64, hread, Option.map_some, fromLittleEndian_toLittleEndian hn hvalue]

theorem Holds.readPackedUint64Unsafe {n : ℕ} {value : UInt64}
    (h : p.Holds (toLittleEndian n value ++ ys)) (hn : n ≤ 8) (hvalue : value.toNat < 256 ^ n) :
    p.readPackedUint64Unsafe n = (value, p.advance n) := by
  have hload := h.left.load
  rw [length_toLittleEndian] at hload
  rw [Payload.readPackedUint64Unsafe, hload, fromLittleEndian_toLittleEndian hn hvalue]

theorem Holds.readUint64 {value : UInt64} (h : p.Holds (toLittleEndian 8 value ++ ys)) :
    p.readUint64 = some (value, p.advance 8) :=
  h.readPackedUint64 (by decide) value.toNat_lt

theorem Holds.readUint32 {value : UInt32} (h : p.Holds (toLittleEndian 4 value.toUInt64 ++ ys)) :
    p.readUint32 = some (value, p.advance 4) := by
  have hread := h.tryRead
  rw [length_toLittleEndian] at hread
  rw [Payload.readUint32, hread, Option.map_some, fromLittleEndian_toLittleEndian (by decide)]
  · simp
  · rw [UInt32.toNat_toUInt64]
    exact value.toNat_lt

theorem Holds.readUint16 {value : UInt16} (h : p.Holds (toLittleEndian 2 value.toUInt64 ++ ys)) :
    p.readUint16 = some (value, p.advance 2) := by
  have hread := h.tryRead
  rw [length_toLittleEndian] at hread
  rw [Payload.readUint16, hread, Option.map_some, fromLittleEndian_toLittleEndian (by decide)]
  · simp
  · rw [UInt16.toNat_toUInt64]
    exact value.toNat_lt

theorem Holds.readUint8 {value : UInt8} (h : p.Holds ([value] ++ ys)) :
    p.readUint8 = some (value, p.advance 1) := by
  have hread := h.tryRead
  rw [Payload.readUint8, show (1 : ℕ) = [value].length from rfl, hread]
  simp [fromLittleEndian]

theorem Holds.readInt32 {value : Int32}
    (h : p.Holds (toLittleEndian 4 value.toUInt32.toUInt64 ++ ys)) :
    p.readInt32 = some (value, p.advance 4) := by
  rw [Payload.readInt32, h.readUint32]
  simp

theorem Holds.readInt64 {value : Int64} (h : p.Holds (toLittleEndian 8 value.toUInt64 ++ ys)) :
    p.readInt64 = some (value, p.advance 8) := by
  rw [Payload.readInt64, h.readUint64]
  simp

theorem Holds.readBuffer {n : ℕ} {value : Vector UInt8 n} (h : p.Holds (value.toList ++ ys)) :
    p.readBuffer n = some (value, p.advance n) := by
  obtain ⟨hfits, hload⟩ := h.left
  rw [Vector.length_toList] at hfits hload
  rw [Payload.readBuffer, if_neg (by omega), loadVector_eq hload]

theorem advance_advance (m n : ℕ) : (p.advance m).advance n = p.advance (m + n) := by
  simp [advance, Nat.add_assoc]

theorem readVector_eq {α : Type} {read : Payload → Option (α × Payload)} (default : α)
    (bytes : α → List UInt8)
    (hread : ∀ (p : Payload) x zs, p.Holds (bytes x ++ zs) →
      read p = some (x, p.advance (bytes x).length))
    {n : ℕ} (v : Vector α n) (h : p.Holds (v.toList.flatMap bytes ++ ys)) :
    readVector read default n p = (v, p.advance (v.toList.flatMap bytes).length) := by
  induction n generalizing ys with
  | zero =>
      obtain rfl := v.eq_empty
      rfl
  | succ n ih =>
      obtain ⟨w, x, rfl⟩ : ∃ (w : Vector α n) (x : α), v = w.push x :=
        ⟨v.pop, v.back, (Vector.push_pop_back v).symm⟩
      rw [Vector.toList_push, List.flatMap_append, List.flatMap_singleton, List.append_assoc] at h
      have hlast := hread _ x ys h.right
      simp only [readVector]
      rw [ih w h, hlast, Option.getD_some, Vector.toList_push, List.flatMap_append,
        List.flatMap_singleton, List.length_append, advance_advance]

end Held

end Payload

section PackedBytes

/-- `pomelo_payload_calc_packed_uint64_bytes`. -/
def calcPackedUint64Bytes (value : UInt64) : ℕ :=
  if value &&& 0xFFFFFFFF00000000 ≠ 0 then
    if value &&& 0xFFFF000000000000 ≠ 0 then
      if value &&& 0xFF00000000000000 ≠ 0 then 8 else 7
    else
      if value &&& 0xFFFFFF0000000000 ≠ 0 then 6 else 5
  else
    if value &&& 0xFFFF0000 ≠ 0 then
      if value &&& 0xFF000000 ≠ 0 then 4 else 3
    else
      if value &&& 0xFF00 ≠ 0 then 2 else 1

section Masks

theorem and_mask_eq_zero_iff {v lo hi : ℕ} (hv : v < 2 ^ hi) :
    v &&& ((2 ^ (hi - lo) - 1) <<< lo) = 0 ↔ v < 2 ^ lo := by
  constructor
  · intro hzero
    apply Nat.lt_pow_two_of_testBit
    intro i hi'
    by_cases hhigh : hi ≤ i
    · exact Nat.testBit_lt_two_pow (Nat.lt_of_lt_of_le hv (Nat.pow_le_pow_right (by decide) hhigh))
    · have hbit := congrArg (Nat.testBit · i) hzero
      have hmask : i - lo < hi - lo := by omega
      simpa [Nat.testBit_and, Nat.testBit_shiftLeft, Nat.testBit_two_pow_sub_one, hi', hmask]
        using hbit
  · intro hlow
    apply Nat.eq_of_testBit_eq
    intro i
    rw [Nat.testBit_and, Nat.testBit_shiftLeft, Nat.zero_testBit]
    by_cases hi' : lo ≤ i
    · rw [Nat.testBit_lt_two_pow (Nat.lt_of_lt_of_le hlow (Nat.pow_le_pow_right (by decide) hi')),
        Bool.false_and]
    · simp [hi']

theorem and_byteMask_ne_zero_iff {value mask : UInt64} (lo hi : ℕ)
    (hmask : mask.toNat = (2 ^ (8 * hi - 8 * lo) - 1) <<< (8 * lo)) (hv : value.toNat < 256 ^ hi) :
    value &&& mask ≠ 0 ↔ 256 ^ lo ≤ value.toNat := by
  have hpow (n : ℕ) : 256 ^ n = 2 ^ (8 * n) := by rw [Nat.pow_mul]
  rw [hpow] at hv
  rw [hpow, ← not_lt, ← and_mask_eq_zero_iff hv, ← hmask, ne_eq, ← UInt64.toNat_inj,
    UInt64.toNat_and]
  rfl

end Masks

theorem calcPackedUint64Bytes_eq_thresholds (value : UInt64) :
    calcPackedUint64Bytes value =
      if 256 ^ 4 ≤ value.toNat then
        if 256 ^ 6 ≤ value.toNat then
          if 256 ^ 7 ≤ value.toNat then 8 else 7
        else
          if 256 ^ 5 ≤ value.toNat then 6 else 5
      else
        if 256 ^ 2 ≤ value.toNat then
          if 256 ^ 3 ≤ value.toNat then 4 else 3
        else
          if 256 ^ 1 ≤ value.toNat then 2 else 1 := by
  have h8 : value.toNat < 256 ^ 8 := value.toNat_lt
  unfold calcPackedUint64Bytes
  refine ite_congr (propext (and_byteMask_ne_zero_iff 4 8 rfl h8)) (fun _ => ?_) fun h4 => ?_
  · refine if_congr (and_byteMask_ne_zero_iff 6 8 rfl h8) ?_ ?_
    · exact if_congr (and_byteMask_ne_zero_iff 7 8 rfl h8) rfl rfl
    · exact if_congr (and_byteMask_ne_zero_iff 5 8 rfl h8) rfl rfl
  · -- The masks of this half do not reach the upper bytes, which are zero here.
    rw [not_le] at h4
    refine ite_congr (propext (and_byteMask_ne_zero_iff 2 4 rfl h4)) (fun _ => ?_) fun h2 => ?_
    · exact if_congr (and_byteMask_ne_zero_iff 3 4 rfl h4) rfl rfl
    · rw [not_le] at h2
      exact if_congr (and_byteMask_ne_zero_iff 1 2 rfl h2) rfl rfl

theorem calcPackedUint64Bytes_spec (value : UInt64) :
    1 ≤ calcPackedUint64Bytes value ∧ calcPackedUint64Bytes value ≤ 8 ∧
      value.toNat < 256 ^ calcPackedUint64Bytes value ∧
      (calcPackedUint64Bytes value = 1 ∨
        256 ^ (calcPackedUint64Bytes value - 1) ≤ value.toNat) := by
  have h8 : value.toNat < 256 ^ 8 := value.toNat_lt
  rw [calcPackedUint64Bytes_eq_thresholds]
  split_ifs <;> omega

theorem calcPackedUint64Bytes_bounds (value : UInt64) :
    1 ≤ calcPackedUint64Bytes value ∧ calcPackedUint64Bytes value ≤ 8 ∧
      value.toNat < 256 ^ calcPackedUint64Bytes value := by
  obtain ⟨hone, hle, hfits, -⟩ := calcPackedUint64Bytes_spec value
  exact ⟨hone, hle, hfits⟩

theorem calcPackedUint64Bytes_le {value : UInt64} {n : ℕ} (hone : 1 ≤ n)
    (h : value.toNat < 256 ^ n) : calcPackedUint64Bytes value ≤ n := by
  obtain ⟨-, -, -, hmin⟩ := calcPackedUint64Bytes_spec value
  by_contra hlt
  have hpow : 256 ^ n ≤ 256 ^ (calcPackedUint64Bytes value - 1) :=
    Nat.pow_le_pow_right (by decide) (by omega)
  omega

theorem calcPackedUint64Bytes_le_two {value : UInt64} (h : value.toNat < 65536) :
    calcPackedUint64Bytes value ≤ 2 :=
  calcPackedUint64Bytes_le (by decide) h

theorem calcPackedUint64Bytes_eq_iff {value : UInt64} {n : ℕ} (hone : 1 ≤ n)
    (hvalue : value.toNat < 256 ^ n) :
    calcPackedUint64Bytes value = n ↔ n = 1 ∨ 256 ^ (n - 1) ≤ value.toNat := by
  obtain ⟨hpos, -, hfits, hmin⟩ := calcPackedUint64Bytes_spec value
  have hle := calcPackedUint64Bytes_le hone hvalue
  constructor
  · rintro rfl
    exact hmin
  · rintro (rfl | hpow)
    · exact Nat.le_antisymm hle hpos
    · refine Nat.le_antisymm hle (Nat.le_of_not_lt fun hlt => ?_)
      have hmono : 256 ^ calcPackedUint64Bytes value ≤ 256 ^ (n - 1) :=
        Nat.pow_le_pow_right (by decide) (Nat.le_sub_one_of_lt hlt)
      exact absurd (Nat.le_trans hmono hpow) (Nat.not_le_of_lt hfits)

end PackedBytes

end PomeloUdp
