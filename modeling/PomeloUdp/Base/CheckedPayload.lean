import PomeloUdp.Base.Payload

/-!
# Payloads in machine arithmetic

`Window` is `pomelo_payload_t` again, with its position and capacity as the
64-bit numbers that they are. The bound tests of most operations add a size to
the position in this arithmetic, so that a size near the largest one wraps around
and passes; `zero_pad` and the packed integers subtract instead. An operation
reports the indices of the bytes that it touches.

As long as nothing wraps, a window behaves like a `Payload`.
-/

namespace PomeloUdp

open LittleEndian

/-- `pomelo_payload_t`. The memory is indexed from its data pointer on. -/
structure Window where
  memory : UInt64 → UInt8
  position : UInt64
  capacity : UInt64

/-- What an operation does. The value is `none` when it returns -1, and the
indices are those of the bytes of the payload that it reads or writes. -/
structure Outcome (α : Type) where
  value : Option α
  window : Window
  touched : List UInt64

/-- The same operation with another value. -/
def Outcome.map {α β : Type} (f : α → β) (outcome : Outcome α) : Outcome β :=
  ⟨outcome.value.map f, outcome.window, outcome.touched⟩

namespace Window

variable (w : Window)

/-- The indices of `n` bytes from the position on. -/
def indices (n : ℕ) : List UInt64 := (List.range n).map fun i => w.position + .ofNat i

/-- Returning -1. -/
def fail {α : Type} : Outcome α := ⟨none, w, []⟩

/-- Writing bytes and moving the position behind them. -/
def put (bytes : List UInt8) : Outcome Unit :=
  ⟨some (),
    { w with
      memory := fun i => bytes[(i - w.position).toNat]?.getD (w.memory i)
      position := w.position + .ofNat bytes.length },
    w.indices bytes.length⟩

/-- Reading bytes and moving the position behind them. -/
def get (n : ℕ) : Outcome (List UInt8) :=
  ⟨some ((w.indices n).map w.memory), { w with position := w.position + .ofNat n }, w.indices n⟩

/-- Writing bytes after the test that the position and their number stay within
the capacity. -/
def tryPut (bytes : List UInt8) : Outcome Unit :=
  if w.capacity < w.position + .ofNat bytes.length then w.fail else w.put bytes

/-- Reading bytes after the same test. -/
def tryGet (n : ℕ) : Outcome (List UInt8) :=
  if w.capacity < w.position + .ofNat n then w.fail else w.get n

section Writing

/-- `pomelo_payload_write_uint8`. -/
def writeUint8 (value : UInt8) : Outcome Unit := w.tryPut [value]

/-- `pomelo_payload_write_uint16`. -/
def writeUint16 (value : UInt16) : Outcome Unit := w.tryPut (toLittleEndian 2 value.toUInt64)

/-- `pomelo_payload_write_uint32`. -/
def writeUint32 (value : UInt32) : Outcome Unit := w.tryPut (toLittleEndian 4 value.toUInt64)

/-- `pomelo_payload_write_uint64`. -/
def writeUint64 (value : UInt64) : Outcome Unit := w.tryPut (toLittleEndian 8 value)

/-- `pomelo_payload_write_int8`. -/
def writeInt8 (value : Int8) : Outcome Unit := w.writeUint8 value.toUInt8

/-- `pomelo_payload_write_int16`. -/
def writeInt16 (value : Int16) : Outcome Unit := w.writeUint16 value.toUInt16

/-- `pomelo_payload_write_int32`. -/
def writeInt32 (value : Int32) : Outcome Unit := w.writeUint32 value.toUInt32

/-- `pomelo_payload_write_int64`. -/
def writeInt64 (value : Int64) : Outcome Unit := w.writeUint64 value.toUInt64

/-- `pomelo_payload_write_float32` of a number with these bits. -/
def writeFloat32 (bits : UInt32) : Outcome Unit := w.writeUint32 bits

/-- `pomelo_payload_write_float64` of a number with these bits. -/
def writeFloat64 (bits : UInt64) : Outcome Unit := w.writeUint64 bits

/-- `pomelo_payload_write_buffer`. -/
def writeBuffer (buffer : UInt64 → UInt8) (size : UInt64) : Outcome Unit :=
  if size = 0 then ⟨some (), w, []⟩
  else w.tryPut ((List.range size.toNat).map fun i => buffer (.ofNat i))

/-- `pomelo_payload_zero_pad`. -/
def zeroPad (padSize : UInt64) : Outcome Unit :=
  if w.capacity < padSize then w.fail
  else if padSize ≤ w.position then ⟨some (), w, []⟩
  else
    let remain := padSize - w.position
    if w.capacity - w.position < remain then w.fail
    else
      let padded := w.put (List.replicate remain.toNat 0)
      { padded with window := { padded.window with position := padSize } }

end Writing

section Reading

/-- `pomelo_payload_read_uint8`. -/
def readUint8 : Outcome UInt8 := (w.tryGet 1).map fun bytes => (fromLittleEndian 0 0 bytes).toUInt8

/-- `pomelo_payload_read_uint16`. -/
def readUint16 : Outcome UInt16 :=
  (w.tryGet 2).map fun bytes => (fromLittleEndian 0 0 bytes).toUInt16

/-- `pomelo_payload_read_uint32`. -/
def readUint32 : Outcome UInt32 :=
  (w.tryGet 4).map fun bytes => (fromLittleEndian 0 0 bytes).toUInt32

/-- `pomelo_payload_read_uint64`. -/
def readUint64 : Outcome UInt64 := (w.tryGet 8).map (fromLittleEndian 0 0)

/-- `pomelo_payload_read_int8`. -/
def readInt8 : Outcome Int8 := w.readUint8.map UInt8.toInt8

/-- `pomelo_payload_read_int16`. -/
def readInt16 : Outcome Int16 := w.readUint16.map UInt16.toInt16

/-- `pomelo_payload_read_int32`. -/
def readInt32 : Outcome Int32 := w.readUint32.map UInt32.toInt32

/-- `pomelo_payload_read_int64`. -/
def readInt64 : Outcome Int64 := w.readUint64.map UInt64.toInt64

/-- `pomelo_payload_read_float32`, the bits of the number. -/
def readFloat32 : Outcome UInt32 := w.readUint32

/-- `pomelo_payload_read_float64`, the bits of the number. -/
def readFloat64 : Outcome UInt64 := w.readUint64

/-- `pomelo_payload_read_buffer`. -/
def readBuffer (size : UInt64) : Outcome (List UInt8) := w.tryGet size.toNat

end Reading

section Packed

/-- `pomelo_payload_write_uint8_unsafe`. -/
def writeUint8Unsafe (value : UInt8) : Outcome Unit := w.put [value]

/-- `pomelo_payload_read_uint8_unsafe`. -/
def readUint8Unsafe : Outcome UInt8 :=
  (w.get 1).map fun bytes => (fromLittleEndian 0 0 bytes).toUInt8

/-- The loop that writes the low bytes of a number. -/
def writePackedLoop : ℕ → UInt64 → Window → Outcome Unit
  | 0, _, w => ⟨some (), w, []⟩
  | n + 1, value, w =>
      let first := w.writeUint8Unsafe (value &&& 0xFF).toUInt8
      let rest := writePackedLoop n (value >>> 8) first.window
      ⟨some (), rest.window, first.touched ++ rest.touched⟩

/-- The loop that reads `n` bytes into a number, from byte `i` on. Shifts are those
of the machine, which takes the amount modulo 64. -/
def readPackedLoop : (n i : ℕ) → UInt64 → Window → Outcome UInt64
  | 0, _, value, w => ⟨some value, w, []⟩
  | n + 1, i, value, w =>
      let byte := w.readUint8Unsafe
      let rest := readPackedLoop n (i + 1)
        (value ||| (byte.value.getD 0).toUInt64 <<< (UInt64.ofNat (i * 8))) byte.window
      ⟨rest.value, rest.window, byte.touched ++ rest.touched⟩

/-- `pomelo_payload_write_packed_uint64_unsafe`. -/
def writePackedUint64Unsafe (bytes value : UInt64) : Outcome Unit :=
  writePackedLoop bytes.toNat value w

/-- `pomelo_payload_read_packed_uint64_unsafe`. -/
def readPackedUint64Unsafe (bytes : UInt64) : Outcome UInt64 := readPackedLoop bytes.toNat 0 0 w

/-- `pomelo_payload_write_packed_uint64`. -/
def writePackedUint64 (bytes value : UInt64) : Outcome Unit :=
  if w.capacity - w.position < bytes then w.fail else writePackedLoop bytes.toNat value w

/-- `pomelo_payload_read_packed_uint64`. -/
def readPackedUint64 (bytes : UInt64) : Outcome UInt64 :=
  if w.capacity - w.position < bytes then w.fail else readPackedLoop bytes.toNat 0 0 w

end Packed

section Bytes

variable {w : Window} {xs ys : List UInt8}

@[simp] theorem length_indices (w : Window) (n : ℕ) : (w.indices n).length = n := by
  simp [indices]

theorem mem_indices {n : ℕ} {i : UInt64} :
    i ∈ w.indices n ↔ ∃ k < n, w.position + .ofNat k = i := by
  simp [indices]

@[simp] theorem indices_zero (w : Window) : w.indices 0 = [] := rfl

theorem indices_add {w w' : Window} {m n : ℕ} (h : w'.position = w.position + .ofNat m) :
    w.indices (m + n) = w.indices m ++ w'.indices n := by
  simp only [indices, List.range_add, List.map_append, List.map_map]
  congr 1
  apply List.map_congr_left
  intro i _
  simp [h, UInt64.ofNat_add, UInt64.add_assoc]

theorem put_nil (w : Window) : w.put [] = ⟨some (), w, []⟩ := by
  simp [put, indices]

theorem window_put_put (h : xs.length + ys.length ≤ 2 ^ 64) :
    ((w.put xs).window.put ys).window = (w.put (xs ++ ys)).window := by
  simp only [put, Window.mk.injEq, and_true]
  constructor
  · funext i
    have hsub : (i - (w.position + .ofNat xs.length)).toNat =
        (2 ^ 64 - xs.length % 2 ^ 64 + (i - w.position).toNat) % 2 ^ 64 := by
      have hi := i.toNat_lt
      have hposition := w.position.toNat_lt
      simp only [UInt64.toNat_sub, UInt64.toNat_add, UInt64.toNat_ofNat']
      omega
    have hlt := (i - w.position).toNat_lt
    by_cases hleft : (i - w.position).toNat < xs.length
    · have hout : ys.length ≤ (i - (w.position + .ofNat xs.length)).toNat := by
        rw [hsub]
        omega
      rw [List.getElem?_eq_none hout, List.getElem?_append_left hleft]
      rfl
    · have hin : (i - (w.position + .ofNat xs.length)).toNat =
          (i - w.position).toNat - xs.length := by
        rw [hsub]
        omega
      rw [hin, List.getElem?_append_right (Nat.not_lt.mp hleft),
        List.getElem?_eq_none (l := xs) (Nat.not_lt.mp hleft)]
      rfl
  · simp [UInt64.ofNat_add, UInt64.add_assoc]

theorem map_memory_put (h : xs.length ≤ 2 ^ 64) :
    (w.indices xs.length).map (w.put xs).window.memory = xs := by
  apply List.ext_getElem
  · simp
  · intro i hi hi'
    have hindex : (w.position + .ofNat i - w.position).toNat = i := by
      rw [UInt64.add_comm, UInt64.add_sub_cancel]
      exact UInt64.toNat_ofNat_of_lt' (Nat.lt_of_lt_of_le hi' h)
    simp only [indices, put, List.getElem_map, List.getElem_range]
    rw [hindex, List.getElem?_eq_getElem hi', Option.getD_some]

end Bytes

section Loops

variable {w : Window}

theorem and_mask_toUInt8 (value : UInt64) : (value &&& 0xFF).toUInt8 = value.toUInt8 := by
  have hmask : (0xFF : UInt64).toNat = 2 ^ 8 - 1 := rfl
  apply UInt8.toNat_inj.mp
  rw [UInt64.toNat_toUInt8, UInt64.toNat_and, UInt64.toNat_toUInt8, hmask,
    Nat.and_two_pow_sub_one_eq_mod, Nat.mod_mod]

theorem writePackedLoop_eq {n : ℕ} (h : n ≤ 2 ^ 64) (value : UInt64) (w : Window) :
    writePackedLoop n value w = w.put (toLittleEndian n value) := by
  induction n generalizing value w with
  | zero => exact (put_nil w).symm
  | succ n ih =>
      have hwindow : ((w.put [value.toUInt8]).window.put (toLittleEndian n (value >>> 8))).window =
          (w.put (toLittleEndian (n + 1) value)).window :=
        window_put_put (by simpa [Nat.add_comm] using h)
      have htouched : w.indices (n + 1) =
          w.indices 1 ++ (w.put [value.toUInt8]).window.indices n :=
        Nat.add_comm n 1 ▸ indices_add rfl
      rw [writePackedLoop, ih (Nat.le_of_succ_le h), writeUint8Unsafe, and_mask_toUInt8]
      rw [hwindow]
      simp only [put, length_toLittleEndian, List.length_singleton] at htouched ⊢
      rw [← htouched]

theorem readPackedLoop_eq (n i : ℕ) (value : UInt64) (w : Window) :
    readPackedLoop n i value w = (w.get n).map (fromLittleEndian i value) := by
  induction n generalizing i value w with
  | zero => simp [readPackedLoop, get, Outcome.map, indices, fromLittleEndian]
  | succ n ih =>
      have hbyte : w.readUint8Unsafe =
          ⟨some (w.memory w.position), (w.get 1).window, w.indices 1⟩ := by
        simp [readUint8Unsafe, get, Outcome.map, indices, fromLittleEndian]
      have hindices : w.indices (1 + n) = w.indices 1 ++ (w.get 1).window.indices n :=
        indices_add rfl
      have hposition : w.position + .ofNat 1 + .ofNat n = w.position + .ofNat (n + 1) := by
        rw [Nat.add_comm n 1, UInt64.ofNat_add, UInt64.add_assoc]
      rw [readPackedLoop, ih, hbyte]
      simp only [get, Outcome.map, Option.map_some, Option.getD_some] at hindices ⊢
      rw [Nat.add_comm n 1, hindices, Nat.add_comm 1 n, hposition]
      simp [indices, fromLittleEndian]

end Loops

end Window

/-- A call of a checked operation with what it gives back. -/
inductive PayloadCall where
  | writeUint8 (value : UInt8)
  | writeUint16 (value : UInt16)
  | writeUint32 (value : UInt32)
  | writeUint64 (value : UInt64)
  | writeInt8 (value : Int8)
  | writeInt16 (value : Int16)
  | writeInt32 (value : Int32)
  | writeInt64 (value : Int64)
  | writeFloat32 (bits : UInt32)
  | writeFloat64 (bits : UInt64)
  | writeBuffer (buffer : UInt64 → UInt8) (size : UInt64)
  | zeroPad (padSize : UInt64)
  | writePackedUint64 (bytes value : UInt64)
  | readUint8
  | readUint16
  | readUint32
  | readUint64
  | readInt8
  | readInt16
  | readInt32
  | readInt64
  | readFloat32
  | readFloat64
  | readBuffer (size : UInt64)
  | readPackedUint64 (bytes : UInt64)

namespace PayloadCall

/-- Making the call; only what becomes of the payload is kept. -/
def run (w : Window) : PayloadCall → Outcome Unit
  | writeUint8 value => w.writeUint8 value
  | writeUint16 value => w.writeUint16 value
  | writeUint32 value => w.writeUint32 value
  | writeUint64 value => w.writeUint64 value
  | writeInt8 value => w.writeInt8 value
  | writeInt16 value => w.writeInt16 value
  | writeInt32 value => w.writeInt32 value
  | writeInt64 value => w.writeInt64 value
  | writeFloat32 bits => w.writeFloat32 bits
  | writeFloat64 bits => w.writeFloat64 bits
  | writeBuffer buffer size => w.writeBuffer buffer size
  | zeroPad padSize => w.zeroPad padSize
  | writePackedUint64 bytes value => w.writePackedUint64 bytes value
  | readUint8 => w.readUint8.map fun _ => ()
  | readUint16 => w.readUint16.map fun _ => ()
  | readUint32 => w.readUint32.map fun _ => ()
  | readUint64 => w.readUint64.map fun _ => ()
  | readInt8 => w.readInt8.map fun _ => ()
  | readInt16 => w.readInt16.map fun _ => ()
  | readInt32 => w.readInt32.map fun _ => ()
  | readInt64 => w.readInt64.map fun _ => ()
  | readFloat32 => w.readFloat32.map fun _ => ()
  | readFloat64 => w.readFloat64.map fun _ => ()
  | readBuffer size => (w.readBuffer size).map fun _ => ()
  | readPackedUint64 bytes => (w.readPackedUint64 bytes).map fun _ => ()

/-- What the bound test of the call adds to the position. The tests that subtract
add nothing. -/
def added : PayloadCall → ℕ
  | writeUint8 _ | writeInt8 _ | readUint8 | readInt8 => 1
  | writeUint16 _ | writeInt16 _ | readUint16 | readInt16 => 2
  | writeUint32 _ | writeInt32 _ | writeFloat32 _ | readUint32 | readInt32 | readFloat32 => 4
  | writeUint64 _ | writeInt64 _ | writeFloat64 _ | readUint64 | readInt64 | readFloat64 => 8
  | writeBuffer _ size | readBuffer size => size.toNat
  | zeroPad _ | writePackedUint64 _ _ | readPackedUint64 _ => 0

end PayloadCall

/-- What a checked operation owes: it stays below the capacity, moves the position
behind the bytes that it moved, and leaves everything alone when it fails. -/
structure Careful {α : Type} (w : Window) (outcome : Outcome α) : Prop where
  inside : ∀ i ∈ outcome.touched, i < w.capacity
  advanced : outcome.value.isSome →
    outcome.window.position.toNat = w.position.toNat + outcome.touched.length
  unchanged : outcome.value = none → outcome.window = w

section Careful

variable {w : Window} {α β : Type}

theorem careful_fail : Careful w (w.fail : Outcome α) :=
  ⟨by simp [Window.fail], by simp [Window.fail], fun _ => rfl⟩

theorem careful_map {outcome : Outcome α} (f : α → β) :
    Careful w (outcome.map f) ↔ Careful w outcome := by
  constructor
  · rintro ⟨inside, advanced, unchanged⟩
    exact ⟨inside, by simpa [Outcome.map] using advanced, by simpa [Outcome.map] using unchanged⟩
  · rintro ⟨inside, advanced, unchanged⟩
    exact ⟨inside, by simpa [Outcome.map] using advanced, by simpa [Outcome.map] using unchanged⟩

theorem toNat_position_add {n : ℕ} (h : w.position.toNat + n < 2 ^ 64) :
    (w.position + .ofNat n).toNat = w.position.toNat + n := by
  rw [UInt64.toNat_add, UInt64.toNat_ofNat']
  omega

theorem lt_capacity_of_mem_indices {n : ℕ} (h : w.position.toNat + n ≤ w.capacity.toNat)
    {i : UInt64} (hi : i ∈ w.indices n) : i < w.capacity := by
  obtain ⟨k, hk, rfl⟩ := Window.mem_indices.mp hi
  have hcapacity := w.capacity.toNat_lt
  rw [UInt64.lt_iff_toNat_lt, toNat_position_add (by omega)]
  omega

theorem careful_of_room {n : ℕ} (h : w.position.toNat + n ≤ w.capacity.toNat) {value : Option α}
    {memory : UInt64 → UInt8} (hvalue : value.isSome) :
    Careful w ⟨value, ⟨memory, w.position + .ofNat n, w.capacity⟩, w.indices n⟩ := by
  have hcapacity := w.capacity.toNat_lt
  refine ⟨fun _ hi => lt_capacity_of_mem_indices h hi, fun _ => ?_, ?_⟩
  · rw [Window.length_indices]
    exact toNat_position_add (by omega)
  · rintro (rfl : value = none)
    cases hvalue

theorem careful_test_iff (h : w.position ≤ w.capacity) {n : ℕ} (hn : n < 2 ^ 64)
    {outcome : Outcome α} (hvalue : outcome.value.isSome)
    (hposition : outcome.window.position = w.position + .ofNat n)
    (htouched : outcome.touched = w.indices n) (hcapacity : outcome.window.capacity = w.capacity) :
    Careful w (if w.capacity < w.position + .ofNat n then w.fail else outcome) ↔
      w.position.toNat + n < 2 ^ 64 := by
  rw [UInt64.le_iff_toNat_le] at h
  have hbound := w.capacity.toNat_lt
  have hsum : (w.position + .ofNat n).toNat = (w.position.toNat + n) % 2 ^ 64 := by
    rw [UInt64.toNat_add, UInt64.toNat_ofNat']
    omega
  constructor
  · intro hcareful
    by_contra hwraps
    have htest : ¬w.capacity < w.position + .ofNat n := by
      rw [UInt64.lt_iff_toNat_lt, hsum]
      omega
    rw [if_neg htest] at hcareful
    have hadvanced := hcareful.advanced hvalue
    rw [hposition, htouched, Window.length_indices, hsum] at hadvanced
    omega
  · intro hfits
    split
    · exact careful_fail
    · rename_i htest
      rw [UInt64.lt_iff_toNat_lt, hsum, Nat.mod_eq_of_lt hfits] at htest
      obtain ⟨value, ⟨memory, position, capacity⟩, touched⟩ := outcome
      obtain rfl := hposition
      obtain rfl := htouched
      obtain rfl := hcapacity
      exact careful_of_room (by omega) hvalue

theorem careful_tryPut_iff (h : w.position ≤ w.capacity) {bytes : List UInt8}
    (hn : bytes.length < 2 ^ 64) :
    Careful w (w.tryPut bytes) ↔ w.position.toNat + bytes.length < 2 ^ 64 :=
  careful_test_iff h hn rfl rfl rfl rfl

theorem careful_tryGet_iff (h : w.position ≤ w.capacity) {n : ℕ} (hn : n < 2 ^ 64) :
    Careful w (w.tryGet n) ↔ w.position.toNat + n < 2 ^ 64 :=
  careful_test_iff h hn rfl rfl rfl rfl

theorem careful_zeroPad (w : Window) (padSize : UInt64) : Careful w (w.zeroPad padSize) := by
  unfold Window.zeroPad
  split
  · exact careful_fail
  rename_i hcapacity
  split
  · exact ⟨by simp, by simp, fun _ => rfl⟩
  rename_i hposition
  rw [UInt64.lt_iff_toNat_lt] at hcapacity
  rw [UInt64.le_iff_toNat_le] at hposition
  have hremain : (padSize - w.position).toNat = padSize.toNat - w.position.toNat := by
    rw [UInt64.toNat_sub_of_le]
    rw [UInt64.le_iff_toNat_le]
    omega
  dsimp only
  split
  · exact careful_fail
  · refine ⟨fun i hi => ?_, fun _ => ?_, by simp [Window.put]⟩
    · rw [Window.put, List.length_replicate, hremain] at hi
      exact lt_capacity_of_mem_indices (by omega) hi
    · simp only [Window.put, List.length_replicate, Window.length_indices, hremain]
      omega

theorem toNat_remain (h : w.position ≤ w.capacity) :
    (w.capacity - w.position).toNat = w.capacity.toNat - w.position.toNat :=
  UInt64.toNat_sub_of_le _ _ h

theorem careful_writePackedUint64 (h : w.position ≤ w.capacity) (bytes value : UInt64) :
    Careful w (w.writePackedUint64 bytes value) := by
  unfold Window.writePackedUint64
  split
  · exact careful_fail
  · rename_i hremain
    have hbytes := bytes.toNat_lt
    rw [UInt64.lt_iff_toNat_lt, toNat_remain h] at hremain
    rw [UInt64.le_iff_toNat_le] at h
    rw [Window.writePackedLoop_eq (by omega), Window.put, length_toLittleEndian]
    exact careful_of_room (by omega) rfl

theorem careful_readPackedUint64 (h : w.position ≤ w.capacity) (bytes : UInt64) :
    Careful w (w.readPackedUint64 bytes) := by
  unfold Window.readPackedUint64
  split
  · exact careful_fail
  · rename_i hremain
    rw [UInt64.lt_iff_toNat_lt, toNat_remain h] at hremain
    rw [UInt64.le_iff_toNat_le] at h
    rw [Window.readPackedLoop_eq, careful_map, Window.get]
    exact careful_of_room (by omega) rfl

theorem careful_writeBuffer_iff (h : w.position ≤ w.capacity) (buffer : UInt64 → UInt8)
    (size : UInt64) :
    Careful w (w.writeBuffer buffer size) ↔ w.position.toNat + size.toNat < 2 ^ 64 := by
  have hsize := size.toNat_lt
  have hposition := w.position.toNat_lt
  unfold Window.writeBuffer
  split
  · rename_i hzero
    subst hzero
    exact iff_of_true ⟨by simp, by simp, fun _ => rfl⟩ (by simpa using hposition)
  · rw [careful_tryPut_iff h (by simpa using hsize), List.length_map, List.length_range]

end Careful

/-- A checked operation does what it owes exactly when the sum in its bound test
does not wrap around. -/
theorem payloadCall_careful_iff (w : Window) (h : w.position ≤ w.capacity) (call : PayloadCall) :
    Careful w (call.run w) ↔ w.position.toNat + call.added < 2 ^ 64 := by
  have hposition := w.position.toNat_lt
  have hput (bytes : List UInt8) (hbytes : bytes.length < 2 ^ 64) := careful_tryPut_iff h hbytes
  have hget (n : ℕ) (hn : n < 2 ^ 64) := careful_tryGet_iff h hn
  cases call with
  | writeUint8 | writeInt8 => exact hput [_] (by simp)
  | writeUint16 | writeInt16 | writeUint32 | writeInt32 | writeFloat32 | writeUint64 | writeInt64 |
    writeFloat64 => exact hput (toLittleEndian _ _) (by simp)
  | writeBuffer buffer size => exact careful_writeBuffer_iff h buffer size
  | zeroPad padSize => exact iff_of_true (careful_zeroPad w padSize) hposition
  | writePackedUint64 bytes value =>
      exact iff_of_true (careful_writePackedUint64 h bytes value) hposition
  | readUint8 | readUint16 | readUint32 | readUint64 | readFloat32 | readFloat64 =>
      exact (careful_map _).trans ((careful_map _).trans (hget _ (by decide)))
  | readInt8 | readInt16 | readInt32 | readInt64 =>
      exact (careful_map _).trans ((careful_map _).trans
        ((careful_map _).trans (hget _ (by decide))))
  | readBuffer size => exact (careful_map _).trans (hget _ size.toNat_lt)
  | readPackedUint64 bytes =>
      exact iff_of_true ((careful_map _).mpr (careful_readPackedUint64 h bytes)) hposition

theorem payloadCall_careful_iff_buffer :
    Careful ⟨fun _ => 0, 1, 16⟩
        (PayloadCall.run ⟨fun _ => 0, 1, 16⟩ (.writeBuffer (fun _ => 7) 15)) ↔
      1 + 15 < 2 ^ 64 :=
  payloadCall_careful_iff ⟨fun _ => 0, 1, 16⟩ (by decide) (.writeBuffer (fun _ => 7) 15)

/-- Writing 2 ^ 64 - 1 bytes at position 1 passes the bound test of 16 bytes. -/
theorem writeBuffer_careless :
    ¬∀ w : Window, w.position ≤ w.capacity → ∀ call : PayloadCall, Careful w (call.run w) := by
  intro hclaim
  have hcareful := hclaim ⟨fun _ => 0, 1, 16⟩ (by decide)
    (.writeBuffer (fun _ => 7) 0xFFFFFFFFFFFFFFFF)
  rw [PayloadCall.run, careful_writeBuffer_iff (by decide)] at hcareful
  exact absurd hcareful (by decide)

/-- A payload with the bytes, the position and the capacity of a window. -/
structure Window.Represents (w : Window) (p : Payload) : Prop where
  memory : ∀ i : UInt64, w.memory i = p.memory (p.data + i.toNat)
  position : w.position.toNat = p.position
  capacity : w.capacity.toNat = p.capacity

section Represents

variable {w : Window} {p : Payload}

theorem Window.Represents.test_iff (h : w.Represents p) {n : ℕ} (hn : p.position + n < 2 ^ 64) :
    w.capacity < w.position + .ofNat n ↔ p.capacity < p.position + n := by
  rw [UInt64.lt_iff_toNat_lt, toNat_position_add (h.position.symm ▸ hn), h.position, h.capacity]

theorem Window.Represents.put (h : w.Represents p) {bytes : List UInt8}
    (hn : p.position + bytes.length < 2 ^ 64) :
    (w.put bytes).window.Represents (p.write bytes) := by
  have hposition := toNat_position_add (w := w) (n := bytes.length) (h.position.symm ▸ hn)
  refine ⟨fun i => ?_, hposition.trans (by rw [h.position]; rfl), h.capacity⟩
  have hi := i.toNat_lt
  have hw := h.position
  simp only [Window.put, Payload.write, Memory.store, Payload.address, h.memory i]
  by_cases hbelow : i.toNat < w.position.toNat
  · -- A byte before the position lies behind all others in the ring of indices.
    have hfar : bytes.length ≤ (i - w.position).toNat := by
      rw [UInt64.toNat_sub]
      omega
    rw [List.getElem?_eq_none hfar, if_pos (by omega)]
    rfl
  · have hindex : (i - w.position).toNat = p.data + i.toNat - (p.data + p.position) := by
      rw [UInt64.toNat_sub_of_le _ _ (UInt64.le_iff_toNat_le.mpr (by omega))]
      omega
    rw [if_neg (by omega), hindex]

theorem Window.Represents.tryPut (h : w.Represents p) {bytes : List UInt8}
    (hn : p.position + bytes.length < 2 ^ 64) :
    (p.tryWrite bytes = none ∧ w.tryPut bytes = w.fail) ∨
      ∃ p', p.tryWrite bytes = some p' ∧ (w.tryPut bytes).value = some () ∧
        (w.tryPut bytes).window.Represents p' := by
  rw [Payload.tryWrite, Window.tryPut]
  by_cases htest : p.capacity < p.position + bytes.length
  · rw [if_pos htest, if_pos ((h.test_iff hn).mpr htest)]
    exact .inl ⟨rfl, rfl⟩
  · rw [if_neg htest, if_neg (mt (h.test_iff hn).mp htest)]
    exact .inr ⟨_, rfl, rfl, h.put hn⟩

theorem Window.Represents.tryGet (h : w.Represents p) {n : ℕ} (hn : p.position + n < 2 ^ 64) :
    (p.tryRead n = none ∧ w.tryGet n = w.fail) ∨
      ∃ bytes p', p.tryRead n = some (bytes, p') ∧ (w.tryGet n).value = some bytes ∧
        (w.tryGet n).window.Represents p' := by
  rw [Payload.tryRead, Window.tryGet]
  by_cases htest : p.capacity < p.position + n
  · rw [if_pos htest, if_pos ((h.test_iff hn).mpr htest)]
    exact .inl ⟨rfl, rfl⟩
  · rw [if_neg htest, if_neg (mt (h.test_iff hn).mp htest)]
    refine .inr ⟨_, _, rfl, ?_, h.memory, ?_, h.capacity⟩
    · simp only [Window.get, Window.indices, Memory.load, List.map_map]
      congr 1
      apply List.map_congr_left
      intro i hi
      have hlt := List.mem_range.mp hi
      rw [Function.comp_apply, h.memory, toNat_position_add (by rw [h.position]; omega),
        h.position, Payload.address, Nat.add_assoc]
    · exact (toNat_position_add (h.position.symm ▸ hn)).trans (by rw [h.position]; rfl)

end Represents

end PomeloUdp
