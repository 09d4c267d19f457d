import PomeloUdp.Api.MessageContent

/-!
# Reading messages

`readValues` reads values of given types one after the other. A message that was written and
packed, or received, gives back the values that were written (`Ahead.readValues`), and no byte
behind them (`Ahead.readBuffer_of_lt`). A read of the right length never fails and never
meets the assertion of the reader, because no empty chunk stands before one that is not.
-/

namespace PomeloUdp

namespace Api

open Delivery LittleEndian

/-- `pomelo_message_t`: its mode, and its reader, which counts in the read mode. -/
structure ReadMessage where
  mode : MessageMode
  reader : Reader

/-- What a read does. -/
inductive MessageReadResult (α : Type) where
  | ok (value : α) (message : ReadMessage)
  | messageRead
  | messageUnderflow (message : ReadMessage)
  /-- The assertion of the reader fails. -/
  | assertion

namespace MessageReadResult

variable {α β : Type}

/-- The value converted. -/
def map (f : α → β) : MessageReadResult α → MessageReadResult β
  | .ok value message => .ok (f value) message
  | .messageRead => .messageRead
  | .messageUnderflow message => .messageUnderflow message
  | .assertion => .assertion

/-- Another read behind one that succeeds. -/
def bind (r : MessageReadResult α) (f : α → ReadMessage → MessageReadResult β) :
    MessageReadResult β :=
  match r with
  | .ok value message => f value message
  | .messageRead => .messageRead
  | .messageUnderflow message => .messageUnderflow message
  | .assertion => .assertion

end MessageReadResult

/-- `pomelo_message_pack`. -/
def Message.pack (m : Message) : ReadMessage where
  mode := .read
  reader := Reader.init (m.writer.chunks.map Chunk.content)

namespace ReadMessage

/-- `pomelo_message_init` in the read mode, with a parcel that holds these chunks. -/
def init (chunks : List Bytes) : ReadMessage := ⟨.read, Reader.init chunks⟩

variable (m : ReadMessage)

/-- `pomelo_message_size` in the read mode. -/
def size : ℕ := m.reader.remainBytes

/-- `pomelo_message_read_buffer`. -/
def readBuffer (length : ℕ) : MessageReadResult Bytes :=
  if m.mode ≠ .read then .messageRead
  else
    match m.reader.readChecked length with
    | .read bytes reader => .ok bytes { m with reader }
    | .failed reader => .messageUnderflow { m with reader }
    | .assertion => .assertion

/-- `pomelo_message_read_uint8`. -/
def readUint8 : MessageReadResult UInt8 :=
  (m.readBuffer 1).map fun bytes => (fromLittleEndian 0 0 bytes).toUInt8

/-- `pomelo_message_read_uint16`. -/
def readUint16 : MessageReadResult UInt16 :=
  (m.readBuffer 2).map fun bytes => (fromLittleEndian 0 0 bytes).toUInt16

/-- `pomelo_message_read_uint32`. -/
def readUint32 : MessageReadResult UInt32 :=
  (m.readBuffer 4).map fun bytes => (fromLittleEndian 0 0 bytes).toUInt32

/-- `pomelo_message_read_uint64`. -/
def readUint64 : MessageReadResult UInt64 := (m.readBuffer 8).map (fromLittleEndian 0 0)

/-- `pomelo_message_read_int8`. -/
def readInt8 : MessageReadResult Int8 := m.readUint8.map UInt8.toInt8

/-- `pomelo_message_read_int16`. -/
def readInt16 : MessageReadResult Int16 := m.readUint16.map UInt16.toInt16

/-- `pomelo_message_read_int32`. -/
def readInt32 : MessageReadResult Int32 := m.readUint32.map UInt32.toInt32

/-- `pomelo_message_read_int64`. -/
def readInt64 : MessageReadResult Int64 := m.readUint64.map UInt64.toInt64

/-- `pomelo_message_read_float32`, with the bits of the value. -/
def readFloat32 : MessageReadResult UInt32 := m.readUint32

/-- `pomelo_message_read_float64`, with the bits of the value. -/
def readFloat64 : MessageReadResult UInt64 := m.readUint64

end ReadMessage

/-- The reads of the application; a buffer has the length that is asked for. -/
inductive MessageRead where
  | buffer (length : ℕ)
  | uint8
  | uint16
  | uint32
  | uint64
  | int8
  | int16
  | int32
  | int64
  | float32
  | float64
  deriving DecidableEq, Repr

/-- The read that goes with a write. -/
def MessageWrite.toRead : MessageWrite → MessageRead
  | .buffer bytes => .buffer bytes.length
  | .uint8 _ => .uint8
  | .uint16 _ => .uint16
  | .uint32 _ => .uint32
  | .uint64 _ => .uint64
  | .int8 _ => .int8
  | .int16 _ => .int16
  | .int32 _ => .int32
  | .int64 _ => .int64
  | .float32 _ => .float32
  | .float64 _ => .float64

/-- The call of the application, with the write that would have written the value. -/
def MessageRead.perform (m : ReadMessage) : MessageRead → MessageReadResult MessageWrite
  | .buffer length => (m.readBuffer length).map .buffer
  | .uint8 => m.readUint8.map .uint8
  | .uint16 => m.readUint16.map .uint16
  | .uint32 => m.readUint32.map .uint32
  | .uint64 => m.readUint64.map .uint64
  | .int8 => m.readInt8.map .int8
  | .int16 => m.readInt16.map .int16
  | .int32 => m.readInt32.map .int32
  | .int64 => m.readInt64.map .int64
  | .float32 => m.readFloat32.map .float32
  | .float64 => m.readFloat64.map .float64

/-- One read after the other. -/
def ReadMessage.readValues (m : ReadMessage) :
    List MessageRead → MessageReadResult (List MessageWrite)
  | [] => .ok [] m
  | read :: reads =>
      (read.perform m).bind fun value m' => (m'.readValues reads).map (value :: ·)

/-- The bytes ahead of a message in the read mode. -/
structure ReadMessage.Ahead (m : ReadMessage) (bytes : Bytes) : Prop where
  mode : m.mode = .read
  ahead : m.reader.ahead = bytes
  remain : m.reader.remainBytes = bytes.length
  tight : Tight m.reader.chunks

section LittleEndianBytes

theorem toUInt8_fromLittleEndian (value : UInt8) :
    (fromLittleEndian 0 0 [value]).toUInt8 = value := by
  simp [fromLittleEndian]

theorem toUInt16_fromLittleEndian (value : UInt16) :
    (fromLittleEndian 0 0 (toLittleEndian 2 value.toUInt64)).toUInt16 = value := by
  rw [fromLittleEndian_toLittleEndian (by decide) value.toNat_lt, UInt16.toUInt16_toUInt64]

theorem toUInt32_fromLittleEndian (value : UInt32) :
    (fromLittleEndian 0 0 (toLittleEndian 4 value.toUInt64)).toUInt32 = value := by
  rw [fromLittleEndian_toLittleEndian (by decide) value.toNat_lt, UInt32.toUInt32_toUInt64]

theorem toUInt64_fromLittleEndian (value : UInt64) :
    fromLittleEndian 0 0 (toLittleEndian 8 value) = value :=
  fromLittleEndian_toLittleEndian (by decide) value.toNat_lt

end LittleEndianBytes

namespace ReadMessage

namespace Ahead

variable {m : ReadMessage} {bytes rest : Bytes}

theorem init {chunks : List Bytes} (h : Tight chunks) :
    (ReadMessage.init chunks).Ahead chunks.flatten where
  mode := rfl
  ahead := rfl
  remain := (Reader.ahead_init chunks).remain
  tight := h

theorem size (h : m.Ahead bytes) : m.size = bytes.length := h.remain

theorem readBuffer (h : m.Ahead (bytes ++ rest)) :
    ∃ m', m.readBuffer bytes.length = .ok bytes m' ∧ m'.Ahead rest := by
  obtain ⟨hmode, hahead, hremain, htight⟩ := h
  have hlength : bytes.length ≤ m.reader.ahead.length := by
    rw [hahead, List.length_append]
    exact Nat.le_add_right _ _
  obtain ⟨r', hread, hrest, hremain', htight'⟩ :=
    Reader.readLoop_of_tight bytes.length m.reader htight hlength
  rw [hahead, List.take_left] at hread
  rw [hahead, List.drop_left] at hrest
  rw [ReadMessage.readBuffer, if_neg (not_not.mpr hmode), Reader.readChecked]
  by_cases hzero : bytes.length = 0
  · rw [if_pos hzero]
    obtain rfl := List.length_eq_zero_iff.mp hzero
    exact ⟨m, rfl, hmode, hahead, hremain, htight⟩
  · have hle : ¬ m.reader.remainBytes < bytes.length := by
      rw [hremain, List.length_append]
      exact Nat.not_lt.mpr (Nat.le_add_right _ _)
    rw [if_neg hzero, if_neg hle, hread]
    refine ⟨{ m with reader := r' }, rfl, hmode, hrest, ?_, htight'⟩
    rw [hremain', hremain, List.length_append, Nat.add_sub_cancel_left]

theorem readBuffer_of_lt (h : m.Ahead bytes) {length : ℕ} (hlength : bytes.length < length) :
    m.readBuffer length = .messageUnderflow m := by
  have hpos : length ≠ 0 := Nat.ne_zero_of_lt hlength
  rw [ReadMessage.readBuffer, if_neg (not_not.mpr h.mode), Reader.readChecked, if_neg hpos,
    if_pos (h.remain ▸ hlength)]

theorem perform (w : MessageWrite) (h : m.Ahead (w.bytes ++ rest)) :
    ∃ m', w.toRead.perform m = .ok w m' ∧ m'.Ahead rest := by
  obtain ⟨m', hread, hrest⟩ := h.readBuffer
  refine ⟨m', ?_, hrest⟩
  cases w with
  | buffer bytes =>
      rw [MessageWrite.toRead, MessageRead.perform, show m.readBuffer bytes.length = _ from hread]
      rfl
  | uint8 value =>
      rw [MessageWrite.toRead, MessageRead.perform, readUint8, show m.readBuffer 1 = _ from hread]
      simp only [MessageReadResult.map, MessageWrite.bytes, toUInt8_fromLittleEndian]
  | uint16 value =>
      rw [MessageWrite.toRead, MessageRead.perform, readUint16, show m.readBuffer 2 = _ from hread]
      simp only [MessageReadResult.map, MessageWrite.bytes, toUInt16_fromLittleEndian]
  | uint32 value =>
      rw [MessageWrite.toRead, MessageRead.perform, readUint32, show m.readBuffer 4 = _ from hread]
      simp only [MessageReadResult.map, MessageWrite.bytes, toUInt32_fromLittleEndian]
  | uint64 value =>
      rw [MessageWrite.toRead, MessageRead.perform, readUint64, show m.readBuffer 8 = _ from hread]
      simp only [MessageReadResult.map, MessageWrite.bytes, toUInt64_fromLittleEndian]
  | int8 value =>
      rw [MessageWrite.toRead, MessageRead.perform, readInt8, readUint8,
        show m.readBuffer 1 = _ from hread]
      simp only [MessageReadResult.map, MessageWrite.bytes, toUInt8_fromLittleEndian,
        Int8.toInt8_toUInt8]
  | int16 value =>
      rw [MessageWrite.toRead, MessageRead.perform, readInt16, readUint16,
        show m.readBuffer 2 = _ from hread]
      simp only [MessageReadResult.map, MessageWrite.bytes, toUInt16_fromLittleEndian,
        Int16.toInt16_toUInt16]
  | int32 value =>
      rw [MessageWrite.toRead, MessageRead.perform, readInt32, readUint32,
        show m.readBuffer 4 = _ from hread]
      simp only [MessageReadResult.map, MessageWrite.bytes, toUInt32_fromLittleEndian,
        Int32.toInt32_toUInt32]
  | int64 value =>
      rw [MessageWrite.toRead, MessageRead.perform, readInt64, readUint64,
        show m.readBuffer 8 = _ from hread]
      simp only [MessageReadResult.map, MessageWrite.bytes, toUInt64_fromLittleEndian,
        Int64.toInt64_toUInt64]
  | float32 bits =>
      rw [MessageWrite.toRead, MessageRead.perform, readFloat32, readUint32,
        show m.readBuffer 4 = _ from hread]
      simp only [MessageReadResult.map, MessageWrite.bytes, toUInt32_fromLittleEndian]
  | float64 bits =>
      rw [MessageWrite.toRead, MessageRead.perform, readFloat64, readUint64,
        show m.readBuffer 8 = _ from hread]
      simp only [MessageReadResult.map, MessageWrite.bytes, toUInt64_fromLittleEndian]

theorem readValues (writes : List MessageWrite)
    (h : m.Ahead (writes.flatMap MessageWrite.bytes ++ rest)) :
    ∃ m', m.readValues (writes.map MessageWrite.toRead) = .ok writes m' ∧ m'.Ahead rest := by
  induction writes generalizing m with
  | nil => exact ⟨m, rfl, h⟩
  | cons w writes ih =>
      rw [List.flatMap_cons, List.append_assoc] at h
      obtain ⟨m₁, hfirst, hrest⟩ := h.perform
      obtain ⟨m', hvalues, hahead⟩ := ih hrest
      refine ⟨m', ?_, hahead⟩
      rw [List.map_cons, ReadMessage.readValues, hfirst]
      simp only [MessageReadResult.bind]
      rw [hvalues]
      rfl

end Ahead

end ReadMessage

theorem Message.Written.pack {context : MessageContext} {m : Message} {bytes : Bytes}
    (h : m.Written context bytes) : m.pack.Ahead bytes := by
  rw [← h.content]
  exact ReadMessage.Ahead.init (tight_of_ne_nil h.ne_nil)

end Api

end PomeloUdp
