import PomeloUdp.Base.Buffer
import PomeloUdp.Delivery.ParcelWriter
import PomeloUdp.Library.LittleEndian

/-!
# Writing messages

`writeBuffer` compares the sum of two sizes with the capacity of the message and leaves the rest
to the writer of the parcel. The sum wraps around, and the writer keeps what it has written when
it gets no further chunk. `perform_allOrNothing_iff` says which writes are all or nothing.
-/

namespace PomeloUdp

namespace Api

open Delivery LittleEndian

/-- `pomelo_context_t`, as far as messages use it. -/
structure MessageContext where
  delivery : SizedContext
  messageCapacity : ℕ

/-- `POMELO_FRAGMENT_BODY_CAPACITY`. -/
def fragmentBodyCapacity : ℕ := packetBodyCapacity - maxFragmentMetaDataBytes

/-- `POMELO_MESSAGE_DEFAULT_CAPACITY`. -/
def messageDefaultCapacity : ℕ := 65536

/-- `POMELO_CEIL_DIV`. -/
def ceilDiv (a b : ℕ) : ℕ := a / b + if 0 < a % b then 1 else 0

theorem bufferCapacity_of_create {fragmentCapacity maxFragments capacity : ℕ}
    {hsize : fragmentCapacity < 2 ^ 64} {hbuffer : maxFragmentMetaDataBytes ≤ capacity}
    {context : Context}
    (h : Context.create fragmentCapacity maxFragments capacity hsize hbuffer = some context) :
    context.bufferCapacity = capacity := by
  unfold Context.create at h
  split at h
  · cases h
  · split at h
    · rw [← Option.some.inj h]
    · split at h
      · cases h
      · rw [← Option.some.inj h]

/-- `pomelo_context_root_create` with the `message_capacity` of its options. -/
def MessageContext.rootCreate (messageCapacity : UInt64) : Option MessageContext :=
  let capacity :=
    if messageCapacity = 0 then messageDefaultCapacity else messageCapacity.toNat
  match h : Context.create packetBodyCapacity (ceilDiv capacity fragmentBodyCapacity)
      bufferCapacity (by decide) (by decide) with
  | none => none
  | some context =>
      some ⟨⟨context, (bufferCapacity_of_create h).symm ▸ by decide⟩, capacity⟩

/-- `pomelo_message_mode`. -/
inductive MessageMode where
  | unset
  | read
  | write
  deriving DecidableEq, Repr

/-- `pomelo_message_t`: its mode, its busy flag, and its writer, which counts in the write
mode. -/
structure Message where
  context : MessageContext
  mode : MessageMode
  busy : Bool
  writer : ParcelWriter

/-- What a write returns; `failure` is the -1 of the writer. -/
inductive MessageResult where
  | ok
  | messageWrite
  | messageBusy
  | messageOverflow
  | failure
  deriving DecidableEq, Repr

namespace Message

/-- `pomelo_message_init` in the write mode, with a parcel. -/
def init (context : MessageContext) (chunks : List Chunk)
    (inBuffer : ∀ chunk ∈ chunks, InBuffer chunk) : Message where
  context := context
  mode := .write
  busy := false
  writer := ParcelWriter.init chunks inBuffer

/-- The bytes in the parcel. -/
def content (m : Message) : Bytes := bytesOf m.writer.chunks

/-- `pomelo_message_size` in the write mode. -/
def size (m : Message) : ℕ := m.writer.writtenBytes.toNat

theorem size_eq (m : Message) : m.size = m.content.length % 2 ^ 64 := by
  rw [size, m.writer.counted, UInt64.toNat_ofNat']
  rfl

section Write

variable (acquired : ℕ → Bool) (m : Message)

/-- `pomelo_message_write_buffer`. A write behind the end of a buffer has no result. -/
def writeBuffer (buffer : Bytes) : Option (Message × MessageResult) :=
  if m.mode ≠ .write then some (m, .messageWrite)
  else if m.busy then some (m, .messageBusy)
  else if m.context.messageCapacity <
      (m.writer.writtenBytes + UInt64.ofNat buffer.length).toNat then some (m, .messageOverflow)
  else
    (m.writer.write m.context.delivery acquired buffer).map fun r =>
      ({ m with writer := r.1 }, if r.2 then .ok else .failure)

/-- `pomelo_message_write_uint8`. -/
def writeUint8 (value : UInt8) : Option (Message × MessageResult) :=
  m.writeBuffer acquired [value]

/-- `pomelo_message_write_uint16`. -/
def writeUint16 (value : UInt16) : Option (Message × MessageResult) :=
  m.writeBuffer acquired (toLittleEndian 2 value.toUInt64)

/-- `pomelo_message_write_uint32`. -/
def writeUint32 (value : UInt32) : Option (Message × MessageResult) :=
  m.writeBuffer acquired (toLittleEndian 4 value.toUInt64)

/-- `pomelo_message_write_uint64`. -/
def writeUint64 (value : UInt64) : Option (Message × MessageResult) :=
  m.writeBuffer acquired (toLittleEndian 8 value)

/-- `pomelo_message_write_int8`. -/
def writeInt8 (value : Int8) : Option (Message × MessageResult) :=
  m.writeUint8 acquired value.toUInt8

/-- `pomelo_message_write_int16`. -/
def writeInt16 (value : Int16) : Option (Message × MessageResult) :=
  m.writeUint16 acquired value.toUInt16

/-- `pomelo_message_write_int32`. -/
def writeInt32 (value : Int32) : Option (Message × MessageResult) :=
  m.writeUint32 acquired value.toUInt32

/-- `pomelo_message_write_int64`. -/
def writeInt64 (value : Int64) : Option (Message × MessageResult) :=
  m.writeUint64 acquired value.toUInt64

/-- `pomelo_message_write_float32`, with the bits of the value. -/
def writeFloat32 (bits : UInt32) : Option (Message × MessageResult) :=
  m.writeUint32 acquired bits

/-- `pomelo_message_write_float64`, with the bits of the value. -/
def writeFloat64 (bits : UInt64) : Option (Message × MessageResult) :=
  m.writeUint64 acquired bits

end Write

end Message

/-- The writes of the application. -/
inductive MessageWrite where
  | buffer (bytes : Bytes)
  | uint8 (value : UInt8)
  | uint16 (value : UInt16)
  | uint32 (value : UInt32)
  | uint64 (value : UInt64)
  | int8 (value : Int8)
  | int16 (value : Int16)
  | int32 (value : Int32)
  | int64 (value : Int64)
  | float32 (bits : UInt32)
  | float64 (bits : UInt64)

namespace MessageWrite

/-- What the write is to append: numbers with their low byte first. -/
def bytes : MessageWrite → Bytes
  | .buffer bytes => bytes
  | .uint8 value => [value]
  | .uint16 value => toLittleEndian 2 value.toUInt64
  | .uint32 value => toLittleEndian 4 value.toUInt64
  | .uint64 value => toLittleEndian 8 value
  | .int8 value => [value.toUInt8]
  | .int16 value => toLittleEndian 2 value.toUInt16.toUInt64
  | .int32 value => toLittleEndian 4 value.toUInt32.toUInt64
  | .int64 value => toLittleEndian 8 value.toUInt64
  | .float32 bits => toLittleEndian 4 bits.toUInt64
  | .float64 bits => toLittleEndian 8 bits

/-- The call of the application. -/
def perform (acquired : ℕ → Bool) (m : Message) :
    MessageWrite → Option (Message × MessageResult)
  | .buffer bytes => m.writeBuffer acquired bytes
  | .uint8 value => m.writeUint8 acquired value
  | .uint16 value => m.writeUint16 acquired value
  | .uint32 value => m.writeUint32 acquired value
  | .uint64 value => m.writeUint64 acquired value
  | .int8 value => m.writeInt8 acquired value
  | .int16 value => m.writeInt16 acquired value
  | .int32 value => m.writeInt32 acquired value
  | .int64 value => m.writeInt64 acquired value
  | .float32 bits => m.writeFloat32 acquired bits
  | .float64 bits => m.writeFloat64 acquired bits

theorem perform_eq (acquired : ℕ → Bool) (m : Message) (w : MessageWrite) :
    w.perform acquired m = m.writeBuffer acquired w.bytes := by
  cases w <;> rfl

end MessageWrite

namespace Message

/-- A write appends its bytes within the capacity, or fails and leaves content and size as they
are. -/
def AllOrNothing (m : Message) (bytes : Bytes) : Option (Message × MessageResult) → Prop
  | none => False
  | some (m', .ok) =>
      m'.content = m.content ++ bytes ∧ m'.content.length ≤ m.context.messageCapacity
  | some (m', _) => m'.content = m.content ∧ m'.size = m.size

/-- The message refuses the write before the writer sees it. -/
def Refuses (m : Message) (length : ℕ) : Prop :=
  m.mode ≠ .write ∨ m.busy = true ∨
    m.context.messageCapacity < (m.content.length + length) % 2 ^ 64

instance (m : Message) (length : ℕ) : Decidable (m.Refuses length) :=
  inferInstanceAs (Decidable (_ ∨ _ ∨ _))

/-- The bytes go into the last chunk and the chunks that can be had behind it, or, where the
last chunk is longer than a fragment may be, into the rest of its buffer. -/
def HasRoom (acquired : ℕ → Bool) (m : Message) (bytes : Bytes) : Prop :=
  if Long m.context.delivery.toContext m.writer.chunks then
    bytes = [] ∨ Fits m.writer.chunks bytes
  else Available m.context.delivery.toContext acquired m.writer.chunks bytes.length

/-- The writer fails at its first step. -/
def FailsAtOnce (acquired : ℕ → Bool) (m : Message) (bytes : Bytes) : Prop :=
  bytes ≠ [] ∧ ¬ Long m.context.delivery.toContext m.writer.chunks ∧
    Blocked m.context.delivery.toContext acquired m.writer.chunks

section Write

variable {acquired : ℕ → Bool} {m : Message} {bytes : Bytes}

theorem refuses_of_overflow
    (h : m.context.messageCapacity <
      (m.writer.writtenBytes + UInt64.ofNat bytes.length).toNat) :
    m.Refuses bytes.length := by
  rw [m.writer.counted, ← UInt64.ofNat_add, UInt64.toNat_ofNat'] at h
  exact .inr (.inr h)

theorem writeBuffer_of_not_refuses (h : ¬ m.Refuses bytes.length) :
    m.writeBuffer acquired bytes =
      (m.writer.write m.context.delivery acquired bytes).map fun r =>
        ({ m with writer := r.1 }, if r.2 then .ok else .failure) := by
  rw [writeBuffer, if_neg fun hmode => h (.inl hmode), if_neg fun hbusy => h (.inr (.inl hbusy)),
    if_neg fun hover => h (refuses_of_overflow hover)]

variable (acquired) in
theorem writeBuffer_of_refuses (h : m.Refuses bytes.length) :
    ∃ result ≠ .ok, m.writeBuffer acquired bytes = some (m, result) := by
  unfold writeBuffer
  split
  · exact ⟨.messageWrite, nofun, rfl⟩
  next hmode =>
    split
    · exact ⟨.messageBusy, nofun, rfl⟩
    next hbusy =>
      obtain hmode' | hbusy' | hover := h
      · exact absurd hmode' hmode
      · exact absurd hbusy' hbusy
      · rw [← UInt64.toNat_ofNat', UInt64.ofNat_add] at hover
        rw [content, ← m.writer.counted] at hover
        rw [if_pos hover]
        exact ⟨.messageOverflow, nofun, rfl⟩

theorem allOrNothing_refused {result : MessageResult} (h : result ≠ .ok) :
    m.AllOrNothing bytes (some (m, result)) := by
  cases result with
  | ok => exact absurd rfl h
  | _ => exact ⟨rfl, rfl⟩

variable (acquired m bytes) in
theorem write_cases :
    (∃ w, m.writer.write m.context.delivery acquired bytes = some (w, true) ∧
        bytesOf w.chunks = m.content ++ bytes ∧ m.HasRoom acquired bytes ∧
        ¬ m.FailsAtOnce acquired bytes) ∨
      (∃ w, m.writer.write m.context.delivery acquired bytes = some (w, false) ∧
        w.chunks = m.writer.chunks ∧ ¬ m.HasRoom acquired bytes ∧ m.FailsAtOnce acquired bytes) ∨
      (∃ w, m.writer.write m.context.delivery acquired bytes = some (w, false) ∧
        m.content.length < (bytesOf w.chunks).length ∧ ¬ m.HasRoom acquired bytes ∧
        ¬ m.FailsAtOnce acquired bytes) ∨
      (m.writer.write m.context.delivery acquired bytes = none ∧
        ¬ m.HasRoom acquired bytes ∧ ¬ m.FailsAtOnce acquired bytes) := by
  by_cases hlong : Long m.context.delivery.toContext m.writer.chunks
  · have hnot : ¬ m.FailsAtOnce acquired bytes := fun h => h.2.1 hlong
    by_cases hbytes : bytes = []
    · subst hbytes
      refine .inl ⟨m.writer, ?_, (List.append_nil _).symm, ?_, hnot⟩
      · rw [ParcelWriter.write, if_pos rfl]
      · rw [HasRoom, if_pos hlong]
        exact .inl rfl
    · have hwrite := ParcelWriter.write_of_long acquired hbytes hlong
      split at hwrite
      next hfits =>
        obtain ⟨w, hw, hcontent⟩ := hwrite
        refine .inl ⟨w, hw, hcontent, ?_, hnot⟩
        rw [HasRoom, if_pos hlong]
        exact .inr hfits
      next hfits =>
        refine .inr (.inr (.inr ⟨hwrite, ?_, hnot⟩))
        rw [HasRoom, if_pos hlong]
        exact not_or_intro hbytes hfits
  · obtain ⟨w, hw, hchunks⟩ := ParcelWriter.write_of_short acquired
      m.writer.chunks bytes hlong m.writer rfl
    have hroom : m.HasRoom acquired bytes ↔
        (writeFrom m.context.delivery.toContext acquired m.writer.chunks bytes).2 = true := by
      rw [HasRoom, if_neg hlong, writeFrom_ok_iff]
    by_cases hok : (writeFrom m.context.delivery.toContext acquired m.writer.chunks bytes).2 = true
    · refine .inl ⟨w, by rw [hw, hok], ?_, hroom.mpr hok, fun h => ?_⟩
      · rw [hchunks, bytesOf_writeFrom _ _ hok]
        rfl
      · rw [writeFrom_of_blocked h.1 h.2.2] at hok
        cases hok
    · have hno : ¬ m.HasRoom acquired bytes := fun h => hok (hroom.mp h)
      have hbytes : bytes ≠ [] := by
        rintro rfl
        rw [writeFrom, if_pos rfl] at hok
        exact hok rfl
      rw [Bool.not_eq_true] at hok
      rw [hok] at hw
      by_cases hblocked : Blocked m.context.delivery.toContext acquired m.writer.chunks
      · refine .inr (.inl ⟨w, hw, ?_, hno, hbytes, hlong, hblocked⟩)
        rw [hchunks, writeFrom_of_blocked hbytes hblocked]
      · refine .inr (.inr (.inl ⟨w, hw, ?_, hno, fun h => hblocked h.2.2⟩))
        rw [hchunks]
        exact length_lt_writeFrom hbytes hblocked

variable (acquired m bytes) in
theorem allOrNothing_writeBuffer_iff :
    m.AllOrNothing bytes (m.writeBuffer acquired bytes) ↔
      m.Refuses bytes.length ∨
        (m.content.length + bytes.length ≤ m.context.messageCapacity ∧
          m.HasRoom acquired bytes) ∨
        m.FailsAtOnce acquired bytes := by
  by_cases hrefuses : m.Refuses bytes.length
  · obtain ⟨result, hresult, heq⟩ := writeBuffer_of_refuses acquired hrefuses
    rw [heq]
    exact iff_of_true (allOrNothing_refused hresult) (.inl hrefuses)
  · rw [writeBuffer_of_not_refuses hrefuses]
    obtain ⟨out, hout, hcontent, hroom, hfails⟩ | ⟨out, hout, hchunks, hroom, hfails⟩ |
      ⟨out, hout, hgrows, hroom, hfails⟩ | ⟨hout, hroom, hfails⟩ :=
      write_cases acquired m bytes
    · rw [hout]
      have hlength : (bytesOf out.chunks).length = m.content.length + bytes.length := by
        rw [hcontent, List.length_append]
      constructor
      · intro h
        exact .inr (.inl ⟨hlength ▸ h.2, hroom⟩)
      · rintro (h | ⟨hcapacity, -⟩ | h)
        · exact absurd h hrefuses
        · exact ⟨hcontent, hlength.trans_le hcapacity⟩
        · exact absurd h hfails
    · rw [hout]
      refine iff_of_true ⟨?_, ?_⟩ (.inr (.inr hfails))
      · rw [content, hchunks]
        rfl
      · rw [size_eq, size_eq, content, hchunks]
        rfl
    · rw [hout]
      refine iff_of_false (fun h => ?_) ?_
      · exact absurd (congrArg List.length h.1) hgrows.ne'
      · rintro (h | h | h)
        · exact hrefuses h
        · exact hroom h.2
        · exact hfails h
    · rw [hout]
      refine iff_of_false id ?_
      rintro (h | h | h)
      · exact hrefuses h
      · exact hroom h.2
      · exact hfails h

end Write

end Message

/-- A write is all or nothing if and only if the message refuses it, or has the capacity and
the chunks for all of its bytes, or gets not even the first chunk for them. -/
theorem perform_allOrNothing_iff (acquired : ℕ → Bool) (m : Message) (w : MessageWrite) :
    m.AllOrNothing w.bytes (w.perform acquired m) ↔
      m.Refuses w.bytes.length ∨
        (m.content.length + w.bytes.length ≤ m.context.messageCapacity ∧
          m.HasRoom acquired w.bytes) ∨
        m.FailsAtOnce acquired w.bytes := by
  rw [w.perform_eq]
  exact Message.allOrNothing_writeBuffer_iff acquired m w.bytes

/-- The context of an application that takes the default capacity. -/
def defaultContext : MessageContext :=
  (MessageContext.rootCreate 0).get (by decide)

/-- A new message of the application. -/
def newMessage : Message := Message.init defaultContext [] (by simp)

/-- Two thousand bytes need a second chunk, and there is no buffer for it: the bytes of the first
one stay in a message whose write has failed. -/
theorem not_perform_allOrNothing_second :
    ¬ ∀ (acquired : ℕ → Bool) (m : Message) (w : MessageWrite),
      m.mode = .write → m.AllOrNothing w.bytes (w.perform acquired m) := by
  intro h
  obtain ⟨bytes, hlength⟩ : ∃ bytes : Bytes, bytes.length = 2000 :=
    ⟨List.replicate 2000 0, List.length_replicate⟩
  have hall := h (fun index => index == 0) newMessage (.buffer bytes) rfl
  rw [MessageWrite.perform_eq, Message.allOrNothing_writeBuffer_iff, MessageWrite.bytes] at hall
  rcases hall with hrefuses | ⟨-, hroom⟩ | ⟨-, -, hblocked⟩
  · rw [hlength] at hrefuses
    exact absurd hrefuses (by decide)
  · rw [Message.HasRoom, if_neg (by decide), hlength] at hroom
    have hsecond := (hroom 1 (by decide)).2
    cases hsecond
  · exact hblocked.2 (by decide)

end Api

end PomeloUdp
