import PomeloUdp.Base.Payload

/-!
# Views of buffers

`BufferView` is `pomelo_buffer_view_t`: a range in the memory of a buffer. A codec
writes behind what a view holds and reads from its front.
-/

namespace PomeloUdp

/-- `POMELO_HMAC_BYTES`. -/
def hmacBytes : ℕ := 16

/-- `POMELO_PACKET_BODY_CAPACITY`. -/
def packetBodyCapacity : ℕ := 1200

/-- `POMELO_BUFFER_CAPACITY`: the header, the body and the tag of a packet. -/
def bufferCapacity : ℕ := 9 + packetBodyCapacity + hmacBytes

namespace Codec

/-- `pomelo_buffer_view_t`; the memory starts at the data of the buffer. -/
structure BufferView where
  memory : ℕ → UInt8
  capacity : ℕ
  offset : ℕ
  length : ℕ

namespace BufferView

variable (view : BufferView)

/-- The payload behind what the view holds. -/
def writer : Payload := ⟨view.memory, view.offset, view.length, view.capacity - view.offset⟩

/-- The payload over what the view holds. -/
def reader : Payload := ⟨view.memory, view.offset, 0, view.length⟩

/-- The view after its payload was written. -/
def written (p : Payload) : BufferView := { view with memory := p.memory, length := p.position }

/-- The view after its payload was read. -/
def consumed (p : Payload) : BufferView :=
  { view with
    memory := p.memory
    offset := view.offset + p.position
    length := view.length - p.position }

end BufferView

end Codec

end PomeloUdp
