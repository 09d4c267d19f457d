import PomeloUdp.Delivery.Receiving
import PomeloUdp.Library.Run

/-!
# Two buses and the network between them

`Channel` joins the sending bus of one endpoint with the bus of the same id of
the other endpoint. The network keeps every fragment and every ack that was ever
sent, and an event may hand over any of them at any time: a message that never
comes is lost, and one that comes twice or after a later one is duplicated or
reordered. The tasks of the two sequencers and the answers of the platform come
in any order, so that the runs of the channel include those of the program.
-/

namespace PomeloUdp

namespace Delivery

/-- A sending bus, a receiving bus and all that was sent between them. -/
structure Channel where
  sending : SendingBus
  receiving : ReceivingBus
  data : List (Meta × Bytes)
  acks : List Meta
  deriving DecidableEq, Repr

/-- What can happen next: an application's send, the completion of the worker of
the sender of that number, the send task of the bus, the tasks and the timer of
the dispatcher, the arrival of an ack or of a data fragment, the tasks of the
receiver and the completion of its worker. -/
inductive Event where
  | submit (chunks : List Chunk) (worker acquired : Bool)
  | updateChecksumComplete (number : ℕ) (computed acquired : Bool)
  | processSending
  | dispatch (ok : ℕ → Bool) (timer : Bool)
  | resend (ok : ℕ → Bool)
  | recvAck (m : Meta)
  | completeDispatcher
  | recvData (m : Meta) (content : Bytes) (acquired replied : Bool)
  | receiverTask (worker parcel : Bool)
  | verifyChecksumComplete (computed : Bool)

namespace Channel

instance instDecidableMemData (x : Meta × Bytes) (data : List (Meta × Bytes)) :
    Decidable (x ∈ data) := inferInstance

/-- Two started buses and an empty network. -/
def start : Channel := ⟨SendingBus.start, ReceivingBus.start, [], []⟩

section Step

variable (fragmentContentCapacity : ℕ) (checksum : Checksum)

/-- The channel after an event. -/
def step (s : Channel) : Event → Channel
  | .submit chunks worker acquired =>
      { s with
        sending := s.sending.submit fragmentContentCapacity checksum chunks worker acquired }
  | .updateChecksumComplete number computed acquired =>
      { s with
        sending := s.sending.updateChecksumComplete fragmentContentCapacity checksum number
          computed acquired }
  | .processSending => { s with sending := s.sending.processSendingDeferred }
  | .dispatch ok timer =>
      let sent := s.sending.dispatch ok timer
      { s with sending := sent.1, data := s.data ++ sent.2 }
  | .resend ok =>
      let sent := s.sending.resend ok
      { s with sending := sent.1, data := s.data ++ sent.2 }
  | .recvAck m =>
      if m ∈ s.acks then { s with sending := s.sending.recvFragmentAck m } else s
  | .completeDispatcher => { s with sending := s.sending.completeDispatcher }
  | .recvData m content acquired replied =>
      if (m, content) ∈ s.data then
        let received := s.receiving.recvFragmentData m content acquired replied
        { s with receiving := received.1, acks := s.acks ++ received.2 }
      else s
  | .receiverTask worker parcel =>
      { s with receiving := s.receiving.receiverTask worker parcel }
  | .verifyChecksumComplete computed =>
      { s with receiving := s.receiving.verifyChecksumComplete checksum computed }

end Step

end Channel

end Delivery

end PomeloUdp
