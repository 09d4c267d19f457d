import PomeloUdp.Delivery.Sending

/-!
# The receiving side of a bus in reliable mode

A bus collects one reliable parcel at a time. `last_recv_reliable_sequence` is
the sequence number of the parcel collected last, and `receivers_map` holds
nothing but the receiver of `incomplete_reliable_receiver`, under that number.
Every fragment that belongs to it is acknowledged before it is stored; a
fragment of the parcel collected last is acknowledged again.

The functions follow `bus.c` and `receiver.c`. A fragment index above the last
index, which `pomelo_delivery_receiver_add_fragment` excludes by an assertion,
leaves the receiver as it is.
-/

namespace PomeloUdp

namespace Delivery

/-- How far the pipeline of a receiver is: it waits for fragments, the
verification is queued, a worker computes the checksum, the last task is
queued. -/
inductive ReceiverStage where
  | waitFragments
  | verifyChecksum
  | checking (embeddedChecksum : Bytes)
  | complete
  deriving DecidableEq, Repr

/-- `pomelo_delivery_receiver_t` in reliable mode; a fragment without a buffer is
`none`. -/
structure Receiver where
  sequence : UInt64
  fragments : List (Option Bytes)
  recvFragments : ℕ
  stage : ReceiverStage
  failed : Bool
  deriving DecidableEq, Repr

namespace Receiver

/-- `pomelo_delivery_receiver_init`. -/
def init (m : Meta) : Receiver where
  sequence := m.sequence
  fragments := List.replicate (m.lastIndex + 1) none
  recvFragments := 0
  stage := .waitFragments
  failed := false

/-- `pomelo_pipeline_next`. -/
def next (r : Receiver) : Receiver :=
  match r.stage with
  | .waitFragments => { r with stage := .verifyChecksum }
  | _ => { r with stage := .complete }

/-- The flag `POMELO_DELIVERY_RECEIVER_FLAG_FAILED` and `pomelo_pipeline_finish`. -/
def fail (r : Receiver) : Receiver := { r with failed := true, stage := .complete }

/-- `pomelo_delivery_receiver_check_meta`. -/
def checkMeta (r : Receiver) (m : Meta) : Bool :=
  r.sequence = m.sequence ∧ r.fragments.length = m.lastIndex + 1

/-- `pomelo_delivery_receiver_add_fragment`. -/
def addFragment (r : Receiver) (m : Meta) (content : Bytes) : Receiver :=
  match r.fragments[m.fragmentIndex]? with
  | some none =>
      let added := { r with
        fragments := r.fragments.set m.fragmentIndex (some content)
        recvFragments := r.recvFragments + 1 }
      if added.recvFragments = added.fragments.length then added.next else added
  | _ => r

/-- `pomelo_delivery_receiver_verify_checksum`; `worker` says whether the worker
task could be submitted. -/
def verifyChecksum (r : Receiver) (worker : Bool) : Receiver :=
  if r.fragments.length < 2 then r.next
  else
    match splitChecksum r.fragments with
    | none => r.fail
    | some (embeddedChecksum, fragments) =>
        if worker then { r with fragments := fragments, stage := .checking embeddedChecksum }
        else { r with fragments := fragments }.fail

/-- `verify_checksum_complete`; `computed` says whether the worker could compute
the checksum. -/
def verifyChecksumComplete (checksum : Checksum) (r : Receiver) (embeddedChecksum : Bytes)
    (computed : Bool) : Receiver :=
  if computed then
    if checksum.digest (receivedBytes r.fragments) = embeddedChecksum then r.next else r.fail
  else r.fail

end Receiver

/-- The receiving half of `pomelo_delivery_bus_t`. `delivered` is what
`pomelo_delivery_bus_on_received` got, with the sequence number of the receiver. -/
structure ReceivingBus where
  lastRecvReliableSequence : UInt64
  incompleteReliableReceiver : Option Receiver
  delivered : List (UInt64 × Bytes)
  deriving DecidableEq, Repr

namespace ReceivingBus

/-- A started bus. -/
def start : ReceivingBus where
  lastRecvReliableSequence := 0
  incompleteReliableReceiver := none
  delivered := []

/-- `pomelo_delivery_bus_recv_fragment_data` for a reliable fragment, with
`pomelo_delivery_bus_ensure_recv_command`, and the ack it replies with.
`acquired` says whether a receiver could be acquired and `replied` whether the
ack could be sent. -/
def recvFragmentData (bus : ReceivingBus) (m : Meta) (content : Bytes)
    (acquired replied : Bool) : ReceivingBus × List Meta :=
  let ack := if replied then [m] else []
  match bus.incompleteReliableReceiver with
  | some receiver =>
      if m.sequence ≠ bus.lastRecvReliableSequence then (bus, [])
      else if receiver.checkMeta m then
        ({ bus with incompleteReliableReceiver := some (receiver.addFragment m content) }, ack)
      else (bus, [])
  | none =>
      if m.sequence = bus.lastRecvReliableSequence then (bus, ack)
      else if acquired then
        ({ bus with
          lastRecvReliableSequence := m.sequence
          incompleteReliableReceiver := some ((Receiver.init m).addFragment m content) }, ack)
      else (bus, [])

/-- `pomelo_delivery_receiver_complete` and
`pomelo_delivery_bus_handle_receiver_complete`; `parcel` says whether the parcel
and its chunks could be allocated. -/
def handleReceiverComplete (bus : ReceivingBus) (receiver : Receiver) (parcel : Bool) :
    ReceivingBus :=
  let idle := { bus with incompleteReliableReceiver := none }
  if receiver.failed then idle
  else if parcel then
    { idle with
      delivered := bus.delivered ++
        [(receiver.sequence, (setFragments receiver.fragments).flatten)] }
  else idle

/-- The task of the receiver's pipeline that is queued. The first one does
nothing in reliable mode. -/
def receiverTask (bus : ReceivingBus) (worker parcel : Bool) : ReceivingBus :=
  match bus.incompleteReliableReceiver with
  | none => bus
  | some receiver =>
      match receiver.stage with
      | .verifyChecksum =>
          { bus with incompleteReliableReceiver := some (receiver.verifyChecksum worker) }
      | .complete => bus.handleReceiverComplete receiver parcel
      | _ => bus

/-- The completion of the worker that computes the checksum. -/
def verifyChecksumComplete (checksum : Checksum) (bus : ReceivingBus) (computed : Bool) :
    ReceivingBus :=
  match bus.incompleteReliableReceiver with
  | none => bus
  | some receiver =>
      match receiver.stage with
      | .checking embeddedChecksum =>
          { bus with
            incompleteReliableReceiver :=
              some (receiver.verifyChecksumComplete checksum embeddedChecksum computed) }
      | _ => bus

/-- What is left of the pipeline of a receiver that has all its fragments, with a
worker and a parcel at hand. -/
def drain (checksum : Checksum) (bus : ReceivingBus) : ReceivingBus :=
  ((bus.receiverTask true true).verifyChecksumComplete checksum true).receiverTask true true

end ReceivingBus

end Delivery

end PomeloUdp
