import PomeloUdp.Delivery.Expiry
import PomeloUdp.Delivery.ReceiverMap

/-!
# The receiving path of an endpoint

A datagram that the protocol hands to an endpoint is decoded, checked against the
greatest number of fragments and given to one of the buses, which queues a
reception of it on the sequencer. The receptions run in their order, between them
the stages of the receivers in any order.

`Bus` drops a fragment that has no slot in its receiver. In the source an
assertion of `pomelo_delivery_receiver_add_fragment` fails there, and one of
`pomelo_delivery_fragment_meta_encode` for an acknowledgement that does not fit
the meta byte. The list of its receivers is a hash map in the source, and the
iterator that redistributes the map fails an assertion when it has moved an
entry. `EndpointBus` adds these to a bus, with the hash map and the dispatcher
that waits for acknowledgements.
-/

namespace PomeloUdp

namespace Delivery

open Codec Memory

namespace Bus

/-- The receiver that `pomelo_delivery_bus_recv_fragment_data` appends to, if the bus
does not drop the fragment before. -/
def fragmentTarget (s : Bus) (env : BusEnv) (m : FragmentMeta) : Option BusReceiver :=
  let ensured (s : Bus) : Option BusReceiver :=
    match s.ensureRecvCommand env m with
    | (_, none) => none
    | (s, some id) => s.receivers id
  if m.type = .reliable then
    if s.incompleteReliableReceiver.isSome then
      if m.sequence ≠ s.lastRecvReliableSequence then none else ensured s
    else if m.sequence = s.lastRecvReliableSequence then none
    else ensured s
  else if m.type = .sequenced then
    if m.sequence < s.lastRecvSequencedSequence then none else ensured s
  else ensured s

/-- Whether `pomelo_delivery_bus_reply_ack` is called for the fragment. -/
def repliesAck (s : Bus) (env : BusEnv) (m : FragmentMeta) : Bool :=
  m.type = .reliable ∧
    (s.incompleteReliableReceiver = none ∧ m.sequence = s.lastRecvReliableSequence ∨
      (s.fragmentTarget env m).isSome = true)

end Bus

/-- The assertions of `pomelo_delivery_fragment_meta_encode`. -/
def FragmentMeta.encodable (m : FragmentMeta) : Bool :=
  calcPackedUint64Bytes m.busId ≤ 2 ∧ calcPackedUint64Bytes m.fragmentIndex ≤ 2 ∧
    calcPackedUint64Bytes m.lastIndex ≤ 2

/-- The assertions of the receiving path that `Bus` does not have. -/
inductive SlotFault where
  /-- `fragment != NULL` in `pomelo_delivery_receiver_add_fragment`. -/
  | fragment
  /-- Those of `pomelo_delivery_fragment_meta_encode`. -/
  | ack
  /-- That of `pomelo_list_iterator_next` when a growth of the map has moved a receiver, or no
  assertion, but the new receiver is where no lookup finds it. -/
  | map
  deriving DecidableEq, Repr

/-- A bus of an endpoint, with the map of its receivers and its incomplete reliable
dispatcher. -/
structure EndpointBus where
  receiving : Bus
  receiversMap : ReceiverMap
  incompleteReliableDispatcher : Option Dispatcher
  fault : Option SlotFault

namespace EndpointBus

/-- A started bus; `overLoad` is the comparison of its map against the load factor. -/
def start (overLoad : ℕ → ℕ → Bool) : EndpointBus := ⟨.start, .create overLoad, none, none⟩

/-- No assertion has failed. -/
def running (b : EndpointBus) : Bool := b.fault = none ∧ b.receiving.fault = none

/-- `pomelo_delivery_bus_recv_fragment_data` with its assertions. -/
def recvFragmentData (b : EndpointBus) (env : BusEnv) (m : FragmentMeta) (content : Bytes) :
    EndpointBus :=
  let missing := (b.receiving.fragmentTarget env m).any fun r =>
    decide (r.base.receiver.fragments.length ≤ m.fragmentIndex.toNat)
  let calls := b.receiving.recvFragmentDataCalls env m
  { b with
    receiving := b.receiving.recvFragmentData env m content
    receiversMap := b.receiversMap.write calls
    -- The receiver is put in the map, then the acknowledgement is sent, then the fragment is added
    fault :=
      if !decide (b.receiversMap.MovesNothing calls) then some .map
      else if b.receiving.repliesAck env m && !m.encodable then some .ack
      else if missing then some .fragment
      else b.fault }

/-- `pomelo_delivery_bus_recv_fragment_ack`. -/
def recvFragmentAck (b : EndpointBus) (m : FragmentMeta) : EndpointBus :=
  match b.incompleteReliableDispatcher with
  | none => b
  | some d =>
      if d.sequence ≠ m.sequence then b
      else { b with incompleteReliableDispatcher := some (d.recvAck m.toMeta) }

/-- `pomelo_delivery_reception_execute`. -/
def receptionExecute (b : EndpointBus) (env : BusEnv) (m : FragmentMeta) (content : Bytes) :
    EndpointBus :=
  if m.type = .ack then b.recvFragmentAck m else b.recvFragmentData env m content

/-- A step of the bus other than a reception. -/
def step (checksum : Checksum) (b : EndpointBus) (i : BusInput) : EndpointBus :=
  { b with
    receiving := b.receiving.step checksum i
    receiversMap := b.receiversMap.write (b.receiving.mapCalls i) }

end EndpointBus

/-- `pomelo_delivery_reception_t`; the bus is `none` for the system bus. -/
structure Reception where
  bus : Option ℕ
  info : FragmentMeta
  content : Bytes

/-- `pomelo_delivery_endpoint_t`, with the receptions in the queue of the sequencer. -/
structure Endpoint where
  maxFragments : ℕ
  ready : Bool
  systemBus : EndpointBus
  buses : List EndpointBus
  receptions : List Reception

/-- What happens at an endpoint. -/
inductive EndpointEvent where
  /-- `pomelo_delivery_endpoint_recv`; `acquired` says whether the pool has a reception. -/
  | recv (view : BufferView) (acquired : Bool)
  /-- The next reception runs. -/
  | reception
  /-- A stage, a completion or a stop on a bus. -/
  | bus (bus : Option ℕ) (event : BusEvent)
  /-- A bus starts a reliable dispatcher, or is done with it. -/
  | dispatcher (bus : Option ℕ) (dispatcher : Option Dispatcher)
  /-- The flag READY. -/
  | ready (ready : Bool)

/-- An event, with the answers of the platform and the pools in it. -/
structure EndpointInput where
  env : BusEnv
  event : EndpointEvent

namespace Endpoint

/-- An endpoint whose buses have started. -/
def start (maxFragments nbuses : ℕ) (overLoad : ℕ → ℕ → Bool) : Endpoint :=
  ⟨maxFragments, false, .start overLoad, List.replicate nbuses (.start overLoad), []⟩

/-- A bus of the endpoint. -/
def bus (e : Endpoint) : Option ℕ → Option EndpointBus
  | none => some e.systemBus
  | some index => e.buses[index]?

/-- Writing a bus. -/
def modifyBus (e : Endpoint) (f : EndpointBus → EndpointBus) : Option ℕ → Endpoint
  | none => { e with systemBus := f e.systemBus }
  | some index => { e with buses := e.buses.modify index f }

/-- The bus that `pomelo_delivery_endpoint_recv` finds for a meta. -/
def busOf (e : Endpoint) (busId : UInt64) : Option (Option ℕ) :=
  if busId = 0 then some none
  else if !e.ready then none
  else if busId.toNat - 1 < e.buses.length then some (some (busId.toNat - 1))
  else none

/-- `pomelo_delivery_endpoint_recv` and `pomelo_delivery_bus_recv`. -/
def recv (e : Endpoint) (view : BufferView) (acquired : Bool) : Endpoint :=
  match metaDecode view with
  | none => e
  | some (m, content) =>
      if e.maxFragments ≤ m.lastIndex.toNat then e
      else
        match e.busOf m.busId with
        | none => e
        | some bus =>
            if acquired then
              { e with receptions := e.receptions ++
                  [⟨bus, m, load content.memory content.offset content.length⟩] }
            else e

/-- One event. -/
def step (checksum : Checksum) (e : Endpoint) (i : EndpointInput) : Endpoint :=
  match i.event with
  | .recv view acquired => e.recv view acquired
  | .reception =>
      match e.receptions with
      | [] => e
      | r :: receptions =>
          { e with receptions := receptions }.modifyBus
            (fun b => if b.running then b.receptionExecute i.env r.info r.content else b) r.bus
  | .bus bus event =>
      match event with
      | .recvFragmentData _ _ => e
      | event =>
          e.modifyBus (fun b => if b.running then b.step checksum ⟨i.env, event⟩ else b) bus
  | .dispatcher bus dispatcher =>
      e.modifyBus (fun b => { b with incompleteReliableDispatcher := dispatcher }) bus
  | .ready ready => { e with ready := ready }

end Endpoint

end Delivery

end PomeloUdp
