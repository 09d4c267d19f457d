import PomeloUdp.Delivery.Fragment

/-!
# The sending side of a bus in reliable mode

A sender waits for the checksum of its parcel if the parcel has two chunks or
more, then takes the next sequence number of the bus and leaves a dispatcher in
the list of the bus. The bus starts one reliable dispatcher at a time. A
dispatcher sends the fragments that are not acknowledged, again whenever its
timer fires, until every fragment is acknowledged or a send fails.

The functions follow `sender.c`, `dispatcher.c` and `bus.c`; what the platform
answers (a buffer, a worker, a timer, the protocol's send) is a parameter.
-/

namespace PomeloUdp

namespace Delivery

/-- `pomelo_delivery_fragment_meta_t` on one bus: the type of a fragment is told
by the part of the network it travels in. -/
structure Meta where
  sequence : UInt64
  fragmentIndex : ℕ
  lastIndex : ℕ
  deriving DecidableEq, Repr

/-- How far the pipeline of a dispatcher is: its first task is queued, its first
task has run, its last task is queued. -/
inductive DispatcherStage where
  | dispatch
  | waiting
  | complete
  deriving DecidableEq, Repr

/-- `pomelo_delivery_dispatcher_t` in reliable mode; `sender` is the number of
the sender it belongs to. -/
structure Dispatcher where
  sender : ℕ
  sequence : UInt64
  checksumMode : ChecksumMode
  checksum : Bytes
  fragments : List Fragment
  ackedCounter : ℕ
  stage : DispatcherStage
  resendTimer : Bool
  failed : Bool
  deriving DecidableEq, Repr

namespace Dispatcher

/-- `pomelo_delivery_dispatcher_init`. -/
def init (fragmentContentCapacity : ℕ) (checksum : Checksum) (sender : ℕ) (sequence : UInt64)
    (chunks : List Chunk) : Dispatcher where
  sender := sender
  sequence := sequence
  checksumMode := checksumModeOf fragmentContentCapacity chunks
  checksum := checksum.digest (bytesOf chunks)
  fragments := initFragments (checksumModeOf fragmentContentCapacity chunks)
    (checksum.digest (bytesOf chunks)) chunks
  ackedCounter := 0
  stage := .dispatch
  resendTimer := false
  failed := false

/-- `pomelo_pipeline_next` and `pomelo_pipeline_finish` on a pipeline of two
tasks: the second one is next in either case. -/
def next (d : Dispatcher) : Dispatcher := { d with stage := .complete }

def fail (d : Dispatcher) : Dispatcher := { d with failed := true }.next

/-- What goes out for fragment `index`. -/
def message (d : Dispatcher) (index : ℕ) (fragment : Fragment) : Meta × Bytes :=
  (⟨d.sequence, index, d.fragments.length - 1⟩,
    payload d.checksumMode d.checksum d.fragments.length index fragment.content)

/-- The loop of `pomelo_delivery_dispatcher_send` from `index` on, and whether it
came to its end. `ok` says for which fragments the buffer of the meta and
`pomelo_delivery_endpoint_send` succeed. -/
def sendFrom (d : Dispatcher) (ok : ℕ → Bool) :
    ℕ → List Fragment → List (Meta × Bytes) × Bool
  | _, [] => ([], true)
  | index, fragment :: fragments =>
      if fragment.acked then sendFrom d ok (index + 1) fragments
      else if ok index then
        let rest := sendFrom d ok (index + 1) fragments
        (d.message index fragment :: rest.1, rest.2)
      else ([], false)

/-- `pomelo_delivery_dispatcher_send`. -/
def send (d : Dispatcher) (ok : ℕ → Bool) : List (Meta × Bytes) × Bool :=
  d.sendFrom ok 0 d.fragments

/-- `pomelo_delivery_dispatcher_dispatch`; `timer` says whether the resend timer
could be started. -/
def dispatch (d : Dispatcher) (ok : ℕ → Bool) (timer : Bool) :
    Dispatcher × List (Meta × Bytes) :=
  let sent := d.send ok
  if !sent.2 then (d.fail, sent.1)
  else if timer then ({ d with stage := .waiting, resendTimer := true }, sent.1)
  else (d.fail, sent.1)

/-- `pomelo_delivery_dispatcher_resend`. -/
def resend (d : Dispatcher) (ok : ℕ → Bool) : Dispatcher × List (Meta × Bytes) :=
  let sent := d.send ok
  (if sent.2 then d else d.fail, sent.1)

/-- `pomelo_delivery_dispatcher_recv_ack`. -/
def recvAck (d : Dispatcher) (m : Meta) : Dispatcher :=
  match d.fragments[m.fragmentIndex]? with
  | none => d
  | some fragment =>
      if fragment.acked then d
      else
        let acked := { d with
          fragments := d.fragments.set m.fragmentIndex { fragment with acked := true }
          ackedCounter := d.ackedCounter + 1 }
        if acked.ackedCounter < acked.fragments.length then acked else acked.next

end Dispatcher

/-- `pomelo_delivery_sender_t` while the checksum of its parcel is computed by a
worker; `number` tells how many sends came before this one. -/
structure Sender where
  number : ℕ
  chunks : List Chunk
  deriving DecidableEq, Repr

/-- A parcel that a sender has given a sequence number of the bus. -/
structure Parcel where
  number : ℕ
  sequence : UInt64
  chunks : List Chunk
  deriving DecidableEq, Repr

/-- The senders of a bus and the sending half of `pomelo_delivery_bus_t`;
`processing` says that its send task is queued. `submitted` are the parcels in
the order of their sends. No transition reads the last two fields: the parcels
with a dispatcher in the order of their dispatchers, and the sequence numbers
whose dispatchers completed because every fragment was acked. -/
structure SendingBus where
  submitted : List (List Chunk)
  senders : List Sender
  sequenceGenerator : UInt64
  pendingDispatchers : List Dispatcher
  incompleteReliableDispatcher : Option Dispatcher
  processing : Bool
  dispatched : List Parcel
  acknowledged : List UInt64
  deriving DecidableEq, Repr

namespace SendingBus

/-- A started bus. -/
def start : SendingBus where
  submitted := []
  senders := []
  sequenceGenerator := 0
  pendingDispatchers := []
  incompleteReliableDispatcher := none
  processing := false
  dispatched := []
  acknowledged := []

/-- `pomelo_delivery_bus_process_sending_deferred`, the task that
`pomelo_delivery_bus_process_sending` queues: the loop ends with the first
reliable dispatcher. -/
def processSendingDeferred (bus : SendingBus) : SendingBus :=
  if bus.processing then
    match bus.incompleteReliableDispatcher, bus.pendingDispatchers with
    | none, dispatcher :: dispatchers =>
        { bus with
          pendingDispatchers := dispatchers
          incompleteReliableDispatcher := some dispatcher
          processing := false }
    | _, _ => { bus with processing := false }
  else bus

/-- `create_and_submit_dispatcher` of `sender.c`. The sequence number is spent
also when no dispatcher could be acquired. -/
def createAndSubmitDispatcher (fragmentContentCapacity : ℕ) (checksum : Checksum)
    (bus : SendingBus) (sender : Sender) (acquired : Bool) : SendingBus :=
  let sequence := bus.sequenceGenerator + 1
  if acquired then
    { bus with
      sequenceGenerator := sequence
      pendingDispatchers := bus.pendingDispatchers ++
        [Dispatcher.init fragmentContentCapacity checksum sender.number sequence sender.chunks]
      dispatched := bus.dispatched ++ [⟨sender.number, sequence, sender.chunks⟩]
      processing := true }
  else { bus with sequenceGenerator := sequence }

/-- `pomelo_delivery_sender_submit`: the parcel of one chunk goes on at once, the
others wait for the worker that computes the checksum. There is no sender for a
parcel without chunks. -/
def submit (fragmentContentCapacity : ℕ) (checksum : Checksum) (bus : SendingBus)
    (chunks : List Chunk) (worker acquired : Bool) : SendingBus :=
  if chunks = [] then bus
  else
    let sender : Sender := ⟨bus.submitted.length, chunks⟩
    let bus := { bus with submitted := bus.submitted ++ [chunks] }
    if chunks.length < 2 then
      createAndSubmitDispatcher fragmentContentCapacity checksum bus sender acquired
    else if worker then { bus with senders := bus.senders ++ [sender] }
    else bus

/-- `update_checksum_complete` for the sender of that number. -/
def updateChecksumComplete (fragmentContentCapacity : ℕ) (checksum : Checksum)
    (bus : SendingBus) (number : ℕ) (computed acquired : Bool) : SendingBus :=
  match bus.senders.find? (·.number = number) with
  | none => bus
  | some sender =>
      let bus := { bus with senders := bus.senders.erase sender }
      if computed then
        createAndSubmitDispatcher fragmentContentCapacity checksum bus sender acquired
      else bus

/-- The first task of the dispatcher's pipeline. -/
def dispatch (bus : SendingBus) (ok : ℕ → Bool) (timer : Bool) :
    SendingBus × List (Meta × Bytes) :=
  match bus.incompleteReliableDispatcher with
  | none => (bus, [])
  | some d =>
      if d.stage = .dispatch then
        let sent := d.dispatch ok timer
        ({ bus with incompleteReliableDispatcher := some sent.1 }, sent.2)
      else (bus, [])

/-- `on_resend_timer_triggered` and the task it submits. -/
def resend (bus : SendingBus) (ok : ℕ → Bool) : SendingBus × List (Meta × Bytes) :=
  match bus.incompleteReliableDispatcher with
  | none => (bus, [])
  | some d =>
      if d.resendTimer then
        let sent := d.resend ok
        ({ bus with incompleteReliableDispatcher := some sent.1 }, sent.2)
      else (bus, [])

/-- `pomelo_delivery_bus_recv_fragment_ack`. -/
def recvFragmentAck (bus : SendingBus) (m : Meta) : SendingBus :=
  match bus.incompleteReliableDispatcher with
  | none => bus
  | some d =>
      if d.sequence = m.sequence then
        { bus with incompleteReliableDispatcher := some (d.recvAck m) }
      else bus

/-- `pomelo_delivery_dispatcher_complete` and
`pomelo_delivery_bus_on_dispatcher_completed`. -/
def completeDispatcher (bus : SendingBus) : SendingBus :=
  match bus.incompleteReliableDispatcher with
  | none => bus
  | some d =>
      if d.stage = .complete then
        { bus with
          incompleteReliableDispatcher := none
          processing := true
          acknowledged := bus.acknowledged ++
            if d.fragments.all Fragment.acked then [d.sequence] else [] }
      else bus

end SendingBus

end Delivery

end PomeloUdp
