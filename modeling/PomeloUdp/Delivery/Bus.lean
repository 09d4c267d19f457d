import Mathlib.Data.List.MinMax
import PomeloUdp.Delivery.Reassembly
import PomeloUdp.Library.Run

/-!
# The receivers of a bus

`Bus` is the receiving half of `pomelo_delivery_bus_t` in every mode, with the receivers it
has acquired from their pool, the map of them by sequence number, the heap of those that
expire, and the stages of their pipelines that the sequencer has still to run.

A reception, a stage and the completion of a worker are one step each. The stages come in
any order, so that the runs of a bus include those of the sequencer. A receiver may be
released while a stage of it is in the queue; running such a stage fails an assertion of
the pipeline, unless the receiver has been acquired again by then.

The functions follow `bus.c` and `receiver.c`. A pointer to a receiver is its number, and a
released receiver is `none`.
-/

namespace PomeloUdp

namespace Delivery

/-- An assertion that fails ends the run. -/
inductive BusFault where
  /-- One of `pomelo_delivery_bus_ensure_recv_command`,
  `pomelo_delivery_bus_handle_receiver_complete`, `pomelo_delivery_receiver_complete` and
  `pomelo_delivery_receiver_cleanup`. -/
  | bus
  /-- That of `pomelo_pipeline_execute_current_task`, whose tasks are gone. -/
  | pipeline
  deriving DecidableEq, Repr

/-- `pomelo_delivery_receiver_t` on its bus. -/
structure BusReceiver where
  base : ModeReceiver
  /-- Whether `bus` is set. -/
  bus : Bool
  canceled : Bool
  expiredTime : UInt64
  /-- Whether `expired_entry` is set. -/
  expiredEntry : Bool
  /-- Whether `sequence_entry` is set. -/
  sequenceEntry : Bool
  /-- Whether `checksum_verify_task` is set. -/
  checksumVerifyTask : Bool

namespace BusReceiver

/-- The mode of the receiver. -/
abbrev type (r : BusReceiver) : FragmentType := r.base.type

abbrev sequence (r : BusReceiver) : UInt64 := r.base.receiver.sequence

abbrev stage (r : BusReceiver) : ReceiverStage := r.base.receiver.stage

/-- Writing what the receiver has in common with one that has no bus. -/
def modify (r : BusReceiver) (f : Receiver → Receiver) : BusReceiver :=
  { r with base := { r.base with receiver := f r.base.receiver } }

/-- `pomelo_delivery_receiver_init`, which puts the receiver in the map. -/
def init (m : FragmentMeta) : BusReceiver where
  base := .init m
  bus := true
  canceled := false
  expiredTime := 0
  expiredEntry := false
  sequenceEntry := true
  checksumVerifyTask := false

end BusReceiver

/-- What the platform and the pools answer in a step. -/
structure BusEnv where
  /-- `pomelo_platform_hrtime`. -/
  now : UInt64
  /-- The mean of `pomelo_delivery_endpoint_rtt`. -/
  rttMean : UInt64
  /-- The receiver that the pool has, if there is one. -/
  acquire : Option ℕ
  /-- Whether the heap takes the receiver. -/
  push : Bool
  /-- Whether `pomelo_platform_submit_worker_task` succeeds. -/
  worker : Bool
  /-- Whether the parcel and its chunks can be allocated. -/
  parcel : Bool

/-- The receiving half of `pomelo_delivery_bus_t`. `received` and `delivered` are the
sequenced fragments that have arrived and the parcels that were handed over since the last
stop; no step reads them. -/
structure Bus where
  receivers : ℕ → Option BusReceiver
  /-- Whether a stage of the receiver is in the queue of the sequencer. -/
  queued : ℕ → Bool
  receiversMap : List (UInt64 × ℕ)
  receiversHeap : List ℕ
  incompleteReliableReceiver : Option ℕ
  lastRecvReliableSequence : UInt64
  lastRecvSequencedSequence : UInt64
  /-- The flags of the bus. -/
  processing : Bool
  stopping : Bool
  fault : Option BusFault
  received : List (UInt64 × ℕ)
  delivered : List (FragmentType × UInt64 × Bytes)

namespace Bus

/-- A started bus. -/
def start : Bus where
  receivers _ := none
  queued _ := false
  receiversMap := []
  receiversHeap := []
  incompleteReliableReceiver := none
  lastRecvReliableSequence := 0
  lastRecvSequencedSequence := 0
  processing := false
  stopping := false
  fault := none
  received := []
  delivered := []

/-- Writing a receiver. -/
def modifyReceiver (s : Bus) (id : ℕ) (f : BusReceiver → BusReceiver) : Bus :=
  { s with receivers := Function.update s.receivers id ((s.receivers id).map f) }

/-- An assertion of the bus or of a receiver. -/
def require (s : Bus) (condition : Bool) : Bus :=
  if condition then s else { s with fault := some .bus }

/-- `pomelo_heap_remove`. -/
def heapRemove (s : Bus) (id : ℕ) : Bus := { s with receiversHeap := s.receiversHeap.erase id }

/-- `pomelo_map_remove` of the entry of a receiver. -/
def mapRemove (s : Bus) (sequence : UInt64) (id : ℕ) : Bus :=
  { s with receiversMap := s.receiversMap.erase (sequence, id) }

/-- `pomelo_map_get`. -/
def mapGet (s : Bus) (sequence : UInt64) : Option ℕ := s.receiversMap.lookup sequence

/-- `pomelo_pool_release` with `pomelo_delivery_receiver_cleanup`. -/
def release (s : Bus) (id : ℕ) : Bus :=
  match s.receivers id with
  | none => s
  | some r =>
      let s := if r.expiredEntry then (s.require r.bus).heapRemove id else s
      let s := if r.sequenceEntry then (s.require r.bus).mapRemove r.sequence id else s
      { s with receivers := Function.update s.receivers id none }

/-- `pomelo_delivery_bus_dispatch_received`. -/
def dispatchReceived (s : Bus) (r : BusReceiver) : Bus :=
  { s with
    delivered := s.delivered ++
      [(r.type, r.sequence, (setFragments r.base.receiver.fragments).flatten)] }

/-- `pomelo_delivery_bus_handle_receiver_complete`. -/
def handleReceiverComplete (s : Bus) (env : BusEnv) (id : ℕ) (r : BusReceiver) : Bus :=
  let s :=
    if r.type = .reliable then
      { s.require (s.incompleteReliableReceiver = some id) with incompleteReliableReceiver := none }
    else s
  if r.base.receiver.failed then s
  else if !env.parcel then s
  else if r.type ≠ .sequenced then s.dispatchReceived r
  else if r.sequence < s.lastRecvSequencedSequence then s
  else { s with lastRecvSequencedSequence := r.sequence }.dispatchReceived r

/-- `pomelo_delivery_receiver_complete`. -/
def receiverComplete (s : Bus) (env : BusEnv) (id : ℕ) : Bus :=
  match s.receivers id with
  | none => s
  | some r =>
      if r.canceled then s.release id
      else
        let s := s.require r.bus
        let s := if r.expiredEntry then s.heapRemove id else s
        let s := s.require r.sequenceEntry
        let s := s.mapRemove r.sequence id
        let s := s.modifyReceiver id fun r =>
          { r with expiredEntry := false, sequenceEntry := false }
        (s.handleReceiverComplete env id r).release id

/-- `pomelo_delivery_receiver_cancel`. -/
def receiverCancel (s : Bus) (env : BusEnv) (id : ℕ) : Bus :=
  match s.receivers id with
  | none => s
  | some r =>
      if r.canceled then s
      else
        let s := if r.bus && r.expiredEntry then s.heapRemove id else s
        let s := if r.bus && r.sequenceEntry then s.mapRemove r.sequence id else s
        let s := s.modifyReceiver id fun r =>
          { r with canceled := true, bus := false, expiredEntry := false, sequenceEntry := false }
        if r.checksumVerifyTask then s else s.receiverComplete env id

/-- Queuing a stage: `pomelo_pipeline_next` and `pomelo_pipeline_finish` in a callback. -/
def enqueue (s : Bus) (id : ℕ) : Bus := { s with queued := Function.update s.queued id true }

section Receiving

/-- The expired time of a receiver. -/
def expiredTime (s : Bus) (id : ℕ) : UInt64 :=
  match s.receivers id with
  | none => 0
  | some r => r.expiredTime

/-- `pomelo_heap_top`. -/
def heapTop (s : Bus) : Option ℕ := s.receiversHeap.argmin fun id => (s.expiredTime id).toNat

/-- The loop of `pomelo_delivery_bus_cleanup_expired_receivers`. -/
def cleanupLoop (env : BusEnv) : ℕ → Bus → Bus
  | 0, s => s
  | fuel + 1, s =>
      match s.heapTop with
      | none => s
      | some id =>
          if env.now < s.expiredTime id then s
          else
            let s := s.heapRemove id
            let s := s.modifyReceiver id fun r => { r with expiredEntry := false }
            cleanupLoop env fuel (s.receiverCancel env id)

/-- `pomelo_delivery_bus_cleanup_expired_receivers`: each turn takes a receiver off the
heap. -/
def cleanupExpiredReceivers (s : Bus) (env : BusEnv) : Bus :=
  cleanupLoop env s.receiversHeap.length s

/-- `pomelo_delivery_bus_ensure_recv_command`. -/
def ensureRecvCommand (s : Bus) (env : BusEnv) (m : FragmentMeta) : Bus × Option ℕ :=
  let s := s.cleanupExpiredReceivers env
  match s.mapGet m.sequence with
  | some id =>
      match s.receivers id with
      | none => (s, none)
      | some r => if r.base.checkMeta m then (s, some id) else (s, none)
  | none =>
      match env.acquire with
      | none => (s, none)
      | some id =>
          if (s.receivers id).isSome then (s, none)
          else
            let s := { s with
              receivers := Function.update s.receivers id (some (.init m))
              receiversMap := (m.sequence, id) :: s.receiversMap }
            let s :=
              if m.type = .reliable then
                { s.require s.incompleteReliableReceiver.isNone with
                  incompleteReliableReceiver := some id
                  lastRecvReliableSequence := m.sequence }
              else s
            (s.enqueue id, some id)

/-- `pomelo_delivery_receiver_add_fragment`. -/
def addFragment (s : Bus) (id : ℕ) (m : FragmentMeta) (content : Bytes) : Bus :=
  match s.receivers id with
  | none => s
  | some r =>
      let added := r.modify fun receiver => receiver.addFragment m.toMeta content
      let s := s.modifyReceiver id fun _ => added
      if added.stage ≠ r.stage then s.enqueue id else s

/-- `pomelo_delivery_bus_recv_fragment_data`, but for the acks. -/
def recvFragmentData (s : Bus) (env : BusEnv) (m : FragmentMeta) (content : Bytes) : Bus :=
  let ensured (s : Bus) : Bus :=
    match s.ensureRecvCommand env m with
    | (s, none) => s
    | (s, some id) => s.addFragment id m content
  if m.type = .reliable then
    if s.incompleteReliableReceiver.isSome then
      if m.sequence ≠ s.lastRecvReliableSequence then s else ensured s
    else if m.sequence = s.lastRecvReliableSequence then s
    else ensured s
  else if m.type = .sequenced then
    let s := { s with received := s.received ++ [(m.sequence, m.fragmentIndex.toNat)] }
    if m.sequence < s.lastRecvSequencedSequence then s else ensured s
  else ensured s

end Receiving

section Pipeline

/-- How long an unreliable or sequenced receiver waits at least and at most. -/
def unrelMsgMinAliveTimeNs : UInt64 := 100000000

def unrelMsgMaxAliveTimeNs : UInt64 := 1000000000

/-- How many times the round trip it waits otherwise. -/
def unrelMsgExpiredFactorRtt : UInt64 := 10

/-- The time a receiver that expires has. -/
def aliveTime (rttMean : UInt64) : UInt64 :=
  let time := rttMean * unrelMsgExpiredFactorRtt
  if time < unrelMsgMinAliveTimeNs then unrelMsgMinAliveTimeNs
  else if unrelMsgMaxAliveTimeNs < time then unrelMsgMaxAliveTimeNs
  else time

/-- `pomelo_delivery_receiver_wait_fragments`. -/
def waitFragments (s : Bus) (env : BusEnv) (id : ℕ) : Bus :=
  match s.receivers id with
  | none => s
  | some r =>
      if r.type = .reliable then s.modifyReceiver id fun r => { r with expiredTime := 0 }
      else
        let expired := env.now + aliveTime env.rttMean
        if env.push then
          { s with receiversHeap := id :: s.receiversHeap }.modifyReceiver id fun r =>
            { r with expiredTime := expired, expiredEntry := true }
        else
          (s.modifyReceiver id fun r =>
            { r.modify Receiver.fail with expiredTime := expired }).enqueue id

/-- `pomelo_delivery_receiver_verify_checksum`. -/
def verifyChecksum (s : Bus) (env : BusEnv) (id : ℕ) : Bus :=
  match s.receivers id with
  | none => s
  | some r =>
      let verified := r.modify fun receiver => receiver.verifyChecksum env.worker
      match verified.stage with
      | .checking _ => s.modifyReceiver id fun _ => { verified with checksumVerifyTask := true }
      | _ => (s.modifyReceiver id fun _ => verified).enqueue id

/-- `pomelo_pipeline_execute_current_task` for a stage in the queue. -/
def executeCurrentTask (s : Bus) (env : BusEnv) (id : ℕ) : Bus :=
  let s := { s with queued := Function.update s.queued id false }
  match s.receivers id with
  | none => { s with fault := some .pipeline }
  | some r =>
      match r.stage with
      | .waitFragments => s.waitFragments env id
      | .verifyChecksum => s.verifyChecksum env id
      | .checking _ => s
      | .complete => s.receiverComplete env id

/-- `verify_checksum_complete`, and the last stage, which runs at once. -/
def verifyChecksumComplete (checksum : Checksum) (s : Bus) (env : BusEnv) (id : ℕ)
    (canceled computed : Bool) : Bus :=
  match s.receivers id with
  | none => s
  | some r =>
      match r.stage with
      | .checking embeddedChecksum =>
          let verified :=
            if canceled || r.canceled then
              r.modify fun receiver => { receiver with
                failed := receiver.failed || !computed, stage := .complete }
            else r.modify fun receiver =>
              receiver.verifyChecksumComplete checksum embeddedChecksum computed
          let s := s.modifyReceiver id fun _ =>
            { verified with canceled := r.canceled || canceled, checksumVerifyTask := false }
          s.receiverComplete env id
      | _ => s

end Pipeline

/-- `pomelo_delivery_bus_stop` of a bus that is not processing, on the receiving half. -/
def stopReceivers (s : Bus) (env : BusEnv) : Bus :=
  let s := s.receiversMap.foldl
    (fun s entry =>
      (s.modifyReceiver entry.2 fun r => { r with sequenceEntry := false }).receiverCancel env
        entry.2) s
  { s with
    receiversMap := []
    incompleteReliableReceiver := none
    receiversHeap := []
    lastRecvReliableSequence := 0
    lastRecvSequencedSequence := 0
    processing := false
    stopping := false
    received := []
    delivered := [] }

/-- `pomelo_delivery_bus_stop`. -/
def stop (s : Bus) (env : BusEnv) : Bus :=
  if s.processing then { s with stopping := true } else s.stopReceivers env

/-- The flags in `pomelo_delivery_bus_process_sending_deferred`. -/
def processSendingDeferred (s : Bus) (env : BusEnv) : Bus :=
  let s := { s with processing := false }
  if s.stopping then s.stop env else s

end Bus

/-- The steps of a bus. -/
inductive BusEvent where
  /-- A data fragment is taken from the queue of receptions. -/
  | recvFragmentData (m : FragmentMeta) (content : Bytes)
  /-- A stage of a receiver is taken from the queue. -/
  | stage (id : ℕ)
  /-- The worker of a receiver is done. -/
  | verifyChecksumComplete (id : ℕ) (canceled computed : Bool)
  /-- The sending half of the bus begins and ends to process. -/
  | processSending
  | processSendingDeferred
  | stop

/-- A step, with the answers in it. -/
structure BusInput where
  env : BusEnv
  event : BusEvent

namespace Bus

/-- One step. -/
def step (checksum : Checksum) (s : Bus) (i : BusInput) : Bus :=
  if s.fault.isSome then s
  else
    match i.event with
    | .recvFragmentData m content =>
        if m.type = .ack then s else s.recvFragmentData i.env m content
    | .stage id => if s.queued id then s.executeCurrentTask i.env id else s
    | .verifyChecksumComplete id canceled computed =>
        match s.receivers id with
        | none => s
        | some r =>
            if r.checksumVerifyTask then
              s.verifyChecksumComplete checksum i.env id canceled computed
            else s
    | .processSending => { s with processing := true }
    | .processSendingDeferred =>
        if s.processing then s.processSendingDeferred i.env else s
    | .stop => s.stop i.env

end Bus

end Delivery

end PomeloUdp
