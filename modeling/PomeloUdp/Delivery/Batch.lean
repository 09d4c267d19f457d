import Mathlib.Logic.Function.Basic
import PomeloUdp.Base.Pipeline

/-!
# Batch senders

A sender makes one dispatcher for each of its transmissions and counts their results. A
dispatcher waits in the list of its bus until the bus starts it, sends its fragments, and a
reliable one then waits for the acknowledgements. The last result completes the sender.

`Batch` is all the senders and dispatchers with the buses they use. The pipeline of a sender
has no sequencer: its stages run one after the other, and the loop of its second stage is
left at each turn, so that whatever the sequencer runs in between are steps of their own. The
stages of the dispatchers and the sending tasks of the buses are in the sequencer and run in
any order. The callback of a result is left too, with `reporting` and `completing` as what is
still to do behind it.

Senders and dispatchers are numbered, so that one that is released is `none` for ever. The
functions follow `sender.c`, `dispatcher.c` and `bus.c`.
-/

namespace PomeloUdp

namespace Delivery

open Base (Pipeline)

/-- `pomelo_delivery_mode`. -/
inductive DeliveryMode where
  | unreliable
  | sequenced
  | reliable
  deriving DecidableEq, Repr

/-- `pomelo_delivery_transmission_t`. -/
structure Transmission where
  bus : ℕ
  mode : DeliveryMode
  deriving DecidableEq, Repr

/-- The loop of `pomelo_delivery_sender_dispatch` between two turns. -/
structure DispatchLoop where
  /-- The records that the iterator has not reached. -/
  rest : List Transmission
  failedCounter : ℕ
  deriving DecidableEq

/-- `pomelo_delivery_sender_t`. -/
structure BatchSender where
  pipeline : Pipeline
  parcel : ℕ
  /-- `parcel->chunks->size`. -/
  chunks : ℕ
  records : List Transmission
  dispatchers : List ℕ
  completedCounter : ℕ
  successCounter : ℕ
  canceled : Bool
  failed : Bool
  system : Bool
  /-- Whether `checksum_update_task` is set. -/
  checksumUpdateTask : Bool
  loop : Option DispatchLoop
  /-- `pomelo_delivery_sender_on_result` has been called and has not returned. -/
  reporting : Bool

namespace BatchSender

/-- `pomelo_delivery_sender_init`. -/
def init (parcel chunks : ℕ) (system : Bool) : BatchSender where
  pipeline := .init 3
  parcel := parcel
  chunks := chunks
  records := []
  dispatchers := []
  completedCounter := 0
  successCounter := 0
  canceled := false
  failed := false
  system := system
  checksumUpdateTask := false
  loop := none
  reporting := false

end BatchSender

/-- `pomelo_delivery_dispatcher_t`. -/
structure BatchDispatcher where
  pipeline : Pipeline
  sender : ℕ
  /-- Whether `sender_entry` is set. -/
  senderEntry : Bool
  bus : ℕ
  mode : DeliveryMode
  sequence : UInt64
  /-- Which fragments are acknowledged. -/
  fragments : List Bool
  ackedCounter : ℕ
  failed : Bool
  canceled : Bool
  /-- Whether the resend timer runs. -/
  resendTimer : Bool
  /-- The last stage has reported to the sender and has not returned; whether it found the
  dispatcher cancelled. -/
  completing : Option Bool

namespace BatchDispatcher

/-- `pomelo_delivery_dispatcher_init`. `extra` says that the checksum has a fragment of its
own, which only a parcel of two chunks or more can need. -/
def init (sender : ℕ) (t : Transmission) (sequence : UInt64) (chunks : ℕ) (extra : Bool) :
    BatchDispatcher where
  pipeline := .init 2
  sender := sender
  senderEntry := true
  bus := t.bus
  mode := t.mode
  sequence := sequence
  fragments := List.replicate (if 2 ≤ chunks ∧ extra then chunks + 1 else chunks) false
  ackedCounter := 0
  failed := false
  canceled := false
  resendTimer := false
  completing := none

end BatchDispatcher

/-- The sending half of `pomelo_delivery_bus_t`. -/
structure BatchBus where
  pendingDispatchers : List ℕ
  incompleteReliableDispatcher : Option ℕ
  sequenceGenerator : UInt64
  /-- The flags of the bus. -/
  processing : Bool
  stopping : Bool
  /-- Whether `send_task` is in the queue of the sequencer. -/
  sendTask : Bool

/-- What fails and ends the run. -/
inductive BatchFault where
  /-- The assertion of `pomelo_delivery_dispatcher_complete`. -/
  | senderEntry
  /-- That of `pomelo_pipeline_execute_current_task`, whose tasks are gone. -/
  | pipeline
  /-- A dispatcher uses a sender that is released. -/
  | released
  deriving DecidableEq, Repr

/-- What has happened to a sender; no step reads it. -/
structure BatchHistory where
  created : List ℕ
  /-- The dispatchers that have reported, each with its success. -/
  reported : List (ℕ × Bool)
  /-- The success counter at each run of the last stage. -/
  completed : List ℕ

/-- The senders and dispatchers of a delivery context. -/
structure Batch where
  senders : ℕ → Option BatchSender
  dispatchers : ℕ → Option BatchDispatcher
  buses : ℕ → BatchBus
  /-- Whether the stage of a dispatcher is in the queue of the sequencer. -/
  queued : ℕ → Bool
  nextSender : ℕ
  nextDispatcher : ℕ
  fault : Option BatchFault
  history : ℕ → BatchHistory

namespace Batch

/-- The context before its first sender. -/
def start : Batch where
  senders _ := none
  dispatchers _ := none
  buses _ := ⟨[], none, 0, false, false, false⟩
  queued _ := false
  nextSender := 0
  nextDispatcher := 0
  fault := none
  history _ := ⟨[], [], []⟩

/-- Writing a sender. -/
def modifySender (s : Batch) (n : ℕ) (f : BatchSender → BatchSender) : Batch :=
  { s with senders := Function.update s.senders n ((s.senders n).map f) }

/-- Writing a dispatcher. -/
def modifyDispatcher (s : Batch) (d : ℕ) (f : BatchDispatcher → BatchDispatcher) : Batch :=
  { s with dispatchers := Function.update s.dispatchers d ((s.dispatchers d).map f) }

/-- Writing a bus. -/
def modifyBus (s : Batch) (b : ℕ) (f : BatchBus → BatchBus) : Batch :=
  { s with buses := Function.update s.buses b (f (s.buses b)) }

/-- Adding to the history of a sender. -/
def note (s : Batch) (n : ℕ) (f : BatchHistory → BatchHistory) : Batch :=
  { s with history := Function.update s.history n (f (s.history n)) }

section Dispatchers

/-- `pomelo_pipeline_execute` of a dispatcher, inside the sequencer. -/
def dispatcherExecute (s : Batch) (d : ℕ) (p : Pipeline) : Batch :=
  let s := s.modifyDispatcher d fun y => { y with pipeline := { p with busy := true }.returned.1 }
  { s with queued := Function.update s.queued d true }

/-- `pomelo_delivery_dispatcher_submit`. -/
def dispatcherSubmit (s : Batch) (d : ℕ) : Batch := s.dispatcherExecute d (.init 2)

/-- `pomelo_pipeline_next` of a dispatcher. -/
def dispatcherNext (s : Batch) (d : ℕ) : Batch :=
  match s.dispatchers d with
  | none => s
  | some y => if y.pipeline.advance.2 then s.dispatcherExecute d y.pipeline.advance.1 else s

/-- `pomelo_pipeline_finish` of a dispatcher. -/
def dispatcherFinish (s : Batch) (d : ℕ) : Batch :=
  match s.dispatchers d with
  | none => s
  | some y => if y.pipeline.conclude.2 then s.dispatcherExecute d y.pipeline.conclude.1 else s

/-- The flag FAILED and `pomelo_pipeline_finish`. -/
def dispatcherFail (s : Batch) (d : ℕ) : Batch :=
  (s.modifyDispatcher d fun y => { y with failed := true }).dispatcherFinish d

/-- `pomelo_delivery_dispatcher_cancel`. -/
def dispatcherCancel (s : Batch) (d : ℕ) : Batch :=
  match s.dispatchers d with
  | none => s
  | some y =>
      if y.canceled then s
      else
        (s.modifyDispatcher d fun y =>
          { y with canceled := true, resendTimer := false }).dispatcherFinish d

/-- `pomelo_pool_release` with `pomelo_delivery_dispatcher_cleanup`. -/
def dispatcherRelease (s : Batch) (d : ℕ) : Batch :=
  match s.dispatchers d with
  | none => s
  | some y =>
      let s :=
        if y.senderEntry then
          if (s.senders y.sender).isSome then
            s.modifySender y.sender fun x => { x with dispatchers := x.dispatchers.erase d }
          else { s with fault := some .released }
        else s
      { s with dispatchers := Function.update s.dispatchers d none }

end Dispatchers

section Buses

/-- `pomelo_delivery_bus_process_sending`. -/
def processSending (s : Batch) (b : ℕ) : Batch :=
  if (s.buses b).processing then s
  else s.modifyBus b fun bus => { bus with processing := true, sendTask := true }

/-- `pomelo_delivery_bus_stop` on the sending half of a bus that is not processing. -/
def stopDispatchers (s : Batch) (b : ℕ) : Batch :=
  let bus := s.buses b
  let s := bus.pendingDispatchers.foldl dispatcherCancel s
  let s :=
    match bus.incompleteReliableDispatcher with
    | none => s
    | some d => s.dispatcherCancel d
  s.modifyBus b fun bus => { bus with
    pendingDispatchers := []
    incompleteReliableDispatcher := none
    sequenceGenerator := 0
    processing := false
    stopping := false }

/-- `pomelo_delivery_bus_stop`. -/
def stop (s : Batch) (b : ℕ) : Batch :=
  if (s.buses b).processing then s.modifyBus b fun bus => { bus with stopping := true }
  else s.stopDispatchers b

/-- The loop of `pomelo_delivery_bus_process_sending_deferred` over the pending dispatchers.
A reliable one blocks the bus. -/
def submitPending (b : ℕ) : List ℕ → Batch → Batch
  | [], s => s.modifyBus b fun bus => { bus with pendingDispatchers := [] }
  | d :: pending, s =>
      if (s.buses b).incompleteReliableDispatcher.isSome then
        s.modifyBus b fun bus => { bus with pendingDispatchers := d :: pending }
      else
        let s :=
          if (s.dispatchers d).any fun y => y.mode = .reliable then
            s.modifyBus b fun bus => { bus with incompleteReliableDispatcher := some d }
          else s
        submitPending b pending (s.dispatcherSubmit d)

/-- `pomelo_delivery_bus_process_sending_deferred`. -/
def processSendingDeferred (s : Batch) (b : ℕ) : Batch :=
  let s := s.modifyBus b fun bus => { bus with sendTask := false }
  let s := if (s.buses b).stopping then s else submitPending b (s.buses b).pendingDispatchers s
  let s := s.modifyBus b fun bus => { bus with processing := false }
  if (s.buses b).stopping then s.stop b else s

/-- `pomelo_delivery_bus_on_dispatcher_completed`. -/
def onDispatcherCompleted (s : Batch) (b d : ℕ) : Batch :=
  let s :=
    if (s.buses b).incompleteReliableDispatcher = some d then
      s.modifyBus b fun bus => { bus with incompleteReliableDispatcher := none }
    else s
  s.processSending b

end Buses

section Senders

/-- `pomelo_pool_release` with `pomelo_delivery_sender_cleanup`. -/
def senderRelease (s : Batch) (n : ℕ) : Batch :=
  { s with senders := Function.update s.senders n none }

/-- `pomelo_delivery_sender_complete`, up to the callback. -/
def senderComplete (s : Batch) (n : ℕ) : Batch :=
  match s.senders n with
  | none => s
  | some x =>
      let s := s.note n fun h => { h with completed := h.completed ++ [x.successCounter] }
      if x.canceled then s.senderRelease n
      else if x.system then s.senderRelease n
      else s.modifySender n fun x => { x with reporting := true }

/-- `pomelo_delivery_sender_dispatch` begins. -/
def senderDispatch (s : Batch) (n : ℕ) : Batch :=
  s.modifySender n fun x => { x with loop := some ⟨x.records, 0⟩ }

/-- `pomelo_pipeline_execute` of a sender at its second or third stage. -/
def senderExecute (s : Batch) (n : ℕ) (p : Pipeline) : Batch :=
  let s := s.modifySender n fun x => { x with pipeline := { p with busy := true } }
  if p.taskIndex = p.last then s.senderComplete n else s.senderDispatch n

/-- `pomelo_pipeline_execute` of a sender behind a stage. -/
def senderReturned (s : Batch) (n : ℕ) : Batch :=
  match s.senders n with
  | none => s
  | some x =>
      if x.pipeline.returned.2 then s.senderExecute n x.pipeline.returned.1
      else s.modifySender n fun x => { x with pipeline := x.pipeline.returned.1 }

/-- `pomelo_pipeline_next` of a sender. -/
def senderNext (s : Batch) (n : ℕ) : Batch :=
  match s.senders n with
  | none => s
  | some x =>
      if x.pipeline.advance.2 then s.senderExecute n x.pipeline.advance.1
      else s.modifySender n fun x => { x with pipeline := x.pipeline.advance.1 }

/-- `pomelo_pipeline_finish` of a sender. -/
def senderFinish (s : Batch) (n : ℕ) : Batch :=
  match s.senders n with
  | none => s
  | some x =>
      if x.pipeline.conclude.2 then s.senderExecute n x.pipeline.conclude.1
      else s.modifySender n fun x => { x with pipeline := x.pipeline.conclude.1 }

/-- `pomelo_delivery_sender_update_checksum`; `worker` says whether the task could be
submitted. -/
def updateChecksum (s : Batch) (n : ℕ) (worker : Bool) : Batch :=
  match s.senders n with
  | none => s
  | some x =>
      if x.chunks < 2 then s.senderNext n
      else if worker then s.modifySender n fun x => { x with checksumUpdateTask := true }
      else (s.modifySender n fun x => { x with failed := true }).senderFinish n

/-- `pomelo_delivery_sender_create`, for options with which it succeeds. -/
def senderCreate (s : Batch) (parcel chunks : ℕ) (system : Bool) : Batch :=
  { s with
    senders := Function.update s.senders s.nextSender (some (.init parcel chunks system))
    nextSender := s.nextSender + 1 }

/-- `pomelo_delivery_sender_add_transmission` for each of these. -/
def addTransmissions (s : Batch) (n : ℕ) (ts : List Transmission) : Batch :=
  s.modifySender n fun x => { x with records := x.records ++ ts }

/-- `pomelo_delivery_sender_submit`. -/
def senderSubmit (s : Batch) (n : ℕ) (worker : Bool) : Batch :=
  let s := s.modifySender n fun x => { x with pipeline := { Pipeline.init 3 with busy := true } }
  (s.updateChecksum n worker).senderReturned n

/-- `pomelo_delivery_sender_cancel` of a sender that has not been submitted. -/
def senderCancel (s : Batch) (n : ℕ) : Batch :=
  (s.modifySender n fun x => { x with canceled := true }).senderFinish n

/-- `update_checksum_complete`. -/
def updateChecksumComplete (s : Batch) (n : ℕ) (canceled computed : Bool) : Batch :=
  match s.senders n with
  | none => s
  | some x =>
      let s := s.modifySender n fun x => { x with
        checksumUpdateTask := false
        failed := x.failed || !computed
        canceled := x.canceled || canceled }
      if x.failed || !computed || x.canceled || canceled then s.senderFinish n
      else s.senderNext n

/-- `create_and_submit_dispatcher` in a turn of the loop. `acquired` says whether the
dispatcher could be acquired and initialized; what fails is cleaned up at once. -/
def createAndSubmitDispatcher (s : Batch) (n : ℕ) (acquired extra : Bool) : Batch :=
  match s.senders n with
  | none => s
  | some x =>
      match x.loop with
      | none | some ⟨[], _⟩ => s
      | some ⟨t :: rest, failedCounter⟩ =>
          let s := s.modifyBus t.bus fun bus =>
            { bus with sequenceGenerator := bus.sequenceGenerator + 1 }
          if acquired then
            let d := s.nextDispatcher
            let y : BatchDispatcher :=
              .init n t (s.buses t.bus).sequenceGenerator x.chunks extra
            let s := { s with
              dispatchers := Function.update s.dispatchers d (some y)
              nextDispatcher := d + 1 }
            let s := s.note n fun h => { h with created := h.created ++ [d] }
            let s := s.modifySender n fun x => { x with
              dispatchers := x.dispatchers ++ [d], loop := some ⟨rest, failedCounter⟩ }
            let s := s.modifyBus t.bus fun bus =>
              { bus with pendingDispatchers := bus.pendingDispatchers ++ [d] }
            s.processSending t.bus
          else s.modifySender n fun x => { x with loop := some ⟨rest, failedCounter + 1⟩ }

/-- `pomelo_delivery_sender_dispatch` behind its loop. -/
def dispatched (s : Batch) (n : ℕ) : Batch :=
  match s.senders n with
  | none => s
  | some x =>
      match x.loop with
      | none | some ⟨_ :: _, _⟩ => s
      | some ⟨[], failedCounter⟩ =>
          let s := s.modifySender n fun x => { x with
            loop := none, completedCounter := x.completedCounter + failedCounter }
          let s :=
            if 0 < failedCounter ∧ x.completedCounter + failedCounter = x.records.length then
              s.senderNext n
            else s
          s.senderReturned n

/-- `pomelo_delivery_sender_on_dispatcher_result`. -/
def onDispatcherResult (s : Batch) (n d : ℕ) (success : Bool) : Batch :=
  match s.senders n with
  | none => { s with fault := some .released }
  | some x =>
      let s := s.note n fun h => { h with reported := h.reported ++ [(d, success)] }
      let s := s.modifySender n fun x => { x with
        successCounter := x.successCounter + success.toNat
        completedCounter := x.completedCounter + 1 }
      if x.completedCounter + 1 = x.records.length then s.senderNext n else s

end Senders

section Stages

/-- The sender has called back and waits for the return. -/
def senderReporting (s : Batch) (n : ℕ) : Bool := (s.senders n).any fun x => x.reporting

/-- `pomelo_delivery_dispatcher_dispatch`. `sent` is the answer of
`pomelo_delivery_dispatcher_send`, `timer` that of `pomelo_platform_timer_start`. -/
def dispatcherDispatch (s : Batch) (d : ℕ) (sent timer : Bool) : Batch :=
  match s.dispatchers d with
  | none => s
  | some y =>
      if !sent then s.dispatcherFail d
      else if y.mode ≠ .reliable then s.dispatcherNext d
      else if timer then s.modifyDispatcher d fun y => { y with resendTimer := true }
      else s.dispatcherFail d

/-- `pomelo_delivery_dispatcher_complete`, up to the return of
`pomelo_delivery_sender_on_dispatcher_result`. -/
def dispatcherComplete (s : Batch) (d : ℕ) : Batch :=
  match s.dispatchers d with
  | none => s
  | some y =>
      let s :=
        if y.canceled then s
        else if y.senderEntry then
          (s.modifySender y.sender fun x =>
            { x with dispatchers := x.dispatchers.erase d }).modifyDispatcher d fun y =>
              { y with senderEntry := false }
        else { s with fault := some .senderEntry }
      (s.modifyDispatcher d fun y => { y with completing := some y.canceled }).onDispatcherResult
        y.sender d (!y.failed && !y.canceled)

/-- `pomelo_delivery_dispatcher_complete` from there on. -/
def dispatcherCompleted (s : Batch) (d : ℕ) : Batch :=
  match s.dispatchers d with
  | none => s
  | some y =>
      match y.completing with
      | none => s
      | some true => s.dispatcherRelease d
      | some false => (s.onDispatcherCompleted y.bus d).dispatcherRelease d

/-- `pomelo_pipeline_execute_current_task` of a dispatcher. Its last stage is left only while
the sender calls back. -/
def dispatcherTask (s : Batch) (d : ℕ) (sent timer : Bool) : Batch :=
  let s := { s with queued := Function.update s.queued d false }
  match s.dispatchers d with
  | none => { s with fault := some .pipeline }
  | some y =>
      if y.pipeline.taskIndex = y.pipeline.last then
        let s := s.dispatcherComplete d
        if s.senderReporting y.sender then s else s.dispatcherCompleted d
      else s.dispatcherDispatch d sent timer

/-- `pomelo_delivery_dispatcher_resend`. -/
def dispatcherResend (s : Batch) (d : ℕ) (sent : Bool) : Batch :=
  if sent then s else s.dispatcherFail d

/-- `pomelo_delivery_dispatcher_recv_ack`. -/
def dispatcherRecvAck (s : Batch) (d index : ℕ) : Batch :=
  match s.dispatchers d with
  | none => s
  | some y =>
      if y.mode ≠ .reliable then s
      else
        match y.fragments[index]? with
        | none | some true => s
        | some false =>
            let s := s.modifyDispatcher d fun y => { y with
              fragments := y.fragments.set index true, ackedCounter := y.ackedCounter + 1 }
            if y.ackedCounter + 1 < y.fragments.length then s else s.dispatcherNext d

/-- `pomelo_delivery_bus_recv_fragment_ack`. -/
def recvFragmentAck (s : Batch) (b : ℕ) (sequence : UInt64) (index : ℕ) : Batch :=
  match (s.buses b).incompleteReliableDispatcher with
  | none => s
  | some d =>
      if (s.dispatchers d).any fun y => y.sequence = sequence then s.dispatcherRecvAck d index
      else s

end Stages

end Batch

/-- The steps of the senders of a context. -/
inductive BatchEvent where
  /-- A sender is created with these transmissions and submitted. -/
  | submit (parcel chunks : ℕ) (system : Bool) (records : List Transmission) (worker : Bool)
  /-- The worker of a sender is done. -/
  | updateChecksumComplete (n : ℕ) (canceled computed : Bool)
  /-- A turn of the loop of a sender, and the end of the loop. -/
  | createAndSubmitDispatcher (n : ℕ) (acquired extra : Bool)
  | dispatched (n : ℕ)
  /-- A stage of a dispatcher is taken from the queue. -/
  | dispatcherTask (d : ℕ) (sent timer : Bool)
  /-- The resend timer of a dispatcher fires. -/
  | dispatcherResend (d : ℕ) (sent : Bool)
  /-- The callback of the result of a sender returns. -/
  | reported (n : ℕ)
  /-- The sender returns to the dispatcher that it has called back for. -/
  | dispatcherCompleted (d : ℕ)
  | processSendingDeferred (b : ℕ)
  | recvFragmentAck (b : ℕ) (sequence : UInt64) (index : ℕ)
  | stop (b : ℕ)

namespace Batch

/-- One step. -/
def step (s : Batch) (e : BatchEvent) : Batch :=
  if s.fault.isSome then s
  else
    match e with
    | .submit parcel chunks system records worker =>
        let n := s.nextSender
        ((s.senderCreate parcel chunks system).addTransmissions n records).senderSubmit n worker
    | .updateChecksumComplete n canceled computed =>
        if (s.senders n).any fun x => x.checksumUpdateTask then
          s.updateChecksumComplete n canceled computed
        else s
    | .createAndSubmitDispatcher n acquired extra =>
        s.createAndSubmitDispatcher n acquired extra
    | .dispatched n => s.dispatched n
    | .dispatcherTask d sent timer => if s.queued d then s.dispatcherTask d sent timer else s
    | .dispatcherResend d sent =>
        if (s.dispatchers d).any fun y => y.resendTimer then s.dispatcherResend d sent else s
    | .reported n => if s.senderReporting n then s.senderRelease n else s
    | .dispatcherCompleted d =>
        if (s.dispatchers d).any fun y => s.senderReporting y.sender then s
        else s.dispatcherCompleted d
    | .processSendingDeferred b =>
        if (s.buses b).sendTask then s.processSendingDeferred b else s
    | .recvFragmentAck b sequence index => s.recvFragmentAck b sequence index
    | .stop b => s.stop b

end Batch

end Delivery

end PomeloUdp
