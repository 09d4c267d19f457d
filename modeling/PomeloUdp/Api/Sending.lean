import PomeloUdp.Api.Stack

/-!
# Sending

A message becomes a sender with one transmission for each bus. Its checksum, if
it has one, is computed by a worker; then it makes a dispatcher for each
transmission. A dispatcher waits on its bus until the bus processes it, sends
its fragments through the endpoint, and if it is reliable sends them again
until they are acknowledged. The result of the sender is reported when its last
dispatcher is complete.
-/

namespace PomeloUdp

namespace Api

open Protocol

/-- What the application calls. A message is `large` if it has more than one
chunk; `reliable` is the mode of the channel at the call. -/
inductive ApiCall where
  /-- `pomelo_session_send`. -/
  | sessionSend (session : SessionId) (channel : ℕ) (reliable large : Bool)
  /-- `pomelo_socket_send`, with the mode of each session's channel. -/
  | socketSend (sessions : List (SessionId × Bool)) (channel : ℕ) (large : Bool)
  /-- `pomelo_session_disconnect`. -/
  | disconnect (session : SessionId)
  /-- `pomelo_socket_stop`. -/
  | stop
  deriving DecidableEq, Repr

namespace Stack

/-- `pomelo_protocol_socket_send`, for a payload that it can send. -/
def protocolSend (st : Stack) (p : PeerId) : Bool :=
  st.protocolState = .running && (st.peers p).state = .connected

/-- `pomelo_delivery_endpoint_send`. A peer that is NULL is a fault; no
datagram leaves then. -/
def endpointSend (st : Stack) (e : EndpointId) (target : ℕ) : Stack × Bool :=
  match (st.endpoints e).extra with
  | none => ({ st with sends := st.sends ++ [⟨e, target, none, 0, none⟩] }, false)
  | some s =>
      let session := st.sessions s
      ({ st with sends := st.sends ++ [⟨e, target, some s, session.signature, session.peer⟩] },
        match session.peer with
        | none => false
        | some p => st.protocolSend p)

/-- `pomelo_pipeline_finish` and `pomelo_pipeline_next` for the two tasks of a
dispatcher. -/
def dispatcherFinish (st : Stack) (d : DispatcherId) : Stack :=
  if (st.dispatchers d).complete then st
  else (st.setDispatcher d { st.dispatchers d with complete := true }).submit (.dispatcher d)

/-- `pomelo_delivery_dispatcher_cancel`. -/
def dispatcherCancel (st : Stack) (d : DispatcherId) : Stack :=
  if (st.dispatchers d).canceled then st
  else
    (st.setDispatcher d
      { st.dispatchers d with canceled := true, resending := false }).dispatcherFinish d

/-- Cancels the reliable dispatcher that a bus waits for, if there is one. -/
def cancelIncomplete (st : Stack) : Option DispatcherId → Stack
  | none => st
  | some d => st.dispatcherCancel d

/-- `pomelo_delivery_bus_stop`. -/
def busStop (st : Stack) (b : BusId) : Stack :=
  if (st.buses b).processing then st.setBus b { st.buses b with stop := true }
  else
    let st := (st.buses b).pending.foldl dispatcherCancel st
    let st := st.cancelIncomplete (st.buses b).incomplete
    st.setBus b
      { st.buses b with pending := [], verifying := [], incomplete := none, stop := false }

/-- `pomelo_delivery_bus_process_sending`. -/
def processSending (st : Stack) (b : BusId) : Stack :=
  if (st.buses b).processing then st
  else (st.setBus b { st.buses b with processing := true }).submit (.processSending b)

/-- The loop of `pomelo_delivery_bus_process_sending_deferred` over the pending
dispatchers; a reliable one blocks the bus. -/
def submitPending (b : BusId) : List DispatcherId → Stack → Stack
  | [], st => st.setBus b { st.buses b with pending := [] }
  | d :: pending, st =>
      if (st.buses b).incomplete.isSome then
        st.setBus b { st.buses b with pending := d :: pending }
      else
        let st := if (st.dispatchers d).reliable then
          st.setBus b { st.buses b with incomplete := some d } else st
        submitPending b pending (st.submit (.dispatcher d))

/-- `pomelo_delivery_bus_process_sending_deferred`. -/
def processSendingDeferred (st : Stack) (b : BusId) : Stack :=
  if (st.buses b).stop then
    (st.setBus b { st.buses b with processing := false }).busStop b
  else
    let st := submitPending b (st.buses b).pending st
    st.setBus b { st.buses b with processing := false }

/-- `pomelo_delivery_dispatcher_init`: the new dispatcher waits on its bus. -/
def dispatcherInit (st : Stack) (sender : SenderId) (t : Transmission) : Stack :=
  let d := st.nextDispatcher
  let bus := st.buses t.bus
  let st := { st with nextDispatcher := d + 1 }.setDispatcher d
    { sender := sender, bus := t.bus, endpoint := bus.endpoint, reliable := t.reliable,
      signature := t.signature }
  st.setBus t.bus { bus with pending := bus.pending ++ [d] }

/-- `create_and_submit_dispatcher`. -/
def createDispatcher (st : Stack) (sender : SenderId) (t : Transmission) : Stack :=
  (st.dispatcherInit sender t).processSending t.bus

/-- `pomelo_delivery_sender_dispatch`. Outside the sequencer each submission
runs the queue to its end before the loop goes on. -/
def senderDispatch (st : Stack) (busy : Bool) (sender : SenderId) : Stack :=
  let records := (st.senders sender).records
  if busy then records.foldl (fun st t => st.createDispatcher sender t) st
  else { st with dispatching := st.dispatching ++ records.map (sender, ·) }

/-- `pomelo_delivery_sender_submit` of a new sender: a message of more than one
chunk waits for its checksum. -/
def senderSubmit (st : Stack) (busy large system : Bool) (records : List Transmission) : Stack :=
  let n := st.nextSender
  let st := { st.setSender n { records := records, system := system } with nextSender := n + 1 }
  if large then { st with checksumming := st.checksumming ++ [n] }
  else st.senderDispatch busy n

/-- The transmission to a channel of a session, if the session is live. -/
def transmission (st : Stack) (channel : ℕ) (s : SessionId) (reliable : Bool) :
    Option Transmission :=
  let session := st.sessions s
  if session.signature = 0 then none
  else session.channels[channel]?.map (⟨·, reliable, session.signature⟩)

/-- One call of the application, inside a task (`busy`) or outside. A released
session is left alone: its signature tells the application. -/
def apiCall (busy : Bool) (st : Stack) : ApiCall → Stack
  | .sessionSend s channel reliable large =>
      match st.transmission channel s reliable with
      | none => st
      | some t => st.senderSubmit busy large false [t]
  | .socketSend sessions channel large =>
      let connected := sessions.filter fun s => (st.sessions s.1).state = .connected
      match connected.filterMap fun s => st.transmission channel s.1 s.2 with
      | [] => st
      | records => st.senderSubmit busy large false records
  | .disconnect s =>
      if (st.sessions s).signature = 0 then st else st.submit (.sessionDisconnect s)
  | .stop =>
      if st.socketState = .running then
        { st with socketState := .stopping }.submit .socketStop
      else st

/-- A callback in which the application makes these calls. -/
def inCallback (st : Stack) (calls : List ApiCall) : Stack := calls.foldl (apiCall true) st

/-- `pomelo_delivery_sender_on_dispatcher_result`; the last result completes the
sender, and one that is not a system sender is reported to the application. -/
def onDispatcherResult (st : Stack) (n : SenderId) (success : Bool) (calls : List ApiCall) :
    Stack :=
  let sender := st.senders n
  let sender :=
    { sender with
      successCounter := sender.successCounter + success.toNat
      completedCounter := sender.completedCounter + 1 }
  let st := st.setSender n sender
  if sender.completedCounter = sender.records.length && !sender.system then
    { st with results := st.results ++ [(n, sender.successCounter)] }.inCallback calls
  else st

/-- `pomelo_delivery_bus_on_dispatcher_completed`. -/
def onDispatcherCompleted (st : Stack) (b : BusId) (d : DispatcherId) : Stack :=
  let st := if (st.buses b).incomplete = some d then
    st.setBus b { st.buses b with incomplete := none } else st
  st.processSending b

/-- `pomelo_delivery_dispatcher_dispatch`. -/
def dispatcherDispatch (st : Stack) (d : DispatcherId) : Stack :=
  let dispatcher := st.dispatchers d
  let sent := st.endpointSend dispatcher.endpoint dispatcher.signature
  if !sent.2 then
    (sent.1.setDispatcher d { dispatcher with failed := true }).dispatcherFinish d
  else if !dispatcher.reliable then sent.1.dispatcherFinish d
  else sent.1.setDispatcher d { dispatcher with resending := true }

/-- `pomelo_delivery_dispatcher_resend`. -/
def dispatcherResend (st : Stack) (d : DispatcherId) : Stack :=
  let dispatcher := st.dispatchers d
  let sent := st.endpointSend dispatcher.endpoint dispatcher.signature
  if sent.2 then sent.1
  else (sent.1.setDispatcher d { dispatcher with failed := true }).dispatcherFinish d

/-- `pomelo_delivery_dispatcher_complete`. -/
def dispatcherComplete (st : Stack) (d : DispatcherId) (calls : List ApiCall) : Stack :=
  let dispatcher := st.dispatchers d
  let st := st.onDispatcherResult dispatcher.sender
    (!dispatcher.failed && !dispatcher.canceled) calls
  let st := if dispatcher.canceled then st else st.onDispatcherCompleted dispatcher.bus d
  st.setDispatcher d { dispatcher with resending := false }

/-- The current task of a dispatcher's pipeline. -/
def dispatcherTask (st : Stack) (d : DispatcherId) (calls : List ApiCall) : Stack :=
  if (st.dispatchers d).complete then st.dispatcherComplete d calls else st.dispatcherDispatch d

end Stack

end Api

end PomeloUdp
