import PomeloUdp.Api.Sending

/-!
# Receiving

A fragment for the system bus of an endpoint, or for a user bus of a ready
endpoint, becomes a reception. The parcel that it completes passes the checksum
stage of its receiver, where a worker verifies a parcel of more than one
fragment, and then goes to the endpoint or to the application. A ping or a pong
makes the endpoint ready; the session learns that from a task of its own.
-/

namespace PomeloUdp

namespace Api

open Protocol

namespace Stack

/-- `pomelo_delivery_endpoint_recv` of a fragment for bus number `busId`. -/
def endpointRecv (st : Stack) (e : EndpointId) (busId : ℕ) (fragment : Fragment) : Stack :=
  let endpoint := st.endpoints e
  let bus := if busId = 0 then endpoint.systemBus
    else if endpoint.ready then endpoint.buses[busId - 1]? else none
  match bus with
  | none => st
  | some b => st.submit (.reception b fragment)

/-- `pomelo_delivery_reception_execute`. -/
def receptionExecute (st : Stack) (b : BusId) : Fragment → Stack
  | .ack last =>
      match (st.buses b).incomplete with
      | none => st
      | some d => if last then st.dispatcherFinish d else st
  | .data reply parcel =>
      let st := if reply then (st.endpointSend (st.buses b).endpoint 0).1 else st
      match parcel with
      | none => st
      | some (parcel, fragments) => st.submit (.verifyChecksum b parcel fragments)

/-- `pomelo_delivery_receiver_verify_checksum`: a parcel of one fragment has no
checksum. -/
def verifyChecksum (st : Stack) (b : BusId) (parcel : Parcel) (fragments : Bool) : Stack :=
  if fragments then
    st.setBus b { st.buses b with verifying := (st.buses b).verifying ++ [parcel] }
  else st.submit (.receiverComplete b parcel)

/-- `pomelo_delivery_endpoint_check_ready`. -/
def checkReady (st : Stack) (e : EndpointId) : Stack :=
  if (st.endpoints e).ready then st
  else (st.setEndpoint e { st.endpoints e with ready := true }).submit (.endpointReady e)

/-- `pomelo_delivery_endpoint_send_ping` and `pomelo_delivery_endpoint_send_pong`,
inside a task. -/
def sendSystem (st : Stack) (e : EndpointId) : Stack :=
  match (st.endpoints e).systemBus with
  | none => st
  | some b => st.senderSubmit true false true [⟨b, false, 0⟩]

/-- `pomelo_delivery_endpoint_recv_system_parcel`. -/
def recvSystemParcel (st : Stack) (e : EndpointId) : Parcel → Stack
  | .ping => (st.sendSystem e).checkReady e
  | .pong => st.checkReady e
  | .other => st

/-- `pomelo_delivery_bus_on_received`. -/
def busOnReceived (st : Stack) (b : BusId) (calls : List ApiCall) : Stack :=
  match (st.endpoints (st.buses b).endpoint).extra with
  | none => st
  | some s =>
      let st := { st with assertFailed := st.assertFailed || !(st.sessions s).ready }
      (st.callback s .received).inCallback calls

/-- `pomelo_delivery_receiver_complete` of a parcel that is not cancelled. -/
def receiverComplete (st : Stack) (b : BusId) (parcel : Parcel) (calls : List ApiCall) : Stack :=
  let e := (st.buses b).endpoint
  if (st.endpoints e).systemBus = some b then st.recvSystemParcel e parcel
  else st.busOnReceived b calls

/-- `pomelo_delivery_endpoint_on_ready`. -/
def endpointOnReady (st : Stack) (e : EndpointId) (calls : List ApiCall) : Stack :=
  match (st.endpoints e).extra with
  | none => st
  | some s =>
      let st := st.setSession s { st.sessions s with ready := true, state := .connected }
      (st.callback s .connected).inCallback calls

/-- `pomelo_delivery_endpoint_stop_deferred`. -/
def endpointStopDeferred (st : Stack) (e : EndpointId) : Stack :=
  let st := (st.endpoints e).allBuses.foldl busStop st
  st.setEndpoint e { st.endpoints e with scheduled := false }

/-- The release of a bus by `pomelo_delivery_endpoint_cleanup`. -/
def releaseBus (st : Stack) (b : BusId) : Stack :=
  st.setBus b { st.buses b with acquired := false }

/-- `pomelo_delivery_endpoint_destroy_deferred` with
`pomelo_delivery_endpoint_cleanup`. -/
def endpointDestroyDeferred (st : Stack) (e : EndpointId) : Stack :=
  let st := (st.endpoints e).allBuses.foldl releaseBus st
  st.setEndpoint e
    { st.endpoints e with
      acquired := false, scheduled := false, buses := [], systemBus := none }

end Stack

end Api

end PomeloUdp
