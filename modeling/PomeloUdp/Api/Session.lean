import PomeloUdp.Api.Receiving

/-!
# Builtin sessions

A session is acquired when a peer becomes connected, together with an endpoint
and its buses, and both point to the session. When the peer leaves, the session
loses it at once; the rest is done by a task, which stops the endpoint, tells
the application, detaches and destroys the endpoint and releases the session.
A stopping socket releases its sessions without these steps.
-/

namespace PomeloUdp

namespace Api

open Protocol

/-- The slots that the pools give for a new session. -/
structure SessionSlots where
  session : SessionId
  endpoint : EndpointId
  buses : List BusId
  systemBus : BusId
  deriving DecidableEq, Repr

/-- The buses of the new endpoint, in the order of their acquisition. -/
def SessionSlots.allBuses (slots : SessionSlots) : List BusId := slots.buses ++ [slots.systemBus]

/-- The slots can be given: they are free, and no bus is given twice. -/
structure SessionSlots.Free (slots : SessionSlots) (st : Stack) : Prop where
  session : (st.sessions slots.session).signature = 0
  endpoint : (st.endpoints slots.endpoint).acquired = false
  buses : ∀ b ∈ slots.allBuses, (st.buses b).acquired = false
  nodup : slots.allBuses.Nodup

instance (slots : SessionSlots) (st : Stack) : Decidable (slots.Free st) :=
  decidable_of_iff
    ((st.sessions slots.session).signature = 0 ∧
      (st.endpoints slots.endpoint).acquired = false ∧
      (∀ b ∈ slots.allBuses, (st.buses b).acquired = false) ∧ slots.allBuses.Nodup)
    ⟨fun ⟨session, endpoint, buses, nodup⟩ => ⟨session, endpoint, buses, nodup⟩,
      fun ⟨session, endpoint, buses, nodup⟩ => ⟨session, endpoint, buses, nodup⟩⟩

namespace Stack

/-- `pomelo_delivery_bus_init`. -/
def initBus (e : EndpointId) (st : Stack) (b : BusId) : Stack :=
  st.setBus b { st.buses b with acquired := true, endpoint := e }

/-- `pomelo_delivery_endpoint_create` and `pomelo_delivery_endpoint_start` for
session `s`. -/
def endpointInit (st : Stack) (slots : SessionSlots) : Stack :=
  let st := slots.allBuses.foldl (initBus slots.endpoint) st
  st.setEndpoint slots.endpoint
    { acquired := true, extra := some slots.session, scheduled := true, buses := slots.buses,
      systemBus := some slots.systemBus }

/-- `pomelo_session_builtin_init` for peer `p`. -/
def sessionInit (st : Stack) (p : PeerId) (slots : SessionSlots) : Stack :=
  let signature := st.signatureGenerator + 1
  let st := { st with signatureGenerator := signature }.endpointInit slots
  let st := st.setPeer p { st.peers p with extra := some slots.session }
  let st := st.setSession slots.session
    { signature := signature, peer := some p, endpoint := some slots.endpoint,
      state := .connecting, channels := slots.buses }
  { st with sessionList := st.sessionList ++ [slots.session] }

/-- `pomelo_protocol_socket_on_connected`; no session is made when the pools are
empty. -/
def protocolOnConnected (st : Stack) (p : PeerId) (slots : Option SessionSlots) : Stack :=
  match slots with
  | none => st
  | some slots => if slots.Free st then st.sessionInit p slots else st

/-- Detaches the peer of a session. -/
def detachPeer (st : Stack) (s : SessionId) : Stack :=
  match (st.sessions s).peer with
  | none => st
  | some p =>
      (st.setPeer p { st.peers p with extra := none }).setSession s
        { st.sessions s with peer := none }

/-- `pomelo_session_builtin_on_disconnected`. -/
def sessionOnDisconnected (st : Stack) (s : SessionId) : Stack :=
  let st := st.detachPeer s
  (st.setSession s { st.sessions s with state := .disconnected }).submit
    (.sessionOnDisconnected s)

/-- `pomelo_protocol_socket_on_disconnected`. -/
def protocolOnDisconnected (st : Stack) (p : PeerId) : Stack :=
  match (st.peers p).extra with
  | none => st
  | some s => st.sessionOnDisconnected s

/-- `pomelo_protocol_socket_on_received`. -/
def protocolOnReceived (st : Stack) (p : PeerId) (busId : ℕ) (fragment : Fragment) : Stack :=
  match (st.peers p).extra with
  | none => st
  | some s =>
      match (st.sessions s).endpoint with
      | none => st
      | some e => st.endpointRecv e busId fragment

/-- `pomelo_session_builtin_cleanup` by the release of a session. -/
def sessionRelease (st : Stack) (s : SessionId) : Stack :=
  let st := match (st.sessions s).endpoint with
    | none => st
    | some e => (st.submit (.endpointStop e)).submit (.endpointDestroy e)
  let st := st.detachPeer s
  st.setSession s { st.sessions s with signature := 0, endpoint := none, channels := [] }

/-- `pomelo_session_builtin_on_disconnected_deferred`. -/
def sessionOnDisconnectedDeferred (st : Stack) (s : SessionId) (calls : List ApiCall) : Stack :=
  match (st.sessions s).endpoint with
  | none => st
  | some e =>
      let st := st.submit (.endpointStop e)
      let st := if (st.sessions s).ready then
        (st.callback s .disconnected).inCallback calls else st
      let st := st.setEndpoint e { st.endpoints e with extra := none }
      let st := st.submit (.endpointDestroy e)
      let st := st.setSession s { st.sessions s with endpoint := none }
      let st := { st with sessionList := st.sessionList.erase s }
      st.sessionRelease s

/-- `pomelo_session_disconnect_deferred` with
`pomelo_session_builtin_disconnect`. -/
def sessionDisconnectDeferred (st : Stack) (s : SessionId) : Stack :=
  let session := st.sessions s
  if session.signature = 0 then st
  else
    match session.peer with
    | none => st
    | some p => st.submit (.peerDisconnect p)

/-- `pomelo_protocol_socket_stop`. -/
def protocolSocketStop (st : Stack) : Stack :=
  if st.protocolState = .running then
    { st with protocolState := .stopping }.submit .protocolStop
  else st

/-- `pomelo_socket_stop_deferred`. -/
def socketStopDeferred (st : Stack) : Stack :=
  let st := { st with socketState := .stopped }.protocolSocketStop
  let st := st.sessionList.foldl sessionRelease st
  { st with sessionList := [] }

end Stack

end Api

end PomeloUdp
