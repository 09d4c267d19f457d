import Mathlib.Logic.Function.Basic
import PomeloUdp.Library.Sequencer
import PomeloUdp.Protocol.Peer

/-!
# The objects of a socket

A running socket is made of pooled objects that point to each other: builtin
sessions, their delivery endpoints, the buses of these, the protocol peers, and
the senders and dispatchers of the parcels on their way out. Sessions,
endpoints, buses and peers are named by their slot in the pool, so a name is
used again after a release. Senders and dispatchers are numbered.

All of them share one sequencer. `Task` is a task that it runs later, and
`Stack` is the whole state, between two tasks. What the callbacks of the
application were is kept in `callbacks`; `sends` has one entry for each
execution of `pomelo_delivery_endpoint_send`.
-/

namespace PomeloUdp

namespace Api

open Protocol

/-- A slot of `builtin_session_pool`. -/
abbrev SessionId := ℕ

/-- A slot of `endpoint_pool`. -/
abbrev EndpointId := ℕ

/-- A slot of `bus_pool`. -/
abbrev BusId := ℕ

abbrev DispatcherId := ℕ

abbrev SenderId := ℕ

/-- `pomelo_session_state`. -/
inductive SessionState where
  | connecting
  | connected
  | disconnected
  deriving DecidableEq, Repr

/-- `pomelo_session_builtin_t`. The signature is 0, and the methods are NULL, in
a released session; `channels` has the bus of each channel. -/
structure Session where
  signature : ℕ := 0
  peer : Option PeerId := none
  endpoint : Option EndpointId := none
  ready : Bool := false
  state : SessionState := .disconnected
  channels : List BusId := []

/-- `pomelo_delivery_endpoint_t`. `ready` is its flag READY and `scheduled` says
that it is on the list of the heartbeat. -/
structure Endpoint where
  acquired : Bool := false
  extra : Option SessionId := none
  ready : Bool := false
  scheduled : Bool := false
  buses : List BusId := []
  systemBus : Option BusId := none

/-- All buses of an endpoint. -/
def Endpoint.allBuses (endpoint : Endpoint) : List BusId :=
  endpoint.buses ++ endpoint.systemBus.toList

/-- What a received parcel is to the system bus: a ping, a pong that is read to
its end, or neither. -/
inductive Parcel where
  | ping
  | pong
  | other
  deriving DecidableEq, Repr

/-- `pomelo_delivery_bus_t`. `verifying` has the parcels of its receivers that
wait for a worker to verify their checksum. -/
structure Bus where
  acquired : Bool := false
  endpoint : EndpointId := 0
  processing : Bool := false
  stop : Bool := false
  pending : List DispatcherId := []
  incomplete : Option DispatcherId := none
  verifying : List Parcel := []

/-- `pomelo_protocol_peer_t` as the API sees it. A peer in the pool is
disconnected. -/
structure PeerSlot where
  state : PeerState := .disconnected
  extra : Option SessionId := none
  processingResponse : Bool := false

/-- `pomelo_delivery_transmission_t`, with the signature of the session that the
parcel was submitted to, or 0 for a parcel of the endpoint itself. -/
structure Transmission where
  bus : BusId
  reliable : Bool
  signature : ℕ
  deriving DecidableEq, Repr

/-- `pomelo_delivery_sender_t`. -/
structure Sender where
  records : List Transmission := []
  completedCounter : ℕ := 0
  successCounter : ℕ := 0
  system : Bool := false

/-- `pomelo_delivery_dispatcher_t`. `complete` says that its pipeline is at the
last task, and `resending` that its timer runs. -/
structure Dispatcher where
  sender : SenderId := 0
  bus : BusId := 0
  endpoint : EndpointId := 0
  reliable : Bool := false
  signature : ℕ := 0
  complete : Bool := false
  failed : Bool := false
  canceled : Bool := false
  resending : Bool := false

/-- `pomelo_protocol_receiver_t`, waiting for a worker. -/
structure IncomingPacket where
  peer : PeerId
  type : PacketType
  deriving DecidableEq, Repr

/-- What a fragment does to its bus. An acknowledgement may be the last that the
reliable dispatcher of the bus waits for. Data may be acknowledged, and may
complete a parcel, of one fragment or of more than one. -/
inductive Fragment where
  | ack (last : Bool)
  | data (reply : Bool) (parcel : Option (Parcel × Bool))
  deriving DecidableEq, Repr

/-- A task of the sequencer. -/
inductive Task where
  /-- `pomelo_delivery_reception_execute`. -/
  | reception (bus : BusId) (fragment : Fragment)
  /-- `pomelo_delivery_receiver_verify_checksum`. -/
  | verifyChecksum (bus : BusId) (parcel : Parcel) (fragments : Bool)
  /-- `pomelo_delivery_receiver_complete`. -/
  | receiverComplete (bus : BusId) (parcel : Parcel)
  /-- `pomelo_delivery_bus_process_sending_deferred`. -/
  | processSending (bus : BusId)
  /-- The task of the pipeline of a dispatcher. -/
  | dispatcher (dispatcher : DispatcherId)
  /-- `pomelo_delivery_endpoint_stop_deferred`. -/
  | endpointStop (endpoint : EndpointId)
  /-- `pomelo_delivery_endpoint_destroy_deferred`. -/
  | endpointDestroy (endpoint : EndpointId)
  /-- `pomelo_delivery_endpoint_on_ready`. -/
  | endpointReady (endpoint : EndpointId)
  /-- `pomelo_session_disconnect_deferred`. -/
  | sessionDisconnect (session : SessionId)
  /-- `pomelo_session_builtin_on_disconnected_deferred`. -/
  | sessionOnDisconnected (session : SessionId)
  /-- `pomelo_protocol_peer_disconnect_deferred`. -/
  | peerDisconnect (peer : PeerId)
  /-- `pomelo_socket_stop_deferred`. -/
  | socketStop
  /-- `pomelo_protocol_socket_stop_deferred`. -/
  | protocolStop
  deriving DecidableEq, Repr

/-- A callback of the application about a session. -/
inductive Callback where
  /-- `pomelo_socket_on_connected`. -/
  | connected
  /-- `pomelo_socket_on_received`. -/
  | received
  /-- `pomelo_socket_on_disconnected`. -/
  | disconnected
  deriving DecidableEq, Repr

/-- One execution of `pomelo_delivery_endpoint_send`: what it sends for, what it
finds in the extra data of the endpoint, and the signature and the peer of the
session found. -/
structure Sending where
  endpoint : EndpointId
  target : ℕ
  extra : Option SessionId
  signature : ℕ
  peer : Option PeerId
  deriving DecidableEq, Repr

/-- `pomelo_protocol_socket_mode`; the client points to its peer. -/
inductive SocketMode where
  | server
  | client (peer : Option PeerId)
  deriving DecidableEq, Repr

/-- The states of the API socket and of the protocol socket. -/
inductive RunState where
  | running
  | stopping
  | stopped
  deriving DecidableEq, Repr

/-- A running socket with all its objects. -/
structure Stack where
  mode : SocketMode
  socketState : RunState := .running
  protocolState : RunState := .running
  sessions : SessionId → Session := fun _ => {}
  endpoints : EndpointId → Endpoint := fun _ => {}
  buses : BusId → Bus := fun _ => {}
  peers : PeerId → PeerSlot := fun _ => {}
  senders : SenderId → Sender := fun _ => {}
  dispatchers : DispatcherId → Dispatcher := fun _ => {}
  /-- `socket->sessions`. -/
  sessionList : List SessionId := []
  signatureGenerator : ℕ := 0
  nextSender : SenderId := 0
  nextDispatcher : DispatcherId := 0
  /-- The tasks of the sequencer. -/
  queue : List Task := []
  /-- The packets that wait for a worker to decrypt and decode them. -/
  incoming : List IncomingPacket := []
  /-- The senders that wait for a worker to compute their checksum. -/
  checksumming : List SenderId := []
  /-- What is left of a dispatch loop that runs outside the sequencer. -/
  dispatching : List (SenderId × Transmission) := []
  callbacks : List (ℕ × Callback) := []
  results : List (SenderId × ℕ) := []
  sends : List Sending := []
  /-- Whether the assertion that a receiving session is ready has failed. -/
  assertFailed : Bool := false

namespace Stack

/-- The callbacks made for the session of that signature, oldest first. -/
def callbacksOf (st : Stack) (signature : ℕ) : List Callback :=
  (st.callbacks.filter (·.1 = signature)).map (·.2)

/-- `pomelo_sequencer_submit` of a task while another one runs. -/
def submit (st : Stack) (task : Task) : Stack :=
  { st with queue := Sequencer.submit st.queue task }

def setSession (st : Stack) (s : SessionId) (session : Session) : Stack :=
  { st with sessions := Function.update st.sessions s session }

def setEndpoint (st : Stack) (e : EndpointId) (endpoint : Endpoint) : Stack :=
  { st with endpoints := Function.update st.endpoints e endpoint }

def setBus (st : Stack) (b : BusId) (bus : Bus) : Stack :=
  { st with buses := Function.update st.buses b bus }

def setPeer (st : Stack) (p : PeerId) (peer : PeerSlot) : Stack :=
  { st with peers := Function.update st.peers p peer }

def setSender (st : Stack) (n : SenderId) (sender : Sender) : Stack :=
  { st with senders := Function.update st.senders n sender }

def setDispatcher (st : Stack) (d : DispatcherId) (dispatcher : Dispatcher) : Stack :=
  { st with dispatchers := Function.update st.dispatchers d dispatcher }

/-- A callback of the application about session `s`. -/
def callback (st : Stack) (s : SessionId) (c : Callback) : Stack :=
  { st with callbacks := st.callbacks ++ [((st.sessions s).signature, c)] }

end Stack

end Api

end PomeloUdp
