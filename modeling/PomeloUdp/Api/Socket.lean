import PomeloUdp.Api.Session
import PomeloUdp.Library.Run

/-!
# Runs of a socket

The peers of a socket change state when a worker has finished with a packet,
when a timer fires and when the application disconnects a session. Whether a
datagram passes the replay protection, decrypts and decodes, whether a timeout
has passed and whether a pool is empty is the choice of the event.

An event is a callback of the event loop. The loop makes one at a time and each
runs the sequencer to its end, so an event finds no task waiting. `Label.run`
runs the head task; its calls are those that the application makes in the
callback of that task, if it has one. `Label.resume` goes on with a dispatch
loop that was interrupted by the tasks of its last transmission.
-/

namespace PomeloUdp

namespace Api

open Protocol

/-- What comes out of a received packet. -/
structure Completion where
  /-- It was decrypted and decoded, and its content fits the peer. -/
  valid : Bool
  /-- The server has no free slot for a request. -/
  full : Bool := false
  /-- What the pools give for a session. -/
  slots : Option SessionSlots := none
  /-- The bus number and the fragment of a payload. -/
  busId : ℕ := 0
  fragment : Fragment := .data false none
  /-- The calls in `pomelo_socket_on_connect_result`. -/
  calls : List ApiCall := []
  deriving DecidableEq, Repr

/-- What a client finds when its keep alive timer fires. -/
inductive KeepAlive where
  | sent
  | timedOut
  | noPacket
  deriving DecidableEq, Repr

/-- The callbacks of the event loop. -/
inductive Event where
  /-- A request from an address without a peer; a peer slot for it. -/
  | acceptRequest (peer : PeerId)
  /-- A datagram of that type from the address of the peer. -/
  | accept (peer : PeerId) (type : PacketType)
  /-- The worker has finished with a packet. -/
  | received (index : ℕ) (completion : Completion)
  /-- A denied packet has been sent. -/
  | sentDenied (peer : PeerId)
  /-- The server's keep alive timer; the peers whose time has passed. -/
  | broadcastKeepAlive (expired : List PeerId)
  /-- The server's disconnecting timer; the peers with no packet left to send. -/
  | broadcastDisconnect (finished : List PeerId)
  /-- The server's challenging timer; the peers whose time has passed. -/
  | scanChallenging (expired : List PeerId)
  /-- The client's keep alive timer. -/
  | sendKeepAlive (outcome : KeepAlive)
  /-- The client cannot acquire a request or response packet. -/
  | noHandshakePacket
  /-- The client's request timer has run out. -/
  | requestTimeout (calls : List ApiCall)
  /-- The client has sent its last disconnect packet. -/
  | disconnectLimit
  /-- The heartbeat of an endpoint. -/
  | heartbeat (endpoint : EndpointId)
  /-- The resend timer of a dispatcher. -/
  | resend (dispatcher : DispatcherId)
  /-- A worker has verified the checksum of a received parcel. -/
  | verified (bus : BusId) (index : ℕ) (valid : Bool)
  /-- A worker has computed the checksum of a message. -/
  | checksummed (index : ℕ)
  /-- The application calls outside every callback. -/
  | api (call : ApiCall)
  deriving DecidableEq, Repr

/-- A step of a socket. -/
inductive Label where
  | event (event : Event)
  | run (calls : List ApiCall)
  | resume
  deriving DecidableEq, Repr

namespace Stack

/-- `pomelo_protocol_peer_cancel_senders_and_receivers` and the release of the
peer to its pool. -/
def releasePeer (st : Stack) (p : PeerId) : Stack :=
  { st.setPeer p {} with incoming := st.incoming.filter (·.peer ≠ p) }

def setPeerState (st : Stack) (p : PeerId) (state : PeerState) : Stack :=
  st.setPeer p { st.peers p with state := state }

/-- `pomelo_protocol_server_validate` for a request of a new address. -/
def acceptRequest (st : Stack) (p : PeerId) : Stack :=
  if st.protocolState = .running && st.mode = .server && (st.peers p).state = .disconnected then
    { st.setPeer p { state := .request } with incoming := st.incoming ++ [⟨p, .request⟩] }
  else st

/-- `pomelo_protocol_server_validate` for the other types. -/
def serverValidate (peer : PeerSlot) : PacketType → Bool
  | .response => peer.state = .challenge && !peer.processingResponse
  | .payload | .keepAlive | .disconnect => peer.state = .connected
  | .request | .challenge | .denied => false

/-- `pomelo_protocol_client_validate`. -/
def clientValidate (peer : PeerSlot) : PacketType → Bool
  | .denied => peer.state = .request || peer.state = .response
  | .challenge => peer.state = .request
  | .keepAlive => peer.state = .connected || peer.state = .response
  | .payload | .disconnect => peer.state = .connected
  | .request | .response => false

/-- `pomelo_protocol_socket_validate_incoming` by the state of the peer. -/
def validate (st : Stack) (p : PeerId) (type : PacketType) : Bool :=
  st.protocolState = .running &&
    match st.mode with
    | .server => serverValidate (st.peers p) type
    | .client peer => peer = some p && clientValidate (st.peers p) type

/-- `pomelo_protocol_socket_accept`. -/
def accept (st : Stack) (p : PeerId) (type : PacketType) : Stack :=
  if st.validate p type then
    let st := if type = .response then
      st.setPeer p { st.peers p with processingResponse := true } else st
    { st with incoming := st.incoming ++ [⟨p, type⟩] }
  else st

/-- `pomelo_protocol_server_deny_peer` of a requesting peer. -/
def denyPeer (st : Stack) (p : PeerId) : Stack := st.setPeerState p .denied

/-- `pomelo_protocol_server_recv_request`. -/
def serverRecvRequest (st : Stack) (p : PeerId) (full : Bool) : Stack :=
  if (st.peers p).state ≠ .request then st
  else if full then st.denyPeer p
  else st.setPeerState p .challenge

/-- `pomelo_protocol_server_recv_response`. -/
def serverRecvResponse (st : Stack) (p : PeerId) (slots : Option SessionSlots) : Stack :=
  if (st.peers p).state ≠ .challenge then st
  else (st.setPeerState p .connected).protocolOnConnected p slots

/-- `pomelo_protocol_server_recv_disconnect`. -/
def serverRecvDisconnect (st : Stack) (p : PeerId) : Stack :=
  if (st.peers p).state ≠ .connected then st
  else ((st.setPeerState p .disconnected).protocolOnDisconnected p).releasePeer p

/-- `pomelo_protocol_server_recv_packet`. -/
def serverRecvPacket (st : Stack) (p : PeerId) (c : Completion) : PacketType → Stack
  | .request => st.serverRecvRequest p c.full
  | .response => st.serverRecvResponse p c.slots
  | .disconnect => st.serverRecvDisconnect p
  | .payload => st.protocolOnReceived p c.busId c.fragment
  | .keepAlive | .denied | .challenge => st

/-- `pomelo_protocol_server_recv_failed`. -/
def serverRecvFailed (st : Stack) (p : PeerId) : PacketType → Stack
  | .request => if (st.peers p).state ≠ .request then st else st.denyPeer p
  | _ => st

/-- `pomelo_protocol_client_recv_denied` when the token has no address left. -/
def clientRecvDenied (st : Stack) (p : PeerId) (calls : List ApiCall) : Stack :=
  ((st.setPeerState p .denied).inCallback calls).protocolSocketStop

/-- `pomelo_protocol_client_recv_challenge`. -/
def clientRecvChallenge (st : Stack) (p : PeerId) : Stack :=
  if (st.peers p).state ≠ .request then st else st.setPeerState p .response

/-- `pomelo_protocol_client_recv_disconnect`. -/
def clientRecvDisconnect (st : Stack) (p : PeerId) : Stack :=
  if (st.peers p).state ≠ .connected then st
  else ((st.setPeerState p .disconnected).protocolOnDisconnected p).protocolSocketStop

/-- `pomelo_protocol_client_recv_keep_alive`. -/
def clientRecvKeepAlive (st : Stack) (p : PeerId) (slots : Option SessionSlots)
    (calls : List ApiCall) : Stack :=
  if (st.peers p).state ≠ .response then st
  else ((st.setPeerState p .connected).inCallback calls).protocolOnConnected p slots

/-- `pomelo_protocol_client_recv_packet`. -/
def clientRecvPacket (st : Stack) (p : PeerId) (c : Completion) : PacketType → Stack
  | .denied => st.clientRecvDenied p c.calls
  | .challenge => st.clientRecvChallenge p
  | .disconnect => st.clientRecvDisconnect p
  | .keepAlive => st.clientRecvKeepAlive p c.slots c.calls
  | .payload => st.protocolOnReceived p c.busId c.fragment
  | .request | .response => st

/-- `pomelo_protocol_socket_handle_receiver_complete`. -/
def handleReceiverComplete (st : Stack) (packet : IncomingPacket) (c : Completion) : Stack :=
  if st.protocolState ≠ .running then st
  else
    let p := packet.peer
    let st := if packet.type = .response then
      st.setPeer p { st.peers p with processingResponse := false } else st
    match st.mode, c.valid with
    | .server, true => st.serverRecvPacket p c packet.type
    | .server, false => st.serverRecvFailed p packet.type
    | .client _, true => st.clientRecvPacket p c packet.type
    | .client _, false => st

/-- `pomelo_protocol_receiver_complete`. -/
def packetReceived (st : Stack) (index : ℕ) (c : Completion) : Stack :=
  match st.incoming[index]? with
  | none => st
  | some packet =>
      { st with incoming := st.incoming.eraseIdx index }.handleReceiverComplete packet c

/-- `pomelo_protocol_server_sent_denied`. -/
def sentDenied (st : Stack) (p : PeerId) : Stack :=
  if (st.peers p).state = .denied && st.protocolState = .running && st.mode = .server then
    st.releasePeer p
  else st

/-- One round of `pomelo_protocol_server_broadcast_keep_alive` for a peer whose
time has passed. -/
def expirePeer (st : Stack) (p : PeerId) : Stack :=
  if (st.peers p).state ≠ .connected then st
  else ((st.setPeerState p .disconnected).protocolOnDisconnected p).releasePeer p

/-- Releases a peer that is in the given state. -/
def releaseFrom (state : PeerState) (st : Stack) (p : PeerId) : Stack :=
  if (st.peers p).state ≠ state then st else st.releasePeer p

/-- A loop of the server over its peers. -/
def serverLoop (st : Stack) (round : Stack → PeerId → Stack) (peers : List PeerId) : Stack :=
  if st.protocolState = .running && st.mode = .server then peers.foldl round st else st

/-- What a client does with its peer, if it runs and the peer is in the given
state. -/
def clientTimer (st : Stack) (state : PeerState) (fire : Stack → PeerId → Stack) : Stack :=
  match st.mode with
  | .client (some p) =>
      if st.protocolState = .running && (st.peers p).state = state then fire st p else st
  | _ => st

/-- `pomelo_protocol_client_send_keep_alive`. -/
def sendKeepAlive (outcome : KeepAlive) (st : Stack) (p : PeerId) : Stack :=
  match outcome with
  | .sent => st
  | .timedOut =>
      ((st.setPeerState p .timedOut).protocolOnDisconnected p).protocolSocketStop
  | .noPacket => st.protocolSocketStop

/-- `pomelo_protocol_client_handle_request_timeout` when the token has no address
left. -/
def handleRequestTimeout (calls : List ApiCall) (st : Stack) (p : PeerId) : Stack :=
  ((st.setPeerState p .requestTimedOut).inCallback calls).protocolSocketStop

/-- `pomelo_protocol_server_disconnect_peer` and
`pomelo_protocol_client_disconnect_peer`. -/
def disconnectPeer (st : Stack) (p : PeerId) : Stack :=
  if (st.peers p).state ≠ .connected then st
  else (st.setPeerState p .disconnecting).protocolOnDisconnected p

/-- `pomelo_protocol_socket_stop_deferred`. The release of every peer cancels
all receivers. -/
def protocolStopDeferred (st : Stack) : Stack :=
  let st := { st with protocolState := .stopped }
  match st.mode with
  | .server => { st with peers := fun _ => {}, incoming := [] }
  | .client none => st
  | .client (some p) => { st.releasePeer p with mode := .client none }

/-- The heartbeat task of an endpoint. -/
def heartbeat (st : Stack) (e : EndpointId) : Stack :=
  if (st.endpoints e).scheduled then st.sendSystem e else st

/-- The resend task of a dispatcher. -/
def resendTimer (st : Stack) (d : DispatcherId) : Stack :=
  if (st.dispatchers d).resending then st.dispatcherResend d else st

/-- `verify_checksum_complete` of a receiver. -/
def checksumVerified (st : Stack) (b : BusId) (index : ℕ) (valid : Bool) : Stack :=
  match (st.buses b).verifying[index]? with
  | none => st
  | some parcel =>
      let st := st.setBus b
        { st.buses b with verifying := (st.buses b).verifying.eraseIdx index }
      if valid then st.submit (.receiverComplete b parcel) else st

/-- `update_checksum_complete` of a sender. -/
def checksumUpdated (st : Stack) (index : ℕ) : Stack :=
  match st.checksumming[index]? with
  | none => st
  | some n =>
      { st with checksumming := st.checksumming.eraseIdx index }.senderDispatch false n

/-- One callback of the event loop. -/
def event (st : Stack) : Event → Stack
  | .acceptRequest p => st.acceptRequest p
  | .accept p type => st.accept p type
  | .received index c => st.packetReceived index c
  | .sentDenied p => st.sentDenied p
  | .broadcastKeepAlive expired => st.serverLoop expirePeer expired
  | .broadcastDisconnect finished => st.serverLoop (releaseFrom .disconnecting) finished
  | .scanChallenging expired => st.serverLoop (releaseFrom .challenge) expired
  | .sendKeepAlive outcome => st.clientTimer .connected (sendKeepAlive outcome)
  | .noHandshakePacket =>
      (st.clientTimer .request fun st _ => st.protocolSocketStop).clientTimer .response
        fun st _ => st.protocolSocketStop
  | .requestTimeout calls => st.clientTimer .request (handleRequestTimeout calls)
  | .disconnectLimit => st.clientTimer .disconnecting fun st _ => st.protocolSocketStop
  | .heartbeat e => st.heartbeat e
  | .resend d => st.resendTimer d
  | .verified b index valid => st.checksumVerified b index valid
  | .checksummed index => st.checksumUpdated index
  | .api call => st.apiCall false call

/-- One task of the sequencer, with the calls made in its callback. -/
def task (st : Stack) (calls : List ApiCall) : Task → Stack
  | .reception b fragment => st.receptionExecute b fragment
  | .verifyChecksum b parcel fragments => st.verifyChecksum b parcel fragments
  | .receiverComplete b parcel => st.receiverComplete b parcel calls
  | .processSending b => st.processSendingDeferred b
  | .dispatcher d => st.dispatcherTask d calls
  | .endpointStop e => st.endpointStopDeferred e
  | .endpointDestroy e => st.endpointDestroyDeferred e
  | .endpointReady e => st.endpointOnReady e calls
  | .sessionDisconnect s => st.sessionDisconnectDeferred s
  | .sessionOnDisconnected s => st.sessionOnDisconnectedDeferred s calls
  | .peerDisconnect p => st.disconnectPeer p
  | .socketStop => st.socketStopDeferred
  | .protocolStop => st.protocolStopDeferred

/-- One step. A label that cannot happen changes nothing. -/
def step (st : Stack) : Label → Stack
  | .event ev => if st.queue = [] ∧ st.dispatching = [] then st.event ev else st
  | .run calls =>
      match st.queue with
      | [] => st
      | task :: queue => { st with queue := queue }.task calls task
  | .resume =>
      match st.queue, st.dispatching with
      | [], (n, t) :: dispatching => { st with dispatching := dispatching }.createDispatcher n t
      | _, _ => st

/-- A server that has just started to listen. -/
def listen : Stack := { mode := .server }

/-- A client that has just started to connect with peer `p`. -/
def connect (p : PeerId) : Stack where
  mode := .client (some p)
  peers := Function.update (fun _ => {}) p { state := .request }

/-- A socket that has just been started. -/
def Started (st : Stack) : Prop := st = listen ∨ ∃ p, st = connect p

end Stack

end Api

end PomeloUdp
