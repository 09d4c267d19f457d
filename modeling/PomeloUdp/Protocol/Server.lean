import PomeloUdp.Protocol.Peer

/-!
# The server

`Server` is `pomelo_protocol_server_t` with its base socket, the memory of its
peers and the packets in flight, for an encrypted server after its start. Each
event of `Event` is one callback that the sequencer or the platform runs to its
end: a datagram is accepted, a receiver or a sender completes, the application
sends or disconnects, a timer ticks, the socket stops. The worker's decryption
and the order of the completions are left to the events, so every interleaving
is a list of events.

`Env` holds what the platform answers while the event runs: the clocks and
whether each pool has an element left. The address map is the finite map it
implements, and what a released peer leaves in its recycled memory enters as
`leftover`. `log` records what the server did; no handler reads it.
-/

namespace PomeloUdp

namespace Protocol

open Crypto

/-- `pomelo_protocol_socket_state`. -/
inductive SocketState where
  | stopped
  | stopping
  | running
  deriving DecidableEq

/-- The five lists of peers. -/
inductive PeerListName where
  | requesting
  | challenging
  | denied
  | connected
  | disconnecting
  deriving DecidableEq

/-- The state of the peers in a list. -/
def PeerListName.state : PeerListName → PeerState
  | requesting => .request
  | challenging => .challenge
  | denied => .denied
  | connected => .connected
  | disconnecting => .disconnecting

/-- `pomelo_protocol_receiver_t`. -/
structure Receiver where
  peer : Option PeerId
  cryptoCtx : CryptoContext
  datagram : Datagram
  recvTime : UInt64
  canceled : Bool

/-- `pomelo_protocol_sender_t`. -/
structure Sender where
  peer : Option PeerId
  type : PacketType
  canceled : Bool

/-- The counter a sequence number was taken from. -/
inductive SequenceSource where
  /-- `anonymous_sequence_number` of the server. -/
  | anonymous
  /-- `sequence_number` of the peer. -/
  | own
  deriving DecidableEq

/-- A packet submitted for encryption. -/
structure Emission where
  peer : PeerId
  source : SequenceSource
  key : Key
  header : Header
  body : SealedBody
  deriving DecidableEq

/-- A connect token as the request handler sees it. -/
structure ConnectToken where
  protocolId : UInt64
  expireTimestamp : UInt64
  token : PrivateToken
  deriving DecidableEq

/-- The fields that `pomelo_protocol_server_recv_request` takes from the token. -/
def Peer.adoptToken (peer : Peer) (token : ConnectToken) (hrtime : UInt64) : Peer :=
  { peer with
    clientId := token.token.clientId
    lastRecvTime := hrtime
    timeoutNs := secondsToNs token.token.timeout
    userData := token.token.userData
    cryptoCtx := peer.cryptoCtx.map fun ctx =>
      { ctx with
        protocolId := token.protocolId
        packetDecryptKey := token.token.clientToServerKey
        packetEncryptKey := token.token.serverToClientKey } }

/-- What the server did. -/
inductive Effect where
  /-- A datagram passed `pomelo_protocol_server_validate`. -/
  | validated (receiver : ReceiverId) (peer : PeerId) (datagram : Datagram)
  /-- A request was accepted, at the given time of `pomelo_platform_now`. -/
  | granted (peer : PeerId) (token : ConnectToken) (now : UInt64)
  /-- A packet was submitted for encryption. -/
  | emitted (emission : Emission)
  /-- `pomelo_protocol_socket_on_connected`. -/
  | connected (peer : PeerId)
  /-- `pomelo_protocol_socket_on_disconnected`. -/
  | disconnected (peer : PeerId)
  /-- `pomelo_protocol_socket_on_received`. -/
  | received (receiver : ReceiverId) (peer : PeerId) (datagram : Datagram)
  deriving DecidableEq

/-- What the platform and the pools answer during one event. -/
structure Env where
  /-- `pomelo_platform_hrtime`. -/
  hrtime : UInt64
  /-- `pomelo_platform_now`. -/
  now : UInt64
  acquirePeer : Bool
  pushEntry : Bool
  acquireReceiver : Bool
  acquirePacket : PeerId → PacketType → Bool
  acquireSender : PeerId → PacketType → Bool
  /-- `most_recent_sequence` in the memory of the peer that is acquired. -/
  leftover : UInt64

/-- `pomelo_protocol_server_t`. -/
structure Server where
  state : SocketState
  peers : PeerId → Peer
  peerAddressMap : Address → Option PeerId
  lists : PeerListName → List PeerEntry
  privateKey : Key
  challengeKey : Key
  maxClients : ℕ
  protocolId : UInt64
  payloadCapacity : ℕ
  anonymousSequenceNumber : UInt64
  challengeSequenceNumber : UInt64
  receivers : ReceiverId → Option Receiver
  senders : SenderId → Option Sender
  log : List Effect
  /-- The number of the running step, from which names are taken. -/
  tick : ℕ

/-- The options of a server and the challenge key its start draws. -/
structure ServerOptions where
  privateKey : Key
  challengeKey : Key
  maxClients : ℕ
  protocolId : UInt64
  payloadCapacity : ℕ

namespace Server

/-- The server after `pomelo_protocol_server_init` and a successful start. -/
def start (o : ServerOptions) : Server where
  state := .running
  peers := fun _ => .zero
  peerAddressMap := fun _ => none
  lists := fun _ => []
  privateKey := o.privateKey
  challengeKey := o.challengeKey
  maxClients := o.maxClients
  protocolId := o.protocolId
  payloadCapacity := o.payloadCapacity
  anonymousSequenceNumber := 0
  challengeSequenceNumber := 0
  receivers := fun _ => none
  senders := fun _ => none
  log := []
  tick := 0

section Memory

/-- Writing fields of a peer. -/
def modifyPeer (s : Server) (p : PeerId) (f : Peer → Peer) : Server :=
  { s with peers := Function.update s.peers p (f (s.peers p)) }

/-- The crypto context of a peer. -/
def cryptoCtx (s : Server) (p : PeerId) : CryptoContext := (s.peers p).cryptoCtx.getD .zero

/-- `pomelo_list_remove` and `pomelo_list_iterator_remove`. -/
def removeEntry (s : Server) (name : PeerListName) (entry : PeerEntry) : Server :=
  { s with lists := Function.update s.lists name ((s.lists name).erase entry) }

/-- `pomelo_list_remove` of the entry of a peer. -/
def unlink (s : Server) (name : PeerListName) (p : PeerId) : Server :=
  match (s.peers p).entry with
  | none => s
  | some entry => s.removeEntry name entry

/-- `pomelo_list_push_back` of a peer, whose entry and state are written. -/
def pushBack (s : Server) (name : PeerListName) (p : PeerId) : Server :=
  { s with
    lists := Function.update s.lists name (s.lists name ++ [⟨s.tick, p⟩])
    peers := Function.update s.peers p
      { s.peers p with entry := some ⟨s.tick, p⟩, state := name.state } }

/-- Submitting or releasing a sender. -/
def setSender (s : Server) (id : SenderId) (sender : Option Sender) : Server :=
  { s with senders := Function.update s.senders id sender }

/-- Submitting or releasing a receiver. -/
def setReceiver (s : Server) (id : ReceiverId) (receiver : Option Receiver) : Server :=
  { s with receivers := Function.update s.receivers id receiver }

/-- `anonymous_sequence_number++`. -/
def takeAnonymous (s : Server) : Server :=
  { s with anonymousSequenceNumber := s.anonymousSequenceNumber + 1 }

/-- `challenge_sequence_number++`. -/
def takeChallenge (s : Server) : Server :=
  { s with challengeSequenceNumber := s.challengeSequenceNumber + 1 }

/-- Adding to the record of what the server did. -/
def note (s : Server) (effect : Effect) : Server := { s with log := s.log ++ [effect] }

/-- `pomelo_protocol_peer_cancel_senders_and_receivers`. -/
def cancelSendersAndReceivers (s : Server) (p : PeerId) : Server :=
  { s with
    senders := fun id =>
      if id ∈ (s.peers p).senders then
        (s.senders id).map fun sender => { sender with peer := none, canceled := true }
      else s.senders id
    receivers := fun id =>
      if id ∈ (s.peers p).receivers then
        (s.receivers id).map fun receiver => { receiver with peer := none, canceled := true }
      else s.receivers id
    peers := Function.update s.peers p { s.peers p with senders := [], receivers := [] } }

/-- `pomelo_protocol_server_release_peer`. -/
def releasePeer (s : Server) (p : PeerId) : Server :=
  let s := s.cancelSendersAndReceivers p
  let s := match (s.peers p).address with
    | none => s
    | some address =>
        { s with peerAddressMap := Function.update s.peerAddressMap address none }
  s.modifyPeer p Peer.cleanup

/-- `pomelo_protocol_server_acquire_peer`, when the pool, the crypto contexts and
the address map succeed. -/
def acquirePeer (s : Server) (env : Env) (address : Address) : Server :=
  let memory : Peer :=
    { Peer.zero.cleanup with
      replayProtector := ⟨ReplayProtector.resetSlots, env.leftover⟩ }
  { s with
    peers := Function.update s.peers s.tick
      { memory.init ⟨0, env.hrtime⟩ .zero with address := some address }
    peerAddressMap := Function.update s.peerAddressMap address (some s.tick) }

end Memory

section Outgoing

variable (env : Env)

/-- `pomelo_protocol_socket_dispatch`: a sender is acquired, whose worker
encrypts the packet. -/
def dispatch (s : Server) (p : PeerId) (source : SequenceSource) (header : Header)
    (body : PacketBody) : Server :=
  if env.acquireSender p header.type then
    let id : SenderId := ⟨s.tick, p, header.type⟩
    let ctx := s.cryptoCtx p
    ((s.setSender id (some ⟨some p, header.type, false⟩)).modifyPeer p
      fun peer => { peer with senders := peer.senders ++ [id] }).note
        (.emitted ⟨p, source, ctx.packetEncryptKey, header, ctx.encryptPacket header body⟩)
  else s

/-- `pomelo_protocol_server_send_challenge`. -/
def sendChallenge (s : Server) (p : PeerId) (token : PrivateToken) : Server :=
  let sequence := s.anonymousSequenceNumber
  let tokenSequence := s.challengeSequenceNumber
  let s := s.takeAnonymous.takeChallenge
  if env.acquirePacket p .challenge then
    dispatch env s p .anonymous ⟨.challenge, sequence⟩
      (.challenge tokenSequence
        (.encrypted (s.cryptoCtx p).challengeKey tokenSequence () ⟨token.clientId, token.userData⟩))
  else s

/-- `pomelo_protocol_server_send_denied`: whether the packet could be acquired. -/
def sendDenied (s : Server) (p : PeerId) : Server × Bool :=
  let sequence := s.anonymousSequenceNumber
  let s := s.takeAnonymous
  if env.acquirePacket p .denied then
    (dispatch env s p .anonymous ⟨.denied, sequence⟩ .denied, true)
  else (s, false)

/-- A packet with the next sequence number of the peer. -/
def sendOwn (s : Server) (p : PeerId) (type : PacketType) (body : PacketBody) : Server :=
  let sequence := (s.peers p).sequenceNumber
  let s := s.modifyPeer p fun peer => peer.nextSequence.1
  if env.acquirePacket p type then dispatch env s p .own ⟨type, sequence⟩ body else s

/-- `pomelo_protocol_server_send_keep_alive`. -/
def sendKeepAlive (s : Server) (p : PeerId) : Server :=
  sendOwn env s p .keepAlive (.keepAlive (s.peers p).clientId)

/-- `pomelo_protocol_server_send_disconnect_peer`. -/
def sendDisconnectPeer (s : Server) (p : PeerId) : Server :=
  sendOwn env s p .disconnect .disconnect

/-- `pomelo_protocol_server_presend_packet`. -/
def presendPacket (s : Server) (p : PeerId) : Server :=
  if (s.peers p).flags.confirmed then s else sendKeepAlive env s p

/-- Whether `pomelo_protocol_socket_send` gets past its checks. -/
def sendable (s : Server) (p : PeerId) (views : List (List UInt8)) : Bool :=
  decide (s.state = .running) && decide ((s.peers p).state = .connected) &&
    decide (views ≠ []) && decide (views.length ≤ 16) &&
    decide (0 < views.flatten.length) && decide (views.flatten.length ≤ s.payloadCapacity)

/-- `pomelo_protocol_socket_send`. -/
def socketSend (s : Server) (p : PeerId) (views : List (List UInt8)) : Server :=
  if s.sendable p views then
    sendOwn env (presendPacket env s p) p .payload (.payload views.flatten)
  else s

end Outgoing

section Incoming

variable (env : Env)

/-- `pomelo_protocol_server_deny_peer`. -/
def denyPeer (s : Server) (p : PeerId) : Server :=
  let deny (s : Server) : Server :=
    if env.pushEntry then
      let r := sendDenied env (s.pushBack .denied p) p
      if r.2 then r.1 else (r.1.unlink .denied p).releasePeer p
    else s.releasePeer p
  match (s.peers p).state with
  | .request => deny (s.unlink .requesting p)
  | .challenge => deny (s.unlink .challenging p)
  | _ => s

/-- `pomelo_protocol_server_recv_request`. The expire timestamp of the token is
not read. -/
def recvRequest (s : Server) (p : PeerId) (token : ConnectToken) : Server :=
  if (s.peers p).state ≠ .request then s
  else if s.maxClients ≤ (s.lists .connected).length then denyPeer env s p
  else
    let s := s.modifyPeer p fun peer => peer.adoptToken token env.hrtime
    let s := s.unlink .requesting p
    if env.pushEntry then
      let s := (s.pushBack .challenging p).note (.granted p token env.now)
      sendChallenge env s p token.token
    else s.releasePeer p

/-- `pomelo_protocol_server_recv_request_failed`. -/
def recvRequestFailed (s : Server) (p : PeerId) : Server :=
  if (s.peers p).state ≠ .request then s else denyPeer env s p

/-- `pomelo_protocol_server_recv_response`. The number of connected peers is not
compared with the maximum. -/
def recvResponse (s : Server) (p : PeerId) (token : ChallengeToken) : Server :=
  if (s.peers p).state ≠ .challenge then s
  else if (s.peers p).clientId ≠ token.clientId then s
  else if (s.peers p).userData ≠ token.userData then s
  else
    let s := s.unlink .challenging p
    if env.pushEntry then
      let s := s.pushBack .connected p
      let s := s.modifyPeer p fun peer =>
        { peer with flags := { peer.flags with confirmed := false } }
      (sendKeepAlive env s p).note (.connected p)
    else s.releasePeer p

/-- `pomelo_protocol_server_recv_disconnect`. -/
def recvDisconnect (s : Server) (p : PeerId) : Server :=
  if (s.peers p).state ≠ .connected then s
  else
    let s := s.modifyPeer p fun peer => { peer with state := .disconnected }
    let s := (s.note (.disconnected p)).unlink .connected p
    s.releasePeer p

/-- `pomelo_protocol_server_recv_keep_alive`. -/
def recvKeepAlive (s : Server) (p : PeerId) (clientId : Int64) : Server :=
  if (s.peers p).state ≠ .connected then s
  else if (s.peers p).flags.confirmed then s
  else if (s.peers p).clientId ≠ clientId then s
  else s.modifyPeer p fun peer => { peer with flags := { peer.flags with confirmed := true } }

/-- `pomelo_protocol_socket_recv_packet`, with the handlers of the server. -/
def recvPacket (s : Server) (p : PeerId) (id : ReceiverId) (datagram : Datagram) :
    Packet → Server
  | .payload _ => s.note (.received id p datagram)
  | .request protocolId expireTimestamp token =>
      recvRequest env s p ⟨protocolId, expireTimestamp, token⟩
  | .response _ token => recvResponse env s p token
  | .disconnect => recvDisconnect s p
  | .keepAlive clientId => recvKeepAlive s p clientId
  | _ => s

/-- `pomelo_protocol_server_recv_failed`. -/
def recvFailed (s : Server) (p : PeerId) : PacketType → Server
  | .request => recvRequestFailed env s p
  | _ => s

/-- `pomelo_protocol_socket_validate_packet`. -/
def validatePacket (s : Server) (p : PeerId) : Packet → Bool
  | .keepAlive clientId =>
      decide ((s.peers p).state ≠ .connected) || decide (clientId = (s.peers p).clientId)
  | _ => true

/-- `pomelo_protocol_socket_handle_receiver_complete`, with the packet the worker
decoded. -/
def handleReceiverComplete (s : Server) (p : PeerId) (id : ReceiverId) (receiver : Receiver)
    (packet : Option Packet) : Server :=
  if s.state ≠ .running then s
  else
    let type := receiver.datagram.header.type
    let s :=
      if type = .response then
        s.modifyPeer p fun peer =>
          { peer with flags := { peer.flags with processingResponse := false } }
      else s
    match packet with
    | none => recvFailed env s p type
    | some packet =>
        if s.validatePacket p packet then
          let s := s.modifyPeer p fun peer => { peer with lastRecvTime := receiver.recvTime }
          recvPacket env s p id receiver.datagram packet
        else recvFailed env s p type

/-- The completion of a receiver, after the worker processed it or failed to. -/
def receiverComplete (s : Server) (id : ReceiverId) (workerFailed : Bool) : Server :=
  match s.receivers id with
  | none => s
  | some receiver =>
      let s := s.setReceiver id none
      if receiver.canceled then s
      else
        match receiver.peer with
        | none => s
        | some p =>
            let s := s.modifyPeer p fun peer =>
              { peer with receivers := peer.receivers.erase id }
            handleReceiverComplete env s p id receiver
              (if workerFailed then none
                else processEntry receiver.cryptoCtx receiver.datagram)

/-- `pomelo_protocol_server_sent_denied`. -/
def sentDenied (s : Server) (p : PeerId) : Server :=
  if (s.peers p).state ≠ .denied then s else (s.unlink .denied p).releasePeer p

/-- The completion of a sender; `failed` covers the worker and the adapter. -/
def senderComplete (s : Server) (id : SenderId) (failed : Bool) : Server :=
  match s.senders id with
  | none => s
  | some sender =>
      let s := s.setSender id none
      if sender.canceled then s
      else
        match sender.peer with
        | none => s
        | some p =>
            let s := s.modifyPeer p fun peer => { peer with senders := peer.senders.erase id }
            if s.state ≠ .running then s
            else if failed then s
            else if sender.type = .denied then sentDenied s p
            else s

/-- The part of `pomelo_protocol_server_validate` for a packet that is not a
request: the peer when the packet passes. -/
def validatePacketOf (s : Server) (address : Address) (header : Header) :
    Server × Option PeerId :=
  match s.peerAddressMap address with
  | none => (s, none)
  | some p =>
      match header.type with
      | .response =>
          if (s.peers p).state ≠ .challenge then (s, none)
          else if (s.peers p).flags.processingResponse then (s, none)
          else (s, some p)
      | .payload | .keepAlive | .disconnect =>
          if (s.peers p).state ≠ .connected then (s, none)
          else
            let r := (s.peers p).protectReplay header.sequence
            (s.modifyPeer p fun _ => r.1, if r.2 then some p else none)
      | _ => (s, none)

/-- The part of `pomelo_protocol_server_validate` for a request: a new peer. -/
def validateRequest (s : Server) (address : Address) (body : RequestBody) :
    Server × Option PeerId :=
  if (s.peerAddressMap address).isSome then (s, none)
  else if body.protocolId ≠ s.protocolId then (s, none)
  else if env.acquirePeer then
    let p := s.tick
    let s := s.acquirePeer env address
    if env.pushEntry then
      let s := s.pushBack .requesting p
      (s.modifyPeer p fun peer =>
        { peer with cryptoCtx := some ⟨0, 0, 0, s.challengeKey, s.privateKey⟩ }, some p)
    else (s.releasePeer p, none)
  else (s, none)

/-- `pomelo_protocol_socket_validate_incoming`. -/
def validateIncoming (s : Server) (address : Address) (datagram : Datagram) :
    Server × Option PeerId :=
  if s.state ≠ .running then (s, none)
  else if ¬ datagram.validateBodyLength then (s, none)
  else
    match datagram with
    | .request _ body => validateRequest env s address body
    | .packet header _ => validatePacketOf s address header

/-- `pomelo_protocol_receiver_init` and submission. -/
def submitReceiver (s : Server) (p : PeerId) (datagram : Datagram) : Server :=
  let id := s.tick
  (s.setReceiver id (some ⟨some p, s.cryptoCtx p, datagram, env.hrtime, false⟩)).modifyPeer p
    fun peer =>
    { peer with
      receivers := peer.receivers ++ [id]
      flags :=
        if datagram.header.type = .response then
          { peer.flags with processingResponse := true }
        else peer.flags }

/-- `pomelo_protocol_socket_accept`. -/
def accept (s : Server) (address : Address) (datagram : Datagram) : Server :=
  match validateIncoming env s address datagram with
  | (s, none) => s
  | (s, some p) =>
      let s := s.note (.validated s.tick p datagram)
      if env.acquireReceiver then submitReceiver env s p datagram else s

end Incoming

section Tasks

variable (env : Env)

/-- `pomelo_protocol_server_disconnect_peer`. -/
def disconnectPeer (s : Server) (p : PeerId) : Server :=
  if (s.peers p).state ≠ .connected then s
  else
    let s := s.unlink .connected p
    if env.pushEntry then
      let s := s.pushBack .disconnecting p
      let s := s.modifyPeer p fun peer => { peer with remainRedundantDisconnect := 10 }
      s.note (.disconnected p)
    else
      let s := s.modifyPeer p fun peer => { peer with state := .disconnected }
      (s.note (.disconnected p)).releasePeer p

/-- The body of the loop of `pomelo_protocol_server_broadcast_keep_alive`. -/
def keepAliveEntry (s : Server) (entry : PeerEntry) : Server :=
  let p := entry.peer
  if env.hrtime - (s.peers p).lastRecvTime ≤ (s.peers p).timeoutNs then sendKeepAlive env s p
  else
    let s := s.modifyPeer p fun peer => { peer with state := .disconnected }
    ((s.note (.disconnected p)).removeEntry .connected entry).releasePeer p

/-- `pomelo_protocol_server_broadcast_keep_alive`. -/
def broadcastKeepAlive (s : Server) : Server :=
  (s.lists .connected).foldl (keepAliveEntry env) s

/-- The body of the loop of `pomelo_protocol_server_broadcast_disconnect`. -/
def disconnectEntry (s : Server) (entry : PeerEntry) : Server :=
  let p := entry.peer
  let remain := (s.peers p).remainRedundantDisconnect
  let s := s.modifyPeer p fun peer => { peer with remainRedundantDisconnect := remain - 1 }
  if 0 < remain then sendDisconnectPeer env s p
  else (s.removeEntry .disconnecting entry).releasePeer p

/-- `pomelo_protocol_server_broadcast_disconnect`. -/
def broadcastDisconnect (s : Server) : Server :=
  (s.lists .disconnecting).foldl (disconnectEntry env) s

/-- The body of the loop of `pomelo_protocol_server_scan_challenging_peers`. -/
def scanEntry (s : Server) (entry : PeerEntry) : Server :=
  let p := entry.peer
  if (s.peers p).timeoutNs < env.hrtime - (s.peers p).createdTimeNs then
    (s.removeEntry .challenging entry).releasePeer p
  else s

/-- `pomelo_protocol_server_scan_challenging_peers`. -/
def scanChallengingPeers (s : Server) : Server :=
  (s.lists .challenging).foldl (scanEntry env) s

/-- `pomelo_protocol_socket_stop`. -/
def socketStop (s : Server) : Server :=
  if s.state ≠ .running then s else { s with state := .stopping }

/-- Releasing the peers of one list in `pomelo_protocol_server_stop`. -/
def releaseList (s : Server) (name : PeerListName) : Server :=
  let s' := (s.lists name).foldl
    (fun s entry => (s.cancelSendersAndReceivers entry.peer).modifyPeer entry.peer Peer.cleanup) s
  { s' with lists := Function.update s'.lists name [] }

/-- `pomelo_protocol_socket_stop_deferred` with `pomelo_protocol_server_stop`. -/
def stopDeferred (s : Server) : Server :=
  let s := { s with
    state := .stopped
    anonymousSequenceNumber := 0
    challengeSequenceNumber := 0
    privateKey := 0
    challengeKey := 0 }
  let s := [.requesting, .challenging, .denied, .connected, .disconnecting].foldl releaseList s
  { s with peerAddressMap := fun _ => none }

end Tasks

end Server

/-- The callbacks of a server. -/
inductive Event where
  /-- `pomelo_protocol_acceptance_process` -/
  | accept (address : Address) (datagram : Datagram)
  /-- `pomelo_protocol_receiver_complete` -/
  | receiverComplete (id : ReceiverId) (workerFailed : Bool)
  /-- `pomelo_protocol_sender_complete` -/
  | senderComplete (id : SenderId) (failed : Bool)
  /-- `pomelo_protocol_socket_send` -/
  | send (peer : PeerId) (views : List (List UInt8))
  /-- `pomelo_protocol_peer_disconnect_deferred` -/
  | disconnectPeer (peer : PeerId)
  | keepAliveTick
  | disconnectTick
  | scanTick
  | stop
  | stopDeferred
  /-- Nothing happens. -/
  | idle

/-- An event with the answers of the platform while it runs. -/
structure Input where
  env : Env
  event : Event

namespace Server

/-- The callback of an event. -/
def handle (env : Env) (s : Server) : Event → Server
  | .accept address datagram => accept env s address datagram
  | .receiverComplete id workerFailed => receiverComplete env s id workerFailed
  | .senderComplete id failed => senderComplete s id failed
  | .send p views => socketSend env s p views
  | .disconnectPeer p => disconnectPeer env s p
  | .keepAliveTick => broadcastKeepAlive env s
  | .disconnectTick => broadcastDisconnect env s
  | .scanTick => scanChallengingPeers env s
  | .stop => socketStop s
  | .stopDeferred => if s.state = .stopping then stopDeferred s else s
  | .idle => s

/-- One step: a new number, then the callback. -/
def step (s : Server) (i : Input) : Server :=
  handle i.env { s with tick := s.tick + 1 } i.event

end Server

end Protocol

end PomeloUdp
