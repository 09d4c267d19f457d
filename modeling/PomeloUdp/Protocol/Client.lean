import PomeloUdp.Protocol.Server

/-!
# The client

`Client` is `pomelo_protocol_client_t` with its base socket, its one peer and
the packets in flight, for an encrypted client after a successful start. Each
event of `ClientEvent` is one callback that runs to its end, as for the server.
An emitter is a timer whose callback submits a task: the task may still run when
its emitter has been stopped.

The peer is `none` after `pomelo_protocol_client_stop` has released it. A handler
that then uses it reads a null pointer; the client is `faulted` from there on and
does nothing more.
-/

namespace PomeloUdp

namespace Protocol

open Crypto

/-- The public part of a connect token, with the sealed private part. -/
structure ClientToken where
  protocolId : UInt64
  expireTimestamp : UInt64
  connectTokenNonce : TokenNonce
  timeout : Int32
  addresses : List Address
  clientToServerKey : Key
  serverToClientKey : Key
  encrypted : SealedToken

/-- The connect token that a client gets for the token its server decrypts. -/
def ConnectToken.issue (privateKey : Key) (nonce : TokenNonce) (token : ConnectToken) :
    ClientToken where
  protocolId := token.protocolId
  expireTimestamp := token.expireTimestamp
  connectTokenNonce := nonce
  timeout := token.token.timeout
  addresses := token.token.addresses
  clientToServerKey := token.token.clientToServerKey
  serverToClientKey := token.token.serverToClientKey
  encrypted := .encrypted privateKey nonce ⟨token.protocolId, token.expireTimestamp⟩ token.token

/-- `pomelo_protocol_emitter_t`. -/
structure Emitter where
  running : Bool
  triggerCounter : ℕ
  triggerTask : Bool
  timeoutTask : Bool
  deriving DecidableEq

/-- The emitters of a client. -/
inductive EmitterName where
  | request
  | response
  | keepAlive
  | disconnect
  deriving DecidableEq

/-- `POMELO_DISCONNECT_REDUNDANT_LIMIT` for the disconnect emitter, none for the
others. -/
def EmitterName.limit : EmitterName → ℕ
  | disconnect => 10
  | _ => 0

/-- `pomelo_protocol_socket_connect_result`. -/
inductive ConnectResult where
  | success
  | denied
  | timedOut
  deriving DecidableEq

/-- What the client did. -/
inductive ClientEffect where
  /-- A packet was submitted for sending. -/
  | emitted (datagram : Datagram)
  /-- `pomelo_protocol_socket_on_connect_result`. -/
  | connectResult (result : ConnectResult)
  /-- `pomelo_protocol_socket_on_connected`. -/
  | connected (clientId : Int64)
  /-- `pomelo_protocol_socket_on_disconnected`. -/
  | disconnected
  /-- `pomelo_protocol_socket_on_received`. -/
  | received (receiver : ReceiverId) (datagram : Datagram)
  deriving DecidableEq

/-- What the platform and the pools answer during one event. -/
structure ClientEnv where
  /-- `pomelo_platform_hrtime`. -/
  hrtime : UInt64
  acquireReceiver : Bool
  acquirePacket : Bool
  acquireSender : Bool
  /-- Whether `pomelo_platform_timer_start` succeeds. -/
  startTimer : Bool

/-- A platform of a client whose pools never run out. -/
def ClientEnv.plentiful (now : UInt64) : ClientEnv := ⟨now, true, true, true, true⟩

/-- `pomelo_protocol_client_t`. -/
structure Client where
  state : SocketState
  peer : Option Peer
  emitters : EmitterName → Emitter
  addressIndex : ℕ
  connectToken : ClientToken
  challengeTokenSequence : UInt64
  challengeTokenData : SealedChallenge
  payloadCapacity : ℕ
  receivers : ReceiverId → Option Receiver
  senders : SenderId → Option Sender
  log : List ClientEffect
  faulted : Bool
  /-- The number of the running step, from which names are taken. -/
  tick : ℕ

namespace Client

/-- The name of the peer. -/
def peerName : PeerId := 0

/-- The crypto context that the start of a client makes from its token. -/
def contextOf (token : ClientToken) : CryptoContext where
  protocolId := token.protocolId
  packetDecryptKey := token.serverToClientKey
  packetEncryptKey := token.clientToServerKey
  challengeKey := 0
  privateKey := 0

/-- The client after a successful `pomelo_protocol_client_start` towards the first
address of its token. -/
def start (token : ClientToken) (address : Address) (payloadCapacity : ℕ) (hrtime : UInt64)
    (leftover : UInt64) : Client where
  state := .running
  peer := some { Peer.zero.cleanup with
    replayProtector := ⟨ReplayProtector.resetSlots, leftover⟩
    socket := some 0
    createdTimeNs := hrtime
    timeoutNs := secondsToNs token.timeout
    cryptoCtx := some (contextOf token)
    address := some address
    state := .request }
  emitters := fun name => ⟨decide (name = .request), 0, false, false⟩
  addressIndex := 0
  connectToken := token
  challengeTokenSequence := 0
  challengeTokenData := .forged 0 300
  payloadCapacity := payloadCapacity
  receivers := fun _ => none
  senders := fun _ => none
  log := []
  faulted := false
  tick := 0

section Memory

/-- Writing fields of the peer. -/
def modifyPeer (c : Client) (f : Peer → Peer) : Client := { c with peer := c.peer.map f }

/-- Writing an emitter. -/
def modifyEmitter (c : Client) (name : EmitterName) (f : Emitter → Emitter) : Client :=
  { c with emitters := Function.update c.emitters name (f (c.emitters name)) }

/-- Adding to the record of what the client did. -/
def note (c : Client) (effect : ClientEffect) : Client := { c with log := c.log ++ [effect] }

/-- Submitting or releasing a receiver. -/
def setReceiver (c : Client) (id : ReceiverId) (receiver : Option Receiver) : Client :=
  { c with receivers := Function.update c.receivers id receiver }

/-- Submitting or releasing a sender. -/
def setSender (c : Client) (id : SenderId) (sender : Option Sender) : Client :=
  { c with senders := Function.update c.senders id sender }

/-- A null pointer is read. -/
def fault (c : Client) : Client := { c with faulted := true }

/-- `pomelo_protocol_socket_stop`. -/
def socketStop (c : Client) : Client :=
  if c.state ≠ .running then c else { c with state := .stopping }

@[simp] theorem socketStop_peer (c : Client) : c.socketStop.peer = c.peer := by
  unfold socketStop
  split <;> rfl

/-- `pomelo_protocol_emitter_stop`. -/
def emitterStop (c : Client) (name : EmitterName) : Client :=
  c.modifyEmitter name fun e => { e with running := false }

/-- `pomelo_protocol_emitter_start`: whether it succeeds. -/
def emitterStart (env : ClientEnv) (c : Client) (name : EmitterName) : Client × Bool :=
  if (c.emitters name).running then (c, false)
  else if env.startTimer then
    (c.modifyEmitter name fun e => { e with running := true, triggerCounter := 0 }, true)
  else (c, false)

/-- `pomelo_protocol_peer_cancel_senders_and_receivers` and the release of the
peer in `pomelo_protocol_client_stop`. -/
def releasePeer (c : Client) (peer : Peer) : Client :=
  { c with
    senders := fun id =>
      if id ∈ peer.senders then
        (c.senders id).map fun sender => { sender with peer := none, canceled := true }
      else c.senders id
    receivers := fun id =>
      if id ∈ peer.receivers then
        (c.receivers id).map fun receiver => { receiver with peer := none, canceled := true }
      else c.receivers id
    peer := none }

/-- `pomelo_protocol_client_stop`. -/
def stop (c : Client) : Client :=
  match c.peer with
  | none => c
  | some peer =>
      ((((c.emitterStop .request).emitterStop .response).emitterStop .keepAlive).emitterStop
        .disconnect).releasePeer peer

/-- `pomelo_protocol_client_next_address`. -/
def nextAddress (c : Client) : Client × Option Address :=
  let index := c.addressIndex + 1
  ({ c with addressIndex := index }, c.connectToken.addresses[index]?)

/-- `pomelo_protocol_client_connect_address` after `pomelo_protocol_client_stop`: the
address is written through the pointer to the released peer. -/
def retryAddress (c : Client) : Client := c.stop.fault

end Memory

section Outgoing

variable (env : ClientEnv)

/-- `pomelo_protocol_socket_dispatch`. -/
def dispatch (c : Client) (datagram : Datagram) : Client :=
  if env.acquireSender then
    let id : SenderId := ⟨c.tick, peerName, datagram.header.type⟩
    ((c.setSender id (some ⟨some peerName, datagram.header.type, false⟩)).modifyPeer
      fun peer => { peer with senders := peer.senders ++ [id] }).note (.emitted datagram)
  else c

/-- The datagram of a packet that the worker encrypts. -/
def sealedPacket (peer : Peer) (header : Header) (body : PacketBody) : Datagram :=
  .packet header ((peer.cryptoCtx.getD .zero).encryptPacket header body)

/-- A packet with the next sequence number of the peer. The emitters stop the
socket when the packet cannot be acquired. -/
def sendOwn (c : Client) (peer : Peer) (type : PacketType) (body : PacketBody) : Client :=
  let c := c.modifyPeer fun peer => peer.nextSequence.1
  if env.acquirePacket then dispatch env c (sealedPacket peer ⟨type, peer.sequenceNumber⟩ body)
  else c.socketStop

/-- `pomelo_protocol_client_send_request`. -/
def sendRequest (c : Client) : Client :=
  if env.acquirePacket then
    match c.peer with
    | none => c.fault
    | some _ =>
        dispatch env c (.request 0 ⟨true, c.connectToken.protocolId, c.connectToken.expireTimestamp,
          c.connectToken.connectTokenNonce, c.connectToken.encrypted⟩)
  else c.socketStop

/-- `pomelo_protocol_client_send_response`. -/
def sendResponse (c : Client) : Client :=
  match c.peer with
  | none => c.fault
  | some peer =>
      sendOwn env c peer .response (.response c.challengeTokenSequence c.challengeTokenData)

/-- `pomelo_protocol_client_send_keep_alive`. -/
def sendKeepAlive (c : Client) : Client :=
  match c.peer with
  | none => c.fault
  | some peer =>
      if peer.timeoutNs < env.hrtime - peer.lastRecvTime then
        (((c.emitterStop .keepAlive).modifyPeer fun peer =>
          { peer with state := .timedOut }).note .disconnected).socketStop
      else sendOwn env c peer .keepAlive (.keepAlive peer.clientId)

/-- `pomelo_protocol_client_send_disconnect`. -/
def sendDisconnect (c : Client) : Client :=
  match c.peer with
  | none => c.fault
  | some peer => sendOwn env c peer .disconnect .disconnect

/-- Whether `pomelo_protocol_socket_send` gets past its checks. -/
def sendable (c : Client) (peer : Peer) (views : List (List UInt8)) : Bool :=
  decide (c.state = .running) && decide (peer.state = .connected) && decide (views ≠ []) &&
    decide (views.length ≤ 16) && decide (0 < views.flatten.length) &&
    decide (views.flatten.length ≤ c.payloadCapacity)

/-- `pomelo_protocol_socket_send`. -/
def socketSend (c : Client) (views : List (List UInt8)) : Client :=
  match c.peer with
  | none => c
  | some peer =>
      if c.sendable peer views then
        let c := c.modifyPeer fun peer => peer.nextSequence.1
        if env.acquirePacket then
          dispatch env c
            (sealedPacket peer ⟨.payload, peer.sequenceNumber⟩ (.payload views.flatten))
        else c
      else c

end Outgoing

section Incoming

variable (env : ClientEnv)

/-- `pomelo_protocol_client_validate`, which writes the replay protector. -/
def validate (peer : Peer) (address : Address) (header : Header) : Peer × Bool :=
  if peer.address ≠ some address then (peer, false)
  else
    match header.type with
    | .denied => (peer, decide (peer.state = .request) || decide (peer.state = .response))
    | .challenge => (peer, decide (peer.state = .request))
    | .keepAlive =>
        if peer.state = .connected ∨ peer.state = .response then
          peer.protectReplay header.sequence
        else (peer, false)
    | .payload | .disconnect =>
        if peer.state = .connected then peer.protectReplay header.sequence else (peer, false)
    | .request | .response => (peer, false)

/-- `pomelo_protocol_receiver_init` and submission. -/
def submitReceiver (c : Client) (peer : Peer) (datagram : Datagram) : Client :=
  let id := c.tick
  (c.setReceiver id (some ⟨some peerName, peer.cryptoCtx.getD .zero, datagram, env.hrtime,
    false⟩)).modifyPeer fun peer => { peer with receivers := peer.receivers ++ [id] }

/-- `pomelo_protocol_socket_accept`. -/
def accept (c : Client) (address : Address) (datagram : Datagram) : Client :=
  if c.state ≠ .running then c
  else if ¬ datagram.validateBodyLength then c
  else
    match c.peer with
    | none => c.fault
    | some peer =>
        let r := validate peer address datagram.header
        let c := { c with peer := some r.1 }
        if r.2 then
          if env.acquireReceiver then submitReceiver env c r.1 datagram else c
        else c

/-- `pomelo_protocol_client_recv_denied`. -/
def recvDenied (c : Client) : Client :=
  let c := c.modifyPeer fun peer => { peer with state := .denied }
  match c.nextAddress with
  | (c, none) => (c.note (.connectResult .denied)).socketStop
  | (c, some _) => c.retryAddress

/-- `pomelo_protocol_client_recv_challenge`. -/
def recvChallenge (c : Client) (peer : Peer) (sequence : UInt64) (token : SealedChallenge) :
    Client :=
  if peer.state ≠ .request then c
  else
    let c := (c.modifyPeer fun peer => { peer with state := .response }).emitterStop .request
    let c := { c with challengeTokenSequence := sequence, challengeTokenData := token }
    let r := c.emitterStart env .response
    if r.2 then r.1 else r.1.socketStop

/-- `pomelo_protocol_client_recv_disconnect`. -/
def recvDisconnect (c : Client) (peer : Peer) : Client :=
  if peer.state ≠ .connected then c
  else
    ((c.modifyPeer fun peer => { peer with state := .disconnected }).note .disconnected).socketStop

/-- `pomelo_protocol_client_recv_keep_alive`. -/
def recvKeepAlive (c : Client) (peer : Peer) (clientId : Int64) : Client :=
  if peer.state ≠ .response then c
  else
    let c := (c.modifyPeer fun peer =>
      { peer with state := .connected, clientId := clientId }).emitterStop .response
    let r := c.emitterStart env .keepAlive
    if r.2 then (r.1.note (.connectResult .success)).note (.connected clientId)
    else r.1.socketStop

/-- `pomelo_protocol_socket_recv_packet`, with the handlers of the client. -/
def recvPacket (c : Client) (peer : Peer) (id : ReceiverId) (datagram : Datagram) :
    Packet → Client
  | .payload _ => c.note (.received id datagram)
  | .denied => recvDenied c
  | .challenge sequence token => recvChallenge env c peer sequence token
  | .disconnect => recvDisconnect c peer
  | .keepAlive clientId => recvKeepAlive env c peer clientId
  | _ => c

/-- `pomelo_protocol_socket_validate_packet`. -/
def validatePacket (peer : Peer) : Packet → Bool
  | .keepAlive clientId => decide (peer.state ≠ .connected) || decide (clientId = peer.clientId)
  | _ => true

/-- `pomelo_protocol_socket_handle_receiver_complete`, with the packet the worker
decoded. -/
def handleReceiverComplete (c : Client) (id : ReceiverId) (receiver : Receiver)
    (packet : Option Packet) : Client :=
  if c.state ≠ .running then c
  else
    match c.peer, packet with
    | some peer, some packet =>
        if validatePacket peer packet then
          recvPacket env (c.modifyPeer fun peer => { peer with lastRecvTime := receiver.recvTime })
            peer id receiver.datagram packet
        else c
    | _, _ => c

/-- The completion of a receiver, after the worker processed it or failed to. -/
def receiverComplete (c : Client) (id : ReceiverId) (workerFailed : Bool) : Client :=
  match c.receivers id with
  | none => c
  | some receiver =>
      let c := c.setReceiver id none
      if receiver.canceled then c
      else
        let c := c.modifyPeer fun peer => { peer with receivers := peer.receivers.erase id }
        handleReceiverComplete env c id receiver
          (if workerFailed then none else processEntry receiver.cryptoCtx receiver.datagram)

/-- The completion of a sender. -/
def senderComplete (c : Client) (id : SenderId) : Client :=
  match c.senders id with
  | none => c
  | some sender =>
      let c := c.setSender id none
      if sender.canceled then c
      else c.modifyPeer fun peer => { peer with senders := peer.senders.erase id }

end Incoming

section Tasks

variable (env : ClientEnv)

/-- The callback of an emitter. -/
def trigger (c : Client) : EmitterName → Client
  | .request => sendRequest env c
  | .response => sendResponse env c
  | .keepAlive => sendKeepAlive env c
  | .disconnect => sendDisconnect env c

/-- `pomelo_protocol_client_handle_disconnect_limit`. -/
def handleDisconnectLimit (c : Client) : Client := (c.emitterStop .disconnect).socketStop

/-- `pomelo_protocol_emitter_on_triggered`. -/
def onTriggered (c : Client) (name : EmitterName) : Client :=
  let c := trigger env c name
  let c := c.modifyEmitter name fun e => { e with triggerCounter := e.triggerCounter + 1 }
  if 0 < name.limit ∧ name.limit = (c.emitters name).triggerCounter then
    (c.emitterStop name).handleDisconnectLimit
  else c

/-- The state of a peer whose request or response has timed out. -/
def lateState : PeerState → PeerState
  | .request => .requestTimedOut
  | .response => .responseTimedOut
  | state => state

/-- `pomelo_protocol_client_handle_request_timeout`. -/
def handleRequestTimeout (c : Client) : Client :=
  let c := c.emitterStop .request
  match c.peer with
  | none => c.fault
  | some _ =>
      let c := c.modifyPeer fun peer => { peer with state := lateState peer.state }
      match c.nextAddress with
      | (c, none) => (c.note (.connectResult .timedOut)).socketStop
      | (c, some _) => c.retryAddress

/-- `pomelo_protocol_client_disconnect_peer`. -/
def disconnectPeer (c : Client) : Client :=
  match c.peer with
  | none => c
  | some peer =>
      if peer.state ≠ .connected then c
      else
        let c := ((c.emitterStop .keepAlive).modifyPeer fun peer =>
          { peer with state := .disconnecting }).note .disconnected
        let r := c.emitterStart env .disconnect
        if r.2 then r.1 else r.1.socketStop

/-- `pomelo_protocol_socket_stop_deferred`. -/
def stopDeferred (c : Client) : Client :=
  let c := { c with state := .stopped }
  (c.modifyPeer fun peer => { peer with state := .disconnected }).stop

end Tasks

end Client

/-- The callbacks of a client. -/
inductive ClientEvent where
  /-- `pomelo_protocol_acceptance_process` -/
  | accept (address : Address) (datagram : Datagram)
  /-- `pomelo_protocol_receiver_complete` -/
  | receiverComplete (id : ReceiverId) (workerFailed : Bool)
  /-- `pomelo_protocol_sender_complete` -/
  | senderComplete (id : SenderId)
  /-- `pomelo_protocol_socket_send` -/
  | send (views : List (List UInt8))
  /-- `pomelo_protocol_peer_disconnect_deferred` -/
  | disconnectPeer
  /-- The trigger timer of an emitter. -/
  | triggerTimer (name : EmitterName)
  /-- `pomelo_protocol_emitter_on_triggered` -/
  | triggered (name : EmitterName)
  /-- The timeout timer of the request emitter. -/
  | timeoutTimer
  /-- `pomelo_protocol_emitter_on_timeout` -/
  | timedOut
  | stop
  | stopDeferred

/-- An event with the answers of the platform while it runs. -/
structure ClientInput where
  env : ClientEnv
  event : ClientEvent

namespace Client

/-- The callback of an event. -/
def handle (env : ClientEnv) (c : Client) : ClientEvent → Client
  | .accept address datagram => accept env c address datagram
  | .receiverComplete id workerFailed => receiverComplete env c id workerFailed
  | .senderComplete id => senderComplete c id
  | .send views => socketSend env c views
  | .disconnectPeer => disconnectPeer env c
  | .triggerTimer name =>
      if (c.emitters name).running then c.modifyEmitter name fun e => { e with triggerTask := true }
      else c
  | .triggered name =>
      if (c.emitters name).triggerTask then
        onTriggered env (c.modifyEmitter name fun e => { e with triggerTask := false }) name
      else c
  | .timeoutTimer =>
      if (c.emitters .request).running ∧ 0 < c.connectToken.timeout then
        c.modifyEmitter .request fun e => { e with timeoutTask := true }
      else c
  | .timedOut =>
      if (c.emitters .request).timeoutTask then
        handleRequestTimeout (c.modifyEmitter .request fun e => { e with timeoutTask := false })
      else c
  | .stop => c.socketStop
  | .stopDeferred => if c.state = .stopping then c.stopDeferred else c

/-- One step: a new number, then the callback. -/
def step (c : Client) (i : ClientInput) : Client :=
  if c.faulted then c else handle i.env { c with tick := c.tick + 1 } i.event

end Client

end Protocol

end PomeloUdp
