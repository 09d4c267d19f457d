import PomeloUdp.Protocol.ServerTable

/-!
# What a step of the server can do

Every callback of the server is a sequence of acts: a datagram passes
validation, a peer is acquired, granted, denied, connected, parked in the list
of disconnecting peers or released, a packet is sent with a number of one of the
two counters, and small writes that no property here reads. `step_acts` says so
once, together with what holds when each act is made (`Enabled`): the state of
the peer, and what the state before the step and the event have to do with it.
Invariants of the server are proved act by act from there.
-/

namespace PomeloUdp

namespace Protocol

open Machine

namespace Server

/-- The acts callbacks are made of. -/
inductive Act where
  | pass (p : PeerId) (datagram : Datagram)
  | acquire (address : Address)
  | discard (address : Address)
  | submit (p : PeerId) (datagram : Datagram)
  | take (id : ReceiverId)
  | drop (id : SenderId)
  | soft (p : PeerId) (f : Peer → Peer)
  | grant (p : PeerId) (token : ConnectToken)
  | challenge (p : PeerId) (token : ConnectToken)
  | deny (p : PeerId)
  | denied (p : PeerId)
  | connect (p : PeerId)
  | own (p : PeerId) (type : PacketType) (body : PacketBody)
  | park (p : PeerId)
  | release (p : PeerId) (name : PeerListName)
  | note (effect : Effect)
  | stopping
  | stopped

/-- The effect of an act. -/
def act (env : Env) (s : Server) : Act → Server
  | .pass p datagram =>
      (if datagram.header.type.isProtected then
        s.modifyPeer p fun peer => (peer.protectReplay datagram.header.sequence).1
      else s).note (.validated s.tick p datagram)
  | .acquire a =>
      ((s.acquirePeer env a).pushBack .requesting s.tick).modifyPeer s.tick fun peer =>
        { peer with cryptoCtx := some ⟨0, 0, 0, s.challengeKey, s.privateKey⟩ }
  | .discard a => (s.acquirePeer env a).releasePeer s.tick
  | .submit p datagram => submitReceiver env s p datagram
  | .take id => s.setReceiver id none
  | .drop id => s.setSender id none
  | .soft p f => s.modifyPeer p f
  | .grant p token =>
      (((s.modifyPeer p fun peer => peer.adoptToken token env.hrtime).unlink .requesting p).pushBack
        .challenging p).note (.granted p token env.now)
  | .challenge p token => sendChallenge env s p token.token
  | .deny p => (s.unlink .requesting p).pushBack .denied p
  | .denied p => (sendDenied env s p).1
  | .connect p =>
      ((s.unlink .challenging p).pushBack .connected p).modifyPeer p fun peer =>
        { peer with flags := { peer.flags with confirmed := false } }
  | .own p type body => sendOwn env s p type body
  | .park p =>
      ((s.unlink .connected p).pushBack .disconnecting p).modifyPeer p fun peer =>
        { peer with remainRedundantDisconnect := 10 }
  | .release p name => (s.unlink name p).releasePeer p
  | .note effect => s.note effect
  | .stopping => { s with state := .stopping }
  | .stopped => s.stopDeferred

section Turns

variable (s : Server) (i : Input)

/-- The completion that an event makes a running server handle: the peer and the
datagram of the receiver, and the packet the worker decoded. -/
def completion : Option (PeerId × Datagram × Option Packet) :=
  match i.event with
  | .receiverComplete id workerFailed =>
      (s.receivers id).bind fun receiver =>
        if s.state = .running ∧ receiver.canceled = false then
          receiver.peer.map fun p =>
            (p, receiver.datagram,
              if workerFailed then none else processEntry receiver.cryptoCtx receiver.datagram)
        else none
  | _ => none

/-- The request that an event makes the server grant: a peer and its token. -/
def granting : Option (PeerId × ConnectToken) :=
  match s.completion i with
  | some (p, _, some (.request protocolId expireTimestamp token)) =>
      if (s.peers p).state = .request ∧ (s.lists .connected).length < s.maxClients ∧
          i.env.pushEntry = true then
        some (p, ⟨protocolId, expireTimestamp, token⟩)
      else none
  | _ => none

/-- The peer that an event makes the server deny. -/
def denying : Option PeerId :=
  match s.completion i with
  | some (p, _, some (.request _ _ _)) =>
      if (s.peers p).state = .request ∧ s.maxClients ≤ (s.lists .connected).length ∧
          i.env.pushEntry = true then some p
      else none
  | some (p, datagram, none) =>
      if datagram.header.type = .request ∧ (s.peers p).state = .request ∧
          i.env.pushEntry = true then some p
      else none
  | _ => none

/-- The peer that an event makes the server connect. -/
def connecting : Option PeerId :=
  match s.completion i with
  | some (p, _, some (.response _ token)) =>
      if (s.peers p).state = .challenge ∧ (s.peers p).clientId = token.clientId ∧
          (s.peers p).userData = token.userData ∧ i.env.pushEntry = true then some p
      else none
  | _ => none

/-- The packets that an event makes peers send with numbers of their own: the
peer, the type and the number. -/
def ownNumbers : List (PeerId × PacketType × UInt64) :=
  match i.event with
  | .send p views =>
      let n := (s.peers p).sequenceNumber
      if s.sendable p views then
        if (s.peers p).flags.confirmed then [(p, .payload, n)]
        else [(p, .keepAlive, n), (p, .payload, n + 1)]
      else []
  | .keepAliveTick =>
      ((s.lists .connected).filter fun x =>
        decide (i.env.hrtime - (s.peers x.peer).lastRecvTime ≤ (s.peers x.peer).timeoutNs)).map
          fun x => (x.peer, .keepAlive, (s.peers x.peer).sequenceNumber)
  | .disconnectTick =>
      ((s.lists .disconnecting).filter fun x =>
        decide (0 < (s.peers x.peer).remainRedundantDisconnect)).map
          fun x => (x.peer, .disconnect, (s.peers x.peer).sequenceNumber)
  | _ => ((s.connecting i).map fun p => (p, .keepAlive, (s.peers p).sequenceNumber)).toList

theorem completion_eq_some {s : Server} {i : Input} {p : PeerId} {datagram : Datagram}
    {packet : Option Packet} (h : s.completion i = some (p, datagram, packet)) :
    ∃ id workerFailed receiver, i.event = .receiverComplete id workerFailed ∧
      s.receivers id = some receiver ∧ s.state = .running ∧ receiver.canceled = false ∧
      receiver.peer = some p ∧ receiver.datagram = datagram ∧
      packet = if workerFailed then none else processEntry receiver.cryptoCtx datagram := by
  unfold completion at h
  cases hevent : i.event with
  | receiverComplete id workerFailed =>
      simp only [hevent, Option.bind_eq_some_iff] at h
      obtain ⟨receiver, hreceiver, h⟩ := h
      split at h
      · rename_i hready
        obtain ⟨q, hq, hout⟩ := Option.map_eq_some_iff.mp h
        simp only [Prod.mk.injEq] at hout
        obtain ⟨rfl, rfl, rfl⟩ := hout
        exact ⟨id, workerFailed, receiver, rfl, hreceiver, hready.1, hready.2, hq, rfl, rfl⟩
      · exact absurd h (by simp)
  | _ => simp [hevent] at h

end Turns

/-- Writing fields of a peer that no property of the server reads. -/
structure Soft (f : Peer → Peer) (peer : Peer) : Prop where
  state : (f peer).state = peer.state
  entry : (f peer).entry = peer.entry
  address : (f peer).address = peer.address
  clientId : (f peer).clientId = peer.clientId
  userData : (f peer).userData = peer.userData
  sequenceNumber : (f peer).sequenceNumber = peer.sequenceNumber
  cryptoCtx : (f peer).cryptoCtx = peer.cryptoCtx
  replayProtector : (f peer).replayProtector = peer.replayProtector
  timeoutNs : (f peer).timeoutNs = peer.timeoutNs
  createdTimeNs : (f peer).createdTimeNs = peer.createdTimeNs

/-- The names an effect mentions. -/
def effectNames : Effect → List ℕ
  | .validated id p _ => [id, p]
  | .granted p _ _ => [p]
  | .emitted emission => [emission.peer]
  | .connected p => [p]
  | .disconnected p => [p]
  | .received id p _ => [id, p]

/-- Nothing done so far mentions the name of the running step. -/
def FreshLog (s : Server) : Prop := ∀ effect ∈ s.log, s.tick ∉ effectNames effect

/-- The datagram of an event is meant for a peer: it came from the address of the
peer, a response finds the peer challenged, and a request names the protocol of the
server. -/
def Addressed (s : Server) (i : Input) (p : PeerId) (datagram : Datagram) : Prop :=
  (∃ a, i.event = .accept a datagram ∧ (s.peers p).address = some a) ∧
  (datagram.header.type = .response → (s.peers p).state = .challenge) ∧
  ∀ sequence body, datagram = .request sequence body → body.protocolId = s.protocolId

/-- What holds when an act is made, in a step from `s₀` on input `i`. -/
def Enabled (s₀ : Server) (i : Input) (s : Server) : Act → Prop
  | .pass p datagram =>
      s.log = s₀.log ∧ FreshLog s ∧ s.receivers = s₀.receivers ∧
      (∃ a, i.event = .accept a datagram ∧ (datagram.header.type.isProtected = true →
        s₀.peerAddressMap a = some p ∧ (s₀.peers p).state = .connected)) ∧
      if datagram.header.type.isProtected then
        (s.peers p).state = .connected ∧
          ((s.peers p).protectReplay datagram.header.sequence).2 = true
      else (s.peers p).state = .request ∨ (s.peers p).state = .challenge
  | .acquire a =>
      s = s₀ ∧ s.peerAddressMap a = none ∧ Unnamed s s.tick ∧ FreshLog s ∧ s.state = .running ∧
      ∃ datagram, i.event = .accept a datagram
  | .discard a => s = s₀ ∧ s.peerAddressMap a = none ∧ Unnamed s s.tick
  | .submit p datagram =>
      .validated s.tick p datagram ∈ s.log ∧ s.receivers s.tick = none ∧
      (∀ q other, .received s.tick q other ∉ s.log) ∧
      (datagram.header.type.isProtected = true → (s.peers p).state = .connected) ∧
      Addressed s i p datagram
  | .take id => ∃ workerFailed, i.event = .receiverComplete id workerFailed
  | .drop _ => True
  | .soft p f => Soft f (s.peers p)
  | .grant p token =>
      s₀.granting i = some (p, token) ∧ (s.peers p).state = .request ∧ s.lists = s₀.lists ∧
      s.log = s₀.log
  | .challenge p token =>
      s₀.granting i = some (p, token) ∧ (s.peers p).state = .challenge ∧
      s.log = s₀.log ++ [.granted p token i.env.now] ∧
      s.anonymousSequenceNumber = s₀.anonymousSequenceNumber ∧ s.state = .running
  | .deny p => (s.peers p).state = .request
  | .denied p =>
      s₀.denying i = some p ∧ (s.peers p).state = .denied ∧ s.cryptoCtx p = s₀.cryptoCtx p ∧
      s.log = s₀.log ∧ s.anonymousSequenceNumber = s₀.anonymousSequenceNumber ∧
      s.state = .running
  | .connect p =>
      s₀.connecting i = some p ∧ (s.peers p).state = .challenge ∧ s.lists = s₀.lists ∧
      s.log = s₀.log
  | .own p type body =>
      ((s.peers p).state = .connected ∨ (s.peers p).state = .disconnecting) ∧
      (p, type, (s.peers p).sequenceNumber) ∈ s₀.ownNumbers i ∧ s.cryptoCtx p = s₀.cryptoCtx p ∧
      (type = .keepAlive →
        (s.peers p).state = .connected ∧ body = .keepAlive (s.peers p).clientId)
  | .park p => (s.peers p).state = .connected
  | .release p name => (s.peers p).state = name.state
  | .note (.received id p datagram) =>
      (∃ data, s₀.completion i = some (p, datagram, some (.payload data))) ∧
      (∃ workerFailed, i.event = .receiverComplete id workerFailed) ∧
      s.receivers id = none ∧ s.log = s₀.log ∧ id ≤ s.tick ∧ p ≤ s.tick
  | .note (.connected p) => p ≤ s.tick
  | .note (.disconnected p) => p ≤ s.tick
  | .note _ => False
  | .stopping => s.state = .running
  | .stopped => True

section Table

variable {s₀ s : Server} {i : Input}

theorem sameTable_soft {p : PeerId} {f : Peer → Peer} (h : Soft f (s.peers p)) :
    SameTable s (s.modifyPeer p f) :=
  sameTable_modifyPeer s p f h.state h.entry h.address

theorem Table.act (h : Table s) {a : Act} (ha : Enabled s₀ i s a) :
    Table (act i.env s a) := by
  cases a with
  | pass p datagram =>
      refine h.of_same (SameTable.trans ?_ (sameTable_note _ _))
      split
      · exact sameTable_modifyPeer s p _ rfl rfl rfl
      · exact .refl s
  | acquire a =>
      obtain ⟨-, hmap, hnew, -, -⟩ := ha
      have hacquired := h.acquirePeer i.env hmap hnew
      simp only [Server.act]
      exact hacquired.of_same (sameTable_modifyPeer _ _ _ rfl rfl rfl)
  | discard a => exact h.discardPeer i.env ha.2.1 ha.2.2
  | submit p datagram =>
      simp only [Server.act, submitReceiver]
      exact h.of_same ((sameTable_setReceiver s _ _).trans (sameTable_modifyPeer _ _ _ rfl rfl rfl))
  | take id => exact h.of_same (sameTable_setReceiver s _ _)
  | drop id => exact h.of_same (sameTable_setSender s _ _)
  | soft p f => exact h.of_same (sameTable_soft ha)
  | grant p token =>
      have hsame := sameTable_modifyPeer s p (fun peer => peer.adoptToken token i.env.hrtime)
        rfl rfl rfl
      have hstate :
          ((s.modifyPeer p fun peer => peer.adoptToken token i.env.hrtime).peers p).state =
          PeerListName.requesting.state := (hsame.state p).trans ha.2.1
      have htable := h.of_same hsame
      simp only [Server.act]
      exact (htable.pushBack hstate (htable.unlisted_unlink hstate) .challenging).of_same
        (sameTable_note _ _)
  | challenge p token => exact h.of_same (sameTable_sendChallenge _ _ _ _)
  | deny p =>
      have hstate : (s.peers p).state = PeerListName.requesting.state := ha
      exact h.pushBack hstate (h.unlisted_unlink hstate) .denied
  | denied p => exact h.of_same (sameTable_sendDenied _ _ _)
  | connect p =>
      have hstate : (s.peers p).state = PeerListName.challenging.state := ha.2.1
      simp only [Server.act]
      exact (h.pushBack hstate (h.unlisted_unlink hstate) .connected).of_same
        (sameTable_modifyPeer _ _ _ rfl rfl rfl)
  | own p type body => exact h.of_same (sameTable_sendOwn _ _ _ _ _)
  | park p =>
      have hstate : (s.peers p).state = PeerListName.connected.state := ha
      simp only [Server.act]
      exact (h.pushBack hstate (h.unlisted_unlink hstate) .disconnecting).of_same
        (sameTable_modifyPeer _ _ _ rfl rfl rfl)
  | release p name => exact h.releasePeer ha (h.unlisted_unlink ha)
  | note effect => exact h.of_same (sameTable_note _ _)
  | stopping => exact h.of_same (sameTable_of_eq rfl rfl rfl rfl)
  | stopped => exact h.stopDeferred

end Table

/-- The state `t` comes from `s` by acts of the step from `s₀` on input `i`. -/
def Acts (s₀ : Server) (i : Input) (s t : Server) : Prop :=
  ∃ acts, t = run (act i.env) s acts ∧ Along (act i.env) (Enabled s₀ i) s acts

section Acts

variable {s₀ s t u : Server} {i : Input}

theorem Acts.refl (s : Server) : Acts s₀ i s s := ⟨[], rfl, trivial⟩

theorem Acts.trans (h : Acts s₀ i s t) (h' : Acts s₀ i t u) : Acts s₀ i s u := by
  obtain ⟨acts, rfl, hacts⟩ := h
  obtain ⟨acts', rfl, hacts'⟩ := h'
  refine ⟨acts ++ acts', (run_append _ _ _ _).symm, ?_⟩
  rw [along_append]
  exact ⟨hacts, hacts'⟩

theorem Acts.single {a : Act} (h : Enabled s₀ i s a) : Acts s₀ i s (act i.env s a) :=
  ⟨[a], rfl, h, trivial⟩

theorem Acts.invariant {I : Server → Prop}
    (hact : ∀ s a, I s → Enabled s₀ i s a → I (act i.env s a))
    (h : Acts s₀ i s t) (hs : I s) : I t := by
  obtain ⟨acts, rfl, hacts⟩ := h
  exact invariant_run hact hs hacts

theorem Acts.table (h : Acts s₀ i s t) (hs : Table s) : Table t :=
  h.invariant (fun _ _ hs ha => hs.act ha) hs

end Acts

end Server

end Protocol

end PomeloUdp
