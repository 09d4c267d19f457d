import PomeloUdp.Protocol.Client
import PomeloUdp.Protocol.ServerStep

/-!
# Recorded times

A peer records when it was created and when its last packet came in, and a receiver when its
datagram came in. A receiver completes at some later time, in any order with others, and the peer
then takes over the time of the receiver. `Clocked` says that no recorded time lies ahead of the
clock, and every callback of a server or a client keeps it.
-/

namespace PomeloUdp

namespace Protocol

open Crypto

namespace Server

/-- No time recorded by the server lies ahead of `now`. -/
structure Clocked (now : UInt64) (s : Server) : Prop where
  last : ∀ p, (s.peers p).lastRecvTime ≤ now
  created : ∀ p, (s.peers p).createdTimeNs ≤ now
  recv : ∀ id r, s.receivers id = some r → r.recvTime ≤ now

section Frames

variable {now : UInt64} {s : Server}

theorem clocked_start (o : ServerOptions) (now : UInt64) : Clocked now (start o) where
  last _ := UInt64.le_iff_toNat_le.mpr (Nat.zero_le _)
  created _ := UInt64.le_iff_toNat_le.mpr (Nat.zero_le _)
  recv _ _ h := nomatch h

theorem Clocked.mono (h : Clocked now s) {later : UInt64} (hle : now ≤ later) :
    Clocked later s where
  last p := UInt64.le_trans (h.last p) hle
  created p := UInt64.le_trans (h.created p) hle
  recv id r hr := UInt64.le_trans (h.recv id r hr) hle

theorem Clocked.congr (h : Clocked now s) {t : Server} (hpeers : t.peers = s.peers)
    (hreceivers : t.receivers = s.receivers) : Clocked now t := by
  refine ⟨fun p => ?_, fun p => ?_, fun id r hr => ?_⟩
  · rw [hpeers]
    exact h.last p
  · rw [hpeers]
    exact h.created p
  · rw [hreceivers] at hr
    exact h.recv id r hr

theorem Clocked.modifyPeer (h : Clocked now s) {p : PeerId} {f : Peer → Peer}
    (hlast : (f (s.peers p)).lastRecvTime ≤ now) (hcreated : (f (s.peers p)).createdTimeNs ≤ now) :
    Clocked now (s.modifyPeer p f) := by
  refine ⟨fun q => ?_, fun q => ?_, h.recv⟩
  · rw [modifyPeer_peers]
    split
    · exact hlast
    · exact h.last q
  · rw [modifyPeer_peers]
    split
    · exact hcreated
    · exact h.created q

theorem Clocked.note (h : Clocked now s) (effect : Effect) : Clocked now (s.note effect) :=
  ⟨h.last, h.created, h.recv⟩

theorem Clocked.setSender (h : Clocked now s) (id : SenderId) (sender : Option Sender) :
    Clocked now (s.setSender id sender) :=
  ⟨h.last, h.created, h.recv⟩

theorem Clocked.removeEntry (h : Clocked now s) (name : PeerListName) (entry : PeerEntry) :
    Clocked now (s.removeEntry name entry) :=
  ⟨h.last, h.created, h.recv⟩

theorem Clocked.takeAnonymous (h : Clocked now s) : Clocked now s.takeAnonymous :=
  ⟨h.last, h.created, h.recv⟩

theorem Clocked.takeChallenge (h : Clocked now s) : Clocked now s.takeChallenge :=
  ⟨h.last, h.created, h.recv⟩

theorem Clocked.setReceiver (h : Clocked now s) (id : ReceiverId) {receiver : Option Receiver}
    (hrecv : ∀ r, receiver = some r → r.recvTime ≤ now) :
    Clocked now (s.setReceiver id receiver) := by
  refine ⟨h.last, h.created, fun id' r hr => ?_⟩
  by_cases hid : id' = id
  · subst hid
    rw [Server.setReceiver] at hr
    simp only [Function.update_self] at hr
    exact hrecv r hr
  · simp only [Server.setReceiver, Function.update_of_ne hid] at hr
    exact h.recv id' r hr

theorem Clocked.unlink (h : Clocked now s) (name : PeerListName) (p : PeerId) :
    Clocked now (s.unlink name p) := by
  obtain ⟨lists, hunlink⟩ := exists_unlink s name p
  rw [hunlink]
  exact ⟨h.last, h.created, h.recv⟩

theorem Clocked.pushBack (h : Clocked now s) (name : PeerListName) (p : PeerId) :
    Clocked now (s.pushBack name p) := by
  refine ⟨fun q => ?_, fun q => ?_, h.recv⟩
  · rw [pushBack_peers]
    split
    · exact h.last p
    · exact h.last q
  · rw [pushBack_peers]
    split
    · exact h.created p
    · exact h.created q

theorem Clocked.cancelSendersAndReceivers (h : Clocked now s) (p : PeerId) :
    Clocked now (s.cancelSendersAndReceivers p) := by
  refine ⟨fun q => ?_, fun q => ?_, fun id r hr => ?_⟩
  · by_cases hq : q = p
    · subst hq
      simpa [Server.cancelSendersAndReceivers] using h.last q
    · simpa [Server.cancelSendersAndReceivers, hq] using h.last q
  · by_cases hq : q = p
    · subst hq
      simpa [Server.cancelSendersAndReceivers] using h.created q
    · simpa [Server.cancelSendersAndReceivers, hq] using h.created q
  · simp only [Server.cancelSendersAndReceivers] at hr
    split at hr
    · obtain ⟨r', hr', rfl⟩ := Option.map_eq_some_iff.mp hr
      exact h.recv id r' hr'
    · exact h.recv id r hr

theorem Clocked.cleanup (h : Clocked now s) (p : PeerId) :
    Clocked now (s.modifyPeer p Peer.cleanup) :=
  h.modifyPeer (UInt64.le_iff_toNat_le.mpr (Nat.zero_le _))
    (UInt64.le_iff_toNat_le.mpr (Nat.zero_le _))

theorem Clocked.releasePeer (h : Clocked now s) (p : PeerId) : Clocked now (s.releasePeer p) := by
  have hcancel := h.cancelSendersAndReceivers p
  unfold Server.releasePeer
  dsimp only
  split
  · exact hcancel.cleanup p
  · refine Clocked.cleanup ?_ p
    exact hcancel.congr rfl rfl

theorem Clocked.acquirePeer (h : Clocked now s) {env : Env} (henv : env.hrtime ≤ now)
    (address : Address) : Clocked now (s.acquirePeer env address) := by
  refine ⟨fun q => ?_, fun q => ?_, h.recv⟩
  · by_cases hq : q = s.tick
    · subst hq
      simp only [Server.acquirePeer, Function.update_self]
      exact UInt64.le_iff_toNat_le.mpr (Nat.zero_le _)
    · simpa [Server.acquirePeer, hq] using h.last q
  · by_cases hq : q = s.tick
    · subst hq
      simp only [Server.acquirePeer, Function.update_self]
      exact henv
    · simpa [Server.acquirePeer, hq] using h.created q

end Frames

section Outgoing

variable {now : UInt64} {s : Server} {env : Env} {p : PeerId}

theorem Clocked.dispatch (h : Clocked now s) (source : SequenceSource) (header : Header)
    (body : PacketBody) : Clocked now (dispatch env s p source header body) := by
  unfold Server.dispatch
  split
  · exact ((h.setSender _ _).modifyPeer (h.last p) (h.created p)).note _
  · exact h

theorem Clocked.sendChallenge (h : Clocked now s) (token : PrivateToken) :
    Clocked now (sendChallenge env s p token) := by
  unfold Server.sendChallenge
  dsimp only
  split
  · exact h.takeAnonymous.takeChallenge.dispatch _ _ _
  · exact h.takeAnonymous.takeChallenge

theorem Clocked.sendDenied (h : Clocked now s) : Clocked now (sendDenied env s p).1 := by
  unfold Server.sendDenied
  dsimp only
  split
  · exact h.takeAnonymous.dispatch _ _ _
  · exact h.takeAnonymous

theorem Clocked.sendOwn (h : Clocked now s) (type : PacketType) (body : PacketBody) :
    Clocked now (sendOwn env s p type body) := by
  have hnext : Clocked now (s.modifyPeer p fun peer => peer.nextSequence.1) :=
    h.modifyPeer (h.last p) (h.created p)
  unfold Server.sendOwn
  dsimp only
  split
  · exact hnext.dispatch _ _ _
  · exact hnext

theorem Clocked.socketSend (h : Clocked now s) (views : List (List UInt8)) :
    Clocked now (socketSend env s p views) := by
  unfold Server.socketSend presendPacket
  split
  · split
    · exact h.sendOwn _ _
    · exact (h.sendOwn _ _).sendOwn _ _
  · exact h

end Outgoing

section Incoming

variable {now : UInt64} {s : Server} {env : Env} {p : PeerId}

theorem Clocked.denyPeer (h : Clocked now s) : Clocked now (denyPeer env s p) := by
  have hdeny : ∀ name, Clocked now
      (if env.pushEntry then
        if (Server.sendDenied env ((s.unlink name p).pushBack .denied p) p).2 then
          (Server.sendDenied env ((s.unlink name p).pushBack .denied p) p).1
        else (((Server.sendDenied env ((s.unlink name p).pushBack .denied p) p).1.unlink .denied
          p).releasePeer p)
      else (s.unlink name p).releasePeer p) := by
    intro name
    split
    · split
      · exact ((h.unlink name p).pushBack _ _).sendDenied
      · exact (((h.unlink name p).pushBack _ _).sendDenied.unlink _ _).releasePeer p
    · exact (h.unlink name p).releasePeer p
  unfold Server.denyPeer
  dsimp only
  split
  · exact hdeny .requesting
  · exact hdeny .challenging
  · exact h

theorem Clocked.recvRequest (h : Clocked now s) (henv : env.hrtime ≤ now) (token : ConnectToken) :
    Clocked now (recvRequest env s p token) := by
  unfold Server.recvRequest
  split
  · exact h
  · split
    · exact h.denyPeer
    · dsimp only
      have hadopt : Clocked now (s.modifyPeer p fun peer => peer.adoptToken token env.hrtime) :=
        h.modifyPeer henv (h.created p)
      split
      · exact (((hadopt.unlink _ _).pushBack _ _).note _).sendChallenge _
      · exact (hadopt.unlink _ _).releasePeer p

theorem Clocked.recvResponse (h : Clocked now s) (token : ChallengeToken) :
    Clocked now (recvResponse env s p token) := by
  unfold Server.recvResponse
  split
  · exact h
  · split
    · exact h
    · split
      · exact h
      · dsimp only
        split
        · have hpush := (h.unlink .challenging p).pushBack .connected p
          exact ((hpush.modifyPeer (hpush.last p) (hpush.created p)).sendOwn _ _).note _
        · exact (h.unlink _ _).releasePeer p

theorem Clocked.recvDisconnect (h : Clocked now s) : Clocked now (recvDisconnect s p) := by
  unfold Server.recvDisconnect
  split
  · exact h
  · exact (((h.modifyPeer (h.last p) (h.created p)).note _).unlink _ _).releasePeer p

theorem Clocked.recvKeepAlive (h : Clocked now s) (clientId : Int64) :
    Clocked now (recvKeepAlive s p clientId) := by
  unfold Server.recvKeepAlive
  split
  · exact h
  · split
    · exact h
    · split
      · exact h
      · exact h.modifyPeer (h.last p) (h.created p)

theorem Clocked.recvPacket (h : Clocked now s) (henv : env.hrtime ≤ now) (id : ReceiverId)
    (datagram : Datagram) (packet : Packet) :
    Clocked now (recvPacket env s p id datagram packet) := by
  cases packet with
  | payload data => exact h.note _
  | request protocolId expireTimestamp token => exact h.recvRequest henv _
  | response sequence token => exact h.recvResponse token
  | disconnect => exact h.recvDisconnect
  | keepAlive clientId => exact h.recvKeepAlive clientId
  | _ => exact h

theorem Clocked.recvFailed (h : Clocked now s) (type : PacketType) :
    Clocked now (recvFailed env s p type) := by
  cases type with
  | request =>
      simp only [Server.recvFailed, recvRequestFailed]
      split
      · exact h
      · exact h.denyPeer
  | _ => exact h

theorem Clocked.handleReceiverComplete (h : Clocked now s) (henv : env.hrtime ≤ now)
    (id : ReceiverId) {receiver : Receiver} (hrecv : receiver.recvTime ≤ now)
    (packet : Option Packet) :
    Clocked now (handleReceiverComplete env s p id receiver packet) := by
  unfold Server.handleReceiverComplete
  split
  · exact h
  · dsimp only
    have hflags : Clocked now
        (if receiver.datagram.header.type = .response then
          s.modifyPeer p fun peer =>
            { peer with flags := { peer.flags with processingResponse := false } }
        else s) := by
      split
      · exact h.modifyPeer (h.last p) (h.created p)
      · exact h
    revert hflags
    generalize (if receiver.datagram.header.type = .response then
      s.modifyPeer p fun peer =>
        { peer with flags := { peer.flags with processingResponse := false } }
      else s) = t
    intro hflags
    cases packet with
    | none => exact hflags.recvFailed _
    | some packet =>
        dsimp only
        split
        · exact Clocked.recvPacket (hflags.modifyPeer hrecv (hflags.created p)) henv _ _ _
        · exact hflags.recvFailed _

theorem Clocked.receiverComplete (h : Clocked now s) (henv : env.hrtime ≤ now) (id : ReceiverId)
    (workerFailed : Bool) : Clocked now (receiverComplete env s id workerFailed) := by
  unfold Server.receiverComplete
  cases hreceiver : s.receivers id with
  | none => exact h
  | some receiver =>
      dsimp only
      have htaken : Clocked now (s.setReceiver id none) := 
        h.setReceiver id fun r hr => absurd hr.symm (Option.some_ne_none r)
      split
      · exact htaken
      · split
        · exact htaken
        next p hp =>
          refine Clocked.handleReceiverComplete ?_ henv id (h.recv id receiver hreceiver) _
          refine Clocked.modifyPeer htaken ?_ ?_
          · exact htaken.last p
          · exact htaken.created p

theorem Clocked.senderComplete (h : Clocked now s) (id : SenderId) (failed : Bool) :
    Clocked now (senderComplete s id failed) := by
  unfold Server.senderComplete
  cases s.senders id with
  | none => exact h
  | some sender =>
      dsimp only
      have htaken := h.setSender id none
      split
      · exact htaken
      · split
        · exact htaken
        next p hp =>
          have herase : Clocked now ((s.setSender id none).modifyPeer p fun peer =>
              { peer with senders := peer.senders.erase id }) :=
            htaken.modifyPeer (htaken.last p) (htaken.created p)
          split
          · exact herase
          · split
            · exact herase
            · split
              · unfold sentDenied
                split
                · exact herase
                · exact (herase.unlink _ _).releasePeer p
              · exact herase

theorem Clocked.validatePacketOf (h : Clocked now s) (address : Address) (header : Header) :
    Clocked now (validatePacketOf s address header).1 := by
  unfold Server.validatePacketOf
  cases s.peerAddressMap address with
  | none => exact h
  | some p =>
      have hprotect : Clocked now
          (s.modifyPeer p fun _ => ((s.peers p).protectReplay header.sequence).1) :=
        h.modifyPeer (h.last p) (h.created p)
      dsimp only
      split
      · split
        · exact h
        · split
          · exact h
          · exact h
      iterate 3
        split
        · exact h
        · exact hprotect
      · exact h

theorem Clocked.validateRequest (h : Clocked now s) (henv : env.hrtime ≤ now) (address : Address)
    (body : RequestBody) : Clocked now (validateRequest env s address body).1 := by
  unfold Server.validateRequest
  split
  · exact h
  · split
    · exact h
    · split
      · have hacquired := h.acquirePeer henv address
        dsimp only
        split
        · have hpush := hacquired.pushBack .requesting s.tick
          dsimp only
          refine Clocked.modifyPeer hpush ?_ ?_
          · exact hpush.last s.tick
          · exact hpush.created s.tick
        · exact hacquired.releasePeer _
      · exact h

theorem Clocked.submitReceiver (h : Clocked now s) (henv : env.hrtime ≤ now)
    (datagram : Datagram) : Clocked now (submitReceiver env s p datagram) := by
  have hset : Clocked now (s.setReceiver s.tick
      (some ⟨some p, s.cryptoCtx p, datagram, env.hrtime, false⟩)) := by
    refine h.setReceiver _ fun r hr => ?_
    rw [← Option.some.inj hr]
    exact henv
  unfold Server.submitReceiver
  dsimp only
  refine Clocked.modifyPeer hset ?_ ?_
  · exact hset.last p
  · exact hset.created p

theorem Clocked.accept (h : Clocked now s) (henv : env.hrtime ≤ now) (address : Address)
    (datagram : Datagram) : Clocked now (accept env s address datagram) := by
  have hvalidate : Clocked now (validateIncoming env s address datagram).1 := by
    unfold validateIncoming
    split
    · exact h
    · split
      · exact h
      · cases datagram with
        | request sequence body => exact h.validateRequest henv address body
        | packet header body => exact h.validatePacketOf address header
  unfold Server.accept
  split
  next t heq =>
    rw [heq] at hvalidate
    exact hvalidate
  next t p heq =>
    rw [heq] at hvalidate
    dsimp only
    split
    · exact (hvalidate.note _).submitReceiver henv datagram
    · exact hvalidate.note _

end Incoming

section Tasks

variable {now : UInt64} {s : Server} {env : Env}

theorem Clocked.foldl {body : Server → PeerEntry → Server}
    (hbody : ∀ t x, Clocked now t → Clocked now (body t x)) (entries : List PeerEntry)
    (h : Clocked now s) : Clocked now (entries.foldl body s) := by
  induction entries generalizing s with
  | nil => exact h
  | cons x entries ih => exact ih (hbody s x h)

theorem Clocked.disconnectPeer (h : Clocked now s) (p : PeerId) :
    Clocked now (disconnectPeer env s p) := by
  unfold Server.disconnectPeer
  split
  · exact h
  · have hunlink := h.unlink .connected p
    dsimp only
    split
    · have hpush := hunlink.pushBack .disconnecting p
      exact (hpush.modifyPeer (hpush.last p) (hpush.created p)).note _
    · exact ((hunlink.modifyPeer (hunlink.last p) (hunlink.created p)).note _).releasePeer p

theorem Clocked.keepAliveEntry (h : Clocked now s) (entry : PeerEntry) :
    Clocked now (keepAliveEntry env s entry) := by
  unfold Server.keepAliveEntry
  dsimp only
  split
  · exact h.sendOwn _ _
  · exact (((h.modifyPeer (h.last _) (h.created _)).note _).removeEntry _ _).releasePeer _

theorem Clocked.disconnectEntry (h : Clocked now s) (entry : PeerEntry) :
    Clocked now (disconnectEntry env s entry) := by
  unfold Server.disconnectEntry
  dsimp only
  split
  · exact Clocked.sendOwn (h.modifyPeer (h.last _) (h.created _)) _ _
  · exact (Clocked.removeEntry (h.modifyPeer (h.last _) (h.created _)) _ _).releasePeer _

theorem Clocked.scanEntry (h : Clocked now s) (entry : PeerEntry) :
    Clocked now (scanEntry env s entry) := by
  unfold Server.scanEntry
  dsimp only
  split
  · exact (h.removeEntry _ _).releasePeer _
  · exact h

theorem Clocked.releaseList (h : Clocked now s) (name : PeerListName) :
    Clocked now (s.releaseList name) := by
  have hloop : Clocked now ((s.lists name).foldl (fun s entry =>
      (s.cancelSendersAndReceivers entry.peer).modifyPeer entry.peer Peer.cleanup) s) :=
    h.foldl (fun _ x ht => (ht.cancelSendersAndReceivers x.peer).cleanup x.peer) _
  exact ⟨hloop.last, hloop.created, hloop.recv⟩

theorem Clocked.stopDeferred (h : Clocked now s) : Clocked now s.stopDeferred := by
  have hlists : ∀ (names : List PeerListName) (t : Server), Clocked now t →
      Clocked now (names.foldl Server.releaseList t) := by
    intro names
    induction names with
    | nil => exact fun t ht => ht
    | cons name names ih => exact fun t ht => ih _ (ht.releaseList name)
  have hreleased := hlists [.requesting, .challenging, .denied, .connected, .disconnecting]
    { s with
      state := .stopped
      anonymousSequenceNumber := 0
      challengeSequenceNumber := 0
      privateKey := 0
      challengeKey := 0 } ⟨h.last, h.created, h.recv⟩
  exact ⟨hreleased.last, hreleased.created, hreleased.recv⟩

theorem Clocked.step (h : Clocked now s) {i : Input} (hle : now ≤ i.env.hrtime) :
    Clocked i.env.hrtime (step s i) := by
  have hs : Clocked i.env.hrtime { s with tick := s.tick + 1 } :=
    ⟨(h.mono hle).last, (h.mono hle).created, (h.mono hle).recv⟩
  have henv : i.env.hrtime ≤ i.env.hrtime := UInt64.le_refl _
  unfold Server.step handle
  cases i.event with
  | accept address datagram => exact hs.accept henv address datagram
  | receiverComplete id workerFailed => exact hs.receiverComplete henv id workerFailed
  | senderComplete id failed => exact hs.senderComplete id failed
  | send p views => exact hs.socketSend views
  | disconnectPeer p => exact hs.disconnectPeer p
  | keepAliveTick => exact hs.foldl (fun _ x ht => ht.keepAliveEntry x) _
  | disconnectTick => exact hs.foldl (fun _ x ht => ht.disconnectEntry x) _
  | scanTick => exact hs.foldl (fun _ x ht => ht.scanEntry x) _
  | stop =>
      dsimp only
      unfold socketStop
      split
      · exact hs
      · exact ⟨hs.last, hs.created, hs.recv⟩
  | stopDeferred =>
      dsimp only
      split
      · exact hs.stopDeferred
      · exact hs
  | idle => exact hs

end Tasks

end Server

namespace Client

/-- No time recorded by the client lies ahead of `now`, and its peer has the timeout of the
token. -/
structure Clocked (now : UInt64) (token : ClientToken) (c : Client) : Prop where
  connectToken : c.connectToken = token
  peer : ∀ peer, c.peer = some peer →
    peer.lastRecvTime ≤ now ∧ peer.timeoutNs = secondsToNs token.timeout
  recv : ∀ id r, c.receivers id = some r → r.recvTime ≤ now

section Frames

variable {now : UInt64} {token : ClientToken} {c : Client} {env : ClientEnv}

theorem clocked_start (token : ClientToken) (address : Address) (payloadCapacity : ℕ)
    (hrtime leftover : UInt64) :
    Clocked hrtime token (start token address payloadCapacity hrtime leftover) where
  connectToken := rfl
  peer peer hpeer := by
    rw [← Option.some.inj hpeer]
    exact ⟨UInt64.le_iff_toNat_le.mpr (Nat.zero_le _), rfl⟩
  recv _ _ h := absurd h.symm (Option.some_ne_none _)

theorem Clocked.mono (h : Clocked now token c) {later : UInt64} (hle : now ≤ later) :
    Clocked later token c where
  connectToken := h.connectToken
  peer peer hpeer := ⟨UInt64.le_trans (h.peer peer hpeer).1 hle, (h.peer peer hpeer).2⟩
  recv id r hr := UInt64.le_trans (h.recv id r hr) hle

theorem Clocked.congr (h : Clocked now token c) {c' : Client}
    (htoken : c'.connectToken = c.connectToken) (hpeer : c'.peer = c.peer)
    (hreceivers : c'.receivers = c.receivers) : Clocked now token c' where
  connectToken := htoken.trans h.connectToken
  peer peer hsome := h.peer peer (hpeer ▸ hsome)
  recv id r hr := h.recv id r (hreceivers ▸ hr)

theorem Clocked.modifyPeer (h : Clocked now token c) {f : Peer → Peer}
    (hlast : ∀ peer, c.peer = some peer → (f peer).lastRecvTime ≤ now)
    (htimeout : ∀ peer, (f peer).timeoutNs = peer.timeoutNs) :
    Clocked now token (c.modifyPeer f) where
  connectToken := h.connectToken
  peer peer hpeer := by
    obtain ⟨peer', hpeer', rfl⟩ := Option.map_eq_some_iff.mp hpeer
    exact ⟨hlast peer' hpeer', (htimeout peer').trans (h.peer peer' hpeer').2⟩
  recv := h.recv

theorem Clocked.writePeer (h : Clocked now token c) {f : Peer → Peer}
    (hlast : ∀ peer, (f peer).lastRecvTime = peer.lastRecvTime)
    (htimeout : ∀ peer, (f peer).timeoutNs = peer.timeoutNs) :
    Clocked now token (c.modifyPeer f) :=
  h.modifyPeer (fun peer hpeer => (hlast peer).symm ▸ (h.peer peer hpeer).1) htimeout

theorem Clocked.modifyEmitter (h : Clocked now token c) (name : EmitterName)
    (f : Emitter → Emitter) : Clocked now token (c.modifyEmitter name f) :=
  h.congr rfl rfl rfl

theorem Clocked.note (h : Clocked now token c) (effect : ClientEffect) :
    Clocked now token (c.note effect) :=
  h.congr rfl rfl rfl

theorem Clocked.setSender (h : Clocked now token c) (id : SenderId) (sender : Option Sender) :
    Clocked now token (c.setSender id sender) :=
  h.congr rfl rfl rfl

theorem Clocked.fault (h : Clocked now token c) : Clocked now token c.fault := h.congr rfl rfl rfl

theorem Clocked.socketStop (h : Clocked now token c) : Clocked now token c.socketStop := by
  unfold Client.socketStop
  split
  · exact h
  · exact h.congr rfl rfl rfl

theorem Clocked.emitterStop (h : Clocked now token c) (name : EmitterName) :
    Clocked now token (c.emitterStop name) :=
  h.modifyEmitter name _

theorem Clocked.emitterStart (h : Clocked now token c) (name : EmitterName) :
    Clocked now token (emitterStart env c name).1 := by
  unfold Client.emitterStart
  split
  · exact h
  · split
    · exact h.congr rfl rfl rfl
    · exact h

theorem Clocked.setReceiver (h : Clocked now token c) (id : ReceiverId)
    {receiver : Option Receiver} (hrecv : ∀ r, receiver = some r → r.recvTime ≤ now) :
    Clocked now token (c.setReceiver id receiver) := by
  refine ⟨h.connectToken, h.peer, fun id' r hr => ?_⟩
  by_cases hid : id' = id
  · subst hid
    simp only [Client.setReceiver, Function.update_self] at hr
    exact hrecv r hr
  · simp only [Client.setReceiver, Function.update_of_ne hid] at hr
    exact h.recv id' r hr

theorem Clocked.releasePeer (h : Clocked now token c) (peer : Peer) :
    Clocked now token (c.releasePeer peer) := by
  refine ⟨h.connectToken, fun _ hnone => absurd hnone.symm (Option.some_ne_none _), ?_⟩
  intro id r hr
  simp only [Client.releasePeer] at hr
  split at hr
  · obtain ⟨r', hr', rfl⟩ := Option.map_eq_some_iff.mp hr
    exact h.recv id r' hr'
  · exact h.recv id r hr

theorem Clocked.stop (h : Clocked now token c) : Clocked now token c.stop := by
  unfold Client.stop
  split
  · exact h
  · exact ((((h.emitterStop _).emitterStop _).emitterStop _).emitterStop _).releasePeer _

theorem Clocked.retryAddress (h : Clocked now token c) : Clocked now token c.retryAddress :=
  h.stop.fault

end Frames

section Handlers

variable {now : UInt64} {token : ClientToken} {c : Client} {env : ClientEnv}

theorem Clocked.dispatch (h : Clocked now token c) (datagram : Datagram) :
    Clocked now token (dispatch env c datagram) := by
  unfold Client.dispatch
  split
  · refine Clocked.note ?_ _
    refine (h.setSender _ _).writePeer ?_ ?_
    · exact fun _ => rfl
    · exact fun _ => rfl
  · exact h

theorem Clocked.nextSequence (h : Clocked now token c) :
    Clocked now token (c.modifyPeer fun peer => peer.nextSequence.1) :=
  h.writePeer (fun _ => rfl) fun _ => rfl

theorem Clocked.sendOwn (h : Clocked now token c) (peer : Peer) (type : PacketType)
    (body : PacketBody) : Clocked now token (sendOwn env c peer type body) := by
  unfold Client.sendOwn
  dsimp only
  split
  · exact h.nextSequence.dispatch _
  · exact h.nextSequence.socketStop

theorem Clocked.sendRequest (h : Clocked now token c) : Clocked now token (sendRequest env c) := by
  unfold Client.sendRequest
  split
  · split
    · exact h.fault
    · exact h.dispatch _
  · exact h.socketStop

theorem Clocked.sendKeepAlive (h : Clocked now token c) :
    Clocked now token (sendKeepAlive env c) := by
  unfold Client.sendKeepAlive
  split
  · exact h.fault
  · split
    · refine Clocked.socketStop (Clocked.note ?_ _)
      refine (h.emitterStop .keepAlive).writePeer ?_ ?_
      · exact fun _ => rfl
      · exact fun _ => rfl
    · exact h.sendOwn _ _ _

theorem Clocked.trigger (h : Clocked now token c) (name : EmitterName) :
    Clocked now token (trigger env c name) := by
  cases name with
  | request => exact h.sendRequest
  | response =>
      unfold Client.trigger sendResponse
      dsimp only
      split
      · exact h.fault
      · exact h.sendOwn _ _ _
  | keepAlive => exact h.sendKeepAlive
  | disconnect =>
      unfold Client.trigger sendDisconnect
      dsimp only
      split
      · exact h.fault
      · exact h.sendOwn _ _ _

theorem Clocked.onTriggered (h : Clocked now token c) (name : EmitterName) :
    Clocked now token (onTriggered env c name) := by
  have hcounted : Clocked now token ((Client.trigger env c name).modifyEmitter name fun e =>
      { e with triggerCounter := e.triggerCounter + 1 }) :=
    (h.trigger name).modifyEmitter name _
  unfold Client.onTriggered
  dsimp only
  split
  · exact ((hcounted.emitterStop name).emitterStop .disconnect).socketStop
  · exact hcounted

theorem Clocked.socketSend (h : Clocked now token c) (views : List (List UInt8)) :
    Clocked now token (socketSend env c views) := by
  unfold Client.socketSend
  split
  · exact h
  · split
    · dsimp only
      split
      · exact h.nextSequence.dispatch _
      · exact h.nextSequence
    · exact h

theorem validate_times (peer : Peer) (address : Address) (header : Header) :
    (validate peer address header).1.lastRecvTime = peer.lastRecvTime ∧
      (validate peer address header).1.timeoutNs = peer.timeoutNs := by
  unfold validate
  split
  · exact ⟨rfl, rfl⟩
  · split
    · exact ⟨rfl, rfl⟩
    · exact ⟨rfl, rfl⟩
    · split
      · exact ⟨rfl, rfl⟩
      · exact ⟨rfl, rfl⟩
    · split
      · exact ⟨rfl, rfl⟩
      · exact ⟨rfl, rfl⟩
    · split
      · exact ⟨rfl, rfl⟩
      · exact ⟨rfl, rfl⟩
    · exact ⟨rfl, rfl⟩
    · exact ⟨rfl, rfl⟩

theorem Clocked.accept (h : Clocked now token c) (henv : env.hrtime ≤ now) (address : Address)
    (datagram : Datagram) : Clocked now token (accept env c address datagram) := by
  unfold Client.accept
  split
  · exact h
  · split
    · exact h
    · split
      · exact h.fault
      next peer hpeer =>
        obtain ⟨hlast, htimeout⟩ := h.peer peer hpeer
        obtain ⟨hlast', htimeout'⟩ := validate_times peer address datagram.header
        have hwritten : Clocked now token
            { c with peer := some (validate peer address datagram.header).1 } := by
          refine ⟨h.connectToken, fun peer' hpeer' => ?_, h.recv⟩
          rw [← Option.some.inj hpeer', hlast', htimeout']
          exact ⟨hlast, htimeout⟩
        dsimp only
        split
        · split
          · unfold submitReceiver
            dsimp only
            refine Clocked.writePeer (hwritten.setReceiver _ fun r hr => ?_) ?_ ?_
            · rw [← Option.some.inj hr]
              exact henv
            · exact fun _ => rfl
            · exact fun _ => rfl
          · exact hwritten
        · exact hwritten

theorem Clocked.tryNextAddress (h : Clocked now token c) (result : ConnectResult) :
    Clocked now token (match c.nextAddress with
      | (c, none) => (c.note (.connectResult result)).socketStop
      | (c, some _) => c.retryAddress) := by
  have hnext : Clocked now token c.nextAddress.1 := h.congr rfl rfl rfl
  split
  next c' heq =>
    rw [heq] at hnext
    exact (hnext.note _).socketStop
  next c' address heq =>
    rw [heq] at hnext
    exact hnext.retryAddress

theorem Clocked.recvDenied (h : Clocked now token c) : Clocked now token (recvDenied c) := by
  refine Clocked.tryNextAddress (h.writePeer ?_ ?_) .denied
  · exact fun _ => rfl
  · exact fun _ => rfl

theorem Clocked.recvChallenge (h : Clocked now token c) (peer : Peer) (sequence : UInt64)
    (challenge : SealedChallenge) :
    Clocked now token (recvChallenge env c peer sequence challenge) := by
  unfold Client.recvChallenge
  split
  · exact h
  · have hresponse : Clocked now token
        (c.modifyPeer fun peer => { peer with state := .response }) := by
      refine h.writePeer ?_ ?_
      · exact fun _ => rfl
      · exact fun _ => rfl
    have hstored : Clocked now token
        { (c.modifyPeer fun peer => { peer with state := .response }).emitterStop .request with
          challengeTokenSequence := sequence
          challengeTokenData := challenge } := by
      refine (hresponse.emitterStop .request).congr ?_ ?_ ?_
      · rfl
      · rfl
      · rfl
    dsimp only
    split
    · exact hstored.emitterStart .response
    · exact (hstored.emitterStart .response).socketStop

theorem Clocked.recvDisconnect (h : Clocked now token c) (peer : Peer) :
    Clocked now token (recvDisconnect c peer) := by
  unfold Client.recvDisconnect
  split
  · exact h
  · refine Clocked.socketStop (Clocked.note (h.writePeer ?_ ?_) _)
    · exact fun _ => rfl
    · exact fun _ => rfl

theorem Clocked.recvKeepAlive (h : Clocked now token c) (peer : Peer) (clientId : Int64) :
    Clocked now token (recvKeepAlive env c peer clientId) := by
  unfold Client.recvKeepAlive
  split
  · exact h
  · have hconnected : Clocked now token (c.modifyPeer fun peer =>
        { peer with state := .connected, clientId := clientId }) := by
      refine h.writePeer ?_ ?_
      · exact fun _ => rfl
      · exact fun _ => rfl
    have hstarted := @Clocked.emitterStart _ _ _ env (hconnected.emitterStop .response) .keepAlive
    dsimp only
    split
    · exact (hstarted.note _).note _
    · exact hstarted.socketStop

theorem Clocked.recvPacket (h : Clocked now token c) (peer : Peer) (id : ReceiverId)
    (datagram : Datagram) (packet : Packet) :
    Clocked now token (recvPacket env c peer id datagram packet) := by
  cases packet with
  | payload data => exact h.note _
  | denied => exact h.recvDenied
  | challenge sequence challenge => exact h.recvChallenge peer sequence challenge
  | disconnect => exact h.recvDisconnect peer
  | keepAlive clientId => exact h.recvKeepAlive peer clientId
  | _ => exact h

theorem Clocked.receiverComplete (h : Clocked now token c) (id : ReceiverId)
    (workerFailed : Bool) : Clocked now token (receiverComplete env c id workerFailed) := by
  unfold Client.receiverComplete
  cases hreceiver : c.receivers id with
  | none => exact h
  | some receiver =>
      dsimp only
      have htaken : Clocked now token (c.setReceiver id none) :=
        h.setReceiver id fun r hr => absurd hr.symm (Option.some_ne_none r)
      split
      · exact htaken
      · have herase : Clocked now token ((c.setReceiver id none).modifyPeer fun peer =>
            { peer with receivers := peer.receivers.erase id }) := by
          refine htaken.writePeer ?_ ?_
          · exact fun _ => rfl
          · exact fun _ => rfl
        revert herase
        generalize ((c.setReceiver id none).modifyPeer fun peer =>
          { peer with receivers := peer.receivers.erase id }) = c'
        intro herase
        unfold handleReceiverComplete
        split
        · exact herase
        · split
          · split
            · refine Clocked.recvPacket (herase.modifyPeer ?_ ?_) _ _ _ _
              · exact fun _ _ => h.recv id receiver hreceiver
              · exact fun _ => rfl
            · exact herase
          · exact herase

theorem Clocked.senderComplete (h : Clocked now token c) (id : SenderId) :
    Clocked now token (senderComplete c id) := by
  unfold Client.senderComplete
  cases c.senders id with
  | none => exact h
  | some sender =>
      dsimp only
      split
      · exact h.setSender id none
      · refine (h.setSender id none).writePeer ?_ ?_
        · exact fun _ => rfl
        · exact fun _ => rfl

theorem Clocked.handleRequestTimeout (h : Clocked now token c) :
    Clocked now token (handleRequestTimeout c) := by
  have hstopped := h.emitterStop .request
  unfold Client.handleRequestTimeout
  dsimp only
  split
  · exact hstopped.fault
  · refine Clocked.tryNextAddress (hstopped.writePeer ?_ ?_) .timedOut
    · exact fun _ => rfl
    · exact fun _ => rfl

theorem Clocked.disconnectPeer (h : Clocked now token c) :
    Clocked now token (disconnectPeer env c) := by
  unfold Client.disconnectPeer
  split
  · exact h
  · split
    · exact h
    · have hleaving : Clocked now token (((c.emitterStop .keepAlive).modifyPeer fun peer =>
          { peer with state := .disconnecting }).note .disconnected) := by
        refine Clocked.note ((h.emitterStop .keepAlive).writePeer ?_ ?_) _
        · exact fun _ => rfl
        · exact fun _ => rfl
      have hstarted := @Clocked.emitterStart _ _ _ env hleaving .disconnect
      dsimp only
      split
      · exact hstarted
      · exact hstarted.socketStop

theorem Clocked.stopDeferred (h : Clocked now token c) : Clocked now token c.stopDeferred := by
  have hstopped : Clocked now token { c with state := .stopped } := h.congr rfl rfl rfl
  unfold Client.stopDeferred
  refine Clocked.stop (hstopped.writePeer ?_ ?_)
  · exact fun _ => rfl
  · exact fun _ => rfl

theorem Clocked.step (h : Clocked now token c) {i : ClientInput} (hle : now ≤ i.env.hrtime) :
    Clocked i.env.hrtime token (step c i) := by
  have hc : Clocked i.env.hrtime token { c with tick := c.tick + 1 } :=
    (h.mono hle).congr rfl rfl rfl
  unfold Client.step
  split
  · exact h.mono hle
  · unfold handle
    cases i.event with
    | accept address datagram => exact hc.accept (UInt64.le_refl _) address datagram
    | receiverComplete id workerFailed => exact hc.receiverComplete id workerFailed
    | senderComplete id => exact hc.senderComplete id
    | send views => exact hc.socketSend views
    | disconnectPeer => exact hc.disconnectPeer
    | triggerTimer name =>
        dsimp only
        split
        · exact hc.modifyEmitter name _
        · exact hc
    | triggered name =>
        dsimp only
        split
        · exact (hc.modifyEmitter name _).onTriggered name
        · exact hc
    | timeoutTimer =>
        dsimp only
        split
        · exact hc.modifyEmitter .request _
        · exact hc
    | timedOut =>
        dsimp only
        split
        · exact (hc.modifyEmitter .request _).handleRequestTimeout
        · exact hc
    | stop => exact hc.socketStop
    | stopDeferred =>
        dsimp only
        split
        · exact hc.stopDeferred
        · exact hc

end Handlers

end Client

end Protocol

end PomeloUdp
