import Mathlib.Data.List.Nodup
import PomeloUdp.Protocol.Genuine
import PomeloUdp.Protocol.PeerTable

/-!
# Stopping a server

A server that stops releases the peers of its lists. The worker may still have packets of these
peers, which come back when the peers are gone, so the release of a peer has to find everything
that is in flight for it: what is in flight was cancelled, or stands in the list of its peer, and a
peer for which something is in flight stands in a list of the server (`Held`). The handlers work on
one peer at a time, which may be outside the lists until they release it.
-/

namespace PomeloUdp

namespace Protocol

open Machine

namespace Server

/-- The peer is in the state of a list. -/
def Standing (peer : Peer) : Prop := ∃ name : PeerListName, peer.state = name.state

/-- The server is in the given state. What is in flight was cancelled or is listed by its peer, and
the peers outside the lists have nothing in flight, but the one a handler works on. -/
structure Held (except : Option PeerId) (state : SocketState) (s : Server) : Prop where
  state : s.state = state
  receivers : ∀ id r, s.receivers id = some r → r.canceled = false →
    ∃ p, r.peer = some p ∧ id ∈ (s.peers p).receivers
  senders : ∀ id x, s.senders id = some x → x.canceled = false →
    ∃ p, x.peer = some p ∧ id ∈ (s.peers p).senders
  resting : ∀ p, except ≠ some p → ¬ Standing (s.peers p) →
    (s.peers p).receivers = [] ∧ (s.peers p).senders = []

theorem held_start (o : ServerOptions) : Held none .running (start o) where
  state := rfl
  receivers := by simp [start]
  senders := by simp [start]
  resting := fun _ _ _ => ⟨rfl, rfl⟩

namespace Held

variable {e : Option PeerId} {st : SocketState} {s t : Server} {p : PeerId} {env : Env}

theorem of_same (h : Held e st s) {e' : Option PeerId} (hsocket : t.state = s.state)
    (hreceivers : t.receivers = s.receivers) (hsenders : t.senders = s.senders)
    (hlists : ∀ q, (t.peers q).receivers = (s.peers q).receivers ∧
      (t.peers q).senders = (s.peers q).senders)
    (hstate : ∀ q, e' = some q ∨ Standing (t.peers q) ∨
      e ≠ some q ∧ (t.peers q).state = (s.peers q).state) : Held e' st t where
  state := hsocket.trans h.state
  receivers id r hr hcanceled := by
    rw [hreceivers] at hr
    obtain ⟨q, hq, hmem⟩ := h.receivers id r hr hcanceled
    exact ⟨q, hq, by rwa [(hlists q).1]⟩
  senders id x hx hcanceled := by
    rw [hsenders] at hx
    obtain ⟨q, hq, hmem⟩ := h.senders id x hx hcanceled
    exact ⟨q, hq, by rwa [(hlists q).2]⟩
  resting q hq hrest := by
    rcases hstate q with hopen | hstanding | ⟨hclosed, hsame⟩
    · exact absurd hopen hq
    · exact absurd hstanding hrest
    · rw [(hlists q).1, (hlists q).2]
      refine h.resting q hclosed ?_
      rintro ⟨name, hname⟩
      exact hrest ⟨name, hsame.trans hname⟩

theorem of_peers (h : Held none st s) (hsocket : t.state = s.state)
    (hreceivers : t.receivers = s.receivers) (hsenders : t.senders = s.senders)
    (hpeers : t.peers = s.peers) : Held none st t :=
  h.of_same hsocket hreceivers hsenders (fun q => by rw [hpeers]; exact ⟨rfl, rfl⟩)
    fun q => .inr (.inr ⟨by simp, by rw [hpeers]⟩)

theorem unlink (h : Held e st s) (name : PeerListName) (p : PeerId) :
    Held e st (s.unlink name p) := by
  obtain ⟨_, hunlink⟩ := exists_unlink s name p
  rw [hunlink]
  exact ⟨h.state, h.receivers, h.senders, h.resting⟩

theorem note (h : Held e st s) (effect : Effect) : Held e st (s.note effect) :=
  ⟨h.state, h.receivers, h.senders, h.resting⟩

theorem removeEntry (h : Held e st s) (name : PeerListName) (x : PeerEntry) :
    Held e st (s.removeEntry name x) := ⟨h.state, h.receivers, h.senders, h.resting⟩

theorem modifyPeer (h : Held none st s) {f : Peer → Peer}
    (hreceivers : (f (s.peers p)).receivers = (s.peers p).receivers)
    (hsenders : (f (s.peers p)).senders = (s.peers p).senders)
    (hstate : (f (s.peers p)).state = (s.peers p).state) : Held none st (s.modifyPeer p f) := by
  refine h.of_same rfl rfl rfl (fun q => ?_) fun q => .inr (.inr ⟨by simp, ?_⟩)
  · rw [modifyPeer_peers]
    split
    next heq => rw [heq]; exact ⟨hreceivers, hsenders⟩
    next => exact ⟨rfl, rfl⟩
  · rw [modifyPeer_peers]
    split
    next heq => rw [heq]; exact hstate
    next => rfl

theorem disconnected (h : Held none st s) (p : PeerId) :
    Held (some p) st (s.modifyPeer p fun peer => { peer with state := .disconnected }) := by
  refine h.of_same rfl rfl rfl (fun q => ?_) fun q => ?_
  · rw [modifyPeer_peers]
    split
    next heq => rw [heq]; exact ⟨rfl, rfl⟩
    next => exact ⟨rfl, rfl⟩
  · by_cases hq : q = p
    · exact .inl (congrArg some hq.symm)
    · exact .inr (.inr ⟨by simp, by rw [modifyPeer_peers, if_neg hq]⟩)

theorem pushBack (h : Held none st s) (name : PeerListName) (p : PeerId) :
    Held none st (s.pushBack name p) := by
  refine h.of_same rfl rfl rfl (fun q => ?_) fun q => ?_
  · rw [pushBack_peers]
    split
    next heq => rw [heq]; exact ⟨rfl, rfl⟩
    next => exact ⟨rfl, rfl⟩
  · by_cases hq : q = p
    · exact .inr (.inl ⟨name, by rw [pushBack_peers, if_pos hq]⟩)
    · exact .inr (.inr ⟨by simp, by rw [pushBack_peers, if_neg hq]⟩)

theorem standing_pushBack (s : Server) (name : PeerListName) (p : PeerId) :
    Standing ((s.pushBack name p).peers p) := ⟨name, by rw [pushBack_peers, if_pos rfl]⟩

theorem cancel_receivers (s : Server) (p : PeerId) (id : ReceiverId) :
    (s.cancelSendersAndReceivers p).receivers id =
      if id ∈ (s.peers p).receivers then
        (s.receivers id).map fun receiver => { receiver with peer := none, canceled := true }
      else s.receivers id := rfl

theorem cancel_senders (s : Server) (p : PeerId) (id : SenderId) :
    (s.cancelSendersAndReceivers p).senders id =
      if id ∈ (s.peers p).senders then
        (s.senders id).map fun sender => { sender with peer := none, canceled := true }
      else s.senders id := rfl

theorem cleaned (h : Held e st s) (he : e = none ∨ e = some p) (hsocket : t.state = s.state)
    (hreceivers : t.receivers = (s.cancelSendersAndReceivers p).receivers)
    (hsenders : t.senders = (s.cancelSendersAndReceivers p).senders)
    (hself : (t.peers p).receivers = [] ∧ (t.peers p).senders = [])
    (hother : ∀ q, q ≠ p → t.peers q = s.peers q) : Held none st t where
  state := hsocket.trans h.state
  receivers id r hr hcanceled := by
    rw [hreceivers, cancel_receivers] at hr
    split at hr
    · obtain ⟨r', -, rfl⟩ := Option.map_eq_some_iff.mp hr
      cases hcanceled
    next hnot =>
      obtain ⟨q, hq, hmem⟩ := h.receivers id r hr hcanceled
      refine ⟨q, hq, ?_⟩
      rwa [hother q fun heq => hnot (heq ▸ hmem)]
  senders id x hx hcanceled := by
    rw [hsenders, cancel_senders] at hx
    split at hx
    · obtain ⟨x', -, rfl⟩ := Option.map_eq_some_iff.mp hx
      cases hcanceled
    next hnot =>
      obtain ⟨q, hq, hmem⟩ := h.senders id x hx hcanceled
      refine ⟨q, hq, ?_⟩
      rwa [hother q fun heq => hnot (heq ▸ hmem)]
  resting q _ hrest := by
    by_cases hq : q = p
    · rw [hq]
      exact hself
    · rw [hother q hq] at hrest ⊢
      refine h.resting q ?_ hrest
      rcases he with rfl | rfl
      · simp
      · exact fun heq => hq (Option.some.inj heq).symm

theorem exists_cancel (s : Server) (p : PeerId) :
    ∃ peers map, s.releasePeer p =
      { s.cancelSendersAndReceivers p with peers := peers, peerAddressMap := map } := by
  unfold Server.releasePeer
  dsimp only
  split
  · exact ⟨_, _, rfl⟩
  · exact ⟨_, _, rfl⟩

theorem releasePeer (h : Held e st s) (he : e = none ∨ e = some p) :
    Held none st (s.releasePeer p) := by
  obtain ⟨_, _, hrelease⟩ := exists_cancel s p
  refine h.cleaned he (by rw [hrelease]; rfl) (by rw [hrelease]) (by rw [hrelease]) ?_
    fun q hq => releasePeer_peers_ne s hq
  rw [releasePeer_peers, if_pos rfl]
  exact ⟨rfl, rfl⟩

theorem release (h : Held none st s) (p : PeerId) : Held none st (s.releasePeer p) :=
  h.releasePeer (.inl rfl)

theorem cleanupEntry (h : Held none st s) (x : PeerEntry) : Held none st (s.cleanupEntry x) := by
  refine h.cleaned (.inl rfl) rfl rfl rfl ?_ fun q hq => ?_
  · exact ⟨by simp [Server.modifyPeer, Peer.cleanup], by simp [Server.modifyPeer, Peer.cleanup]⟩
  · simp [Server.modifyPeer, cancelSendersAndReceivers, Function.update_of_ne hq]

theorem acquirePeer (h : Held none st s) (env : Env) (a : Address)
    (hnew : ¬ Standing (s.peers s.tick)) : Held none st (s.acquirePeer env a) := by
  have hrest := h.resting s.tick (by simp) hnew
  have hself : ((s.acquirePeer env a).peers s.tick).receivers = [] ∧
      ((s.acquirePeer env a).peers s.tick).senders = [] := by
    simp [Server.acquirePeer, Peer.init, Peer.cleanup]
  have hother : ∀ q, q ≠ s.tick → (s.acquirePeer env a).peers q = s.peers q := fun q hq => by
    simp [Server.acquirePeer, Function.update_of_ne hq]
  refine ⟨h.state, fun id r hr hcanceled => ?_, fun id x hx hcanceled => ?_, fun q _ hrested => ?_⟩
  · obtain ⟨q, hq, hmem⟩ := h.receivers id r hr hcanceled
    refine ⟨q, hq, ?_⟩
    rwa [hother q fun heq => by simp [heq, hrest.1] at hmem]
  · obtain ⟨q, hq, hmem⟩ := h.senders id x hx hcanceled
    refine ⟨q, hq, ?_⟩
    rwa [hother q fun heq => by simp [heq, hrest.2] at hmem]
  · by_cases hq : q = s.tick
    · rw [hq]
      exact hself
    · rw [hother q hq] at hrested ⊢
      exact h.resting q (by simp) hrested

theorem mem_modifyPeer {α : Type*} (l : Peer → List α) {id : α} {q : PeerId} {f : Peer → Peer}
    (hmem : id ∈ l (s.peers q)) (hf : id ∈ l (s.peers p) → id ∈ l (f (s.peers p))) :
    id ∈ l ((s.modifyPeer p f).peers q) := by
  rw [modifyPeer_peers]
  split
  next heq => exact hf (heq ▸ hmem)
  next => exact hmem

theorem resting_modifyPeer (h : Held none st s) (hpeers : t.peers = s.peers) {f : Peer → Peer}
    (hf : ¬ Standing (f (s.peers p)) →
      (f (s.peers p)).receivers = [] ∧ (f (s.peers p)).senders = []) (q : PeerId)
    (hrested : ¬ Standing ((t.modifyPeer p f).peers q)) :
    ((t.modifyPeer p f).peers q).receivers = [] ∧ ((t.modifyPeer p f).peers q).senders = [] := by
  rw [modifyPeer_peers, hpeers] at hrested ⊢
  split at hrested
  next heq =>
    rw [if_pos heq]
    exact hf hrested
  next hne =>
    rw [if_neg hne]
    exact h.resting q (by simp) hrested

theorem dispatch (h : Held none st s) (hp : Standing (s.peers p)) (source : SequenceSource)
    (header : Header) (body : PacketBody) : Held none st (dispatch env s p source header body) := by
  unfold Server.dispatch
  split
  swap
  · exact h
  dsimp only
  refine Held.note ?_ _
  refine ⟨h.state, fun id r hr hcanceled => ?_, fun id x hx hcanceled => ?_,
    fun q _ => h.resting_modifyPeer (by rfl) (fun hrested => ?_) q⟩
  · obtain ⟨q, hq, hmem⟩ := h.receivers id r hr hcanceled
    exact ⟨q, hq, mem_modifyPeer Peer.receivers hmem fun hbefore => hbefore⟩
  · change Function.update s.senders _ _ id = some x at hx
    by_cases hid : id = ⟨s.tick, p, header.type⟩
    · rw [hid, Function.update_self] at hx
      obtain rfl := Option.some.inj hx
      exact ⟨p, rfl, by rw [modifyPeer_peers, if_pos rfl, hid]; simp⟩
    · rw [Function.update_of_ne hid] at hx
      obtain ⟨q, hq, hmem⟩ := h.senders id x hx hcanceled
      exact ⟨q, hq, mem_modifyPeer Peer.senders hmem (List.mem_append_left _)⟩
  · obtain ⟨name, hname⟩ := hp
    exact absurd ⟨name, hname⟩ hrested

theorem submitReceiver (h : Held none st s) (hp : Standing (s.peers p)) (datagram : Datagram) :
    Held none st (submitReceiver env s p datagram) := by
  unfold Server.submitReceiver
  dsimp only
  refine ⟨h.state, fun id r hr hcanceled => ?_, fun id x hx hcanceled => ?_,
    fun q _ => h.resting_modifyPeer (by rfl) (fun hrested => ?_) q⟩
  · change Function.update s.receivers _ _ id = some r at hr
    by_cases hid : id = s.tick
    · rw [hid, Function.update_self] at hr
      obtain rfl := Option.some.inj hr
      exact ⟨p, rfl, by rw [modifyPeer_peers, if_pos rfl, hid]; simp⟩
    · rw [Function.update_of_ne hid] at hr
      obtain ⟨q, hq, hmem⟩ := h.receivers id r hr hcanceled
      exact ⟨q, hq, mem_modifyPeer Peer.receivers hmem (List.mem_append_left _)⟩
  · obtain ⟨q, hq, hmem⟩ := h.senders id x hx hcanceled
    exact ⟨q, hq, mem_modifyPeer Peer.senders hmem fun hbefore => hbefore⟩
  · obtain ⟨name, hname⟩ := hp
    exact absurd ⟨name, hname⟩ hrested

theorem setReceiver (h : Held none st s) (id : ReceiverId) :
    Held none st (s.setReceiver id none) := by
  refine ⟨h.state, fun other r hr => ?_, h.senders, h.resting⟩
  change Function.update s.receivers id none other = some r at hr
  by_cases hother : other = id
  · rw [hother, Function.update_self] at hr
    cases hr
  · rw [Function.update_of_ne hother] at hr
    exact h.receivers other r hr

theorem eraseReceiver (h : Held none st s) {id : ReceiverId} (hid : s.receivers id = none) :
    Held none st
      (s.modifyPeer p fun peer => { peer with receivers := peer.receivers.erase id }) := by
  refine ⟨h.state, fun other r hr hcanceled => ?_, fun other x hx hcanceled => ?_,
    fun q _ => h.resting_modifyPeer (by rfl) (fun hrested => ?_) q⟩
  · obtain ⟨q, hq, hmem⟩ := h.receivers other r hr hcanceled
    refine ⟨q, hq, mem_modifyPeer Peer.receivers hmem fun hbefore => ?_⟩
    refine (List.mem_erase_of_ne ?_).mpr hbefore
    rintro rfl
    rw [show s.receivers other = some r from hr] at hid
    cases hid
  · obtain ⟨q, hq, hmem⟩ := h.senders other x hx hcanceled
    exact ⟨q, hq, mem_modifyPeer Peer.senders hmem fun hbefore => hbefore⟩
  · obtain ⟨hreceivers, hsenders⟩ := h.resting p (by simp) hrested
    exact ⟨by dsimp only; rw [hreceivers]; rfl, hsenders⟩

theorem setSender (h : Held none st s) (id : SenderId) : Held none st (s.setSender id none) := by
  refine ⟨h.state, h.receivers, fun other x hx => ?_, h.resting⟩
  change Function.update s.senders id none other = some x at hx
  by_cases hother : other = id
  · rw [hother, Function.update_self] at hx
    cases hx
  · rw [Function.update_of_ne hother] at hx
    exact h.senders other x hx

theorem eraseSender (h : Held none st s) {id : SenderId} (hid : s.senders id = none) :
    Held none st (s.modifyPeer p fun peer => { peer with senders := peer.senders.erase id }) := by
  refine ⟨h.state, fun other r hr hcanceled => ?_, fun other x hx hcanceled => ?_,
    fun q _ => h.resting_modifyPeer (by rfl) (fun hrested => ?_) q⟩
  · obtain ⟨q, hq, hmem⟩ := h.receivers other r hr hcanceled
    exact ⟨q, hq, mem_modifyPeer Peer.receivers hmem fun hbefore => hbefore⟩
  · obtain ⟨q, hq, hmem⟩ := h.senders other x hx hcanceled
    refine ⟨q, hq, mem_modifyPeer Peer.senders hmem fun hbefore => ?_⟩
    refine (List.mem_erase_of_ne ?_).mpr hbefore
    rintro rfl
    rw [show s.senders other = some x from hx] at hid
    cases hid
  · obtain ⟨hreceivers, hsenders⟩ := h.resting p (by simp) hrested
    exact ⟨hreceivers, by dsimp only; rw [hsenders]; rfl⟩

section Handlers

theorem sendOwn (h : Held none st s) (hp : Standing (s.peers p)) (type : PacketType)
    (body : PacketBody) : Held none st (sendOwn env s p type body) := by
  have hnext : Held none st (s.modifyPeer p fun peer => peer.nextSequence.1) :=
    h.modifyPeer rfl rfl rfl
  unfold Server.sendOwn
  dsimp only
  split
  · refine hnext.dispatch ?_ _ _ _
    rw [modifyPeer_peers, if_pos rfl]
    exact hp
  · exact hnext

theorem sendChallenge (h : Held none st s) (hp : Standing (s.peers p))
    (token : Crypto.PrivateToken) : Held none st (sendChallenge env s p token) := by
  have htake : Held none st s.takeAnonymous.takeChallenge := h.of_peers rfl rfl rfl rfl
  unfold Server.sendChallenge
  dsimp only
  split
  · exact htake.dispatch hp _ _ _
  · exact htake

theorem sendDenied (h : Held none st s) (hp : Standing (s.peers p)) :
    Held none st (sendDenied env s p).1 := by
  have htake : Held none st s.takeAnonymous := h.of_peers rfl rfl rfl rfl
  unfold Server.sendDenied
  dsimp only
  split
  · exact htake.dispatch hp _ _ _
  · exact htake

theorem socketSend (h : Held none st s) (views : List (List UInt8)) :
    Held none st (socketSend env s p views) := by
  unfold Server.socketSend
  split
  swap
  · exact h
  next hsendable =>
    have hp : Standing (s.peers p) := by
      simp only [sendable, Bool.and_eq_true, decide_eq_true_eq] at hsendable
      exact ⟨.connected, hsendable.1.1.1.1.2⟩
    unfold presendPacket
    split
    · exact h.sendOwn hp _ _
    · refine (h.sendOwn hp _ _).sendOwn ?_ _ _
      obtain ⟨senders, hpeer⟩ :=
        sendOwn_peers env s p p .keepAlive (.keepAlive (s.peers p).clientId)
      obtain ⟨name, hname⟩ := hp
      refine ⟨name, ?_⟩
      rw [hpeer, modifyPeer_peers, if_pos rfl]
      exact hname

theorem denyPeer (h : Held none st s) : Held none st (denyPeer env s p) := by
  have hdeny : ∀ name, Held none st
      (if env.pushEntry then
        (if (Server.sendDenied env ((s.unlink name p).pushBack .denied p) p).2 then
          (Server.sendDenied env ((s.unlink name p).pushBack .denied p) p).1
        else ((Server.sendDenied env ((s.unlink name p).pushBack .denied p) p).1.unlink
          .denied p).releasePeer p)
      else (s.unlink name p).releasePeer p) := by
    intro name
    have hsent : Held none st
        (Server.sendDenied env ((s.unlink name p).pushBack .denied p) p).1 :=
      ((h.unlink name p).pushBack .denied p).sendDenied (standing_pushBack _ _ _)
    split
    · split
      · exact hsent
      · exact (hsent.unlink .denied p).release p
    · exact (h.unlink name p).release p
  unfold Server.denyPeer
  dsimp only
  split
  · exact hdeny .requesting
  · exact hdeny .challenging
  · exact h

theorem recvRequest (h : Held none st s) (token : ConnectToken) :
    Held none st (recvRequest env s p token) := by
  unfold Server.recvRequest
  split
  · exact h
  split
  · exact h.denyPeer
  dsimp only
  have htoken : Held none st ((s.modifyPeer p fun peer => peer.adoptToken token env.hrtime).unlink
      .requesting p) := (h.modifyPeer rfl rfl rfl).unlink .requesting p
  split
  · exact ((htoken.pushBack .challenging p).note _).sendChallenge (standing_pushBack _ _ _) _
  · exact htoken.release p

theorem recvResponse (h : Held none st s) (token : Crypto.ChallengeToken) :
    Held none st (recvResponse env s p token) := by
  unfold Server.recvResponse
  split
  · exact h
  split
  · exact h
  split
  · exact h
  dsimp only
  split
  · refine Held.note (Held.sendOwn (Held.modifyPeer ((h.unlink .challenging p).pushBack
      .connected p) rfl rfl rfl) ?_ _ _) _
    rw [modifyPeer_peers, if_pos rfl]
    obtain ⟨name, hname⟩ := standing_pushBack (s.unlink .challenging p) .connected p
    exact ⟨name, hname⟩
  · exact (h.unlink .challenging p).release p

theorem lose (h : Held none st s) (p : PeerId) : Held none st
    (((s.modifyPeer p fun peer => { peer with state := .disconnected }).note
      (.disconnected p)).releasePeer p) :=
  ((h.disconnected p).note _).releasePeer (.inr rfl)

theorem recvDisconnect (h : Held none st s) : Held none st (recvDisconnect s p) := by
  unfold Server.recvDisconnect
  split
  · exact h
  · exact (((h.disconnected p).note _).unlink .connected p).releasePeer (.inr rfl)

theorem recvKeepAlive (h : Held none st s) (clientId : Int64) :
    Held none st (recvKeepAlive s p clientId) := by
  unfold Server.recvKeepAlive
  split
  · exact h
  split
  · exact h
  split
  · exact h
  · exact h.modifyPeer rfl rfl rfl

theorem recvPacket (h : Held none st s) (id : ReceiverId) (datagram : Datagram) (packet : Packet) :
    Held none st (recvPacket env s p id datagram packet) := by
  cases packet with
  | payload data => exact h.note _
  | request protocolId expireTimestamp token => exact h.recvRequest _
  | response sequence token => exact h.recvResponse _
  | disconnect => exact h.recvDisconnect
  | keepAlive clientId => exact h.recvKeepAlive clientId
  | denied => exact h
  | challenge sequence token => exact h

theorem recvFailed (h : Held none st s) (type : PacketType) :
    Held none st (recvFailed env s p type) := by
  cases type with
  | request =>
      unfold Server.recvFailed recvRequestFailed
      dsimp only
      split
      · exact h
      · exact h.denyPeer
  | _ => exact h

theorem receiverComplete (h : Held none st s) (id : ReceiverId) (workerFailed : Bool) :
    Held none st (receiverComplete env s id workerFailed) := by
  unfold Server.receiverComplete
  split
  · exact h
  next r hr =>
    have htaken := h.setReceiver id
    dsimp only
    split
    · exact htaken
    split
    · exact htaken
    next p hp =>
      have herased : Held none st ((s.setReceiver id none).modifyPeer p fun peer =>
          { peer with receivers := peer.receivers.erase id }) :=
        htaken.eraseReceiver (Function.update_self ..)
      unfold handleReceiverComplete
      split
      · exact herased
      dsimp only
      have hanswered : Held none st (if r.datagram.header.type = .response then
          ((s.setReceiver id none).modifyPeer p fun peer =>
            { peer with receivers := peer.receivers.erase id }).modifyPeer p fun peer =>
              { peer with flags := { peer.flags with processingResponse := false } }
          else (s.setReceiver id none).modifyPeer p fun peer =>
            { peer with receivers := peer.receivers.erase id }) := by
        split
        · exact herased.modifyPeer rfl rfl rfl
        · exact herased
      revert hanswered
      generalize (if r.datagram.header.type = .response then _ else _ : Server) = t
      intro hanswered
      split
      · exact hanswered.recvFailed _
      · split
        · exact Held.recvPacket (hanswered.modifyPeer rfl rfl rfl) _ _ _
        · exact hanswered.recvFailed _

theorem senderComplete (h : Held none st s) (id : SenderId) (failed : Bool) :
    Held none st (senderComplete s id failed) := by
  unfold Server.senderComplete
  split
  · exact h
  next x hx =>
    have htaken := h.setSender id
    dsimp only
    split
    · exact htaken
    split
    · exact htaken
    next p hp =>
      have herased : Held none st ((s.setSender id none).modifyPeer p fun peer =>
          { peer with senders := peer.senders.erase id }) :=
        htaken.eraseSender (Function.update_self ..)
      split
      · exact herased
      split
      · exact herased
      split
      · unfold sentDenied
        split
        · exact herased
        · exact (herased.unlink .denied p).release p
      · exact herased

/-- The peer that a datagram passed for is in a list. -/
def Passed (st : SocketState) (r : Server × Option PeerId) : Prop :=
  Held none st r.1 ∧ ∀ p, r.2 = some p → Standing (r.1.peers p)

theorem dropped (h : Held none st s) : Passed st (s, none) := ⟨h, by simp⟩

theorem validateRequest (h : Held none st s) (hnew : ¬ Standing (s.peers s.tick))
    (address : Address) (body : RequestBody) : Passed st (validateRequest env s address body) := by
  unfold Server.validateRequest
  split
  · exact h.dropped
  split
  · exact h.dropped
  split
  swap
  · exact h.dropped
  have hacquired := h.acquirePeer env address hnew
  dsimp only
  split
  · constructor
    · dsimp only
      exact (hacquired.pushBack .requesting s.tick).modifyPeer rfl rfl rfl
    · rintro p hp
      obtain rfl := Option.some.inj hp
      rw [modifyPeer_peers, if_pos rfl]
      obtain ⟨name, hname⟩ := standing_pushBack (s.acquirePeer env address) .requesting s.tick
      exact ⟨name, hname⟩
  · exact (hacquired.release _).dropped

theorem validatePacketOf (h : Held none st s) (address : Address) (header : Header) :
    Passed st (validatePacketOf s address header) := by
  unfold Server.validatePacketOf
  split
  · exact h.dropped
  next p hp =>
    have hprotected : Passed st (if (s.peers p).state ≠ .connected then (s, none)
        else (s.modifyPeer p fun _ => ((s.peers p).protectReplay header.sequence).1,
          if ((s.peers p).protectReplay header.sequence).2 then some p else none)) := by
      split
      · exact h.dropped
      next hstate =>
        constructor
        · dsimp only
          exact h.modifyPeer rfl rfl rfl
        · intro q hq
          dsimp only at hq ⊢
          split at hq
          · obtain rfl := Option.some.inj hq
            rw [modifyPeer_peers, if_pos rfl]
            exact ⟨.connected, not_not.mp hstate⟩
          · cases hq
    split
    · split
      · exact h.dropped
      next hstate =>
        split
        · exact h.dropped
        · refine ⟨h, fun q hq => ?_⟩
          obtain rfl := Option.some.inj hq
          exact ⟨.challenging, not_not.mp hstate⟩
    · exact hprotected
    · exact hprotected
    · exact hprotected
    · exact h.dropped

theorem accept (h : Held none st s) (hnew : ¬ Standing (s.peers s.tick)) (address : Address)
    (datagram : Datagram) : Held none st (accept env s address datagram) := by
  have hpassed : Passed st (validateIncoming env s address datagram) := by
    unfold validateIncoming
    split
    · exact h.dropped
    split
    · exact h.dropped
    cases datagram with
    | request sequence body => exact h.validateRequest hnew address body
    | packet header body => exact h.validatePacketOf address header
  unfold Server.accept
  split
  next heq =>
    rw [heq] at hpassed
    exact hpassed.1
  next heq =>
    rw [heq] at hpassed
    dsimp only
    split
    · exact (hpassed.1.note _).submitReceiver (hpassed.2 _ rfl) datagram
    · exact hpassed.1.note _

theorem disconnectPeer (h : Held none st s) : Held none st (disconnectPeer env s p) := by
  unfold Server.disconnectPeer
  split
  · exact h
  have hout := h.unlink .connected p
  dsimp only
  split
  · exact Held.note (Held.modifyPeer (hout.pushBack .disconnecting p) rfl rfl rfl) _
  · exact hout.lose p

theorem foldl {name : PeerListName} {body : Server → PeerEntry → Server}
    (hbody : ∀ t x, Held none st t → (t.peers x.peer).state = name.state →
      Held none st (body t x) ∧ ∀ q, q ≠ x.peer → (body t x).peers q = t.peers q)
    {entries : List PeerEntry} (h : Held none st s) (hnodup : (entries.map PeerEntry.peer).Nodup)
    (hstate : ∀ x ∈ entries, (s.peers x.peer).state = name.state) :
    Held none st (entries.foldl body s) := by
  induction entries generalizing s with
  | nil => exact h
  | cons x entries ih =>
      obtain ⟨hnotin, hrest⟩ := List.nodup_cons.mp hnodup
      obtain ⟨hnext, hframe⟩ := hbody s x h (hstate x List.mem_cons_self)
      refine ih hnext hrest fun y hy => ?_
      rw [hframe y.peer fun heq => hnotin (heq ▸ List.mem_map_of_mem hy)]
      exact hstate y (List.mem_cons_of_mem _ hy)

theorem loop {name : PeerListName} {body : Server → PeerEntry → Server}
    (hbody : ∀ t x, Held none st t → (t.peers x.peer).state = name.state →
      Held none st (body t x) ∧ ∀ q, q ≠ x.peer → (body t x).peers q = t.peers q)
    (h : Held none st s) (htable : Table s) : Held none st ((s.lists name).foldl body s) :=
  foldl hbody h ((htable.nodup name).map_on fun _ hx _ hy heq => htable.entry_unique hx hy heq)
    (htable.member_state name)

theorem broadcastKeepAlive (h : Held none st s) (htable : Table s) :
    Held none st (broadcastKeepAlive env s) := by
  refine loop (fun t x ht hstate => ?_) h htable
  unfold keepAliveEntry
  dsimp only
  split
  · exact ⟨ht.sendOwn ⟨.connected, hstate⟩ _ _, fun q hq => sendOwn_peers_ne env t _ _ hq⟩
  · refine ⟨((ht.disconnected x.peer).note _ |>.removeEntry _ _).releasePeer (.inr rfl),
      fun q hq => ?_⟩
    rw [releasePeer_peers_ne _ hq]
    exact Function.update_of_ne hq _ _

theorem broadcastDisconnect (h : Held none st s) (htable : Table s) :
    Held none st (broadcastDisconnect env s) := by
  refine loop (fun t x ht hstate => ?_) h htable
  unfold disconnectEntry
  dsimp only
  have hcounted : Held none st (t.modifyPeer x.peer fun peer =>
      { peer with remainRedundantDisconnect := (t.peers x.peer).remainRedundantDisconnect - 1 }) :=
    ht.modifyPeer rfl rfl rfl
  split
  · refine ⟨hcounted.sendOwn ⟨.disconnecting, ?_⟩ _ _, fun q hq => ?_⟩
    · rw [modifyPeer_peers, if_pos rfl]
      exact hstate
    · exact (sendOwn_peers_ne env _ _ _ hq).trans (Function.update_of_ne hq _ _)
  · exact ⟨(hcounted.removeEntry _ _).release _,
      fun q hq => (releasePeer_peers_ne _ hq).trans (Function.update_of_ne hq _ _)⟩

theorem scanChallengingPeers (h : Held none st s) (htable : Table s) :
    Held none st (scanChallengingPeers env s) := by
  refine loop (fun t x ht hstate => ?_) h htable
  unfold scanEntry
  dsimp only
  split
  · exact ⟨(ht.removeEntry _ _).release _, fun q hq => releasePeer_peers_ne _ hq⟩
  · exact ⟨ht, fun _ _ => rfl⟩

theorem stopDeferred (h : Held none st s) : Held none .stopped s.stopDeferred := by
  have hlist : ∀ (entries : List PeerEntry) t, Held none .stopped t →
      Held none .stopped (entries.foldl Server.cleanupEntry t) := by
    intro entries
    induction entries with
    | nil => exact fun t ht => ht
    | cons x entries ih => exact fun t ht => ih _ (ht.cleanupEntry x)
  have hlists : ∀ (names : List PeerListName) t, Held none .stopped t →
      Held none .stopped (names.foldl releaseList t) := by
    intro names
    induction names with
    | nil => exact fun t ht => ht
    | cons name names ih =>
        exact fun t ht => ih _ ((hlist (t.lists name) t ht).of_peers rfl rfl rfl rfl)
  have hbegin : Held none .stopped { s with
      state := .stopped
      anonymousSequenceNumber := 0
      challengeSequenceNumber := 0
      privateKey := 0
      challengeKey := 0 } := ⟨rfl, h.receivers, h.senders, h.resting⟩
  exact of_peers (hlists _ _ hbegin) rfl rfl rfl rfl

end Handlers

/-- A step keeps the state of the socket, or the socket begins to stop, or it stops. -/
def Settles (st : SocketState) (s t : Server) : Prop :=
  t.state = st ∨ t.state = .stopping ∨ st = .stopping ∧ t = s.ticked.stopDeferred

theorem settles (h : Held none st t) : Held none t.state t ∧ Settles st s t := by
  obtain rfl := h.state
  exact ⟨h, .inl rfl⟩

theorem step (h : Held none st s) (htable : Table s) (i : Input) :
    Held none (step s i).state (step s i) ∧ Settles st s (step s i) := by
  have hticked : Held none st s.ticked := ⟨h.state, h.receivers, h.senders, h.resting⟩
  have hnew : ¬ Standing (s.ticked.peers s.ticked.tick) := by
    rintro ⟨name, hname⟩
    exact Nat.not_succ_le_self _ (htable.peer_le name hname)
  unfold Server.step handle
  cases i.event with
  | accept address datagram => exact (hticked.accept hnew address datagram).settles
  | receiverComplete id workerFailed => exact (hticked.receiverComplete id workerFailed).settles
  | senderComplete id failed => exact (hticked.senderComplete id failed).settles
  | send p views => exact (hticked.socketSend views).settles
  | disconnectPeer p => exact hticked.disconnectPeer.settles
  | keepAliveTick => exact (hticked.broadcastKeepAlive htable.ticked).settles
  | disconnectTick => exact (hticked.broadcastDisconnect htable.ticked).settles
  | scanTick => exact (hticked.scanChallengingPeers htable.ticked).settles
  | stop =>
      dsimp only [socketStop]
      split
      · exact hticked.settles
      · exact ⟨⟨rfl, h.receivers, h.senders, h.resting⟩, .inr (.inl rfl)⟩
  | stopDeferred =>
      dsimp only
      split
      next hstopping =>
        have hstop := (hticked.stopDeferred).settles (s := s)
        exact ⟨hstop.1, .inr (.inr ⟨h.state.symm.trans hstopping, rfl⟩)⟩
      next => exact hticked.settles
  | idle => exact hticked.settles

end Held

/-- A packet of a timer, or the end of a peer. -/
def Parting : Effect → Prop
  | .emitted _ => True
  | .disconnected _ => True
  | _ => False

/-- The server stays in its state and adds partings to its record. -/
def Parts (s t : Server) : Prop :=
  t.state = s.state ∧ ∃ effects, t.log = s.log ++ effects ∧ ∀ effect ∈ effects, Parting effect

section Parts

variable {s t u : Server} {env : Env} {p : PeerId}

theorem Parts.of_log (hstate : t.state = s.state) (hlog : t.log = s.log) : Parts s t :=
  ⟨hstate, [], by rw [hlog, List.append_nil], by simp⟩

theorem Parts.trans (h : Parts s t) (h' : Parts t u) : Parts s u := by
  obtain ⟨hstate, effects, hlog, hparting⟩ := h
  obtain ⟨hstate', effects', hlog', hparting'⟩ := h'
  refine ⟨hstate'.trans hstate, effects ++ effects', ?_, fun effect heffect => ?_⟩
  · rw [hlog', hlog, List.append_assoc]
  · exact (List.mem_append.mp heffect).elim (hparting effect) (hparting' effect)

theorem parts_note (s : Server) (p : PeerId) : Parts s (s.note (.disconnected p)) :=
  ⟨rfl, [.disconnected p], rfl, by simp [Parting]⟩

theorem parts_unlink (s : Server) (name : PeerListName) (p : PeerId) :
    Parts s (s.unlink name p) := by
  obtain ⟨_, hunlink⟩ := exists_unlink s name p
  rw [hunlink]
  exact .of_log rfl rfl

theorem parts_releasePeer (s : Server) (p : PeerId) : Parts s (s.releasePeer p) := by
  obtain ⟨_, _, _, _, hrelease⟩ := exists_releasePeer s p
  rw [hrelease]
  exact .of_log rfl rfl

theorem parts_sendOwn (env : Env) (s : Server) (p : PeerId) (type : PacketType)
    (body : PacketBody) : Parts s (sendOwn env s p type body) := by
  unfold sendOwn
  dsimp only
  split
  · unfold dispatch
    split
    · exact ⟨rfl, [_], rfl, by simp [Parting]⟩
    · exact .of_log rfl rfl
  · exact .of_log rfl rfl

theorem parts_foldl {body : Server → PeerEntry → Server} (hbody : ∀ t x, Parts t (body t x))
    (entries : List PeerEntry) (s : Server) : Parts s (entries.foldl body s) := by
  induction entries generalizing s with
  | nil => exact .of_log rfl rfl
  | cons x entries ih => exact (hbody s x).trans (ih (body s x))

theorem parts_disconnectPeer (env : Env) (s : Server) (p : PeerId) :
    Parts s (disconnectPeer env s p) := by
  unfold disconnectPeer
  dsimp only
  split
  · exact .of_log rfl rfl
  · have hout := parts_unlink s .connected p
    split
    · exact (hout.trans (.of_log rfl rfl)).trans (parts_note _ p)
    · exact ((hout.trans (.of_log rfl rfl)).trans (parts_note _ p)).trans (parts_releasePeer _ p)

theorem parts_keepAliveEntry (env : Env) (s : Server) (x : PeerEntry) :
    Parts s (keepAliveEntry env s x) := by
  unfold keepAliveEntry
  dsimp only
  split
  · exact parts_sendOwn env s _ _ _
  · refine Parts.trans ?_ (parts_releasePeer _ _)
    exact ⟨rfl, [.disconnected x.peer], rfl, by simp [Parting]⟩

theorem parts_disconnectEntry (env : Env) (s : Server) (x : PeerEntry) :
    Parts s (disconnectEntry env s x) := by
  unfold disconnectEntry
  dsimp only
  split
  · exact Parts.trans (.of_log rfl rfl) (parts_sendOwn env _ _ _ _)
  · exact Parts.trans (.of_log rfl rfl) (parts_releasePeer _ _)

theorem parts_scanEntry (env : Env) (s : Server) (x : PeerEntry) :
    Parts s (scanEntry env s x) := by
  unfold scanEntry
  dsimp only
  split
  · exact Parts.trans (.of_log rfl rfl) (parts_releasePeer _ _)
  · exact .of_log rfl rfl

theorem receiverComplete_of_not_running (env : Env) (h : s.state ≠ .running) (id : ReceiverId)
    (workerFailed : Bool) :
    ∃ peers receivers, receiverComplete env s id workerFailed =
      { s with peers := peers, receivers := receivers } := by
  unfold receiverComplete
  split
  · exact ⟨_, _, rfl⟩
  dsimp only
  split
  · exact ⟨_, _, rfl⟩
  split
  · exact ⟨_, _, rfl⟩
  · unfold handleReceiverComplete
    split
    · exact ⟨_, _, rfl⟩
    next hrunning => exact absurd h hrunning

theorem senderComplete_of_not_running (h : s.state ≠ .running) (id : SenderId) (failed : Bool) :
    ∃ peers senders, senderComplete s id failed =
      { s with peers := peers, senders := senders } := by
  unfold senderComplete
  split
  · exact ⟨_, _, rfl⟩
  dsimp only
  split
  · exact ⟨_, _, rfl⟩
  split
  · exact ⟨_, _, rfl⟩
  · split
    · exact ⟨_, _, rfl⟩
    next hrunning => exact absurd h hrunning

theorem accept_of_not_running (h : s.state ≠ .running) (address : Address)
    (datagram : Datagram) : accept env s address datagram = s := by
  unfold accept validateIncoming
  rw [if_pos h]

theorem socketSend_of_not_running (h : s.state ≠ .running) (views : List (List UInt8)) :
    socketSend env s p views = s := by
  unfold socketSend
  rw [if_neg]
  simp [sendable, h]

theorem step_of_not_running (h : s.state ≠ .running) (i : Input) :
    (∃ peers receivers senders, step s i =
      { s.ticked with peers := peers, receivers := receivers, senders := senders }) ∨
    (∃ p, step s i = disconnectPeer i.env s.ticked p) ∨
    step s i = broadcastKeepAlive i.env s.ticked ∨
    step s i = broadcastDisconnect i.env s.ticked ∨
    step s i = scanChallengingPeers i.env s.ticked ∨
    s.state = .stopping ∧ step s i = s.ticked.stopDeferred := by
  have hticked : s.ticked.state ≠ .running := h
  unfold step handle
  cases i.event with
  | accept address datagram =>
      dsimp only
      rw [accept_of_not_running hticked]
      exact .inl ⟨_, _, _, rfl⟩
  | receiverComplete id workerFailed =>
      obtain ⟨_, _, hcomplete⟩ := receiverComplete_of_not_running i.env hticked id workerFailed
      dsimp only
      rw [hcomplete]
      exact .inl ⟨_, _, _, rfl⟩
  | senderComplete id failed =>
      obtain ⟨_, _, hcomplete⟩ := senderComplete_of_not_running hticked id failed
      dsimp only
      rw [hcomplete]
      exact .inl ⟨_, _, _, rfl⟩
  | send p views =>
      dsimp only
      rw [socketSend_of_not_running hticked]
      exact .inl ⟨_, _, _, rfl⟩
  | disconnectPeer p => exact .inr (.inl ⟨p, rfl⟩)
  | keepAliveTick => exact .inr (.inr (.inl rfl))
  | disconnectTick => exact .inr (.inr (.inr (.inl rfl)))
  | scanTick => exact .inr (.inr (.inr (.inr (.inl rfl))))
  | stop =>
      dsimp only [socketStop]
      rw [if_pos hticked]
      exact .inl ⟨_, _, _, rfl⟩
  | stopDeferred =>
      dsimp only
      split
      next hstopping => exact .inr (.inr (.inr (.inr (.inr ⟨hstopping, rfl⟩))))
      next => exact .inl ⟨_, _, _, rfl⟩
  | idle => exact .inl ⟨_, _, _, rfl⟩

theorem parts_step (h : s.state ≠ .running) (i : Input) :
    Parts s (step s i) ∨ s.state = .stopping ∧ step s i = s.ticked.stopDeferred := by
  have hticked : Parts s s.ticked := .of_log rfl rfl
  rcases step_of_not_running h i with
    ⟨_, _, _, hstep⟩ | ⟨p, hstep⟩ | hstep | hstep | hstep | hstop
  · rw [hstep]
    exact .inl (.of_log rfl rfl)
  · rw [hstep]
    exact .inl (hticked.trans (parts_disconnectPeer _ _ _))
  · rw [hstep]
    exact .inl (hticked.trans (parts_foldl (parts_keepAliveEntry _) _ _))
  · rw [hstep]
    exact .inl (hticked.trans (parts_foldl (parts_disconnectEntry _) _ _))
  · rw [hstep]
    exact .inl (hticked.trans (parts_foldl (parts_scanEntry _) _ _))
  · exact .inr hstop

end Parts

/-- What a stop leaves: no peers and no addresses, and the keys and the counters set to zero. -/
structure Cleared (s : Server) : Prop where
  state : s.state = .stopped
  lists : ∀ name, s.lists name = []
  addresses : ∀ a, s.peerAddressMap a = none
  keys : s.privateKey = 0 ∧ s.challengeKey = 0
  numbers : s.anonymousSequenceNumber = 0 ∧ s.challengeSequenceNumber = 0

theorem cleared_stopDeferred (s : Server) : Cleared s.stopDeferred := by
  have hlists := stopDeferred_lists s
  obtain ⟨_, _, _, _, hstop⟩ := exists_stopDeferred s
  rw [hstop] at hlists ⊢
  exact ⟨rfl, hlists, fun _ => rfl, ⟨rfl, rfl⟩, rfl, rfl⟩

theorem Cleared.step {s : Server} (h : Cleared s) (htable : Table s) (i : Input) :
    Cleared (step s i) ∧ (Server.step s i).log = s.log := by
  have hticked : Cleared s.ticked := ⟨h.state, h.lists, h.addresses, h.keys, h.numbers⟩
  rcases step_of_not_running (by rw [h.state]; simp) i with
    ⟨_, _, _, hstep⟩ | ⟨p, hstep⟩ | hstep | hstep | hstep | ⟨hstopping, -⟩
  · rw [hstep]
    exact ⟨⟨h.state, h.lists, h.addresses, h.keys, h.numbers⟩, rfl⟩
  · -- no peer is connected, as the lists are empty
    have hnot : (s.ticked.peers p).state ≠ .connected := fun hconnected => by
      obtain ⟨x, hx, -⟩ := htable.listed p .connected hconnected
      rw [h.lists] at hx
      cases hx
    rw [hstep, disconnectPeer, if_pos hnot]
    exact ⟨hticked, rfl⟩
  · rw [hstep, broadcastKeepAlive, hticked.lists]
    exact ⟨hticked, rfl⟩
  · rw [hstep, broadcastDisconnect, hticked.lists]
    exact ⟨hticked, rfl⟩
  · rw [hstep, scanChallengingPeers, hticked.lists]
    exact ⟨hticked, rfl⟩
  · rw [h.state] at hstopping
    cases hstopping

/-- What holds between the steps of a server that was started: what is in flight is where it
should be, and a server that has stopped is cleared. -/
structure Orderly (s : Server) : Prop where
  table : Table s
  named : Named s
  held : Held none s.state s
  cleared : s.state = .stopped → Cleared s

theorem orderly_start (o : ServerOptions) : Orderly (start o) where
  table := table_start o
  named := named_start o
  held := held_start o
  cleared := by simp [start]

namespace Orderly

variable {s : Server}

theorem step (h : Orderly s) (i : Input) : Orderly (step s i) := by
  obtain ⟨htable, hnamed⟩ := table_step h.table h.named i
  obtain ⟨hheld, hsettles⟩ := h.held.step h.table i
  refine ⟨htable, hnamed, hheld, fun hstopped => ?_⟩
  by_cases hbefore : s.state = .stopped
  · exact ((h.cleared hbefore).step h.table i).1
  rcases hsettles with hsame | hstopping | ⟨-, hstop⟩
  · exact absurd (hsame.symm.trans hstopped) hbefore
  · exact absurd (hstopping.symm.trans hstopped) (by simp)
  · rw [hstop]
    exact cleared_stopDeferred s.ticked

theorem run (h : Orderly s) (is : List Input) : Orderly (run Server.step s is) := by
  induction is generalizing s with
  | nil => exact h
  | cons i is ih => exact ih (h.step i)

theorem canceled (h : Orderly s) (hstopped : s.state = .stopped) :
    (∀ id r, s.receivers id = some r → r.canceled = true) ∧
      ∀ id x, s.senders id = some x → x.canceled = true := by
  have hempty := (h.cleared hstopped).lists
  have hrest : ∀ p, (s.peers p).receivers = [] ∧ (s.peers p).senders = [] := by
    intro p
    refine h.held.resting p (by simp) ?_
    rintro ⟨name, hname⟩
    obtain ⟨x, hx, -⟩ := h.table.listed p name hname
    rw [hempty] at hx
    cases hx
  constructor
  · intro id r hr
    by_contra hcanceled
    obtain ⟨p, -, hmem⟩ := h.held.receivers id r hr (by simpa using hcanceled)
    rw [(hrest p).1] at hmem
    cases hmem
  · intro id x hx
    by_contra hcanceled
    obtain ⟨p, -, hmem⟩ := h.held.senders id x hx (by simpa using hcanceled)
    rw [(hrest p).2] at hmem
    cases hmem

/-- From the call of the stop on, the server only sends packets of its timers and loses peers. -/
theorem parts_run (h : s.state ≠ .running) (is : List Input) :
    (Machine.run Server.step s is).state ≠ .running ∧
      ∃ effects, (Machine.run Server.step s is).log = s.log ++ effects ∧
        ∀ effect ∈ effects, Parting effect := by
  induction is generalizing s with
  | nil => exact ⟨h, [], by simp, by simp⟩
  | cons i is ih =>
      have hstep : (Server.step s i).state ≠ .running ∧
          ∃ effects, (Server.step s i).log = s.log ++ effects ∧
            ∀ effect ∈ effects, Parting effect := by
        rcases parts_step h i with ⟨hstate, hlog⟩ | ⟨-, hstop⟩
        · exact ⟨by rwa [hstate], hlog⟩
        · rw [hstop, (cleared_stopDeferred _).state, stopDeferred_log]
          exact ⟨by simp, [], by simp, by simp⟩
      obtain ⟨hstate, effects, hlog, hparting⟩ := hstep
      obtain ⟨hend, effects', hlog', hparting'⟩ := ih hstate
      refine ⟨hend, effects ++ effects', ?_, fun effect heffect => ?_⟩
      · rw [run_cons, hlog', hlog, List.append_assoc]
      · exact (List.mem_append.mp heffect).elim (hparting effect) (hparting' effect)

/-- A server that has stopped does nothing any more. -/
theorem rests_run (h : Orderly s) (hstopped : s.state = .stopped) (is : List Input) :
    (Machine.run Server.step s is).state = .stopped ∧
      (Machine.run Server.step s is).log = s.log := by
  induction is generalizing s with
  | nil => exact ⟨hstopped, rfl⟩
  | cons i is ih =>
      obtain ⟨hcleared, hlog⟩ := (h.cleared hstopped).step h.table i
      obtain ⟨hstate, hrest⟩ := ih (h.step i) hcleared.state
      exact ⟨hstate, hrest.trans hlog⟩

end Orderly

/-- A server that stops, in every run. From the call of the stop on no datagram passes, no peer is
granted or connected and no payload is received; there are only packets of the timers and peers that
are lost, until the deferred stop. After it the server does nothing at all, has no peers, addresses
and keys, and everything that the worker still has of its packets was cancelled. -/
theorem stopped_run (o : ServerOptions) (before after : List Input) :
    let s := run step (start o) before
    let t := run step s after
    (s.state ≠ .running → t.state ≠ .running ∧
      ∃ effects, t.log = s.log ++ effects ∧ ∀ effect ∈ effects, Parting effect) ∧
    (s.state = .stopped → Cleared t ∧ t.log = s.log ∧
      (∀ id r, t.receivers id = some r → r.canceled = true) ∧
      ∀ id x, t.senders id = some x → x.canceled = true) := by
  intro s t
  have hs : Orderly s := (orderly_start o).run before
  have ht : Orderly t := hs.run after
  refine ⟨fun hstopping => Orderly.parts_run hstopping after, fun hstopped => ?_⟩
  obtain ⟨hstate, hlog⟩ := hs.rests_run hstopped after
  exact ⟨ht.cleared hstate, hlog, ht.canceled hstate⟩

/-- A request is with the worker when the server stops. -/
def requestInFlight : List Input :=
  [arrive (sampleAddress 1) (clientRequest 1 0 (sampleToken 1 11 12)), ⟨.plentiful 0, .stop⟩,
    ⟨.plentiful 0, .stopDeferred⟩]

theorem stopped_run_requestInFlight :
    let s := run step (start (sampleOptions 1)) requestInFlight
    (s.receivers 1).isSome = true ∧ (∀ r, s.receivers 1 = some r → r.canceled = true) ∧
      Cleared (run step s [complete 1]) := by
  intro s
  have hstopped : s.state = .stopped := by decide +kernel
  have hnow := (stopped_run (sampleOptions 1) requestInFlight []).2 hstopped
  have hlater := (stopped_run (sampleOptions 1) requestInFlight [complete 1]).2 hstopped
  exact ⟨by decide +kernel, fun r hr => hnow.2.2.1 1 r hr, hlater.1⟩

end Server

end Protocol

end PomeloUdp
