import PomeloUdp.Protocol.Injection

/-!
# The handlers of a server without injected datagrams

What a handler does for a genuine peer, a genuine datagram or a loop over genuine peers is the
same whether or not the server has the peers and receivers of injected datagrams.
-/

namespace PomeloUdp

namespace Protocol

namespace Server

section Genuine

variable {I : ℕ → Bool} {s d : Server} {p : PeerId} {env : Env}

theorem Hides.dispatch (h : Hides I s d) (hp : I p = false) (source : SequenceSource)
    (type : PacketType) (n n' : UInt64) (body body' : PacketBody) :
    Hides I (dispatch env s p source ⟨type, n⟩ body)
      (dispatch env d p source ⟨type, n'⟩ body') := by
  unfold Server.dispatch
  dsimp only
  rw [h.tick]
  split
  · refine Hides.note (Hides.writePeer ?_ hp ?_ ?_) _ _
    · refine h.setSender hp fun r q hr hq => ?_
      cases hr
      exact (Option.some.inj hq).symm
    · exact fun _ => rfl
    · exact fun _ => rfl
  · exact h

theorem Hides.sendChallenge (h : Hides I s d) (hp : I p = false) (token : Crypto.PrivateToken) :
    Hides I (sendChallenge env s p token) (sendChallenge env d p token) := by
  have htaken := h.takeAnonymous.takeChallenge
  unfold Server.sendChallenge
  dsimp only
  split
  · exact htaken.dispatch hp _ _ _ _ _ _
  · exact htaken

variable (env) in
theorem Hides.sendDenied (h : Hides I s d) (hp : I p = false) :
    Hides I (sendDenied env s p).1 (sendDenied env d p).1 ∧
      (Server.sendDenied env d p).2 = (Server.sendDenied env s p).2 := by
  unfold Server.sendDenied
  dsimp only
  split
  · exact ⟨h.takeAnonymous.dispatch hp _ _ _ _ _ _, rfl⟩
  · exact ⟨h.takeAnonymous, rfl⟩

theorem Hides.sendOwn (h : Hides I s d) (hp : I p = false) (type : PacketType)
    (body : PacketBody) : Hides I (sendOwn env s p type body) (sendOwn env d p type body) := by
  have hnext : Hides I (s.modifyPeer p fun peer => peer.nextSequence.1)
      (d.modifyPeer p fun peer => peer.nextSequence.1) :=
    h.writePeer hp (fun _ => rfl) fun _ => rfl
  unfold Server.sendOwn
  dsimp only
  split
  · exact hnext.dispatch hp _ _ _ _ _ _
  · exact hnext

theorem Hides.sendKeepAlive (h : Hides I s d) (hp : I p = false) :
    Hides I (sendKeepAlive env s p) (sendKeepAlive env d p) := by
  unfold Server.sendKeepAlive
  rw [h.peers p hp]
  exact h.sendOwn hp _ _

theorem Hides.socketSend (h : Hides I s d) (hp : I p = false) (views : List (List UInt8)) :
    Hides I (socketSend env s p views) (socketSend env d p views) := by
  have hsendable : d.sendable p views = s.sendable p views := by
    have hcapacity : d.payloadCapacity = s.payloadCapacity := congrArg (·.2.2.2.2.2.1) h.fixed
    unfold Server.sendable
    rw [h.peers p hp, h.state, hcapacity, Peer.hide_state]
  unfold Server.socketSend
  rw [hsendable]
  split
  · refine Hides.sendOwn ?_ hp _ _
    unfold presendPacket
    rw [h.peers p hp, Peer.hide_confirmed]
    split
    · exact h
    · exact h.sendKeepAlive hp
  · exact h

theorem Hides.denyPeer (h : Hides I s d) (hp : I p = false) :
    Hides I (denyPeer env s p) (denyPeer env d p) := by
  have hdeny : ∀ name, Hides I
      (if env.pushEntry then
        let r := Server.sendDenied env ((s.unlink name p).pushBack .denied p) p
        if r.2 then r.1 else (r.1.unlink .denied p).releasePeer p
      else (s.unlink name p).releasePeer p)
      (if env.pushEntry then
        let r := Server.sendDenied env ((d.unlink name p).pushBack .denied p) p
        if r.2 then r.1 else (r.1.unlink .denied p).releasePeer p
      else (d.unlink name p).releasePeer p) := by
    intro name
    have hunlinked := h.unlink hp name
    split
    · obtain ⟨hsent, hacquired⟩ := (hunlinked.pushBack hp .denied).sendDenied env hp
      dsimp only
      rw [hacquired]
      split
      · exact hsent
      · exact (hsent.unlink hp .denied).releasePeer hp
    · exact hunlinked.releasePeer hp
  unfold Server.denyPeer
  dsimp only
  rw [h.peers p hp, Peer.hide_state]
  split
  · exact hdeny .requesting
  · exact hdeny .challenging
  · exact h

theorem Hides.connected (h : Hides I s d) {name : PeerListName} (hrequesting : name ≠ .requesting)
    (hdenied : name ≠ .denied) : d.lists name = s.lists name := by
  rw [h.lists, List.filter_eq_self]
  intro x hx
  rw [h.ghostList name hrequesting hdenied x hx]
  rfl

theorem Hides.recvRequest (h : Hides I s d) (hp : I p = false) (token : ConnectToken) :
    Hides I (recvRequest env s p token) (recvRequest env d p token) := by
  have hmax : d.maxClients = s.maxClients := congrArg (·.2.2.2.1) h.fixed
  have hconnected : d.lists .connected = s.lists .connected :=
    h.connected (by decide) (by decide)
  unfold Server.recvRequest
  rw [h.peers p hp, Peer.hide_state, hmax, hconnected]
  split
  · exact h
  split
  · exact h.denyPeer hp
  · have hadopted : Hides I (s.modifyPeer p fun peer => peer.adoptToken token env.hrtime)
        (d.modifyPeer p fun peer => peer.adoptToken token env.hrtime) :=
      h.writePeer hp (fun _ => rfl) fun _ => rfl
    have hunlinked := hadopted.unlink hp .requesting
    dsimp only
    split
    · exact ((hunlinked.pushBack hp .challenging).note _ _).sendChallenge hp token.token
    · exact hunlinked.releasePeer hp

theorem Hides.recvResponse (h : Hides I s d) (hp : I p = false) (token : Crypto.ChallengeToken) :
    Hides I (recvResponse env s p token) (recvResponse env d p token) := by
  unfold Server.recvResponse
  rw [h.peers p hp, Peer.hide_state, Peer.hide_clientId, Peer.hide_userData]
  split
  · exact h
  split
  · exact h
  split
  · exact h
  · have hunlinked := h.unlink hp .challenging
    dsimp only
    split
    · refine (Hides.sendKeepAlive ?_ hp).note _ _
      refine (hunlinked.pushBack hp .connected).writePeer hp ?_ ?_
      · exact fun _ => rfl
      · exact fun _ => rfl
    · exact hunlinked.releasePeer hp

theorem Hides.recvDisconnect (h : Hides I s d) (hp : I p = false) :
    Hides I (recvDisconnect s p) (recvDisconnect d p) := by
  unfold Server.recvDisconnect
  rw [h.peers p hp, Peer.hide_state]
  split
  · exact h
  · have hleft : Hides I (s.modifyPeer p fun peer => { peer with state := .disconnected })
        (d.modifyPeer p fun peer => { peer with state := .disconnected }) :=
      h.writePeer hp (fun _ => rfl) fun _ => rfl
    exact ((hleft.note _ _).unlink hp .connected).releasePeer hp

theorem Hides.recvKeepAlive (h : Hides I s d) (hp : I p = false) (clientId : Int64) :
    Hides I (recvKeepAlive s p clientId) (recvKeepAlive d p clientId) := by
  unfold Server.recvKeepAlive
  rw [h.peers p hp, Peer.hide_state, Peer.hide_confirmed, Peer.hide_clientId]
  split
  · exact h
  split
  · exact h
  split
  · exact h
  · exact h.writePeer hp (fun _ => rfl) fun _ => rfl

theorem Hides.recvPacket (h : Hides I s d) (hp : I p = false) (id : ReceiverId)
    (datagram : Datagram) (packet : Packet) :
    Hides I (recvPacket env s p id datagram packet) (recvPacket env d p id datagram packet) := by
  cases packet with
  | payload data => exact h.note _ _
  | request protocolId expireTimestamp token => exact h.recvRequest hp _
  | response sequence token => exact h.recvResponse hp token
  | disconnect => exact h.recvDisconnect hp
  | keepAlive clientId => exact h.recvKeepAlive hp clientId
  | denied => exact h
  | challenge _ _ => exact h

theorem Hides.recvFailed (h : Hides I s d) (hp : I p = false) (type : PacketType) :
    Hides I (recvFailed env s p type) (recvFailed env d p type) := by
  cases type with
  | request =>
      change Hides I (recvRequestFailed env s p) (recvRequestFailed env d p)
      unfold recvRequestFailed
      rw [h.peers p hp, Peer.hide_state]
      split
      · exact h
      · exact h.denyPeer hp
  | _ => exact h

theorem Hides.validatePacket (h : Hides I s d) (hp : I p = false) (packet : Packet) :
    d.validatePacket p packet = s.validatePacket p packet := by
  cases packet with
  | keepAlive clientId =>
      unfold Server.validatePacket
      rw [h.peers p hp]
      rfl
  | _ => rfl

theorem Hides.handlePacket (h : Hides I s d) (hp : I p = false) (id : ReceiverId)
    (receiver : Receiver) (packet : Packet) :
    Hides I
      (if s.validatePacket p packet then
        Server.recvPacket env (s.modifyPeer p fun peer =>
          { peer with lastRecvTime := receiver.recvTime }) p id receiver.datagram packet
      else Server.recvFailed env s p receiver.datagram.header.type)
      (if d.validatePacket p packet then
        Server.recvPacket env (d.modifyPeer p fun peer =>
          { peer with lastRecvTime := receiver.recvTime }) p id receiver.datagram packet
      else Server.recvFailed env d p receiver.datagram.header.type) := by
  rw [h.validatePacket hp packet]
  split
  · refine Hides.recvPacket ?_ hp _ _ _
    exact h.writePeer hp (fun _ => rfl) fun _ => rfl
  · exact h.recvFailed hp _

theorem Hides.handleReceiverComplete (h : Hides I s d) (hp : I p = false) (id : ReceiverId)
    (receiver : Receiver) (packet : Option Packet) :
    Hides I (handleReceiverComplete env s p id receiver packet)
      (handleReceiverComplete env d p id receiver packet) := by
  unfold Server.handleReceiverComplete
  rw [h.state]
  split
  · exact h
  have hflagged : Hides I
      (if receiver.datagram.header.type = .response then
        s.modifyPeer p fun peer =>
          { peer with flags := { peer.flags with processingResponse := false } }
      else s)
      (if receiver.datagram.header.type = .response then
        d.modifyPeer p fun peer =>
          { peer with flags := { peer.flags with processingResponse := false } }
      else d) := by
    split
    · exact h.writePeer hp (fun _ => rfl) fun _ => rfl
    · exact h
  cases packet with
  | none => exact hflagged.recvFailed hp _
  | some packet => exact hflagged.handlePacket hp id receiver packet

theorem Hides.receiverComplete (h : Hides I s d) {id : ReceiverId} (hid : I id = false)
    (workerFailed : Bool) :
    Hides I (receiverComplete env s id workerFailed) (receiverComplete env d id workerFailed) := by
  have hreceiver : d.receivers id = s.receivers id := by simp [h.receivers, hid]
  have hreleased : Hides I (s.setReceiver id none) (d.setReceiver id none) :=
    h.setReceiver hid fun _ _ hr => absurd hr (by simp)
  unfold Server.receiverComplete
  rw [hreceiver]
  cases hr : s.receivers id with
  | none => exact h
  | some r =>
      dsimp only
      by_cases hcanceled : r.canceled = true
      · rw [if_pos hcanceled, if_pos hcanceled]
        exact hreleased
      rw [if_neg hcanceled, if_neg hcanceled]
      cases hpeer : r.peer with
      | none => exact hreleased
      | some p =>
          have hp := h.owned id r p hid hr (Bool.not_eq_true _ ▸ hcanceled) hpeer
          refine Hides.handleReceiverComplete ?_ hp _ _ _
          refine hreleased.modifyPeer hp ?_ ?_
          · rw [hreleased.peers p hp]
            exact Peer.hide_erase I _ hid
          · intro id' _ _ hid' hmem
            refine (List.mem_erase_of_ne ?_).mpr hmem
            rintro rfl
            rw [hid] at hid'
            cases hid'

theorem Hides.sentDenied (h : Hides I s d) (hp : I p = false) :
    Hides I (sentDenied s p) (sentDenied d p) := by
  unfold Server.sentDenied
  rw [h.peers p hp, Peer.hide_state]
  split
  · exact h
  · exact (h.unlink hp .denied).releasePeer hp

theorem Hides.senderComplete (h : Hides I s d) {id : SenderId} (hid : I id.peer = false)
    (failed : Bool) : Hides I (senderComplete s id failed) (senderComplete d id failed) := by
  have hsender : d.senders id = s.senders id := by simp [h.senders, hid]
  have hreleased : Hides I (s.setSender id none) (d.setSender id none) :=
    h.setSender hid fun _ _ hr => absurd hr (by simp)
  unfold Server.senderComplete
  rw [hsender]
  cases hr : s.senders id with
  | none => exact h
  | some sender =>
      dsimp only
      split
      · exact hreleased
      cases hpeer : sender.peer with
      | none => exact hreleased
      | some p =>
          obtain rfl := h.senderPeer id sender p hr hpeer
          have herased : Hides I
              ((s.setSender id none).modifyPeer id.peer fun peer =>
                { peer with senders := peer.senders.erase id })
              ((d.setSender id none).modifyPeer id.peer fun peer =>
                { peer with senders := peer.senders.erase id }) :=
            hreleased.writePeer hid (fun _ => rfl) fun _ => rfl
          dsimp only
          rw [herased.state]
          split
          · exact herased
          split
          · exact herased
          split
          · exact herased.sentDenied hid
          · exact herased

/-- The two servers agree on a datagram: what it changes, and whether it passes. -/
structure Hides.Validated (I : ℕ → Bool) (v w : Server × Option PeerId) : Prop where
  hides : Hides I v.1 w.1
  passed : w.2 = v.2
  genuine : ∀ p, v.2 = some p → I p = false

theorem Hides.refused (h : Hides I s d) : Hides.Validated I (s, none) (d, none) :=
  ⟨h, rfl, fun _ hp => absurd hp (by simp)⟩

theorem Hides.protect (h : Hides I s d) (hp : I p = false) (sequence : UInt64) :
    Hides.Validated I
      (if (s.peers p).state ≠ .connected then (s, none)
        else
          let r := (s.peers p).protectReplay sequence
          (s.modifyPeer p fun _ => r.1, if r.2 then some p else none))
      (if (d.peers p).state ≠ .connected then (d, none)
        else
          let r := (d.peers p).protectReplay sequence
          (d.modifyPeer p fun _ => r.1, if r.2 then some p else none)) := by
  have hprotected : Hides I (s.modifyPeer p fun _ => ((s.peers p).protectReplay sequence).1)
      (d.modifyPeer p fun _ => ((d.peers p).protectReplay sequence).1) := by
    refine h.modifyPeer hp ?_ fun _ _ _ _ hmem => hmem
    rw [h.peers p hp]
    rfl
  have hstate : (d.peers p).state = (s.peers p).state := by rw [h.peers p hp, Peer.hide_state]
  have hpasses :
      ((d.peers p).protectReplay sequence).2 = ((s.peers p).protectReplay sequence).2 := by
    rw [h.peers p hp]
    rfl
  rw [hstate]
  split
  · exact h.refused
  · dsimp only
    rw [hpasses]
    refine ⟨hprotected, rfl, fun q hq => ?_⟩
    dsimp only at hq
    split at hq
    · exact Option.some.inj hq ▸ hp
    · cases hq

theorem Hides.validatePacketOf_ghost (h : Hides I s d) (hp : I p = true) {address : Address}
    (hmapped : s.peerAddressMap address = some p) (header : Header) :
    validatePacketOf s address header = (s, none) := by
  have hchallenge : (s.peers p).state ≠ .challenge := by
    rcases h.ghostState p hp with hstate | hstate | hstate <;> simp [hstate]
  have hconnected : (s.peers p).state ≠ .connected := by
    rcases h.ghostState p hp with hstate | hstate | hstate <;> simp [hstate]
  unfold Server.validatePacketOf
  rw [hmapped]
  dsimp only
  rw [if_pos hchallenge, if_pos hconnected]
  split <;> rfl

theorem Hides.validatePacketOf (h : Hides I s d) (address : Address) (header : Header)
    (hclear : header.type = .response → ∀ p, s.peerAddressMap address = some p →
      (s.peers p).state = .challenge → (s.peers p).receivers.filter I = []) :
    Hides.Validated I (validatePacketOf s address header) (validatePacketOf d address header) := by
  cases hmapped : s.peerAddressMap address with
  | none =>
      have hmapped' : d.peerAddressMap address = none := by rw [h.map, hmapped]; rfl
      unfold Server.validatePacketOf
      rw [hmapped, hmapped']
      exact h.refused
  | some p =>
      by_cases hp : I p = true
      · have hmapped' : d.peerAddressMap address = none := by
          rw [h.map, hmapped]
          simp [hp]
        rw [h.validatePacketOf_ghost hp hmapped]
        unfold Server.validatePacketOf
        rw [hmapped']
        exact h.refused
      · rw [Bool.not_eq_true] at hp
        have hmapped' : d.peerAddressMap address = some p := by
          rw [h.map, hmapped]
          simp [hp]
        unfold Server.validatePacketOf
        rw [hmapped, hmapped']
        cases htype : header.type with
        | response =>
            dsimp only
            rw [h.peers p hp, Peer.hide_state]
            split
            · exact h.refused
            · rename_i hstate
              have hflag : ((s.peers p).hide I).flags.processingResponse =
                  (s.peers p).flags.processingResponse := by
                have hempty := hclear htype p hmapped (not_not.mp hstate)
                unfold Peer.hide
                dsimp only
                rw [hempty]
                exact Bool.and_true _
              rw [hflag]
              split
              · exact h.refused
              · exact ⟨h, rfl, fun q hq => Option.some.inj hq ▸ hp⟩
        | payload => exact h.protect hp header.sequence
        | keepAlive => exact h.protect hp header.sequence
        | disconnect => exact h.protect hp header.sequence
        | request => exact h.refused
        | denied => exact h.refused
        | challenge => exact h.refused

theorem Hides.validateRequest (h : Hides I s d) (htick : I s.tick = false)
    (hnew : ∀ id r, s.receivers id = some r → r.peer ≠ some s.tick) (address : Address)
    (body : RequestBody) (hclear : body.protocolId = s.protocolId → env.acquirePeer = true →
      ∀ p, s.peerAddressMap address = some p → I p = false) :
    Hides.Validated I (validateRequest env s address body)
      (validateRequest env d address body) := by
  have hprotocol : d.protocolId = s.protocolId := congrArg (·.2.2.2.2.1) h.fixed
  have hkeys : d.challengeKey = s.challengeKey ∧ d.privateKey = s.privateKey :=
    ⟨congrArg (·.2.2.1) h.fixed, congrArg (·.2.1) h.fixed⟩
  have hacquired := h.acquirePeer htick hnew env address
  by_cases hwanted : body.protocolId = s.protocolId ∧ env.acquirePeer = true
  · have hmap : d.peerAddressMap address = s.peerAddressMap address := by
      rw [h.map]
      cases hmapped : s.peerAddressMap address with
      | none => rfl
      | some p => simp [hclear hwanted.1 hwanted.2 p hmapped]
    unfold Server.validateRequest
    rw [hmap, hprotocol, if_neg (not_not.mpr hwanted.1), if_neg (not_not.mpr hwanted.1),
      if_pos hwanted.2, if_pos hwanted.2]
    split
    · exact h.refused
    dsimp only
    rw [h.tick]
    split
    · refine ⟨?_, rfl, fun q hq => Option.some.inj hq ▸ htick⟩
      have hpushed := hacquired.pushBack htick .requesting
      dsimp only
      refine hpushed.modifyPeer htick ?_ ?_
      · rw [hpushed.peers s.tick htick]
        have hchallenge : ((d.acquirePeer env address).pushBack .requesting s.tick).challengeKey =
            ((s.acquirePeer env address).pushBack .requesting s.tick).challengeKey := hkeys.1
        have hprivate : ((d.acquirePeer env address).pushBack .requesting s.tick).privateKey =
            ((s.acquirePeer env address).pushBack .requesting s.tick).privateKey := hkeys.2
        rw [hchallenge, hprivate]
        rfl
      · exact fun _ _ _ _ hmem => hmem
    · exact (hacquired.releasePeer htick).refused
  · have hrefused : ∀ t : Server, t.protocolId = s.protocolId →
        Server.validateRequest env t address body = (t, none) := by
      intro t ht
      unfold Server.validateRequest
      split
      · rfl
      split
      · rfl
      split
      · rename_i hbody hacquire
        exact absurd ⟨(not_not.mp hbody).trans ht, hacquire⟩ hwanted
      · rfl
    rw [hrefused s rfl, hrefused d hprotocol]
    exact h.refused

theorem tick_validateIncoming (env : Env) (s : Server) (address : Address) (datagram : Datagram) :
    (Server.validateIncoming env s address datagram).1.tick = s.tick := by
  unfold Server.validateIncoming
  split
  · rfl
  split
  · rfl
  cases datagram with
  | request _ body =>
      dsimp only
      unfold Server.validateRequest
      split
      · rfl
      split
      · rfl
      split
      · dsimp only
        split
        · rfl
        · exact releasePeer_tick _ _
      · rfl
  | packet header body =>
      dsimp only
      unfold Server.validatePacketOf
      split
      · rfl
      · split
        all_goals first | rfl | (split <;> first | rfl | (split <;> rfl))

variable (env) in
theorem Hides.validateIncoming (h : Hides I s d) (htick : I s.tick = false)
    (hnew : ∀ id r, s.receivers id = some r → r.peer ≠ some s.tick) (address : Address)
    (datagram : Datagram) (hclear : s.unhindered I env address datagram = true) :
    Hides.Validated I (validateIncoming env s address datagram)
      (validateIncoming env d address datagram) := by
  unfold unhindered at hclear
  unfold Server.validateIncoming
  rw [h.state]
  split
  · exact h.refused
  rename_i hrunning
  rw [if_neg hrunning] at hclear
  split
  · exact h.refused
  rename_i hlength
  rw [if_neg hlength] at hclear
  cases datagram with
  | request sequence body =>
      refine h.validateRequest htick hnew address body fun hprotocol hacquire p hmapped => ?_
      simpa [hprotocol, hacquire, hmapped] using hclear
  | packet header body =>
      refine h.validatePacketOf address header fun htype p hmapped hstate => ?_
      simpa [htype, hmapped, hstate] using hclear

theorem empty_of_unhindered (env : Env) {s : Server} {address : Address} {header : Header}
    {body : SealedBody} {p : PeerId}
    (hclear : s.unhindered I env address (.packet header body) = true)
    (hrunning : s.state = .running)
    (hlength : (Datagram.packet header body).validateBodyLength = true)
    (htype : header.type = .response) (hmapped : s.peerAddressMap address = some p)
    (hstate : (s.peers p).state = .challenge) : (s.peers p).receivers.filter I = [] := by
  unfold unhindered at hclear
  rw [if_neg (not_not.mpr hrunning), if_neg (not_not.mpr hlength)] at hclear
  simpa [htype, hmapped, hstate] using hclear

theorem response_validated {env : Env} {s t : Server} {address : Address} {datagram : Datagram}
    {p : PeerId} (h : Server.validateIncoming env s address datagram = (t, some p))
    (htype : datagram.header.type = .response) :
    t = s ∧ (s.state = .running ∧ datagram.validateBodyLength = true) ∧
      s.peerAddressMap address = some p ∧ (s.peers p).state = .challenge ∧
      (s.peers p).flags.processingResponse = false := by
  unfold Server.validateIncoming at h
  split at h
  · cases h
  rename_i hrunning
  split at h
  · cases h
  rename_i hlength
  cases datagram with
  | request _ body => cases htype
  | packet header body =>
      change header.type = .response at htype
      dsimp only at h
      unfold Server.validatePacketOf at h
      rw [htype] at h
      split at h
      · cases h
      · rename_i q hmapped
        dsimp only at h
        split at h
        · cases h
        · rename_i hstate
          split at h
          · cases h
          · rename_i hflag
            cases h
            exact ⟨rfl, ⟨not_not.mp hrunning, not_not.mp hlength⟩, hmapped, not_not.mp hstate,
              Bool.not_eq_true _ ▸ hflag⟩

theorem Hides.submitReceiver (h : Hides I s d) (hp : I p = false) (htick : I s.tick = false)
    (datagram : Datagram)
    (hclear : datagram.header.type = .response → (s.peers p).receivers.filter I = []) :
    Hides I (submitReceiver env s p datagram) (submitReceiver env d p datagram) := by
  have hctx : d.cryptoCtx p = s.cryptoCtx p := by
    unfold Server.cryptoCtx
    rw [h.peers p hp]
    rfl
  unfold Server.submitReceiver
  dsimp only
  rw [hctx, h.tick]
  refine Hides.modifyPeer ?_ hp ?_ ?_
  · refine h.setReceiver htick fun r q hr hq => ?_
    cases hr
    exact Option.some.inj hq ▸ hp
  · change _ = Peer.hide I { s.peers p with
      receivers := (s.peers p).receivers ++ [s.tick]
      flags :=
        if datagram.header.type = PacketType.response then
          { (s.peers p).flags with processingResponse := true }
        else (s.peers p).flags }
    change { d.peers p with
      receivers := (d.peers p).receivers ++ [s.tick]
      flags :=
        if datagram.header.type = PacketType.response then
          { (d.peers p).flags with processingResponse := true }
        else (d.peers p).flags } = _
    rw [h.peers p hp]
    unfold Peer.hide
    dsimp only
    rw [List.filter_append, List.filter_append, List.filter_singleton, List.filter_singleton, htick]
    split
    · rename_i htype
      rw [hclear htype]
      rfl
    · simp
  · intro id _ _ _ hmem
    exact List.mem_append_left _ hmem

theorem Hides.accept (h : Hides I s d) (htick : I s.tick = false)
    (hnew : ∀ id r, s.receivers id = some r → r.peer ≠ some s.tick) (address : Address)
    (datagram : Datagram) (hclear : s.unhindered I env address datagram = true) :
    Hides I (accept env s address datagram) (accept env d address datagram) := by
  obtain ⟨hhides, hpassed, hgenuine⟩ :=
    h.validateIncoming env htick hnew address datagram hclear
  unfold Server.accept
  cases hv : Server.validateIncoming env s address datagram with
  | mk t passed =>
      cases hw : Server.validateIncoming env d address datagram with
      | mk u passed' =>
          rw [hv, hw] at hhides hpassed
          rw [hv] at hgenuine
          dsimp only at hhides hpassed hgenuine
          subst hpassed
          cases passed' with
          | none => exact hhides
          | some p =>
              have hp := hgenuine p rfl
              have htick' : I t.tick = false := by
                have hsame : t.tick = s.tick := by
                  have := tick_validateIncoming env s address datagram
                  rw [hv] at this
                  exact this
                rw [hsame]
                exact htick
              dsimp only
              split
              · refine (hhides.note _ _).submitReceiver hp htick' datagram fun htype => ?_
                obtain ⟨rfl, ⟨hrunning, hlength⟩, hmapped, hstate, -⟩ :=
                  response_validated hv htype
                cases datagram with
                | request _ _ => cases htype
                | packet header _ =>
                    exact empty_of_unhindered env hclear hrunning hlength htype hmapped hstate
              · exact hhides.note _ _

theorem Hides.disconnectPeer (h : Hides I s d) (hp : I p = false) :
    Hides I (disconnectPeer env s p) (disconnectPeer env d p) := by
  have hunlinked := h.unlink hp .connected
  unfold Server.disconnectPeer
  rw [h.peers p hp, Peer.hide_state]
  split
  · exact h
  dsimp only
  split
  · refine Hides.note ?_ _ _
    exact (hunlinked.pushBack hp .disconnecting).writePeer hp (fun _ => rfl) fun _ => rfl
  · refine Hides.releasePeer ?_ hp
    refine Hides.note ?_ _ _
    exact hunlinked.writePeer hp (fun _ => rfl) fun _ => rfl

theorem Hides.foldl {body : Server → PeerEntry → Server}
    (hbody : ∀ {s d : Server} {x : PeerEntry}, Hides I s d → I x.peer = false →
      Hides I (body s x) (body d x))
    (h : Hides I s d) {entries : List PeerEntry} (hentries : ∀ x ∈ entries, I x.peer = false) :
    Hides I (entries.foldl body s) (entries.foldl body d) := by
  induction entries generalizing s d with
  | nil => exact h
  | cons x entries ih =>
      refine ih (hbody h (hentries x List.mem_cons_self)) fun y hy => ?_
      exact hentries y (List.mem_cons_of_mem x hy)

theorem Hides.broadcastKeepAlive (h : Hides I s d) :
    Hides I (broadcastKeepAlive env s) (broadcastKeepAlive env d) := by
  have hconnected : d.lists .connected = s.lists .connected :=
    h.connected (by decide) (by decide)
  unfold Server.broadcastKeepAlive
  rw [hconnected]
  refine Hides.foldl (fun {s d x} h hx => ?_) h (h.ghostList .connected (by decide) (by decide))
  unfold keepAliveEntry
  dsimp only
  rw [h.peers x.peer hx]
  change Hides I (if env.hrtime - (s.peers x.peer).lastRecvTime ≤ (s.peers x.peer).timeoutNs then _
    else _) (if env.hrtime - (s.peers x.peer).lastRecvTime ≤ (s.peers x.peer).timeoutNs then _
    else _)
  split
  · exact h.sendKeepAlive hx
  · refine Hides.releasePeer ?_ hx
    refine Hides.removeEntry ?_ .connected x
    refine Hides.note ?_ _ _
    exact h.writePeer hx (fun _ => rfl) fun _ => rfl

theorem Hides.broadcastDisconnect (h : Hides I s d) :
    Hides I (broadcastDisconnect env s) (broadcastDisconnect env d) := by
  have hdisconnecting : d.lists .disconnecting = s.lists .disconnecting :=
    h.connected (by decide) (by decide)
  unfold Server.broadcastDisconnect
  rw [hdisconnecting]
  refine Hides.foldl (fun {s d x} h hx => ?_) h (h.ghostList .disconnecting (by decide) (by decide))
  unfold disconnectEntry
  dsimp only
  rw [h.peers x.peer hx]
  have hcounted : Hides I
      (s.modifyPeer x.peer fun peer => { peer with
        remainRedundantDisconnect := (s.peers x.peer).remainRedundantDisconnect - 1 })
      (d.modifyPeer x.peer fun peer => { peer with
        remainRedundantDisconnect := (s.peers x.peer).remainRedundantDisconnect - 1 }) :=
    h.writePeer hx (fun _ => rfl) fun _ => rfl
  change Hides I (if 0 < (s.peers x.peer).remainRedundantDisconnect then _ else _)
    (if 0 < (s.peers x.peer).remainRedundantDisconnect then _ else _)
  split
  · exact hcounted.sendOwn hx _ _
  · exact (hcounted.removeEntry .disconnecting x).releasePeer hx

theorem Hides.scanChallengingPeers (h : Hides I s d) :
    Hides I (scanChallengingPeers env s) (scanChallengingPeers env d) := by
  have hchallenging : d.lists .challenging = s.lists .challenging :=
    h.connected (by decide) (by decide)
  unfold Server.scanChallengingPeers
  rw [hchallenging]
  refine Hides.foldl (fun {s d x} h hx => ?_) h (h.ghostList .challenging (by decide) (by decide))
  unfold scanEntry
  dsimp only
  rw [h.peers x.peer hx]
  change Hides I (if (s.peers x.peer).timeoutNs < env.hrtime - (s.peers x.peer).createdTimeNs then _
    else _) (if (s.peers x.peer).timeoutNs < env.hrtime - (s.peers x.peer).createdTimeNs then _
    else _)
  split
  · exact (h.removeEntry .challenging x).releasePeer hx
  · exact h

end Genuine

end Server

end Protocol

end PomeloUdp
