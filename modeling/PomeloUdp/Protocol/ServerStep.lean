import PomeloUdp.Protocol.ServerEffects

/-!
# The callbacks are made of acts

`step_acts`: in a state with a well-formed table, every step of the server is a
sequence of acts, each made under the condition `Enabled` names for it. One
lemma for each handler leads there; the loops over a list of peers go through
`acts_foldl`, which uses that the entries of a list have different peers.
-/

namespace PomeloUdp

namespace Protocol

open Machine

namespace Server

/-- The states between which only small writes were made. -/
structure SoftSame (s t : Server) : Prop where
  lists : t.lists = s.lists
  log : t.log = s.log
  tick : t.tick = s.tick
  state : t.state = s.state
  maxClients : t.maxClients = s.maxClients
  anonymous : t.anonymousSequenceNumber = s.anonymousSequenceNumber
  peers : ∀ p, Soft (fun _ => t.peers p) (s.peers p)

theorem Soft.refl (peer : Peer) : Soft (fun _ => peer) peer :=
  ⟨rfl, rfl, rfl, rfl, rfl, rfl, rfl, rfl, rfl, rfl⟩

theorem SoftSame.refl (s : Server) : SoftSame s s :=
  ⟨rfl, rfl, rfl, rfl, rfl, rfl, fun _ => Soft.refl _⟩

theorem SoftSame.setReceiver {s t : Server} (h : SoftSame s t) (id : ReceiverId)
    (receiver : Option Receiver) : SoftSame s (t.setReceiver id receiver) :=
  ⟨h.lists, h.log, h.tick, h.state, h.maxClients, h.anonymous, h.peers⟩

theorem SoftSame.modifyPeer {s t : Server} (h : SoftSame s t) {p : PeerId} {f : Peer → Peer}
    (hf : Soft f (t.peers p)) : SoftSame s (t.modifyPeer p f) := by
  refine ⟨h.lists, h.log, h.tick, h.state, h.maxClients, h.anonymous, ?_⟩
  intro q
  have hq := h.peers q
  rw [modifyPeer_peers]
  split
  · subst q
    exact ⟨hf.state.trans hq.state, hf.entry.trans hq.entry, hf.address.trans hq.address,
      hf.clientId.trans hq.clientId, hf.userData.trans hq.userData,
      hf.sequenceNumber.trans hq.sequenceNumber, hf.cryptoCtx.trans hq.cryptoCtx,
      hf.replayProtector.trans hq.replayProtector, hf.timeoutNs.trans hq.timeoutNs,
      hf.createdTimeNs.trans hq.createdTimeNs⟩
  · exact hq

theorem cryptoCtx_congr {s t : Server} {p : PeerId}
    (h : (t.peers p).cryptoCtx = (s.peers p).cryptoCtx) : t.cryptoCtx p = s.cryptoCtx p := by
  simp [cryptoCtx, h]

theorem releasePeer_modifyPeer (t : Server) (p : PeerId) (f : Peer → Peer)
    (haddress : (f (t.peers p)).address = (t.peers p).address)
    (hsenders : (f (t.peers p)).senders = (t.peers p).senders)
    (hreceivers : (f (t.peers p)).receivers = (t.peers p).receivers)
    (hprotector : (f (t.peers p)).replayProtector = (t.peers p).replayProtector) :
    (t.modifyPeer p f).releasePeer p = t.releasePeer p := by
  have hpeer : (t.modifyPeer p f).peers p = f (t.peers p) := by simp [modifyPeer]
  unfold releasePeer
  simp only [cancelSendersAndReceivers, hpeer, Function.update_self, haddress, hsenders,
    hreceivers]
  cases (t.peers p).address with
  | none => simp [modifyPeer, Peer.cleanup, hprotector]
  | some a => simp [modifyPeer, Peer.cleanup, hprotector]

section Handlers

variable {s₀ s : Server} {i : Input} {p : PeerId}

theorem acts_soft (f : Peer → Peer) (h : Soft f (s.peers p)) :
    Acts s₀ i s (s.modifyPeer p f) := Acts.single (a := .soft p f) h

theorem acts_release (name : PeerListName) (h : (s.peers p).state = name.state) :
    Acts s₀ i s ((s.unlink name p).releasePeer p) := Acts.single (a := .release p name) h

theorem acts_denyPeer (hsoft : SoftSame s₀ s) (hrunning : s₀.state = .running)
    (hstate : (s.peers p).state = .request)
    (hdenying : i.env.pushEntry = true → s₀.denying i = some p) :
    Acts s₀ i s (denyPeer i.env s p) := by
  simp only [denyPeer, hstate]
  by_cases hpush : i.env.pushEntry = true
  · simp only [hpush, if_true]
    set t := (s.unlink .requesting p).pushBack .denied p with ht
    obtain ⟨lists, hunlink⟩ := exists_unlink s .requesting p
    have hdeny : Acts s₀ i s t := Acts.single (a := .deny p) hstate
    have hdenied : (t.peers p).state = .denied := by simp [ht, pushBack, PeerListName.state]
    have henabled : Enabled s₀ i t (.denied p) := by
      refine ⟨hdenying hpush, hdenied, ?_, ?_, ?_, ?_⟩
      · refine cryptoCtx_congr ?_
        simp [ht, hunlink, pushBack, (hsoft.peers p).cryptoCtx]
      · simp [ht, hunlink, pushBack, hsoft.log]
      · simp [ht, hunlink, pushBack, hsoft.anonymous]
      · simp [ht, hunlink, pushBack, hsoft.state, hrunning]
    have hsent : Acts s₀ i t (sendDenied i.env t p).1 := Acts.single henabled
    have hstill : ((sendDenied i.env t p).1.peers p).state = PeerListName.denied.state :=
      ((sameTable_sendDenied i.env t p).state p).trans hdenied
    split
    · exact hdeny.trans hsent
    · exact (hdeny.trans hsent).trans (acts_release .denied hstill)
  · simp only [hpush]
    exact acts_release .requesting hstate

theorem acts_recvRequest {datagram : Datagram} {token : ConnectToken} (hsoft : SoftSame s₀ s)
    (hrunning : s₀.state = .running)
    (hcompletion : s₀.completion i = some (p, datagram,
      some (.request token.protocolId token.expireTimestamp token.token))) :
    Acts s₀ i s (recvRequest i.env s p token) := by
  unfold recvRequest
  split
  · exact Acts.refl s
  · rename_i hstate
    rw [not_not] at hstate
    have hstate₀ : (s₀.peers p).state = .request := (hsoft.peers p).state.symm.trans hstate
    split
    · rename_i hfull
      rw [hsoft.maxClients, hsoft.lists] at hfull
      refine acts_denyPeer hsoft hrunning hstate ?_
      intro hpush
      simp [denying, hcompletion, hstate₀, hfull, hpush]
    · rename_i hroom
      rw [hsoft.maxClients, hsoft.lists, not_le] at hroom
      by_cases hpush : i.env.pushEntry = true
      · simp only [hpush, if_true]
        have hgranting : s₀.granting i = some (p, token) := by
          simp [granting, hcompletion, hstate₀, hroom, hpush]
        have hgrant : Enabled s₀ i s (.grant p token) :=
          ⟨hgranting, hstate, hsoft.lists, hsoft.log⟩
        refine (Acts.single hgrant).trans (Acts.single (a := .challenge p token) ?_)
        obtain ⟨lists, hunlink⟩ := exists_unlink
          (s.modifyPeer p fun peer => peer.adoptToken token i.env.hrtime) .requesting p
        refine ⟨hgranting, ?_, ?_, ?_, ?_⟩
        · simp [act, note, pushBack, PeerListName.state]
        · simp only [act, note, pushBack, hunlink]
          simp [modifyPeer, hsoft.log]
        · simp only [act, note, pushBack, hunlink]
          exact hsoft.anonymous
        · simp only [act, note, pushBack, hunlink]
          exact hsoft.state.trans hrunning
      · simp only [hpush]
        have hcommute := unlink_modifyPeer s .requesting p
          (fun peer => peer.adoptToken token i.env.hrtime) rfl
        simp only [hcommute]
        rw [if_neg (by simp), releasePeer_modifyPeer _ _ _ rfl rfl rfl rfl]
        exact acts_release .requesting hstate

theorem acts_recvRequestFailed {datagram : Datagram} (hsoft : SoftSame s₀ s)
    (hrunning : s₀.state = .running) (htype : datagram.header.type = .request)
    (hcompletion : s₀.completion i = some (p, datagram, none)) :
    Acts s₀ i s (recvRequestFailed i.env s p) := by
  unfold recvRequestFailed
  split
  · exact Acts.refl s
  · rename_i hstate
    rw [not_not] at hstate
    have hstate₀ : (s₀.peers p).state = .request := (hsoft.peers p).state.symm.trans hstate
    refine acts_denyPeer hsoft hrunning hstate ?_
    intro hpush
    simp [denying, hcompletion, hstate₀, htype, hpush]

theorem acts_recvResponse {datagram : Datagram} {tokenSequence : UInt64}
    {token : Crypto.ChallengeToken} (hsoft : SoftSame s₀ s) (hp : p ≤ s.tick)
    (hcompletion : s₀.completion i = some (p, datagram, some (.response tokenSequence token)))
    (hevent : ∃ id workerFailed, i.event = .receiverComplete id workerFailed) :
    Acts s₀ i s (recvResponse i.env s p token) := by
  obtain ⟨id, workerFailed, hevent⟩ := hevent
  unfold recvResponse
  split
  · exact Acts.refl s
  split
  · exact Acts.refl s
  split
  · exact Acts.refl s
  rename_i hstate hclient hdata
  rw [not_not] at hstate hclient hdata
  have hpeer := hsoft.peers p
  by_cases hpush : i.env.pushEntry = true
  · simp only [hpush, if_true]
    have hconnecting : s₀.connecting i = some p := by
      simp [connecting, hcompletion, hpeer.state.symm.trans hstate,
        hpeer.clientId.symm.trans hclient, hpeer.userData.symm.trans hdata, hpush]
    have hconnect : Enabled s₀ i s (.connect p) :=
      ⟨hconnecting, hstate, hsoft.lists, hsoft.log⟩
    set t := ((s.unlink .challenging p).pushBack .connected p).modifyPeer p fun peer =>
      { peer with flags := { peer.flags with confirmed := false } } with ht
    obtain ⟨lists, hunlink⟩ := exists_unlink s .challenging p
    have hto : Acts s₀ i s t := Acts.single hconnect
    have hown : Enabled s₀ i t (.own p .keepAlive (.keepAlive (t.peers p).clientId)) := by
      have hstate' : (t.peers p).state = .connected := by
        simp [ht, modifyPeer, pushBack, PeerListName.state]
      refine ⟨.inl hstate', ?_, ?_, fun _ => ⟨hstate', rfl⟩⟩
      · have hnumber : (t.peers p).sequenceNumber = (s₀.peers p).sequenceNumber := by
          simp [ht, hunlink, modifyPeer, pushBack, hpeer.sequenceNumber]
        simp [ownNumbers, hevent, hconnecting, hnumber]
      · refine cryptoCtx_congr ?_
        simp [ht, hunlink, modifyPeer, pushBack, hpeer.cryptoCtx]
    have hsent : Acts s₀ i t (sendKeepAlive i.env t p) := Acts.single hown
    refine (hto.trans hsent).trans (Acts.single (a := .note (.connected p)) ?_)
    have htick : t.tick = s.tick := by simp [ht, hunlink, modifyPeer, pushBack]
    have hsame := (sameTable_sendOwn i.env t p .keepAlive (.keepAlive (t.peers p).clientId)).tick
    exact hp.trans (hsame.trans htick).ge
  · simp only [hpush]
    exact acts_release .challenging hstate

theorem acts_recvDisconnect (hp : p ≤ s.tick) : Acts s₀ i s (recvDisconnect s p) := by
  unfold recvDisconnect
  split
  · exact Acts.refl s
  · rename_i hstate
    rw [not_not] at hstate
    have hnote : Acts s₀ i s (s.note (.disconnected p)) :=
      Acts.single (a := .note (.disconnected p)) hp
    have hcommute := unlink_modifyPeer (s.note (.disconnected p)) .connected p
      (fun peer => { peer with state := .disconnected }) rfl
    have heq : (((s.modifyPeer p fun peer => { peer with state := .disconnected }).note
        (.disconnected p)).unlink .connected p).releasePeer p =
          ((s.note (.disconnected p)).unlink .connected p).releasePeer p := by
      rw [← releasePeer_modifyPeer ((s.note (.disconnected p)).unlink .connected p) p
        (fun peer => { peer with state := .disconnected }) rfl rfl rfl rfl, ← hcommute]
      rfl
    simp only []
    rw [heq]
    exact hnote.trans (acts_release .connected hstate)

theorem acts_recvKeepAlive (clientId : Int64) : Acts s₀ i s (recvKeepAlive s p clientId) := by
  unfold recvKeepAlive
  split
  · exact Acts.refl s
  split
  · exact Acts.refl s
  split
  · exact Acts.refl s
  exact acts_soft _ ⟨rfl, rfl, rfl, rfl, rfl, rfl, rfl, rfl, rfl, rfl⟩

theorem acts_recvFailed {datagram : Datagram} {packet : Option Packet} (hsoft : SoftSame s₀ s)
    (hrunning : s₀.state = .running)
    (hpacket : packet = none ∨ datagram.header.type = .keepAlive)
    (hcompletion : s₀.completion i = some (p, datagram, packet)) :
    Acts s₀ i s (recvFailed i.env s p datagram.header.type) := by
  cases htype : datagram.header.type with
  | request =>
      rcases hpacket with rfl | hkeepAlive
      · exact acts_recvRequestFailed hsoft hrunning htype hcompletion
      · exact absurd (htype.symm.trans hkeepAlive) (by decide)
  | denied => exact Acts.refl s
  | challenge => exact Acts.refl s
  | response => exact Acts.refl s
  | keepAlive => exact Acts.refl s
  | payload => exact Acts.refl s
  | disconnect => exact Acts.refl s

theorem acts_recvPacket {id : ReceiverId} {workerFailed : Bool} {datagram : Datagram}
    {packet : Packet} (hsoft : SoftSame s₀ s) (hrunning : s₀.state = .running)
    (hcompletion : s₀.completion i = some (p, datagram, some packet))
    (hevent : i.event = .receiverComplete id workerFailed) (hfree : s.receivers id = none)
    (hid : id ≤ s.tick) (hp : p ≤ s.tick) :
    Acts s₀ i s (recvPacket i.env s p id datagram packet) := by
  cases packet with
  | payload data =>
      refine Acts.single (a := .note (.received id p datagram)) ?_
      exact ⟨⟨data, hcompletion⟩, ⟨workerFailed, hevent⟩, hfree, hsoft.log, hid, hp⟩
  | request protocolId expireTimestamp token =>
      exact acts_recvRequest hsoft hrunning hcompletion
  | response tokenSequence token =>
      exact acts_recvResponse hsoft hp hcompletion ⟨id, workerFailed, hevent⟩
  | disconnect => exact acts_recvDisconnect hp
  | keepAlive clientId => exact acts_recvKeepAlive clientId
  | denied => exact Acts.refl s
  | challenge tokenSequence token => exact Acts.refl s

theorem acts_handleReceiverComplete {id : ReceiverId} {workerFailed : Bool} {receiver : Receiver}
    {packet : Option Packet} (hsoft : SoftSame s₀ s)
    (hpacket : ∀ clientId, packet = some (.keepAlive clientId) →
      receiver.datagram.header.type = .keepAlive)
    (hcompletion : s₀.state = .running → s₀.completion i = some (p, receiver.datagram, packet))
    (hevent : i.event = .receiverComplete id workerFailed) (hfree : s.receivers id = none)
    (hid : id ≤ s.tick) (hp : p ≤ s.tick) :
    Acts s₀ i s (handleReceiverComplete i.env s p id receiver packet) := by
  unfold handleReceiverComplete
  split
  · exact Acts.refl s
  rename_i hrunning
  rw [not_not, hsoft.state] at hrunning
  simp only []
  set t : Server :=
    if receiver.datagram.header.type = .response then
      s.modifyPeer p fun peer =>
        { peer with flags := { peer.flags with processingResponse := false } }
    else s with ht
  have hflag : Acts s₀ i s t ∧ SoftSame s₀ t ∧ t.receivers = s.receivers ∧ t.tick = s.tick := by
    rw [ht]
    split
    · have hone : Soft (fun peer : Peer =>
          { peer with flags := { peer.flags with processingResponse := false } }) (s.peers p) :=
        ⟨rfl, rfl, rfl, rfl, rfl, rfl, rfl, rfl, rfl, rfl⟩
      exact ⟨acts_soft _ hone, hsoft.modifyPeer hone, rfl, rfl⟩
    · exact ⟨Acts.refl s, hsoft, rfl, rfl⟩
  obtain ⟨hto, hsame, hreceivers, htick⟩ := hflag
  refine hto.trans ?_
  cases packet with
  | none => exact acts_recvFailed hsame hrunning (.inl rfl) (hcompletion hrunning)
  | some packet =>
      simp only []
      by_cases hvalid : t.validatePacket p packet = true
      · simp only [hvalid, if_true]
        have htime : Soft (fun peer : Peer => { peer with lastRecvTime := receiver.recvTime })
            (t.peers p) := ⟨rfl, rfl, rfl, rfl, rfl, rfl, rfl, rfl, rfl, rfl⟩
        refine (acts_soft _ htime).trans (acts_recvPacket (hsame.modifyPeer htime) hrunning
          (hcompletion hrunning) hevent ?_ ?_ ?_)
        · exact (congrFun hreceivers id).trans hfree
        · exact hid.trans htick.ge
        · exact hp.trans htick.ge
      · simp only [hvalid]
        refine acts_recvFailed hsame hrunning (.inr ?_) (hcompletion hrunning)
        cases packet with
        | keepAlive clientId => exact hpacket clientId rfl
        | _ => exact absurd rfl hvalid

theorem acts_receiverComplete {id : ReceiverId} {workerFailed : Bool} (hnamed : Named s₀)
    (hevent : i.event = .receiverComplete id workerFailed) :
    Acts s₀ i s₀ (receiverComplete i.env s₀ id workerFailed) := by
  unfold receiverComplete
  cases hreceiver : s₀.receivers id with
  | none => exact Acts.refl s₀
  | some receiver =>
      simp only []
      have htake : Acts s₀ i s₀ (s₀.setReceiver id none) :=
        Acts.single (a := .take id) ⟨workerFailed, hevent⟩
      refine htake.trans ?_
      by_cases hcanceled : receiver.canceled = true
      · simp only [hcanceled, if_true]
        exact Acts.refl _
      rw [if_neg hcanceled]
      cases hpeer : receiver.peer with
      | none => exact Acts.refl _
      | some p =>
          simp only []
          have herase : Soft (fun peer : Peer => { peer with receivers := peer.receivers.erase id })
              ((s₀.setReceiver id none).peers p) :=
            ⟨rfl, rfl, rfl, rfl, rfl, rfl, rfl, rfl, rfl, rfl⟩
          have hsoft : SoftSame s₀ ((s₀.setReceiver id none).modifyPeer p fun peer =>
              { peer with receivers := peer.receivers.erase id }) :=
            ((SoftSame.refl s₀).setReceiver id none).modifyPeer herase
          refine (acts_soft _ herase).trans
            (acts_handleReceiverComplete hsoft ?_ ?_ hevent ?_ ?_ ?_)
          · intro clientId hpacket
            split at hpacket
            · exact absurd hpacket (by simp)
            · exact type_of_processEntry hpacket
          · intro hrunning
            simp [completion, hevent, hreceiver, hrunning, hcanceled, hpeer]
          · simp [modifyPeer, setReceiver]
          · exact hnamed.receivers id receiver hreceiver
          · exact hnamed.peers id receiver p hreceiver hpeer

theorem acts_senderComplete (id : SenderId) (failed : Bool) :
    Acts s₀ i s (senderComplete s id failed) := by
  unfold senderComplete
  cases s.senders id with
  | none => exact Acts.refl s
  | some sender =>
      simp only []
      have hdrop : Acts s₀ i s (s.setSender id none) := Acts.single (a := .drop id) trivial
      refine hdrop.trans ?_
      split
      · exact Acts.refl _
      cases sender.peer with
      | none => exact Acts.refl _
      | some p =>
          simp only []
          refine (acts_soft (p := p) (fun peer : Peer =>
            { peer with senders := peer.senders.erase id })
            ⟨rfl, rfl, rfl, rfl, rfl, rfl, rfl, rfl, rfl, rfl⟩).trans ?_
          split
          · exact Acts.refl _
          split
          · exact Acts.refl _
          split
          · unfold sentDenied
            split
            · exact Acts.refl _
            · rename_i hstate
              rw [not_not] at hstate
              exact acts_release .denied hstate
          · exact Acts.refl _

theorem modifyPeer_self {t : Server} {f : Peer → Peer} (h : f (t.peers p) = t.peers p) :
    t.modifyPeer p f = t := by
  simp [modifyPeer, h]

theorem modifyPeer_modifyPeer (s : Server) (p : PeerId) (f g : Peer → Peer) :
    (s.modifyPeer p f).modifyPeer p g = s.modifyPeer p fun peer => g (f peer) := by
  simp [modifyPeer]

theorem protectReplay_rejected {peer : Peer} {sequence : UInt64}
    (h : (peer.protectReplay sequence).2 = false) : (peer.protectReplay sequence).1 = peer := by
  simp only [Peer.protectReplay, ReplayProtector.protectReplay] at h ⊢
  split
  · rfl
  · split
    · rename_i hold hfree
      simp [hold, hfree] at h
    · rfl

theorem acts_submitReceiver {datagram : Datagram} {t : Server}
    (hpass : Enabled s₀ i s (.pass p datagram)) (ht : t = act i.env s (.pass p datagram))
    (hfree : s.receivers s.tick = none) (haddressed : Addressed s i p datagram) :
    Acts s₀ i s (if i.env.acquireReceiver then submitReceiver i.env t p datagram else t) := by
  subst ht
  have hto : Acts s₀ i s (act i.env s (.pass p datagram)) := Acts.single hpass
  split
  · refine hto.trans (Acts.single (a := .submit p datagram) ?_)
    obtain ⟨hlog, hfresh, hreceivers, -, hstate⟩ := hpass
    have htick := act_tick i.env s (.pass p datagram)
    have hrecord : (act i.env s (.pass p datagram)).log = s.log ++ [.validated s.tick p datagram] :=
      act_log i.env s (.pass p datagram)
    have hpeer : ((act i.env s (.pass p datagram)).peers p).address = (s.peers p).address ∧
        ((act i.env s (.pass p datagram)).peers p).state = (s.peers p).state := by
      simp only [act]
      split <;> simp [note, modifyPeer, Peer.protectReplay]
    have hprotocol : (act i.env s (.pass p datagram)).protocolId = s.protocolId := by
      simp only [act]
      split <;> rfl
    refine ⟨?_, ?_, ?_, ?_, ?_⟩
    · rw [htick, hrecord]
      simp
    · rw [htick]
      simp only [act]
      split <;> exact hfree
    · intro q other
      rw [htick, hrecord, List.mem_append, List.mem_singleton]
      rintro (hmem | hmem)
      · exact hfresh _ hmem (by simp [effectNames])
      · exact absurd hmem (by simp)
    · intro htype
      rw [if_pos htype] at hstate
      simp [act, htype, note, modifyPeer, Peer.protectReplay, hstate.1]
    · unfold Addressed
      rw [hpeer.1, hpeer.2, hprotocol]
      exact haddressed
  · exact hto

/-- The end of `pomelo_protocol_socket_accept`: the datagram of a peer that was found is handed
to a receiver. -/
def validated (env : Env) (datagram : Datagram) : Server × Option PeerId → Server
  | (s, none) => s
  | (s, some p) =>
      let s := s.note (.validated s.tick p datagram)
      if env.acquireReceiver then submitReceiver env s p datagram else s

/-- A datagram arrives. -/
theorem acts_accept {address : Address} {datagram : Datagram} (h : Table s₀)
    (hfresh : FreshLog s₀) (hunnamed : Unnamed s₀ s₀.tick) (hfree : s₀.receivers s₀.tick = none)
    (hevent : i.event = .accept address datagram) :
    Acts s₀ i s₀ (accept i.env s₀ address datagram) := by
  unfold accept validateIncoming
  by_cases hrunning : s₀.state ≠ .running
  · simp only [if_pos hrunning]
    exact Acts.refl s₀
  rw [if_neg hrunning]
  by_cases hlength : ¬ datagram.validateBodyLength = true
  · simp only [if_pos hlength]
    exact Acts.refl s₀
  rw [if_neg hlength]
  cases datagram with
  | request sequence body =>
      simp only [validateRequest]
      by_cases hmapped : (s₀.peerAddressMap address).isSome = true
      · simp only [if_pos hmapped]
        exact Acts.refl s₀
      have hnone : s₀.peerAddressMap address = none := by simpa using hmapped
      rw [if_neg hmapped]
      by_cases hprotocol : body.protocolId ≠ s₀.protocolId
      · simp only [if_pos hprotocol]
        exact Acts.refl s₀
      rw [if_neg hprotocol]
      by_cases hacquire : i.env.acquirePeer = true
      · rw [if_pos hacquire]
        by_cases hpush : i.env.pushEntry = true
        · simp only [if_pos hpush]
          have hnew : Acts s₀ i s₀ (act i.env s₀ (.acquire address)) :=
            Acts.single ⟨rfl, hnone, hunnamed, hfresh, not_not.mp hrunning, _, hevent⟩
          refine hnew.trans (acts_submitReceiver (p := s₀.tick)
            (s := act i.env s₀ (.acquire address)) ?_ rfl hfree ?_)
          · refine ⟨rfl, hfresh, rfl, ⟨address, hevent, ?_⟩, ?_⟩
            · simp [Datagram.header, PacketType.isProtected]
            rw [if_neg (by simp [Datagram.header, PacketType.isProtected])]
            left
            simp [act, modifyPeer, pushBack, PeerListName.state]
          · refine ⟨⟨address, hevent, ?_⟩, ?_, ?_⟩
            · simp [act, modifyPeer, pushBack, acquirePeer]
            · simp [Datagram.header]
            · rintro _ _ ⟨⟩
              exact not_not.mp hprotocol
        · simp only [if_neg hpush]
          exact Acts.single (a := .discard address) ⟨rfl, hnone, hunnamed⟩
      · simp only [if_neg hacquire]
        exact Acts.refl s₀
  | packet header body =>
      simp only [validatePacketOf]
      cases hmapped : s₀.peerAddressMap address with
      | none => exact Acts.refl s₀
      | some p =>
          simp only []
          have haddress : ∃ a, i.event = .accept a (.packet header body) ∧
              (s₀.peers p).address = some a := ⟨address, hevent, (h.mapped address p hmapped).1⟩
          have hprotected : header.type.isProtected = true →
              Acts s₀ i s₀ (validated i.env (.packet header body)
                (if (s₀.peers p).state ≠ .connected then (s₀, none)
                else
                  let r := (s₀.peers p).protectReplay header.sequence
                  (s₀.modifyPeer p fun _ => r.1, if r.2 then some p else none))) := by
            intro htype
            by_cases hstate : (s₀.peers p).state ≠ .connected
            · simp only [if_pos hstate]
              exact Acts.refl s₀
            rw [if_neg hstate]
            rw [not_not] at hstate
            by_cases haccept : ((s₀.peers p).protectReplay header.sequence).2 = true
            · simp only [haccept, if_true]
              refine acts_submitReceiver ?_ ?_ hfree ⟨haddress, ?_, by simp⟩
              · refine ⟨rfl, hfresh, rfl, ⟨address, hevent, fun _ => ⟨hmapped, hstate⟩⟩, ?_⟩
                simp [Datagram.header, htype, hstate, haccept]
              · simp [act, Datagram.header, htype, modifyPeer]
              · intro hresponse
                simp only [Datagram.header] at hresponse
                simp [hresponse, PacketType.isProtected] at htype
            · have hself := protectReplay_rejected (by simpa using haccept)
              simp only [haccept]
              rw [modifyPeer_self hself]
              exact Acts.refl s₀
          cases htype : header.type with
          | response =>
              simp only []
              by_cases hstate : (s₀.peers p).state ≠ .challenge
              · simp only [if_pos hstate]
                exact Acts.refl s₀
              rw [if_neg hstate]
              rw [not_not] at hstate
              by_cases hprocessing : (s₀.peers p).flags.processingResponse = true
              · simp only [if_pos hprocessing]
                exact Acts.refl s₀
              simp only [if_neg hprocessing]
              refine acts_submitReceiver ?_ ?_ hfree ⟨haddress, fun _ => hstate, by simp⟩
              · refine ⟨rfl, hfresh, rfl, ⟨address, hevent, ?_⟩, ?_⟩
                · simp [Datagram.header, htype, PacketType.isProtected]
                rw [if_neg (by simp [Datagram.header, htype, PacketType.isProtected])]
                exact .inr hstate
              · simp [act, Datagram.header, htype, PacketType.isProtected]
          | payload => exact hprotected (by simp [htype, PacketType.isProtected])
          | keepAlive => exact hprotected (by simp [htype, PacketType.isProtected])
          | disconnect => exact hprotected (by simp [htype, PacketType.isProtected])
          | request => exact Acts.refl s₀
          | denied => exact Acts.refl s₀
          | challenge => exact Acts.refl s₀

theorem acts_sendOwn {type : PacketType} {body : PacketBody}
    (hstate : (s.peers p).state = .connected ∨ (s.peers p).state = .disconnecting)
    (hnumber : (p, type, (s.peers p).sequenceNumber) ∈ s₀.ownNumbers i)
    (hctx : (s.peers p).cryptoCtx = (s₀.peers p).cryptoCtx)
    (hbody : type = .keepAlive →
      (s.peers p).state = .connected ∧ body = .keepAlive (s.peers p).clientId) :
    Acts s₀ i s (sendOwn i.env s p type body) :=
  Acts.single (a := .own p type body) ⟨hstate, hnumber, cryptoCtx_congr hctx, hbody⟩

theorem sendOwn_peers (env : Env) (s : Server) (p q : PeerId) (type : PacketType)
    (body : PacketBody) :
    ∃ senders, (sendOwn env s p type body).peers q =
      { (s.modifyPeer p fun peer => peer.nextSequence.1).peers q with senders := senders } := by
  simp only [sendOwn]
  split
  · exact dispatch_peers _ _ _ _ _ _ _
  · exact ⟨_, rfl⟩

theorem sendOwn_peers_ne (env : Env) (s : Server) {p q : PeerId} (type : PacketType)
    (body : PacketBody) (hq : q ≠ p) : (sendOwn env s p type body).peers q = s.peers q := by
  simp only [sendOwn, dispatch]
  split
  · split <;> simp [note, modifyPeer, setSender, hq]
  · simp [modifyPeer, hq]

theorem acts_socketSend {views : List (List UInt8)} (hevent : i.event = .send p views) :
    Acts s₀ i s₀ (socketSend i.env s₀ p views) := by
  unfold socketSend
  by_cases hsendable : s₀.sendable p views = true
  · rw [if_pos hsendable]
    have hstate : (s₀.peers p).state = .connected := by
      simp only [sendable, Bool.and_eq_true, decide_eq_true_eq] at hsendable
      exact hsendable.1.1.1.1.2
    unfold presendPacket
    by_cases hconfirmed : (s₀.peers p).flags.confirmed = true
    · rw [if_pos hconfirmed]
      refine acts_sendOwn (.inl hstate) ?_ rfl (by simp)
      simp [ownNumbers, hevent, hsendable, hconfirmed]
    · rw [if_neg hconfirmed]
      refine (acts_sendOwn (.inl hstate) ?_ rfl fun _ => ⟨hstate, rfl⟩).trans
        (acts_sendOwn ?_ ?_ ?_ (by simp))
      · simp [ownNumbers, hevent, hsendable, hconfirmed]
      all_goals
        obtain ⟨senders, hpeer⟩ := sendOwn_peers i.env s₀ p p .keepAlive
          (.keepAlive (s₀.peers p).clientId)
      · left
        rw [hpeer, modifyPeer_peers, if_pos rfl]
        exact hstate
      · rw [hpeer, modifyPeer_peers, if_pos rfl]
        simp [ownNumbers, hevent, hsendable, hconfirmed, Peer.nextSequence]
      · rw [hpeer, modifyPeer_peers, if_pos rfl]
        rfl
  · rw [if_neg hsendable]
    exact Acts.refl s₀

theorem acts_lose {x : PeerEntry} (h : Table s) (hx : x ∈ s.lists .connected) :
    Acts s₀ i s (((((s.modifyPeer x.peer fun peer => { peer with state := .disconnected }).note
      (.disconnected x.peer)).removeEntry .connected x)).releasePeer x.peer) := by
  have hstate := h.member_state .connected x hx
  have hentry : ((s.note (.disconnected x.peer)).peers x.peer).entry = some x :=
    h.member_entry .connected x hx
  have hnote : Acts s₀ i s (s.note (.disconnected x.peer)) :=
    Acts.single (a := .note (.disconnected x.peer)) (h.named .connected x hx)
  have hrelease : Acts s₀ i (s.note (.disconnected x.peer))
      (((s.note (.disconnected x.peer)).removeEntry .connected x).releasePeer x.peer) := by
    rw [← unlink_eq .connected hentry]
    exact acts_release .connected hstate
  have heq : ((((s.modifyPeer x.peer fun peer => { peer with state := .disconnected }).note
      (.disconnected x.peer)).removeEntry .connected x)).releasePeer x.peer =
        ((s.note (.disconnected x.peer)).removeEntry .connected x).releasePeer x.peer := by
    rw [← releasePeer_modifyPeer ((s.note (.disconnected x.peer)).removeEntry .connected x) x.peer
      (fun peer => { peer with state := .disconnected }) rfl rfl rfl rfl]
    rfl
  rw [heq]
  exact hnote.trans hrelease

theorem acts_disconnectPeer (h : Table s) : Acts s₀ i s (disconnectPeer i.env s p) := by
  unfold disconnectPeer
  by_cases hstate : (s.peers p).state ≠ .connected
  · rw [if_pos hstate]
    exact Acts.refl s
  rw [if_neg hstate]
  rw [not_not] at hstate
  have hp : p ≤ s.tick := h.peer_le .connected hstate
  by_cases hpush : i.env.pushEntry = true
  · simp only [if_pos hpush]
    have hpark : Acts s₀ i s (act i.env s (.park p)) := Acts.single hstate
    refine hpark.trans (Acts.single (a := .note (.disconnected p)) ?_)
    exact hp.trans (act_tick i.env s (.park p)).ge
  · simp only [if_neg hpush]
    obtain ⟨x, hentry, hmem, rfl⟩ :=
      h.entry_of_state (show _ = PeerListName.connected.state from hstate)
    rw [unlink_eq .connected hentry]
    exact acts_lose h hmem

end Handlers

section Loops

variable {s₀ : Server} {i : Input}

theorem acts_foldl {name : PeerListName} {body : Server → PeerEntry → Server}
    (hbody : ∀ t x, Table t → x ∈ t.lists name → x ∈ s₀.lists name →
      t.peers x.peer = s₀.peers x.peer →
        Acts s₀ i t (body t x) ∧ ∀ q, q ≠ x.peer → (body t x).peers q = t.peers q)
    {entries : List PeerEntry} {t : Server} (h : Table t) (hnodup : entries.Nodup)
    (hentries : ∀ x ∈ entries, x ∈ t.lists name ∧ x ∈ s₀.lists name ∧
      t.peers x.peer = s₀.peers x.peer) :
    Acts s₀ i t (entries.foldl body t) := by
  induction entries generalizing t with
  | nil => exact Acts.refl t
  | cons x entries ih =>
      rw [List.foldl_cons]
      obtain ⟨hx, hx₀, hpeer⟩ := hentries x (List.mem_cons_self ..)
      obtain ⟨hacts, hframe⟩ := hbody t x h hx hx₀ hpeer
      have htable := hacts.table h
      obtain ⟨hnotin, hnodup⟩ := List.nodup_cons.mp hnodup
      refine hacts.trans (ih htable hnodup ?_)
      intro y hy
      obtain ⟨hyt, hy₀, hypeer⟩ := hentries y (List.mem_cons_of_mem _ hy)
      have hne : y.peer ≠ x.peer := by
        intro heq
        exact hnotin (h.entry_unique hyt hx heq ▸ hy)
      have hsame := hframe y.peer hne
      refine ⟨?_, hy₀, hsame.trans hypeer⟩
      -- the entry of `y` is still in the list of its state
      have hstate : ((body t x).peers y.peer).state = name.state := by
        rw [hsame]
        exact h.member_state name y hyt
      obtain ⟨z, hz, hzy⟩ := htable.listed y.peer name hstate
      have hzentry := htable.member_entry name z hz
      rw [hzy, hsame, h.member_entry name y hyt] at hzentry
      exact Option.some.inj hzentry ▸ hz

theorem acts_loop {name : PeerListName} {body : Server → PeerEntry → Server} (h : Table s₀)
    (hbody : ∀ t x, Table t → x ∈ t.lists name → x ∈ s₀.lists name →
      t.peers x.peer = s₀.peers x.peer →
        Acts s₀ i t (body t x) ∧ ∀ q, q ≠ x.peer → (body t x).peers q = t.peers q) :
    Acts s₀ i s₀ ((s₀.lists name).foldl body s₀) :=
  acts_foldl hbody h (h.nodup name) fun _ hx => ⟨hx, hx, rfl⟩

theorem releasePeer_peers_ne (t : Server) {p q : PeerId} (hq : q ≠ p) :
    (t.releasePeer p).peers q = t.peers q := by
  rw [releasePeer_peers, if_neg hq]

theorem acts_broadcastKeepAlive (h : Table s₀) (hevent : i.event = .keepAliveTick) :
    Acts s₀ i s₀ (broadcastKeepAlive i.env s₀) := by
  refine acts_loop h ?_
  intro t x ht hx hx₀ hpeer
  unfold keepAliveEntry
  simp only []
  by_cases htime : i.env.hrtime - (t.peers x.peer).lastRecvTime ≤ (t.peers x.peer).timeoutNs
  · rw [if_pos htime]
    have hstate := ht.member_state .connected x hx
    refine ⟨acts_sendOwn (.inl hstate) ?_ ?_ fun _ => ⟨hstate, rfl⟩, ?_⟩
    · rw [hpeer] at htime ⊢
      simp only [ownNumbers, hevent, List.mem_map, List.mem_filter, decide_eq_true_eq]
      exact ⟨x, ⟨hx₀, htime⟩, rfl⟩
    · rw [hpeer]
    · exact fun q hq => sendOwn_peers_ne i.env t .keepAlive _ hq
  · rw [if_neg htime]
    refine ⟨acts_lose ht hx, ?_⟩
    intro q hq
    rw [releasePeer_peers_ne _ hq]
    simp [removeEntry, note, modifyPeer, hq]

theorem acts_broadcastDisconnect (h : Table s₀) (hevent : i.event = .disconnectTick) :
    Acts s₀ i s₀ (broadcastDisconnect i.env s₀) := by
  refine acts_loop h ?_
  intro t x ht hx hx₀ hpeer
  unfold disconnectEntry
  simp only []
  have hstate := ht.member_state .disconnecting x hx
  have hcount : Soft (fun peer : Peer =>
      { peer with remainRedundantDisconnect := (t.peers x.peer).remainRedundantDisconnect - 1 })
      (t.peers x.peer) := ⟨rfl, rfl, rfl, rfl, rfl, rfl, rfl, rfl, rfl, rfl⟩
  set u := t.modifyPeer x.peer fun peer =>
    { peer with remainRedundantDisconnect := (t.peers x.peer).remainRedundantDisconnect - 1 }
    with hu
  have hupeer : u.peers x.peer = { t.peers x.peer with
      remainRedundantDisconnect := (t.peers x.peer).remainRedundantDisconnect - 1 } := by
    simp [hu, modifyPeer]
  have huframe : ∀ q, q ≠ x.peer → u.peers q = t.peers q := by
    intro q hq
    simp [hu, modifyPeer, hq]
  by_cases hremain : 0 < (t.peers x.peer).remainRedundantDisconnect
  · rw [if_pos hremain]
    refine ⟨(acts_soft _ hcount).trans (acts_sendOwn ?_ ?_ ?_ (by simp)), ?_⟩
    · right
      rw [modifyPeer_peers, if_pos rfl]
      exact hstate
    · rw [modifyPeer_peers, if_pos rfl]
      rw [hpeer] at hremain
      simp only [ownNumbers, hevent, List.mem_map, List.mem_filter, decide_eq_true_eq, hpeer]
      exact ⟨x, ⟨hx₀, hremain⟩, rfl⟩
    · rw [modifyPeer_peers, if_pos rfl, hpeer]
    · exact fun q hq => (sendOwn_peers_ne i.env u .disconnect _ hq).trans (huframe q hq)
  · rw [if_neg hremain]
    have hentry : (u.peers x.peer).entry = some x := by
      rw [hupeer]
      exact ht.member_entry .disconnecting x hx
    refine ⟨(acts_soft _ hcount).trans ?_, ?_⟩
    · rw [← unlink_eq .disconnecting hentry]
      refine acts_release .disconnecting ?_
      rw [hupeer]
      exact hstate
    · exact fun q hq => (releasePeer_peers_ne _ hq).trans (huframe q hq)

theorem acts_scanChallengingPeers (h : Table s₀) :
    Acts s₀ i s₀ (scanChallengingPeers i.env s₀) := by
  refine acts_loop h ?_
  intro t x ht hx _ _
  unfold scanEntry
  simp only []
  split
  · rw [← unlink_eq .challenging (ht.member_entry .challenging x hx)]
    refine ⟨acts_release .challenging (ht.member_state .challenging x hx), ?_⟩
    intro q hq
    rw [releasePeer_peers_ne _ hq, unlink_peers]
  · exact ⟨Acts.refl t, fun _ _ => rfl⟩

end Loops

section Step

variable {s : Server}

/-- The state in which the callback of a step runs. -/
abbrev ticked (s : Server) : Server := { s with tick := s.tick + 1 }

theorem Table.ticked (h : Table s) : Table s.ticked :=
  ⟨h.nodup, h.member_state, h.member_entry, h.member_mapped, h.listed, h.mapped,
    fun name x hx => (h.named name x hx).trans (Nat.le_succ _)⟩

theorem Named.ticked (hn : Named s) : Named s.ticked :=
  ⟨fun effect heffect n hmem => (hn.log effect heffect n hmem).trans (Nat.le_succ _),
    fun id r hr => (hn.receivers id r hr).trans (Nat.le_succ _),
    fun id r p hr hp => (hn.peers id r p hr hp).trans (Nat.le_succ _)⟩

theorem step_acts (h : Table s) (hn : Named s) (i : Input) :
    Acts s.ticked i s.ticked (step s i) := by
  have hticked := h.ticked
  unfold step handle
  cases hevent : i.event with
  | accept address datagram =>
      refine acts_accept hticked hn.freshLog ?_ ?_ hevent
      · intro name x hx
        exact Nat.ne_of_lt (Nat.lt_succ_of_le (h.named name x hx))
      · rw [Option.eq_none_iff_forall_not_mem]
        intro r hr
        exact absurd (hn.receivers _ r hr) (by simp)
  | receiverComplete id workerFailed => exact acts_receiverComplete hn.ticked hevent
  | senderComplete id failed => exact acts_senderComplete id failed
  | send p views => exact acts_socketSend hevent
  | disconnectPeer p => exact acts_disconnectPeer hticked
  | keepAliveTick => exact acts_broadcastKeepAlive hticked hevent
  | disconnectTick => exact acts_broadcastDisconnect hticked hevent
  | scanTick => exact acts_scanChallengingPeers hticked
  | stop =>
      simp only [socketStop]
      split
      · exact Acts.refl _
      · rename_i hrunning
        rw [not_not] at hrunning
        exact Acts.single (a := .stopping) hrunning
  | stopDeferred =>
      simp only []
      split
      · exact Acts.single (a := .stopped) trivial
      · exact Acts.refl _
  | idle => exact Acts.refl _

theorem invariant_step {I : Server → Prop} (h : Table s) (hn : Named s) (i : Input)
    (hticked : I s.ticked)
    (hact : ∀ t a, Table t → Named t → I t → Enabled s.ticked i t a → I (act i.env t a)) :
    I (step s i) := by
  have hall := (step_acts h hn i).invariant (I := fun t => Table t ∧ Named t ∧ I t)
    (fun t a ⟨htable, hnamed, ht⟩ ha =>
      ⟨htable.act ha, hnamed.act htable ha, hact t a htable hnamed ht ha⟩)
    ⟨h.ticked, hn.ticked, hticked⟩
  exact hall.2.2

theorem table_step (h : Table s) (hn : Named s) (i : Input) :
    Table (step s i) ∧ Named (step s i) :=
  invariant_step (I := fun t => Table t ∧ Named t) h hn i ⟨h.ticked, hn.ticked⟩
    fun _ _ htable hnamed _ ha => ⟨htable.act ha, hnamed.act htable ha⟩

/-- The step of a completion: small writes, then the handler of the packet. -/
theorem step_completion {i : Input} {p : PeerId} {datagram : Datagram} {packet : Packet}
    (h : s.completion i = some (p, datagram, some packet))
    (hvalid : ∀ t : Server, t.validatePacket p packet = true) :
    ∃ id t, SoftSame s.ticked t ∧ step s i = recvPacket i.env t p id datagram packet := by
  obtain ⟨id, workerFailed, receiver, hevent, hreceiver, hrunning, hcanceled, hpeer,
    rfl, hpacket⟩ :=
    completion_eq_some h
  unfold step handle receiverComplete handleReceiverComplete
  simp only [hevent, hreceiver, hcanceled, hpeer, ← hpacket, hvalid, Bool.false_eq_true,
    if_false, if_true]
  rw [if_neg (by simp [modifyPeer, setReceiver, hrunning])]
  refine ⟨id, _, ?_, rfl⟩
  have hwrite : ∀ t, SoftSame s.ticked t → SoftSame s.ticked
      (t.modifyPeer p fun peer => { peer with lastRecvTime := receiver.recvTime }) :=
    fun t ht => ht.modifyPeer ⟨rfl, rfl, rfl, rfl, rfl, rfl, rfl, rfl, rfl, rfl⟩
  have herase : SoftSame s.ticked ((s.ticked.setReceiver id none).modifyPeer p fun peer =>
      { peer with receivers := peer.receivers.erase id }) :=
    ((SoftSame.refl s.ticked).setReceiver id none).modifyPeer
      ⟨rfl, rfl, rfl, rfl, rfl, rfl, rfl, rfl, rfl, rfl⟩
  refine hwrite _ ?_
  split
  · exact herase.modifyPeer ⟨rfl, rfl, rfl, rfl, rfl, rfl, rfl, rfl, rfl, rfl⟩
  · exact herase

/-- The answer of a challenge connects the peer. -/
theorem step_of_connecting {i : Input} {p : PeerId} (h : s.connecting i = some p) :
    ∃ t, SoftSame s.ticked t ∧ SameTable (act i.env t (.connect p)) (step s i) := by
  unfold connecting at h
  split at h
  · rename_i datagram tokenSequence token hcompletion
    split at h
    · rename_i hready
      obtain rfl := Option.some.inj h
      obtain ⟨hstate, hclient, hdata, hpush⟩ := hready
      obtain ⟨id, t, hsoft, hstep⟩ := step_completion hcompletion fun _ => rfl
      have hpeer := hsoft.peers
      refine ⟨t, hsoft, ?_⟩
      rw [hstep]
      simp only [recvPacket, recvResponse]
      rw [if_neg (by simp [(hpeer _).state, hstate]),
        if_neg (by simp [(hpeer _).clientId, hclient]),
        if_neg (by simp [(hpeer _).userData, hdata]), if_pos hpush]
      exact (sameTable_sendOwn i.env _ _ _ _).trans (sameTable_note _ _)
    · cases h
  · cases h

end Step

end Server

end Protocol

end PomeloUdp
