import PomeloUdp.Protocol.ServerStep
import PomeloUdp.Utils.MapRefinement

/-!
# The server over its hash map

`peer_address_map` is a `pomelo_map_t`, whose growth can lose entries. A `MappedServer` is a server
that looks addresses up in that map: `addressCalls` lists the calls a callback makes on it, in
order, and a step of the `MappedServer` makes them. No callback looks an address up after it has
written the map.

`step_server` connects it with `Server`: as long as no growth of the map displaces an entry
(`keepsPlaces`), every step is that of the server over the finite map. Twelve addresses never make
the map grow (`keepsPlaces_run_of_few`).
-/

namespace PomeloUdp

namespace Protocol

open Machine Utils

section Key

/-- `pomelo_address_hash` as the map takes it: a 32-bit number, extended with its sign. The bits of
an ip are its words in memory. -/
def addressHash : Address → ℕ
  | .ipv4 ip port => ((ip ^^^ port.toBitVec.setWidth 32).signExtend 64).toNat
  | .ipv6 ip port =>
      ((ip.extractLsb' 0 32 ^^^ ip.extractLsb' 32 32 ^^^ ip.extractLsb' 64 32 ^^^
        ip.extractLsb' 96 32 ^^^ port.toBitVec.setWidth 32).signExtend 64).toNat

/-- The comparison against the load factor 0.75, for sizes that a float holds exactly. -/
def defaultOverLoad (size nbuckets : ℕ) : Bool := decide (3 * nbuckets < 4 * size)

/-- The options of `peer_address_map`, with the comparison against the load factor. -/
def addressOptions (overLoad : ℕ → ℕ → Bool) : MapOptions Address where
  hash := addressHash
  compare a b := decide (a = b)
  compare_refl a := decide_eq_true rfl
  compare_symm a b h := by
    rw [decide_eq_true_eq] at h ⊢
    exact h.symm
  compare_trans a b c hab hbc := by
    rw [decide_eq_true_eq] at hab hbc ⊢
    exact hab.trans hbc
  hash_eq a b h := by rw [of_decide_eq_true h]
  overLoad := overLoad
  initialBuckets := 0

end Key

/-- A call on `peer_address_map` that writes it. -/
abbrev AddressCall := MapOp Address PeerId

/-- The calls on the finite map. -/
def writeAddresses (map : Address → Option PeerId) : List AddressCall → Address → Option PeerId
  | [] => map
  | .set a p :: calls => writeAddresses (Function.update map a (some p)) calls
  | .del a :: calls => writeAddresses (Function.update map a none) calls
  | .clear :: calls => writeAddresses (fun _ => none) calls
  | _ :: calls => writeAddresses map calls

theorem writeAddresses_append (map : Address → Option PeerId) (calls calls' : List AddressCall) :
    writeAddresses map (calls ++ calls') = writeAddresses (writeAddresses map calls) calls' := by
  induction calls generalizing map with
  | nil => rfl
  | cons call calls ih =>
      cases call with
      | _ => exact ih _

namespace Server

section Calls

variable (env : Env) (s : Server) (p : PeerId)

/-- `pomelo_map_del` in `pomelo_protocol_server_release_peer`. -/
def releaseCalls : List AddressCall := (s.peers p).address.toList.map .del

/-- The calls of `pomelo_protocol_server_deny_peer`. -/
def denyCalls : List AddressCall :=
  match (s.peers p).state with
  | .request | .challenge =>
      if env.pushEntry then
        if env.acquirePacket p .denied then [] else s.releaseCalls p
      else s.releaseCalls p
  | _ => []

/-- The calls of `pomelo_protocol_server_recv_request`. -/
def requestCalls : List AddressCall :=
  if (s.peers p).state ≠ .request then []
  else if s.maxClients ≤ (s.lists .connected).length then denyCalls env s p
  else if env.pushEntry then []
  else s.releaseCalls p

/-- The calls of `pomelo_protocol_server_recv_response`. -/
def responseCalls (token : Crypto.ChallengeToken) : List AddressCall :=
  if (s.peers p).state ≠ .challenge then []
  else if (s.peers p).clientId ≠ token.clientId then []
  else if (s.peers p).userData ≠ token.userData then []
  else if env.pushEntry then []
  else s.releaseCalls p

/-- The calls of `pomelo_protocol_server_recv_disconnect`. -/
def recvDisconnectCalls : List AddressCall :=
  if (s.peers p).state ≠ .connected then [] else s.releaseCalls p

/-- The calls of `pomelo_protocol_socket_recv_packet`. -/
def recvPacketCalls : Packet → List AddressCall
  | .request _ _ _ => requestCalls env s p
  | .response _ token => responseCalls env s p token
  | .disconnect => recvDisconnectCalls s p
  | _ => []

/-- The calls of `pomelo_protocol_server_recv_failed`. -/
def recvFailedCalls : PacketType → List AddressCall
  | .request => if (s.peers p).state ≠ .request then [] else denyCalls env s p
  | _ => []

/-- The calls of `pomelo_protocol_socket_handle_receiver_complete`. -/
def handleReceiverCalls (receiver : Receiver) (packet : Option Packet) : List AddressCall :=
  if s.state ≠ .running then []
  else
    match packet with
    | none => recvFailedCalls env s p receiver.datagram.header.type
    | some packet =>
        if s.validatePacket p packet then recvPacketCalls env s p packet
        else recvFailedCalls env s p receiver.datagram.header.type

/-- The calls of the completion of a receiver. -/
def receiverCalls (id : ReceiverId) (workerFailed : Bool) : List AddressCall :=
  match s.receivers id with
  | none => []
  | some receiver =>
      if receiver.canceled then []
      else
        match receiver.peer with
        | none => []
        | some p =>
            handleReceiverCalls env s p receiver
              (if workerFailed then none else processEntry receiver.cryptoCtx receiver.datagram)

/-- The calls of the completion of a sender. -/
def senderCalls (id : SenderId) (failed : Bool) : List AddressCall :=
  match s.senders id with
  | none => []
  | some sender =>
      if sender.canceled then []
      else
        match sender.peer with
        | none => []
        | some p =>
            if s.state ≠ .running then []
            else if failed then []
            else if sender.type = .denied then
              if (s.peers p).state ≠ .denied then [] else s.releaseCalls p
            else []

/-- The calls of `pomelo_protocol_socket_accept`, with the name of the peer it may acquire. -/
def acceptCalls (address : Address) (datagram : Datagram) : List AddressCall :=
  if s.state ≠ .running then []
  else if ¬ datagram.validateBodyLength then []
  else
    match datagram with
    | .request _ body =>
        if (s.peerAddressMap address).isSome then []
        else if body.protocolId ≠ s.protocolId then []
        else if env.acquirePeer then
          if env.pushEntry then [.set address s.tick] else [.set address s.tick, .del address]
        else []
    | .packet _ _ => []

/-- The calls of `pomelo_protocol_server_disconnect_peer`. -/
def disconnectPeerCalls : List AddressCall :=
  if (s.peers p).state ≠ .connected then []
  else if env.pushEntry then []
  else s.releaseCalls p

/-- The calls for an entry in `pomelo_protocol_server_broadcast_keep_alive`. -/
def keepAliveCalls (entry : PeerEntry) : List AddressCall :=
  if env.hrtime - (s.peers entry.peer).lastRecvTime ≤ (s.peers entry.peer).timeoutNs then []
  else s.releaseCalls entry.peer

/-- The calls for an entry in `pomelo_protocol_server_broadcast_disconnect`. -/
def disconnectCalls (entry : PeerEntry) : List AddressCall :=
  if 0 < (s.peers entry.peer).remainRedundantDisconnect then [] else s.releaseCalls entry.peer

/-- The calls for an entry in `pomelo_protocol_server_scan_challenging_peers`. -/
def scanCalls (entry : PeerEntry) : List AddressCall :=
  if (s.peers entry.peer).timeoutNs < env.hrtime - (s.peers entry.peer).createdTimeNs then
    s.releaseCalls entry.peer
  else []

/-- The calls of a loop over the entries of a list. -/
def loopCalls (body : Server → PeerEntry → Server) (calls : Server → PeerEntry → List AddressCall) :
    Server → List PeerEntry → List AddressCall
  | _, [] => []
  | s, entry :: entries => calls s entry ++ loopCalls body calls (body s entry) entries

/-- The calls of a callback. -/
def handleCalls : Event → List AddressCall
  | .accept address datagram => acceptCalls env s address datagram
  | .receiverComplete id workerFailed => receiverCalls env s id workerFailed
  | .senderComplete id failed => senderCalls s id failed
  | .disconnectPeer p => disconnectPeerCalls env s p
  | .keepAliveTick =>
      loopCalls (keepAliveEntry env) (keepAliveCalls env) s (s.lists .connected)
  | .disconnectTick =>
      loopCalls (disconnectEntry env) disconnectCalls s (s.lists .disconnecting)
  | .scanTick => loopCalls (scanEntry env) (scanCalls env) s (s.lists .challenging)
  | .stopDeferred => if s.state = .stopping then [.clear] else []
  | _ => []

/-- The calls of a step on `peer_address_map`, in order. -/
def addressCalls (i : Input) : List AddressCall :=
  handleCalls i.env { s with tick := s.tick + 1 } i.event

end Calls

/-- The states between which the address map is not written, nor the address of a peer. -/
structure SameAddresses (s t : Server) : Prop where
  map : t.peerAddressMap = s.peerAddressMap
  address : ∀ p, (t.peers p).address = (s.peers p).address

namespace SameAddresses

variable {s t : Server} {p : PeerId}

theorem refl (s : Server) : SameAddresses s s := ⟨rfl, fun _ => rfl⟩

theorem of_sameTable (h : SameAddresses s t) {u : Server} (h' : SameTable t u) :
    SameAddresses s u :=
  ⟨h'.map.trans h.map, fun p => (h'.address p).trans (h.address p)⟩

theorem unlink (h : SameAddresses s t) (name : PeerListName) (p : PeerId) :
    SameAddresses s (t.unlink name p) := by
  obtain ⟨lists, hunlink⟩ := exists_unlink t name p
  rw [hunlink]
  exact ⟨h.map, h.address⟩

theorem modifyPeer (h : SameAddresses s t) {f : Peer → Peer}
    (hf : (f (t.peers p)).address = (t.peers p).address) :
    SameAddresses s (t.modifyPeer p f) := by
  refine ⟨h.map, fun q => ?_⟩
  rw [modifyPeer_peers]
  split
  · subst q
    exact hf.trans (h.address p)
  · exact h.address q

theorem pushBack (h : SameAddresses s t) (name : PeerListName) (p : PeerId) :
    SameAddresses s (t.pushBack name p) := by
  refine ⟨h.map, fun q => ?_⟩
  rw [pushBack_peers]
  split
  · subst q
    exact h.address p
  · exact h.address q

theorem releasePeer (h : SameAddresses s t) (p : PeerId) :
    (t.releasePeer p).peerAddressMap = writeAddresses s.peerAddressMap (s.releaseCalls p) := by
  rw [releaseCalls, ← h.address p]
  unfold Server.releasePeer
  simp only [cancelSendersAndReceivers, Function.update_self]
  cases (t.peers p).address with
  | none => exact h.map
  | some address => exact congrArg (Function.update · address none) h.map

end SameAddresses

section Handlers

variable {env : Env} {s t : Server} {p : PeerId}

theorem peerAddressMap_denyPeer (h : SameAddresses s t)
    (hstate : (t.peers p).state = (s.peers p).state) :
    (denyPeer env t p).peerAddressMap = writeAddresses s.peerAddressMap (denyCalls env s p) := by
  have hdeny : ∀ name, (if env.pushEntry then
      if (sendDenied env ((t.unlink name p).pushBack .denied p) p).2 then
        (sendDenied env ((t.unlink name p).pushBack .denied p) p).1
      else
        ((sendDenied env ((t.unlink name p).pushBack .denied p) p).1.unlink .denied p).releasePeer p
    else (t.unlink name p).releasePeer p).peerAddressMap =
      writeAddresses s.peerAddressMap (if env.pushEntry then
        if env.acquirePacket p .denied then [] else s.releaseCalls p
      else s.releaseCalls p) := by
    intro name
    have hunlink := h.unlink name p
    by_cases hpush : env.pushEntry = true
    · rw [if_pos hpush, if_pos hpush]
      have hsent := (hunlink.pushBack .denied p).of_sameTable (sameTable_sendDenied env _ p)
      have hanswer : (sendDenied env ((t.unlink name p).pushBack .denied p) p).2 =
          env.acquirePacket p .denied := by
        unfold sendDenied
        dsimp only
        split
        · next hpacket => exact hpacket.symm
        · next hpacket => exact (Bool.eq_false_iff.mpr hpacket).symm
      rw [hanswer]
      split
      · exact hsent.map
      · exact (hsent.unlink .denied p).releasePeer p
    · rw [if_neg hpush, if_neg hpush]
      exact hunlink.releasePeer p
  unfold denyPeer denyCalls
  rw [hstate]
  cases (s.peers p).state with
  | request => exact hdeny .requesting
  | challenge => exact hdeny .challenging
  | _ => exact h.map

theorem peerAddressMap_recvRequest (h : SameAddresses s t) (hsoft : SoftSame s t)
    (token : ConnectToken) :
    (recvRequest env t p token).peerAddressMap =
      writeAddresses s.peerAddressMap (requestCalls env s p) := by
  unfold recvRequest requestCalls
  rw [(hsoft.peers p).state, hsoft.maxClients, hsoft.lists]
  split
  · exact h.map
  split
  · exact peerAddressMap_denyPeer h (hsoft.peers p).state
  have hkept : SameAddresses s
      ((t.modifyPeer p fun peer => peer.adoptToken token env.hrtime).unlink .requesting p) :=
    SameAddresses.unlink (h.modifyPeer rfl) _ _
  dsimp only
  split
  · exact (((hkept.pushBack .challenging p).of_sameTable (sameTable_note _ _)).of_sameTable
      (sameTable_sendChallenge env _ p _)).map
  · exact hkept.releasePeer p

theorem peerAddressMap_recvResponse (h : SameAddresses s t) (hsoft : SoftSame s t)
    (token : Crypto.ChallengeToken) :
    (recvResponse env t p token).peerAddressMap =
      writeAddresses s.peerAddressMap (responseCalls env s p token) := by
  have hpeer := hsoft.peers p
  unfold recvResponse responseCalls
  rw [hpeer.state, hpeer.clientId, hpeer.userData]
  split
  · exact h.map
  split
  · exact h.map
  split
  · exact h.map
  have hkept := h.unlink .challenging p
  dsimp only
  split
  · have hconnected : SameAddresses s
        (((t.unlink .challenging p).pushBack .connected p).modifyPeer p fun peer =>
          { peer with flags := { peer.flags with confirmed := false } }) :=
      SameAddresses.modifyPeer (hkept.pushBack .connected p) rfl
    exact ((hconnected.of_sameTable (sameTable_sendOwn env _ p _ _)).of_sameTable
      (sameTable_note _ _)).map
  · exact hkept.releasePeer p

theorem peerAddressMap_recvDisconnect (h : SameAddresses s t) (hsoft : SoftSame s t) :
    (recvDisconnect t p).peerAddressMap =
      writeAddresses s.peerAddressMap (recvDisconnectCalls s p) := by
  unfold recvDisconnect recvDisconnectCalls
  rw [(hsoft.peers p).state]
  split
  · exact h.map
  · have hnoted : SameAddresses s
        ((t.modifyPeer p fun peer =>
          { peer with state := .disconnected }).note (.disconnected p)) :=
      (h.modifyPeer rfl).of_sameTable (sameTable_note _ _)
    exact (hnoted.unlink .connected p).releasePeer p

theorem peerAddressMap_recvPacket (h : SameAddresses s t) (hsoft : SoftSame s t)
    (id : ReceiverId) (datagram : Datagram) (packet : Packet) :
    (recvPacket env t p id datagram packet).peerAddressMap =
      writeAddresses s.peerAddressMap (recvPacketCalls env s p packet) := by
  cases packet with
  | request protocolId expireTimestamp token => exact peerAddressMap_recvRequest h hsoft _
  | response tokenSequence token => exact peerAddressMap_recvResponse h hsoft token
  | disconnect => exact peerAddressMap_recvDisconnect h hsoft
  | keepAlive clientId =>
      simp only [recvPacket, recvKeepAlive]
      repeat' split
      all_goals exact h.map
  | _ => exact h.map

theorem peerAddressMap_recvFailed (h : SameAddresses s t) (hsoft : SoftSame s t)
    (type : PacketType) :
    (recvFailed env t p type).peerAddressMap =
      writeAddresses s.peerAddressMap (recvFailedCalls env s p type) := by
  cases type with
  | request =>
      simp only [recvFailed, recvFailedCalls, recvRequestFailed]
      rw [(hsoft.peers p).state]
      split
      · exact h.map
      · exact peerAddressMap_denyPeer h (hsoft.peers p).state
  | _ => exact h.map

theorem peerAddressMap_handleReceiverComplete (h : SameAddresses s t) (hsoft : SoftSame s t)
    (id : ReceiverId) (receiver : Receiver) (packet : Option Packet) :
    (handleReceiverComplete env t p id receiver packet).peerAddressMap =
      writeAddresses s.peerAddressMap (handleReceiverCalls env s p receiver packet) := by
  unfold handleReceiverComplete handleReceiverCalls
  rw [hsoft.state]
  split
  · exact h.map
  dsimp only
  set u := if receiver.datagram.header.type = .response then
      t.modifyPeer p fun peer =>
        { peer with flags := { peer.flags with processingResponse := false } }
    else t with hu
  have hanswered : SameAddresses s u ∧ SoftSame s u := by
    rw [hu]
    split
    · exact ⟨h.modifyPeer rfl,
        hsoft.modifyPeer ⟨rfl, rfl, rfl, rfl, rfl, rfl, rfl, rfl, rfl, rfl⟩⟩
    · exact ⟨h, hsoft⟩
  obtain ⟨hmap, hfields⟩ := hanswered
  cases packet with
  | none => exact peerAddressMap_recvFailed hmap hfields _
  | some packet =>
      have hvalidate : u.validatePacket p packet = s.validatePacket p packet := by
        cases packet with
        | keepAlive clientId =>
            simp only [validatePacket, (hfields.peers p).state, (hfields.peers p).clientId]
        | _ => rfl
      dsimp only
      rw [hvalidate]
      split
      · exact peerAddressMap_recvPacket (hmap.modifyPeer rfl)
          (hfields.modifyPeer ⟨rfl, rfl, rfl, rfl, rfl, rfl, rfl, rfl, rfl, rfl⟩) id _ packet
      · exact peerAddressMap_recvFailed hmap hfields _

theorem peerAddressMap_receiverComplete (s : Server) (id : ReceiverId) (workerFailed : Bool) :
    (receiverComplete env s id workerFailed).peerAddressMap =
      writeAddresses s.peerAddressMap (receiverCalls env s id workerFailed) := by
  unfold receiverComplete receiverCalls
  cases s.receivers id with
  | none => rfl
  | some receiver =>
      dsimp only
      by_cases hcanceled : receiver.canceled = true
      · rw [if_pos hcanceled, if_pos hcanceled]
        rfl
      · rw [if_neg hcanceled, if_neg hcanceled]
        cases receiver.peer with
        | none => rfl
        | some p =>
            refine peerAddressMap_handleReceiverComplete (SameAddresses.modifyPeer ?_ rfl)
              (SoftSame.modifyPeer ?_ ⟨rfl, rfl, rfl, rfl, rfl, rfl, rfl, rfl, rfl, rfl⟩)
              id receiver _
            · exact (SameAddresses.refl s).of_sameTable (sameTable_setReceiver s id none)
            · exact (SoftSame.refl s).setReceiver id none

theorem peerAddressMap_senderComplete (s : Server) (id : SenderId) (failed : Bool) :
    (senderComplete s id failed).peerAddressMap =
      writeAddresses s.peerAddressMap (senderCalls s id failed) := by
  unfold senderComplete senderCalls
  cases s.senders id with
  | none => rfl
  | some sender =>
      dsimp only
      by_cases hcanceled : sender.canceled = true
      · rw [if_pos hcanceled, if_pos hcanceled]
        rfl
      · rw [if_neg hcanceled, if_neg hcanceled]
        cases sender.peer with
        | none => rfl
        | some p =>
            dsimp only
            set u := (s.setSender id none).modifyPeer p fun peer =>
              { peer with senders := peer.senders.erase id } with hu
            have htaken : SameAddresses s u := SameAddresses.modifyPeer
              ((SameAddresses.refl s).of_sameTable (sameTable_setSender s id none)) rfl
            have hstate : (u.peers p).state = (s.peers p).state := by
              rw [hu, modifyPeer_peers, if_pos rfl]
              rfl
            rw [show u.state = s.state from rfl]
            split
            · rfl
            split
            · rfl
            split
            · unfold sentDenied
              rw [hstate]
              split
              · rfl
              · exact (htaken.unlink .denied p).releasePeer p
            · rfl

theorem peerAddressMap_accept (s : Server) (address : Address) (datagram : Datagram) :
    (accept env s address datagram).peerAddressMap =
      writeAddresses s.peerAddressMap (acceptCalls env s address datagram) := by
  have hvalidated : (validateIncoming env s address datagram).1.peerAddressMap =
      writeAddresses s.peerAddressMap (acceptCalls env s address datagram) := by
    unfold validateIncoming acceptCalls
    split
    · rfl
    split
    · rfl
    cases datagram with
    | request sequence body =>
        simp only [validateRequest]
        split
        · rfl
        split
        · rfl
        split
        · split
          · rfl
          · have hreleased := (SameAddresses.refl (s.acquirePeer env address)).releasePeer s.tick
            have hcalls : (s.acquirePeer env address).releaseCalls s.tick = [.del address] := by
              simp [releaseCalls, acquirePeer]
            rw [hcalls] at hreleased
            exact hreleased
        · rfl
    | packet header body =>
        simp only [validatePacketOf]
        repeat' split
        all_goals rfl
  unfold accept
  rcases hresult : validateIncoming env s address datagram with ⟨t, _ | p⟩
  · rw [hresult] at hvalidated
    exact hvalidated
  · rw [hresult] at hvalidated
    dsimp only
    split
    · exact hvalidated
    · exact hvalidated

theorem peerAddressMap_disconnectPeer (s : Server) (p : PeerId) :
    (disconnectPeer env s p).peerAddressMap =
      writeAddresses s.peerAddressMap (disconnectPeerCalls env s p) := by
  unfold disconnectPeer disconnectPeerCalls
  split
  · rfl
  have hkept := (SameAddresses.refl s).unlink .connected p
  dsimp only
  split
  · exact hkept.map
  · have hnoted : SameAddresses s (((s.unlink .connected p).modifyPeer p fun peer =>
        { peer with state := .disconnected }).note (.disconnected p)) :=
      (hkept.modifyPeer rfl).of_sameTable (sameTable_note _ _)
    exact hnoted.releasePeer p

end Handlers

section Loops

variable {env : Env}

theorem SameAddresses.removeEntry {s t : Server} (h : SameAddresses s t) (name : PeerListName)
    (entry : PeerEntry) : SameAddresses s (t.removeEntry name entry) := ⟨h.map, h.address⟩

theorem peerAddressMap_keepAliveEntry (s : Server) (entry : PeerEntry) :
    (keepAliveEntry env s entry).peerAddressMap =
      writeAddresses s.peerAddressMap (keepAliveCalls env s entry) := by
  simp only [keepAliveEntry, keepAliveCalls]
  split
  · exact (sameTable_sendOwn env s _ _ _).map
  · have hnoted : SameAddresses s ((s.modifyPeer entry.peer fun peer =>
        { peer with state := .disconnected }).note (.disconnected entry.peer)) :=
      (SameAddresses.modifyPeer (.refl s) rfl).of_sameTable (sameTable_note _ _)
    exact (hnoted.removeEntry .connected entry).releasePeer entry.peer

theorem peerAddressMap_disconnectEntry (s : Server) (entry : PeerEntry) :
    (disconnectEntry env s entry).peerAddressMap =
      writeAddresses s.peerAddressMap (disconnectCalls s entry) := by
  simp only [disconnectEntry, disconnectCalls]
  have hcounted : SameAddresses s (s.modifyPeer entry.peer fun peer =>
      { peer with
        remainRedundantDisconnect := (s.peers entry.peer).remainRedundantDisconnect - 1 }) :=
    SameAddresses.modifyPeer (.refl s) rfl
  split
  · exact (hcounted.of_sameTable (sameTable_sendOwn env _ _ _ _)).map
  · exact (hcounted.removeEntry .disconnecting entry).releasePeer entry.peer

theorem peerAddressMap_scanEntry (s : Server) (entry : PeerEntry) :
    (scanEntry env s entry).peerAddressMap =
      writeAddresses s.peerAddressMap (scanCalls env s entry) := by
  simp only [scanEntry, scanCalls]
  split
  · exact (SameAddresses.removeEntry (.refl s) .challenging entry).releasePeer entry.peer
  · rfl

theorem peerAddressMap_foldl {body : Server → PeerEntry → Server}
    {calls : Server → PeerEntry → List AddressCall}
    (hbody : ∀ s entry, (body s entry).peerAddressMap =
      writeAddresses s.peerAddressMap (calls s entry)) (s : Server) (entries : List PeerEntry) :
    (entries.foldl body s).peerAddressMap =
      writeAddresses s.peerAddressMap (loopCalls body calls s entries) := by
  induction entries generalizing s with
  | nil => rfl
  | cons entry entries ih =>
      rw [List.foldl_cons, ih, loopCalls, writeAddresses_append, hbody]

end Loops

theorem peerAddressMap_step (s : Server) (i : Input) :
    (step s i).peerAddressMap = writeAddresses s.peerAddressMap (addressCalls s i) := by
  unfold step addressCalls handle handleCalls
  cases i.event with
  | accept address datagram => exact peerAddressMap_accept _ address datagram
  | receiverComplete id workerFailed => exact peerAddressMap_receiverComplete _ id workerFailed
  | senderComplete id failed => exact peerAddressMap_senderComplete _ id failed
  | send p views =>
      simp only [socketSend, presendPacket]
      split
      · split
        · exact (sameTable_sendOwn _ _ _ _ _).map
        · exact ((sameTable_sendOwn _ _ _ _ _).trans (sameTable_sendOwn _ _ _ _ _)).map
      · rfl
  | disconnectPeer p => exact peerAddressMap_disconnectPeer _ p
  | keepAliveTick => exact peerAddressMap_foldl peerAddressMap_keepAliveEntry _ _
  | disconnectTick => exact peerAddressMap_foldl peerAddressMap_disconnectEntry _ _
  | scanTick => exact peerAddressMap_foldl peerAddressMap_scanEntry _ _
  | stop =>
      simp only [socketStop]
      split <;> rfl
  | stopDeferred =>
      dsimp only
      split
      · rfl
      · rfl
  | idle => rfl

end Server

/-- `pomelo_protocol_server_t` with its `peer_address_map`, in which addresses are looked up. -/
structure MappedServer where
  server : Server
  /-- `1.0f * size / nbuckets > load_factor` in the map. -/
  overLoad : ℕ → ℕ → Bool
  addressMap : Utils.Map Address PeerId
  lookup : server.peerAddressMap = addressMap.get (addressOptions overLoad)

namespace MappedServer

/-- The options of the map. -/
def options (m : MappedServer) : MapOptions Address := addressOptions m.overLoad

/-- A server over a map. -/
def ofMap (server : Server) (overLoad : ℕ → ℕ → Bool) (map : Utils.Map Address PeerId) :
    MappedServer where
  server := { server with peerAddressMap := map.get (addressOptions overLoad) }
  overLoad := overLoad
  addressMap := map
  lookup := rfl

/-- The server after `pomelo_protocol_server_on_alloc` and its start. -/
def start (overLoad : ℕ → ℕ → Bool) (o : ServerOptions) : MappedServer :=
  ofMap (Server.start o) overLoad (Utils.Map.create (addressOptions overLoad))

/-- The map after the calls. -/
def write (m : MappedServer) (calls : List AddressCall) : Utils.Map Address PeerId :=
  run (next (Utils.Map.step m.options)) m.addressMap calls

/-- One step: the callback, and its calls on the map. -/
def step (m : MappedServer) (i : Input) : MappedServer :=
  ofMap (Server.step m.server i) m.overLoad (m.write (m.server.addressCalls i))

/-- No growth of the map in the step displaces an entry. -/
def keepsPlaces (m : MappedServer) (i : Input) : Prop :=
  Along (next (Utils.Map.step m.options)) (Utils.Map.GrowthKeepsPlaces m.options) m.addressMap
    (m.server.addressCalls i)

instance (m : MappedServer) (i : Input) : Decidable (m.keepsPlaces i) :=
  inferInstanceAs (Decidable (Along _ (Utils.Map.GrowthKeepsPlaces m.options) _ _))

/-- The map stands for a finite map. -/
def Represented (m : MappedServer) : Prop :=
  ∃ addresses, Utils.Map.Represents m.options m.addressMap addresses

section Simulation

variable {m : MappedServer} {i : Input} {is : List Input}

theorem represented_start (overLoad : ℕ → ℕ → Bool) (o : ServerOptions) :
    Represented (start overLoad o) := ⟨∅, Utils.Map.represents_create _⟩

theorem server_start (overLoad : ℕ → ℕ → Bool) (o : ServerOptions) :
    (start overLoad o).server = Server.start o := by
  have hnothing : (Utils.Map.create (addressOptions overLoad) : Utils.Map Address PeerId).get
      (addressOptions overLoad) = fun _ => none := by
    funext address
    exact (Utils.Map.represents_create _).lookup address
  change { Server.start o with
    peerAddressMap := (Utils.Map.create (addressOptions overLoad) : Utils.Map Address PeerId).get
      (addressOptions overLoad) } = _
  rw [hnothing]
  rfl

theorem get_call {o : MapOptions Address} {map : Utils.Map Address PeerId}
    {addresses : SpecMap o.toKeyFunctions PeerId}
    (hcompare : ∀ a b, o.compare a b = decide (a = b))
    (h : Utils.Map.Represents o map addresses) {call : AddressCall}
    (hcall : Utils.Map.GrowthKeepsPlaces o map call) :
    (next (Utils.Map.step o) map call).get o = writeAddresses (map.get o) [call] := by
  have hnext := (h.step hcall).1
  funext a
  change (Utils.Map.step o map call).1.get o a = _
  rw [hnext.lookup a]
  cases call with
  | set address p =>
      simp only [SpecMap.step, writeAddresses, Utils.Map.lookup_insert_key, hcompare,
        decide_eq_true_eq, Function.update_apply, eq_comm (a := a), h.lookup]
  | del address =>
      simp only [SpecMap.step, writeAddresses, Utils.Map.lookup_erase_key, hcompare,
        decide_eq_true_eq, Function.update_apply, eq_comm (a := a), h.lookup]
  | clear => rfl
  | get address => exact (h.lookup a).symm
  | has address => exact (h.lookup a).symm

theorem get_calls {o : MapOptions Address} {map : Utils.Map Address PeerId}
    (hcompare : ∀ a b, o.compare a b = decide (a = b))
    (h : ∃ addresses, Utils.Map.Represents o map addresses) {calls : List AddressCall}
    (hcalls : Along (next (Utils.Map.step o)) (Utils.Map.GrowthKeepsPlaces o) map calls) :
    (run (next (Utils.Map.step o)) map calls).get o = writeAddresses (map.get o) calls ∧
      ∃ addresses, Utils.Map.Represents o (run (next (Utils.Map.step o)) map calls) addresses := by
  induction calls generalizing map with
  | nil => exact ⟨rfl, h⟩
  | cons call calls ih =>
      obtain ⟨addresses, h⟩ := h
      obtain ⟨hcall, hcalls⟩ := hcalls
      have hnext : ∃ addresses,
          Utils.Map.Represents o (next (Utils.Map.step o) map call) addresses :=
        ⟨_, (h.step hcall).1⟩
      obtain ⟨hget, hrepresents⟩ := ih hnext hcalls
      refine ⟨?_, hrepresents⟩
      rw [run_cons, hget, get_call hcompare h hcall, ← writeAddresses_append]
      rfl

theorem step_server (h : m.Represented) (hi : m.keepsPlaces i) :
    (m.step i).server = m.server.step i ∧ (m.step i).Represented := by
  obtain ⟨hget, hrepresents⟩ := get_calls (fun _ _ => rfl) h hi
  refine ⟨?_, hrepresents⟩
  have hmap : (m.write (m.server.addressCalls i)).get m.options =
      (m.server.step i).peerAddressMap := by
    rw [Server.peerAddressMap_step, m.lookup]
    exact hget
  change { m.server.step i with
    peerAddressMap := (m.write (m.server.addressCalls i)).get m.options } = _
  rw [hmap]

theorem Represented.mapped_of_mem (h : m.Represented) {bucket : ℕ}
    (hbucket : bucket < m.addressMap.nbuckets) {e : Entry Address PeerId}
    (he : e ∈ (m.addressMap.buckets bucket).elements) :
    m.server.peerAddressMap e.key = some e.value := by
  obtain ⟨addresses, h⟩ := h
  rw [m.lookup]
  exact h.get_of_mem hbucket he

theorem run_server (h : m.Represented) {P : Server → Input → Prop}
    (his : Along step (fun m i => P m.server i ∧ m.keepsPlaces i) m is) :
    (run step m is).server = run Server.step m.server is ∧ (run step m is).Represented ∧
      Along Server.step P m.server is := by
  induction is generalizing m with
  | nil => exact ⟨rfl, h, trivial⟩
  | cons i is ih =>
      obtain ⟨⟨hP, hi⟩, his⟩ := his
      obtain ⟨hserver, hrepresented⟩ := step_server h hi
      obtain ⟨hrun, hend, halong⟩ := ih hrepresented his
      rw [hserver] at hrun halong
      exact ⟨hrun, hend, hP, halong⟩

end Simulation

section Capacity

/-- The addresses in the map and those that the step may add are at most `limit`. -/
def Few (limit : ℕ) (m : MappedServer) (i : Input) : Prop :=
  (m.server.addressCalls i).countP Utils.Map.adds = 0 ∨
    m.addressMap.size + (m.server.addressCalls i).countP Utils.Map.adds ≤ limit

theorem keepsPlaces_run_of_few {overLoad : ℕ → ℕ → Bool} (hload : ∀ size nbuckets, size ≤ 12 →
      16 ≤ nbuckets → overLoad size nbuckets = false) {o : ServerOptions} {is : List Input}
    (his : Along step (Few 12) (start overLoad o) is) :
    Along step keepsPlaces (start overLoad o) is := by
  refine along_run (I := fun m => m.overLoad = overLoad ∧ 16 ≤ m.addressMap.nbuckets) ?_ ?_
    ⟨rfl, ?_⟩ his
  · rintro m i ⟨hoverLoad, hbuckets⟩ -
    exact ⟨hoverLoad, hbuckets.trans (Utils.Map.nbuckets_le_run _ _)⟩
  · rintro m i ⟨rfl, hbuckets⟩ (hshut | hfew)
    · exact Utils.Map.keepsPlaces_of_movesNothing (Utils.Map.movesNothing_of_shut _ hshut)
    · exact Utils.Map.keepsPlaces_of_movesNothing
        (Utils.Map.movesNothing_of_few hload hbuckets hfew)
  · change 16 ≤ (Utils.Map.create (addressOptions overLoad) : Utils.Map Address PeerId).nbuckets
    rw [Utils.Map.create, Utils.Map.resizeBuckets_nbuckets _ (by simp [addressOptions])]
    exact le_rfl

end Capacity

end MappedServer

end Protocol

end PomeloUdp
