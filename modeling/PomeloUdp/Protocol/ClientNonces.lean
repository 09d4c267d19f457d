import PomeloUdp.Protocol.Client
import PomeloUdp.Protocol.NonceUniqueness

/-!
# Nonces of the packets a client encrypts

A client encrypts all its packets under the client-to-server key of its token, with the sequence
number of its one peer as the nonce. The peer is made by the start of the client and is never made
anew, so the numbers only go up, and a callback takes one of them at most. The request is not
among these packets: the backend has sealed it.
-/

namespace PomeloUdp

namespace Protocol

open Crypto Machine

namespace Client

/-- The key and the nonce of a packet that the client encrypted. -/
def nonceOf : ClientEffect → Option (Key × UInt64)
  | .emitted (.packet _ body) => body.sealedUnder
  | _ => none

/-- The keys and nonces of the packets that the client encrypted so far. -/
def nonces (c : Client) : List (Key × UInt64) := c.log.filterMap nonceOf

/-- The packets carry rising numbers, all of them below `n` and below the next number of the
peer, which is at most `n`. -/
structure Numbered (key : Key) (n : ℕ) (c : Client) : Prop where
  rising : c.nonces.Pairwise fun x y => x.2 < y.2
  sealed : ∀ header body, .emitted (.packet header body) ∈ c.log →
    SealedBody.sealedUnder body = some (key, header.sequence)
  below : ∀ x ∈ c.nonces, x.1 = key ∧ x.2.toNat < n
  peer : ∀ peer, c.peer = some peer →
    (peer.cryptoCtx.getD .zero).packetEncryptKey = key ∧ peer.sequenceNumber.toNat ≤ n ∧
      ∀ x ∈ c.nonces, x.2 < peer.sequenceNumber

namespace Numbered

variable {key : Key} {n : ℕ} {c c' : Client} {env : ClientEnv}

section Operations

theorem mono (h : Numbered key n c) {m : ℕ} (hle : n ≤ m) : Numbered key m c where
  rising := h.rising
  sealed := h.sealed
  below x hx := ⟨(h.below x hx).1, (h.below x hx).2.trans_le hle⟩
  peer peer hpeer :=
    ⟨(h.peer peer hpeer).1, (h.peer peer hpeer).2.1.trans hle, (h.peer peer hpeer).2.2⟩

theorem congr (h : Numbered key n c) (hpeer : c'.peer = c.peer) (hlog : c'.log = c.log) :
    Numbered key n c' := by
  have hnonces : c'.nonces = c.nonces := by rw [nonces, hlog, nonces]
  refine ⟨?_, ?_, ?_, fun peer hpeer' => ?_⟩
  · rw [hnonces]
    exact h.rising
  · rw [hlog]
    exact h.sealed
  · rw [hnonces]
    exact h.below
  · rw [hpeer] at hpeer'
    rw [hnonces]
    exact h.peer peer hpeer'

theorem modifyPeer (h : Numbered key n c) {f : Peer → Peer}
    (hctx : ∀ peer, (f peer).cryptoCtx = peer.cryptoCtx)
    (hsequence : ∀ peer, (f peer).sequenceNumber = peer.sequenceNumber) :
    Numbered key n (c.modifyPeer f) := by
  refine ⟨h.rising, h.sealed, h.below, fun peer hpeer => ?_⟩
  obtain ⟨peer', hpeer', rfl⟩ := Option.map_eq_some_iff.mp hpeer
  rw [hctx, hsequence]
  exact h.peer peer' hpeer'

theorem note (h : Numbered key n c) {effect : ClientEffect}
    (heffect : ∀ datagram, effect = .emitted datagram → ∃ sequence body,
      datagram = .request sequence body) : Numbered key n (c.note effect) := by
  have hnone : nonceOf effect = none := by
    cases effect with
    | emitted datagram =>
        obtain ⟨sequence, body, rfl⟩ := heffect datagram rfl
        rfl
    | _ => rfl
  have hnonces : (c.note effect).nonces = c.nonces := by
    rw [nonces, Client.note, List.filterMap_append, List.filterMap_cons_none hnone,
      List.filterMap_nil, List.append_nil, nonces]
  refine ⟨?_, fun header body hmem => ?_, ?_, fun peer hpeer => ?_⟩
  · rw [hnonces]
    exact h.rising
  · rcases List.mem_append.mp hmem with hold | hnew
    · exact h.sealed header body hold
    · obtain ⟨sequence, other, hrequest⟩ := heffect _ (List.mem_singleton.mp hnew).symm
      cases hrequest
  · rw [hnonces]
    exact h.below
  · rw [hnonces]
    exact h.peer peer hpeer

theorem noteEncrypted (h : Numbered key n c) {header : Header} {body : SealedBody}
    (hsealed : SealedBody.sealedUnder body = some (key, header.sequence))
    (hlt : header.sequence.toNat < n) (habove : ∀ x ∈ c.nonces, x.2 < header.sequence)
    (hpeer : ∀ peer, c.peer = some peer → header.sequence < peer.sequenceNumber) :
    Numbered key n (c.note (.emitted (.packet header body))) := by
  have hnonce : nonceOf (.emitted (.packet header body)) = some (key, header.sequence) := hsealed
  have hnonces : (c.note (.emitted (.packet header body))).nonces =
      c.nonces ++ [(key, header.sequence)] := by
    rw [nonces, Client.note, List.filterMap_append, List.filterMap_cons_some hnonce,
      List.filterMap_nil, nonces]
  refine ⟨?_, fun header' body' hmem => ?_, fun x hx => ?_, fun peer hpeer' => ?_⟩
  · rw [hnonces, List.pairwise_append]
    refine ⟨h.rising, List.pairwise_singleton _ _, fun x hx y hy => ?_⟩
    rw [List.mem_singleton.mp hy]
    exact habove x hx
  · rcases List.mem_append.mp hmem with hold | hnew
    · exact h.sealed header' body' hold
    · cases List.mem_singleton.mp hnew
      exact hsealed
  · rw [hnonces] at hx
    rcases List.mem_append.mp hx with hold | hnew
    · exact h.below x hold
    · rw [List.mem_singleton.mp hnew]
      exact ⟨rfl, hlt⟩
  · obtain ⟨hkey, hle, hahead⟩ := h.peer peer hpeer'
    refine ⟨hkey, hle, fun x hx => ?_⟩
    rw [hnonces] at hx
    rcases List.mem_append.mp hx with hold | hnew
    · exact hahead x hold
    · rw [List.mem_singleton.mp hnew]
      exact hpeer peer hpeer'

theorem modifyEmitter (h : Numbered key n c) (name : EmitterName) (f : Emitter → Emitter) :
    Numbered key n (c.modifyEmitter name f) := h.congr rfl rfl

theorem setSender (h : Numbered key n c) (id : SenderId) (sender : Option Sender) :
    Numbered key n (c.setSender id sender) := h.congr rfl rfl

theorem setReceiver (h : Numbered key n c) (id : ReceiverId) (receiver : Option Receiver) :
    Numbered key n (c.setReceiver id receiver) := h.congr rfl rfl

theorem fault (h : Numbered key n c) : Numbered key n c.fault := h.congr rfl rfl

theorem socketStop (h : Numbered key n c) : Numbered key n c.socketStop := by
  unfold Client.socketStop
  split
  · exact h
  · exact h.congr rfl rfl

theorem emitterStop (h : Numbered key n c) (name : EmitterName) :
    Numbered key n (c.emitterStop name) := h.modifyEmitter name _

theorem emitterStart (h : Numbered key n c) (env : ClientEnv) (name : EmitterName) :
    Numbered key n (c.emitterStart env name).1 := by
  unfold Client.emitterStart
  split
  · exact h
  · split
    · exact h.congr rfl rfl
    · exact h

theorem releasePeer (h : Numbered key n c) (peer : Peer) : Numbered key n (c.releasePeer peer) :=
  ⟨h.rising, h.sealed, h.below, fun _ hnone => absurd hnone.symm (Option.some_ne_none _)⟩

theorem stop (h : Numbered key n c) : Numbered key n c.stop := by
  unfold Client.stop
  split
  · exact h
  · exact ((((h.emitterStop _).emitterStop _).emitterStop _).emitterStop _).releasePeer _

theorem retryAddress (h : Numbered key n c) : Numbered key n c.retryAddress := h.stop.fault

end Operations

section Sending

theorem toNat_next {sequence : UInt64} (hle : sequence.toNat ≤ n) (hlt : n + 1 < 2 ^ 64) :
    (sequence + 1).toNat = sequence.toNat + 1 := by
  rw [UInt64.toNat_add, UInt64.toNat_one]
  exact Nat.mod_eq_of_lt (by omega)

theorem nextSequence (h : Numbered key n c) (hlt : n + 1 < 2 ^ 64) :
    Numbered key (n + 1) (c.modifyPeer fun peer => peer.nextSequence.1) := by
  have hmono := h.mono (Nat.le_succ n)
  refine ⟨hmono.rising, hmono.sealed, hmono.below, fun peer hpeer => ?_⟩
  obtain ⟨peer', hpeer', rfl⟩ := Option.map_eq_some_iff.mp hpeer
  obtain ⟨hkey, hle, hahead⟩ := h.peer peer' hpeer'
  have hnext := toNat_next hle hlt
  refine ⟨hkey, ?_, fun x hx => ?_⟩
  · change (peer'.sequenceNumber + 1).toNat ≤ n + 1
    omega
  · change x.2 < peer'.sequenceNumber + 1
    have hbelow := UInt64.lt_iff_toNat_lt.mp (hahead x hx)
    rw [UInt64.lt_iff_toNat_lt]
    omega

theorem dispatchOwn (h : Numbered key n c) {peer : Peer} (hpeer : c.peer = some peer)
    (hlt : n + 1 < 2 ^ 64) (type : PacketType) (body : PacketBody) :
    Numbered key (n + 1) (dispatch env (c.modifyPeer fun peer => peer.nextSequence.1)
      (sealedPacket peer ⟨type, peer.sequenceNumber⟩ body)) := by
  obtain ⟨hkey, hle, hahead⟩ := h.peer peer hpeer
  have hnext := h.nextSequence hlt
  unfold Client.dispatch
  split
  · have hsent := ((hnext.setSender ⟨c.tick, peerName, type⟩
      (some ⟨some peerName, type, false⟩)).modifyPeer
        (f := fun peer => { peer with senders := peer.senders ++ [⟨c.tick, peerName, type⟩] })
        (fun _ => rfl) fun _ => rfl)
    refine hsent.noteEncrypted ?_ (Nat.lt_succ_of_le hle) hahead fun peer' hpeer' => ?_
    · rw [← hkey]
      rfl
    · rw [Client.modifyPeer, Client.setSender, Client.modifyPeer, hpeer] at hpeer'
      cases hpeer'
      change peer.sequenceNumber < peer.sequenceNumber + 1
      rw [UInt64.lt_iff_toNat_lt, toNat_next hle hlt]
      exact Nat.lt_succ_self _
  · exact hnext

theorem sendOwn (h : Numbered key n c) {peer : Peer} (hpeer : c.peer = some peer)
    (hlt : n + 1 < 2 ^ 64) (type : PacketType) (body : PacketBody) :
    Numbered key (n + 1) (sendOwn env c peer type body) := by
  unfold Client.sendOwn
  dsimp only
  split
  · exact h.dispatchOwn hpeer hlt type body
  · exact (h.nextSequence hlt).socketStop

theorem sendRequest (h : Numbered key n c) : Numbered key n (sendRequest env c) := by
  unfold Client.sendRequest
  split
  · split
    · exact h.fault
    · unfold Client.dispatch
      split
      · refine note ((h.setSender _ _).modifyPeer ?_ ?_) fun datagram heq => ?_
        · exact fun _ => rfl
        · exact fun _ => rfl
        · exact ⟨_, _, (ClientEffect.emitted.inj heq).symm⟩
      · exact h
  · exact h.socketStop

theorem sendKeepAlive (h : Numbered key n c) (hlt : n + 1 < 2 ^ 64) :
    Numbered key (n + 1) (sendKeepAlive env c) := by
  unfold Client.sendKeepAlive
  split
  · exact (h.mono (Nat.le_succ n)).fault
  next peer hpeer =>
    split
    · have hmono := h.mono (Nat.le_succ n)
      refine socketStop (note ((hmono.emitterStop .keepAlive).modifyPeer ?_ ?_) ?_)
      · exact fun _ => rfl
      · exact fun _ => rfl
      · simp
    · exact h.sendOwn hpeer hlt _ _

theorem trigger (h : Numbered key n c) (hlt : n + 1 < 2 ^ 64) (name : EmitterName) :
    Numbered key (n + 1) (trigger env c name) := by
  cases name with
  | request => exact h.sendRequest.mono (Nat.le_succ n)
  | response =>
      unfold Client.trigger sendResponse
      dsimp only
      split
      · exact (h.mono (Nat.le_succ n)).fault
      next peer hpeer => exact h.sendOwn hpeer hlt _ _
  | keepAlive => exact h.sendKeepAlive hlt
  | disconnect =>
      unfold Client.trigger sendDisconnect
      dsimp only
      split
      · exact (h.mono (Nat.le_succ n)).fault
      next peer hpeer => exact h.sendOwn hpeer hlt _ _

theorem onTriggered (h : Numbered key n c) (hlt : n + 1 < 2 ^ 64) (name : EmitterName) :
    Numbered key (n + 1) (onTriggered env c name) := by
  have hcounted : Numbered key (n + 1) ((Client.trigger env c name).modifyEmitter name fun e =>
      { e with triggerCounter := e.triggerCounter + 1 }) :=
    (h.trigger hlt name).modifyEmitter name _
  unfold Client.onTriggered
  dsimp only
  split
  · exact ((hcounted.emitterStop name).emitterStop .disconnect).socketStop
  · exact hcounted

theorem socketSend (h : Numbered key n c) (hlt : n + 1 < 2 ^ 64) (views : List (List UInt8)) :
    Numbered key (n + 1) (socketSend env c views) := by
  unfold Client.socketSend
  split
  · exact h.mono (Nat.le_succ n)
  next peer hpeer =>
    split
    · dsimp only
      split
      · exact h.dispatchOwn hpeer hlt _ _
      · exact h.nextSequence hlt
    · exact h.mono (Nat.le_succ n)

end Sending

section Handlers

theorem validate_fields (peer : Peer) (address : Address) (header : Header) :
    (validate peer address header).1.cryptoCtx = peer.cryptoCtx ∧
      (validate peer address header).1.sequenceNumber = peer.sequenceNumber := by
  unfold validate
  split
  · exact ⟨rfl, rfl⟩
  · split
    · exact ⟨rfl, rfl⟩
    · exact ⟨rfl, rfl⟩
    · split
      · exact ⟨rfl, rfl⟩
      · exact ⟨rfl, rfl⟩
    · split
      · exact ⟨rfl, rfl⟩
      · exact ⟨rfl, rfl⟩
    · split
      · exact ⟨rfl, rfl⟩
      · exact ⟨rfl, rfl⟩
    · exact ⟨rfl, rfl⟩
    · exact ⟨rfl, rfl⟩

theorem accept (h : Numbered key n c) (address : Address) (datagram : Datagram) :
    Numbered key n (accept env c address datagram) := by
  unfold Client.accept
  split
  · exact h
  · split
    · exact h
    · split
      · exact h.fault
      next peer hpeer =>
        obtain ⟨hctx, hsequence⟩ := validate_fields peer address datagram.header
        have hwritten : Numbered key n
            { c with peer := some (validate peer address datagram.header).1 } := by
          refine ⟨h.rising, h.sealed, h.below, fun peer' hpeer' => ?_⟩
          rw [← Option.some.inj hpeer', hctx, hsequence]
          exact h.peer peer hpeer
        dsimp only
        split
        · split
          · unfold submitReceiver
            refine (hwritten.setReceiver _ _).modifyPeer ?_ ?_
            · exact fun _ => rfl
            · exact fun _ => rfl
          · exact hwritten
        · exact hwritten

theorem tryNextAddress (h : Numbered key n c) (result : ConnectResult) :
    Numbered key n (match c.nextAddress with
      | (c, none) => (c.note (.connectResult result)).socketStop
      | (c, some _) => c.retryAddress) := by
  have hnext : Numbered key n c.nextAddress.1 := h.congr rfl rfl
  split
  next c' heq =>
    rw [heq] at hnext
    exact (hnext.note (by simp)).socketStop
  next c' address heq =>
    rw [heq] at hnext
    exact hnext.retryAddress

theorem recvChallenge (h : Numbered key n c) (peer : Peer) (sequence : UInt64)
    (challenge : SealedChallenge) :
    Numbered key n (recvChallenge env c peer sequence challenge) := by
  unfold Client.recvChallenge
  split
  · exact h
  · have hresponse : Numbered key n
        (c.modifyPeer fun peer => { peer with state := .response }) :=
      h.modifyPeer (fun _ => rfl) fun _ => rfl
    have hstored : Numbered key n
        { (c.modifyPeer fun peer => { peer with state := .response }).emitterStop .request with
          challengeTokenSequence := sequence
          challengeTokenData := challenge } :=
      (hresponse.emitterStop .request).congr rfl rfl
    have hstarted := hstored.emitterStart env .response
    dsimp only
    split
    · exact hstarted
    · exact hstarted.socketStop

theorem recvKeepAlive (h : Numbered key n c) (peer : Peer) (clientId : Int64) :
    Numbered key n (recvKeepAlive env c peer clientId) := by
  unfold Client.recvKeepAlive
  split
  · exact h
  · have hconnected : Numbered key n (c.modifyPeer fun peer =>
        { peer with state := .connected, clientId := clientId }) :=
      h.modifyPeer (fun _ => rfl) fun _ => rfl
    have hstarted := (hconnected.emitterStop .response).emitterStart env .keepAlive
    dsimp only
    split
    · exact (hstarted.note (by simp)).note (by simp)
    · exact hstarted.socketStop

theorem recvPacket (h : Numbered key n c) (peer : Peer) (id : ReceiverId) (datagram : Datagram)
    (packet : Packet) : Numbered key n (recvPacket env c peer id datagram packet) := by
  cases packet with
  | payload data => exact h.note (by simp)
  | denied =>
      refine tryNextAddress (h.modifyPeer ?_ ?_) .denied
      · exact fun _ => rfl
      · exact fun _ => rfl
  | challenge sequence challenge => exact h.recvChallenge peer sequence challenge
  | disconnect =>
      unfold Client.recvPacket recvDisconnect
      dsimp only
      split
      · exact h
      · refine socketStop (note (h.modifyPeer ?_ ?_) ?_)
        · exact fun _ => rfl
        · exact fun _ => rfl
        · simp
  | keepAlive clientId => exact h.recvKeepAlive peer clientId
  | _ => exact h

theorem receiverComplete (h : Numbered key n c) (id : ReceiverId) (workerFailed : Bool) :
    Numbered key n (receiverComplete env c id workerFailed) := by
  unfold Client.receiverComplete
  split
  · exact h
  · have htaken := h.setReceiver id none
    dsimp only
    split
    · exact htaken
    · have herase : Numbered key n ((c.setReceiver id none).modifyPeer fun peer =>
          { peer with receivers := peer.receivers.erase id }) :=
        htaken.modifyPeer (fun _ => rfl) fun _ => rfl
      unfold handleReceiverComplete
      split
      · exact herase
      · split
        · split
          · refine recvPacket (herase.modifyPeer ?_ ?_) _ _ _ _
            · exact fun _ => rfl
            · exact fun _ => rfl
          · exact herase
        · exact herase

theorem senderComplete (h : Numbered key n c) (id : SenderId) :
    Numbered key n (senderComplete c id) := by
  unfold Client.senderComplete
  split
  · exact h
  · dsimp only
    split
    · exact h.setSender id none
    · refine (h.setSender id none).modifyPeer ?_ ?_
      · exact fun _ => rfl
      · exact fun _ => rfl

theorem handleRequestTimeout (h : Numbered key n c) :
    Numbered key n (handleRequestTimeout c) := by
  have hstopped := h.emitterStop .request
  unfold Client.handleRequestTimeout
  dsimp only
  split
  · exact hstopped.fault
  · refine tryNextAddress (hstopped.modifyPeer ?_ ?_) .timedOut
    · exact fun _ => rfl
    · exact fun _ => rfl

theorem disconnectPeer (h : Numbered key n c) : Numbered key n (disconnectPeer env c) := by
  unfold Client.disconnectPeer
  split
  · exact h
  · split
    · exact h
    · have hleaving : Numbered key n (((c.emitterStop .keepAlive).modifyPeer fun peer =>
          { peer with state := .disconnecting }).note .disconnected) := by
        refine note ((h.emitterStop .keepAlive).modifyPeer ?_ ?_) ?_
        · exact fun _ => rfl
        · exact fun _ => rfl
        · simp
      have hstarted := hleaving.emitterStart env .disconnect
      dsimp only
      split
      · exact hstarted
      · exact hstarted.socketStop

theorem stopDeferred (h : Numbered key n c) : Numbered key n c.stopDeferred := by
  have hstopped : Numbered key n { c with state := .stopped } := h.congr rfl rfl
  unfold Client.stopDeferred
  refine stop (hstopped.modifyPeer ?_ ?_)
  · exact fun _ => rfl
  · exact fun _ => rfl

theorem step (h : Numbered key n c) (hlt : n + 1 < 2 ^ 64) (i : ClientInput) :
    Numbered key (n + 1) (step c i) := by
  have hc : Numbered key n { c with tick := c.tick + 1 } := h.congr rfl rfl
  have hle := Nat.le_succ n
  unfold Client.step
  split
  · exact h.mono hle
  · unfold handle
    cases i.event with
    | accept address datagram => exact (hc.accept address datagram).mono hle
    | receiverComplete id workerFailed => exact (hc.receiverComplete id workerFailed).mono hle
    | senderComplete id => exact (hc.senderComplete id).mono hle
    | send views => exact hc.socketSend hlt views
    | disconnectPeer => exact hc.disconnectPeer.mono hle
    | triggerTimer name =>
        dsimp only
        split
        · exact (hc.modifyEmitter name _).mono hle
        · exact hc.mono hle
    | triggered name =>
        dsimp only
        split
        · exact (hc.modifyEmitter name _).onTriggered hlt name
        · exact hc.mono hle
    | timeoutTimer =>
        dsimp only
        split
        · exact (hc.modifyEmitter .request _).mono hle
        · exact hc.mono hle
    | timedOut =>
        dsimp only
        split
        · exact ((hc.modifyEmitter .request _).handleRequestTimeout).mono hle
        · exact hc.mono hle
    | stop => exact hc.socketStop.mono hle
    | stopDeferred =>
        dsimp only
        split
        · exact hc.stopDeferred.mono hle
        · exact hc.mono hle

theorem run (h : Numbered key n c) (is : List ClientInput) (hlt : n + is.length < 2 ^ 64) :
    Numbered key (n + is.length) (Machine.run Client.step c is) := by
  induction is generalizing c n with
  | nil => exact h
  | cons i is ih =>
      rw [List.length_cons] at hlt ⊢
      rw [run_cons, Nat.add_comm is.length 1, ← Nat.add_assoc]
      exact ih (h.step (by omega) i) (by omega)

end Handlers

end Numbered

theorem numbered_start (token : ClientToken) (address : Address) (payloadCapacity : ℕ)
    (hrtime leftover : UInt64) :
    Numbered token.clientToServerKey 0 (start token address payloadCapacity hrtime leftover) := by
  refine ⟨List.Pairwise.nil, fun _ _ hmem => absurd hmem List.not_mem_nil,
    fun _ hx => absurd hx List.not_mem_nil, fun peer hpeer => ?_⟩
  cases hpeer
  exact ⟨rfl, Nat.le_refl 0, fun _ hx => absurd hx List.not_mem_nil⟩

/-- Whatever a client receives, sends and is told by its timers, in fewer than 2^64 steps: every
packet it encrypts is sealed under the client-to-server key of its token with its sequence number
as the nonce, and these numbers only rise. So no two packets share a nonce. -/
theorem nonces_rise (token : ClientToken) (address : Address) (payloadCapacity : ℕ)
    (hrtime leftover : UInt64) (is : List ClientInput) (hlt : is.length < 2 ^ 64) :
    let c := run step (start token address payloadCapacity hrtime leftover) is
    (c.nonces.Pairwise fun x y => x.2 < y.2) ∧
      (∀ x ∈ c.nonces, x.1 = token.clientToServerKey ∧ x.2.toNat < is.length) ∧
      ∀ header body, .emitted (.packet header body) ∈ c.log →
        SealedBody.sealedUnder body = some (token.clientToServerKey, header.sequence) := by
  have h := (numbered_start token address payloadCapacity hrtime leftover).run is (by omega)
  rw [Nat.zero_add] at h
  exact ⟨h.rising, h.below, h.sealed⟩

/-- A client that is challenged and answers twice. -/
def answersTwice : List ClientInput :=
  [⟨.plentiful 0, .accept (sampleAddress 9) (.packet ⟨.challenge, 0⟩ (.encrypted 12 0
      ⟨7, .challenge, 1⟩ (.challenge 0 (.encrypted 2 0 () ⟨1, 0⟩))))⟩,
    ⟨.plentiful 0, .receiverComplete 1 false⟩,
    ⟨.plentiful 0, .triggerTimer .response⟩, ⟨.plentiful 0, .triggered .response⟩,
    ⟨.plentiful 0, .triggerTimer .response⟩, ⟨.plentiful 0, .triggered .response⟩]

theorem nonces_rise_answersTwice :
    let c := run step (start ((sampleToken 1 11 12).issue 1 0) (sampleAddress 9) 1000 0 0)
      answersTwice
    c.nonces = [(11, 0), (11, 1)] ∧ c.nonces.Pairwise fun x y => x.2 < y.2 :=
  ⟨by decide +kernel, (nonces_rise _ _ _ _ _ answersTwice (by decide)).1⟩

end Client

end Protocol

end PomeloUdp
