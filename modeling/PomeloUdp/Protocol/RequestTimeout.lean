import PomeloUdp.Protocol.Agreement
import PomeloUdp.Protocol.Denial

/-!
# The timeout of a connecting client

The timeout of a connect token is the timer of the request emitter, which
`pomelo_protocol_client_recv_challenge` stops; the response emitter has no timeout
callback. A client that has taken a challenge waits for ever, and `guarded_iff` says
that this is the only way to be without a timer.
-/

namespace PomeloUdp

namespace Protocol

open Machine Crypto

namespace Client

/-- What the callbacks that led from a client to another did to its attempt to
connect. -/
structure Follows (challenged : Prop) (c c' : Client) : Prop where
  token : c'.connectToken = c.connectToken
  peer : ∀ peer', c'.peer = some peer' → c'.faulted = c.faulted ∧ ∃ peer, c.peer = some peer ∧
    peer'.address = peer.address ∧ peer'.cryptoCtx = peer.cryptoCtx ∧
    (peer'.state = .request → peer.state = .request ∧
      (c'.emitters .request).running = (c.emitters .request).running) ∧
    (peer'.state = .response → peer.state = .response ∨ challenged)

section Operations

variable {R : Prop} {c₀ c : Client}

theorem Follows.refl (R : Prop) (c : Client) : Follows R c c :=
  ⟨rfl, fun peer hpeer => ⟨rfl, peer, hpeer, rfl, rfl, fun h => ⟨h, rfl⟩, .inl⟩⟩

theorem Follows.congr (h : Follows R c₀ c) (c' : Client) (hpeer : c'.peer = c.peer)
    (htoken : c'.connectToken = c.connectToken) (hfaulted : c'.faulted = c.faulted)
    (hrunning : (c'.emitters .request).running = (c.emitters .request).running) :
    Follows R c₀ c' := by
  refine ⟨htoken.trans h.token, fun peer' hpeer' => ?_⟩
  rw [hpeer] at hpeer'
  rw [hrunning, hfaulted]
  exact h.peer peer' hpeer'

theorem Follows.modifyPeer (h : Follows R c₀ c) {f : Peer → Peer}
    (haddress : ∀ peer, (f peer).address = peer.address)
    (hctx : ∀ peer, (f peer).cryptoCtx = peer.cryptoCtx)
    (hrequest : ∀ peer, (f peer).state = .request → peer.state = .request)
    (hresponse : ∀ peer, (f peer).state = .response → peer.state = .response ∨ R) :
    Follows R c₀ (c.modifyPeer f) := by
  refine ⟨h.token, fun peer' hpeer' => ?_⟩
  obtain ⟨peer, hpeer, rfl⟩ := Option.map_eq_some_iff.mp hpeer'
  obtain ⟨hfaulted, peer₀, hpeer₀, haddress₀, hctx₀, hrequest₀, hresponse₀⟩ := h.peer peer hpeer
  exact ⟨hfaulted, peer₀, hpeer₀, (haddress peer).trans haddress₀, (hctx peer).trans hctx₀,
    fun hstate => hrequest₀ (hrequest peer hstate),
    fun hstate => (hresponse peer hstate).elim hresponse₀ .inr⟩

theorem Follows.writePeer (h : Follows R c₀ c) {f : Peer → Peer}
    (haddress : ∀ peer, (f peer).address = peer.address)
    (hctx : ∀ peer, (f peer).cryptoCtx = peer.cryptoCtx)
    (hstate : ∀ peer, (f peer).state = peer.state) : Follows R c₀ (c.modifyPeer f) :=
  h.modifyPeer haddress hctx (fun peer hnew => (hstate peer).symm.trans hnew)
    fun peer hnew => .inl ((hstate peer).symm.trans hnew)

theorem Follows.note (h : Follows R c₀ c) (effect : ClientEffect) : Follows R c₀ (c.note effect) :=
  h.congr _ rfl rfl rfl rfl

theorem Follows.setReceiver (h : Follows R c₀ c) (id : ReceiverId) (receiver : Option Receiver) :
    Follows R c₀ (c.setReceiver id receiver) :=
  h.congr _ rfl rfl rfl rfl

theorem Follows.fault (h : Follows R c₀ c) (hnone : c.peer = none) : Follows R c₀ c.fault :=
  ⟨h.token, fun peer' hpeer' => absurd (hnone.symm.trans hpeer') (by simp)⟩

theorem Follows.socketStop (h : Follows R c₀ c) : Follows R c₀ c.socketStop := by
  unfold Client.socketStop
  split
  · exact h
  · exact h.congr _ rfl rfl rfl rfl

theorem Follows.modifyEmitter (h : Follows R c₀ c) (name : EmitterName) {f : Emitter → Emitter}
    (hrunning : name = .request → (f (c.emitters .request)).running =
      (c.emitters .request).running) : Follows R c₀ (c.modifyEmitter name f) := by
  refine h.congr _ rfl rfl rfl ?_
  by_cases hname : name = .request
  · subst hname
    simpa [Client.modifyEmitter] using hrunning rfl
  · simp [Client.modifyEmitter, Function.update_of_ne (Ne.symm hname)]

theorem Follows.emitterStop (h : Follows R c₀ c) {name : EmitterName} (hname : name ≠ .request) :
    Follows R c₀ (c.emitterStop name) :=
  h.modifyEmitter name fun hrequest => absurd hrequest hname

theorem Follows.emitterStart (h : Follows R c₀ c) (env : ClientEnv) (name : EmitterName)
    (hname : name ≠ .request) : Follows R c₀ (emitterStart env c name).1 := by
  unfold Client.emitterStart
  split
  · exact h
  · split
    · simp only []
      exact h.modifyEmitter name fun hrequest => absurd hrequest hname
    · exact h

theorem peer_stop (c : Client) : c.stop.peer = none := by
  unfold Client.stop
  split
  · assumption
  · rfl

theorem Follows.stop (h : Follows R c₀ c) : Follows R c₀ c.stop := by
  refine ⟨?_, fun peer' hpeer' => absurd ((peer_stop c).symm.trans hpeer') (by simp)⟩
  unfold Client.stop
  split <;> exact h.token

theorem Follows.retryAddress (h : Follows R c₀ c) : Follows R c₀ c.retryAddress :=
  h.stop.fault (peer_stop c)

theorem Follows.leave (h : Follows R c₀ c) (c' : Client) (htoken : c'.connectToken = c.connectToken)
    (hfaulted : c'.faulted = c.faulted)
    (hpeer : ∀ peer', c'.peer = some peer' → ∃ peer, c.peer = some peer ∧
      peer'.address = peer.address ∧ peer'.cryptoCtx = peer.cryptoCtx ∧
      peer'.state ≠ .request ∧ (peer'.state = .response → R)) : Follows R c₀ c' := by
  refine ⟨htoken.trans h.token, fun peer' hpeer' => ?_⟩
  obtain ⟨peer, hold, haddress, hctx, hleft, hresponse⟩ := hpeer peer' hpeer'
  obtain ⟨hfaulted₀, peer₀, hpeer₀, haddress₀, hctx₀, -, -⟩ := h.peer peer hold
  exact ⟨hfaulted.trans hfaulted₀, peer₀, hpeer₀, haddress.trans haddress₀, hctx.trans hctx₀,
    fun hstate => absurd hstate hleft, fun hstate => .inr (hresponse hstate)⟩

end Operations

section Handlers

variable {R : Prop} {c₀ c : Client} {env : ClientEnv}

theorem Follows.dispatch (h : Follows R c₀ c) (datagram : Datagram) :
    Follows R c₀ (dispatch env c datagram) := by
  unfold Client.dispatch
  split
  · refine Follows.note ?_ _
    refine Follows.writePeer ?_ (fun _ => rfl) (fun _ => rfl) fun _ => rfl
    exact h.congr _ rfl rfl rfl rfl
  · exact h

theorem Follows.nextSequence (h : Follows R c₀ c) :
    Follows R c₀ (c.modifyPeer fun peer => peer.nextSequence.1) :=
  h.writePeer (fun _ => rfl) (fun _ => rfl) fun _ => rfl

theorem Follows.sendOwn (h : Follows R c₀ c) (peer : Peer) (type : PacketType)
    (body : PacketBody) : Follows R c₀ (sendOwn env c peer type body) := by
  simp only [Client.sendOwn]
  split
  · exact h.nextSequence.dispatch _
  · exact h.nextSequence.socketStop

theorem Follows.sendRequest (h : Follows R c₀ c) : Follows R c₀ (sendRequest env c) := by
  unfold Client.sendRequest
  split
  · split
    · rename_i hnone
      exact h.fault hnone
    · exact h.dispatch _
  · exact h.socketStop

theorem Follows.sendKeepAlive (h : Follows R c₀ c) : Follows R c₀ (sendKeepAlive env c) := by
  unfold Client.sendKeepAlive
  split
  · rename_i hnone
    exact h.fault hnone
  · split
    · refine Follows.socketStop (Follows.note ?_ _)
      exact (h.emitterStop (by decide)).modifyPeer (fun _ => rfl) (fun _ => rfl)
        (fun _ hstate => nomatch hstate) fun _ hstate => nomatch hstate
    · exact h.sendOwn _ _ _

theorem Follows.trigger (h : Follows R c₀ c) (name : EmitterName) :
    Follows R c₀ (trigger env c name) := by
  cases name with
  | request => exact h.sendRequest
  | response =>
      simp only [Client.trigger, sendResponse]
      split
      · rename_i hnone
        exact h.fault hnone
      · exact h.sendOwn _ _ _
  | keepAlive => exact h.sendKeepAlive
  | disconnect =>
      simp only [Client.trigger, sendDisconnect]
      split
      · rename_i hnone
        exact h.fault hnone
      · exact h.sendOwn _ _ _

theorem Follows.socketSend (h : Follows R c₀ c) (views : List (List UInt8)) :
    Follows R c₀ (socketSend env c views) := by
  unfold Client.socketSend
  split
  · exact h
  · split
    · simp only []
      split
      · exact h.nextSequence.dispatch _
      · exact h.nextSequence
    · exact h

theorem Follows.accept (h : Follows R c₀ c) (address : Address) (datagram : Datagram) :
    Follows R c₀ (accept env c address datagram) := by
  unfold Client.accept
  split
  · exact h
  · split
    · exact h
    · split
      · rename_i hnone
        exact h.fault hnone
      · rename_i peer hpeer
        obtain ⟨protector, hvalidate⟩ := validate_peer peer address datagram.header
        have hwritten : Follows R c₀ { c with peer := some (validate peer address
            datagram.header).1 } := by
          rw [hvalidate]
          refine (h.writePeer (f := fun peer => { peer with replayProtector := protector })
            (fun _ => rfl) (fun _ => rfl) fun _ => rfl).congr _ ?_ rfl rfl rfl
          simp [Client.modifyPeer, hpeer]
        simp only []
        split
        · split
          · exact (hwritten.setReceiver _ _).writePeer (fun _ => rfl) (fun _ => rfl) fun _ => rfl
          · exact hwritten
        · exact hwritten

theorem Follows.recvDenied (h : Follows R c₀ c) : Follows R c₀ (recvDenied c) := by
  have hdenied : Follows R c₀ (c.modifyPeer fun peer => { peer with state := .denied }) :=
    h.modifyPeer (fun _ => rfl) (fun _ => rfl) (fun _ hstate => nomatch hstate)
      fun _ hstate => nomatch hstate
  have hnext := hdenied.congr (c.modifyPeer fun peer =>
    { peer with state := .denied }).nextAddress.1 rfl rfl rfl rfl
  unfold Client.recvDenied
  simp only [nextAddress] at hnext ⊢
  split
  · rename_i heq
    obtain ⟨rfl, -⟩ := Prod.mk.inj heq
    exact (hnext.note _).socketStop
  · rename_i heq
    obtain ⟨rfl, -⟩ := Prod.mk.inj heq
    exact hnext.retryAddress

theorem Follows.recvChallenge (h : Follows R c₀ c) {peer : Peer} (hR : peer.state = .request → R)
    (sequence : UInt64) (token : SealedChallenge) :
    Follows R c₀ (recvChallenge env c peer sequence token) := by
  unfold Client.recvChallenge
  split
  · exact h
  · rename_i hrequest
    have hanswering : Follows R c₀ { (c.modifyPeer fun peer =>
        { peer with state := .response }).emitterStop .request with
        challengeTokenSequence := sequence, challengeTokenData := token } := by
      refine h.leave _ rfl rfl fun peer' hpeer' => ?_
      obtain ⟨peer, hpeer, rfl⟩ := Option.map_eq_some_iff.mp hpeer'
      exact ⟨peer, hpeer, rfl, rfl, nofun, fun _ => hR (not_not.mp hrequest)⟩
    have hstarted := hanswering.emitterStart env .response (by decide)
    simp only []
    split
    · exact hstarted
    · exact hstarted.socketStop

theorem Follows.recvKeepAlive (h : Follows R c₀ c) (peer : Peer) (clientId : Int64) :
    Follows R c₀ (recvKeepAlive env c peer clientId) := by
  unfold Client.recvKeepAlive
  split
  · exact h
  · have hconnected : Follows R c₀ ((c.modifyPeer fun peer =>
        { peer with state := .connected, clientId := clientId }).emitterStop .response) := by
      refine Follows.emitterStop ?_ (by decide)
      exact h.modifyPeer (fun _ => rfl) (fun _ => rfl) (fun _ hstate => nomatch hstate)
        fun _ hstate => nomatch hstate
    have hstarted := hconnected.emitterStart env .keepAlive (by decide)
    simp only []
    split
    · exact (hstarted.note _).note _
    · exact hstarted.socketStop

theorem Follows.recvDisconnect (h : Follows R c₀ c) (peer : Peer) :
    Follows R c₀ (recvDisconnect c peer) := by
  unfold Client.recvDisconnect
  split
  · exact h
  · refine Follows.socketStop (Follows.note ?_ _)
    exact h.modifyPeer (fun _ => rfl) (fun _ => rfl) (fun _ hstate => nomatch hstate)
      fun _ hstate => nomatch hstate

theorem Follows.recvPacket (h : Follows R c₀ c) {peer : Peer} (id : ReceiverId)
    (datagram : Datagram) {packet : Packet}
    (hR : ∀ sequence token, packet = .challenge sequence token → peer.state = .request → R) :
    Follows R c₀ (recvPacket env c peer id datagram packet) := by
  cases packet with
  | payload data => exact h.note _
  | denied => exact h.recvDenied
  | challenge sequence token => exact h.recvChallenge (hR sequence token rfl) sequence token
  | disconnect => exact h.recvDisconnect peer
  | keepAlive clientId => exact h.recvKeepAlive peer clientId
  | request _ _ _ => exact h
  | response _ _ => exact h

theorem Follows.handleReceiverComplete (h : Follows R c₀ c) (id : ReceiverId) (receiver : Receiver)
    {packet : Option Packet}
    (hR : ∀ peer sequence token, c.state = .running → c.peer = some peer →
      packet = some (.challenge sequence token) → peer.state = .request → R) :
    Follows R c₀ (handleReceiverComplete env c id receiver packet) := by
  unfold Client.handleReceiverComplete
  split
  · exact h
  · rename_i hrunning
    split
    · rename_i peer packet hpeer
      split
      · refine Follows.recvPacket ?_ _ _ ?_
        · exact h.writePeer (fun _ => rfl) (fun _ => rfl) fun _ => rfl
        intro sequence token hpacket
        exact hR peer sequence token (not_not.mp hrunning) hpeer (congrArg some hpacket)
      · exact h
    · exact h

end Handlers

/-- The step hands a challenge to a running client that is waiting for one. -/
def Challenged (c : Client) (i : ClientInput) : Prop :=
  c.faulted = false ∧ c.state = .running ∧ ∃ id receiver sequence token peer,
    i.event = .receiverComplete id false ∧ c.receivers id = some receiver ∧
    receiver.canceled = false ∧
    processEntry receiver.cryptoCtx receiver.datagram = some (.challenge sequence token) ∧
    c.peer = some peer ∧ peer.state = .request

section Steps

variable {R : Prop} {c₀ c : Client} {env : ClientEnv}

theorem Follows.senderComplete (h : Follows R c₀ c) (id : SenderId) :
    Follows R c₀ (senderComplete c id) := by
  unfold Client.senderComplete
  split
  · exact h
  · have htaken := h.congr (c.setSender id none) rfl rfl rfl rfl
    simp only []
    split
    · exact htaken
    · exact htaken.writePeer (fun _ => rfl) (fun _ => rfl) fun _ => rfl

theorem Follows.onTriggered (h : Follows R c₀ c) (name : EmitterName) :
    Follows R c₀ (onTriggered env c name) := by
  have hcounted : Follows R c₀ ((Client.trigger env c name).modifyEmitter name fun e =>
      { e with triggerCounter := e.triggerCounter + 1 }) :=
    (h.trigger name).modifyEmitter name fun hname => by subst hname; rfl
  simp only [Client.onTriggered]
  split
  · rename_i hlimit
    have hname : name ≠ .request := by
      rintro rfl
      exact absurd hlimit.1 (by decide)
    exact ((hcounted.emitterStop hname).emitterStop (by decide)).socketStop
  · exact hcounted

theorem Follows.handleRequestTimeout (h : Follows R c₀ c) :
    Follows R c₀ (handleRequestTimeout c) := by
  have hlate : Follows R c₀ ((c.emitterStop .request).modifyPeer fun peer => { peer with
      state := lateState peer.state }) := by
    refine h.leave _ rfl rfl fun peer' hpeer' => ?_
    obtain ⟨peer, hpeer, rfl⟩ := Option.map_eq_some_iff.mp hpeer'
    refine ⟨peer, hpeer, rfl, rfl, ?_, ?_⟩ <;> cases peer.state <;> simp [lateState]
  have hnext := hlate.congr ((c.emitterStop .request).modifyPeer fun peer => { peer with
    state := lateState peer.state }).nextAddress.1 rfl rfl rfl rfl
  simp only [Client.handleRequestTimeout]
  split
  · rename_i hnone
    exact Follows.fault (h.leave _ rfl rfl fun peer' hpeer' =>
      absurd (hnone.symm.trans hpeer') (by simp)) hnone
  · simp only [nextAddress] at hnext ⊢
    split
    · rename_i heq
      obtain ⟨rfl, -⟩ := Prod.mk.inj heq
      exact (hnext.note _).socketStop
    · rename_i heq
      obtain ⟨rfl, -⟩ := Prod.mk.inj heq
      exact hnext.retryAddress

theorem Follows.disconnectPeer (h : Follows R c₀ c) : Follows R c₀ (disconnectPeer env c) := by
  unfold Client.disconnectPeer
  split
  · exact h
  · split
    · exact h
    · have hparked : Follows R c₀ (((c.emitterStop .keepAlive).modifyPeer fun peer =>
          { peer with state := .disconnecting }).note .disconnected) := by
        refine Follows.note ?_ _
        exact (h.emitterStop (by decide)).modifyPeer (fun _ => rfl) (fun _ => rfl)
          (fun _ hstate => nomatch hstate) fun _ hstate => nomatch hstate
      have hstarted := hparked.emitterStart env .disconnect (by decide)
      simp only []
      split
      · exact hstarted
      · exact hstarted.socketStop

theorem Follows.stopDeferred (h : Follows R c₀ c) : Follows R c₀ c.stopDeferred := by
  refine Follows.stop (Follows.modifyPeer ?_ (fun _ => rfl) (fun _ => rfl)
    (fun _ hstate => nomatch hstate) fun _ hstate => nomatch hstate)
  exact h.congr _ rfl rfl rfl rfl

theorem follows_step (c : Client) (i : ClientInput) : Follows (Challenged c i) c (step c i) := by
  unfold Client.step
  split
  · exact .refl _ c
  · rename_i halive
    have h : Follows (Challenged c i) c { c with tick := c.tick + 1 } :=
      (Follows.refl _ c).congr _ rfl rfl rfl rfl
    cases hevent : i.event with
    | accept a datagram => exact h.accept a datagram
    | receiverComplete id workerFailed =>
        simp only [handle, receiverComplete]
        split
        · exact h
        · rename_i receiver hreceiver
          split
          · exact h.setReceiver id none
          · rename_i hcanceled
            refine Follows.handleReceiverComplete ?_ id receiver ?_
            · exact (h.setReceiver id none).writePeer (fun _ => rfl) (fun _ => rfl) fun _ => rfl
            intro peer sequence token hrunning hpeer hpacket hrequest
            obtain ⟨peer₀, hpeer₀, rfl⟩ := Option.map_eq_some_iff.mp hpeer
            cases workerFailed with
            | true => cases hpacket
            | false =>
                exact ⟨Bool.eq_false_of_not_eq_true halive, hrunning, id, receiver, sequence, token,
                  peer₀, hevent, hreceiver, Bool.eq_false_of_not_eq_true hcanceled, hpacket, hpeer₀,
                  hrequest⟩
    | senderComplete id => exact h.senderComplete id
    | send views => exact h.socketSend views
    | disconnectPeer => exact h.disconnectPeer
    | triggerTimer name =>
        simp only [handle]
        split
        · exact h.modifyEmitter name fun hname => by subst hname; rfl
        · exact h
    | triggered name =>
        simp only [handle]
        split
        · exact (h.modifyEmitter name fun hname => by subst hname; rfl).onTriggered name
        · exact h
    | timeoutTimer =>
        simp only [handle]
        split
        · exact h.modifyEmitter .request fun _ => rfl
        · exact h
    | timedOut =>
        simp only [handle]
        split
        · exact (h.modifyEmitter .request fun _ => rfl).handleRequestTimeout
        · exact h
    | stop => exact h.socketStop
    | stopDeferred =>
        simp only [handle]
        split
        · exact h.stopDeferred
        · exact h

end Steps

/-- The client asks a server to connect it and has no answer yet. -/
def Connecting (c : Client) : Prop :=
  ∃ peer, c.peer = some peer ∧ (peer.state = .request ∨ peer.state = .response)

instance decidableConnecting (c : Client) : Decidable c.Connecting :=
  decidable_of_iff
    (c.peer.map (·.state) = some .request ∨ c.peer.map (·.state) = some .response) <| by
    simp only [Option.map_eq_some_iff, Connecting]
    constructor
    · rintro (⟨peer, hpeer, hstate⟩ | ⟨peer, hpeer, hstate⟩)
      · exact ⟨peer, hpeer, .inl hstate⟩
      · exact ⟨peer, hpeer, .inr hstate⟩
    · rintro ⟨peer, hpeer, hstate | hstate⟩
      · exact .inl ⟨peer, hpeer, hstate⟩
      · exact .inr ⟨peer, hpeer, hstate⟩

/-- A timer is armed whose expiry takes the client out of the states of connecting. Only
the request emitter has a timeout callback. -/
structure TimerArmed (c : Client) : Prop where
  running : (c.emitters .request).running = true
  timeout : 0 < c.connectToken.timeout
  leaves : ∀ env env',
    ¬ (run step c [⟨env, .timeoutTimer⟩, ⟨env', .timedOut⟩]).Connecting

/-- A client that is connecting has a running timeout. -/
def Guarded (c : Client) : Prop := c.Connecting → c.TimerArmed

section Guard

variable {c : Client} {i : ClientInput}

theorem not_connecting_handleRequestTimeout (c : Client) :
    ¬ (handleRequestTimeout c).Connecting := by
  rintro ⟨peer', hpeer', hstate⟩
  simp only [Client.handleRequestTimeout] at hpeer'
  split at hpeer'
  · rename_i hnone
    exact absurd (hnone.symm.trans hpeer') (by simp)
  · simp only [nextAddress] at hpeer'
    split at hpeer'
    · rename_i heq
      obtain ⟨rfl, -⟩ := Prod.mk.inj heq
      rw [socketStop_peer] at hpeer'
      obtain ⟨peer, -, rfl⟩ := Option.map_eq_some_iff.mp hpeer'
      revert hstate
      cases peer.state <;> simp [lateState]
    · exact absurd ((peer_stop _).symm.trans hpeer') (by simp)

theorem timerArmed (halive : c.faulted = false) (hrunning : (c.emitters .request).running = true)
    (htimeout : 0 < c.connectToken.timeout) : c.TimerArmed where
  running := hrunning
  timeout := htimeout
  leaves env env' := by
    simp only [run_cons, run_nil, step, handle, halive, hrunning, htimeout, modifyEmitter]
    simp only [Bool.false_eq_true, if_false, and_self, if_true, Function.update_self]
    exact not_connecting_handleRequestTimeout _

/-- What a client that has taken no challenge is like: it is waiting for one, and its
request emitter runs. -/
structure Waiting (token : ClientToken) (c : Client) : Prop where
  token : c.connectToken = token
  peer : ∀ peer, c.peer = some peer → c.faulted = false ∧ peer.state ≠ .response ∧
    (peer.state = .request → (c.emitters .request).running = true)

theorem waiting_start (token : ClientToken) (address : Address) (payloadCapacity : ℕ)
    (hrtime leftover : UInt64) :
    Waiting token (start token address payloadCapacity hrtime leftover) where
  token := rfl
  peer peer hpeer := by
    obtain rfl := Option.some.inj hpeer
    exact ⟨rfl, by simp, fun _ => rfl⟩

theorem Waiting.step {token : ClientToken} (h : Waiting token c) (hi : ¬ c.Challenged i) :
    Waiting token (step c i) := by
  have hfollows := follows_step c i
  refine ⟨hfollows.token.trans h.token, fun peer' hpeer' => ?_⟩
  obtain ⟨hfaulted, peer, hpeer, -, -, hrequest, hresponse⟩ := hfollows.peer peer' hpeer'
  obtain ⟨halive, hunanswered, hrunning⟩ := h.peer peer hpeer
  refine ⟨hfaulted.trans halive, fun hstate => ?_, fun hstate => ?_⟩
  · exact (hresponse hstate).elim hunanswered hi
  · obtain ⟨hwas, hsame⟩ := hrequest hstate
    exact hsame.trans (hrunning hwas)

theorem Waiting.guarded {token : ClientToken} (h : Waiting token c) (htimeout : 0 < token.timeout) :
    c.Guarded := by
  rintro ⟨peer, hpeer, hstate⟩
  obtain ⟨halive, hunanswered, hrunning⟩ := h.peer peer hpeer
  exact timerArmed halive (hrunning (hstate.resolve_right hunanswered)) (h.token ▸ htimeout)

theorem socketStop_emitters (c : Client) : c.socketStop.emitters = c.emitters := by
  unfold socketStop
  split <;> rfl

theorem emitterStart_response (c : Client) (env : ClientEnv) :
    (c.emitterStart env .response).1.peer = c.peer ∧
      (c.emitterStart env .response).1.emitters .request = c.emitters .request := by
  unfold Client.emitterStart
  split
  · exact ⟨rfl, rfl⟩
  · split
    · refine ⟨rfl, ?_⟩
      simp [modifyEmitter]
    · exact ⟨rfl, rfl⟩

theorem recvChallenge_request (c : Client) (env : ClientEnv) (peer : Peer) {peer' : Peer}
    (hrequest : peer.state = .request) (hpeer : c.peer = some peer') (sequence : UInt64)
    (token : SealedChallenge) :
    (recvChallenge env c peer sequence token).Connecting ∧
      ((recvChallenge env c peer sequence token).emitters .request).running = false := by
  unfold Client.recvChallenge
  rw [if_neg (not_not.mpr hrequest)]
  simp only []
  obtain ⟨hkept, hstopped⟩ := emitterStart_response
    { (c.modifyPeer fun peer => { peer with state := .response }).emitterStop .request with
      challengeTokenSequence := sequence, challengeTokenData := token } env
  have hanswering : ((c.modifyPeer fun peer => { peer with state := .response }).emitterStop
      .request).peer = some { peer' with state := .response } := by
    simp [Client.modifyPeer, Client.emitterStop, Client.modifyEmitter, hpeer]
  split
  · refine ⟨⟨_, hkept.trans hanswering, .inr rfl⟩, ?_⟩
    rw [hstopped]
    simp [Client.emitterStop, Client.modifyEmitter]
  · refine ⟨⟨_, (socketStop_peer _).trans (hkept.trans hanswering), .inr rfl⟩, ?_⟩
    rw [socketStop_emitters, hstopped]
    simp [Client.emitterStop, Client.modifyEmitter]

theorem Challenged.not_guarded (h : c.Challenged i) : ¬ (step c i).Guarded := by
  obtain ⟨halive, hrunning, id, receiver, sequence, token, peer, hevent, hreceiver, hcanceled,
    hpacket, hpeer, hrequest⟩ := h
  obtain ⟨c', peer', hpeer', hstep⟩ : ∃ (c' : Client) (peer' : Peer), c'.peer = some peer' ∧
      step c i = recvChallenge i.env c' { peer with receivers := peer.receivers.erase id } sequence
        token := by
    simp only [step, halive, Bool.false_eq_true, if_false, hevent, handle, receiverComplete,
      hreceiver, hcanceled, handleReceiverComplete, modifyPeer, setReceiver, hrunning, hpacket,
      hpeer, validatePacket, recvPacket]
    exact ⟨_, _, rfl, rfl⟩
  obtain ⟨hconnecting, hstopped⟩ := recvChallenge_request c' i.env
    { peer with receivers := peer.receivers.erase id } hrequest hpeer' sequence token
  rw [hstep]
  intro hguarded
  exact absurd ((hguarded hconnecting).running.symm.trans hstopped) (by decide)

/-- Through a run of a client whose token has a timeout, a timer is armed whenever the
client is connecting, exactly if no step of the run hands it a challenge that it
takes. -/
theorem guarded_iff (token : ClientToken) (htimeout : 0 < token.timeout) (address : Address)
    (payloadCapacity : ℕ) (hrtime leftover : UInt64) (is : List ClientInput) :
    (∀ before, before <+: is →
      (run step (start token address payloadCapacity hrtime leftover) before).Guarded) ↔
    Along step (fun c i => ¬ c.Challenged i)
      (start token address payloadCapacity hrtime leftover) is := by
  constructor
  · intro h
    induction is using List.reverseRecOn with
    | nil => trivial
    | append_singleton is i ih =>
        rw [along_append]
        refine ⟨ih fun before hbefore =>
          h before (hbefore.trans (List.prefix_append is [i])), ?_, trivial⟩
        intro hchallenged
        refine hchallenged.not_guarded ?_
        have hguarded := h (is ++ [i]) (List.prefix_refl _)
        rwa [run_append] at hguarded
  · rintro h before ⟨rest, rfl⟩
    rw [along_append] at h
    have hwaiting := invariant_run (I := Waiting token) (fun c i hc hi => hc.step hi)
      (waiting_start token address payloadCapacity hrtime leftover) h.1
    exact hwaiting.guarded htimeout

/-- The challenge of a server arrives. -/
def oneChallenge : List ClientInput :=
  [⟨.plentiful 0, .accept (sampleAddress 9) (World.serverPacket ⟨.challenge, 0⟩
      (.challenge 0 (.encrypted 2 0 () ⟨1, 0⟩)))⟩,
    ⟨.plentiful 0, .receiverComplete 1 false⟩]

theorem guarded_iff_oneChallenge :
    0 < ((sampleToken 1 11 12).issue 1 0).timeout ∧
    ((∀ before, before <+: oneChallenge →
      (run step (start ((sampleToken 1 11 12).issue 1 0) (sampleAddress 9) 1000 0 0)
        before).Guarded) ↔
    Along step (fun c i => ¬ c.Challenged i)
      (start ((sampleToken 1 11 12).issue 1 0) (sampleAddress 9) 1000 0 0)
      oneChallenge) :=
  ⟨by decide, guarded_iff ((sampleToken 1 11 12).issue 1 0) (by decide)
    (sampleAddress 9) 1000 0 0 oneChallenge⟩

theorem not_guarded_oneChallenge :
    ¬ ∀ (token : ClientToken) (address : Address) (payloadCapacity : ℕ) (hrtime leftover : UInt64)
      (is : List ClientInput), 0 < token.timeout →
      (run step (start token address payloadCapacity hrtime leftover) is).Guarded := by
  intro h
  have hguarded := h ((sampleToken 1 11 12).issue 1 0) (sampleAddress 9) 1000 0 0
    oneChallenge (by decide)
  have hconnecting : (run step (start ((sampleToken 1 11 12).issue 1 0)
      (sampleAddress 9) 1000 0 0) oneChallenge).Connecting := by decide +kernel
  have hstopped : ((run step (start ((sampleToken 1 11 12).issue 1 0)
      (sampleAddress 9) 1000 0 0) oneChallenge).emitters .request).running = false := by
    decide +kernel
  exact absurd ((hguarded hconnecting).running.symm.trans hstopped) (by decide)

end Guard

end Client

end Protocol

end PomeloUdp
