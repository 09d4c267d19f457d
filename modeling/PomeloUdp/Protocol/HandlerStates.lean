import PomeloUdp.Protocol.Agreement
import PomeloUdp.Protocol.Denial

/-!
# The states in which a client handles packets

`pomelo_protocol_client_validate` checks the state of the client when a packet arrives, and the
packet is handled when the worker has decrypted it. Other packets may have been handled in between.
The handlers of challenges, keep-alives and disconnections check the state again, the handler of
denials asserts it, and payloads are delivered as they come.

`expected_iff` says which of them are handled in a state that does not admit them any more: a
denial once the client is connected, and a payload once the client is disconnecting.
-/

namespace PomeloUdp

namespace Protocol

open Machine Crypto

namespace Client

/-- The state in which a packet of that type is admitted. -/
def permits (state : PeerState) : PacketType → Bool
  | .denied => decide (state = .request) || decide (state = .response)
  | .challenge => decide (state = .request)
  | .keepAlive => decide (state = .connected) || decide (state = .response)
  | .payload | .disconnect => decide (state = .connected)
  | .request | .response => false

/-- The assertion about the state in the handler of a packet. -/
def assertion (state : PeerState) : Packet → Bool
  | .denied => decide (state = .request) || decide (state = .response)
  | _ => true

/-- The packet of a receiver that completes gets to its handler. -/
structure Handling (c : Client) (i : ClientInput) (id : ReceiverId) (receiver : Receiver)
    (peer : Peer) (packet : Packet) : Prop where
  event : i.event = .receiverComplete id false
  alive : c.faulted = false
  running : c.state = .running
  flight : c.receivers id = some receiver
  kept : receiver.canceled = false
  owner : c.peer = some peer
  decoded : processEntry receiver.cryptoCtx receiver.datagram = some packet
  valid : validatePacket peer packet = true

/-- The client when the handler is called. -/
def atHandler (c : Client) (id : ReceiverId) (receiver : Receiver) : Client :=
  ((({ c with tick := c.tick + 1 }.setReceiver id none).modifyPeer fun peer =>
    { peer with receivers := peer.receivers.erase id }).modifyPeer fun peer =>
      { peer with lastRecvTime := receiver.recvTime })

/-- A packet is handled only in a state that admits its type, or it is ignored, and the assertion
of its handler does not fail. -/
def Expected (c : Client) (i : ClientInput) : Prop :=
  ∀ id receiver peer packet, c.Handling i id receiver peer packet →
    assertion peer.state packet = true ∧
      (step c i ≠ c.atHandler id receiver → permits peer.state packet.type = true)

/-- No denial is handled when the client is connected or disconnecting, and no payload when it is
disconnecting. -/
def Timely (c : Client) (i : ClientInput) : Prop :=
  ∀ id receiver peer packet, c.Handling i id receiver peer packet →
    (packet.type = .denied → peer.state ≠ .connected ∧ peer.state ≠ .disconnecting) ∧
      (packet.type = .payload → peer.state ≠ .disconnecting)

/-- The states of a client that runs. -/
def Live (state : PeerState) : Prop :=
  state = .request ∨ state = .response ∨ state = .connected ∨ state = .disconnecting

/-- The states of a client that was connected and runs. -/
def Established (state : PeerState) : Prop := state = .connected ∨ state = .disconnecting

theorem Established.live {state : PeerState} (h : Established state) : Live state := .inr (.inr h)

/-- The invariant: payloads are in flight only when the client was connected. -/
def InStep (c : Client) : Prop :=
  c.faulted = false → c.state = .running → ∀ peer, c.peer = some peer → Live peer.state ∧
    ∀ id receiver, c.receivers id = some receiver → receiver.canceled = false →
      receiver.datagram.header.type = .payload → Established peer.state

section Operations

variable {c : Client} {env : ClientEnv}

theorem inStep_start (token : ClientToken) (address : Address) (payloadCapacity : ℕ)
    (hrtime leftover : UInt64) : InStep (start token address payloadCapacity hrtime leftover) := by
  rintro - - peer hpeer
  obtain rfl := Option.some.inj hpeer
  refine ⟨.inl rfl, fun id receiver hreceiver => ?_⟩
  cases hreceiver

theorem inStep_socketStop (c : Client) : InStep c.socketStop := by
  intro _ hrunning
  rw [socketStop] at hrunning
  split at hrunning
  next hnot => exact absurd hrunning hnot
  next => cases hrunning

theorem inStep_fault (c : Client) : InStep c.fault := fun halive => nomatch halive

theorem InStep.congr (h : InStep c) (c' : Client) (hfaulted : c'.faulted = c.faulted)
    (hstate : c'.state = c.state) (hpeer : c'.peer = c.peer)
    (hreceivers : c'.receivers = c.receivers) : InStep c' := by
  intro halive hrunning
  rw [hpeer, hreceivers]
  exact h (hfaulted ▸ halive) (hstate ▸ hrunning)

theorem InStep.modifyPeer (h : InStep c) {f : Peer → Peer}
    (hlive : ∀ peer, c.peer = some peer → Live peer.state → Live (f peer).state)
    (hestablished : ∀ peer, c.peer = some peer → Established peer.state →
      Established (f peer).state) : InStep (c.modifyPeer f) := by
  intro halive hrunning peer' hpeer'
  obtain ⟨peer, hpeer, rfl⟩ := Option.map_eq_some_iff.mp hpeer'
  obtain ⟨hstate, hflight⟩ := h halive hrunning peer hpeer
  refine ⟨hlive peer hpeer hstate, fun id receiver hreceiver hkept htype => ?_⟩
  exact hestablished peer hpeer (hflight id receiver hreceiver hkept htype)

theorem InStep.writePeer (h : InStep c) {f : Peer → Peer}
    (hstate : ∀ peer, (f peer).state = peer.state) : InStep (c.modifyPeer f) := by
  apply h.modifyPeer
  · intro peer _ hlive
    rwa [hstate]
  · intro peer _ hestablished
    rwa [hstate]

theorem InStep.note (h : InStep c) (effect : ClientEffect) : InStep (c.note effect) :=
  h.congr _ rfl rfl rfl rfl

theorem InStep.modifyEmitter (h : InStep c) (name : EmitterName) (f : Emitter → Emitter) :
    InStep (c.modifyEmitter name f) := h.congr _ rfl rfl rfl rfl

theorem InStep.emitterStart (h : InStep c) (env : ClientEnv) (name : EmitterName) :
    InStep (emitterStart env c name).1 := by
  rw [Client.emitterStart]
  split
  · exact h
  · split
    · exact h.modifyEmitter name _
    · exact h

theorem InStep.releaseReceiver (h : InStep c) (id : ReceiverId) :
    InStep (c.setReceiver id none) := by
  intro halive hrunning peer hpeer
  obtain ⟨hlive, hflight⟩ := h halive hrunning peer hpeer
  refine ⟨hlive, fun other receiver hreceiver => ?_⟩
  have hreceiver : Function.update c.receivers id none other = some receiver := hreceiver
  by_cases hid : other = id
  · rw [hid, Function.update_self] at hreceiver
    cases hreceiver
  · rw [Function.update_of_ne hid] at hreceiver
    exact hflight other receiver hreceiver

end Operations

section Handlers

variable {c : Client} {env : ClientEnv}

theorem InStep.dispatch (h : InStep c) (datagram : Datagram) :
    InStep (dispatch env c datagram) := by
  rw [Client.dispatch]
  split
  · apply InStep.note
    apply InStep.writePeer
    · exact h.congr _ rfl rfl rfl rfl
    · exact fun _ => rfl
  · exact h

theorem InStep.nextSequence (h : InStep c) :
    InStep (c.modifyPeer fun peer => peer.nextSequence.1) := h.writePeer fun _ => rfl

theorem InStep.sendOwn (h : InStep c) (peer : Peer) (type : PacketType) (body : PacketBody) :
    InStep (sendOwn env c peer type body) := by
  rw [Client.sendOwn]
  split
  · exact h.nextSequence.dispatch _
  · exact inStep_socketStop _

theorem InStep.trigger (h : InStep c) (name : EmitterName) : InStep (trigger env c name) := by
  cases name with
  | request =>
      rw [Client.trigger, Client.sendRequest]
      split
      · split
        · exact inStep_fault c
        · exact h.dispatch _
      · exact inStep_socketStop c
  | response =>
      rw [Client.trigger, sendResponse]
      split
      · exact inStep_fault c
      · exact h.sendOwn _ _ _
  | keepAlive =>
      rw [Client.trigger, Client.sendKeepAlive]
      split
      · exact inStep_fault c
      · split
        · exact inStep_socketStop _
        · exact h.sendOwn _ _ _
  | disconnect =>
      rw [Client.trigger, sendDisconnect]
      split
      · exact inStep_fault c
      · exact h.sendOwn _ _ _

theorem InStep.onTriggered (h : InStep c) (name : EmitterName) :
    InStep (onTriggered env c name) := by
  rw [Client.onTriggered]
  split
  · exact inStep_socketStop _
  · exact (h.trigger name).modifyEmitter name _

theorem InStep.socketSend (h : InStep c) (views : List (List UInt8)) :
    InStep (socketSend env c views) := by
  rw [Client.socketSend]
  split
  · exact h
  · split
    · dsimp only
      split
      · exact h.nextSequence.dispatch _
      · exact h.nextSequence
    · exact h

theorem permits_of_validate {peer : Peer} {address : Address} {header : Header}
    (h : (validate peer address header).2 = true) : permits peer.state header.type = true := by
  rw [validate] at h
  split at h
  · cases h
  · cases htype : header.type with
    | denied => simpa [htype, permits] using h
    | challenge => simpa [htype, permits] using h
    | keepAlive =>
        by_cases hstate : peer.state = .connected ∨ peer.state = .response
        · simpa [permits] using hstate
        · simp [htype, hstate] at h
    | payload =>
        by_cases hstate : peer.state = .connected
        · simpa [permits] using hstate
        · simp [htype, hstate] at h
    | disconnect =>
        by_cases hstate : peer.state = .connected
        · simpa [permits] using hstate
        · simp [htype, hstate] at h
    | request => simp [htype] at h
    | response => simp [htype] at h

theorem InStep.accept (h : InStep c) (address : Address) (datagram : Datagram) :
    InStep (accept env c address datagram) := by
  rw [Client.accept]
  split
  · exact h
  split
  · exact h
  split
  · exact inStep_fault c
  next peer hpeer =>
    obtain ⟨protector, hprotector⟩ := validate_peer peer address datagram.header
    have hwritten : InStep { c with peer := some (validate peer address datagram.header).1 } := by
      rw [hprotector]
      have hwrite := h.writePeer (f := fun peer => { peer with replayProtector := protector })
        fun _ => rfl
      rw [Client.modifyPeer, hpeer] at hwrite
      exact hwrite
    dsimp only
    split
    next hadmitted =>
      have hpermits := permits_of_validate hadmitted
      split
      · intro halive hrunning peer' hpeer'
        obtain ⟨hlive, hflight⟩ := hwritten halive hrunning _ rfl
        obtain rfl := Option.some.inj hpeer'
        refine ⟨hlive, fun id receiver hreceiver hkept htype => ?_⟩
        have hreceiver : Function.update c.receivers c.tick _ id = some receiver := hreceiver
        by_cases hid : id = c.tick
        · rw [hid, Function.update_self] at hreceiver
          obtain rfl := Option.some.inj hreceiver
          have hconnected : peer.state = .connected := by
            have htype : datagram.header.type = .payload := htype
            rw [htype] at hpermits
            exact of_decide_eq_true hpermits
          left
          rw [hprotector]
          exact hconnected
        · rw [Function.update_of_ne hid] at hreceiver
          exact hflight id receiver hreceiver hkept htype
      · exact hwritten
    next => exact hwritten

theorem inStep_recvDenied (c : Client) : InStep (recvDenied c) := by
  rw [recvDenied]
  split
  · exact inStep_socketStop _
  · exact inStep_fault _

theorem InStep.recvChallenge (h : InStep c) {peer : Peer}
    (hstate : ∀ peer', c.peer = some peer' → peer'.state = peer.state) (sequence : UInt64)
    (token : SealedChallenge) : InStep (recvChallenge env c peer sequence token) := by
  rw [Client.recvChallenge]
  split
  · exact h
  next hrequest =>
    have hrequest := not_not.mp hrequest
    have hresponse : InStep (c.modifyPeer fun peer => { peer with state := .response }) := by
      apply h.modifyPeer
      · exact fun _ _ _ => .inr (.inl rfl)
      · intro peer' hpeer' hestablished
        rw [hstate peer' hpeer', hrequest] at hestablished
        rcases hestablished with h | h <;> cases h
    have hanswering : InStep { (c.modifyPeer fun peer =>
        { peer with state := .response }).emitterStop .request with
        challengeTokenSequence := sequence, challengeTokenData := token } :=
      hresponse.congr _ rfl rfl rfl rfl
    dsimp only
    split
    · exact hanswering.emitterStart env .response
    · exact inStep_socketStop _

theorem InStep.recvKeepAlive (h : InStep c) (peer : Peer) (clientId : Int64) :
    InStep (recvKeepAlive env c peer clientId) := by
  rw [Client.recvKeepAlive]
  split
  · exact h
  · have hconnected : InStep (c.modifyPeer fun peer =>
        { peer with state := .connected, clientId := clientId }) := by
      apply h.modifyPeer
      · exact fun _ _ _ => Established.live (.inl rfl)
      · exact fun _ _ _ => .inl rfl
    have hstarted := (hconnected.modifyEmitter .response
      fun e => { e with running := false }).emitterStart env .keepAlive
    dsimp only
    split
    · exact (hstarted.note _).note _
    · exact inStep_socketStop _

theorem InStep.recvPacket (h : InStep c) {peer : Peer}
    (hstate : ∀ peer', c.peer = some peer' → peer'.state = peer.state) (id : ReceiverId)
    (datagram : Datagram) (packet : Packet) :
    InStep (recvPacket env c peer id datagram packet) := by
  cases packet with
  | payload data => exact h.note _
  | denied => exact inStep_recvDenied c
  | challenge sequence token => exact h.recvChallenge hstate sequence token
  | disconnect =>
      rw [Client.recvPacket, Client.recvDisconnect]
      split
      · exact h
      · exact inStep_socketStop _
  | keepAlive clientId => exact h.recvKeepAlive peer clientId
  | request _ _ _ => exact h
  | response _ _ => exact h

theorem InStep.handleReceiverComplete (h : InStep c) (id : ReceiverId) (receiver : Receiver)
    (packet : Option Packet) : InStep (handleReceiverComplete env c id receiver packet) := by
  unfold Client.handleReceiverComplete
  split
  · exact h
  · split
    next peer packet hpeer =>
      split
      · apply InStep.recvPacket
        · exact h.writePeer fun _ => rfl
        · intro peer' hpeer'
          obtain ⟨peer₀, hpeer₀, rfl⟩ := Option.map_eq_some_iff.mp hpeer'
          rw [hpeer] at hpeer₀
          rw [← Option.some.inj hpeer₀]
      · exact h
    next => exact h

theorem InStep.receiverComplete (h : InStep c) (id : ReceiverId) (workerFailed : Bool) :
    InStep (receiverComplete env c id workerFailed) := by
  rw [Client.receiverComplete]
  split
  · exact h
  · dsimp only
    split
    · exact h.releaseReceiver id
    · apply InStep.handleReceiverComplete
      apply InStep.writePeer
      · exact h.releaseReceiver id
      · exact fun _ => rfl

theorem InStep.senderComplete (h : InStep c) (id : SenderId) : InStep (senderComplete c id) := by
  rw [Client.senderComplete]
  split
  · exact h
  · have hreleased : InStep (c.setSender id none) := h.congr _ rfl rfl rfl rfl
    dsimp only
    split
    · exact hreleased
    · exact hreleased.writePeer fun _ => rfl

theorem inStep_handleRequestTimeout (c : Client) : InStep (handleRequestTimeout c) := by
  rw [handleRequestTimeout]
  dsimp only
  split
  · exact inStep_fault _
  · split
    · exact inStep_socketStop _
    · exact inStep_fault _

theorem InStep.disconnectPeer (h : InStep c) : InStep (disconnectPeer env c) := by
  rw [Client.disconnectPeer]
  split
  · exact h
  · split
    · exact h
    · have hleaving : InStep ((c.emitterStop .keepAlive).modifyPeer fun peer =>
          { peer with state := .disconnecting }) := by
        apply InStep.modifyPeer
        · exact h.modifyEmitter .keepAlive _
        · exact fun _ _ _ => Established.live (.inr rfl)
        · exact fun _ _ _ => .inr rfl
      have hstarted := (hleaving.note .disconnected).emitterStart env .disconnect
      dsimp only
      split
      · exact hstarted
      · exact inStep_socketStop _

theorem inStep_stopDeferred (c : Client) : InStep c.stopDeferred := by
  intro _ hrunning
  have hstopped : ∀ c : Client, c.stop.state = c.state := by
    intro c
    rw [stop]
    split <;> rfl
  rw [stopDeferred, hstopped] at hrunning
  cases hrunning

theorem InStep.step (h : InStep c) (i : ClientInput) : InStep (step c i) := by
  rw [Client.step]
  split
  · exact h
  have hticked : InStep { c with tick := c.tick + 1 } := h.congr _ rfl rfl rfl rfl
  cases i.event with
  | accept a datagram => exact hticked.accept a datagram
  | receiverComplete id workerFailed => exact hticked.receiverComplete id workerFailed
  | senderComplete id => exact hticked.senderComplete id
  | send views => exact hticked.socketSend views
  | disconnectPeer => exact hticked.disconnectPeer
  | triggerTimer name =>
      rw [handle]
      split
      · exact hticked.modifyEmitter name _
      · exact hticked
  | triggered name =>
      rw [handle]
      split
      · exact (hticked.modifyEmitter name _).onTriggered name
      · exact hticked
  | timeoutTimer =>
      rw [handle]
      split
      · exact hticked.modifyEmitter .request _
      · exact hticked
  | timedOut =>
      rw [handle]
      split
      · exact inStep_handleRequestTimeout _
      · exact hticked
  | stop => exact inStep_socketStop _
  | stopDeferred =>
      rw [handle]
      split
      · exact inStep_stopDeferred _
      · exact hticked

end Handlers

section Results

variable {c : Client} {i : ClientInput} {id : ReceiverId} {receiver : Receiver} {peer : Peer}
  {packet : Packet}

theorem Handling.step_eq (h : c.Handling i id receiver peer packet) :
    step c i = recvPacket i.env (c.atHandler id receiver)
      { peer with receivers := peer.receivers.erase id } id receiver.datagram packet := by
  have hvalid :
      validatePacket { peer with receivers := peer.receivers.erase id } packet = true := by
    have hvalid := h.valid
    cases packet <;> exact hvalid
  simp only [step, h.alive, Bool.false_eq_true, if_false, h.event, handle, receiverComplete,
    h.flight, h.kept, handleReceiverComplete, atHandler, modifyPeer, setReceiver, h.running,
    h.decoded, h.owner, Option.map_some, ne_eq, not_true_eq_false, hvalid, if_true]

theorem Handling.permitted (h : c.Handling i id receiver peer packet)
    (hdenied : packet.type ≠ .denied) (hpayload : packet.type ≠ .payload)
    (hacts : step c i ≠ c.atHandler id receiver) : permits peer.state packet.type = true := by
  rw [h.step_eq] at hacts
  cases packet with
  | denied => exact absurd rfl hdenied
  | payload => exact absurd rfl hpayload
  | challenge sequence token =>
      by_contra hstate
      refine hacts (if_pos fun hrequest => hstate ?_)
      exact decide_eq_true hrequest
  | disconnect =>
      by_contra hstate
      refine hacts (if_pos fun hconnected => hstate ?_)
      exact decide_eq_true hconnected
  | keepAlive clientId =>
      by_contra hstate
      refine hacts (if_pos fun hresponse => hstate ?_)
      have hresponse : peer.state = .response := hresponse
      simp [Packet.type, permits, hresponse]
  | request _ _ _ => exact absurd rfl hacts
  | response _ _ => exact absurd rfl hacts

theorem Handling.delivers (h : c.Handling i id receiver peer packet)
    (hpayload : packet.type = .payload) : step c i ≠ c.atHandler id receiver := by
  rw [h.step_eq]
  cases packet with
  | payload data =>
      intro hsame
      have hlog := congrArg (fun c : Client => c.log.length) hsame
      simp [recvPacket, note] at hlog
  | _ => cases hpayload

theorem InStep.expected_iff_timely (hc : InStep c) (i : ClientInput) :
    c.Expected i ↔ c.Timely i := by
  constructor
  · intro hexpected id receiver peer packet h
    obtain ⟨hassertion, hpermits⟩ := hexpected id receiver peer packet h
    refine ⟨fun hdenied => ?_, fun hpayload hleaving => ?_⟩
    · cases packet with
      | denied =>
          have hstate : peer.state = .request ∨ peer.state = .response := by
            simpa [assertion] using hassertion
          rcases hstate with hstate | hstate <;> simp [hstate]
      | _ => cases hdenied
    · have hconnected := hpermits (h.delivers hpayload)
      rw [hpayload, hleaving] at hconnected
      cases hconnected
  · intro htimely id receiver peer packet h
    obtain ⟨hlive, hflight⟩ := hc h.alive h.running peer h.owner
    obtain ⟨hdenied, hpayload⟩ := htimely id receiver peer packet h
    by_cases htype : packet.type = .denied
    · obtain ⟨hconnected, hleaving⟩ := hdenied htype
      have hstate : permits peer.state .denied = true := by
        rcases hlive with hstate | hstate | hstate | hstate
        · rw [hstate]; rfl
        · rw [hstate]; rfl
        · exact absurd hstate hconnected
        · exact absurd hstate hleaving
      cases packet with
      | denied => exact ⟨hstate, fun _ => hstate⟩
      | _ => cases htype
    · refine ⟨?_, fun hacts => ?_⟩
      · cases packet with
        | denied => exact absurd rfl htype
        | _ => rfl
      · by_cases hdata : packet.type = .payload
        · have hheader : receiver.datagram.header.type = .payload :=
            (type_of_processEntry h.decoded).trans hdata
          have hstate : peer.state = .connected :=
            (hflight id receiver h.flight h.kept hheader).resolve_right (hpayload hdata)
          rw [hdata, hstate]
          rfl
        · exact h.permitted htype hdata hacts

/-- In every run of a client, packets are handled in states that admit them and no assertion
fails, exactly if no denial is handled when the client is connected or disconnecting, and no
payload when it is disconnecting. -/
theorem expected_iff (token : ClientToken) (address : Address) (payloadCapacity : ℕ)
    (hrtime leftover : UInt64) (is : List ClientInput) :
    Along step Expected (start token address payloadCapacity hrtime leftover) is ↔
      Along step Timely (start token address payloadCapacity hrtime leftover) is := by
  have hrun : ∀ (is : List ClientInput) (c : Client), InStep c →
      (Along step Expected c is ↔ Along step Timely c is) := by
    intro is
    induction is with
    | nil => exact fun _ _ => Iff.rfl
    | cons i is ih =>
        intro c hc
        rw [along_cons, along_cons, hc.expected_iff_timely, ih _ (hc.step i)]
  exact hrun is _ (inStep_start token address payloadCapacity hrtime leftover)

/-- A challenge is taken. Then a denial and a keep-alive arrive, and the keep-alive is decrypted
first. -/
def lateDenial : List ClientInput :=
  [⟨.plentiful 0, .accept (sampleAddress 9) (World.serverPacket ⟨.challenge, 0⟩
      (.challenge 0 (.encrypted 2 0 () ⟨1, 0⟩)))⟩,
    ⟨.plentiful 0, .receiverComplete 1 false⟩,
    ⟨.plentiful 0, .accept (sampleAddress 9) (World.serverPacket ⟨.denied, 1⟩ .denied)⟩,
    ⟨.plentiful 0, .accept (sampleAddress 9) (World.serverPacket ⟨.keepAlive, 2⟩ (.keepAlive 1))⟩,
    ⟨.plentiful 0, .receiverComplete 4 false⟩]

/-- The denial is handled when the client is connected, and its assertion fails. -/
theorem not_expected_lateDenial :
    ¬ Along step Expected (start ((sampleToken 1 11 12).issue 1 0) (sampleAddress 9) 1000 0 0)
      (lateDenial ++ [⟨.plentiful 0, .receiverComplete 3 false⟩]) := by
  intro h
  rw [along_append] at h
  obtain ⟨-, hexpected, -⟩ := h
  set c := run step (start ((sampleToken 1 11 12).issue 1 0) (sampleAddress 9) 1000 0 0)
    lateDenial with hc
  obtain ⟨receiver, hreceiver⟩ : ∃ receiver, c.receivers 3 = some receiver := ⟨_, rfl⟩
  obtain ⟨peer, hpeer⟩ : ∃ peer, c.peer = some peer := ⟨_, rfl⟩
  have hkept : (c.receivers 3).map (·.canceled) = some false := by
    rw [hc]
    decide +kernel
  have hdecoded : ((c.receivers 3).bind fun receiver =>
      processEntry receiver.cryptoCtx receiver.datagram) = some .denied := by
    rw [hc]
    decide +kernel
  have hstate : c.peer.map (·.state) = some .connected := by
    rw [hc]
    decide +kernel
  rw [hreceiver] at hkept hdecoded
  rw [hpeer] at hstate
  have hhandling : c.Handling ⟨.plentiful 0, .receiverComplete 3 false⟩ 3 receiver peer .denied :=
    ⟨rfl, by rw [hc]; decide +kernel, by rw [hc]; decide +kernel, hreceiver,
      Option.some.inj hkept, hpeer, hdecoded, rfl⟩
  obtain ⟨hassertion, -⟩ := hexpected 3 receiver peer .denied hhandling
  rw [show peer.state = .connected from Option.some.inj hstate] at hassertion
  cases hassertion

end Results

end Client

end Protocol

end PomeloUdp
