import PomeloUdp.Protocol.Agreement
import PomeloUdp.Protocol.ReplayResistance

/-!
# The payloads of a client

Most of what a client does carries no payload: it is `Quiet`. The exceptions are the
datagram that passes validation, the packet whose payload is passed to the application, and
the payload of the application that is sent. `turn_handle` says so once, and the invariants
of the payloads are proved turn by turn from there: what was passed on arrived sealed under
the key of the server (`Traffic`), what was sent was given by the application, and the
replay protector of the peer, which a client never resets, lets each datagram pass once
(`received_nodup`).
-/

namespace PomeloUdp

namespace Protocol

open Machine

theorem processEntry_eq_payload {ctx : CryptoContext} {datagram : Datagram} {data : List UInt8}
    (h : processEntry ctx datagram = some (.payload data)) :
    ∃ header, header.type = .payload ∧ datagram = .packet header (.encrypted
      ctx.packetDecryptKey header.sequence (ctx.makeAssociatedData header) (.payload data)) := by
  have htype := type_of_processEntry h
  cases datagram with
  | request sequence body => cases htype
  | packet header sealedBody =>
      simp only [processEntry, Option.bind_eq_some_iff] at h
      obtain ⟨body, hbody, hdecode⟩ := h
      rw [CryptoContext.decryptPacket_eq_some_iff] at hbody
      subst hbody
      have hpayload : body = .payload data := by
        cases body with
        | response tokenSequence token =>
            simp only [packetDecode] at hdecode
            split at hdecode
            · obtain ⟨_, -, heq⟩ := Option.map_eq_some_iff.mp hdecode
              cases heq
            · cases hdecode
        | payload data' =>
            simp only [packetDecode] at hdecode
            split at hdecode
            · cases hdecode
              rfl
            · cases hdecode
        | _ =>
            simp only [packetDecode] at hdecode
            split at hdecode <;> cases hdecode
      subst hpayload
      exact ⟨header, htype, rfl⟩

namespace Client

/-- An effect that carries no payload. -/
def Silent : ClientEffect → Prop
  | .emitted (.packet header body) =>
      header.type ≠ .payload ∧ ∃ ctx : CryptoContext, ∃ plain, body = ctx.encryptPacket header plain
  | .received _ _ => False
  | _ => True

/-- From `c` to `c'` no payload was passed on or sent, and no datagram passed validation. -/
structure Quiet (c c' : Client) : Prop where
  peer : ∀ peer', c'.peer = some peer' → ∃ peer, c.peer = some peer ∧
    peer'.cryptoCtx = peer.cryptoCtx ∧ peer'.replayProtector = peer.replayProtector
  receivers : ∀ id r', c'.receivers id = some r' → ∃ r, c.receivers id = some r ∧
    r'.cryptoCtx = r.cryptoCtx ∧ r'.datagram = r.datagram
  tick : c'.tick = c.tick
  log : ∃ effects, c'.log = c.log ++ effects ∧ ∀ effect ∈ effects, Silent effect

section Operations

variable {c c' c'' : Client}

theorem Quiet.of_eq (hpeer : c'.peer = c.peer) (hreceivers : c'.receivers = c.receivers)
    (htick : c'.tick = c.tick) (hlog : c'.log = c.log) : Quiet c c' where
  peer peer' h := ⟨peer', hpeer ▸ h, rfl, rfl⟩
  receivers id r' h := ⟨r', hreceivers ▸ h, rfl, rfl⟩
  tick := htick
  log := ⟨[], by rw [hlog, List.append_nil], by simp⟩

theorem Quiet.refl (c : Client) : Quiet c c := .of_eq rfl rfl rfl rfl

theorem Quiet.trans (h : Quiet c c') (h' : Quiet c' c'') : Quiet c c'' where
  peer peer'' hpeer := by
    obtain ⟨peer', hpeer', hctx', hprotector'⟩ := h'.peer peer'' hpeer
    obtain ⟨peer, hpeer, hctx, hprotector⟩ := h.peer peer' hpeer'
    exact ⟨peer, hpeer, hctx'.trans hctx, hprotector'.trans hprotector⟩
  receivers id r'' hr := by
    obtain ⟨r', hr', hctx', hdatagram'⟩ := h'.receivers id r'' hr
    obtain ⟨r, hr, hctx, hdatagram⟩ := h.receivers id r' hr'
    exact ⟨r, hr, hctx'.trans hctx, hdatagram'.trans hdatagram⟩
  tick := h'.tick.trans h.tick
  log := by
    obtain ⟨effects, hlog, hsilent⟩ := h.log
    obtain ⟨effects', hlog', hsilent'⟩ := h'.log
    refine ⟨effects ++ effects', by rw [hlog', hlog, List.append_assoc], fun effect heffect => ?_⟩
    exact (List.mem_append.mp heffect).elim (hsilent effect) (hsilent' effect)

theorem Quiet.modifyPeer (h : Quiet c c') {f : Peer → Peer}
    (hctx : ∀ peer, (f peer).cryptoCtx = peer.cryptoCtx)
    (hprotector : ∀ peer, (f peer).replayProtector = peer.replayProtector) :
    Quiet c (c'.modifyPeer f) := by
  refine h.trans ⟨fun peer' hpeer => ?_, fun id r' hr => ⟨r', hr, rfl, rfl⟩, rfl,
    ⟨[], (List.append_nil _).symm, by simp⟩⟩
  obtain ⟨peer, hold, rfl⟩ := Option.map_eq_some_iff.mp hpeer
  exact ⟨peer, hold, hctx peer, hprotector peer⟩

theorem Quiet.modifyEmitter (h : Quiet c c') (name : EmitterName) (f : Emitter → Emitter) :
    Quiet c (c'.modifyEmitter name f) :=
  h.trans (.of_eq rfl rfl rfl rfl)

theorem Quiet.emitterStop (h : Quiet c c') (name : EmitterName) :
    Quiet c (c'.emitterStop name) :=
  h.modifyEmitter name _

theorem Quiet.emitterStart (h : Quiet c c') (env : ClientEnv) (name : EmitterName) :
    Quiet c (c'.emitterStart env name).1 := by
  unfold Client.emitterStart
  split
  · exact h
  · split
    · exact h.modifyEmitter name fun e => { e with running := true, triggerCounter := 0 }
    · exact h

theorem Quiet.note (h : Quiet c c') (effect : ClientEffect) (heffect : Silent effect) :
    Quiet c (c'.note effect) := by
  refine h.trans ⟨fun peer' hpeer => ⟨peer', hpeer, rfl, rfl⟩, fun id r' hr => ⟨r', hr, rfl, rfl⟩,
    rfl, [effect], rfl, fun other hother => ?_⟩
  rw [List.mem_singleton.mp hother]
  exact heffect

theorem Quiet.fault (h : Quiet c c') : Quiet c c'.fault := h.trans (.of_eq rfl rfl rfl rfl)

theorem Quiet.socketStop (h : Quiet c c') : Quiet c c'.socketStop := by
  unfold Client.socketStop
  split
  · exact h
  · exact h.trans (.of_eq rfl rfl rfl rfl)

theorem Quiet.take (h : Quiet c c') (id : ReceiverId) : Quiet c (c'.setReceiver id none) := by
  refine h.trans ⟨fun peer' hpeer => ⟨peer', hpeer, rfl, rfl⟩, fun other r' hr => ?_, rfl,
    ⟨[], (List.append_nil _).symm, by simp⟩⟩
  simp only [Client.setReceiver, Function.update_apply] at hr
  split at hr
  · cases hr
  · exact ⟨r', hr, rfl, rfl⟩

theorem Quiet.releasePeer (h : Quiet c c') (peer : Peer) : Quiet c (c'.releasePeer peer) := by
  refine h.trans ⟨fun peer' hpeer => ?_, fun id r' hr => ?_, rfl,
    ⟨[], (List.append_nil _).symm, by simp⟩⟩
  · cases hpeer
  · simp only [Client.releasePeer] at hr
    split at hr
    · obtain ⟨r, hold, rfl⟩ := Option.map_eq_some_iff.mp hr
      exact ⟨r, hold, rfl, rfl⟩
    · exact ⟨r', hr, rfl, rfl⟩

theorem Quiet.stop (h : Quiet c c') : Quiet c c'.stop := by
  unfold Client.stop
  split
  · exact h
  · exact ((((h.emitterStop _).emitterStop _).emitterStop _).emitterStop _).releasePeer _

theorem Quiet.retryAddress (h : Quiet c c') : Quiet c c'.retryAddress := h.stop.fault

theorem Quiet.nextAddress (h : Quiet c c') : Quiet c c'.nextAddress.1 :=
  h.trans (.of_eq rfl rfl rfl rfl)

end Operations

section Handlers

variable {c c' : Client} {env : ClientEnv}

theorem Quiet.dispatch (h : Quiet c c') {datagram : Datagram}
    (hdatagram : Silent (.emitted datagram)) : Quiet c (dispatch env c' datagram) := by
  unfold Client.dispatch
  split
  · refine Quiet.note ?_ _ hdatagram
    refine Quiet.modifyPeer ?_ (fun _ => rfl) fun _ => rfl
    exact h.trans (.of_eq rfl rfl rfl rfl)
  · exact h

theorem Quiet.sendOwn (h : Quiet c c') (peer : Peer) {type : PacketType} (htype : type ≠ .payload)
    (body : PacketBody) : Quiet c (sendOwn env c' peer type body) := by
  have hnext : Quiet c (c'.modifyPeer fun peer => peer.nextSequence.1) :=
    h.modifyPeer (fun _ => rfl) fun _ => rfl
  simp only [Client.sendOwn]
  split
  · exact hnext.dispatch ⟨htype, _, _, rfl⟩
  · exact hnext.socketStop

theorem Quiet.sendRequest (h : Quiet c c') : Quiet c (sendRequest env c') := by
  unfold Client.sendRequest
  split
  · split
    · exact h.fault
    · exact h.dispatch trivial
  · exact h.socketStop

theorem Quiet.sendResponse (h : Quiet c c') : Quiet c (sendResponse env c') := by
  unfold Client.sendResponse
  split
  · exact h.fault
  · exact h.sendOwn _ (by decide) _

theorem Quiet.sendDisconnect (h : Quiet c c') : Quiet c (sendDisconnect env c') := by
  unfold Client.sendDisconnect
  split
  · exact h.fault
  · exact h.sendOwn _ (by decide) _

theorem Quiet.sendKeepAlive (h : Quiet c c') : Quiet c (sendKeepAlive env c') := by
  unfold Client.sendKeepAlive
  split
  · exact h.fault
  · split
    · refine Quiet.socketStop (Quiet.note ?_ _ trivial)
      exact (h.emitterStop _).modifyPeer (fun _ => rfl) fun _ => rfl
    · exact h.sendOwn _ (by decide) _

theorem Quiet.trigger (h : Quiet c c') (name : EmitterName) : Quiet c (trigger env c' name) := by
  cases name with
  | request => exact h.sendRequest
  | response => exact h.sendResponse
  | keepAlive => exact h.sendKeepAlive
  | disconnect => exact h.sendDisconnect

theorem Quiet.onTriggered (h : Quiet c c') (name : EmitterName) :
    Quiet c (onTriggered env c' name) := by
  have htrigger : Quiet c (Client.trigger env c' name) := h.trigger name
  have hcounted := htrigger.modifyEmitter name fun e =>
    { e with triggerCounter := e.triggerCounter + 1 }
  simp only [Client.onTriggered]
  split
  · exact ((hcounted.emitterStop name).emitterStop .disconnect).socketStop
  · exact hcounted

theorem Quiet.recvDenied (h : Quiet c c') : Quiet c (recvDenied c') := by
  have hdenied : Quiet c (c'.modifyPeer fun peer => { peer with state := .denied }) :=
    h.modifyPeer (fun _ => rfl) fun _ => rfl
  have hnext := hdenied.nextAddress
  unfold Client.recvDenied
  simp only [Client.nextAddress] at hnext ⊢
  split
  · rename_i heq
    obtain ⟨rfl, -⟩ := Prod.mk.inj heq
    exact (hnext.note (.connectResult .denied) trivial).socketStop
  · rename_i heq
    obtain ⟨rfl, -⟩ := Prod.mk.inj heq
    exact hnext.retryAddress

theorem Quiet.recvChallenge (h : Quiet c c') (peer : Peer) (sequence : UInt64)
    (token : Crypto.SealedChallenge) : Quiet c (recvChallenge env c' peer sequence token) := by
  unfold Client.recvChallenge
  split
  · exact h
  · have hresponse : Quiet c (c'.modifyPeer fun peer => { peer with state := .response }) :=
      h.modifyPeer (fun _ => rfl) fun _ => rfl
    have hanswering := hresponse.emitterStop .request
    have htaken : Quiet c
        { (c'.modifyPeer fun peer => { peer with state := .response }).emitterStop .request with
          challengeTokenSequence := sequence, challengeTokenData := token } :=
      hanswering.trans (.of_eq rfl rfl rfl rfl)
    have hstarted := htaken.emitterStart env .response
    simp only []
    split
    · exact hstarted
    · exact hstarted.socketStop

theorem Quiet.recvDisconnect (h : Quiet c c') (peer : Peer) :
    Quiet c (recvDisconnect c' peer) := by
  unfold Client.recvDisconnect
  split
  · exact h
  · refine Quiet.socketStop (Quiet.note ?_ _ trivial)
    exact h.modifyPeer (fun _ => rfl) fun _ => rfl

theorem Quiet.recvKeepAlive (h : Quiet c c') (peer : Peer) (clientId : Int64) :
    Quiet c (recvKeepAlive env c' peer clientId) := by
  unfold Client.recvKeepAlive
  split
  · exact h
  · have hconnected : Quiet c (c'.modifyPeer fun peer =>
        { peer with state := .connected, clientId := clientId }) :=
      h.modifyPeer (fun _ => rfl) fun _ => rfl
    have hstarted := (hconnected.emitterStop .response).emitterStart env .keepAlive
    simp only []
    split
    · exact (hstarted.note (.connectResult .success) trivial).note _ trivial
    · exact hstarted.socketStop

theorem Quiet.senderComplete (h : Quiet c c') (id : SenderId) :
    Quiet c (senderComplete c' id) := by
  unfold Client.senderComplete
  split
  · exact h
  · have htaken : Quiet c (c'.setSender id none) := h.trans (.of_eq rfl rfl rfl rfl)
    simp only []
    split
    · exact htaken
    · exact htaken.modifyPeer (fun _ => rfl) fun _ => rfl

theorem Quiet.handleRequestTimeout (h : Quiet c c') : Quiet c (handleRequestTimeout c') := by
  have hstopped := h.emitterStop .request
  have hlate := hstopped.modifyPeer (f := fun peer => { peer with state := lateState peer.state })
    (fun _ => rfl) fun _ => rfl
  have hnext := hlate.nextAddress
  simp only [Client.handleRequestTimeout]
  split
  · exact hstopped.fault
  · simp only [Client.nextAddress] at hnext ⊢
    split
    · rename_i heq
      obtain ⟨rfl, -⟩ := Prod.mk.inj heq
      exact (hnext.note (.connectResult .timedOut) trivial).socketStop
    · rename_i heq
      obtain ⟨rfl, -⟩ := Prod.mk.inj heq
      exact hnext.retryAddress

theorem Quiet.disconnectPeer (h : Quiet c c') : Quiet c (disconnectPeer env c') := by
  unfold Client.disconnectPeer
  split
  · exact h
  · split
    · exact h
    · have hparked : Quiet c ((c'.emitterStop .keepAlive).modifyPeer fun peer =>
          { peer with state := .disconnecting }) :=
        (h.emitterStop _).modifyPeer (fun _ => rfl) fun _ => rfl
      have hstarted :=
        (hparked.note .disconnected trivial).emitterStart env .disconnect
      simp only []
      split
      · exact hstarted
      · exact hstarted.socketStop

theorem Quiet.stopDeferred (h : Quiet c c') : Quiet c c'.stopDeferred := by
  refine Quiet.stop (Quiet.modifyPeer ?_ (fun _ => rfl) fun _ => rfl)
  exact h.trans (.of_eq rfl rfl rfl rfl)

end Handlers

section Turns

/-- What one callback does with payloads and datagrams. -/
inductive Turn (i : ClientInput) (c : Client) : Client → Prop
  | quiet {c' : Client} (h : Quiet c c') : Turn i c c'
  | pass {address : Address} {datagram : Datagram} {peer : Peer}
      (event : i.event = .accept address datagram) (hpeer : c.peer = some peer)
      (passes : (validate peer address datagram.header).2 = true) :
      Turn i c { c with peer := some (validate peer address datagram.header).1 }
  | submit {address : Address} {datagram : Datagram} {peer : Peer}
      (event : i.event = .accept address datagram) (hpeer : c.peer = some peer)
      (passes : (validate peer address datagram.header).2 = true) :
      Turn i c (submitReceiver i.env
        { c with peer := some (validate peer address datagram.header).1 }
        (validate peer address datagram.header).1 datagram)
  | receive {id : ReceiverId} {r : Receiver} {data : List UInt8} {c' : Client}
      (hreceiver : c.receivers id = some r)
      (payload : processEntry r.cryptoCtx r.datagram = some (.payload data)) (h : Quiet c c')
      (taken : c'.receivers id = none) : Turn i c (c'.note (.received id r.datagram))
  | send {views : List (List UInt8)} {peer : Peer} {c' : Client}
      (event : i.event = .send views) (hpeer : c.peer = some peer) (h : Quiet c c') :
      Turn i c (c'.note (.emitted (sealedPacket peer ⟨.payload, peer.sequenceNumber⟩
        (.payload views.flatten))))

variable {c : Client} {i : ClientInput}

theorem validate_rejected {peer : Peer} {address : Address} {header : Header}
    (h : (validate peer address header).2 = false) :
    (validate peer address header).1 = peer := by
  revert h
  unfold validate
  repeat' split
  all_goals intro h
  all_goals first
    | rfl
    | exact Server.protectReplay_rejected h

theorem validate_passes {peer : Peer} {address : Address} {header : Header}
    (h : (validate peer address header).2 = true) :
    (validate peer address header).1.cryptoCtx = peer.cryptoCtx ∧
      if header.type.isProtected then
        (peer.replayProtector.protectReplay header.sequence).2 = true ∧
          (validate peer address header).1.replayProtector =
            (peer.replayProtector.protectReplay header.sequence).1
      else (validate peer address header).1.replayProtector = peer.replayProtector := by
  revert h
  unfold validate
  split
  · intro h
    cases h
  · cases htype : header.type with
    | denied => exact fun _ => ⟨rfl, rfl⟩
    | challenge => exact fun _ => ⟨rfl, rfl⟩
    | request => exact fun h => by cases h
    | response => exact fun h => by cases h
    | keepAlive | payload | disconnect =>
        simp only []
        split
        · exact fun h => ⟨rfl, h, rfl⟩
        · exact fun h => by cases h

theorem turn_accept (address : Address) (datagram : Datagram)
    (event : i.event = .accept address datagram) :
    Turn i c (accept i.env c address datagram) := by
  unfold Client.accept
  split
  · exact .quiet (.refl c)
  · split
    · exact .quiet (.refl c)
    · split
      · exact .quiet (Quiet.refl c).fault
      next peer hpeer =>
      simp only []
      split
      next hpasses =>
        split
        · exact .submit event hpeer hpasses
        · exact .pass event hpeer hpasses
      next hrejected =>
        rw [validate_rejected (by simpa using hrejected)]
        exact .quiet (.of_eq hpeer.symm rfl rfl rfl)

theorem turn_receiverComplete (id : ReceiverId) (workerFailed : Bool) :
    Turn i c (receiverComplete i.env c id workerFailed) := by
  unfold Client.receiverComplete
  split
  · exact .quiet (.refl c)
  next r hreceiver =>
  have htaken : Quiet c (c.setReceiver id none) := (Quiet.refl c).take id
  simp only []
  split
  · exact .quiet htaken
  have herased : Quiet c ((c.setReceiver id none).modifyPeer fun peer =>
      { peer with receivers := peer.receivers.erase id }) :=
    htaken.modifyPeer (fun _ => rfl) fun _ => rfl
  unfold handleReceiverComplete
  split
  · exact .quiet herased
  split
  next peer packet hpeer hpacket =>
    split
    · have hheard := herased.modifyPeer (f := fun peer =>
        { peer with lastRecvTime := r.recvTime }) (fun _ => rfl) fun _ => rfl
      cases packet with
      | payload data =>
          have hpayload : processEntry r.cryptoCtx r.datagram = some (.payload data) := by
            split at hpacket
            · cases hpacket
            · exact hpacket
          exact .receive hreceiver hpayload hheard (Function.update_self _ _ _)
      | denied => exact .quiet hheard.recvDenied
      | challenge sequence token => exact .quiet (hheard.recvChallenge peer sequence token)
      | disconnect => exact .quiet (hheard.recvDisconnect peer)
      | keepAlive clientId => exact .quiet (hheard.recvKeepAlive peer clientId)
      | request _ _ _ => exact .quiet hheard
      | response _ _ => exact .quiet hheard
    · exact .quiet herased
  · exact .quiet herased

theorem turn_socketSend (views : List (List UInt8)) (event : i.event = .send views) :
    Turn i c (socketSend i.env c views) := by
  unfold Client.socketSend
  split
  · exact .quiet (.refl c)
  next peer hpeer =>
  have hnext : Quiet c (c.modifyPeer fun peer => peer.nextSequence.1) :=
    (Quiet.refl c).modifyPeer (fun _ => rfl) fun _ => rfl
  split
  · simp only []
    split
    · unfold Client.dispatch
      split
      · refine .send event hpeer ?_
        refine Quiet.modifyPeer ?_ (fun _ => rfl) fun _ => rfl
        exact hnext.trans (.of_eq rfl rfl rfl rfl)
      · exact .quiet hnext
    · exact .quiet hnext
  · exact .quiet (.refl c)

theorem turn_handle (c : Client) (i : ClientInput) : Turn i c (handle i.env c i.event) := by
  have hrefl := Quiet.refl c
  cases hevent : i.event with
  | accept address datagram => exact turn_accept address datagram hevent
  | receiverComplete id workerFailed => exact turn_receiverComplete id workerFailed
  | senderComplete id => exact .quiet (hrefl.senderComplete id)
  | send views => exact turn_socketSend views hevent
  | disconnectPeer => exact .quiet hrefl.disconnectPeer
  | triggerTimer name =>
      simp only [handle]
      split
      · exact .quiet (hrefl.modifyEmitter name fun e => { e with triggerTask := true })
      · exact .quiet hrefl
  | triggered name =>
      simp only [handle]
      split
      · exact .quiet ((hrefl.modifyEmitter name fun e =>
          { e with triggerTask := false }).onTriggered name)
      · exact .quiet hrefl
  | timeoutTimer =>
      simp only [handle]
      split
      · exact .quiet (hrefl.modifyEmitter .request fun e => { e with timeoutTask := true })
      · exact .quiet hrefl
  | timedOut =>
      simp only [handle]
      split
      · exact .quiet (hrefl.modifyEmitter .request fun e =>
          { e with timeoutTask := false }).handleRequestTimeout
      · exact .quiet hrefl
  | stop => exact .quiet hrefl.socketStop
  | stopDeferred =>
      simp only [handle]
      split
      · exact .quiet hrefl.stopDeferred
      · exact .quiet hrefl

theorem turn_step (c : Client) (i : ClientInput) :
    step c i = c ∨ Turn i { c with tick := c.tick + 1 } (step c i) := by
  unfold Client.step
  split
  · exact .inl rfl
  · exact .inr (turn_handle _ i)

theorem Quiet.grows {c' : Client} (h : Quiet c c') : ∃ effects, c'.log = c.log ++ effects :=
  h.log.imp fun _ hlog => hlog.1

theorem Turn.grows {c' : Client} (h : Turn i c c') : ∃ effects, c'.log = c.log ++ effects := by
  cases h with
  | quiet h => exact h.grows
  | pass => exact ⟨[], (List.append_nil _).symm⟩
  | submit => exact ⟨[], (List.append_nil _).symm⟩
  | receive _ _ h =>
      obtain ⟨effects, hlog⟩ := h.grows
      exact ⟨effects ++ [_], by rw [note, hlog, List.append_assoc]⟩
  | send _ _ h =>
      obtain ⟨effects, hlog⟩ := h.grows
      exact ⟨effects ++ [_], by rw [note, hlog, List.append_assoc]⟩

theorem log_step (c : Client) (i : ClientInput) :
    ∃ effects, (step c i).log = c.log ++ effects := by
  rcases turn_step c i with hsame | hturn
  · exact ⟨[], by rw [hsame, List.append_nil]⟩
  · exact hturn.grows

end Turns

section Traffic

variable {ctx : CryptoContext} {arrived : Datagram → Prop} {given : List UInt8 → Prop}
  {c c' : Client} {i : ClientInput}

/-- The payloads that were passed on came in datagrams that arrived, sealed under the keys of
the token; the payloads that were sent had been given to the client. -/
structure Traffic (ctx : CryptoContext) (arrived : Datagram → Prop) (given : List UInt8 → Prop)
    (c : Client) : Prop where
  context : ∀ peer, c.peer = some peer → peer.cryptoCtx = some ctx
  receivers : ∀ id r, c.receivers id = some r → r.cryptoCtx = ctx ∧ arrived r.datagram
  received : ∀ id datagram, .received id datagram ∈ c.log →
    arrived datagram ∧ ∃ data, processEntry ctx datagram = some (.payload data)
  emitted : ∀ header body, .emitted (.packet header body) ∈ c.log →
    ∃ ctx' : CryptoContext, ∃ plain, body = ctx'.encryptPacket header plain ∧
      (header.type = .payload → ctx' = ctx ∧ ∃ data, plain = .payload data ∧ given data)

theorem Traffic.mono {arrived' : Datagram → Prop} {given' : List UInt8 → Prop}
    (h : Traffic ctx arrived given c) (harrived : ∀ datagram, arrived datagram → arrived' datagram)
    (hgiven : ∀ data, given data → given' data) : Traffic ctx arrived' given' c where
  context := h.context
  receivers id r hr := ⟨(h.receivers id r hr).1, harrived _ (h.receivers id r hr).2⟩
  received id datagram hmem :=
    ⟨harrived _ (h.received id datagram hmem).1, (h.received id datagram hmem).2⟩
  emitted header body hmem := by
    obtain ⟨ctx', plain, hbody, hpayload⟩ := h.emitted header body hmem
    refine ⟨ctx', plain, hbody, fun htype => ?_⟩
    obtain ⟨hctx, data, hplain, hdata⟩ := hpayload htype
    exact ⟨hctx, data, hplain, hgiven data hdata⟩

theorem Traffic.quiet (h : Traffic ctx arrived given c) (hquiet : Quiet c c') :
    Traffic ctx arrived given c' where
  context peer' hpeer' := by
    obtain ⟨peer, hpeer, hctx, -⟩ := hquiet.peer peer' hpeer'
    rw [hctx]
    exact h.context peer hpeer
  receivers id r' hr' := by
    obtain ⟨r, hr, hctx, hdatagram⟩ := hquiet.receivers id r' hr'
    rw [hctx, hdatagram]
    exact h.receivers id r hr
  received id datagram hmem := by
    obtain ⟨effects, hlog, hsilent⟩ := hquiet.log
    rw [hlog] at hmem
    rcases List.mem_append.mp hmem with hold | hnew
    · exact h.received id datagram hold
    · exact (hsilent _ hnew).elim
  emitted header body hmem := by
    obtain ⟨effects, hlog, hsilent⟩ := hquiet.log
    rw [hlog] at hmem
    rcases List.mem_append.mp hmem with hold | hnew
    · exact h.emitted header body hold
    · obtain ⟨htype, ctx', plain, hbody⟩ := hsilent _ hnew
      exact ⟨ctx', plain, hbody, fun hpayload => absurd hpayload htype⟩

theorem Traffic.turn (h : Traffic ctx arrived given c) (hturn : Turn i c c')
    (harrives : ∀ address datagram, i.event = .accept address datagram → arrived datagram)
    (hgives : ∀ views, i.event = .send views → given views.flatten) :
    Traffic ctx arrived given c' := by
  have hpasses : ∀ {address : Address} {datagram : Datagram} {peer : Peer},
      c.peer = some peer → (validate peer address datagram.header).2 = true →
        Traffic ctx arrived given
          { c with peer := some (validate peer address datagram.header).1 } := by
    intro address datagram peer hpeer hpasses
    refine ⟨fun peer' hpeer' => ?_, h.receivers, h.received, h.emitted⟩
    obtain rfl := Option.some.inj hpeer'
    rw [(validate_passes hpasses).1]
    exact h.context peer hpeer
  cases hturn with
  | quiet hquiet => exact h.quiet hquiet
  | pass event hpeer passes => exact hpasses hpeer passes
  | @submit address datagram peer event hpeer passes =>
      have hpassed := hpasses hpeer passes
      have hctx : (validate peer address datagram.header).1.cryptoCtx = some ctx :=
        hpassed.context _ rfl
      refine ⟨fun peer' hpeer' => ?_, fun id r hr => ?_, hpassed.received, hpassed.emitted⟩
      · obtain rfl := Option.some.inj hpeer'
        exact hctx
      · simp only [submitReceiver, setReceiver, Client.modifyPeer, Function.update_apply] at hr
        split at hr
        · obtain rfl := Option.some.inj hr
          refine ⟨?_, harrives _ _ event⟩
          rw [hctx]
          rfl
        · exact h.receivers id r hr
  | @receive id r data c' hreceiver payload hquiet taken =>
      have hnext := h.quiet hquiet
      refine ⟨hnext.context, hnext.receivers, fun id' datagram hmem => ?_,
        fun header body hmem => ?_⟩
      · rcases List.mem_append.mp hmem with hold | hnew
        · exact hnext.received id' datagram hold
        · obtain ⟨-, rfl⟩ := ClientEffect.received.inj (List.mem_singleton.mp hnew)
          obtain ⟨hctx, harrived⟩ := h.receivers id r hreceiver
          exact ⟨harrived, data, hctx ▸ payload⟩
      · rcases List.mem_append.mp hmem with hold | hnew
        · exact hnext.emitted header body hold
        · cases List.mem_singleton.mp hnew
  | @send views peer c' event hpeer hquiet =>
      have hnext := h.quiet hquiet
      refine ⟨hnext.context, hnext.receivers, fun id' datagram hmem => ?_,
        fun header body hmem => ?_⟩
      · rcases List.mem_append.mp hmem with hold | hnew
        · exact hnext.received id' datagram hold
        · cases List.mem_singleton.mp hnew
      · rcases List.mem_append.mp hmem with hold | hnew
        · exact hnext.emitted header body hold
        · obtain ⟨rfl, rfl⟩ := Datagram.packet.inj
            (ClientEffect.emitted.inj (List.mem_singleton.mp hnew))
          refine ⟨_, _, rfl, fun _ => ⟨?_, _, rfl, hgives views event⟩⟩
          rw [h.context peer hpeer]
          rfl

theorem traffic_start (token : ClientToken) (address : Address) (payloadCapacity : ℕ)
    (hrtime leftover : UInt64) (arrived : Datagram → Prop) (given : List UInt8 → Prop) :
    Traffic (contextOf token) arrived given
      (start token address payloadCapacity hrtime leftover) where
  context peer hpeer := by
    obtain rfl := Option.some.inj hpeer
    rfl
  receivers id r hr := by cases hr
  received id datagram hmem := by simp [start] at hmem
  emitted header body hmem := by simp [start] at hmem

theorem Traffic.step (h : Traffic ctx arrived given c)
    (harrives : ∀ address datagram, i.event = .accept address datagram → arrived datagram)
    (hgives : ∀ views, i.event = .send views → given views.flatten) :
    Traffic ctx arrived given (step c i) := by
  rcases turn_step c i with hsame | hturn
  · rw [hsame]
    exact h
  · have hticked : Traffic ctx arrived given { c with tick := c.tick + 1 } :=
      ⟨h.context, h.receivers, h.received, h.emitted⟩
    exact hticked.turn hturn harrives hgives

end Traffic

section Replay

variable {c c' : Client} {i : ClientInput}

/-- The datagram whose payload was passed to the application. -/
def receivedOf : ClientEffect → Option Datagram
  | .received _ datagram => some datagram
  | _ => none

/-- The datagrams whose payloads were passed to the application so far. -/
def receivedDatagrams (c : Client) : List Datagram := c.log.filterMap receivedOf

/-- A datagram is with the receiver of a number, or was passed on from it. -/
def Passed (c : Client) (id : ReceiverId) (datagram : Datagram) : Prop :=
  (∃ r, c.receivers id = some r ∧ r.datagram = datagram) ∨ .received id datagram ∈ c.log

/-- What passed under replay protection is held by the replay protector of the peer. -/
structure Windowed (c : Client) : Prop where
  names : ∀ id datagram, c.Passed id datagram → id ≤ c.tick
  held : ∀ peer, c.peer = some peer → ∀ id datagram, c.Passed id datagram →
    datagram.header.type.isProtected = true →
      peer.replayProtector.Holds datagram.header.sequence
  once : ∀ id datagram id' datagram', c.Passed id datagram → c.Passed id' datagram' →
    datagram.header.type.isProtected = true → datagram'.header.type.isProtected = true →
      datagram'.header.sequence = datagram.header.sequence → id' = id
  settled : ∀ id datagram, .received id datagram ∈ c.log →
    c.receivers id = none ∧ datagram.header.type = .payload
  distinct : c.receivedDatagrams.Nodup

/-- The last sequence number, which marks a free slot of a replay protector, passes
validation. -/
def lastNumberPasses (c : Client) (i : ClientInput) : Bool :=
  match i.event, c.peer with
  | .accept address datagram, some peer =>
      datagram.header.type.isProtected &&
        decide (datagram.header.sequence = 0xffffffffffffffff) &&
          (validate peer address datagram.header).2
  | _, _ => false

theorem Quiet.received (h : Quiet c c') {id : ReceiverId} {datagram : Datagram}
    (hmem : .received id datagram ∈ c'.log) : .received id datagram ∈ c.log := by
  obtain ⟨effects, hlog, hsilent⟩ := h.log
  rw [hlog] at hmem
  exact (List.mem_append.mp hmem).resolve_right fun hnew => hsilent _ hnew

theorem Quiet.passed (h : Quiet c c') {id : ReceiverId} {datagram : Datagram}
    (hpassed : c'.Passed id datagram) : c.Passed id datagram := by
  rcases hpassed with ⟨r', hr', rfl⟩ | hmem
  · obtain ⟨r, hr, -, hdatagram⟩ := h.receivers id r' hr'
    exact .inl ⟨r, hr, hdatagram.symm⟩
  · exact .inr (h.received hmem)

theorem Quiet.receivedDatagrams_eq (h : Quiet c c') :
    c'.receivedDatagrams = c.receivedDatagrams := by
  obtain ⟨effects, hlog, hsilent⟩ := h.log
  have hnone : effects.filterMap receivedOf = [] := by
    rw [List.filterMap_eq_nil_iff]
    intro effect heffect
    have hsilent := hsilent effect heffect
    cases effect with
    | received id datagram => exact hsilent.elim
    | _ => rfl
  rw [receivedDatagrams, hlog, List.filterMap_append, hnone, List.append_nil]
  rfl

theorem mem_receivedDatagrams {datagram : Datagram} :
    datagram ∈ c.receivedDatagrams ↔ ∃ id, .received id datagram ∈ c.log := by
  unfold receivedDatagrams
  rw [List.mem_filterMap]
  constructor
  · rintro ⟨effect, hmem, heq⟩
    cases effect with
    | received id other => exact ⟨id, Option.some.inj heq ▸ hmem⟩
    | _ => cases heq
  · rintro ⟨id, hmem⟩
    exact ⟨_, hmem, rfl⟩

theorem Windowed.quiet (h : Windowed c) (hquiet : Quiet c c') : Windowed c' where
  names id datagram hpassed := by
    rw [hquiet.tick]
    exact h.names id datagram (hquiet.passed hpassed)
  held peer' hpeer' id datagram hpassed htype := by
    obtain ⟨peer, hpeer, -, hprotector⟩ := hquiet.peer peer' hpeer'
    rw [hprotector]
    exact h.held peer hpeer id datagram (hquiet.passed hpassed) htype
  once id datagram id' datagram' hpassed hpassed' :=
    h.once id datagram id' datagram' (hquiet.passed hpassed) (hquiet.passed hpassed')
  settled id datagram hmem := by
    obtain ⟨hnone, htype⟩ := h.settled id datagram (hquiet.received hmem)
    refine ⟨Option.eq_none_iff_forall_ne_some.mpr fun r' hr' => ?_, htype⟩
    obtain ⟨r, hr, -⟩ := hquiet.receivers id r' hr'
    rw [hnone] at hr
    cases hr
  distinct := hquiet.receivedDatagrams_eq ▸ h.distinct

theorem Windowed.pass (h : Windowed c) {address : Address} {datagram : Datagram} {peer : Peer}
    (hpeer : c.peer = some peer) (hpasses : (validate peer address datagram.header).2 = true)
    (hlast : datagram.header.type.isProtected = true →
      datagram.header.sequence ≠ 0xffffffffffffffff) :
    Windowed { c with peer := some (validate peer address datagram.header).1 } ∧
      (datagram.header.type.isProtected = true →
        (validate peer address datagram.header).1.replayProtector.Holds
          datagram.header.sequence ∧
        ∀ id other, c.Passed id other → other.header.type.isProtected = true →
          other.header.sequence ≠ datagram.header.sequence) := by
  obtain ⟨-, hvalidate⟩ := validate_passes hpasses
  split at hvalidate
  next htype =>
    obtain ⟨haccepted, hprotector⟩ := hvalidate
    rw [hprotector]
    refine ⟨⟨h.names, fun peer' hpeer' id other hpassed hother => ?_, h.once, h.settled,
      h.distinct⟩, fun _ => ⟨?_, fun id other hpassed hother hsequence => ?_⟩⟩
    · obtain rfl := Option.some.inj hpeer'
      rw [hprotector]
      exact (h.held peer hpeer id other hpassed hother).protectReplay (hlast htype) haccepted
    · exact ReplayProtector.holds_protectReplay (hlast htype) haccepted
    · have hheld := h.held peer hpeer id other hpassed hother
      rw [hsequence] at hheld
      rw [hheld.not_accepted] at haccepted
      cases haccepted
  next htype =>
    refine ⟨⟨h.names, fun peer' hpeer' id other hpassed hother => ?_, h.once, h.settled,
      h.distinct⟩, fun hprotected => absurd hprotected htype⟩
    obtain rfl := Option.some.inj hpeer'
    rw [hvalidate]
    exact h.held peer hpeer id other hpassed hother

/-- Every turn keeps the window, if the last sequence number does not pass in it. -/
theorem Windowed.turn (h : Windowed c) (hfresh : ∀ id datagram, c.Passed id datagram → id < c.tick)
    (hlast : c.lastNumberPasses i = false) (hturn : Turn i c c') : Windowed c' := by
  have hnumber : ∀ {address : Address} {datagram : Datagram} {peer : Peer},
      i.event = .accept address datagram → c.peer = some peer →
        (validate peer address datagram.header).2 = true →
          datagram.header.type.isProtected = true →
            datagram.header.sequence ≠ 0xffffffffffffffff := by
    intro address datagram peer event hpeer passes hprotected hsequence
    simp [lastNumberPasses, event, hpeer, hprotected, hsequence, passes] at hlast
  cases hturn with
  | quiet hquiet => exact h.quiet hquiet
  | pass event hpeer passes => exact (h.pass hpeer passes (hnumber event hpeer passes)).1
  | @submit address datagram peer event hpeer passes =>
      obtain ⟨hpassed, hown⟩ := h.pass hpeer passes (hnumber event hpeer passes)
      generalize hvalidated : (validate peer address datagram.header).1 = validated at *
      have hcases : ∀ id other,
          (submitReceiver i.env { c with peer := some validated } validated datagram).Passed
            id other → id = c.tick ∧ other = datagram ∨ id ≠ c.tick ∧ c.Passed id other := by
        rintro id other (⟨r, hr, rfl⟩ | hmem)
        · simp only [submitReceiver, setReceiver, Client.modifyPeer, Function.update_apply] at hr
          split at hr
          next heq =>
            obtain rfl := Option.some.inj hr
            exact .inl ⟨heq, rfl⟩
          next hne => exact .inr ⟨hne, .inl ⟨r, hr, rfl⟩⟩
        · exact .inr ⟨(hfresh id other (.inr hmem)).ne, .inr hmem⟩
      constructor
      · intro id other hother
        rcases hcases id other hother with ⟨rfl, -⟩ | ⟨-, hold⟩
        · exact Nat.le_refl _
        · exact h.names id other hold
      · intro peer' hpeer' id other hother hprotected
        obtain rfl := Option.some.inj hpeer'
        rcases hcases id other hother with ⟨-, rfl⟩ | ⟨-, hold⟩
        · exact (hown hprotected).1
        · exact hpassed.held validated rfl id other hold hprotected
      · intro id other id' other' hother hother' hprotected hprotected' hsequence
        rcases hcases id other hother with ⟨rfl, rfl⟩ | ⟨-, hold⟩
        · rcases hcases id' other' hother' with ⟨rfl, -⟩ | ⟨-, hold'⟩
          · rfl
          · exact absurd hsequence ((hown hprotected).2 id' other' hold' hprotected')
        · rcases hcases id' other' hother' with ⟨-, rfl⟩ | ⟨-, hold'⟩
          · exact absurd hsequence.symm ((hown hprotected').2 id other hold hprotected)
          · exact h.once id other id' other' hold hold' hprotected hprotected' hsequence
      · intro id other hmem
        obtain ⟨hnone, htype⟩ := h.settled id other hmem
        have hne : id ≠ c.tick := (hfresh id other (.inr hmem)).ne
        exact ⟨(Function.update_of_ne hne _ _).trans hnone, htype⟩
      · exact h.distinct
  | @receive id r data c' hreceiver payload hquiet taken =>
      obtain ⟨header, htype, hdatagram⟩ := processEntry_eq_payload payload
      have hheader : r.datagram.header.type = .payload := by rw [hdatagram]; exact htype
      have hprotected : r.datagram.header.type.isProtected = true := by rw [hheader]; rfl
      have hflight : c.Passed id r.datagram := .inl ⟨r, hreceiver, rfl⟩
      have hnext := h.quiet hquiet
      have hcases : ∀ id' other, (c'.note (.received id r.datagram)).Passed id' other →
          c.Passed id' other := by
        rintro id' other (⟨r', hr', rfl⟩ | hmem)
        · exact hquiet.passed (.inl ⟨r', hr', rfl⟩)
        · rcases List.mem_append.mp hmem with hold | hnew
          · exact hquiet.passed (.inr hold)
          · obtain ⟨rfl, rfl⟩ := ClientEffect.received.inj (List.mem_singleton.mp hnew)
            exact hflight
      constructor
      · intro id' other hother
        exact (h.names id' other (hcases id' other hother)).trans_eq hquiet.tick.symm
      · intro peer' hpeer' id' other hother
        obtain ⟨peer, hpeer, -, hprotector⟩ := hquiet.peer peer' hpeer'
        rw [hprotector]
        exact h.held peer hpeer id' other (hcases id' other hother)
      · intro id₁ other₁ id₂ other₂ h₁ h₂
        exact h.once id₁ other₁ id₂ other₂ (hcases id₁ other₁ h₁) (hcases id₂ other₂ h₂)
      · intro id' other hmem
        rcases List.mem_append.mp hmem with hold | hnew
        · exact hnext.settled id' other hold
        · obtain ⟨rfl, rfl⟩ := ClientEffect.received.inj (List.mem_singleton.mp hnew)
          exact ⟨taken, hheader⟩
      · have hlist : (c'.note (.received id r.datagram)).receivedDatagrams =
            c'.receivedDatagrams ++ [r.datagram] := List.filterMap_append
        rw [hlist, List.nodup_append]
        refine ⟨hnext.distinct, by simp, fun other hmem last hlast' heq => ?_⟩
        obtain rfl := List.mem_singleton.mp hlast'
        obtain ⟨id', hold⟩ := mem_receivedDatagrams.mp hmem
        have hreceived := hquiet.received hold
        obtain rfl : id' = id := h.once id r.datagram id' other hflight (.inr hreceived) hprotected
          (heq ▸ hprotected) (by rw [heq])
        rw [(h.settled id' other hreceived).1] at hreceiver
        cases hreceiver
  | @send views peer c' event hpeer hquiet =>
      have hnext := h.quiet hquiet
      have hlog : ∀ id other, .received id other ∈ (c'.note (.emitted (sealedPacket peer
          ⟨.payload, peer.sequenceNumber⟩ (.payload views.flatten)))).log →
            .received id other ∈ c'.log := by
        intro id other hmem
        refine (List.mem_append.mp hmem).resolve_right fun hnew => ?_
        cases List.mem_singleton.mp hnew
      refine ⟨fun id other hother => hnext.names id other (hother.imp_right (hlog id other)),
        fun peer' hpeer' id other hother => hnext.held peer' hpeer' id other
          (hother.imp_right (hlog id other)),
        fun id₁ other₁ id₂ other₂ h₁ h₂ => hnext.once id₁ other₁ id₂ other₂
          (h₁.imp_right (hlog _ _)) (h₂.imp_right (hlog _ _)),
        fun id other hmem => hnext.settled id other (hlog id other hmem), ?_⟩
      have hlist : (c'.note (.emitted (sealedPacket peer ⟨.payload, peer.sequenceNumber⟩
          (.payload views.flatten)))).receivedDatagrams = c'.receivedDatagrams ++ [] :=
        List.filterMap_append
      rw [hlist, List.append_nil]
      exact hnext.distinct

theorem windowed_start (token : ClientToken) (address : Address) (payloadCapacity : ℕ)
    (hrtime leftover : UInt64) :
    Windowed (start token address payloadCapacity hrtime leftover) := by
  have hnone : ∀ id datagram,
      ¬ (start token address payloadCapacity hrtime leftover).Passed id datagram := by
    rintro id datagram (⟨r, hr, -⟩ | hmem)
    · cases hr
    · simp [start] at hmem
  exact ⟨fun id datagram h => absurd h (hnone id datagram),
    fun peer _ id datagram h => absurd h (hnone id datagram),
    fun id datagram _ _ h => absurd h (hnone id datagram),
    fun id datagram h => absurd (.inr h) (hnone id datagram), List.nodup_nil⟩

theorem Windowed.step (h : Windowed c) (i : ClientInput) (hlast : c.lastNumberPasses i = false) :
    Windowed (step c i) := by
  rcases turn_step c i with hsame | hturn
  · rw [hsame]
    exact h
  · have hticked : Windowed { c with tick := c.tick + 1 } :=
      ⟨fun id datagram hpassed => Nat.le_succ_of_le (h.names id datagram hpassed), h.held, h.once,
        h.settled, h.distinct⟩
    exact hticked.turn (fun id datagram hpassed => Nat.lt_succ_of_le (h.names id datagram hpassed))
      hlast hturn

/-- A client passes the payload of a datagram to the application once at most, in every run in
which the last sequence number does not pass validation. -/
theorem payloads_nodup (token : ClientToken) (address : Address) (payloadCapacity : ℕ)
    (hrtime leftover : UInt64) (is : List ClientInput)
    (h : Along step (fun c i => c.lastNumberPasses i = false)
      (start token address payloadCapacity hrtime leftover) is) :
    (run step (start token address payloadCapacity hrtime leftover) is).receivedDatagrams.Nodup :=
  (invariant_run (I := Windowed) (fun _ i hs hlast => hs.step i hlast)
    (windowed_start token address payloadCapacity hrtime leftover) h).distinct

/-- A payload packet arrives at a connected client twice. -/
def replayedPayload : List ClientInput :=
  let payload := World.serverPacket ⟨.payload, 1⟩ (.payload [42])
  [⟨.plentiful 0, .accept (sampleAddress 9) (World.serverPacket ⟨.challenge, 0⟩
      (.challenge 0 (.encrypted 2 0 () ⟨1, 0⟩)))⟩,
    ⟨.plentiful 0, .receiverComplete 1 false⟩,
    ⟨.plentiful 0, .accept (sampleAddress 9) (World.serverPacket ⟨.keepAlive, 0⟩ (.keepAlive 1))⟩,
    ⟨.plentiful 0, .receiverComplete 3 false⟩,
    ⟨.plentiful 0, .accept (sampleAddress 9) payload⟩, ⟨.plentiful 0, .receiverComplete 5 false⟩,
    ⟨.plentiful 0, .accept (sampleAddress 9) payload⟩, ⟨.plentiful 0, .receiverComplete 7 false⟩]

theorem payloads_nodup_replayedPayload :
    (run step World.sampleClient replayedPayload).receivedDatagrams ≠ [] ∧
      (run step World.sampleClient replayedPayload).receivedDatagrams.Nodup :=
  ⟨by decide +kernel, payloads_nodup _ _ _ _ _ replayedPayload (by decide +kernel)⟩

end Replay

end Client

end Protocol

end PomeloUdp
