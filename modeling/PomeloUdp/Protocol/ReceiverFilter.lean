import PomeloUdp.Protocol.Client

/-!
# A client without some of its receivers

`Client.filter` takes receivers away from a client. A client never looks at a receiver before it
completes, so its steps are the same without those that do not complete (`step_filter`).
-/

namespace PomeloUdp

namespace Protocol

/-- Which receivers stay, and which names stay in the list of the peer. -/
structure ReceiverFilter where
  keep : ReceiverId → Receiver → Bool
  listed : ReceiverId → Bool
  keep_canceled : ∀ id r, keep id { r with peer := none, canceled := true } = keep id r
  keep_listed : ∀ id r, keep id r = true → listed id = true

namespace Client

/-- The client with the receivers that stay. -/
def filter (F : ReceiverFilter) (c : Client) : Client :=
  { c with
    receivers := fun id => (c.receivers id).filter (F.keep id)
    peer := c.peer.map fun peer => { peer with receivers := peer.receivers.filter F.listed } }

section Operations

variable (F : ReceiverFilter) (c : Client) (env : ClientEnv)

theorem filter_modifyPeer {f : Peer → Peer} (hf : ∀ peer, f { peer with
      receivers := peer.receivers.filter F.listed } =
        { f peer with receivers := (f peer).receivers.filter F.listed }) :
    (c.modifyPeer f).filter F = (c.filter F).modifyPeer f := by
  unfold filter modifyPeer
  simp only [Option.map_map]
  congr 2
  funext peer
  exact (hf peer).symm

theorem filter_fault : c.fault.filter F = (c.filter F).fault := rfl

theorem filter_note (effect : ClientEffect) :
    (c.note effect).filter F = (c.filter F).note effect := rfl

theorem filter_setSender (id : SenderId) (sender : Option Sender) :
    (c.setSender id sender).filter F = (c.filter F).setSender id sender := rfl

theorem filter_setReceiver (id : ReceiverId) {receiver : Option Receiver}
    (hkept : ∀ r, receiver = some r → F.keep id r = true) :
    (c.setReceiver id receiver).filter F = (c.filter F).setReceiver id receiver := by
  have hreceiver : receiver.filter (F.keep id) = receiver := by
    cases receiver with
    | none => rfl
    | some r => simp [Option.filter, hkept r rfl]
  unfold filter setReceiver
  congr 1
  funext id'
  by_cases hid : id' = id
  · subst hid
    simp [hreceiver]
  · simp [Function.update_of_ne hid]

theorem filter_modifyEmitter (name : EmitterName) (f : Emitter → Emitter) :
    (c.modifyEmitter name f).filter F = (c.filter F).modifyEmitter name f := rfl

theorem filter_socketStop : c.socketStop.filter F = (c.filter F).socketStop := by
  unfold socketStop
  change filter F (if c.state ≠ .running then c else { c with state := .stopping }) =
    if c.state ≠ .running then c.filter F else { c.filter F with state := .stopping }
  split <;> rfl

theorem filter_emitterStart (name : EmitterName) :
    (emitterStart env (c.filter F) name) =
      ((emitterStart env c name).1.filter F, (emitterStart env c name).2) := by
  unfold emitterStart
  change (if (c.emitters name).running then _ else if _ then _ else _) = _
  split
  · rfl
  · split <;> rfl

theorem filter_releasePeer (peer : Peer) : (c.releasePeer peer).filter F =
    (c.filter F).releasePeer { peer with receivers := peer.receivers.filter F.listed } := by
  unfold filter releasePeer
  congr 1
  funext id
  dsimp only
  cases hr : c.receivers id with
  | none => simp
  | some r =>
      cases hkeep : F.keep id r with
      | true =>
          have hlisted := F.keep_listed id r hkeep
          by_cases hmem : id ∈ peer.receivers
          · simp [hmem, hlisted, hkeep, F.keep_canceled, Option.filter]
          · simp [hmem, hkeep, Option.filter]
      | false =>
          by_cases hmem : id ∈ peer.receivers
          · simp [hmem, hkeep, F.keep_canceled, Option.filter]
          · simp [hmem, hkeep, Option.filter]

theorem filter_stop : c.stop.filter F = (c.filter F).stop := by
  have hpeer : (c.filter F).peer = c.peer.map fun peer =>
      { peer with receivers := peer.receivers.filter F.listed } := rfl
  unfold stop
  rw [hpeer]
  cases c.peer with
  | none => rfl
  | some peer => exact filter_releasePeer F _ peer

theorem filter_retryAddress : c.retryAddress.filter F = (c.filter F).retryAddress := by
  rw [retryAddress, filter_fault, filter_stop]
  rfl

theorem filter_dispatch (datagram : Datagram) :
    (dispatch env c datagram).filter F = dispatch env (c.filter F) datagram := by
  unfold dispatch
  split
  · rw [filter_note, filter_modifyPeer, filter_setSender]
    · rfl
    · exact fun _ => rfl
  · rfl

theorem filter_nextSequence : (c.modifyPeer fun peer => peer.nextSequence.1).filter F =
    (c.filter F).modifyPeer fun peer => peer.nextSequence.1 :=
  filter_modifyPeer F c fun _ => rfl

theorem filter_sendOwn (peer : Peer) (type : PacketType) (body : PacketBody) :
    (sendOwn env c peer type body).filter F = sendOwn env (c.filter F)
      { peer with receivers := peer.receivers.filter F.listed } type body := by
  unfold sendOwn
  dsimp only
  split
  · rw [filter_dispatch, filter_nextSequence]
    rfl
  · rw [filter_socketStop, filter_nextSequence]

theorem filter_trigger (name : EmitterName) :
    (trigger env c name).filter F = trigger env (c.filter F) name := by
  have hpeer : (c.filter F).peer = c.peer.map fun peer =>
      { peer with receivers := peer.receivers.filter F.listed } := rfl
  cases name with
  | request =>
      unfold trigger sendRequest
      dsimp only
      rw [hpeer]
      split
      · cases c.peer with
        | none => rfl
        | some peer => exact filter_dispatch F c env _
      · exact filter_socketStop F c
  | response =>
      unfold trigger sendResponse
      dsimp only
      rw [hpeer]
      cases c.peer with
      | none => rfl
      | some peer => exact filter_sendOwn F c env peer _ _
  | keepAlive =>
      unfold trigger sendKeepAlive
      dsimp only
      rw [hpeer]
      cases c.peer with
      | none => rfl
      | some peer =>
          change filter F (if peer.timeoutNs < env.hrtime - peer.lastRecvTime then _ else _) =
            if peer.timeoutNs < env.hrtime - peer.lastRecvTime then _ else _
          split
          · rw [filter_socketStop, filter_note, filter_modifyPeer]
            · rfl
            · exact fun _ => rfl
          · exact filter_sendOwn F c env peer _ _
  | disconnect =>
      unfold trigger sendDisconnect
      dsimp only
      rw [hpeer]
      cases c.peer with
      | none => rfl
      | some peer => exact filter_sendOwn F c env peer _ _

theorem filter_onTriggered (name : EmitterName) :
    (onTriggered env c name).filter F = onTriggered env (c.filter F) name := by
  unfold onTriggered
  dsimp only
  rw [← filter_trigger, ← filter_modifyEmitter]
  set t := (trigger env c name).modifyEmitter name fun e =>
    { e with triggerCounter := e.triggerCounter + 1 } with ht
  change filter F
    (if 0 < name.limit ∧ name.limit = (t.emitters name).triggerCounter then _ else _) =
    if 0 < name.limit ∧ name.limit = (t.emitters name).triggerCounter then _ else _
  split
  · exact filter_socketStop F _
  · rfl

theorem filter_socketSend (views : List (List UInt8)) :
    (socketSend env c views).filter F = socketSend env (c.filter F) views := by
  have hpeer : (c.filter F).peer = c.peer.map fun peer =>
      { peer with receivers := peer.receivers.filter F.listed } := rfl
  unfold socketSend
  rw [hpeer]
  cases c.peer with
  | none => rfl
  | some peer =>
      change filter F (if c.sendable peer views then _ else _) =
        if c.sendable peer views then _ else _
      split
      · dsimp only
        split
        · rw [filter_dispatch, filter_nextSequence]
          rfl
        · exact filter_nextSequence F c
      · rfl

theorem filter_nextAddress :
    (c.filter F).nextAddress = (c.nextAddress.1.filter F, c.nextAddress.2) := rfl

theorem filter_recvDenied : (recvDenied c).filter F = recvDenied (c.filter F) := by
  unfold recvDenied
  dsimp only
  rw [← filter_modifyPeer F c fun _ => rfl, filter_nextAddress]
  cases (c.modifyPeer fun peer => { peer with state := .denied }).nextAddress with
  | mk t address =>
      cases address with
      | none =>
          dsimp only
          rw [filter_socketStop, filter_note]
      | some address =>
          dsimp only
          rw [filter_retryAddress]

variable (peer : Peer)

theorem filter_recvChallenge (sequence : UInt64) (token : Crypto.SealedChallenge) :
    (recvChallenge env c peer sequence token).filter F = recvChallenge env (c.filter F)
      { peer with receivers := peer.receivers.filter F.listed } sequence token := by
  unfold recvChallenge
  dsimp only
  split
  · rfl
  · set t : Client := { (c.modifyPeer fun peer => { peer with state := .response }).emitterStop
      .request with challengeTokenSequence := sequence, challengeTokenData := token } with ht
    have hfiltered : t.filter F = { ((c.filter F).modifyPeer fun peer =>
        { peer with state := .response }).emitterStop .request with
        challengeTokenSequence := sequence, challengeTokenData := token } := by
      rw [← filter_modifyPeer F c fun _ => rfl]
      rfl
    rw [← hfiltered, filter_emitterStart]
    dsimp only
    split
    · rfl
    · exact filter_socketStop F _

theorem filter_recvDisconnect : (recvDisconnect c peer).filter F = recvDisconnect (c.filter F)
    { peer with receivers := peer.receivers.filter F.listed } := by
  unfold recvDisconnect
  dsimp only
  split
  · rfl
  · rw [filter_socketStop, filter_note, filter_modifyPeer F c fun _ => rfl]

theorem filter_recvKeepAlive (clientId : Int64) :
    (recvKeepAlive env c peer clientId).filter F = recvKeepAlive env (c.filter F)
      { peer with receivers := peer.receivers.filter F.listed } clientId := by
  unfold recvKeepAlive
  dsimp only
  split
  · rfl
  · set t := (c.modifyPeer fun peer =>
      { peer with state := .connected, clientId := clientId }).emitterStop .response with ht
    have hfiltered : t.filter F = ((c.filter F).modifyPeer fun peer =>
        { peer with state := .connected, clientId := clientId }).emitterStop .response := by
      rw [← filter_modifyPeer F c fun _ => rfl]
      rfl
    rw [← hfiltered, filter_emitterStart]
    dsimp only
    split
    · rfl
    · exact filter_socketStop F _

theorem filter_recvPacket (id : ReceiverId) (datagram : Datagram) (packet : Packet) :
    (recvPacket env c peer id datagram packet).filter F = recvPacket env (c.filter F)
      { peer with receivers := peer.receivers.filter F.listed } id datagram packet := by
  cases packet with
  | payload data => rfl
  | denied => exact filter_recvDenied F c
  | challenge sequence token => exact filter_recvChallenge F c env peer sequence token
  | disconnect => exact filter_recvDisconnect F c peer
  | keepAlive clientId => exact filter_recvKeepAlive F c env peer clientId
  | request _ _ _ => rfl
  | response _ _ => rfl

theorem filter_handleReceiverComplete (id : ReceiverId) (receiver : Receiver)
    (packet : Option Packet) : (handleReceiverComplete env c id receiver packet).filter F =
      handleReceiverComplete env (c.filter F) id receiver packet := by
  have hpeer : (c.filter F).peer = c.peer.map fun peer =>
      { peer with receivers := peer.receivers.filter F.listed } := rfl
  unfold handleReceiverComplete
  rw [hpeer]
  change filter F (if c.state ≠ .running then _ else _) = if c.state ≠ .running then _ else _
  split
  · rfl
  cases c.peer with
  | none => rfl
  | some peer =>
      cases packet with
      | none => rfl
      | some packet =>
          change filter F (if validatePacket peer packet then _ else _) =
            if validatePacket peer packet then _ else _
          split
          · rw [filter_recvPacket, filter_modifyPeer F c fun _ => rfl]
          · rfl

theorem filter_receiverComplete (id : ReceiverId) (workerFailed : Bool)
    (hkept : ∀ r, c.receivers id = some r → F.keep id r = true) :
    (receiverComplete env c id workerFailed).filter F =
      receiverComplete env (c.filter F) id workerFailed := by
  have hreceiver : (c.filter F).receivers id = c.receivers id := by
    change (c.receivers id).filter (F.keep id) = c.receivers id
    cases hr : c.receivers id with
    | none => rfl
    | some r => simp [Option.filter, hkept r hr]
  unfold receiverComplete
  rw [hreceiver]
  cases hr : c.receivers id with
  | none => rfl
  | some r =>
      have hrest : (c.setReceiver id none).filter F = (c.filter F).setReceiver id none :=
        filter_setReceiver F c id fun _ hr => absurd hr (by simp)
      dsimp only
      rw [← hrest]
      split
      · rfl
      · rw [filter_handleReceiverComplete, filter_modifyPeer]
        intro peer
        rw [List.erase_filter]

theorem filter_senderComplete (id : SenderId) :
    (senderComplete c id).filter F = senderComplete (c.filter F) id := by
  have hsender : (c.filter F).senders id = c.senders id := rfl
  unfold senderComplete
  rw [hsender]
  cases c.senders id with
  | none => rfl
  | some sender =>
      dsimp only
      split
      · rfl
      · rw [filter_modifyPeer F _ fun _ => rfl]
        rfl

omit F c env peer in
theorem validate_receivers (peer : Peer) (receivers : List ReceiverId) (address : Address)
    (header : Header) : validate { peer with receivers := receivers } address header =
      ({ (validate peer address header).1 with receivers := receivers },
        (validate peer address header).2) := by
  unfold validate
  dsimp only
  split
  · rfl
  cases header.type with
  | keepAlive =>
      dsimp only
      split <;> rfl
  | payload =>
      dsimp only
      split <;> rfl
  | disconnect =>
      dsimp only
      split <;> rfl
  | _ => rfl

omit F c env peer in
theorem receivers_validate (peer : Peer) (address : Address) (header : Header) :
    (validate peer address header).1.receivers = peer.receivers := by
  have h := validate_receivers peer peer.receivers address header
  exact congrArg (fun r : Peer × Bool => r.1.receivers) h

theorem filter_submitReceiver (datagram : Datagram) (hkept : ∀ r, F.keep c.tick r = true) :
    (submitReceiver env c peer datagram).filter F = submitReceiver env (c.filter F)
      { peer with receivers := peer.receivers.filter F.listed } datagram := by
  unfold submitReceiver
  dsimp only
  rw [filter_modifyPeer, filter_setReceiver F c c.tick fun r _ => hkept r]
  · rfl
  · intro peer
    have hlisted := F.keep_listed c.tick _ (hkept ⟨none, .zero, datagram, 0, false⟩)
    simp [List.filter_append, hlisted]

theorem filter_accept (address : Address) (datagram : Datagram)
    (hkept : ∀ r, F.keep c.tick r = true) :
    (accept env c address datagram).filter F = accept env (c.filter F) address datagram := by
  have hpeer : (c.filter F).peer = c.peer.map fun peer =>
      { peer with receivers := peer.receivers.filter F.listed } := rfl
  unfold accept
  rw [hpeer]
  change filter F (if c.state ≠ .running then _ else _) = if c.state ≠ .running then _ else _
  split
  · rfl
  split
  · rfl
  cases c.peer with
  | none => rfl
  | some peer =>
      dsimp only [Option.map_some]
      rw [validate_receivers peer (peer.receivers.filter F.listed) address datagram.header,
        ← receivers_validate peer address datagram.header]
      dsimp only
      split
      · split
        · exact filter_submitReceiver F _ env _ datagram hkept
        · rfl
      · rfl

theorem filter_handleRequestTimeout :
    (handleRequestTimeout c).filter F = handleRequestTimeout (c.filter F) := by
  have hpeer : ((c.filter F).emitterStop .request).peer =
      (c.emitterStop .request).peer.map fun peer =>
        { peer with receivers := peer.receivers.filter F.listed } := rfl
  unfold handleRequestTimeout
  dsimp only
  rw [hpeer]
  cases (c.emitterStop .request).peer with
  | none => rfl
  | some peer =>
      dsimp only [Option.map_some]
      have hstop : (c.filter F).emitterStop .request = (c.emitterStop .request).filter F := rfl
      rw [hstop, ← filter_modifyPeer F (c.emitterStop .request) fun _ => rfl, filter_nextAddress]
      split
      · rename_i heq
        rw [heq]
        exact filter_socketStop F _
      · rename_i heq
        rw [heq]
        exact filter_retryAddress F _

theorem filter_disconnectPeer :
    (disconnectPeer env c).filter F = disconnectPeer env (c.filter F) := by
  unfold disconnectPeer
  have hpeer : (c.filter F).peer = c.peer.map fun peer =>
      { peer with receivers := peer.receivers.filter F.listed } := rfl
  rw [hpeer]
  cases c.peer with
  | none => rfl
  | some peer =>
      change filter F (if peer.state ≠ .connected then _ else _) =
        if peer.state ≠ .connected then _ else _
      split
      · rfl
      · dsimp only
        set t := ((c.emitterStop .keepAlive).modifyPeer fun peer =>
          { peer with state := .disconnecting }).note .disconnected with ht
        have hfiltered : t.filter F = (((c.filter F).emitterStop .keepAlive).modifyPeer fun peer =>
            { peer with state := .disconnecting }).note .disconnected := by
          rw [ht, filter_note, filter_modifyPeer F _ fun _ => rfl]
          rfl
        rw [← hfiltered, filter_emitterStart]
        dsimp only
        split
        · rfl
        · exact filter_socketStop F _

theorem filter_stopDeferred : (stopDeferred c).filter F = stopDeferred (c.filter F) := by
  unfold stopDeferred
  dsimp only
  rw [filter_stop, filter_modifyPeer F _ fun _ => rfl]
  rfl

/-- The step is taken with a receiver that stays, if it makes or completes one. -/
def Keeps (i : ClientInput) : Prop :=
  match i.event with
  | .accept _ _ => ∀ r, F.keep (c.tick + 1) r = true
  | .receiverComplete id _ => ∀ r, c.receivers id = some r → F.keep id r = true
  | _ => True

theorem step_filter (i : ClientInput) (hkeeps : Keeps F c i) :
    (step c i).filter F = step (c.filter F) i := by
  unfold step
  change filter F (if c.faulted then _ else _) = if c.faulted then _ else _
  split
  · rfl
  obtain ⟨env, event⟩ := i
  set t : Client := { c with tick := c.tick + 1 } with ht
  have hfiltered : { c.filter F with tick := (c.filter F).tick + 1 } = t.filter F := rfl
  rw [hfiltered]
  cases event with
  | accept address datagram => exact filter_accept F t env address datagram hkeeps
  | receiverComplete id workerFailed => exact filter_receiverComplete F t env id workerFailed hkeeps
  | senderComplete id => exact filter_senderComplete F t id
  | send views => exact filter_socketSend F t env views
  | disconnectPeer => exact filter_disconnectPeer F t env
  | triggerTimer name =>
      unfold handle
      change filter F (if (t.emitters name).running then _ else _) =
        if (t.emitters name).running then _ else _
      split <;> rfl
  | triggered name =>
      unfold handle
      change filter F (if (t.emitters name).triggerTask then _ else _) =
        if (t.emitters name).triggerTask then _ else _
      split
      · exact filter_onTriggered F _ env name
      · rfl
  | timeoutTimer =>
      unfold handle
      change filter F (if (t.emitters .request).running ∧ 0 < t.connectToken.timeout then _
        else _) = if (t.emitters .request).running ∧ 0 < t.connectToken.timeout then _ else _
      split <;> rfl
  | timedOut =>
      unfold handle
      change filter F (if (t.emitters .request).timeoutTask then _ else _) =
        if (t.emitters .request).timeoutTask then _ else _
      split
      · exact filter_handleRequestTimeout F _
      · rfl
  | stop => exact filter_socketStop F t
  | stopDeferred =>
      unfold handle
      change filter F (if t.state = .stopping then _ else _) = if t.state = .stopping then _ else _
      split
      · exact filter_stopDeferred F t
      · rfl

end Operations

section Presence

variable {c c' c'' : Client} {env : ClientEnv}

/-- A callback does not take the peer from a client that runs on, and leaves the number of the
step. -/
structure Stays (c c' : Client) : Prop where
  tick : c'.tick = c.tick
  peer : c'.faulted = false → c'.state = .running →
    c.faulted = false ∧ c.state = .running ∧ (c.peer.isSome = true → c'.peer.isSome = true)

theorem Stays.refl (c : Client) : Stays c c := ⟨rfl, fun hf hs => ⟨hf, hs, id⟩⟩

theorem Stays.congr (h : Stays c c') (c'' : Client) (htick : c''.tick = c'.tick)
    (hfaulted : c''.faulted = c'.faulted) (hstate : c''.state = c'.state)
    (hpeer : c''.peer.isSome = c'.peer.isSome) : Stays c c'' := by
  refine ⟨htick.trans h.tick, ?_⟩
  rw [hfaulted, hstate, hpeer]
  exact h.peer

theorem Stays.modifyPeer (h : Stays c c') (f : Peer → Peer) : Stays c (c'.modifyPeer f) :=
  h.congr _ rfl rfl rfl (Option.isSome_map ..)

theorem Stays.note (h : Stays c c') (effect : ClientEffect) : Stays c (c'.note effect) :=
  h.congr _ rfl rfl rfl rfl

theorem Stays.modifyEmitter (h : Stays c c') (name : EmitterName) (f : Emitter → Emitter) :
    Stays c (c'.modifyEmitter name f) := h.congr _ rfl rfl rfl rfl

theorem Stays.emitterStart (h : Stays c c') (env : ClientEnv) (name : EmitterName) :
    Stays c (emitterStart env c' name).1 := by
  unfold Client.emitterStart
  split
  · exact h
  · split
    · exact h.modifyEmitter name fun e => { e with running := true, triggerCounter := 0 }
    · exact h

theorem Stays.emitterStop (h : Stays c c') (name : EmitterName) :
    Stays c (c'.emitterStop name) := h.modifyEmitter name _

theorem Stays.socketStop (h : Stays c c') : Stays c c'.socketStop := by
  unfold Client.socketStop
  split
  · exact h
  · exact ⟨h.tick, fun _ hs => absurd hs (by simp)⟩

theorem Stays.fault (h : Stays c c') : Stays c c'.fault :=
  ⟨h.tick, fun hf => absurd hf (by simp [Client.fault])⟩

theorem tick_stop (c : Client) : c.stop.tick = c.tick := by
  unfold stop
  split <;> rfl

theorem Stays.retryAddress (h : Stays c c') : Stays c c'.retryAddress :=
  ⟨(tick_stop c').trans h.tick, fun hf => absurd hf (by simp [Client.retryAddress, Client.fault])⟩

theorem Stays.dispatch (h : Stays c c') (datagram : Datagram) :
    Stays c (dispatch env c' datagram) := by
  unfold Client.dispatch
  split
  · refine Stays.note (Stays.modifyPeer ?_ _) _
    exact h.congr _ rfl rfl rfl rfl
  · exact h

theorem Stays.sendOwn (h : Stays c c') (peer : Peer) (type : PacketType) (body : PacketBody) :
    Stays c (sendOwn env c' peer type body) := by
  unfold Client.sendOwn
  dsimp only
  split
  · exact (h.modifyPeer _).dispatch _
  · exact (h.modifyPeer _).socketStop

theorem Stays.trigger (h : Stays c c') (name : EmitterName) : Stays c (trigger env c' name) := by
  cases name with
  | request =>
      unfold Client.trigger sendRequest
      dsimp only
      split
      · split
        · exact h.fault
        · exact h.dispatch _
      · exact h.socketStop
  | response =>
      unfold Client.trigger sendResponse
      dsimp only
      split
      · exact h.fault
      · exact h.sendOwn _ _ _
  | keepAlive =>
      unfold Client.trigger sendKeepAlive
      dsimp only
      split
      · exact h.fault
      · split
        · exact (((h.modifyEmitter _ _).modifyPeer _).note _).socketStop
        · exact h.sendOwn _ _ _
  | disconnect =>
      unfold Client.trigger sendDisconnect
      dsimp only
      split
      · exact h.fault
      · exact h.sendOwn _ _ _

theorem Stays.onTriggered (h : Stays c c') (name : EmitterName) :
    Stays c (onTriggered env c' name) := by
  unfold Client.onTriggered
  dsimp only
  split
  · exact (((h.trigger name).modifyEmitter _ _).modifyEmitter _ _).modifyEmitter _ _ |>.socketStop
  · exact (h.trigger name).modifyEmitter _ _

theorem Stays.socketSend (h : Stays c c') (views : List (List UInt8)) :
    Stays c (socketSend env c' views) := by
  unfold Client.socketSend
  split
  · exact h
  · split
    · dsimp only
      split
      · exact (h.modifyPeer _).dispatch _
      · exact h.modifyPeer _
    · exact h

theorem Stays.nextAddress (h : Stays c c') : Stays c c'.nextAddress.1 := h.congr _ rfl rfl rfl rfl

theorem Stays.recvDenied (h : Stays c c') : Stays c (recvDenied c') := by
  have hnext := (h.modifyPeer fun peer => { peer with state := .denied }).nextAddress
  unfold Client.recvDenied
  dsimp only
  split
  · rename_i heq
    rw [heq] at hnext
    exact (hnext.note _).socketStop
  · rename_i heq
    rw [heq] at hnext
    exact hnext.retryAddress

theorem Stays.recvChallenge (h : Stays c c') (peer : Peer) (sequence : UInt64)
    (token : Crypto.SealedChallenge) : Stays c (recvChallenge env c' peer sequence token) := by
  unfold Client.recvChallenge
  dsimp only
  split
  · exact h
  · have hanswering : Stays c { (c'.modifyPeer fun peer =>
        { peer with state := .response }).emitterStop .request with
        challengeTokenSequence := sequence, challengeTokenData := token } :=
      ((h.modifyPeer fun peer => { peer with state := .response }).emitterStop .request).congr _
        rfl rfl rfl rfl
    split
    · exact hanswering.emitterStart env .response
    · exact (hanswering.emitterStart env .response).socketStop

theorem Stays.recvKeepAlive (h : Stays c c') (peer : Peer) (clientId : Int64) :
    Stays c (recvKeepAlive env c' peer clientId) := by
  unfold Client.recvKeepAlive
  dsimp only
  split
  · exact h
  · have hstarted := ((h.modifyPeer fun peer => { peer with
      state := .connected, clientId := clientId }).emitterStop .response).emitterStart env
        .keepAlive
    split
    · exact (hstarted.note _).note _
    · exact hstarted.socketStop

theorem Stays.recvPacket (h : Stays c c') (peer : Peer) (id : ReceiverId) (datagram : Datagram)
    (packet : Packet) : Stays c (recvPacket env c' peer id datagram packet) := by
  cases packet with
  | payload data => exact h.note _
  | denied => exact h.recvDenied
  | challenge sequence token => exact h.recvChallenge peer sequence token
  | disconnect =>
      unfold Client.recvPacket recvDisconnect
      dsimp only
      split
      · exact h
      · exact ((h.modifyPeer _).note _).socketStop
  | keepAlive clientId => exact h.recvKeepAlive peer clientId
  | request _ _ _ => exact h
  | response _ _ => exact h

theorem Stays.receiverComplete (h : Stays c c') (id : ReceiverId) (workerFailed : Bool) :
    Stays c (receiverComplete env c' id workerFailed) := by
  unfold Client.receiverComplete
  split
  · exact h
  have hset : Stays c (c'.setReceiver id none) := h.congr _ rfl rfl rfl rfl
  dsimp only
  split
  · exact hset
  · have herase := hset.modifyPeer fun peer =>
      { peer with receivers := peer.receivers.erase id }
    unfold handleReceiverComplete
    split
    · exact herase
    split
    · split
      · exact (herase.modifyPeer _).recvPacket _ _ _ _
      · exact herase
    · exact herase

theorem Stays.accept (h : Stays c c') (address : Address) (datagram : Datagram) :
    Stays c (accept env c' address datagram) := by
  unfold Client.accept
  split
  · exact h
  split
  · exact h
  split
  · exact h.fault
  · rename_i peer hpeer
    have hwritten : Stays c { c' with peer := some (validate peer address datagram.header).1 } :=
      h.congr _ rfl rfl rfl (by rw [hpeer]; rfl)
    dsimp only
    split
    · split
      · refine Stays.modifyPeer ?_ _
        exact hwritten.congr _ rfl rfl rfl rfl
      · exact hwritten
    · exact hwritten

theorem Stays.handleRequestTimeout (h : Stays c c') : Stays c (handleRequestTimeout c') := by
  have hstop := h.emitterStop .request
  unfold Client.handleRequestTimeout
  dsimp only
  split
  · exact hstop.fault
  · split
    · rename_i next heq
      have hnext : Stays c next := by
        rw [show next = _ from (congrArg Prod.fst heq).symm]
        exact (hstop.modifyPeer _).nextAddress
      exact (hnext.note _).socketStop
    · rename_i next _ heq
      have hnext : Stays c next := by
        rw [show next = _ from (congrArg Prod.fst heq).symm]
        exact (hstop.modifyPeer _).nextAddress
      exact hnext.retryAddress

theorem Stays.disconnectPeer (h : Stays c c') : Stays c (disconnectPeer env c') := by
  unfold Client.disconnectPeer
  split
  · exact h
  split
  · exact h
  · have hleft := (((h.emitterStop .keepAlive).modifyPeer fun peer =>
      { peer with state := .disconnecting }).note .disconnected).emitterStart env
        .disconnect
    dsimp only
    split
    · exact hleft
    · exact hleft.socketStop

theorem stays_step (hfaulted : c.faulted = false) (i : ClientInput) :
    Stays { c with tick := c.tick + 1 } (step c i) := by
  obtain ⟨env, event⟩ := i
  have hstep : step c ⟨env, event⟩ = handle env { c with tick := c.tick + 1 } event :=
    if_neg (ne_true_of_eq_false hfaulted)
  rw [hstep]
  have h := Stays.refl { c with tick := c.tick + 1 }
  cases event with
  | accept address datagram => exact h.accept address datagram
  | receiverComplete id workerFailed => exact h.receiverComplete id workerFailed
  | senderComplete id =>
      unfold handle senderComplete
      dsimp only
      split
      · exact h
      · split
        · exact h.congr _ rfl rfl rfl rfl
        · refine Stays.modifyPeer ?_ _
          exact h.congr _ rfl rfl rfl rfl
  | send views => exact h.socketSend views
  | disconnectPeer => exact h.disconnectPeer
  | triggerTimer name =>
      unfold handle
      dsimp only
      split
      · exact h.modifyEmitter _ _
      · exact h
  | triggered name =>
      unfold handle
      dsimp only
      split
      · exact (h.modifyEmitter _ _).onTriggered name
      · exact h
  | timeoutTimer =>
      unfold handle
      dsimp only
      split
      · exact h.modifyEmitter _ _
      · exact h
  | timedOut =>
      unfold handle
      dsimp only
      split
      · exact (h.modifyEmitter _ _).handleRequestTimeout
      · exact h
  | stop => exact h.socketStop
  | stopDeferred =>
      unfold handle
      dsimp only
      split
      · refine ⟨tick_stop _, fun _ hs => ?_⟩
        unfold stopDeferred stop at hs
        dsimp only at hs
        split at hs <;> cases hs
      · exact h

end Presence

end Client

end Protocol

end PomeloUdp
