import PomeloUdp.Protocol.ServerActs

/-!
# What an act changes

The three inversion lemmas of `act`: what it adds to the record (`act_log`),
where a receiver in flight comes from (`receivers_of_act`), and what happens to
the fields of a peer that the invariants read (`Table.change`). Names in a
server come from step numbers, which `Named` bounds.
-/

namespace PomeloUdp

namespace Protocol

open Machine

namespace Server

section Frames

/-- What the helpers of the handlers leave alone: `unlink` writes the lists. -/
theorem exists_unlink (s : Server) (name : PeerListName) (p : PeerId) :
    ∃ lists, s.unlink name p = { s with lists := lists } := by
  unfold unlink
  split
  · exact ⟨s.lists, rfl⟩
  · exact ⟨_, rfl⟩

theorem exists_releasePeer (s : Server) (p : PeerId) :
    ∃ peers map senders receivers, s.releasePeer p =
      { s with
        peers := peers
        peerAddressMap := map
        senders := senders
        receivers := receivers } := by
  unfold releasePeer
  simp only []
  cases ((s.cancelSendersAndReceivers p).peers p).address with
  | none => exact ⟨_, _, _, _, rfl⟩
  | some a => exact ⟨_, _, _, _, rfl⟩

theorem exists_dispatch (env : Env) (s : Server) (p : PeerId) (source : SequenceSource)
    (header : Header) (body : PacketBody) :
    ∃ peers senders log, dispatch env s p source header body =
      { s with
        peers := peers
        senders := senders
        log := log } := by
  simp only [dispatch]
  split
  · exact ⟨_, _, _, rfl⟩
  · exact ⟨_, _, _, rfl⟩

theorem exists_foldl_cleanup (entries : List PeerEntry) (s : Server) :
    ∃ peers senders receivers, entries.foldl cleanupEntry s =
      { s with
        peers := peers
        senders := senders
        receivers := receivers } := by
  induction entries generalizing s with
  | nil => exact ⟨_, _, _, rfl⟩
  | cons x entries ih =>
      obtain ⟨peers, senders, receivers, h⟩ := ih (s.cleanupEntry x)
      exact ⟨peers, senders, receivers, h⟩

theorem exists_foldl_releaseList (names : List PeerListName) (s : Server) :
    ∃ peers senders receivers lists, names.foldl releaseList s =
      { s with
        peers := peers
        senders := senders
        receivers := receivers
        lists := lists } := by
  induction names generalizing s with
  | nil => exact ⟨_, _, _, _, rfl⟩
  | cons name names ih =>
      obtain ⟨peers, senders, receivers, lists, h⟩ := ih (s.releaseList name)
      obtain ⟨_, _, _, hentries⟩ := exists_foldl_cleanup (s.lists name) s
      refine ⟨peers, senders, receivers, lists, h.trans ?_⟩
      simp only [releaseList]
      rw [hentries]

theorem exists_stopDeferred (s : Server) :
    ∃ peers senders receivers lists, s.stopDeferred =
      { s with
        state := .stopped
        anonymousSequenceNumber := 0
        challengeSequenceNumber := 0
        privateKey := 0
        challengeKey := 0
        peers := peers
        peerAddressMap := fun _ => none
        senders := senders
        receivers := receivers
        lists := lists } := by
  obtain ⟨peers, senders, receivers, lists, h⟩ := exists_foldl_releaseList
    [.requesting, .challenging, .denied, .connected, .disconnecting]
    { s with
      state := .stopped
      anonymousSequenceNumber := 0
      challengeSequenceNumber := 0
      privateKey := 0
      challengeKey := 0 }
  refine ⟨peers, senders, receivers, lists, ?_⟩
  unfold stopDeferred
  simp only []
  rw [h]

end Frames

section Log

variable (env : Env) (s : Server)

/-- What a dispatch adds to the record. -/
def submitted (p : PeerId) (source : SequenceSource) (header : Header) (body : PacketBody) :
    List Effect :=
  if env.acquireSender p header.type then
    [.emitted ⟨p, source, (s.cryptoCtx p).packetEncryptKey, header,
      (s.cryptoCtx p).encryptPacket header body⟩]
  else []

/-- What an act adds to the record. -/
def effects : Act → List Effect
  | .pass p datagram => [.validated s.tick p datagram]
  | .grant p token => [.granted p token env.now]
  | .challenge p token =>
      if env.acquirePacket p .challenge then
        submitted env s p .anonymous ⟨.challenge, s.anonymousSequenceNumber⟩
          (.challenge s.challengeSequenceNumber
            (.encrypted (s.cryptoCtx p).challengeKey s.challengeSequenceNumber ()
              ⟨token.token.clientId, token.token.userData⟩))
      else []
  | .denied p =>
      if env.acquirePacket p .denied then
        submitted env s p .anonymous ⟨.denied, s.anonymousSequenceNumber⟩ .denied
      else []
  | .own p type body =>
      if env.acquirePacket p type then
        submitted env s p .own ⟨type, (s.peers p).sequenceNumber⟩ body
      else []
  | .note effect => [effect]
  | _ => []

theorem dispatch_log (p : PeerId) (source : SequenceSource) (header : Header)
    (body : PacketBody) :
    (dispatch env s p source header body).log =
      s.log ++ submitted env s p source header body := by
  simp only [dispatch, submitted]
  split
  · rfl
  · simp

theorem unlink_log (name : PeerListName) (p : PeerId) : (s.unlink name p).log = s.log := by
  obtain ⟨_, h⟩ := exists_unlink s name p
  rw [h]

theorem releasePeer_log (p : PeerId) : (s.releasePeer p).log = s.log := by
  obtain ⟨_, _, _, _, h⟩ := exists_releasePeer s p
  rw [h]

theorem stopDeferred_log : s.stopDeferred.log = s.log := by
  obtain ⟨_, _, _, _, h⟩ := exists_stopDeferred s
  rw [h]

theorem act_log (a : Act) : (act env s a).log = s.log ++ effects env s a := by
  cases a with
  | pass p datagram =>
      simp only [act, effects]
      split <;> rfl
  | grant p token =>
      have hlog : ((s.modifyPeer p fun peer => peer.adoptToken token env.hrtime).unlink
          .requesting p).log = s.log := unlink_log _ _ _
      simp only [act, effects, note, pushBack]
      rw [hlog]
  | challenge p token =>
      simp only [act, effects, sendChallenge]
      split
      · exact dispatch_log env _ p _ _ _
      · simp [takeAnonymous, takeChallenge]
  | deny p =>
      simp only [act, effects, List.append_nil]
      exact unlink_log _ _ _
  | denied p =>
      simp only [act, effects, sendDenied]
      split
      · exact dispatch_log env _ p _ _ _
      · simp [takeAnonymous]
  | connect p =>
      simp only [act, effects, List.append_nil]
      exact unlink_log _ _ _
  | own p type body =>
      simp only [act, effects, sendOwn]
      split
      · rw [dispatch_log]
        simp [submitted, modifyPeer, cryptoCtx, Peer.nextSequence]
      · simp [modifyPeer]
  | park p =>
      simp only [act, effects, List.append_nil]
      exact unlink_log _ _ _
  | discard a =>
      simp only [act, effects, List.append_nil]
      exact releasePeer_log _ _
  | release p name =>
      simp only [act, effects, List.append_nil]
      rw [releasePeer_log, unlink_log]
  | stopped =>
      simp only [act, effects, List.append_nil]
      exact stopDeferred_log s
  | acquire a => simp [act, effects, modifyPeer, pushBack, acquirePeer]
  | submit p datagram => simp [act, effects, submitReceiver, modifyPeer, setReceiver]
  | take id => simp [act, effects, setReceiver]
  | drop id => simp [act, effects, setSender]
  | soft p f => simp [act, effects, modifyPeer]
  | note effect => rfl
  | stopping => simp [act, effects]

end Log

section Settings

/-- The act sends a packet with a number of the server. -/
def Act.isAnonymous : Act → Bool
  | .challenge _ _ => true
  | .denied _ => true
  | _ => false

/-- What an act does to the fields that are not about peers or packets. -/
structure Settings (s t : Server) (a : Act) : Prop where
  tick : t.tick = s.tick
  maxClients : t.maxClients = s.maxClients
  protocolId : t.protocolId = s.protocolId
  keys : t.state ≠ .stopped → t.challengeKey = s.challengeKey ∧ t.privateKey = s.privateKey
  state : t.state = s.state ∨ (a = .stopping ∧ t.state = .stopping) ∨ t.state = .stopped
  anonymous : t.state ≠ .stopped → t.anonymousSequenceNumber =
    if a.isAnonymous then s.anonymousSequenceNumber + 1 else s.anonymousSequenceNumber

theorem settings_of_eq {s t : Server} {a : Act} (ha : a.isAnonymous = false)
    (htick : t.tick = s.tick) (hmax : t.maxClients = s.maxClients)
    (hprotocol : t.protocolId = s.protocolId) (hstate : t.state = s.state)
    (hkeys : t.challengeKey = s.challengeKey ∧ t.privateKey = s.privateKey)
    (hcounter : t.anonymousSequenceNumber = s.anonymousSequenceNumber) : Settings s t a :=
  ⟨htick, hmax, hprotocol, fun _ => hkeys, .inl hstate, fun _ => by simp [ha, hcounter]⟩

theorem settings_act (env : Env) (s : Server) (a : Act) : Settings s (act env s a) a := by
  cases a with
  | pass p datagram =>
      simp only [act]
      split <;> exact settings_of_eq rfl rfl rfl rfl rfl ⟨rfl, rfl⟩ rfl
  | discard a =>
      obtain ⟨_, _, _, _, h⟩ := exists_releasePeer (s.acquirePeer env a) s.tick
      simp only [act]
      rw [h]
      exact settings_of_eq rfl rfl rfl rfl rfl ⟨rfl, rfl⟩ rfl
  | grant p token =>
      obtain ⟨_, h⟩ := exists_unlink
        (s.modifyPeer p fun peer => peer.adoptToken token env.hrtime) .requesting p
      simp only [act]
      rw [h]
      exact settings_of_eq rfl rfl rfl rfl rfl ⟨rfl, rfl⟩ rfl
  | challenge p token =>
      simp only [act, sendChallenge]
      split
      · obtain ⟨_, _, _, h⟩ := exists_dispatch env s.takeAnonymous.takeChallenge p .anonymous
          ⟨.challenge, s.anonymousSequenceNumber⟩
          (.challenge s.challengeSequenceNumber
            (.encrypted (s.takeAnonymous.takeChallenge.cryptoCtx p).challengeKey
              s.challengeSequenceNumber () ⟨token.token.clientId, token.token.userData⟩))
        rw [h]
        exact ⟨rfl, rfl, rfl, fun _ => ⟨rfl, rfl⟩, .inl rfl, fun _ => rfl⟩
      · exact ⟨rfl, rfl, rfl, fun _ => ⟨rfl, rfl⟩, .inl rfl, fun _ => rfl⟩
  | deny p =>
      obtain ⟨_, h⟩ := exists_unlink s .requesting p
      simp only [act]
      rw [h]
      exact settings_of_eq rfl rfl rfl rfl rfl ⟨rfl, rfl⟩ rfl
  | denied p =>
      simp only [act, sendDenied]
      split
      · obtain ⟨_, _, _, h⟩ := exists_dispatch env s.takeAnonymous p .anonymous
          ⟨.denied, s.anonymousSequenceNumber⟩ .denied
        rw [h]
        exact ⟨rfl, rfl, rfl, fun _ => ⟨rfl, rfl⟩, .inl rfl, fun _ => rfl⟩
      · exact ⟨rfl, rfl, rfl, fun _ => ⟨rfl, rfl⟩, .inl rfl, fun _ => rfl⟩
  | connect p =>
      obtain ⟨_, h⟩ := exists_unlink s .challenging p
      simp only [act]
      rw [h]
      exact settings_of_eq rfl rfl rfl rfl rfl ⟨rfl, rfl⟩ rfl
  | own p type body =>
      simp only [act, sendOwn]
      split
      · obtain ⟨_, _, _, h⟩ := exists_dispatch env
          (s.modifyPeer p fun peer => peer.nextSequence.1) p .own
          ⟨type, (s.peers p).sequenceNumber⟩ body
        rw [h]
        exact settings_of_eq rfl rfl rfl rfl rfl ⟨rfl, rfl⟩ rfl
      · exact settings_of_eq rfl rfl rfl rfl rfl ⟨rfl, rfl⟩ rfl
  | park p =>
      obtain ⟨_, h⟩ := exists_unlink s .connected p
      simp only [act]
      rw [h]
      exact settings_of_eq rfl rfl rfl rfl rfl ⟨rfl, rfl⟩ rfl
  | release p name =>
      obtain ⟨_, h⟩ := exists_unlink s name p
      obtain ⟨_, _, _, _, h'⟩ := exists_releasePeer (s.unlink name p) p
      simp only [act]
      rw [h', h]
      exact settings_of_eq rfl rfl rfl rfl rfl ⟨rfl, rfl⟩ rfl
  | stopped =>
      obtain ⟨_, _, _, _, h⟩ := exists_stopDeferred s
      simp only [act]
      rw [h]
      exact ⟨rfl, rfl, rfl, fun hstate => absurd rfl hstate, .inr (.inr rfl),
        fun hstate => absurd rfl hstate⟩
  | stopping => exact ⟨rfl, rfl, rfl, fun _ => ⟨rfl, rfl⟩, .inr (.inl ⟨rfl, rfl⟩), fun _ => rfl⟩
  | acquire a => exact settings_of_eq rfl rfl rfl rfl rfl ⟨rfl, rfl⟩ rfl
  | submit p datagram => exact settings_of_eq rfl rfl rfl rfl rfl ⟨rfl, rfl⟩ rfl
  | take id => exact settings_of_eq rfl rfl rfl rfl rfl ⟨rfl, rfl⟩ rfl
  | drop id => exact settings_of_eq rfl rfl rfl rfl rfl ⟨rfl, rfl⟩ rfl
  | soft p f => exact settings_of_eq rfl rfl rfl rfl rfl ⟨rfl, rfl⟩ rfl
  | note effect => exact settings_of_eq rfl rfl rfl rfl rfl ⟨rfl, rfl⟩ rfl

theorem act_tick (env : Env) (s : Server) (a : Act) : (act env s a).tick = s.tick :=
  (settings_act env s a).tick

theorem act_maxClients (env : Env) (s : Server) (a : Act) :
    (act env s a).maxClients = s.maxClients := (settings_act env s a).maxClients

end Settings

section Receivers

variable {env : Env} {s : Server} {id : ReceiverId} {r : Receiver}

/-- The receivers in flight of `t`, up to cancellation, are in flight in `s`. -/
def Cancels (s t : Server) : Prop :=
  ∀ id r, t.receivers id = some r →
    (∃ r', s.receivers id = some r') ∧ (r.peer ≠ none → s.receivers id = some r)

theorem Cancels.of_eq {t : Server} (h : t.receivers = s.receivers) : Cancels s t := by
  intro id r hr
  rw [h] at hr
  exact ⟨⟨r, hr⟩, fun _ => hr⟩

theorem Cancels.trans {t u : Server} (h : Cancels s t) (h' : Cancels t u) : Cancels s u := by
  intro id r hr
  obtain ⟨⟨r', hr'⟩, hkept⟩ := h' id r hr
  exact ⟨(h id r' hr').1, fun hp => (h id r (hkept hp)).2 hp⟩

theorem cancels_cancelSendersAndReceivers (s : Server) (p : PeerId) :
    Cancels s (s.cancelSendersAndReceivers p) := by
  intro id r hr
  simp only [cancelSendersAndReceivers] at hr
  split at hr
  · obtain ⟨r', hr', rfl⟩ := Option.map_eq_some_iff.mp hr
    exact ⟨⟨r', hr'⟩, fun hp => absurd rfl hp⟩
  · exact ⟨⟨r, hr⟩, fun _ => hr⟩

theorem cancels_releasePeer (s : Server) (p : PeerId) : Cancels s (s.releasePeer p) := by
  refine (cancels_cancelSendersAndReceivers s p).trans (.of_eq ?_)
  simp only [releasePeer]
  cases ((s.cancelSendersAndReceivers p).peers p).address <;> rfl

theorem cancels_foldl_cleanup (entries : List PeerEntry) (s : Server) :
    Cancels s (entries.foldl cleanupEntry s) := by
  induction entries generalizing s with
  | nil => exact .of_eq rfl
  | cons x entries ih =>
      have hone : Cancels s (s.cleanupEntry x) :=
        (cancels_cancelSendersAndReceivers s x.peer).trans (.of_eq rfl)
      exact hone.trans (ih _)

theorem cancels_foldl_releaseList (names : List PeerListName) (s : Server) :
    Cancels s (names.foldl releaseList s) := by
  induction names generalizing s with
  | nil => exact .of_eq rfl
  | cons name names ih =>
      have hone : Cancels s (s.releaseList name) :=
        (cancels_foldl_cleanup (s.lists name) s).trans (.of_eq rfl)
      exact hone.trans (ih _)

theorem cancels_stopDeferred (s : Server) : Cancels s s.stopDeferred := by
  have hstart : Cancels s { s with
      state := .stopped
      anonymousSequenceNumber := 0
      challengeSequenceNumber := 0
      privateKey := 0
      challengeKey := 0 } := .of_eq rfl
  exact (hstart.trans (cancels_foldl_releaseList _ _)).trans (.of_eq rfl)

theorem unlink_receivers (s : Server) (name : PeerListName) (p : PeerId) :
    (s.unlink name p).receivers = s.receivers := by
  obtain ⟨_, h⟩ := exists_unlink s name p
  rw [h]

theorem dispatch_receivers (env : Env) (s : Server) (p : PeerId) (source : SequenceSource)
    (header : Header) (body : PacketBody) :
    (dispatch env s p source header body).receivers = s.receivers := by
  obtain ⟨_, _, _, h⟩ := exists_dispatch env s p source header body
  rw [h]

/-- The receiver that a step submits. -/
def newReceiver (env : Env) (s : Server) (p : PeerId) (datagram : Datagram) : Receiver :=
  ⟨some p, s.cryptoCtx p, datagram, env.hrtime, false⟩

theorem cancels_act (env : Env) (s : Server) (a : Act) (ha : ∀ p datagram, a ≠ .submit p datagram) :
    Cancels s (act env s a) := by
  cases a with
  | submit p datagram => exact absurd rfl (ha p datagram)
  | pass p datagram =>
      refine .of_eq ?_
      simp only [act]
      split <;> rfl
  | acquire a => exact .of_eq rfl
  | discard a =>
      have hacquire : Cancels s (s.acquirePeer env a) := .of_eq rfl
      exact hacquire.trans (cancels_releasePeer _ _)
  | take id =>
      intro id' r hr
      by_cases hid : id' = id
      · subst hid
        simp [act, setReceiver] at hr
      · simp only [act, setReceiver, Function.update_of_ne hid] at hr
        exact ⟨⟨r, hr⟩, fun _ => hr⟩
  | drop id => exact .of_eq rfl
  | soft p f => exact .of_eq rfl
  | grant p token =>
      refine .of_eq ?_
      simp only [act, note, pushBack]
      exact unlink_receivers _ _ _
  | challenge p token =>
      refine .of_eq ?_
      simp only [act, sendChallenge]
      split
      · exact dispatch_receivers _ _ _ _ _ _
      · rfl
  | deny p => exact .of_eq (unlink_receivers _ _ _)
  | denied p =>
      refine .of_eq ?_
      simp only [act, sendDenied]
      split
      · exact dispatch_receivers _ _ _ _ _ _
      · rfl
  | connect p => exact .of_eq (unlink_receivers _ _ _)
  | own p type body =>
      refine .of_eq ?_
      simp only [act, sendOwn]
      split
      · exact dispatch_receivers _ _ _ _ _ _
      · rfl
  | park p => exact .of_eq (unlink_receivers _ _ _)
  | release p name =>
      have hunlink : Cancels s (s.unlink name p) := .of_eq (unlink_receivers s name p)
      exact hunlink.trans (cancels_releasePeer _ _)
  | note effect => exact .of_eq rfl
  | stopping => exact .of_eq rfl
  | stopped => exact cancels_stopDeferred s

theorem receivers_of_act (env : Env) (s : Server) (a : Act) (id : ReceiverId) (r : Receiver)
    (h : (act env s a).receivers id = some r) :
    ((∃ r', s.receivers id = some r') ∧ (r.peer ≠ none → s.receivers id = some r)) ∨
      ∃ p datagram, a = .submit p datagram ∧ id = s.tick ∧ r = newReceiver env s p datagram := by
  by_cases ha : ∀ p datagram, a ≠ .submit p datagram
  · exact .inl (cancels_act env s a ha id r h)
  · push Not at ha
    obtain ⟨p, datagram, rfl⟩ := ha
    have hset : (act env s (.submit p datagram)).receivers =
        Function.update s.receivers s.tick (some (newReceiver env s p datagram)) := rfl
    rw [hset] at h
    by_cases hid : id = s.tick
    · subst hid
      rw [Function.update_self] at h
      exact .inr ⟨p, datagram, rfl, rfl, (Option.some.inj h).symm⟩
    · rw [Function.update_of_ne hid] at h
      exact .inl ⟨⟨r, h⟩, fun _ => h⟩

end Receivers

section Peers

/-- The peer whose state, counter or replay protector an act writes. -/
def Act.writes : Act → Option PeerId
  | .pass p datagram => if datagram.header.type.isProtected then some p else none
  | .grant p _ => some p
  | .deny p => some p
  | .connect p => some p
  | .own p _ _ => some p
  | .park p => some p
  | .release p _ => some p
  | _ => none

/-- What an act does to the fields of a peer that the invariants read. -/
inductive Change (s : Server) (q : PeerId) (x y : Peer) : Act → Prop
  | kept (a : Act) (other : a.writes ≠ some q) (state : y.state = x.state)
      (ctx : y.cryptoCtx = x.cryptoCtx) (sequence : y.sequenceNumber = x.sequenceNumber)
      (protector : y.replayProtector = x.replayProtector) : Change s q x y a
  | pass (datagram : Datagram) (type : datagram.header.type.isProtected = true)
      (value : y = (x.protectReplay datagram.header.sequence).1) :
      Change s q x y (.pass q datagram)
  | own (type : PacketType) (body : PacketBody) (state : y.state = x.state)
      (ctx : y.cryptoCtx = x.cryptoCtx) (sequence : y.sequenceNumber = x.sequenceNumber + 1)
      (protector : y.replayProtector = x.replayProtector) : Change s q x y (.own q type body)
  | acquire (address : Address) (name : q = s.tick) (state : y.state = .request)
      (ctx : y.cryptoCtx ≠ none) :
      Change s q x y (.acquire address)
  | grant (token : ConnectToken) (before : x.state = .request) (state : y.state = .challenge)
      (ctx : x.cryptoCtx ≠ none → ∃ ctx, y.cryptoCtx = some ctx ∧
        ctx.packetDecryptKey = token.token.clientToServerKey ∧
        ctx.packetEncryptKey = token.token.serverToClientKey)
      (sequence : y.sequenceNumber = x.sequenceNumber)
      (protector : y.replayProtector = x.replayProtector) : Change s q x y (.grant q token)
  | moved (a : Act) (move : a = .deny q ∨ a = .connect q ∨ a = .park q)
      (state : (x.state = .request ∧ y.state = .denied) ∨
        (x.state = .challenge ∧ y.state = .connected) ∨
        (x.state = .connected ∧ y.state = .disconnecting))
      (ctx : y.cryptoCtx = x.cryptoCtx) (sequence : y.sequenceNumber = x.sequenceNumber)
      (protector : y.replayProtector = x.replayProtector) : Change s q x y a
  | released (a : Act) (state : y.state = .disconnected) : Change s q x y a

theorem modifyPeer_peers (s : Server) (p q : PeerId) (f : Peer → Peer) :
    (s.modifyPeer p f).peers q = if q = p then f (s.peers p) else s.peers q := by
  by_cases hq : q = p
  · subst hq
    simp [modifyPeer]
  · simp [modifyPeer, hq]

theorem pushBack_peers (s : Server) (name : PeerListName) (p q : PeerId) :
    (s.pushBack name p).peers q =
      if q = p then { s.peers p with entry := some ⟨s.tick, p⟩, state := name.state }
      else s.peers q := by
  by_cases hq : q = p
  · subst hq
    simp [pushBack]
  · simp [pushBack, hq]

theorem unlink_peers (s : Server) (name : PeerListName) (p : PeerId) :
    (s.unlink name p).peers = s.peers := by
  obtain ⟨_, h⟩ := exists_unlink s name p
  rw [h]

theorem dispatch_peers (env : Env) (s : Server) (p q : PeerId) (source : SequenceSource)
    (header : Header) (body : PacketBody) :
    ∃ senders, (dispatch env s p source header body).peers q =
      { s.peers q with senders := senders } := by
  simp only [dispatch]
  split
  · by_cases hq : q = p
    · subst hq
      exact ⟨_, by simp [note, modifyPeer, setSender]; rfl⟩
    · exact ⟨(s.peers q).senders, by simp [note, modifyPeer, setSender, hq]⟩
  · exact ⟨(s.peers q).senders, rfl⟩

variable {s₀ s : Server} {i : Input}

theorem kept_of_senders {q : PeerId} {x y : Peer} {a : Act}
    (ha : a.writes ≠ some q) (h : ∃ senders, y = { x with senders := senders }) :
    Change s q x y a := by
  obtain ⟨senders, rfl⟩ := h
  exact .kept _ ha rfl rfl rfl rfl

/-- Every act changes the peers as `Change` says. -/
theorem change_of_act {a : Act} (ha : Enabled s₀ i s a) (q : PeerId) :
    Change s q (s.peers q) ((act i.env s a).peers q) a := by
  cases a with
  | pass p datagram =>
      by_cases htype : datagram.header.type.isProtected = true
      · by_cases hq : q = p
        · subst hq
          refine .pass datagram htype ?_
          simp [act, htype, note, modifyPeer]
        · refine .kept _ (by simp [Act.writes, htype, Ne.symm hq]) ?_ ?_ ?_ ?_ <;>
            simp [act, htype, note, modifyPeer, hq]
      · refine .kept _ (by simp [Act.writes, htype]) ?_ ?_ ?_ ?_ <;> simp [act, htype, note]
  | acquire a =>
      by_cases hq : q = s.tick
      · subst hq
        refine .acquire a rfl ?_ ?_ <;>
          simp [act, modifyPeer, pushBack, acquirePeer, PeerListName.state]
      · refine .kept _ (by simp [Act.writes]) ?_ ?_ ?_ ?_ <;>
          simp [act, modifyPeer, pushBack, acquirePeer, hq]
  | discard a =>
      by_cases hq : q = s.tick
      · refine .released _ ?_
        simp only [act]
        rw [releasePeer_peers, if_pos hq]
        rfl
      · refine .kept _ (by simp [Act.writes]) ?_ ?_ ?_ ?_ <;>
          simp [act, releasePeer_peers, acquirePeer, hq]
  | submit p datagram =>
      refine .kept _ (by simp [Act.writes]) ?_ ?_ ?_ ?_ <;>
      · by_cases hq : q = p
        · subst hq
          simp [act, submitReceiver, modifyPeer, setReceiver]
        · simp [act, submitReceiver, modifyPeer, setReceiver, hq]
  | take id => exact .kept _ (by simp [Act.writes]) rfl rfl rfl rfl
  | drop id => exact .kept _ (by simp [Act.writes]) rfl rfl rfl rfl
  | soft p f =>
      have hsoft : Soft f (s.peers p) := ha
      simp only [act]
      rw [modifyPeer_peers]
      split
      · subst q
        exact .kept _ (by simp [Act.writes]) hsoft.state hsoft.cryptoCtx hsoft.sequenceNumber
          hsoft.replayProtector
      · exact .kept _ (by simp [Act.writes]) rfl rfl rfl rfl
  | grant p token =>
      have hstate : (s.peers p).state = .request := ha.2.1
      simp only [act, note]
      rw [pushBack_peers, unlink_peers, modifyPeer_peers, modifyPeer_peers]
      by_cases hq : q = p
      · subst hq
        simp only [if_true]
        refine .grant token hstate rfl ?_ rfl rfl
        intro hctx
        obtain ⟨ctx, hctx⟩ := Option.ne_none_iff_exists'.mp hctx
        exact ⟨_, by simp [Peer.adoptToken, hctx]; rfl, rfl, rfl⟩
      · simp only [if_neg hq]
        exact .kept _ (by simp [Act.writes, Ne.symm hq]) rfl rfl rfl rfl
  | challenge p token =>
      simp only [act, sendChallenge]
      split
      · exact kept_of_senders (by simp [Act.writes]) (dispatch_peers _ _ _ _ _ _ _)
      · exact .kept _ (by simp [Act.writes]) rfl rfl rfl rfl
  | deny p =>
      have hstate : (s.peers p).state = .request := ha
      simp only [act]
      rw [pushBack_peers, unlink_peers]
      by_cases hq : q = p
      · subst hq
        rw [if_pos rfl]
        exact .moved _ (.inl rfl) (.inl ⟨hstate, rfl⟩) rfl rfl rfl
      · rw [if_neg hq]
        exact .kept _ (by simp [Act.writes, Ne.symm hq]) rfl rfl rfl rfl
  | denied p =>
      simp only [act, sendDenied]
      split
      · exact kept_of_senders (by simp [Act.writes]) (dispatch_peers _ _ _ _ _ _ _)
      · exact .kept _ (by simp [Act.writes]) rfl rfl rfl rfl
  | connect p =>
      have hstate : (s.peers p).state = .challenge := ha.2.1
      simp only [act]
      rw [modifyPeer_peers, pushBack_peers, pushBack_peers, unlink_peers]
      by_cases hq : q = p
      · subst hq
        simp only [if_true]
        exact .moved _ (.inr (.inl rfl)) (.inr (.inl ⟨hstate, rfl⟩)) rfl rfl rfl
      · simp only [if_neg hq]
        exact .kept _ (by simp [Act.writes, Ne.symm hq]) rfl rfl rfl rfl
  | own p type body =>
      have hnext : ∀ y : Peer, (∃ senders, y =
          { (s.modifyPeer p fun peer => peer.nextSequence.1).peers q with senders := senders }) →
            Change s q (s.peers q) y (.own p type body) := by
        rintro y ⟨senders, rfl⟩
        rw [modifyPeer_peers]
        by_cases hq : q = p
        · subst hq
          rw [if_pos rfl]
          exact .own type body rfl rfl rfl rfl
        · rw [if_neg hq]
          exact .kept _ (by simp [Act.writes, Ne.symm hq]) rfl rfl rfl rfl
      simp only [act, sendOwn]
      split
      · exact hnext _ (dispatch_peers _ _ _ _ _ _ _)
      · exact hnext _ ⟨_, rfl⟩
  | park p =>
      have hstate : (s.peers p).state = .connected := ha
      simp only [act]
      rw [modifyPeer_peers, pushBack_peers, pushBack_peers, unlink_peers]
      by_cases hq : q = p
      · subst hq
        simp only [if_true]
        exact .moved _ (.inr (.inr rfl)) (.inr (.inr ⟨hstate, rfl⟩)) rfl rfl rfl
      · simp only [if_neg hq]
        exact .kept _ (by simp [Act.writes, Ne.symm hq]) rfl rfl rfl rfl
  | release p name =>
      simp only [act]
      rw [releasePeer_peers, unlink_peers]
      by_cases hq : q = p
      · subst hq
        rw [if_pos rfl]
        exact .released _ rfl
      · rw [if_neg hq]
        exact .kept _ (by simp [Act.writes, Ne.symm hq]) rfl rfl rfl rfl
  | note effect => exact .kept _ (by simp [Act.writes]) rfl rfl rfl rfl
  | stopping => exact .kept _ (by simp [Act.writes]) rfl rfl rfl rfl
  | stopped =>
      rcases stopDeferred_peers s q with ⟨peer, hq⟩ | ⟨hq, -⟩
      · refine .released _ ?_
        simp only [act]
        rw [hq]
        rfl
      · simp only [act]
        rw [hq]
        exact .kept _ (by simp [Act.writes]) rfl rfl rfl rfl

end Peers

section Record

variable {s₀ s : Server} {i : Input} {a : Act}

/-- The acts that add an effect to the record. -/
inductive EffectOf (env : Env) (s : Server) : Act → Effect → Prop
  | emitted (a : Act) (emission : Emission) : EffectOf env s a (.emitted emission)
  | validated (p : PeerId) (datagram : Datagram) :
      EffectOf env s (.pass p datagram) (.validated s.tick p datagram)
  | granted (p : PeerId) (token : ConnectToken) :
      EffectOf env s (.grant p token) (.granted p token env.now)
  | received (id : ReceiverId) (p : PeerId) (datagram : Datagram) :
      EffectOf env s (.note (.received id p datagram)) (.received id p datagram)
  | connected (p : PeerId) : EffectOf env s (.note (.connected p)) (.connected p)
  | disconnected (p : PeerId) : EffectOf env s (.note (.disconnected p)) (.disconnected p)

theorem submitted_source {env : Env} {s : Server} {p : PeerId} {source : SequenceSource}
    {header : Header} {body : PacketBody} {effect : Effect}
    (h : effect ∈ submitted env s p source header body) :
    effect = .emitted ⟨p, source, (s.cryptoCtx p).packetEncryptKey, header,
      (s.cryptoCtx p).encryptPacket header body⟩ ∧ env.acquireSender p header.type = true := by
  simp only [submitted] at h
  split at h
  · exact ⟨List.mem_singleton.mp h, ‹_›⟩
  · exact absurd h (by simp)

theorem effectOf_of_mem (ha : Enabled s₀ i s a) {effect : Effect}
    (h : effect ∈ effects i.env s a) : EffectOf i.env s a effect := by
  have hsubmitted : ∀ {p : PeerId} {source : SequenceSource} {header : Header}
      {body : PacketBody} {packet : Bool},
      effect ∈ (if packet then submitted i.env s p source header body else []) →
        EffectOf i.env s a effect := by
    intro p source header body packet hmem
    split at hmem
    · rw [(submitted_source hmem).1]
      exact .emitted a _
    · exact absurd hmem (by simp)
  cases a with
  | pass p datagram =>
      obtain rfl := List.mem_singleton.mp h
      exact .validated p datagram
  | grant p token =>
      obtain rfl := List.mem_singleton.mp h
      exact .granted p token
  | challenge p token => exact hsubmitted h
  | denied p => exact hsubmitted h
  | own p type body => exact hsubmitted h
  | note effect' =>
      obtain rfl := List.mem_singleton.mp h
      cases effect with
      | received id p datagram => exact .received id p datagram
      | connected p => exact .connected p
      | disconnected p => exact .disconnected p
      | validated id p datagram => exact (ha : False).elim
      | granted p token now => exact (ha : False).elim
      | emitted emission => exact (ha : False).elim
  | _ => exact absurd h (by simp [effects])

theorem granted_mem_act (ha : Enabled s₀ i s a) {p : PeerId} {token : ConnectToken}
    {now : UInt64} :
    .granted p token now ∈ (act i.env s a).log ↔
      .granted p token now ∈ s.log ∨ (a = .grant p token ∧ now = i.env.now) := by
  rw [act_log, List.mem_append]
  refine or_congr Iff.rfl ⟨fun h => ?_, ?_⟩
  · cases effectOf_of_mem ha h with
    | granted => exact ⟨rfl, rfl⟩
  · rintro ⟨rfl, rfl⟩
    simp [effects]

theorem validated_mem_act (ha : Enabled s₀ i s a) {id : ReceiverId} {p : PeerId}
    {datagram : Datagram} :
    .validated id p datagram ∈ (act i.env s a).log ↔
      .validated id p datagram ∈ s.log ∨ (a = .pass p datagram ∧ id = s.tick) := by
  rw [act_log, List.mem_append]
  refine or_congr Iff.rfl ⟨fun h => ?_, ?_⟩
  · cases effectOf_of_mem ha h with
    | validated => exact ⟨rfl, rfl⟩
  · rintro ⟨rfl, rfl⟩
    simp [effects]

theorem received_mem_act (ha : Enabled s₀ i s a) {id : ReceiverId} {p : PeerId}
    {datagram : Datagram} :
    .received id p datagram ∈ (act i.env s a).log ↔
      .received id p datagram ∈ s.log ∨ a = .note (.received id p datagram) := by
  rw [act_log, List.mem_append]
  refine or_congr Iff.rfl ⟨fun h => ?_, ?_⟩
  · cases effectOf_of_mem ha h with
    | received => rfl
  · rintro rfl
    simp [effects]

theorem length_effects (env : Env) (s : Server) (a : Act) : (effects env s a).length ≤ 1 := by
  have hsubmitted : ∀ (p : PeerId) (source : SequenceSource) (header : Header)
      (body : PacketBody) (packet : Bool),
      (if packet then submitted env s p source header body else []).length ≤ 1 := by
    intro p source header body packet
    simp only [submitted]
    split
    · split <;> simp
    · simp
  cases a with
  | challenge p token => exact hsubmitted _ _ _ _ _
  | denied p => exact hsubmitted _ _ _ _ _
  | own p type body => exact hsubmitted _ _ _ _ _
  | _ => simp [effects]

theorem nodup_filterMap_act {β : Type*} (f : Effect → Option β) {env : Env} {s : Server} {a : Act}
    (h : (s.log.filterMap f).Nodup)
    (hnew : ∀ effect ∈ effects env s a, ∀ x, f effect = some x → x ∉ s.log.filterMap f) :
    ((act env s a).log.filterMap f).Nodup := by
  rw [act_log, List.filterMap_append, List.nodup_append]
  refine ⟨h, ?_, ?_⟩
  · have hlength : ((effects env s a).filterMap f).length ≤ 1 :=
      (List.length_filterMap_le _ _).trans (length_effects _ _ _)
    match (effects env s a).filterMap f, hlength with
    | [], _ => exact List.nodup_nil
    | [x], _ => simp
  · rintro x hx y hy rfl
    obtain ⟨effect, hmem, heq⟩ := List.mem_filterMap.mp hy
    exact hnew effect hmem x heq hx

end Record

section Names

/-- Every name in the record and among the receivers is the number of a step. -/
structure Named (s : Server) : Prop where
  log : ∀ effect ∈ s.log, ∀ n ∈ effectNames effect, n ≤ s.tick
  receivers : ∀ id r, s.receivers id = some r → id ≤ s.tick
  peers : ∀ id r p, s.receivers id = some r → r.peer = some p → p ≤ s.tick

theorem Table.peer_le {s : Server} (h : Table s) {p : PeerId} (name : PeerListName)
    (hp : (s.peers p).state = name.state) : p ≤ s.tick := by
  obtain ⟨x, hx, rfl⟩ := h.listed p name hp
  exact h.named name x hx

variable {s₀ s : Server} {i : Input}

theorem submitted_names {env : Env} {p : PeerId} {source : SequenceSource} {header : Header}
    {body : PacketBody} {effect : Effect}
    (h : effect ∈ submitted env s p source header body) : effectNames effect = [p] := by
  simp only [submitted] at h
  split at h
  · obtain rfl := List.mem_singleton.mp h
    rfl
  · exact absurd h (by simp)

/-- The names of what an act adds to the record. -/
theorem Table.effectNames_le (h : Table s) {a : Act} (ha : Enabled s₀ i s a) :
    ∀ effect ∈ effects i.env s a, ∀ n ∈ effectNames effect, n ≤ s.tick := by
  intro effect heffect n hn
  cases a with
  | pass p datagram =>
      obtain rfl := List.mem_singleton.mp heffect
      have hp : p ≤ s.tick := by
        obtain ⟨-, -, -, -, hstate⟩ := ha
        split at hstate
        · exact h.peer_le .connected hstate.1
        · rcases hstate with hstate | hstate
          · exact h.peer_le .requesting hstate
          · exact h.peer_le .challenging hstate
      simp only [effectNames, List.mem_cons, List.not_mem_nil, or_false] at hn
      rcases hn with rfl | rfl
      · exact le_rfl
      · exact hp
  | grant p token =>
      obtain rfl := List.mem_singleton.mp heffect
      obtain rfl := List.mem_singleton.mp hn
      exact h.peer_le .requesting ha.2.1
  | challenge p token =>
      simp only [effects] at heffect
      split at heffect
      · rw [submitted_names heffect] at hn
        obtain rfl := List.mem_singleton.mp hn
        exact h.peer_le .challenging ha.2.1
      · exact absurd heffect (by simp)
  | denied p =>
      simp only [effects] at heffect
      split at heffect
      · rw [submitted_names heffect] at hn
        obtain rfl := List.mem_singleton.mp hn
        exact h.peer_le .denied ha.2.1
      · exact absurd heffect (by simp)
  | own p type body =>
      simp only [effects] at heffect
      split at heffect
      · rw [submitted_names heffect] at hn
        obtain rfl := List.mem_singleton.mp hn
        rcases ha.1 with hstate | hstate
        · exact h.peer_le .connected hstate
        · exact h.peer_le .disconnecting hstate
      · exact absurd heffect (by simp)
  | note effect' =>
      obtain rfl := List.mem_singleton.mp heffect
      cases effect with
      | received id p datagram =>
          obtain ⟨-, -, -, -, hid, hp⟩ := ha
          simp only [effectNames, List.mem_cons, List.not_mem_nil, or_false] at hn
          rcases hn with rfl | rfl
          · exact hid
          · exact hp
      | connected p =>
          obtain rfl := List.mem_singleton.mp hn
          exact ha
      | disconnected p =>
          obtain rfl := List.mem_singleton.mp hn
          exact ha
      | validated id p datagram => exact (ha : False).elim
      | granted p token now => exact (ha : False).elim
      | emitted emission => exact (ha : False).elim
  | acquire a => exact absurd heffect (by simp [effects])
  | discard a => exact absurd heffect (by simp [effects])
  | submit p datagram => exact absurd heffect (by simp [effects])
  | take id => exact absurd heffect (by simp [effects])
  | drop id => exact absurd heffect (by simp [effects])
  | soft p f => exact absurd heffect (by simp [effects])
  | deny p => exact absurd heffect (by simp [effects])
  | connect p => exact absurd heffect (by simp [effects])
  | park p => exact absurd heffect (by simp [effects])
  | release p name => exact absurd heffect (by simp [effects])
  | stopping => exact absurd heffect (by simp [effects])
  | stopped => exact absurd heffect (by simp [effects])

theorem Named.act (hn : Named s) (h : Table s) {a : Act} (ha : Enabled s₀ i s a) :
    Named (act i.env s a) := by
  constructor
  · rw [act_log, act_tick]
    intro effect heffect n hmem
    rcases List.mem_append.mp heffect with hold | hnew
    · exact hn.log effect hold n hmem
    · exact h.effectNames_le ha effect hnew n hmem
  · intro id r hr
    rw [act_tick]
    rcases receivers_of_act i.env s a id r hr with ⟨⟨r', hr'⟩, -⟩ | ⟨p, datagram, -, rfl, -⟩
    · exact hn.receivers id r' hr'
    · exact le_rfl
  · intro id r p hr hp
    rw [act_tick]
    rcases receivers_of_act i.env s a id r hr with ⟨-, hkept⟩ | ⟨p', datagram, rfl, -, rfl⟩
    · exact hn.peers id r p (hkept (by simp [hp])) hp
    · obtain rfl := Option.some.inj hp
      exact hn.log _ ha.1 _ (by simp [effectNames])

theorem named_start (o : ServerOptions) : Named (start o) := by
  refine ⟨?_, ?_, ?_⟩ <;> simp [start]

theorem Named.freshLog (hn : Named s) : FreshLog { s with tick := s.tick + 1 } := by
  intro effect heffect hmem
  exact absurd (hn.log effect heffect _ hmem) (by simp)

end Names

end Server

end Protocol

end PomeloUdp
