import PomeloUdp.Protocol.RequestTimeout

/-!
# The retransmission of requests

A client repeats its request until it gets a challenge. The server validates a request
only if it holds no peer for the address of the client, and the peer of the first
request stays until the server's scan times it out: when the challenge is lost, the
repeated requests are dropped. `exchange_iff` says in which states a repeated request
is answered.
-/

namespace PomeloUdp

namespace Protocol

open Machine Crypto

namespace World

/-- The datagrams in a part of the record of a client. -/
def datagrams (log : List ClientEffect) : List Datagram :=
  log.filterMap fun
    | .emitted datagram => some datagram
    | _ => none

/-- The packets in a part of the record of a server. -/
def emissions (log : List Effect) : List Emission :=
  log.filterMap fun
    | .emitted emission => some emission
    | _ => none

/-- A datagram from an address arrives at a server and is processed. -/
def toServer (n : ℕ) (a : Address) (now : UInt64) (w : World) (datagram : Datagram) : World :=
  run step w [.server n ⟨.plentiful now, .accept a datagram⟩,
    .server n ⟨.plentiful now, .receiverComplete ((w.servers n).tick + 1) false⟩]

/-- A packet of a server arrives at the client from an address and is processed. -/
def toClient (b : Address) (now : UInt64) (w : World) (emission : Emission) : World :=
  run step w [.client ⟨.plentiful now, .accept b (.packet emission.header emission.body)⟩,
    .client ⟨.plentiful now, .receiverComplete (w.client.tick + 1) false⟩]

/-- The next retransmission: the request emitter triggers. -/
def retransmit (now : UInt64) (w : World) : World :=
  run step w [.client ⟨.plentiful now, .triggerTimer .request⟩,
    .client ⟨.plentiful now, .triggered .request⟩]

/-- What the client retransmits arrives at a server from the address `a`, and all that
the server emits in answer arrives at the client from the address `b`. -/
def exchange (n : ℕ) (a b : Address) (now now' : UInt64) (w : World) : World :=
  let w₁ := w.retransmit now
  let w₂ := (datagrams (w₁.client.log.drop w.client.log.length)).foldl (toServer n a now') w₁
  (emissions ((w₂.servers n).log.drop (w₁.servers n).log.length)).foldl (toClient b now) w₂

end World

namespace Client

/-- A client that retransmits its request. -/
structure Retransmits (c : Client) (token : ClientToken) (b : Address) : Prop where
  connectToken : c.connectToken = token
  alive : c.faulted = false
  emitting : (c.emitters .request).running = true
  peer : ∃ peer, c.peer = some peer ∧ peer.state = .request ∧ peer.address = some b ∧
    peer.cryptoCtx = some (contextOf token)

section Client

variable {c : Client} {token : ClientToken} {b : Address}

/-- In every state of a run in which the client has got no answer. -/
theorem retransmits_run (token : ClientToken) (b : Address) (payloadCapacity : ℕ)
    (hrtime leftover : UInt64) (is : List ClientInput) :
    let c := run step (start token b payloadCapacity hrtime leftover) is
    c.connectToken = token ∧ ∀ peer, c.peer = some peer → c.faulted = false ∧
      peer.address = some b ∧ peer.cryptoCtx = some (contextOf token) ∧
      (peer.state = .request → (c.emitters .request).running = true) := by
  induction is using List.reverseRecOn with
  | nil =>
      refine ⟨rfl, fun peer hpeer => ?_⟩
      obtain rfl := Option.some.inj hpeer
      exact ⟨rfl, rfl, rfl, fun _ => rfl⟩
  | append_singleton is i ih =>
      obtain ⟨htoken, hkept⟩ := ih
      rw [run_append]
      have hfollows := follows_step (run step (start token b payloadCapacity hrtime leftover) is) i
      refine ⟨hfollows.token.trans htoken, fun peer' hpeer' => ?_⟩
      obtain ⟨hfaulted, peer, hpeer, haddress, hctx, hrequest, -⟩ := hfollows.peer peer' hpeer'
      obtain ⟨halive, hb, hcontext, hrunning⟩ := hkept peer hpeer
      refine ⟨hfaulted.trans halive, haddress.trans hb, hctx.trans hcontext, fun hstate => ?_⟩
      obtain ⟨hwas, hsame⟩ := hrequest hstate
      exact hsame.trans (hrunning hwas)

theorem Retransmits.emits (h : c.Retransmits token b) (now : UInt64) :
    let c' := run step c [⟨.plentiful now, .triggerTimer .request⟩,
      ⟨.plentiful now, .triggered .request⟩]
    c'.log = c.log ++ [.emitted (.request 0 ⟨true, token.protocolId, token.expireTimestamp,
      token.connectTokenNonce, token.encrypted⟩)] ∧ c'.state = c.state ∧
      c'.Retransmits token b := by
  obtain ⟨rfl, halive, hemitting, peer, hpeer, hstate, haddress, hctx⟩ := h
  simp only [run_cons, run_nil, step, handle, halive, hemitting, modifyEmitter, onTriggered,
    trigger, sendRequest, ClientEnv.plentiful, hpeer, dispatch, note, modifyPeer, setSender,
    EmitterName.limit]
  simp only [Bool.false_eq_true, if_false, if_true, Function.update_self, lt_irrefl, false_and]
  exact ⟨trivial, trivial, rfl, rfl, by simp, _, rfl, hstate, haddress, hctx⟩

theorem state_of_not_running (hrunning : c.state ≠ .running) (env env' : ClientEnv)
    (datagram : Datagram) (id : ReceiverId) :
    (run step c [⟨env, .accept b datagram⟩, ⟨env', .receiverComplete id false⟩]).peer.map
      (·.state) =
      c.peer.map (·.state) := by
  have haccept : (step c ⟨env, .accept b datagram⟩).peer = c.peer ∧
      (step c ⟨env, .accept b datagram⟩).state ≠ .running := by
    unfold step
    split
    · exact ⟨rfl, hrunning⟩
    · simp [handle, accept, hrunning]
  obtain ⟨hpeer, hstill⟩ := haccept
  rw [run_cons, run_cons, run_nil, ← hpeer]
  generalize step c ⟨env, .accept b datagram⟩ = c' at hstill
  unfold step
  split
  · rfl
  · simp only [handle, receiverComplete]
    split
    · rfl
    · split
      · rfl
      · simp [handleReceiverComplete, setReceiver, modifyPeer, hstill, Option.map_map,
          Function.comp_def]

theorem peer_recvChallenge (c : Client) (env : ClientEnv) {peer : Peer}
    (hrequest : peer.state = .request) (sequence : UInt64) (challenge : SealedChallenge) :
    (recvChallenge env c peer sequence challenge).peer =
      c.peer.map fun peer => { peer with state := .response } := by
  unfold recvChallenge
  rw [if_neg (not_not.mpr hrequest)]
  simp only []
  have hkept := (emitterStart_response
    { (c.modifyPeer fun peer => { peer with state := .response }).emitterStop .request with
      challengeTokenSequence := sequence, challengeTokenData := challenge } env).1
  split
  · exact hkept
  · exact (socketStop_peer _).trans hkept

theorem Retransmits.challenge (h : c.Retransmits token b) (now : UInt64) {header : Header}
    (hheader : header.type = .challenge) {body : SealedBody}
    (hlength : validateBodyLength .challenge body.length = true) {sequence : UInt64}
    {challenge : SealedChallenge}
    (hdecrypts : processEntry (contextOf token) (.packet header body) =
      some (.challenge sequence challenge)) :
    (run step c [⟨.plentiful now, .accept b (.packet header body)⟩,
      ⟨.plentiful now, .receiverComplete (c.tick + 1) false⟩]).peer.map (·.state) =
        some .response ↔ c.state = .running := by
  obtain ⟨-, halive, -, peer, hpeer, hstate, haddress, hctx⟩ := h
  by_cases hrunning : c.state = .running
  · refine iff_of_true ?_ hrunning
    have hpasses : validate peer b header = (peer, true) := by
      simp [validate, haddress, hheader, hstate]
    simp [step, handle, accept, halive, hrunning, Datagram.validateBodyLength, hheader, hlength,
      hpeer, hpasses, Datagram.header, ClientEnv.plentiful, submitReceiver, modifyPeer,
      setReceiver, hctx, receiverComplete, handleReceiverComplete, hdecrypts, validatePacket,
      recvPacket, peer_recvChallenge, hstate]
  · refine iff_of_false ?_ hrunning
    rw [state_of_not_running hrunning, hpeer, Option.map_some, hstate]
    simp

end Client

end Client

namespace Server

/-- What a server keeps of its options. -/
structure Settled (o : ServerOptions) (s : Server) : Prop where
  protocolId : s.protocolId = o.protocolId
  privateKey : s.state ≠ .stopped → s.privateKey = o.privateKey

section Server

variable {s : Server} {a : Address} {now : UInt64}

theorem Settled.act {o : ServerOptions} {env : Env} {act : Act} (h : Settled o s)
    (hstate : act = .stopping → s.state = .running) :
    Settled o (Server.act env s act) := by
  have hsettings := settings_act env s act
  refine ⟨hsettings.protocolId.trans h.protocolId, fun hrunning => ?_⟩
  rw [(hsettings.keys hrunning).2]
  refine h.privateKey fun hstopped => hrunning ?_
  rcases hsettings.state with hsame | ⟨rfl, -⟩ | hstopped'
  · exact hsame.trans hstopped
  · exact absurd ((hstate rfl).symm.trans hstopped) (by decide)
  · exact hstopped'

theorem settled_run (o : ServerOptions) (is : List Input) :
    Sound (run step (start o) is) ∧ Settled o (run step (start o) is) := by
  induction is using List.reverseRecOn with
  | nil => exact ⟨sound_start o, rfl, fun _ => rfl⟩
  | append_singleton is i ih =>
      obtain ⟨hsound, hsettled⟩ := ih
      rw [run_concat]
      refine ⟨hsound.step i, invariant_step hsound.table hsound.named i
        ⟨hsettled.protocolId, hsettled.privateKey⟩ fun t act _ _ ht ha => ht.act ?_⟩
      rintro rfl
      exact ha

theorem log_of_dropped (h : Named s) (sequence : UInt64) (body : RequestBody)
    (hdropped : s.state ≠ .running ∨ (s.peerAddressMap a).isSome) :
    (run step s [⟨.plentiful now, .accept a (.request sequence body)⟩,
      ⟨.plentiful now, .receiverComplete (s.tick + 1) false⟩]).log = s.log := by
  have haccept : step s ⟨.plentiful now, .accept a (.request sequence body)⟩ =
      { s with tick := s.tick + 1 } := by
    rcases hdropped with hrunning | hheld
    · simp [step, handle, accept, validateIncoming, hrunning]
    · by_cases hrunning : s.state = .running <;>
        simp [step, handle, accept, validateIncoming, hrunning, validateRequest, hheld,
          Datagram.validateBodyLength]
  have hfree : s.receivers (s.tick + 1) = none := by
    by_contra hreceiver
    obtain ⟨r, hr⟩ := Option.ne_none_iff_exists'.mp hreceiver
    exact absurd (h.receivers _ r hr) (Nat.not_succ_le_self _)
  rw [run_cons, run_cons, run_nil, haccept]
  simp [step, handle, receiverComplete, hfree]

/-- What a server is like that has accepted the request of a new client. -/
structure Submitted (s s₁ : Server) (p : PeerId) (datagram : Datagram) : Prop where
  state : s₁.state = .running
  log : s₁.log = s.log ++ [.validated p p datagram]
  receiver : ∃ r, s₁.receivers p = some r ∧ r.peer = some p ∧ r.canceled = false ∧
    r.datagram = datagram ∧ r.cryptoCtx = ⟨0, 0, 0, s.challengeKey, s.privateKey⟩
  peer : (s₁.peers p).state = .request
  context : (s₁.peers p).cryptoCtx = some ⟨0, 0, 0, s.challengeKey, s.privateKey⟩
  connected : s₁.lists .connected = s.lists .connected
  maxClients : s₁.maxClients = s.maxClients

theorem submitted_request (hrunning : s.state = .running) (hfree : s.peerAddressMap a = none)
    (now : UInt64) (sequence : UInt64) (body : RequestBody)
    (hprotocol : body.protocolId = s.protocolId) :
    Submitted s (step s ⟨.plentiful now, .accept a (.request sequence body)⟩) (s.tick + 1)
      (.request sequence body) := by
  have hstep : ∃ s₁, step s ⟨.plentiful now, .accept a (.request sequence body)⟩ = s₁ ∧
      Submitted s s₁ (s.tick + 1) (.request sequence body) := by
    simp only [step, handle, accept, validateIncoming, hrunning, Datagram.validateBodyLength,
      validateRequest, hfree, hprotocol, Env.plentiful]
    refine ⟨_, rfl, ?_⟩
    constructor <;> simp [acquirePeer, pushBack, modifyPeer, note, submitReceiver, setReceiver,
      cryptoCtx, PeerListName.state]
  obtain ⟨s₁, hs₁, hsubmitted⟩ := hstep
  rwa [hs₁]

/-- The challenge of a peer whose request is granted, under the keys of its token. -/
def challengeOf (s : Server) (p : PeerId) (token : ConnectToken) : Emission :=
  ⟨p, .anonymous, token.token.serverToClientKey, ⟨.challenge, s.anonymousSequenceNumber⟩,
    .encrypted token.token.serverToClientKey s.anonymousSequenceNumber
      ⟨token.protocolId, .challenge, calcPackedUint64Bytes s.anonymousSequenceNumber⟩
      (.challenge s.challengeSequenceNumber (.encrypted (s.cryptoCtx p).challengeKey
        s.challengeSequenceNumber () ⟨token.token.clientId, token.token.userData⟩))⟩

theorem log_recvRequest {p : PeerId} (hrequest : (s.peers p).state = .request)
    (hroom : (s.lists .connected).length < s.maxClients) {ctx : CryptoContext}
    (hctx : (s.peers p).cryptoCtx = some ctx) (token : ConnectToken) :
    (recvRequest (.plentiful now) s p token).log =
      s.log ++ [.granted p token now, .emitted (s.challengeOf p token)] := by
  obtain ⟨lists, hunlink⟩ := exists_unlink
    (s.modifyPeer p fun peer => peer.adoptToken token (Env.plentiful now).hrtime) .requesting p
  unfold recvRequest
  rw [if_neg (not_not.mpr hrequest), if_neg (Nat.not_le.mpr hroom)]
  simp only [hunlink]
  simp [Env.plentiful, pushBack, note, modifyPeer, sendChallenge, takeAnonymous, takeChallenge,
    dispatch, setSender, cryptoCtx, Peer.adoptToken, hctx, CryptoContext.encryptPacket,
    CryptoContext.makeAssociatedData, challengeOf]

theorem processEntry_challengeOf (s : Server) (p : PeerId) (privateKey : Key) (nonce : TokenNonce)
    (token : ConnectToken) :
    processEntry (Client.contextOf (token.issue privateKey nonce))
      (.packet (s.challengeOf p token).header (s.challengeOf p token).body) =
    some (.challenge s.challengeSequenceNumber (.encrypted (s.cryptoCtx p).challengeKey
      s.challengeSequenceNumber () ⟨token.token.clientId, token.token.userData⟩)) := by
  simp [processEntry, challengeOf, CryptoContext.decryptPacket, Aead.Sealed.open?, Client.contextOf,
    ConnectToken.issue, CryptoContext.makeAssociatedData, packetDecode]

theorem log_of_granted (hrunning : s.state = .running) (hfree : s.peerAddressMap a = none)
    (hroom : (s.lists .connected).length < s.maxClients) (now : UInt64) (nonce : TokenNonce)
    {token : ConnectToken} (hprotocol : token.protocolId = s.protocolId) :
    ∃ (s₁ : Server) (p : PeerId),
      (run step s [⟨.plentiful now, .accept a (clientRequest s.privateKey nonce token)⟩,
        ⟨.plentiful now, .receiverComplete (s.tick + 1) false⟩]).log =
      s.log ++ [.validated p p (clientRequest s.privateKey nonce token), .granted p token now,
        .emitted (s₁.challengeOf p token)] := by
  obtain ⟨hstate, hlog, ⟨r, hr, hpeer, hcanceled, hdatagram, hctx⟩, hrequest, hcontext, hconnected,
    hmax⟩ := submitted_request hrunning hfree now 0 ⟨true, token.protocolId,
      token.expireTimestamp, nonce, .encrypted s.privateKey nonce
        ⟨token.protocolId, token.expireTimestamp⟩ token.token⟩ hprotocol
  rw [run_cons, run_cons, run_nil]
  unfold clientRequest
  generalize step s _ = s₁ at *
  have hdecoded := processEntry_clientRequest ⟨0, 0, 0, s.challengeKey, s.privateKey⟩ nonce token
  rw [← hctx] at hdecoded
  unfold clientRequest at hdecoded
  obtain ⟨s₂, hstep, hlog₂, hrequest₂, hcontext₂, hroom₂⟩ : ∃ s₂ : Server,
      step s₁ ⟨.plentiful now, .receiverComplete (s.tick + 1) false⟩ =
        recvRequest (.plentiful now) s₂ (s.tick + 1) token ∧ s₂.log = s₁.log ∧
      (s₂.peers (s.tick + 1)).state = .request ∧
      (s₂.peers (s.tick + 1)).cryptoCtx = some ⟨0, 0, 0, s.challengeKey, s.privateKey⟩ ∧
      (s₂.lists .connected).length < s₂.maxClients := by
    simp only [step, handle, receiverComplete, hr, hcanceled, hpeer, handleReceiverComplete,
      setReceiver, modifyPeer, hstate, hdatagram, Datagram.header, Bool.false_eq_true, if_false,
      ne_eq, not_true_eq_false, reduceCtorEq]
    rw [hctx] at hdecoded ⊢
    simp only [hdecoded, validatePacket, recvPacket, if_true]
    exact ⟨_, rfl, rfl, by simp [hrequest], by simp [hcontext], by simp [hconnected, hmax, hroom]⟩
  refine ⟨s₂, s.tick + 1, ?_⟩
  rw [hstep, log_recvRequest hrequest₂ hroom₂ hcontext₂, hlog₂, hlog, List.append_assoc]
  rfl

end Server

end Server

namespace World

section Exchange

variable {privateKey : Key} {o : ℕ → ServerOptions} {token : ConnectToken} {nonce : TokenNonce}
  {n : ℕ} {a b : Address} {now now' : UInt64}

theorem servers_toServer (w : World) (datagram : Datagram) :
    (toServer n a now w datagram).servers n = run Server.step (w.servers n)
      [⟨.plentiful now, .accept a datagram⟩,
        ⟨.plentiful now, .receiverComplete ((w.servers n).tick + 1) false⟩] := by
  simp [toServer, step]

/-- The steps of the client. -/
def clientInputs (is : List WorldInput) : List ClientInput :=
  is.filterMap fun
    | .client i => some i
    | .server _ _ => none

/-- The client in the world runs by itself. -/
theorem client_run (w : World) (is : List WorldInput) :
    (run step w is).client = run Client.step w.client (clientInputs is) := by
  induction is generalizing w with
  | nil => rfl
  | cons i is ih =>
      rw [run_cons, ih]
      cases i <;> rfl

theorem state_exchange {w : World} (hclient : w.client.Retransmits (token.issue privateKey nonce) b)
    (hsound : (w.servers n).Named)
    (hkey : (w.servers n).state = .running → (w.servers n).privateKey = privateKey)
    (hprotocol : token.protocolId = (w.servers n).protocolId)
    (hroom : ((w.servers n).lists .connected).length < (w.servers n).maxClients) :
    (exchange n a b now now' w).client.peer.map (·.state) = some .response ↔
      w.client.state = .running ∧ (w.servers n).state = .running ∧
        (w.servers n).peerAddressMap a = none := by
  obtain ⟨hlog, hstate, hretransmits⟩ := hclient.emits now
  have hservers : (w.retransmit now).servers = w.servers := rfl
  have hrequests : datagrams ((w.retransmit now).client.log.drop w.client.log.length) =
      [clientRequest privateKey nonce token] := by
    have hnew : (w.retransmit now).client.log = _ := hlog
    rw [hnew, List.drop_left]
    rfl
  unfold exchange
  simp only [hrequests, List.foldl_cons, List.foldl_nil, servers_toServer, hservers]
  by_cases hgrants : (w.servers n).state = .running ∧ (w.servers n).peerAddressMap a = none
  · obtain ⟨s₁, p, hgranted⟩ := Server.log_of_granted hgrants.1 hgrants.2 hroom now' nonce
      hprotocol
    rw [hkey hgrants.1] at hgranted
    rw [hgranted, List.drop_left]
    refine (hretransmits.challenge now rfl rfl
      (Server.processEntry_challengeOf s₁ p privateKey nonce token)).trans ?_
    rw [hstate]
    exact (and_iff_left hgrants).symm
  · have hdropped : (w.servers n).state ≠ .running ∨ ((w.servers n).peerAddressMap a).isSome := by
      by_cases hrunning : (w.servers n).state = .running
      · refine .inr (Option.ne_none_iff_isSome.mp fun hfree => hgrants ⟨hrunning, hfree⟩)
      · exact .inl hrunning
    rw [clientRequest, Server.log_of_dropped hsound _ _ hdropped, List.drop_length]
    refine iff_of_false ?_ fun h => hgrants h.2
    obtain ⟨peer, hpeer, hrequest, -, -⟩ := hretransmits.peer
    have hunanswered : (w.retransmit now).client.peer = some peer := hpeer
    simp only [emissions, List.filterMap_nil, List.foldl_nil]
    rw [show (toServer n a now' (w.retransmit now) _).client.peer = _ from hunanswered,
      Option.map_some, hrequest]
    decide

/-- In every state of every run in which the client is waiting for a challenge and the
server is not full, whatever was lost, delayed or duplicated before, the next request
takes the client on exactly if it and the server run and the server holds no peer for
the address of the client. -/
theorem exchange_iff (privateKey : Key) (o : ℕ → ServerOptions) (token : ConnectToken)
    (nonce : TokenNonce) (payloadCapacity : ℕ) (hrtime leftover : UInt64) (is : List WorldInput)
    (n : ℕ) (a b : Address) (now now' : UInt64) (w : World)
    (hw : w = run step (start privateKey o
      (Client.start (token.issue privateKey nonce) b payloadCapacity hrtime leftover)) is)
    (hprotocol : token.protocolId = (o n).protocolId)
    (hrequest : w.client.peer.map (·.state) = some .request)
    (hroom : ((w.servers n).lists .connected).length < (w.servers n).maxClients) :
    (exchange n a b now now' w).client.peer.map (·.state) = some .response ↔
      w.client.state = .running ∧ (w.servers n).state = .running ∧
        (w.servers n).peerAddressMap a = none := by
  obtain ⟨hsound, hsettled⟩ :=
    Server.settled_run { o n with privateKey := privateKey } (inputs n is)
  have hserver : w.servers n = run Server.step
      (Server.start { o n with privateKey := privateKey }) (inputs n is) := by
    rw [hw]
    exact servers_run _ is n
  rw [← hserver] at hsound hsettled
  obtain ⟨htoken, hkept⟩ := Client.retransmits_run (token.issue privateKey nonce) b payloadCapacity
    hrtime leftover (clientInputs is)
  have hclient : w.client = run Client.step (Client.start (token.issue privateKey nonce) b
      payloadCapacity hrtime leftover) (clientInputs is) := by
    rw [hw]
    exact client_run _ is
  rw [← hclient] at htoken hkept
  obtain ⟨peer, hpeer, hstate⟩ := Option.map_eq_some_iff.mp hrequest
  obtain ⟨halive, haddress, hctx, hemitting⟩ := hkept peer hpeer
  refine state_exchange ⟨htoken, halive, hemitting hstate, peer, hpeer, hstate, haddress, hctx⟩
    hsound.named (fun hrunning => ?_) ?_ hroom
  · exact hsettled.privateKey (by rw [hrunning]; decide)
  · rw [hsettled.protocolId]
    exact hprotocol

/-- A network between a client at `a` and a server at `b` that may lose, delay and
duplicate: what arrives was sent. -/
def Carried (a b : Address) (w : World) : WorldInput → Prop
  | .client ⟨_, .accept address datagram⟩ => address = b ∧
      ∃ e ∈ emissions (w.servers 0).log, datagram = .packet e.header e.body
  | .server n ⟨_, .accept address datagram⟩ => n = 0 ∧ address = a ∧
      datagram ∈ datagrams w.client.log
  | _ => True

/-- A request has reached the server, and the challenge is lost. -/
def lostChallenge : List WorldInput :=
  [.client ⟨.plentiful 0, .triggerTimer .request⟩, .client ⟨.plentiful 0, .triggered .request⟩,
    .server 0 (arrive (sampleAddress 1) (clientRequest 1 0 (sampleToken 1 11 12))),
    .server 0 (complete 1)]

theorem carried_lostChallenge :
    Along step (Carried (sampleAddress 1) (sampleAddress 9))
      (start 1 (fun _ => sampleOptions 1) sampleClient) lostChallenge :=
  ⟨trivial, trivial, ⟨rfl, rfl, by decide +kernel⟩, trivial, trivial⟩

/-- Where the first request is lost the next one takes the client on, and where the challenge is
lost it does not. -/
theorem exchange_iff_lostChallenge :
    (exchange 0 (sampleAddress 1) (sampleAddress 9) 1 1
        (run step (start 1 (fun _ => sampleOptions 1) sampleClient)
          (lostChallenge.take 2))).client.peer.map (·.state) = some .response ∧
      (exchange 0 (sampleAddress 1) (sampleAddress 9) 1 1
        (run step (start 1 (fun _ => sampleOptions 1) sampleClient) lostChallenge)).client.peer.map
          (·.state) ≠ some .response := by
  have hnext := fun is => exchange_iff 1 (fun _ => sampleOptions 1) (sampleToken 1 11 12) 0 1000 0 0
    is 0 (sampleAddress 1) (sampleAddress 9) 1 1 _ rfl rfl
  constructor
  · exact (hnext (lostChallenge.take 2) (by decide +kernel) (by decide +kernel)).mpr
      ⟨by decide +kernel, by decide +kernel, by decide +kernel⟩
  · intro hresponse
    have hnone := ((hnext lostChallenge (by decide +kernel) (by decide +kernel)).mp hresponse).2.2
    revert hnone
    decide +kernel

theorem not_exchange_lostChallenge :
    ¬ ∀ (privateKey : Key) (o : ℕ → ServerOptions) (token : ConnectToken) (nonce : TokenNonce)
      (payloadCapacity : ℕ) (hrtime leftover : UInt64) (is : List WorldInput) (a b : Address)
      (now now' : UInt64) (w : World),
      w = run step (start privateKey o
        (Client.start (token.issue privateKey nonce) b payloadCapacity hrtime leftover)) is →
      Along step (Carried a b) (start privateKey o
        (Client.start (token.issue privateKey nonce) b payloadCapacity hrtime leftover)) is →
      token.protocolId = (o 0).protocolId →
      w.client.peer.map (·.state) = some .request →
      ((w.servers 0).lists .connected).length < (w.servers 0).maxClients →
      w.client.state = .running → (w.servers 0).state = .running →
      (exchange 0 a b now now' w).client.peer.map (·.state) = some .response := by
  intro h
  have hanswered := h 1 (fun _ => sampleOptions 1) (sampleToken 1 11 12) 0 1000 0 0 lostChallenge
    (sampleAddress 1) (sampleAddress 9) 1 1
    (run step (start 1 (fun _ => sampleOptions 1) sampleClient) lostChallenge) rfl
    carried_lostChallenge rfl (by decide +kernel) (by decide +kernel) (by decide +kernel)
    (by decide +kernel)
  revert hanswered
  decide +kernel

end Exchange

end World

end Protocol

end PomeloUdp
