import PomeloUdp.Protocol.Authentication
import PomeloUdp.Protocol.Client

/-!
# The denial of a full server

A full server denies a request before it takes the keys and the protocol id of
the connect token, so the packet is encrypted under a context of zeros.
`understood_iff` says which clients understand it: those whose token has the
server-to-client key zero and the protocol id zero.
-/

namespace PomeloUdp

namespace Protocol

open Machine Crypto Aead

namespace Client

/-- A client that sends requests to an address. -/
structure Requesting (c : Client) (token : ClientToken) (a : Address) : Prop where
  running : c.state = .running
  alive : c.faulted = false
  peer : ∃ peer, c.peer = some peer ∧ peer.state = .request ∧ peer.address = some a ∧
    peer.cryptoCtx = some (contextOf token)

/-- A datagram from an address passes the validation of the client and decrypts as a
denial, and the client leaves the state of a request on it. -/
structure Understands (c : Client) (env env' : ClientEnv) (a : Address) (datagram : Datagram) :
    Prop where
  decrypts : ∃ r, (step c ⟨env, .accept a datagram⟩).receivers (c.tick + 1) = some r ∧
    r.datagram = datagram ∧ processEntry r.cryptoCtx datagram = some .denied
  leaves : ∀ peer, (step (step c ⟨env, .accept a datagram⟩)
    ⟨env', .receiverComplete (c.tick + 1) false⟩).peer = some peer → peer.state ≠ .request

variable {c : Client} {token : ClientToken} {a : Address}

theorem Requesting.accepts (h : c.Requesting token a) {env : ClientEnv}
    (hreceiver : env.acquireReceiver = true) {header : Header} (hheader : header.type = .denied)
    {body : SealedBody} (hlength : body.length = hmacBytes) :
    ∃ peer, c.peer = some peer ∧ step c ⟨env, .accept a (.packet header body)⟩ =
      { c with
        tick := c.tick + 1
        peer := some { peer with receivers := peer.receivers ++ [c.tick + 1] }
        receivers := Function.update c.receivers (c.tick + 1)
          (some ⟨some peerName, contextOf token, .packet header body, env.hrtime, false⟩) } := by
  obtain ⟨hrunning, halive, peer, hpeer, hstate, haddress, hctx⟩ := h
  have hvalid : (Datagram.packet header body).validateBodyLength = true := by
    simp [Datagram.validateBodyLength, Protocol.validateBodyLength, hheader, hlength]
  have hpasses : validate peer a header = (peer, true) := by
    simp [validate, haddress, hheader, hstate]
  refine ⟨peer, hpeer, ?_⟩
  simp [step, handle, accept, halive, hrunning, hvalid, hpeer, hpasses, Datagram.header,
    hreceiver, submitReceiver, modifyPeer, setReceiver, hctx]

/-- What a denial finds that decrypts. -/
def denied (c : Client) (peer : Peer) (hrtime : UInt64) : Client :=
  { c with
    tick := c.tick + 2
    peer := some { peer with
      receivers := (peer.receivers ++ [c.tick + 1]).erase (c.tick + 1), lastRecvTime := hrtime }
    receivers := Function.update c.receivers (c.tick + 1) none }

theorem Requesting.handles (h : c.Requesting token a) (env env' : ClientEnv)
    (hreceiver : env.acquireReceiver = true) {header : Header} (hheader : header.type = .denied)
    {body : SealedBody} (hlength : body.length = hmacBytes)
    (hdecrypts : processEntry (contextOf token) (.packet header body) = some .denied) :
    ∃ peer, c.peer = some peer ∧ step (step c ⟨env, .accept a (.packet header body)⟩)
      ⟨env', .receiverComplete (c.tick + 1) false⟩ = recvDenied (c.denied peer env.hrtime) := by
  obtain ⟨peer, hpeer, haccepted⟩ := h.accepts hreceiver hheader hlength
  refine ⟨peer, hpeer, ?_⟩
  rw [haccepted]
  simp [step, handle, h.alive, receiverComplete, handleReceiverComplete, setReceiver, modifyPeer,
    h.running, hdecrypts, validatePacket, recvPacket, denied]

theorem state_of_recvDenied (c : Client) {peer : Peer} (h : (recvDenied c).peer = some peer) :
    peer.state ≠ .request := by
  unfold recvDenied at h
  simp only [nextAddress] at h
  split at h
  · rename_i heq
    simp only [Prod.mk.injEq] at heq
    obtain ⟨rfl, -⟩ := heq
    rw [socketStop_peer] at h
    obtain ⟨peer', -, rfl⟩ := Option.map_eq_some_iff.mp h
    simp
  · rename_i heq
    simp only [Prod.mk.injEq] at heq
    obtain ⟨rfl, -⟩ := heq
    simp only [retryAddress, fault, stop] at h
    split at h
    · rename_i hnone
      exact absurd (hnone.symm.trans h) (by simp)
    · exact absurd h (by simp [releasePeer])

theorem Requesting.understands_iff (h : c.Requesting token a) {env env' : ClientEnv}
    (hreceiver : env.acquireReceiver = true) {header : Header} (hheader : header.type = .denied)
    {body : SealedBody} (hlength : body.length = hmacBytes) :
    Understands c env env' a (.packet header body) ↔
      processEntry (contextOf token) (.packet header body) = some .denied := by
  constructor
  · rintro ⟨⟨r, hr', -, hdecrypts⟩, -⟩
    obtain ⟨peer, -, haccepted⟩ := h.accepts hreceiver hheader hlength
    rw [haccepted] at hr'
    simp only [Function.update_self, Option.some.injEq] at hr'
    obtain rfl := hr'
    exact hdecrypts
  · intro hdecrypts
    refine ⟨?_, ?_⟩
    · obtain ⟨peer, -, haccepted⟩ := h.accepts hreceiver hheader hlength
      rw [haccepted]
      exact ⟨_, Function.update_self _ _ _, rfl, hdecrypts⟩
    · obtain ⟨peer, -, hhandled⟩ := h.handles env env' hreceiver hheader hlength hdecrypts
      rw [hhandled]
      exact fun peer' => state_of_recvDenied _

end Client

namespace Server

/-- A requesting peer has the context of zeros. -/
def Anonymous (s : Server) : Prop :=
  ∀ p, (s.peers p).state = .request →
    (s.cryptoCtx p).protocolId = 0 ∧ (s.cryptoCtx p).packetEncryptKey = 0

section Steps

variable {o : ServerOptions} {s₀ s : Server} {i : Input} {a : Act}

theorem anonymous_act (h : Anonymous s) (ha : Enabled s₀ i s a) : Anonymous (act i.env s a) := by
  intro q hstate
  unfold cryptoCtx
  cases identity_of_act ha q with
  | kept _ other old same =>
      simp only [Peer.identity, Prod.mk.injEq] at same
      rw [same.2.2.2]
      refine h q ?_
      cases change_of_act ha q with
      | kept _ _ state => exact state.symm.trans hstate
      | pass datagram _ value =>
          rw [value] at hstate
          exact hstate
      | own _ _ state => exact state.symm.trans hstate
      | acquire address name => exact absurd name (old address rfl)
      | grant token => exact absurd rfl (other token)
      | moved _ _ state =>
          rcases state with ⟨-, state⟩ | ⟨-, state⟩ | ⟨-, state⟩ <;>
            exact absurd (state.symm.trans hstate) (by decide)
      | released _ state => exact absurd (state.symm.trans hstate) (by decide)
  | acquired address name now ctx =>
      rw [ctx]
      exact ⟨rfl, rfl⟩
  | adopted token =>
      have hchallenge : ((act i.env s (.grant q token)).peers q).state = .challenge := by
        simp [act, note, pushBack, PeerListName.state]
      exact absurd (hchallenge.symm.trans hstate) (by decide)
  | released _ _ state => exact absurd (state.symm.trans hstate) (by decide)

theorem anonymous_run (o : ServerOptions) (is : List Input) :
    Sound (run step (start o) is) ∧ Anonymous (run step (start o) is) := by
  induction is using List.reverseRecOn with
  | nil =>
      refine ⟨sound_start o, fun p hstate => ?_⟩
      exact absurd hstate (by simp [start, Peer.zero])
  | append_singleton is i ih =>
      obtain ⟨hsound, hanonymous⟩ := ih
      rw [run_concat]
      exact ⟨hsound.step i, invariant_step hsound.table hsound.named i hanonymous
        fun _ _ _ _ ht ha => anonymous_act ht ha⟩

theorem emitted_of_full (h : Sound s) {p : PeerId} {datagram : Datagram} {token : ConnectToken}
    (hcompletion : s.completion i = some (p, datagram,
      some (.request token.protocolId token.expireTimestamp token.token)))
    (hfull : s.maxClients ≤ (s.lists .connected).length) {e : Emission}
    (he : .emitted e ∈ (step s i).log) :
    .emitted e ∈ s.log ∨ (s.peers p).state = .request ∧
      ∃ n, e.header = ⟨.denied, n⟩ ∧
        e.body = (s.cryptoCtx p).encryptPacket ⟨.denied, n⟩ .denied := by
  have hgranting : s.granting i = none := by
    simp [granting, hcompletion, Nat.not_lt.mpr hfull]
  have hown : s.ownNumbers i = [] := by
    obtain ⟨id, workerFailed, r, hevent, -⟩ := completion_eq_some hcompletion
    simp [ownNumbers, hevent, connecting, hcompletion]
  refine invariant_step h.table h.named i (I := fun t => .emitted e ∈ t.log →
    .emitted e ∈ s.log ∨ (s.peers p).state = .request ∧ ∃ n, e.header = ⟨.denied, n⟩ ∧
      e.body = (s.cryptoCtx p).encryptPacket ⟨.denied, n⟩ .denied) .inl ?_ he
  intro t a _ _ ht ha hmem
  rw [act_log, List.mem_append] at hmem
  refine hmem.elim ht fun hnew => ?_
  cases a with
  | challenge q token' => exact absurd (hgranting.symm.trans ha.1) (by simp)
  | denied q =>
      obtain ⟨hdenying, -, hctx, -⟩ := ha
      have hq : q = p ∧ (s.peers p).state = .request := by
        have hdenying' : s.denying i = some q := hdenying
        simp only [denying, hcompletion] at hdenying'
        split at hdenying'
        · rename_i hready
          exact ⟨(Option.some.inj hdenying').symm, hready.1⟩
        · cases hdenying'
      obtain ⟨rfl, hstate⟩ := hq
      simp only [effects] at hnew
      split at hnew
      · obtain ⟨heq, -⟩ := submitted_source hnew
        obtain rfl := Effect.emitted.inj heq
        refine .inr ⟨hstate, t.anonymousSequenceNumber, rfl, ?_⟩
        rw [show s.cryptoCtx q = t.cryptoCtx q from hctx.symm]
      · cases hnew
  | own q type body =>
      have hnumber : (q, type, (t.peers q).sequenceNumber) ∈ s.ownNumbers i := ha.2.1
      rw [hown] at hnumber
      cases hnumber
  | note effect =>
      obtain rfl := List.mem_singleton.mp hnew
      exact (ha : False).elim
  | _ => simp [effects] at hnew

end Steps

theorem processEntry_denied_iff (ctx ctx' : CryptoContext) (n : UInt64) :
    processEntry ctx (.packet ⟨.denied, n⟩ (ctx'.encryptPacket ⟨.denied, n⟩ .denied)) =
      some .denied ↔
        ctx'.packetEncryptKey = ctx.packetDecryptKey ∧ ctx'.protocolId = ctx.protocolId := by
  have hbody : ctx.decryptPacket ⟨.denied, n⟩ (ctx'.encryptPacket ⟨.denied, n⟩ .denied) =
      if ctx'.packetEncryptKey = ctx.packetDecryptKey ∧ ctx'.protocolId = ctx.protocolId then
        some .denied
      else none := by
    simp [CryptoContext.decryptPacket, CryptoContext.encryptPacket, Sealed.open?,
      CryptoContext.makeAssociatedData]
  simp only [processEntry, hbody]
  split
  · rename_i hsame
    exact iff_of_true rfl hsame
  · rename_i hother
    exact iff_of_false (by simp) hother

/-- The denial that a full server answers a request with, whose connect token it
decrypted, is understood by the client with that token exactly if the
server-to-client key of the token and the protocol id are zero. -/
theorem understood_iff (o : ServerOptions) (is : List Input) (i : Input) (p : PeerId)
    (datagram : Datagram) (token : ConnectToken) (e : Emission)
    (hcompletion : (run step (start o) is).completion i = some (p, datagram,
      some (.request token.protocolId token.expireTimestamp token.token)))
    (hfull : (run step (start o) is).maxClients ≤
      ((run step (start o) is).lists .connected).length)
    (he : .emitted e ∈ (step (run step (start o) is) i).log)
    (hnew : .emitted e ∉ (run step (start o) is).log)
    (c : Client) (nonce : TokenNonce) (a : Address) (env env' : ClientEnv)
    (hc : c.Requesting (token.issue o.privateKey nonce) a)
    (hreceiver : env.acquireReceiver = true) :
    Client.Understands c env env' a (.packet e.header e.body) ↔
      token.token.serverToClientKey = 0 ∧ token.protocolId = 0 := by
  obtain ⟨hsound, hanonymous⟩ := anonymous_run o is
  obtain ⟨hstate, n, hheader, hbody⟩ :=
    (emitted_of_full hsound hcompletion hfull he).resolve_left hnew
  obtain ⟨hprotocol, hkey⟩ := hanonymous p hstate
  rw [hheader, hbody, hc.understands_iff hreceiver rfl rfl, processEntry_denied_iff, hprotocol,
    hkey]
  exact and_congr eq_comm eq_comm

/-- A client is connected and the request of another one has arrived. -/
def requestOfAnother : List Input :=
  oneHandshake ++ [arrive (sampleAddress 2) (clientRequest 1 0 (sampleToken 2 21 22))]

/-- The denial of that request. -/
def sampleDenial : Emission :=
  ⟨5, .anonymous, 0, ⟨.denied, 1⟩,
    .encrypted 0 1 ⟨0, .denied, 1⟩ .denied⟩

/-- The other client. -/
def sampleClient : Client :=
  Client.start ((sampleToken 2 21 22).issue 1 0) (.ipv4 9 5000) 1000 0 0

theorem requesting_sampleClient :
    sampleClient.Requesting ((sampleToken 2 21 22).issue 1 0) (.ipv4 9 5000) :=
  ⟨rfl, rfl, _, rfl, rfl, rfl, rfl⟩

theorem understood_iff_requestOfAnother :
    Client.Understands sampleClient (.plentiful 0) (.plentiful 0) (.ipv4 9 5000)
      (.packet sampleDenial.header sampleDenial.body) ↔
        (sampleToken 2 21 22).token.serverToClientKey = 0 ∧ (sampleToken 2 21 22).protocolId = 0 :=
  understood_iff (sampleOptions 1) requestOfAnother (complete 5) 5
    (clientRequest 1 0 (sampleToken 2 21 22)) (sampleToken 2 21 22) sampleDenial
    (by decide +kernel) (by decide +kernel) (by decide +kernel) (by decide +kernel)
    sampleClient 0 (.ipv4 9 5000) (.plentiful 0) (.plentiful 0) requesting_sampleClient rfl

theorem denial_not_understood :
    ¬ ∀ (o : ServerOptions) (is : List Input) (i : Input) (p : PeerId) (datagram : Datagram)
      (token : ConnectToken) (e : Emission),
      (run step (start o) is).completion i = some (p, datagram,
        some (.request token.protocolId token.expireTimestamp token.token)) →
      (run step (start o) is).maxClients ≤ ((run step (start o) is).lists .connected).length →
      .emitted e ∈ (step (run step (start o) is) i).log →
      .emitted e ∉ (run step (start o) is).log →
      ∀ (c : Client) (nonce : TokenNonce) (a : Address) (env env' : ClientEnv),
        c.Requesting (token.issue o.privateKey nonce) a → env.acquireReceiver = true →
          Client.Understands c env env' a (.packet e.header e.body) := by
  intro h
  have hunderstands := h (sampleOptions 1) requestOfAnother (complete 5) 5
    (clientRequest 1 0 (sampleToken 2 21 22)) (sampleToken 2 21 22) sampleDenial
    (by decide +kernel) (by decide +kernel) (by decide +kernel) (by decide +kernel)
    sampleClient 0 (.ipv4 9 5000) (.plentiful 0) (.plentiful 0)
    requesting_sampleClient rfl
  rw [requesting_sampleClient.understands_iff rfl rfl rfl] at hunderstands
  revert hunderstands
  decide +kernel

end Server

end Protocol

end PomeloUdp
