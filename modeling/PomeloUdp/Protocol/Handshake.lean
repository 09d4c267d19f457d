import PomeloUdp.Protocol.Grants

/-!
# What a handshake leaves behind

The address, the client id, the user data and the crypto context of a peer are
written when it is acquired, when its request is accepted and when it is
released (`identity_of_act`). `Handshake` ties them, the receivers in flight and
the record of accepted requests to the history of the run: every receiver stems
from a datagram that arrived from the address of its peer, and every peer past
its request carries what the token of that request says.
-/

namespace PomeloUdp

namespace Protocol

open Machine Crypto Aead

/-- Who a peer is: its client id, user data, address and crypto context. -/
def Peer.identity (peer : Peer) : Int64 × UserData × Option Address × Option CryptoContext :=
  (peer.clientId, peer.userData, peer.address, peer.cryptoCtx)

/-- The challenge token in a response. -/
def Datagram.challengeToken? : Datagram → Option SealedChallenge
  | .packet _ (.encrypted _ _ _ (.response _ token)) => some token
  | _ => none

/-- Step `n` of a history received a datagram from an address. -/
def Arrived (history : List Input) (n : ℕ) (a : Address) (datagram : Datagram) : Prop :=
  ∃ m env, n = m + 1 ∧ history[m]? = some ⟨env, .accept a datagram⟩

theorem Arrived.append {history : List Input} {n : ℕ} {a : Address} {datagram : Datagram}
    (h : Arrived history n a datagram) (more : List Input) :
    Arrived (history ++ more) n a datagram := by
  obtain ⟨m, env, rfl, hm⟩ := h
  refine ⟨m, env, rfl, ?_⟩
  rw [List.getElem?_append_left (List.getElem?_eq_some_iff.mp hm).1]
  exact hm

theorem Arrived.unique {history : List Input} {n : ℕ} {a b : Address} {d e : Datagram}
    (h : Arrived history n a d) (h' : Arrived history n b e) : a = b ∧ d = e := by
  obtain ⟨m, env, rfl, hm⟩ := h
  obtain ⟨m', env', heq, hm'⟩ := h'
  obtain rfl := Nat.succ_injective heq
  rw [hm] at hm'
  simpa using (congrArg Input.event (Option.some.inj hm'))

theorem arrived_last (history : List Input) {i : Input} {a : Address} {datagram : Datagram}
    (h : i.event = .accept a datagram) :
    Arrived (history ++ [i]) (history.length + 1) a datagram := by
  obtain ⟨env, event⟩ := i
  subst h
  exact ⟨history.length, env, rfl, by simp⟩

namespace Server

section Identity

/-- What an act does to the identity of a peer. -/
inductive IdentityChange (s : Server) (q : PeerId) (x y : Peer) : Act → Prop
  | kept (a : Act) (other : ∀ token, a ≠ .grant q token)
      (old : ∀ address, a = .acquire address → q ≠ s.tick) (same : y.identity = x.identity) :
      IdentityChange s q x y a
  | acquired (address : Address) (name : q = s.tick) (now : y.address = some address)
      (ctx : y.cryptoCtx = some ⟨0, 0, 0, s.challengeKey, s.privateKey⟩) :
      IdentityChange s q x y (.acquire address)
  | adopted (token : ConnectToken) (client : y.clientId = token.token.clientId)
      (data : y.userData = token.token.userData) (same : y.address = x.address)
      (ctx : y.cryptoCtx = x.cryptoCtx.map fun ctx =>
        { ctx with
          protocolId := token.protocolId
          packetDecryptKey := token.token.clientToServerKey
          packetEncryptKey := token.token.serverToClientKey }) :
      IdentityChange s q x y (.grant q token)
  | released (a : Act) (gone : y.address = none) (state : y.state = .disconnected) :
      IdentityChange s q x y a

variable {s₀ s : Server} {i : Input}

theorem identity_of_senders {q : PeerId} {x y : Peer} {a : Act}
    (ha : ∀ token, a ≠ .grant q token) (hold : ∀ address, a ≠ .acquire address)
    (h : ∃ senders, y = { x with senders := senders }) : IdentityChange s q x y a := by
  obtain ⟨senders, rfl⟩ := h
  exact .kept _ ha (fun address heq => absurd heq (hold address)) rfl

theorem identity_of_release {t : Server} {p q : PeerId} {a : Act}
    (ha : ∀ token, a ≠ .grant q token) (hold : ∀ address, a ≠ .acquire address)
    (h : q ≠ p → (t.peers q).identity = (s.peers q).identity) :
    IdentityChange s q (s.peers q) ((t.releasePeer p).peers q) a := by
  rw [releasePeer_peers]
  by_cases hq : q = p
  · rw [if_pos hq]
    exact .released _ rfl rfl
  · rw [if_neg hq]
    exact .kept _ ha (fun address heq => absurd heq (hold address)) (h hq)

/-- Every act changes the identity of a peer as `IdentityChange` says. -/
theorem identity_of_act {a : Act} (ha : Enabled s₀ i s a) (q : PeerId) :
    IdentityChange s q (s.peers q) ((act i.env s a).peers q) a := by
  cases a with
  | pass p datagram =>
      refine .kept _ (by simp) (by simp) ?_
      simp only [act]
      split
      · simp only [note, modifyPeer_peers]
        split
        · subst q
          rfl
        · rfl
      · rfl
  | acquire a =>
      simp only [act]
      rw [modifyPeer_peers, pushBack_peers, pushBack_peers]
      by_cases hq : q = s.tick
      · rw [if_pos hq]
        exact .acquired a hq (by simp [acquirePeer]) rfl
      · rw [if_neg hq, if_neg hq]
        exact .kept _ (by simp) (fun _ _ => hq) (by simp [acquirePeer, hq])
  | discard a =>
      refine identity_of_release (by simp) (by simp) fun hq => ?_
      simp [acquirePeer, hq]
  | submit p datagram =>
      refine .kept _ (by simp) (by simp) ?_
      simp only [act, submitReceiver]
      rw [modifyPeer_peers]
      split
      · subst q
        rfl
      · rfl
  | take id => exact .kept _ (by simp) (by simp) rfl
  | drop id => exact .kept _ (by simp) (by simp) rfl
  | soft p f =>
      have hsoft : Soft f (s.peers p) := ha
      refine .kept _ (by simp) (by simp) ?_
      simp only [act]
      rw [modifyPeer_peers]
      split
      · subst q
        simp [Peer.identity, hsoft.clientId, hsoft.userData, hsoft.address, hsoft.cryptoCtx]
      · rfl
  | grant p token =>
      simp only [act, note]
      rw [pushBack_peers, unlink_peers, modifyPeer_peers, modifyPeer_peers]
      by_cases hq : q = p
      · subst hq
        simp only [if_true]
        exact .adopted token rfl rfl rfl rfl
      · simp only [if_neg hq]
        refine .kept _ (fun token' heq => hq ?_) (by simp) rfl
        exact (Act.grant.inj heq).1.symm
  | challenge p token =>
      simp only [act, sendChallenge]
      split
      · exact identity_of_senders (by simp) (by simp) (dispatch_peers _ _ _ _ _ _ _)
      · exact .kept _ (by simp) (by simp) rfl
  | deny p =>
      refine .kept _ (by simp) (by simp) ?_
      simp only [act]
      rw [pushBack_peers, unlink_peers]
      split
      · subst q
        rfl
      · rfl
  | denied p =>
      simp only [act, sendDenied]
      split
      · exact identity_of_senders (by simp) (by simp) (dispatch_peers _ _ _ _ _ _ _)
      · exact .kept _ (by simp) (by simp) rfl
  | connect p =>
      refine .kept _ (by simp) (by simp) ?_
      simp only [act]
      rw [modifyPeer_peers, pushBack_peers, pushBack_peers, unlink_peers]
      by_cases hq : q = p
      · subst hq
        simp only [if_true]
        rfl
      · simp only [if_neg hq]
  | own p type body =>
      refine .kept _ (by simp) (by simp) ?_
      obtain ⟨senders, hpeer⟩ := sendOwn_peers i.env s p q type body
      simp only [act]
      rw [hpeer, modifyPeer_peers]
      split
      · subst q
        rfl
      · rfl
  | park p =>
      refine .kept _ (by simp) (by simp) ?_
      simp only [act]
      rw [modifyPeer_peers, pushBack_peers, pushBack_peers, unlink_peers]
      by_cases hq : q = p
      · subst hq
        simp only [if_true]
        rfl
      · simp only [if_neg hq]
  | release p name =>
      refine identity_of_release (by simp) (by simp) fun _ => ?_
      rw [unlink_peers]
  | note effect => exact .kept _ (by simp) (by simp) rfl
  | stopping => exact .kept _ (by simp) (by simp) rfl
  | stopped =>
      rcases stopDeferred_peers s q with ⟨peer, hq⟩ | ⟨hq, -⟩
      · refine .released _ ?_ ?_ <;>
        · simp only [act]
          rw [hq]
          rfl
      · refine .kept _ (by simp) (by simp) ?_
        simp only [act]
        rw [hq]

end Identity

/-- The challenge tokens the server has sent. -/
def issued (s : Server) : List SealedChallenge :=
  s.log.filterMap fun
    | .emitted emission =>
        match emission.body with
        | .encrypted _ _ _ (.challenge _ token) => some token
        | _ => none
    | _ => none

/-- A challenge token under the challenge key that arrives was sent by the server,
which is the only one to have the key. -/
def Unforged (challengeKey : Key) (s : Server) (i : Input) : Prop :=
  ∀ a datagram, i.event = .accept a datagram → ∀ sequence token,
    datagram.challengeToken? = some (.encrypted challengeKey sequence () token) →
      .encrypted challengeKey sequence () token ∈ s.issued

/-- A peer past its request carries what the token of that request says. -/
def Adopted (s : Server) : Prop :=
  ∀ p token now, Admitted (s.peers p).state → .granted p token now ∈ s.log →
    (s.peers p).clientId = token.token.clientId ∧ (s.peers p).userData = token.token.userData ∧
      (s.cryptoCtx p).protocolId = token.protocolId

section Invariant

variable (o : ServerOptions) (history : List Input)

/-- A receiver in flight stems from a datagram that arrived from the address of
its peer. -/
structure Stems (s : Server) (id : ReceiverId) (r : Receiver) (p : PeerId) : Prop where
  address : ∃ a d, Arrived history p a d ∧ Arrived history id a r.datagram
  challengeKey : r.cryptoCtx.challengeKey = o.challengeKey
  privateKey : r.cryptoCtx.privateKey = o.privateKey
  protocol : ∀ sequence body, r.datagram = .request sequence body → body.protocolId = o.protocolId
  keys : r.datagram.header.type = .response →
    ∃ token now, .granted p token now ∈ s.log ∧ KeysOf r.cryptoCtx token
  token : ∀ sequence token,
    r.datagram.challengeToken? = some (.encrypted o.challengeKey sequence () token) →
      .encrypted o.challengeKey sequence () token ∈ s.issued

/-- What the handshakes of a history have left in the state of the server. -/
structure Handshake (s : Server) : Prop where
  tick : s.tick = history.length
  secrets : s.state ≠ .stopped → s.challengeKey = o.challengeKey ∧ s.privateKey = o.privateKey
  protocolId : s.protocolId = o.protocolId
  peers : ∀ p a, (s.peers p).address = some a → (∃ d, Arrived history p a d) ∧
    ∃ ctx, (s.peers p).cryptoCtx = some ctx ∧ ctx.challengeKey = o.challengeKey ∧
      ctx.privateKey = o.privateKey
  adopted : Adopted s
  receivers : ∀ id r p, s.receivers id = some r → r.peer = some p → Stems o history s id r p

end Invariant

section Steps

variable {o : ServerOptions} {history : List Input} {s₀ s : Server} {i : Input} {a : Act}

theorem issued_act_subset {env : Env} {token : SealedChallenge} (h : token ∈ s.issued) :
    token ∈ (act env s a).issued := by
  unfold issued at h ⊢
  rw [act_log, List.filterMap_append]
  exact List.mem_append_left _ h

theorem Stems.act {id : ReceiverId} {r : Receiver} {p : PeerId} (h : Stems o history s id r p)
    (env : Env) (a : Act) : Stems o history (act env s a) id r p where
  address := h.address
  challengeKey := h.challengeKey
  privateKey := h.privateKey
  protocol := h.protocol
  keys hresponse := by
    obtain ⟨token, now, hgranted, hkeys⟩ := h.keys hresponse
    refine ⟨token, now, ?_, hkeys⟩
    rw [act_log]
    exact List.mem_append_left _ hgranted
  token sequence token htoken := issued_act_subset (h.token sequence token htoken)

theorem Handshake.stems_submitted (h : Handshake o history s) (hs : Grants s) {p : PeerId}
    {datagram : Datagram} (ha : Enabled s₀ i s (.submit p datagram))
    (hlast : ∀ a d, i.event = .accept a d → Arrived history s.tick a d)
    (hunforged : ∀ sequence token,
      datagram.challengeToken? = some (.encrypted o.challengeKey sequence () token) →
        .encrypted o.challengeKey sequence () token ∈ s.issued) :
    Stems o history s s.tick (newReceiver i.env s p datagram) p := by
  obtain ⟨-, -, -, -, ⟨a, hevent, haddress⟩, hresponse, hprotocol⟩ := ha
  obtain ⟨⟨d, hd⟩, ctx, hctx, hchallenge, hprivate⟩ := h.peers p a haddress
  have hsnapshot : s.cryptoCtx p = ctx := by simp [cryptoCtx, hctx]
  refine ⟨⟨a, d, hd, hlast a _ hevent⟩, ?_, ?_, ?_, ?_, hunforged⟩
  · simpa [newReceiver, hsnapshot] using hchallenge
  · simpa [newReceiver, hsnapshot] using hprivate
  · intro sequence body hbody
    exact (hprotocol sequence body hbody).trans h.protocolId
  · intro htype
    have hadmitted : Admitted (s.peers p).state := by
      rw [hresponse htype]
      trivial
    obtain ⟨token, now, ctx', hgranted, hsome, hkeys⟩ := hs.keyed p hadmitted
    refine ⟨token, now, hgranted, ?_⟩
    simpa [newReceiver, cryptoCtx, hsome] using hkeys

theorem admitted_of_act (ha : Enabled s₀ i s a) {q : PeerId}
    (h : Admitted ((act i.env s a).peers q).state) :
    Admitted (s.peers q).state ∨ ∃ token, a = .grant q token := by
  cases change_of_act ha q with
  | kept _ _ state => exact .inl (state ▸ h)
  | pass datagram _ value =>
      rw [value] at h
      exact .inl h
  | own _ _ state => exact .inl (state ▸ h)
  | acquire _ _ state =>
      rw [state] at h
      exact h.elim
  | grant token => exact .inr ⟨token, rfl⟩
  | moved _ _ state =>
      rcases state with ⟨-, state⟩ | ⟨state, -⟩ | ⟨state, -⟩
      · rw [state] at h
        exact h.elim
      · exact .inl (by rw [state]; trivial)
      · exact .inl (by rw [state]; trivial)
  | released _ state =>
      rw [state] at h
      exact h.elim

theorem Handshake.peers_act (h : Handshake o history s) (ha : Enabled s₀ i s a)
    (hlast : ∀ a d, i.event = .accept a d → Arrived history s.tick a d) (q : PeerId) (b : Address)
    (hb : ((Server.act i.env s a).peers q).address = some b) :
    (∃ d, Arrived history q b d) ∧ ∃ ctx, ((Server.act i.env s a).peers q).cryptoCtx = some ctx ∧
      ctx.challengeKey = o.challengeKey ∧ ctx.privateKey = o.privateKey := by
  cases identity_of_act ha q with
  | kept _ _ _ same =>
      simp only [Peer.identity, Prod.mk.injEq] at same
      obtain ⟨-, -, address, ctx⟩ := same
      rw [address] at hb
      rw [ctx]
      exact h.peers q b hb
  | acquired address name now ctx =>
      obtain ⟨-, -, -, -, hrunning, d, hevent⟩ := ha
      obtain rfl := Option.some.inj (now.symm.trans hb)
      subst name
      exact ⟨⟨d, hlast _ d hevent⟩, _, ctx, h.secrets (by simp [hrunning])⟩
  | adopted token _ _ same ctx =>
      rw [same] at hb
      obtain ⟨harrived, ctx', hsome, hkeys⟩ := h.peers q b hb
      rw [ctx, hsome]
      exact ⟨harrived, _, rfl, hkeys⟩
  | released _ gone => exact absurd (gone.symm.trans hb) (by simp)

theorem Adopted.act (h : Adopted s) (hs : Grants s) (ha : Enabled s₀ i s a) :
    Adopted (Server.act i.env s a) := by
  intro q token now hadmitted hgranted
  have hchange := identity_of_act ha q
  unfold cryptoCtx
  rcases (granted_mem_act ha).mp hgranted with hold | ⟨rfl, rfl⟩
  · cases hchange with
    | kept _ other _ same =>
        have hbefore := (admitted_of_act ha hadmitted).resolve_right fun ⟨token', heq⟩ =>
          other token' heq
        simp only [Peer.identity, Prod.mk.injEq] at same
        obtain ⟨client, data, -, ctx⟩ := same
        rw [client, data, ctx]
        exact h q token now hbefore hold
    | acquired _ name =>
        obtain ⟨-, -, -, hfresh, -⟩ := ha
        exact absurd (hfresh _ hold) (by simp [effectNames, name])
    | adopted token' => exact absurd hold (hs.fresh q ha.2.1 token now)
    | released _ _ state =>
        rw [state] at hadmitted
        exact hadmitted.elim
  · cases hchange with
    | kept _ other => exact absurd rfl (other token)
    | adopted _ client data _ ctx =>
        obtain ⟨ctx', hsome⟩ := Option.ne_none_iff_exists'.mp (hs.ctx q ha.2.1)
        refine ⟨client, data, ?_⟩
        rw [ctx, hsome]
        rfl
    | released _ _ state =>
        rw [state] at hadmitted
        exact hadmitted.elim

theorem Handshake.act (h : Handshake o history s) (hs : Grants s) (ha : Enabled s₀ i s a)
    (hlast : ∀ a d, i.event = .accept a d → Arrived history s.tick a d)
    (hunforged : Unforged o.challengeKey s i) : Handshake o history (act i.env s a) := by
  have hsettings := settings_act i.env s a
  refine ⟨hsettings.tick.trans h.tick, fun hstate => ?_, hsettings.protocolId.trans h.protocolId,
    h.peers_act ha hlast, h.adopted.act hs ha, fun id r p hr hp => ?_⟩
  · obtain ⟨hchallenge, hprivate⟩ := hsettings.keys hstate
    rw [hchallenge, hprivate]
    refine h.secrets fun hstopped => hstate ?_
    rcases hsettings.state with hsame | ⟨rfl, -⟩ | hstopped'
    · exact hsame.trans hstopped
    · exact absurd ((ha : s.state = .running).symm.trans hstopped) (by decide)
    · exact hstopped'
  · rcases receivers_of_act i.env s a id r hr with ⟨-, hkept⟩ | ⟨q, datagram, rfl, rfl, rfl⟩
    · exact (h.receivers id r p (hkept (by simp [hp])) hp).act i.env a
    · obtain rfl := Option.some.inj hp
      obtain ⟨b, hevent, -⟩ := ha.2.2.2.2.1
      exact (h.stems_submitted hs ha hlast fun sequence token htoken =>
        hunforged b datagram hevent sequence token htoken).act i.env _

theorem handshake_start (o : ServerOptions) : Handshake o [] (start o) := by
  refine ⟨rfl, fun _ => ⟨rfl, rfl⟩, rfl, ?_, ?_, ?_⟩
  · intro p a hp
    exact absurd hp (by simp [start, Peer.zero])
  · intro p token now _ hgranted
    exact absurd hgranted (by simp [start])
  · intro id r p hr
    exact absurd hr (by simp [start])

theorem Handshake.ticked (h : Handshake o history s) (i : Input) :
    Handshake o (history ++ [i]) s.ticked := by
  refine ⟨by simp [h.tick], h.secrets, h.protocolId, ?_, h.adopted, ?_⟩
  · intro p a hp
    obtain ⟨⟨d, hd⟩, hctx⟩ := h.peers p a hp
    exact ⟨⟨d, hd.append _⟩, hctx⟩
  · intro id r p hr hp
    obtain ⟨⟨a, d, hd, hid⟩, hchallenge, hprivate, hprotocol, hkeys, htoken⟩ :=
      h.receivers id r p hr hp
    exact ⟨⟨a, d, hd.append _, hid.append _⟩, hchallenge, hprivate, hprotocol, hkeys, htoken⟩

theorem handshake_step (h : Handshake o history s) (hs : Sound s)
    (hunforged : Unforged o.challengeKey s i) : Handshake o (history ++ [i]) (step s i) := by
  have hall := invariant_step (I := fun t => Grants t ∧ Handshake o (history ++ [i]) t ∧
    Unforged o.challengeKey t i) hs.table hs.named i ⟨hs.grants.ticked, h.ticked i, hunforged⟩ ?_
  · exact hall.2.1
  · rintro t a - - ⟨hgrants, ht, hissued⟩ ha
    refine ⟨hgrants.act ha, ht.act hgrants ha ?_ hissued, ?_⟩
    · intro b d hevent
      rw [ht.tick, List.length_append, List.length_singleton]
      exact arrived_last history hevent
    · intro b d hevent sequence token htoken
      exact issued_act_subset (hissued b d hevent sequence token htoken)

end Steps

end Server

end Protocol

end PomeloUdp
