import PomeloUdp.Protocol.ClientTraffic

/-!
# Authenticity of the payloads

A client and the servers that hold the private key of its token, with any network between
them. `payloads_genuine`: if the keys of the token stay with them, a payload that a server
passes to its application for a peer with that token was sent by the client, and a payload
that the client passes on was sent by a server to a peer with the token. It is the very
datagram, sequence number and type included, and its data are those that the other
application gave to a send.

A packet that comes back to its sender is not taken for one of the other side, since the two
directions have keys of their own.
-/

namespace PomeloUdp

namespace Protocol

open Machine Crypto

/-- The payload that is sealed in a datagram. -/
def Datagram.payload? : Datagram → Option (List UInt8)
  | .packet _ (.encrypted _ _ _ (.payload data)) => some data
  | _ => none

theorem eq_of_encryptPacket {ctx ctx' : CryptoContext} {header header' : Header} {key : Key}
    {body plain : PacketBody} (h : .encrypted key header.sequence (ctx.makeAssociatedData header)
      body = ctx'.encryptPacket header' plain) :
    ctx'.packetEncryptKey = key ∧ header' = header ∧ plain = body := by
  simp only [CryptoContext.encryptPacket, CryptoContext.makeAssociatedData,
    Aead.Sealed.encrypted.injEq, PacketAd.mk.injEq] at h
  obtain ⟨hkey, hsequence, ⟨-, htype, -⟩, hbody⟩ := h
  refine ⟨hkey.symm, ?_, hbody.symm⟩
  cases header
  cases header'
  simp only [Header.mk.injEq]
  exact ⟨htype.symm, hsequence.symm⟩

namespace Server

variable {o : ServerOptions} {s₀ s : Server} {i : Input} {a : Act} {arrived : Datagram → Prop}

/-- A datagram decodes to a payload under the client's key of a token. -/
def Decodes (token : ConnectToken) (datagram : Datagram) : Prop :=
  ∃ ctx : CryptoContext, ∃ data, ctx.packetDecryptKey = token.token.clientToServerKey ∧
    processEntry ctx datagram = some (.payload data)

/-- What the receivers have in hand, and what was passed on, arrived under the key of the token
of its peer. -/
structure Origins (arrived : Datagram → Prop) (s : Server) : Prop where
  flight : ∀ id r p, s.receivers id = some r → r.peer = some p →
    arrived r.datagram ∧ (r.datagram.header.type.isProtected = true →
      ∃ token now, .granted p token now ∈ s.log ∧
        r.cryptoCtx.packetDecryptKey = token.token.clientToServerKey)
  received : ∀ id p datagram, .received id p datagram ∈ s.log →
    arrived datagram ∧ ∃ token now, .granted p token now ∈ s.log ∧ Decodes token datagram

theorem origins_start (o : ServerOptions) (arrived : Datagram → Prop) :
    Origins arrived (start o) := by
  constructor <;> simp [start]

theorem Origins.mono {arrived' : Datagram → Prop} (h : Origins arrived s)
    (harrived : ∀ datagram, arrived datagram → arrived' datagram) : Origins arrived' s where
  flight id r p hr hp := ⟨harrived _ (h.flight id r p hr hp).1, (h.flight id r p hr hp).2⟩
  received id p datagram hmem :=
    ⟨harrived _ (h.received id p datagram hmem).1, (h.received id p datagram hmem).2⟩

theorem Origins.fresh (h₀ : Origins arrived s₀) {id : ReceiverId} {p : PeerId}
    {datagram : Datagram} (ha : Enabled s₀ i s (.note (.received id p datagram))) :
    arrived datagram ∧ ∃ token now, .granted p token now ∈ s₀.log ∧ Decodes token datagram := by
  obtain ⟨r, data, hreceiver, hpeer, rfl, hpacket⟩ := receiver_of_received ha
  obtain ⟨harrived, hkey⟩ := h₀.flight id r p hreceiver hpeer
  have hprotected : r.datagram.header.type.isProtected = true := by
    rw [type_of_processEntry hpacket]
    rfl
  obtain ⟨token, now, hgranted, hdecrypt⟩ := hkey hprotected
  exact ⟨harrived, token, now, hgranted, r.cryptoCtx, data, hdecrypt, hpacket⟩

theorem Origins.act (h₀ : Origins arrived s₀) (h : Origins arrived s) (hs : Grants s)
    (harrives : ∀ address datagram, i.event = .accept address datagram → arrived datagram)
    (ha : Enabled s₀ i s a) : Origins arrived (act i.env s a) := by
  have hgrows : ∀ {p token now}, .granted p token now ∈ s.log →
      .granted p token now ∈ (Server.act i.env s a).log := fun hmem =>
    (granted_mem_act ha).mpr (.inl hmem)
  constructor
  · intro id r p hreceiver hpeer
    rcases receivers_of_act i.env s a id r hreceiver with ⟨-, hkept⟩ | ⟨q, datagram, rfl, rfl, rfl⟩
    · obtain ⟨harrived, hkey⟩ := h.flight id r p (hkept (by simp [hpeer])) hpeer
      refine ⟨harrived, fun htype => ?_⟩
      obtain ⟨token, now, hgranted, hdecrypt⟩ := hkey htype
      exact ⟨token, now, hgrows hgranted, hdecrypt⟩
    · obtain rfl := Option.some.inj hpeer
      obtain ⟨-, -, -, hconnected, ⟨address, hevent, -⟩, -⟩ := ha
      refine ⟨harrives address datagram hevent, fun htype => ?_⟩
      have hadmitted : Admitted (s.peers q).state := by
        rw [hconnected htype]
        trivial
      obtain ⟨token, now, ctx, hgranted, hctx, hdecrypt, -⟩ := hs.keyed q hadmitted
      refine ⟨token, now, hgrows hgranted, ?_⟩
      simp [newReceiver, cryptoCtx, hctx, hdecrypt]
  · intro id p datagram hmem
    rcases (received_mem_act ha).mp hmem with hold | rfl
    · obtain ⟨harrived, token, now, hgranted, hdecodes⟩ := h.received id p datagram hold
      exact ⟨harrived, token, now, hgrows hgranted, hdecodes⟩
    · obtain ⟨harrived, token, now, hgranted, hdecodes⟩ := h₀.fresh ha
      have hlog : s.log = s₀.log := ha.2.2.2.1
      exact ⟨harrived, token, now, hgrows (hlog ▸ hgranted), hdecodes⟩

theorem Origins.step (h : Origins arrived s) (hs : Sound s)
    (harrives : ∀ address datagram, i.event = .accept address datagram → arrived datagram) :
    Origins arrived (step s i) := by
  have hticked : Origins arrived s.ticked := ⟨h.flight, h.received⟩
  refine (invariant_step (I := fun t => Origins arrived t ∧ Grants t) hs.table hs.named i
    ⟨hticked, hs.grants.ticked⟩ ?_).1
  rintro t a - - ⟨ht, hgrants⟩ ha
  exact ⟨hticked.act ht hgrants harrives ha, hgrants.act ha⟩

/-- What a server seals is sealed with its header, and a payload under the key of the token of
its peer. -/
def Sealing (s : Server) : Prop :=
  ∀ e, .emitted e ∈ s.log → ∃ ctx : CryptoContext, ∃ plain,
    e.body = ctx.encryptPacket e.header plain ∧
      (e.header.type = .payload → ∃ token now, .granted e.peer token now ∈ s.log ∧
        ctx.packetEncryptKey = token.token.serverToClientKey)

theorem Sealing.act (h : Sealing s) (hs : Grants s) (ha : Enabled s₀ i s a) :
    Sealing (act i.env s a) := by
  intro e he
  have hgrows : ∀ {p token now}, .granted p token now ∈ s.log →
      .granted p token now ∈ (Server.act i.env s a).log := fun hmem =>
    (granted_mem_act ha).mpr (.inl hmem)
  rw [act_log] at he
  rcases List.mem_append.mp he with hold | hnew
  · obtain ⟨ctx, plain, hbody, hpayload⟩ := h e hold
    refine ⟨ctx, plain, hbody, fun htype => ?_⟩
    obtain ⟨token, now, hgranted, hkey⟩ := hpayload htype
    exact ⟨token, now, hgrows hgranted, hkey⟩
  · have hpacket : ∀ {q : PeerId} {source : SequenceSource} {header : Header}
        {body : PacketBody} {packet : Bool},
        .emitted e ∈ (if packet then submitted i.env s q source header body else []) →
          e.peer = q ∧ e.header = header ∧
            e.body = (s.cryptoCtx q).encryptPacket e.header body := by
      intro q source header body packet hin
      split at hin
      · obtain rfl := Effect.emitted.inj (submitted_source hin).1
        exact ⟨rfl, rfl, rfl⟩
      · cases hin
    cases a with
    | challenge q token =>
        obtain ⟨-, hheader, hbody⟩ := hpacket hnew
        refine ⟨_, _, hbody, fun htype => ?_⟩
        rw [hheader] at htype
        cases htype
    | denied q =>
        obtain ⟨-, hheader, hbody⟩ := hpacket hnew
        refine ⟨_, _, hbody, fun htype => ?_⟩
        rw [hheader] at htype
        cases htype
    | own q type body =>
        obtain ⟨rfl, -, hbody⟩ := hpacket hnew
        refine ⟨_, _, hbody, fun _ => ?_⟩
        have hadmitted : Admitted (s.peers e.peer).state := by
          rcases ha.1 with hstate | hstate
          · rw [hstate]
            trivial
          · rw [hstate]
            trivial
        obtain ⟨token, now, ctx, hgranted, hctx, -, hencrypt⟩ := hs.keyed e.peer hadmitted
        refine ⟨token, now, hgrows hgranted, ?_⟩
        rw [cryptoCtx, hctx]
        exact hencrypt
    | note effect =>
        obtain rfl := List.mem_singleton.mp hnew
        exact (ha : False).elim
    | _ => simp [effects] at hnew

theorem Sealing.step (h : Sealing s) (hs : Sound s) : Sealing (step s i) := by
  refine (invariant_step (I := fun t => Sealing t ∧ Grants t) hs.table hs.named i
    ⟨h, hs.grants.ticked⟩ ?_).1
  rintro t a - - ⟨ht, hgrants⟩ ha
  exact ⟨ht.act hgrants ha, hgrants.act ha⟩

theorem send_of_ownNumbers {p : PeerId} {number : UInt64}
    (h : (p, PacketType.payload, number) ∈ s.ownNumbers i) :
    ∃ views, i.event = .send p views := by
  unfold ownNumbers at h
  cases hevent : i.event with
  | send q views =>
      simp only [hevent] at h
      split at h
      · split at h
        · simp only [List.mem_singleton, Prod.mk.injEq] at h
          exact ⟨views, by rw [h.1]⟩
        · simp only [List.mem_cons, Prod.mk.injEq, List.not_mem_nil, or_false] at h
          rcases h with ⟨-, htype, -⟩ | ⟨rfl, -, -⟩
          · cases htype
          · exact ⟨views, rfl⟩
      · cases h
  | keepAliveTick =>
      simp only [hevent, List.mem_map, Prod.mk.injEq] at h
      obtain ⟨_, -, -, htype, -⟩ := h
      cases htype
  | disconnectTick =>
      simp only [hevent, List.mem_map, Prod.mk.injEq] at h
      obtain ⟨_, -, -, htype, -⟩ := h
      cases htype
  | _ =>
      simp only [hevent, Option.mem_toList, Option.map_eq_some_iff, Prod.mk.injEq] at h
      obtain ⟨_, -, -, htype, -⟩ := h
      cases htype

theorem send_of_emitted (hs : Sound s) {e : Emission} (he : .emitted e ∈ (step s i).log)
    (htype : e.header.type = .payload) :
    .emitted e ∈ s.log ∨ ∃ views, i.event = .send e.peer views := by
  refine invariant_step (I := fun t => .emitted e ∈ t.log → .emitted e ∈ s.log ∨
    ∃ views, i.event = .send e.peer views) hs.table hs.named i .inl ?_ he
  rintro t a - - hold ha hmem
  rw [act_log] at hmem
  rcases List.mem_append.mp hmem with hmem | hnew
  · exact hold hmem
  · have hpacket : ∀ {q : PeerId} {source : SequenceSource} {header : Header}
        {body : PacketBody} {packet : Bool},
        .emitted e ∈ (if packet then submitted i.env t q source header body else []) →
          e.peer = q ∧ e.header = header := by
      intro q source header body packet hin
      split at hin
      · obtain rfl := Effect.emitted.inj (submitted_source hin).1
        exact ⟨rfl, rfl⟩
      · cases hin
    cases a with
    | challenge q token =>
        rw [(hpacket hnew).2] at htype
        cases htype
    | denied q =>
        rw [(hpacket hnew).2] at htype
        cases htype
    | own q type body =>
        obtain ⟨rfl, hheader⟩ := hpacket hnew
        rw [hheader] at htype
        obtain ⟨-, hnumber, -⟩ := ha
        rw [show type = PacketType.payload from htype] at hnumber
        exact .inr (send_of_ownNumbers hnumber)
    | note effect =>
        obtain rfl := List.mem_singleton.mp hnew
        exact (ha : False).elim
    | _ => simp [effects] at hnew

theorem body_of_socketSend {env : Env} {p : PeerId} {views : List (List UInt8)} {e : Emission}
    (he : .emitted e ∈ (socketSend env s p views).log) (htype : e.header.type = .payload) :
    .emitted e ∈ s.log ∨ ∃ ctx : CryptoContext,
      e.body = ctx.encryptPacket e.header (.payload views.flatten) := by
  have hown : ∀ {t : Server} {type : PacketType} {body : PacketBody},
      .emitted e ∈ (sendOwn env t p type body).log → .emitted e ∈ t.log ∨
        e.header.type = type ∧ ∃ ctx : CryptoContext,
          e.body = ctx.encryptPacket e.header body := by
    intro t type body hmem
    have hlog := act_log env t (.own p type body)
    rw [show (Server.act env t (.own p type body)).log = (sendOwn env t p type body).log from rfl]
      at hlog
    rw [hlog] at hmem
    refine (List.mem_append.mp hmem).imp_right fun hnew => ?_
    simp only [effects] at hnew
    split at hnew
    · obtain rfl := Effect.emitted.inj (submitted_source hnew).1
      exact ⟨rfl, _, rfl⟩
    · cases hnew
  unfold socketSend at he
  split at he
  · rcases hown he with hold | ⟨-, hbody⟩
    · unfold presendPacket at hold
      split at hold
      · exact .inl hold
      · rcases hown hold with hold | ⟨hkeepAlive, -⟩
        · exact .inl hold
        · rw [htype] at hkeepAlive
          cases hkeepAlive
    · exact .inr hbody
  · exact .inl he

theorem payload_of_log (o : ServerOptions) (history : List Input) {e : Emission}
    (he : .emitted e ∈ (run step (start o) history).log) (htype : e.header.type = .payload) :
    ∃ ctx : CryptoContext, ∃ env views, ⟨env, .send e.peer views⟩ ∈ history ∧
      e.body = ctx.encryptPacket e.header (.payload views.flatten) := by
  induction history using List.reverseRecOn with
  | nil => exact absurd he (by simp [start])
  | append_singleton history i ih =>
      rw [run_concat] at he
      have hold : .emitted e ∈ (run step (start o) history).log →
          ∃ ctx : CryptoContext, ∃ env views, ⟨env, .send e.peer views⟩ ∈ history ++ [i] ∧
            e.body = ctx.encryptPacket e.header (.payload views.flatten) := by
        intro hmem
        obtain ⟨ctx, env, views, hsend, hbody⟩ := ih hmem
        exact ⟨ctx, env, views, List.mem_append_left _ hsend, hbody⟩
      rcases send_of_emitted (sound_run o history) he htype with hmem | ⟨views, hevent⟩
      · exact hold hmem
      · have hstep : step (run step (start o) history) i =
            socketSend i.env (run step (start o) history).ticked e.peer views := by
          unfold step
          rw [hevent]
          rfl
        rw [hstep] at he
        rcases body_of_socketSend he htype with hmem | ⟨ctx, hbody⟩
        · exact hold hmem
        · obtain ⟨env, event⟩ := i
          subst hevent
          exact ⟨ctx, env, views, by simp, hbody⟩

theorem sealing_run (o : ServerOptions) (history : List Input) :
    Sealing (run step (start o) history) := by
  induction history using List.reverseRecOn with
  | nil => exact fun e he => absurd he (by simp [start])
  | append_singleton history i ih =>
      rw [run_concat]
      exact ih.step (sound_run o history)

end Server

namespace World

/-- A body was sealed by a server or by the client. -/
def SealedIn (w : World) (body : SealedBody) : Prop :=
  (∃ m e, .emitted e ∈ (w.servers m).log ∧ e.body = body) ∨
    ∃ header, .emitted (.packet header body) ∈ w.client.log

/-- If the body of a datagram is under a key, then it was sealed by a server or by the client. -/
def KnownUnder (key : Key) (w : World) (datagram : Datagram) : Prop :=
  ∀ header n ad plain, datagram = .packet header (.encrypted key n ad plain) →
    w.SealedIn (.encrypted key n ad plain)

/-- The keys of a token are known only to its client and to the servers that decrypted it:
besides `Secret`, a body under its client-to-server key that arrives at a server was sealed by a
server or by the client, and no token that a server accepts has that key for the other
direction. -/
structure Private (token : ConnectToken) (w : World) (i : WorldInput) : Prop
    extends Secret token w i where
  outgoing : ∀ m env a datagram, i = .server m ⟨env, .accept a datagram⟩ →
    KnownUnder token.token.clientToServerKey w datagram
  separate : ∀ m j p token', i = .server m j → (w.servers m).granting j = some (p, token') →
    token'.token.serverToClientKey ≠ token.token.clientToServerKey

section Authenticity

variable {privateKey : Key} {o : ℕ → ServerOptions} {c : Client} {token : ConnectToken}
  {is : List WorldInput}

theorem sound_servers (privateKey : Key) (o : ℕ → ServerOptions) (c : Client)
    (is : List WorldInput) (n : ℕ) :
    Server.Sound ((run step (start privateKey o c) is).servers n) := by
  rw [servers_run]
  exact Server.sound_run _ _

theorem mem_of_inputs {n : ℕ} {j : Input} (h : j ∈ inputs n is) : .server n j ∈ is := by
  obtain ⟨i, hmem, hi⟩ := List.mem_filterMap.mp h
  cases i with
  | client i => cases hi
  | server m k =>
      simp only [Option.ite_none_right_eq_some, Option.some.injEq] at hi
      obtain ⟨rfl, rfl⟩ := hi
      exact hmem

theorem SealedIn.step {w : World} (hsound : ∀ n, Server.Sound (w.servers n)) {body : SealedBody}
    (h : w.SealedIn body) (i : WorldInput) : (step w i).SealedIn body := by
  rcases h with ⟨m, e, he, hbody⟩ | ⟨header, he⟩
  · refine .inl ⟨m, e, ?_, hbody⟩
    cases i with
    | client i => exact he
    | server n j =>
        by_cases hn : m = n
        · subst hn
          dsimp only [World.step]
          rw [Function.update_self]
          have hkept : .emitted e ∈ (run Server.step (w.servers m) [j]).log :=
            Server.mem_log_run (hsound m) he
          exact hkept
        · dsimp only [World.step]
          rwa [Function.update_of_ne hn]
  · refine .inr ⟨header, ?_⟩
    cases i with
    | client i =>
        obtain ⟨effects, hlog⟩ := Client.log_step w.client i
        dsimp only [World.step]
        rw [hlog]
        exact List.mem_append_left _ he
    | server n j => exact he

theorem KnownUnder.step {w : World} (hsound : ∀ n, Server.Sound (w.servers n)) {key : Key}
    {datagram : Datagram} (h : KnownUnder key w datagram) (i : WorldInput) :
    KnownUnder key (step w i) datagram :=
  fun header n ad plain hdatagram => (h header n ad plain hdatagram).step hsound i

/-- The data of a send of the client. -/
def ClientGave (is : List WorldInput) (data : List UInt8) : Prop :=
  ∃ env views, .client ⟨env, .send views⟩ ∈ is ∧ data = views.flatten

/-- In every run, what the client and the servers have passed on had been sealed before. -/
theorem known_run {nonce : TokenNonce} {address : Address} {payloadCapacity : ℕ}
    {hrtime leftover : UInt64}
    (h : Along step (Private token) (start privateKey o
      (Client.start (token.issue privateKey nonce) address payloadCapacity hrtime leftover)) is) :
    let w := run step (start privateKey o
      (Client.start (token.issue privateKey nonce) address payloadCapacity hrtime leftover)) is
    (∀ n, Server.Origins (KnownUnder token.token.clientToServerKey w) (w.servers n)) ∧
      Client.Traffic (Client.contextOf (token.issue privateKey nonce))
        (KnownUnder token.token.serverToClientKey w) (ClientGave is) w.client := by
  induction is using List.reverseRecOn with
  | nil =>
      exact ⟨fun n => Server.origins_start _ _, Client.traffic_start _ _ _ _ _ _ _⟩
  | append_singleton is i ih =>
      rw [along_append] at h
      obtain ⟨hservers, hclient⟩ := ih h.1
      have hsound := sound_servers privateKey o
        (Client.start (token.issue privateKey nonce) address payloadCapacity hrtime leftover) is
      simp only [run_append, run_cons, run_nil]
      generalize run step (start privateKey o
        (Client.start (token.issue privateKey nonce) address payloadCapacity hrtime leftover))
        is = w at *
      have hgave : ∀ data, ClientGave is data → ClientGave (is ++ [i]) data := by
        rintro data ⟨env, views, hsend, rfl⟩
        exact ⟨env, views, List.mem_append_left _ hsend, rfl⟩
      have hstep : ∀ (key : Key) datagram, KnownUnder key w datagram →
          KnownUnder key (step w i) datagram := fun _ _ hknown => hknown.step hsound i
      cases i with
      | client i =>
          refine ⟨fun n => (hservers n).mono (hstep _), ?_⟩
          refine Client.Traffic.mono (Client.Traffic.step (hclient.mono (fun _ hknown => hknown)
            hgave) ?_ ?_) (hstep _) fun _ hgiven => hgiven
          · intro a datagram hevent header n ad plain hdatagram
            obtain ⟨env, event⟩ := i
            subst hevent hdatagram
            exact h.2.1.sealed env a header n ad plain rfl
          · intro views hevent
            obtain ⟨env, event⟩ := i
            subst hevent
            exact ⟨env, views, by simp, rfl⟩
      | server n j =>
          refine ⟨fun m => ?_, hclient.mono (hstep _) hgave⟩
          have hold := (hservers m).mono (hstep _)
          by_cases hm : m = n
          · subst hm
            rw [show (step w (.server m j)).servers m = Server.step (w.servers m) j from
              Function.update_self _ _ _]
            refine hold.step (hsound m) fun a datagram hevent => hstep _ _ ?_
            obtain ⟨env, event⟩ := j
            subst hevent
            exact h.2.1.outgoing m env a datagram rfl
          · rw [show (step w (.server n j)).servers m = w.servers m from
              Function.update_of_ne hm _ _]
            exact hold

/-- No token that the servers accept has the client's key for its other direction. -/
theorem separate_run (h : Along step (Private token) (start privateKey o c) is) {n : ℕ}
    {p : PeerId} {token' : ConnectToken} {now : UInt64}
    (hgranted : .granted p token' now ∈ ((run step (start privateKey o c) is).servers n).log) :
    token'.token.serverToClientKey ≠ token.token.clientToServerKey := by
  induction is using List.reverseRecOn with
  | nil => exact absurd hgranted (by simp [start, Server.start])
  | append_singleton is i ih =>
      rw [along_append] at h
      rw [run_append] at hgranted
      cases i with
      | client i => exact ih h.1 hgranted
      | server m j =>
          by_cases hm : n = m
          · subst hm
            simp only [run_cons, run_nil, step, Function.update_self] at hgranted
            rcases Server.granted_of_step (sound_servers privateKey o c is n) hgranted with
              hold | hnew
            · exact ih h.1 hold
            · exact h.2.1.separate n j p token' rfl hnew
          · simp only [run_cons, run_nil, step, Function.update_of_ne hm] at hgranted
            exact ih h.1 hgranted

/-- The payloads that come out on one side went in on the other. A payload that a server passes
on for a peer with the token came in a datagram that the client sent, with the data of one of its
sends; one that the client passes on came in a packet that a server sent to a peer with the token,
with the data of a send to that peer. -/
theorem payloads_genuine (privateKey : Key) (o : ℕ → ServerOptions) (token : ConnectToken)
    (nonce : TokenNonce) (address : Address) (payloadCapacity : ℕ) (hrtime leftover : UInt64)
    (is : List WorldInput)
    (hkeys : token.token.clientToServerKey ≠ token.token.serverToClientKey)
    (h : Along step (Private token) (start privateKey o
      (Client.start (token.issue privateKey nonce) address payloadCapacity hrtime leftover)) is) :
    let w := run step (start privateKey o
      (Client.start (token.issue privateKey nonce) address payloadCapacity hrtime leftover)) is
    (∀ n id p now datagram, .granted p token now ∈ (w.servers n).log →
      .received id p datagram ∈ (w.servers n).log →
        .emitted datagram ∈ w.client.log ∧ ∃ env views, .client ⟨env, .send views⟩ ∈ is ∧
          datagram.payload? = some views.flatten) ∧
    ∀ id datagram, .received id datagram ∈ w.client.log →
      ∃ n e now env views, .emitted e ∈ (w.servers n).log ∧ datagram = .packet e.header e.body ∧
        .granted e.peer token now ∈ (w.servers n).log ∧
        .server n ⟨env, .send e.peer views⟩ ∈ is ∧ datagram.payload? = some views.flatten := by
  intro w
  obtain ⟨hservers, hclient⟩ := known_run h
  have hsecret : Along step (Secret token) (start privateKey o (Client.start
      (token.issue privateKey nonce) address payloadCapacity hrtime leftover)) is :=
    along_run (I := fun _ => True) (fun _ _ _ _ => trivial) (fun _ _ _ hi => hi.toSecret) trivial h
  have hsealing : ∀ n, Server.Sealing (w.servers n) := fun n => by
    rw [servers_run]
    exact Server.sealing_run _ _
  constructor
  · intro n id p now datagram hgranted hreceived
    obtain ⟨hknown, token', now', hgranted', ctx, data, hkey, hpacket⟩ :=
      (hservers n).received id p datagram hreceived
    obtain ⟨rfl, -⟩ := (sound_servers privateKey o _ is n).grants.once _ _ _ _ _ hgranted hgranted'
    obtain ⟨header, htype, rfl⟩ := processEntry_eq_payload hpacket
    rw [hkey] at hknown ⊢
    rcases hknown header _ _ _ rfl with ⟨m, e, he, hbody⟩ | ⟨header', he⟩
    · obtain ⟨ctx', plain, hsealed, hpayload⟩ := hsealing m e he
      obtain ⟨hkey', hheader, -⟩ := eq_of_encryptPacket (hbody.symm.trans hsealed)
      obtain ⟨token'', now'', hgranted'', hkey''⟩ := hpayload (hheader ▸ htype)
      exact absurd (hkey''.symm.trans hkey') (separate_run h hgranted'')
    · obtain ⟨ctx', plain, hsealed, hpayload⟩ := hclient.emitted header' _ he
      obtain ⟨-, rfl, rfl⟩ := eq_of_encryptPacket hsealed
      obtain ⟨-, data', hplain, env, views, hsend, rfl⟩ := hpayload htype
      obtain rfl := PacketBody.payload.inj hplain
      exact ⟨he, env, views, hsend, rfl⟩
  · intro id datagram hreceived
    obtain ⟨hknown, data, hpacket⟩ := hclient.received id datagram hreceived
    obtain ⟨header, htype, rfl⟩ := processEntry_eq_payload hpacket
    rcases hknown header _ _ _ rfl with ⟨n, e, he, hbody⟩ | ⟨header', he⟩
    · obtain ⟨ctx', plain, hsealed, hpayload⟩ := hsealing n e he
      obtain ⟨hkey', hheader, -⟩ := eq_of_encryptPacket (hbody.symm.trans hsealed)
      obtain ⟨token', now, hgranted, hkey''⟩ := hpayload (hheader ▸ htype)
      obtain rfl := granted_eq hsecret hgranted (hkey''.symm.trans hkey')
      have hemitted := he
      rw [servers_run] at hemitted
      obtain ⟨ctx'', env, views, hsend, hbody'⟩ :=
        Server.payload_of_log _ _ hemitted (hheader ▸ htype)
      obtain ⟨-, -, hdata⟩ := eq_of_encryptPacket (hbody.symm.trans hbody')
      obtain rfl := PacketBody.payload.inj hdata
      refine ⟨n, e, now, env, views, he, ?_, hgranted, mem_of_inputs hsend, rfl⟩
      rw [hbody, hheader]
      rfl
    · obtain ⟨ctx', plain, hsealed, hpayload⟩ := hclient.emitted header' _ he
      obtain ⟨hkey', rfl, -⟩ := eq_of_encryptPacket hsealed
      obtain ⟨rfl, -⟩ := hpayload htype
      exact absurd hkey' hkeys

end Authenticity

section Samples

/-- Whether a body under a key was sealed by the client, if it arrives at a server. -/
def sealedByClient (key : Key) (w : World) : WorldInput → Bool
  | .server _ ⟨_, .accept _ (.packet _ (.encrypted key' n ad plain))⟩ =>
      decide (key' ≠ key) || w.client.log.any fun
        | .emitted (.packet _ body) => decide (body = .encrypted key' n ad plain)
        | _ => false
  | _ => true

/-- Whether a token that a server accepts has another key for its other direction. -/
def separate (key : Key) (w : World) : WorldInput → Bool
  | .server m j =>
      match (w.servers m).granting j with
      | some (_, token') => decide (token'.token.serverToClientKey ≠ key)
      | none => true
  | .client _ => true

/-- Whether the keys of a token stay with the client and server 0 in a step. -/
def keepsPrivate (token : ConnectToken) (w : World) (i : WorldInput) : Bool :=
  secret token w i && sealedByClient token.token.clientToServerKey w i &&
    separate token.token.clientToServerKey w i

theorem private_of_check {token : ConnectToken} {w : World} {i : WorldInput}
    (h : keepsPrivate token w i = true) : Private token w i := by
  rw [keepsPrivate, Bool.and_eq_true, Bool.and_eq_true] at h
  obtain ⟨⟨hsecret, hsealed⟩, hseparate⟩ := h
  refine ⟨secret_of_check hsecret, ?_, ?_⟩
  · rintro m env a datagram rfl header n ad plain rfl
    simp only [sealedByClient, Bool.or_eq_true, decide_eq_true_eq, ne_eq, not_true_eq_false,
      false_or, List.any_eq_true] at hsealed
    obtain ⟨effect, hmem, heffect⟩ := hsealed
    cases effect with
    | emitted datagram =>
        cases datagram with
        | request sequence body => cases heffect
        | packet header' body =>
            obtain rfl := of_decide_eq_true heffect
            exact .inr ⟨header', hmem⟩
    | _ => cases heffect
  · rintro m j p token' rfl hgranting
    simpa [separate, hgranting] using hseparate

theorem along_private {token : ConnectToken} {is : List WorldInput} {w : World}
    (h : Along step (fun w i => keepsPrivate token w i = true) w is) :
    Along step (Private token) w is := by
  induction is generalizing w with
  | nil => trivial
  | cons i is ih => exact ⟨private_of_check h.1, ih h.2⟩

/-- A connection of one client with one server, with a payload each way. -/
def onePayloadEach : List WorldInput :=
  let client := fun event => WorldInput.client ⟨.plentiful 0, event⟩
  let token := sampleToken 1 11 12
  [client (.triggerTimer .request), client (.triggered .request),
    .server 0 (arrive (sampleAddress 1) (clientRequest 1 0 token)), .server 0 (complete 1),
    client (.accept (sampleAddress 9) (serverPacket ⟨.challenge, 0⟩
      (.challenge 0 (.encrypted 2 0 () ⟨1, 0⟩)))),
    client (.receiverComplete 3 false), client (.triggerTimer .response),
    client (.triggered .response),
    .server 0 (arrive (sampleAddress 1) (clientResponse 2 token 0 0)), .server 0 (complete 3),
    client (.accept (sampleAddress 9) (serverPacket ⟨.keepAlive, 0⟩ (.keepAlive 1))),
    client (.receiverComplete 7 false), client (.send [[42]]),
    .server 0 (arrive (sampleAddress 1) (clientPacket token ⟨.payload, 1⟩ (.payload [42]))),
    .server 0 (complete 5), .server 0 ⟨.plentiful 0, .send 1 [[7], [8]]⟩,
    client (.accept (sampleAddress 9) (serverPacket ⟨.payload, 2⟩ (.payload [7, 8]))),
    client (.receiverComplete 10 false)]

theorem payloads_genuine_onePayloadEach :
    ∃ n e env views,
      .emitted e ∈ ((run step (start 1 (fun _ => sampleOptions 1) sampleClient)
        onePayloadEach).servers n).log ∧
      serverPacket ⟨.payload, 2⟩ (.payload [7, 8]) = .packet e.header e.body ∧
      WorldInput.server n ⟨env, .send e.peer views⟩ ∈ onePayloadEach ∧ views.flatten = [7, 8] := by
  have hreceived : .received 10 (serverPacket ⟨.payload, 2⟩ (.payload [7, 8])) ∈
      (run step (start 1 (fun _ => sampleOptions 1) sampleClient) onePayloadEach).client.log := by
    decide +kernel
  obtain ⟨n, e, -, env, views, he, hdatagram, -, hsend, hdata⟩ := (payloads_genuine 1
    (fun _ => sampleOptions 1) (sampleToken 1 11 12) 0 (sampleAddress 9) 1000 0 0 onePayloadEach
    (by decide) (along_private (by decide +kernel))).2 10 _ hreceived
  exact ⟨n, e, env, views, he, hdatagram, hsend, (Option.some.inj hdata).symm⟩

end Samples

end World

end Protocol

end PomeloUdp
