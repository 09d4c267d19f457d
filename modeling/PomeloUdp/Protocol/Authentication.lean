import Mathlib.Data.List.Induction
import PomeloUdp.Protocol.Genuine
import PomeloUdp.Protocol.Handshake

/-!
# The order of the handshake

`connected_of_handshake`: a peer is connected only after its request was
accepted with a connect token sealed under the private key, and later a response
was decrypted under the key of that token whose challenge token the server had
sent. The challenge for the peer itself is submitted when the memory for its
packet and its sender can be had; the handler goes on without it otherwise
(`connected_without_challenge`).
-/

namespace PomeloUdp

namespace Protocol

open Machine Crypto Aead

namespace Server

section Statements

variable (o : ServerOptions) (history : List Input) (i : Input) (p : PeerId) (a : Address)
  (token : ConnectToken)

/-- After a history the server accepts the request of a peer: it came from the
address with a connect token that is sealed under the private key for the protocol
of the server. -/
structure RequestAccepted : Prop where
  granting : (run step (start o) history).granting i = some (p, token)
  protocolId : token.protocolId = o.protocolId
  request : ∃ id sequence body, Arrived history id a (.request sequence body) ∧
    body.token = .encrypted o.privateKey body.connectTokenNonce
      ⟨o.protocolId, token.expireTimestamp⟩ token.token

/-- In that step the server sends the peer a challenge with a fresh challenge
token for the client of the connect token. -/
def ChallengeIssued : Prop :=
  ∃ emission sequence, .emitted emission ∈ (run step (start o) (history ++ [i])).log ∧
    emission.peer = p ∧ emission.key = token.token.serverToClientKey ∧
    ∃ ad, emission.body = .encrypted token.token.serverToClientKey emission.header.sequence ad
      (.challenge sequence
        (.encrypted o.challengeKey sequence () ⟨token.token.clientId, token.token.userData⟩))

/-- After a history the server connects a peer on a response that came from the
address and decrypts under the key of the connect token; the server sent its
challenge token, which names the client of the connect token. -/
structure ResponseAccepted : Prop where
  connecting : (run step (start o) history).connecting i = some p
  response : ∃ id sequence ad n challenge,
    challenge = .encrypted o.challengeKey n () ⟨token.token.clientId, token.token.userData⟩ ∧
    challenge ∈ (run step (start o) history).issued ∧
    Arrived history id a (.packet ⟨.response, sequence⟩
      (.encrypted token.token.clientToServerKey sequence ad (.response n challenge))) ∧
    (run step (start o) history).completion i = some (p, .packet ⟨.response, sequence⟩
      (.encrypted token.token.clientToServerKey sequence ad (.response n challenge)),
      some (.response n ⟨token.token.clientId, token.token.userData⟩))

end Statements

section Steps

variable {o : ServerOptions} {history : List Input} {s : Server} {i : Input} {p : PeerId}
  {token : ConnectToken}

theorem run_concat (o : ServerOptions) (history : List Input) (i : Input) :
    run step (start o) (history ++ [i]) = step (run step (start o) history) i := by
  rw [run_append]
  rfl

/-- What holds after every history whose arriving challenge tokens are the server's. -/
theorem handshake_run (h : Along step (Unforged o.challengeKey) (start o) history) :
    Sound (run step (start o) history) ∧ Handshake o history (run step (start o) history) := by
  induction history using List.reverseRecOn with
  | nil => exact ⟨sound_start o, handshake_start o⟩
  | append_singleton history i ih =>
      rw [along_append] at h
      obtain ⟨hsound, hhandshake⟩ := ih h.1
      rw [run_concat]
      exact ⟨hsound.step i, handshake_step hhandshake hsound h.2.1⟩

theorem granted_of_step (h : Sound s) {now : UInt64}
    (hgranted : .granted p token now ∈ (step s i).log) :
    .granted p token now ∈ s.log ∨ s.granting i = some (p, token) := by
  refine invariant_step h.table h.named i (I := fun t => .granted p token now ∈ t.log →
    .granted p token now ∈ s.log ∨ s.granting i = some (p, token)) .inl ?_ hgranted
  intro t a _ _ ht ha hmem
  rcases (granted_mem_act ha).mp hmem with hold | ⟨rfl, -⟩
  · exact ht hold
  · exact .inr ha.1

theorem connected_of_act {s₀ : Server} {a : Act} (ha : Enabled s₀ i s a)
    (hp : ((act i.env s a).peers p).state = .connected) :
    (s.peers p).state = .connected ∨ s₀.connecting i = some p := by
  cases change_of_act ha p with
  | kept _ _ state => exact .inl (state ▸ hp)
  | pass datagram _ value =>
      rw [value] at hp
      exact .inl hp
  | own _ _ state => exact .inl (state ▸ hp)
  | acquire _ _ state => exact absurd (state.symm.trans hp) (by decide)
  | grant _ _ state => exact absurd (state.symm.trans hp) (by decide)
  | moved _ move state =>
      rcases move with rfl | rfl | rfl
      · rcases state with ⟨-, state⟩ | ⟨before, -⟩ | ⟨before, -⟩
        · exact absurd (state.symm.trans hp) (by decide)
        · exact absurd (before.symm.trans ha) (by decide)
        · exact absurd (before.symm.trans ha) (by decide)
      · exact .inr ha.1
      · rcases state with ⟨-, state⟩ | ⟨before, -⟩ | ⟨-, state⟩
        · exact absurd (state.symm.trans hp) (by decide)
        · exact absurd (before.symm.trans ha) (by decide)
        · exact absurd (state.symm.trans hp) (by decide)
  | released _ state => exact absurd (state.symm.trans hp) (by decide)

theorem connected_of_step (h : Sound s) (hp : ((step s i).peers p).state = .connected) :
    (s.peers p).state = .connected ∨ s.connecting i = some p := by
  refine invariant_step h.table h.named i (I := fun t => (t.peers p).state = .connected →
    (s.peers p).state = .connected ∨ s.connecting i = some p) .inl ?_ hp
  intro t a _ _ ht ha hstate
  exact (connected_of_act ha hstate).elim ht .inr

theorem Handshake.stems_of_completion (h : Handshake o history s) {datagram : Datagram}
    {packet : Packet} (hcompletion : s.completion i = some (p, datagram, some packet)) :
    ∃ id r, Stems o history s id r p ∧ r.datagram = datagram ∧
      processEntry r.cryptoCtx datagram = some packet := by
  obtain ⟨id, workerFailed, r, -, hr, -, -, hp, hdatagram, hpacket⟩ :=
    completion_eq_some hcompletion
  refine ⟨id, r, h.receivers id r p hr hp, hdatagram, ?_⟩
  cases workerFailed with
  | false => exact hpacket.symm
  | true => simp at hpacket

theorem Handshake.requestAccepted
    (h : Handshake o history (run step (start o) history))
    (hgranting : (run step (start o) history).granting i = some (p, token)) :
    ∃ a d, Arrived history p a d ∧ RequestAccepted o history i p a token := by
  obtain ⟨datagram, hcompletion⟩ : ∃ datagram, (run step (start o) history).completion i =
      some (p, datagram,
        some (.request token.protocolId token.expireTimestamp token.token)) := by
    unfold granting at hgranting
    split at hgranting
    · rename_i q datagram protocolId expireTimestamp privateToken hcompletion
      split at hgranting
      · obtain ⟨rfl, rfl⟩ := Prod.mk.inj (Option.some.inj hgranting)
        exact ⟨datagram, hcompletion⟩
      · cases hgranting
    · cases hgranting
  obtain ⟨id, r, hstems, rfl, hpacket⟩ := h.stems_of_completion hcompletion
  obtain ⟨sequence, body, hdatagram, hprotocol, -, htoken⟩ := processEntry_eq_request hpacket
  obtain ⟨a, d, hd, hid⟩ := hstems.address
  have hown := hprotocol.symm.trans (hstems.protocol sequence body hdatagram)
  rw [hdatagram] at hid
  rw [hstems.privateKey, hown] at htoken
  exact ⟨a, d, hd, hgranting, hown, id, sequence, body, hid, htoken⟩

theorem Handshake.responseAccepted
    (h : Handshake o history (run step (start o) history))
    (hconnecting : (run step (start o) history).connecting i = some p) :
    ∃ a d token now, Arrived history p a d ∧
      .granted p token now ∈ (run step (start o) history).log ∧
      ResponseAccepted o history i p a token := by
  obtain ⟨datagram, n, challenge, hcompletion, hstate, hclient, hdata⟩ :
      ∃ datagram n challenge, (run step (start o) history).completion i =
        some (p, datagram, some (.response n challenge)) ∧
        ((run step (start o) history).peers p).state = .challenge ∧
        ((run step (start o) history).peers p).clientId = challenge.clientId ∧
        ((run step (start o) history).peers p).userData = challenge.userData := by
    unfold connecting at hconnecting
    split at hconnecting
    · rename_i q datagram n challenge hcompletion
      split at hconnecting
      · rename_i hready
        obtain rfl := Option.some.inj hconnecting
        exact ⟨datagram, n, challenge, hcompletion, hready.1, hready.2.1, hready.2.2.1⟩
      · cases hconnecting
    · cases hconnecting
  obtain ⟨id, r, hstems, rfl, hpacket⟩ := h.stems_of_completion hcompletion
  obtain ⟨sequence, hdatagram⟩ := processEntry_eq_response hpacket
  obtain ⟨a, d, hd, hid⟩ := hstems.address
  obtain ⟨token, now, hgranted, hkeys⟩ := hstems.keys (by rw [hdatagram]; rfl)
  have hadmitted : Admitted ((run step (start o) history).peers p).state := by
    rw [hstate]
    trivial
  obtain ⟨hclient', hdata', -⟩ := h.adopted p token now hadmitted hgranted
  have hchallenge : challenge = ⟨token.token.clientId, token.token.userData⟩ := by
    cases challenge
    simp_all
  subst hchallenge
  have hissued := hstems.token n ⟨token.token.clientId, token.token.userData⟩ (by
    rw [hdatagram, ← hstems.challengeKey]
    rfl)
  rw [hdatagram] at hid hcompletion
  rw [hkeys.1, hstems.challengeKey] at hid hcompletion
  exact ⟨a, d, token, now, hd, hgranted, hconnecting, id, sequence, _, n, _, rfl, hissued, hid,
    hcompletion⟩

theorem Handshake.challengeIssued (hs : Sound (run step (start o) history))
    (h : Handshake o history (run step (start o) history))
    (hgranting : (run step (start o) history).granting i = some (p, token))
    (hpacket : i.env.acquirePacket p .challenge = true)
    (hsender : i.env.acquireSender p .challenge = true) :
    ChallengeIssued o history i p token := by
  obtain ⟨t, hsoft, hstep⟩ := step_granting_eq hgranting
  have hstate : ((run step (start o) history).peers p).state = PeerListName.requesting.state := by
    unfold granting at hgranting
    split at hgranting
    · split at hgranting
      · rename_i hready
        obtain ⟨rfl, -⟩ := Prod.mk.inj (Option.some.inj hgranting)
        exact hready.1
      · cases hgranting
    · cases hgranting
  obtain ⟨x, -, hmem, rfl⟩ := hs.table.entry_of_state hstate
  obtain ⟨a, haddress, -⟩ := hs.table.member_mapped _ x hmem
  obtain ⟨-, ctx, hctx, hchallenge, -⟩ := h.peers x.peer a haddress
  set u := Server.act i.env t (.grant x.peer token) with hu
  have hkeys : u.cryptoCtx x.peer = { ctx with
      protocolId := token.protocolId
      packetDecryptKey := token.token.clientToServerKey
      packetEncryptKey := token.token.serverToClientKey } := by
    have hpeer : (u.peers x.peer).cryptoCtx =
        ((t.peers x.peer).adoptToken token i.env.hrtime).cryptoCtx := by
      simp only [hu, Server.act, note]
      rw [pushBack_peers, unlink_peers, modifyPeer_peers, if_pos rfl, if_pos rfl]
    simp [cryptoCtx, hpeer, Peer.adoptToken, (hsoft.peers x.peer).cryptoCtx, hctx]
  have hemitted : .emitted ⟨x.peer, .anonymous, token.token.serverToClientKey,
      ⟨.challenge, u.anonymousSequenceNumber⟩,
      (u.cryptoCtx x.peer).encryptPacket ⟨.challenge, u.anonymousSequenceNumber⟩
        (.challenge u.challengeSequenceNumber
          (.encrypted o.challengeKey u.challengeSequenceNumber ()
          ⟨token.token.clientId, token.token.userData⟩))⟩ ∈
        (run step (start o) (history ++ [i])).log := by
    rw [run_concat, hstep, act_log]
    simp [effects, hpacket, submitted, hsender, hkeys, hchallenge]
  exact ⟨_, u.challengeSequenceNumber, hemitted, rfl, rfl, _, by
    rw [CryptoContext.encryptPacket, hkeys]⟩

theorem requested_of_granted (h : Along step (Unforged o.challengeKey) (start o) history)
    {now : UInt64} (hgranted : .granted p token now ∈ (run step (start o) history).log) :
    ∃ before j after, history = before ++ j :: after ∧
      (∃ a d, Arrived history p a d ∧ RequestAccepted o before j p a token) ∧
      (j.env.acquirePacket p .challenge = true → j.env.acquireSender p .challenge = true →
        ChallengeIssued o before j p token) := by
  induction history using List.reverseRecOn with
  | nil => exact absurd hgranted (by simp [start])
  | append_singleton history i ih =>
      rw [along_append] at h
      obtain ⟨hsound, hhandshake⟩ := handshake_run h.1
      rw [run_concat] at hgranted
      rcases granted_of_step hsound hgranted with hold | hnew
      · obtain ⟨before, j, after, rfl, ⟨a, d, hd, hrequest⟩, hchallenge⟩ := ih h.1 hold
        exact ⟨before, j, after ++ [i], by simp, ⟨a, d, hd.append _, hrequest⟩, hchallenge⟩
      · obtain ⟨a, d, hd, hrequest⟩ := hhandshake.requestAccepted hnew
        exact ⟨history, i, [], rfl, ⟨a, d, hd.append _, hrequest⟩,
          hhandshake.challengeIssued hsound hnew⟩

theorem responded_of_connected (h : Along step (Unforged o.challengeKey) (start o) history)
    (hp : ((run step (start o) history).peers p).state = .connected) :
    ∃ before j after, history = before ++ j :: after ∧
      ∃ a d token now, Arrived history p a d ∧
        .granted p token now ∈ (run step (start o) before).log ∧
        ResponseAccepted o before j p a token := by
  induction history using List.reverseRecOn with
  | nil => exact absurd hp (by simp [start, Peer.zero])
  | append_singleton history i ih =>
      rw [along_append] at h
      obtain ⟨hsound, hhandshake⟩ := handshake_run h.1
      rw [run_concat] at hp
      rcases connected_of_step hsound hp with hold | hnew
      · obtain ⟨before, j, after, rfl, a, d, token, now, hd, hrest⟩ := ih h.1 hold
        exact ⟨before, j, after ++ [i], by simp, a, d, token, now, hd.append _, hrest⟩
      · obtain ⟨a, d, token, now, hd, hrest⟩ := hhandshake.responseAccepted hnew
        exact ⟨history, i, [], rfl, a, d, token, now, hd.append _, hrest⟩

/-- In every run a peer that is connected had its request accepted before, was
sent a challenge if the memory for it could be had, and had a response accepted
later. -/
theorem connected_of_handshake (o : ServerOptions) (is : List Input) (p : PeerId)
    (h : Along step (Unforged o.challengeKey) (start o) is)
    (hp : ((run step (start o) is).peers p).state = .connected) :
    ∃ a token before i between j after, is = before ++ i :: (between ++ j :: after) ∧
      ((run step (start o) is).peers p).address = some a ∧
      RequestAccepted o before i p a token ∧
      (i.env.acquirePacket p .challenge = true → i.env.acquireSender p .challenge = true →
        ChallengeIssued o before i p token) ∧
      ResponseAccepted o (before ++ i :: between) j p a token := by
  obtain ⟨hsound, hhandshake⟩ := handshake_run h
  have hstate : ((run step (start o) is).peers p).state = PeerListName.connected.state := hp
  obtain ⟨x, -, hmem, rfl⟩ := hsound.table.entry_of_state hstate
  obtain ⟨a, haddress, -⟩ := hsound.table.member_mapped _ x hmem
  obtain ⟨⟨d, hd⟩, -⟩ := hhandshake.peers x.peer a haddress
  obtain ⟨prefix', j, after, rfl, b, d', token, now, hd', hgranted, hresponse⟩ :=
    responded_of_connected h hp
  obtain ⟨rfl, -⟩ := hd.unique hd'
  rw [along_append] at h
  obtain ⟨before, i, between, rfl, ⟨c, e, he, hrequest⟩, hchallenge⟩ :=
    requested_of_granted h.1 hgranted
  obtain ⟨rfl, -⟩ := hd.unique (he.append _)
  exact ⟨a, token, before, i, between, j, after, by simp, haddress, hrequest, hchallenge,
    hresponse⟩

end Steps

section Samples

/-- Whether a challenge token under the challenge key that arrives was sent by the
server. -/
def unforged (challengeKey : Key) (s : Server) (i : Input) : Bool :=
  match i.event with
  | .accept _ datagram =>
      match datagram.challengeToken? with
      | some (.encrypted key sequence () token) =>
          decide (key = challengeKey → .encrypted key sequence () token ∈ s.issued)
      | _ => true
  | _ => true

theorem unforged_of_check {challengeKey : Key} {s : Server} {i : Input}
    (h : unforged challengeKey s i = true) : Unforged challengeKey s i := by
  intro a datagram hevent sequence token htoken
  simpa [unforged, hevent, htoken] using h

theorem along_unforged {challengeKey : Key} {is : List Input} {s : Server}
    (h : Along step (fun s i => unforged challengeKey s i = true) s is) :
    Along step (Unforged challengeKey) s is := by
  induction is generalizing s with
  | nil => trivial
  | cons i is ih => exact ⟨unforged_of_check h.1, ih h.2⟩

/-- One client connects. -/
def oneHandshake : List Input :=
  let token := sampleToken 1 11 12
  [arrive (sampleAddress 1) (clientRequest 1 0 token), complete 1,
    arrive (sampleAddress 1) (clientResponse 2 token 0 0), complete 3]

theorem connected_of_handshake_oneHandshake :
    (Along step (Unforged 2) (start (sampleOptions 1)) oneHandshake ∧
      ((run step (start (sampleOptions 1)) oneHandshake).peers 1).state = .connected) ∧
    ∃ a token before i between j after, oneHandshake = before ++ i :: (between ++ j :: after) ∧
      ((run step (start (sampleOptions 1)) oneHandshake).peers 1).address = some a ∧
      RequestAccepted (sampleOptions 1) before i 1 a token ∧
      (i.env.acquirePacket 1 .challenge = true → i.env.acquireSender 1 .challenge = true →
        ChallengeIssued (sampleOptions 1) before i 1 token) ∧
      ResponseAccepted (sampleOptions 1) (before ++ i :: between) j 1 a token := by
  have hunforged : Along step (Unforged 2) (start (sampleOptions 1)) oneHandshake :=
    along_unforged (by decide +kernel)
  have hstate : ((run step (start (sampleOptions 1)) oneHandshake).peers 1).state =
      .connected := by
    decide +kernel
  exact ⟨⟨hunforged, hstate⟩,
    connected_of_handshake (sampleOptions 1) oneHandshake 1 hunforged hstate⟩

/-- A client connects from one address. Its token is used from a second address
too, where the packet of the challenge cannot be had, and the response to the first
challenge arrives from there. -/
def challengeOfAnother : List Input :=
  let token := sampleToken 1 11 12
  [arrive (sampleAddress 1) (clientRequest 1 0 token), complete 1,
    arrive (sampleAddress 2) (clientRequest 1 0 token),
    ⟨{ Env.plentiful 0 with acquirePacket := fun _ _ => false }, .receiverComplete 3 false⟩,
    arrive (sampleAddress 2) (clientResponse 2 token 0 0), complete 5]

/-- Whether an effect is a challenge for a peer. -/
def Effect.isChallengeFor (p : PeerId) : Effect → Bool
  | .emitted emission =>
      decide (emission.peer = p) &&
        match emission.body with
        | .encrypted _ _ _ (.challenge _ _) => true
        | _ => false
  | _ => false

/-- What is on record stays there. -/
theorem mem_log_run {is : List Input} {s : Server} (h : Sound s) {effect : Effect}
    (heffect : effect ∈ s.log) : effect ∈ (run step s is).log := by
  induction is generalizing s with
  | nil => exact heffect
  | cons i is ih =>
      refine ih (h.step i) ?_
      refine invariant_step h.table h.named i (I := fun t => effect ∈ t.log) heffect ?_
      intro t a _ _ ht _
      rw [act_log]
      exact List.mem_append_left _ ht

theorem sound_run (o : ServerOptions) (is : List Input) : Sound (run step (start o) is) := by
  induction is using List.reverseRecOn with
  | nil => exact sound_start o
  | append_singleton is i ih =>
      rw [run_concat]
      exact ih.step i

theorem connected_without_challenge :
    ¬ ∀ (o : ServerOptions) (is : List Input) (p : PeerId),
      Along step (Unforged o.challengeKey) (start o) is →
      ((run step (start o) is).peers p).state = .connected →
      ∃ a token before i between j after, is = before ++ i :: (between ++ j :: after) ∧
        ((run step (start o) is).peers p).address = some a ∧
        RequestAccepted o before i p a token ∧ ChallengeIssued o before i p token ∧
        ResponseAccepted o (before ++ i :: between) j p a token := by
  intro h
  have hunforged : Along step (Unforged 2) (start (sampleOptions 2)) challengeOfAnother :=
    along_unforged (by decide +kernel)
  have hnone : ∀ effect ∈ (run step (start (sampleOptions 2)) challengeOfAnother).log,
      Effect.isChallengeFor 3 effect = false := by
    decide +kernel
  obtain ⟨a, token, before, i, between, j, after, heq, -, -, hchallenge, -⟩ :=
    h (sampleOptions 2) challengeOfAnother 3 hunforged (by decide +kernel)
  obtain ⟨emission, sequence, hemitted, hpeer, -, ad, hbody⟩ := hchallenge
  have hlast : .emitted emission ∈ (run step (start (sampleOptions 2)) challengeOfAnother).log := by
    have hsplit : challengeOfAnother = (before ++ [i]) ++ (between ++ j :: after) := by simp [heq]
    rw [hsplit, run_append]
    exact mem_log_run (sound_run _ _) hemitted
  have hfalse := hnone _ hlast
  simp [Effect.isChallengeFor, hpeer, hbody] at hfalse

end Samples

end Server

end Protocol

end PomeloUdp
