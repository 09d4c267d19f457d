import PomeloUdp.Protocol.Authentication
import PomeloUdp.Protocol.Client

/-!
# The agreement of a client with a server

A client becomes connected on a keep-alive packet under the server-to-client key
of its token. `agreed_of_connected`: it is connected, or reports success, only if
a server had connected a peer for that token on a response, and the client id it
takes is the one in the token.

A server seals a keep-alive packet only for a connected peer, under the key and
with the client id of the token that it accepted for the peer. A client seals one
only after it has been connected itself, so an echo of it proves nothing new.
-/

namespace PomeloUdp

namespace Protocol

open Machine Crypto Aead

/-- A body is a keep-alive packet under a key. -/
def IsKeepAlive (key : Key) (clientId : Int64) (body : SealedBody) : Prop :=
  ∃ n ad, ad.type = .keepAlive ∧ body = .encrypted key n ad (.keepAlive clientId)

theorem isKeepAlive_encryptPacket {ctx : CryptoContext} {header : Header} {body : PacketBody}
    {key : Key} {clientId : Int64} (h : IsKeepAlive key clientId (ctx.encryptPacket header body)) :
    ctx.packetEncryptKey = key ∧ header.type = .keepAlive ∧ body = .keepAlive clientId := by
  obtain ⟨n, ad, htype, hbody⟩ := h
  simp only [CryptoContext.encryptPacket, Sealed.encrypted.injEq] at hbody
  obtain ⟨hkey, -, rfl, hbody⟩ := hbody
  exact ⟨hkey, htype, hbody⟩

theorem processEntry_eq_keepAlive {ctx : CryptoContext} {datagram : Datagram} {clientId : Int64}
    (h : processEntry ctx datagram = some (.keepAlive clientId)) :
    ∃ header body, datagram = .packet header body ∧
      IsKeepAlive ctx.packetDecryptKey clientId body := by
  have htype := type_of_processEntry h
  cases datagram with
  | request sequence body => cases htype
  | packet header body =>
      simp only [processEntry, Option.bind_eq_some_iff] at h
      obtain ⟨plain, hplain, hdecode⟩ := h
      rw [CryptoContext.decryptPacket_eq_some_iff] at hplain
      have hbody : plain = .keepAlive clientId := by
        cases plain with
        | response tokenSequence token =>
            simp only [packetDecode] at hdecode
            split at hdecode
            · obtain ⟨_, -, heq⟩ := Option.map_eq_some_iff.mp hdecode
              cases heq
            · cases hdecode
        | keepAlive clientId' =>
            simp only [packetDecode] at hdecode
            split at hdecode
            · cases hdecode
              rfl
            · cases hdecode
        | _ =>
            simp only [packetDecode] at hdecode
            split at hdecode <;> cases hdecode
      subst hbody
      exact ⟨header, body, rfl, _, _, htype, hplain⟩

namespace Server

/-- In a history a server accepted a token for a peer and later connected the peer on
a response. -/
def ConnectedFor (o : ServerOptions) (history : List Input) (p : PeerId) (token : ConnectToken) :
    Prop :=
  ∃ before j after now, history = before ++ j :: after ∧
    .granted p token now ∈ (run step (start o) before).log ∧
    (run step (start o) before).connecting j = some p ∧
    ((run step (start o) (before ++ [j])).peers p).state = .connected

section Steps

variable {o : ServerOptions} {history : List Input} {s : Server} {i : Input} {p : PeerId}
  {token : ConnectToken} {key : Key} {clientId : Int64}

theorem ConnectedFor.append (h : ConnectedFor o history p token) (more : List Input) :
    ConnectedFor o (history ++ more) p token := by
  obtain ⟨before, j, after, now, rfl, hrest⟩ := h
  exact ⟨before, j, after ++ more, now, by simp, hrest⟩

theorem state_of_connecting (h : s.connecting i = some p) : (s.peers p).state = .challenge := by
  unfold connecting at h
  split at h
  · split at h
    · rename_i hready
      obtain rfl := Option.some.inj h
      exact hready.1
    · cases h
  · cases h

theorem step_connecting_state (h : s.connecting i = some p) :
    ((step s i).peers p).state = .connected := by
  obtain ⟨t, -, htable⟩ := step_of_connecting h
  rw [htable.state]
  simp [act, modifyPeer, pushBack, PeerListName.state]

theorem adopted_run (o : ServerOptions) (history : List Input) :
    Sound (run step (start o) history) ∧ Adopted (run step (start o) history) := by
  induction history using List.reverseRecOn with
  | nil =>
      refine ⟨sound_start o, ?_⟩
      intro p token now hp
      exact absurd hp (by simp [start, Peer.zero, Admitted])
  | append_singleton history i ih =>
      obtain ⟨hsound, hadopted⟩ := ih
      rw [run_concat]
      refine ⟨hsound.step i, ?_⟩
      exact (invariant_step (I := fun t => Grants t ∧ Adopted t) hsound.table hsound.named i
        ⟨hsound.grants.ticked, hadopted⟩ fun _ _ _ _ ht ha => ⟨ht.1.act ha, ht.2.act ht.1 ha⟩).2

theorem connectedFor_of_connecting (h : (run step (start o) history).connecting i = some p) :
    ∃ token now, .granted p token now ∈ (run step (start o) history).log ∧
      ConnectedFor o (history ++ [i]) p token := by
  have hadmitted : Admitted ((run step (start o) history).peers p).state := by
    rw [state_of_connecting h]
    trivial
  obtain ⟨token, now, -, hgranted, -⟩ := (adopted_run o history).1.grants.keyed p hadmitted
  refine ⟨token, now, hgranted, history, i, [], now, rfl, hgranted, h, ?_⟩
  rw [run_concat]
  exact step_connecting_state h

theorem mem_log_concat {effect : Effect} (h : effect ∈ (run step (start o) history).log) :
    effect ∈ (run step (start o) (history ++ [i])).log := by
  rw [run_append]
  exact mem_log_run (sound_run o history) h

theorem connectedFor_of_state (h : ((run step (start o) history).peers p).state = .connected) :
    ∃ token now, .granted p token now ∈ (run step (start o) history).log ∧
      ConnectedFor o history p token := by
  induction history using List.reverseRecOn with
  | nil => exact absurd h (by simp [start, Peer.zero])
  | append_singleton history i ih =>
      have hstep := h
      rw [run_concat] at hstep
      rcases connected_of_step (sound_run o history) hstep with hold | hnew
      · obtain ⟨token, now, hgranted, hconnected⟩ := ih hold
        exact ⟨token, now, mem_log_concat hgranted, hconnected.append [i]⟩
      · obtain ⟨token, now, hgranted, hconnected⟩ := connectedFor_of_connecting hnew
        exact ⟨token, now, mem_log_concat hgranted, hconnected⟩

theorem keepAlive_of_step (h : Sound s) (hadopted : Adopted s) {e : Emission}
    (he : .emitted e ∈ (step s i).log) (hbody : IsKeepAlive key clientId e.body) :
    .emitted e ∈ s.log ∨
      ((s.peers e.peer).state = .connected ∨ s.connecting i = some e.peer) ∧
        ∃ token now, .granted e.peer token now ∈ (step s i).log ∧
          token.token.serverToClientKey = key ∧ token.token.clientId = clientId := by
  refine (invariant_step h.table h.named i (I := fun t => (Grants t ∧ Adopted t ∧
    ∀ q, (t.peers q).state = .connected → (s.peers q).state = .connected ∨
      s.connecting i = some q) ∧
    (.emitted e ∈ t.log → .emitted e ∈ s.log ∨
      ((s.peers e.peer).state = .connected ∨ s.connecting i = some e.peer) ∧
        ∃ token now, .granted e.peer token now ∈ t.log ∧
          token.token.serverToClientKey = key ∧ token.token.clientId = clientId))
    ⟨⟨h.grants.ticked, hadopted, fun _ => .inl⟩, .inl⟩ ?_).2 he
  rintro t a - - ⟨⟨hgrants, ht, hconnected⟩, hold⟩ ha
  refine ⟨⟨hgrants.act ha, ht.act hgrants ha, ?_⟩, ?_⟩
  · intro q hq
    exact (connected_of_act ha hq).elim (hconnected q) .inr
  · intro hmem
    rw [act_log] at hmem ⊢
    rcases List.mem_append.mp hmem with hmem | hnew
    · refine (hold hmem).imp id ?_
      rintro ⟨hpeer, token, now, hgranted, htoken⟩
      exact ⟨hpeer, token, now, List.mem_append_left _ hgranted, htoken⟩
    · have hpacket : ∀ {q : PeerId} {source : SequenceSource} {header : Header}
          {body : PacketBody} {packet : Bool},
          .emitted e ∈ (if packet then submitted i.env t q source header body else []) →
            e.peer = q ∧ (t.cryptoCtx q).packetEncryptKey = key ∧ header.type = .keepAlive ∧
              body = .keepAlive clientId := by
        intro q source header body packet hin
        split at hin
        · obtain rfl := Effect.emitted.inj (submitted_source hin).1
          exact ⟨rfl, isKeepAlive_encryptPacket hbody⟩
        · cases hin
      cases a with
      | challenge q token =>
          obtain ⟨-, -, htype, -⟩ := hpacket hnew
          cases htype
      | denied q =>
          obtain ⟨-, -, htype, -⟩ := hpacket hnew
          cases htype
      | own q type body =>
          obtain ⟨rfl, hkey, rfl, rfl⟩ := hpacket hnew
          obtain ⟨-, -, -, hown⟩ := ha
          obtain ⟨hstate, hid⟩ := hown rfl
          refine .inr ⟨hconnected _ hstate, ?_⟩
          have hadmitted : Admitted (t.peers e.peer).state := by
            rw [hstate]
            trivial
          obtain ⟨token, now, ctx, hgranted, hctx, hkeys⟩ := hgrants.keyed e.peer hadmitted
          refine ⟨token, now, List.mem_append_left _ hgranted, ?_, ?_⟩
          · simpa [cryptoCtx, hctx, hkeys.2] using hkey
          · rw [← (ht e.peer token now hadmitted hgranted).1]
            exact (PacketBody.keepAlive.inj hid).symm
      | note effect =>
          obtain rfl := List.mem_singleton.mp hnew
          exact (ha : False).elim
      | _ => simp [effects] at hnew

theorem keepAlive_of_log (o : ServerOptions) (history : List Input) {e : Emission}
    (he : .emitted e ∈ (run step (start o) history).log)
    (hbody : IsKeepAlive key clientId e.body) :
    ∃ token now, .granted e.peer token now ∈ (run step (start o) history).log ∧
      token.token.serverToClientKey = key ∧ token.token.clientId = clientId ∧
      ConnectedFor o history e.peer token := by
  induction history using List.reverseRecOn with
  | nil => exact absurd he (by simp [start])
  | append_singleton history i ih =>
      obtain ⟨hsound, hadopted⟩ := adopted_run o history
      have hstep := he
      rw [run_concat] at hstep
      rcases keepAlive_of_step hsound hadopted hstep hbody with hold | ⟨hpeer, hnew⟩
      · obtain ⟨token, now, hgranted, hkey, hid, hconnected⟩ := ih hold
        exact ⟨token, now, mem_log_concat hgranted, hkey, hid, hconnected.append [i]⟩
      · rw [← run_concat] at hnew
        obtain ⟨token, now, hgranted, hkey, hid⟩ := hnew
        refine ⟨token, now, hgranted, hkey, hid, ?_⟩
        obtain ⟨token', now', hgranted', hconnected⟩ : ∃ token' now',
            .granted e.peer token' now' ∈ (run step (start o) (history ++ [i])).log ∧
              ConnectedFor o (history ++ [i]) e.peer token' := by
          rcases hpeer with hstate | hconnecting
          · obtain ⟨token', now', hgranted', hconnected⟩ := connectedFor_of_state hstate
            exact ⟨token', now', mem_log_concat hgranted', hconnected.append [i]⟩
          · obtain ⟨token', now', hgranted', hconnected⟩ := connectedFor_of_connecting hconnecting
            exact ⟨token', now', mem_log_concat hgranted', hconnected⟩
        obtain ⟨rfl, -⟩ := (sound_run o (history ++ [i])).grants.once _ _ _ _ _ hgranted hgranted'
        exact hconnected

end Steps

end Server

namespace Client

/-- What a client does is vouched for by `A`: a keep-alive packet under a key carries
the client id, and no success is reported without `A`. -/
def Vouched (A : Prop) (key : Key) (clientId : Int64) : ClientEffect → Prop
  | .emitted (.packet _ body) => ∀ id, IsKeepAlive key id body → A ∧ id = clientId
  | .connectResult .success => A
  | .connected id => A ∧ id = clientId
  | _ => True

/-- The peer has taken the client id, if there is one. -/
def Adopted (A : Prop) (clientId : Int64) (c : Client) : Prop :=
  A ∧ ∀ peer, c.peer = some peer → peer.clientId = clientId

/-- The client has relied on nothing that `A` does not vouch for. -/
structure Agrees (A : Prop) (ctx : CryptoContext) (clientId : Int64) (c : Client) : Prop where
  context : ∀ peer, c.peer = some peer → peer.cryptoCtx = some ctx
  receivers : ∀ id r, c.receivers id = some r → r.cryptoCtx = ctx ∧
    ∀ header body id', r.datagram = .packet header body →
      IsKeepAlive ctx.packetDecryptKey id' body → A ∧ id' = clientId
  connected : ∀ peer, c.peer = some peer → peer.state = .connected → A ∧ peer.clientId = clientId
  emitter : (c.emitters .keepAlive).running = true ∨ (c.emitters .keepAlive).triggerTask = true →
    Adopted A clientId c
  log : ∀ effect ∈ c.log, Vouched A ctx.packetDecryptKey clientId effect

section Operations

variable {A : Prop} {ctx : CryptoContext} {clientId : Int64} {c : Client} {env : ClientEnv}

theorem Agrees.mono {B : Prop} (h : Agrees A ctx clientId c) (hAB : A → B) :
    Agrees B ctx clientId c where
  context := h.context
  receivers id r hr :=
    ⟨(h.receivers id r hr).1, fun header body id' hdatagram hbody =>
      ((h.receivers id r hr).2 header body id' hdatagram hbody).imp hAB fun heq => heq⟩
  connected peer hpeer hstate := (h.connected peer hpeer hstate).imp hAB fun heq => heq
  emitter hrunning := (h.emitter hrunning).imp hAB fun heq => heq
  log effect hmem := by
    have hvouched := h.log effect hmem
    unfold Vouched at hvouched ⊢
    split
    · exact fun id hbody => (hvouched id hbody).imp hAB fun heq => heq
    · exact hAB hvouched
    · exact hvouched.imp hAB fun heq => heq
    · trivial

theorem Agrees.congr (h : Agrees A ctx clientId c) (c' : Client) (hpeer : c'.peer = c.peer)
    (hreceivers : c'.receivers = c.receivers) (hemitters : c'.emitters = c.emitters)
    (hlog : c'.log = c.log) : Agrees A ctx clientId c' := by
  obtain ⟨hctx, hr, hconnected, hemitter, hl⟩ := h
  unfold Adopted at hemitter
  rw [← hpeer] at hctx hconnected hemitter
  rw [← hreceivers] at hr
  rw [← hemitters] at hemitter
  rw [← hlog] at hl
  exact ⟨hctx, hr, hconnected, hemitter, hl⟩

theorem Agrees.modifyPeer (h : Agrees A ctx clientId c) {f : Peer → Peer}
    (hctx : ∀ peer, (f peer).cryptoCtx = peer.cryptoCtx)
    (hid : ∀ peer, (f peer).clientId = peer.clientId)
    (hstate : ∀ peer, c.peer = some peer → (f peer).state = .connected → peer.state = .connected) :
    Agrees A ctx clientId (c.modifyPeer f) where
  context peer hpeer := by
    obtain ⟨peer, hold, rfl⟩ := Option.map_eq_some_iff.mp hpeer
    rw [hctx]
    exact h.context peer hold
  receivers := h.receivers
  connected peer hpeer hnew := by
    obtain ⟨peer, hold, rfl⟩ := Option.map_eq_some_iff.mp hpeer
    rw [hid]
    exact h.connected peer hold (hstate peer hold hnew)
  emitter hrunning := by
    obtain ⟨hA, hadopted⟩ := h.emitter hrunning
    refine ⟨hA, fun peer hpeer => ?_⟩
    obtain ⟨peer, hold, rfl⟩ := Option.map_eq_some_iff.mp hpeer
    rw [hid]
    exact hadopted peer hold
  log := h.log

theorem Agrees.modifyEmitter (h : Agrees A ctx clientId c) (name : EmitterName)
    {f : Emitter → Emitter}
    (hf : name = .keepAlive → (f (c.emitters name)).running = true ∨
      (f (c.emitters name)).triggerTask = true → Adopted A clientId c) :
    Agrees A ctx clientId (c.modifyEmitter name f) where
  context := h.context
  receivers := h.receivers
  connected := h.connected
  emitter hrunning := by
    by_cases hname : name = .keepAlive
    · subst hname
      simp only [Client.modifyEmitter, Function.update_self] at hrunning
      exact hf rfl hrunning
    · have hother : (c.modifyEmitter name f).emitters .keepAlive = c.emitters .keepAlive :=
        Function.update_of_ne (Ne.symm hname) _ _
      rw [hother] at hrunning
      exact h.emitter hrunning
  log := h.log

theorem Agrees.emitterStop (h : Agrees A ctx clientId c) (name : EmitterName) :
    Agrees A ctx clientId (c.emitterStop name) := by
  refine h.modifyEmitter name ?_
  rintro rfl hrunning
  exact h.emitter (.inr (hrunning.resolve_left (by simp)))

theorem Agrees.emitterStart (h : Agrees A ctx clientId c) (env : ClientEnv) (name : EmitterName)
    (hadopted : name = .keepAlive → Adopted A clientId c) :
    Agrees A ctx clientId (c.emitterStart env name).1 := by
  unfold Client.emitterStart
  split
  · exact h
  · split
    · refine Agrees.modifyEmitter (f := fun e => { e with running := true, triggerCounter := 0 })
        h name ?_
      exact fun hname _ => hadopted hname
    · exact h

theorem Agrees.note (h : Agrees A ctx clientId c) (effect : ClientEffect)
    (heffect : Vouched A ctx.packetDecryptKey clientId effect) :
    Agrees A ctx clientId (c.note effect) := by
  refine ⟨h.context, h.receivers, h.connected, h.emitter, ?_⟩
  intro other hmem
  rcases List.mem_append.mp hmem with hold | hnew
  · exact h.log other hold
  · obtain rfl := List.mem_singleton.mp hnew
    exact heffect

theorem Agrees.setReceiver (h : Agrees A ctx clientId c) (id : ReceiverId)
    (receiver : Option Receiver) (hreceiver : ∀ r, receiver = some r → r.cryptoCtx = ctx ∧
      ∀ header body id', r.datagram = .packet header body →
        IsKeepAlive ctx.packetDecryptKey id' body → A ∧ id' = clientId) :
    Agrees A ctx clientId (c.setReceiver id receiver) := by
  refine ⟨h.context, ?_, h.connected, h.emitter, h.log⟩
  intro id' r hr
  simp only [Client.setReceiver, Function.update_apply] at hr
  split at hr
  · exact hreceiver r hr
  · exact h.receivers id' r hr

theorem Agrees.socketStop (h : Agrees A ctx clientId c) : Agrees A ctx clientId c.socketStop := by
  unfold Client.socketStop
  split
  · exact h
  · exact h.congr _ rfl rfl rfl rfl

theorem Agrees.releasePeer (h : Agrees A ctx clientId c) (peer : Peer) :
    Agrees A ctx clientId (c.releasePeer peer) where
  context _ hpeer := nomatch hpeer
  receivers id r hr := by
    simp only [Client.releasePeer] at hr
    split at hr
    · obtain ⟨r', hold, rfl⟩ := Option.map_eq_some_iff.mp hr
      exact h.receivers id r' hold
    · exact h.receivers id r hr
  connected _ hpeer := nomatch hpeer
  emitter hrunning := ⟨(h.emitter hrunning).1, fun _ hpeer => nomatch hpeer⟩
  log := h.log

theorem Agrees.stop (h : Agrees A ctx clientId c) : Agrees A ctx clientId c.stop := by
  unfold Client.stop
  split
  · exact h
  · exact ((((h.emitterStop _).emitterStop _).emitterStop _).emitterStop _).releasePeer _

theorem Agrees.fault (h : Agrees A ctx clientId c) : Agrees A ctx clientId c.fault :=
  h.congr _ rfl rfl rfl rfl

theorem Agrees.retryAddress (h : Agrees A ctx clientId c) :
    Agrees A ctx clientId c.retryAddress :=
  h.stop.fault

end Operations

section Handlers

variable {A : Prop} {ctx : CryptoContext} {clientId : Int64} {c : Client} {env : ClientEnv}

theorem Agrees.dispatch (h : Agrees A ctx clientId c) {datagram : Datagram}
    (hdatagram : Vouched A ctx.packetDecryptKey clientId (.emitted datagram)) :
    Agrees A ctx clientId (dispatch env c datagram) := by
  unfold Client.dispatch
  split
  · refine Agrees.note ?_ _ hdatagram
    refine Agrees.modifyPeer ?_ (fun _ => rfl) (fun _ => rfl) fun _ _ hstate => hstate
    exact h.congr _ rfl rfl rfl rfl
  · exact h

/-- A packet with a number of the client's own. Only a keep-alive packet needs to be
vouched for. -/
theorem Agrees.sendOwn (h : Agrees A ctx clientId c) (peer : Peer) {type : PacketType}
    {body : PacketBody} (hbody : ∀ id, type = .keepAlive → body = .keepAlive id →
      A ∧ id = clientId) :
    Agrees A ctx clientId (sendOwn env c peer type body) := by
  have hnext : Agrees A ctx clientId (c.modifyPeer fun peer => peer.nextSequence.1) :=
    h.modifyPeer (fun _ => rfl) (fun _ => rfl) fun _ _ hstate => hstate
  simp only [Client.sendOwn]
  split
  · refine hnext.dispatch ?_
    intro id hkeepAlive
    obtain ⟨-, htype, heq⟩ := isKeepAlive_encryptPacket hkeepAlive
    exact hbody id htype heq
  · exact hnext.socketStop

theorem Agrees.sendRequest (h : Agrees A ctx clientId c) :
    Agrees A ctx clientId (sendRequest env c) := by
  unfold Client.sendRequest
  split
  · split
    · exact h.fault
    · exact h.dispatch trivial
  · exact h.socketStop

theorem Agrees.sendResponse (h : Agrees A ctx clientId c) :
    Agrees A ctx clientId (sendResponse env c) := by
  unfold Client.sendResponse
  split
  · exact h.fault
  · exact h.sendOwn _ fun _ htype => nomatch htype

theorem Agrees.sendDisconnect (h : Agrees A ctx clientId c) :
    Agrees A ctx clientId (sendDisconnect env c) := by
  unfold Client.sendDisconnect
  split
  · exact h.fault
  · exact h.sendOwn _ fun _ htype => nomatch htype

theorem Agrees.sendKeepAlive (h : Agrees A ctx clientId c) (hadopted : Adopted A clientId c) :
    Agrees A ctx clientId (sendKeepAlive env c) := by
  unfold Client.sendKeepAlive
  split
  · exact h.fault
  · rename_i peer hpeer
    split
    · refine Agrees.socketStop (Agrees.note ?_ _ trivial)
      exact (h.emitterStop _).modifyPeer (fun _ => rfl) (fun _ => rfl)
        fun _ _ hstate => nomatch hstate
    · refine h.sendOwn _ ?_
      rintro id - heq
      obtain rfl := PacketBody.keepAlive.inj heq
      exact ⟨hadopted.1, hadopted.2 peer hpeer⟩

theorem Agrees.socketSend (h : Agrees A ctx clientId c) (views : List (List UInt8)) :
    Agrees A ctx clientId (socketSend env c views) := by
  have hnext : Agrees A ctx clientId (c.modifyPeer fun peer => peer.nextSequence.1) :=
    h.modifyPeer (fun _ => rfl) (fun _ => rfl) fun _ _ hstate => hstate
  unfold Client.socketSend
  split
  · exact h
  · split
    · simp only []
      split
      · refine hnext.dispatch ?_
        intro id hkeepAlive
        obtain ⟨-, htype, -⟩ := isKeepAlive_encryptPacket hkeepAlive
        cases htype
      · exact hnext
    · exact h

theorem validate_peer (peer : Peer) (address : Address) (header : Header) :
    ∃ protector, (validate peer address header).1 = { peer with replayProtector := protector } := by
  unfold validate
  repeat' split
  all_goals exact ⟨_, rfl⟩

theorem Agrees.accept (h : Agrees A ctx clientId c) {address : Address} {datagram : Datagram}
    (hdatagram : ∀ header body id, datagram = .packet header body →
      IsKeepAlive ctx.packetDecryptKey id body → A ∧ id = clientId) :
    Agrees A ctx clientId (accept env c address datagram) := by
  unfold Client.accept
  split
  · exact h
  · split
    · exact h
    · split
      · exact h.fault
      · rename_i peer hpeer
        obtain ⟨protector, hvalidate⟩ := validate_peer peer address datagram.header
        have hwritten : Agrees A ctx clientId
            { c with peer := some (validate peer address datagram.header).1 } := by
          rw [hvalidate]
          refine (h.modifyPeer (f := fun peer => { peer with replayProtector := protector })
            (fun _ => rfl) (fun _ => rfl) fun _ _ hstate => hstate).congr _ ?_ rfl rfl rfl
          simp [Client.modifyPeer, hpeer]
        simp only []
        split
        · split
          · unfold submitReceiver
            simp only []
            refine Agrees.modifyPeer ?_ (fun _ => rfl) (fun _ => rfl) fun _ _ hstate => hstate
            refine hwritten.setReceiver _ _ ?_
            rintro r hr
            obtain rfl := Option.some.inj hr
            refine ⟨?_, hdatagram⟩
            rw [hwritten.context _ rfl]
            rfl
          · exact hwritten
        · exact hwritten

theorem Agrees.recvDenied (h : Agrees A ctx clientId c) :
    Agrees A ctx clientId (recvDenied c) := by
  have hdenied : Agrees A ctx clientId (c.modifyPeer fun peer => { peer with state := .denied }) :=
    h.modifyPeer (fun _ => rfl) (fun _ => rfl) fun _ _ hstate => nomatch hstate
  have hnext := hdenied.congr (c.modifyPeer fun peer =>
    { peer with state := .denied }).nextAddress.1 rfl rfl rfl rfl
  unfold Client.recvDenied
  simp only [nextAddress] at hnext ⊢
  split
  · rename_i heq
    obtain ⟨rfl, -⟩ := Prod.mk.inj heq
    exact (hnext.note (.connectResult .denied) trivial).socketStop
  · rename_i heq
    obtain ⟨rfl, -⟩ := Prod.mk.inj heq
    exact hnext.retryAddress

theorem Agrees.recvChallenge (h : Agrees A ctx clientId c) (peer : Peer) (sequence : UInt64)
    (token : SealedChallenge) :
    Agrees A ctx clientId (recvChallenge env c peer sequence token) := by
  unfold Client.recvChallenge
  split
  · exact h
  · have hanswering : Agrees A ctx clientId
        ((c.modifyPeer fun peer => { peer with state := .response }).emitterStop .request) := by
      refine Agrees.emitterStop ?_ _
      exact h.modifyPeer (fun _ => rfl) (fun _ => rfl) fun _ _ hstate => nomatch hstate
    have hstarted := hanswering.congr
      { (c.modifyPeer fun peer => { peer with state := .response }).emitterStop .request with
        challengeTokenSequence := sequence, challengeTokenData := token } rfl rfl rfl rfl
    replace hstarted := hstarted.emitterStart env .response fun hname => nomatch hname
    simp only []
    split
    · exact hstarted
    · exact hstarted.socketStop

theorem Agrees.recvDisconnect (h : Agrees A ctx clientId c) (peer : Peer) :
    Agrees A ctx clientId (recvDisconnect c peer) := by
  unfold Client.recvDisconnect
  split
  · exact h
  · refine Agrees.socketStop (Agrees.note ?_ _ trivial)
    exact h.modifyPeer (fun _ => rfl) (fun _ => rfl) fun _ _ hstate => nomatch hstate

theorem Agrees.recvKeepAlive (h : Agrees A ctx clientId c) (peer : Peer) {id : Int64}
    (hid : A ∧ id = clientId) :
    Agrees A ctx clientId (recvKeepAlive env c peer id) := by
  obtain ⟨hA, rfl⟩ := hid
  unfold Client.recvKeepAlive
  split
  · exact h
  · have hconnected : Agrees A ctx id
        (c.modifyPeer fun peer => { peer with state := .connected, clientId := id }) := by
      constructor
      · intro peer' hpeer
        obtain ⟨peer', hold, rfl⟩ := Option.map_eq_some_iff.mp hpeer
        exact h.context peer' hold
      · exact h.receivers
      · intro peer' hpeer _
        obtain ⟨_, -, rfl⟩ := Option.map_eq_some_iff.mp hpeer
        exact ⟨hA, rfl⟩
      · intro _
        refine ⟨hA, fun peer' hpeer => ?_⟩
        obtain ⟨_, -, rfl⟩ := Option.map_eq_some_iff.mp hpeer
        rfl
      · exact h.log
    have hstarted := (hconnected.emitterStop .response).emitterStart env .keepAlive
      fun _ => ⟨hA, fun peer' hpeer => by
        obtain ⟨_, -, rfl⟩ := Option.map_eq_some_iff.mp hpeer
        rfl⟩
    simp only []
    split
    · exact (Agrees.note hstarted (.connectResult .success) hA).note (.connected id) ⟨hA, rfl⟩
    · exact hstarted.socketStop

theorem Agrees.recvPacket (h : Agrees A ctx clientId c) (peer : Peer) (id : ReceiverId)
    (datagram : Datagram) {packet : Packet}
    (hpacket : ∀ id', packet = .keepAlive id' → A ∧ id' = clientId) :
    Agrees A ctx clientId (recvPacket env c peer id datagram packet) := by
  cases packet with
  | payload data => exact h.note _ trivial
  | denied => exact h.recvDenied
  | challenge sequence token => exact h.recvChallenge peer sequence token
  | disconnect => exact h.recvDisconnect peer
  | keepAlive id' => exact h.recvKeepAlive peer (hpacket id' rfl)
  | request _ _ _ => exact h
  | response _ _ => exact h

theorem Agrees.handleReceiverComplete (h : Agrees A ctx clientId c) (id : ReceiverId)
    (receiver : Receiver) {packet : Option Packet}
    (hpacket : ∀ id', packet = some (.keepAlive id') → A ∧ id' = clientId) :
    Agrees A ctx clientId (handleReceiverComplete env c id receiver packet) := by
  unfold Client.handleReceiverComplete
  split
  · exact h
  · split
    · split
      · refine Agrees.recvPacket ?_ _ _ _ fun id' heq => hpacket id' (congrArg some heq)
        exact h.modifyPeer (fun _ => rfl) (fun _ => rfl) fun _ _ hstate => hstate
      · exact h
    · exact h

theorem Agrees.receiverComplete (h : Agrees A ctx clientId c) (id : ReceiverId)
    (workerFailed : Bool) :
    Agrees A ctx clientId (receiverComplete env c id workerFailed) := by
  unfold Client.receiverComplete
  split
  · exact h
  · rename_i receiver hreceiver
    obtain ⟨hctx, hdatagram⟩ := h.receivers id receiver hreceiver
    have htaken : Agrees A ctx clientId (c.setReceiver id none) :=
      h.setReceiver id none fun _ hr => nomatch hr
    simp only []
    split
    · exact htaken
    · refine Agrees.handleReceiverComplete ?_ id receiver ?_
      · exact htaken.modifyPeer (fun _ => rfl) (fun _ => rfl) fun _ _ hstate => hstate
      · intro id' hpacket
        split at hpacket
        · cases hpacket
        · rw [hctx] at hpacket
          obtain ⟨header, body, heq, hbody⟩ := processEntry_eq_keepAlive hpacket
          exact hdatagram header body id' heq hbody

theorem Agrees.senderComplete (h : Agrees A ctx clientId c) (id : SenderId) :
    Agrees A ctx clientId (senderComplete c id) := by
  unfold Client.senderComplete
  split
  · exact h
  · have htaken := h.congr (c.setSender id none) rfl rfl rfl rfl
    simp only []
    split
    · exact htaken
    · exact htaken.modifyPeer (fun _ => rfl) (fun _ => rfl) fun _ _ hstate => hstate

theorem Agrees.onTriggered (h : Agrees A ctx clientId c) (name : EmitterName)
    (hadopted : name = .keepAlive → Adopted A clientId c) :
    Agrees A ctx clientId (onTriggered env c name) := by
  have htriggered : Agrees A ctx clientId (trigger env c name) := by
    cases name with
    | request => exact h.sendRequest
    | response => exact h.sendResponse
    | keepAlive => exact h.sendKeepAlive (hadopted rfl)
    | disconnect => exact h.sendDisconnect
  have hcounted : Agrees A ctx clientId ((trigger env c name).modifyEmitter name fun e =>
      { e with triggerCounter := e.triggerCounter + 1 }) := by
    refine htriggered.modifyEmitter name ?_
    rintro rfl hrunning
    exact htriggered.emitter hrunning
  simp only [Client.onTriggered]
  split
  · exact ((hcounted.emitterStop name).emitterStop .disconnect).socketStop
  · exact hcounted

theorem Agrees.handleRequestTimeout (h : Agrees A ctx clientId c) :
    Agrees A ctx clientId (handleRequestTimeout c) := by
  have hstopped := h.emitterStop .request
  have hlate := hstopped.modifyPeer (f := fun peer => { peer with state := lateState peer.state })
    (fun _ => rfl) (fun _ => rfl) (by
      intro peer _ hstate
      cases hold : peer.state <;> simp_all [lateState])
  have hnext := hlate.congr ((c.emitterStop .request).modifyPeer fun peer => { peer with
    state := lateState peer.state }).nextAddress.1 rfl rfl rfl rfl
  simp only [Client.handleRequestTimeout]
  split
  · exact hstopped.fault
  · simp only [nextAddress] at hnext ⊢
    split
    · rename_i heq
      obtain ⟨rfl, -⟩ := Prod.mk.inj heq
      exact (hnext.note (.connectResult .timedOut) trivial).socketStop
    · rename_i heq
      obtain ⟨rfl, -⟩ := Prod.mk.inj heq
      exact hnext.retryAddress

theorem Agrees.disconnectPeer (h : Agrees A ctx clientId c) :
    Agrees A ctx clientId (disconnectPeer env c) := by
  unfold Client.disconnectPeer
  split
  · exact h
  · split
    · exact h
    · have hparked : Agrees A ctx clientId (((c.emitterStop .keepAlive).modifyPeer fun peer =>
          { peer with state := .disconnecting }).note .disconnected) := by
        refine Agrees.note ?_ _ trivial
        exact (h.emitterStop _).modifyPeer (fun _ => rfl) (fun _ => rfl) fun _ _ hstate =>
          nomatch hstate
      have hstarted := hparked.emitterStart env .disconnect fun hname => nomatch hname
      simp only []
      split
      · exact hstarted
      · exact hstarted.socketStop

theorem Agrees.stopDeferred (h : Agrees A ctx clientId c) :
    Agrees A ctx clientId c.stopDeferred := by
  refine Agrees.stop (Agrees.modifyPeer ?_ (fun _ => rfl) (fun _ => rfl) fun _ _ hstate =>
    nomatch hstate)
  exact h.congr _ rfl rfl rfl rfl

theorem Agrees.step (h : Agrees A ctx clientId c) {i : ClientInput}
    (harrives : ∀ a header body id, i.event = .accept a (.packet header body) →
      IsKeepAlive ctx.packetDecryptKey id body → A ∧ id = clientId) :
    Agrees A ctx clientId (step c i) := by
  unfold Client.step
  split
  · exact h
  · replace h := h.congr { c with tick := c.tick + 1 } rfl rfl rfl rfl
    generalize { c with tick := c.tick + 1 } = c at h
    cases hevent : i.event with
    | accept a datagram =>
        refine h.accept ?_
        rintro header body id rfl
        exact harrives a header body id hevent
    | receiverComplete id workerFailed => exact h.receiverComplete id workerFailed
    | senderComplete id => exact h.senderComplete id
    | send views => exact h.socketSend views
    | disconnectPeer => exact h.disconnectPeer
    | triggerTimer name =>
        simp only [handle]
        split
        · rename_i hrunning
          refine h.modifyEmitter name ?_
          rintro rfl -
          exact h.emitter (.inl hrunning)
        · exact h
    | triggered name =>
        simp only [handle]
        split
        · rename_i htask
          refine Agrees.onTriggered ?_ name ?_
          · refine h.modifyEmitter name ?_
            rintro rfl hrunning
            exact h.emitter (.inl (hrunning.resolve_right (by simp)))
          · rintro rfl
            exact h.emitter (.inr htask)
        · exact h
    | timeoutTimer =>
        simp only [handle]
        split
        · exact h.modifyEmitter .request fun hname => nomatch hname
        · exact h
    | timedOut =>
        simp only [handle]
        split
        · exact Agrees.handleRequestTimeout (h.modifyEmitter .request fun hname => nomatch hname)
        · exact h
    | stop => exact h.socketStop
    | stopDeferred =>
        simp only [handle]
        split
        · exact h.stopDeferred
        · exact h

end Handlers

theorem agrees_start (A : Prop) (token : ClientToken) (address : Address) (payloadCapacity : ℕ)
    (hrtime leftover : UInt64) (clientId : Int64) :
    Agrees A (contextOf token) clientId (start token address payloadCapacity hrtime leftover) where
  context peer hpeer := by
    obtain rfl := Option.some.inj hpeer
    rfl
  receivers _ _ hr := nomatch hr
  connected peer hpeer hstate := by
    obtain rfl := Option.some.inj hpeer
    cases hstate
  emitter hrunning := by simp [start] at hrunning
  log _ hmem := by simp [start] at hmem

end Client

/-- A client and the servers that hold the private key of its token, whose datagrams go
through any network. -/
structure World where
  client : Client
  servers : ℕ → Server

/-- A step of the world is a step of one of them. -/
inductive WorldInput where
  | client (i : ClientInput)
  | server (n : ℕ) (i : Input)

namespace World

/-- The client with its token towards an address, and servers with options of their own
and the private key. -/
def start (privateKey : Key) (o : ℕ → ServerOptions) (c : Client) : World where
  client := c
  servers n := Server.start { o n with privateKey := privateKey }

/-- One step. -/
def step (w : World) : WorldInput → World
  | .client i => { w with client := Client.step w.client i }
  | .server n i => { w with servers := Function.update w.servers n (Server.step (w.servers n) i) }

/-- The steps of a server. -/
def inputs (n : ℕ) (is : List WorldInput) : List Input :=
  is.filterMap fun
    | .client _ => none
    | .server m i => if m = n then some i else none

/-- A server in the world runs by itself. -/
theorem servers_run (w : World) (is : List WorldInput) (n : ℕ) :
    (run step w is).servers n = run Server.step (w.servers n) (inputs n is) := by
  induction is generalizing w with
  | nil => rfl
  | cons i is ih =>
      rw [run_cons, ih]
      cases i with
      | client i => rfl
      | server m i =>
          by_cases hm : m = n
          · subst hm
            simp [step, inputs]
          · simp [step, inputs, hm, Function.update_of_ne (Ne.symm hm)]

theorem inputs_append (n : ℕ) (is js : List WorldInput) :
    inputs n (is ++ js) = inputs n is ++ inputs n js := List.filterMap_append

/-- The keys of a token are known only to its client and to the servers that decrypted
it: a body under its server-to-client key that arrives at the client was sealed by a
server or by the client, and no other token that a server accepts has that key. -/
structure Secret (token : ConnectToken) (w : World) (i : WorldInput) : Prop where
  sealed : ∀ env a header n ad plain,
    i = .client ⟨env, .accept a (.packet header
      (.encrypted token.token.serverToClientKey n ad plain))⟩ →
    (∃ m e, .emitted e ∈ (w.servers m).log ∧
      e.body = .encrypted token.token.serverToClientKey n ad plain) ∨
    ∃ header', .emitted (.packet header'
      (.encrypted token.token.serverToClientKey n ad plain)) ∈ w.client.log
  exclusive : ∀ m j p token', i = .server m j → (w.servers m).granting j = some (p, token') →
    token'.token.serverToClientKey = token.token.serverToClientKey → token' = token

section Agreement

variable {privateKey : Key} {o : ℕ → ServerOptions} {c : Client} {token : ConnectToken}
  {is : List WorldInput}

/-- Some server connected a peer for the token on a response. -/
def Agreed (privateKey : Key) (o : ℕ → ServerOptions) (token : ConnectToken)
    (is : List WorldInput) : Prop :=
  ∃ n p, Server.ConnectedFor { o n with privateKey := privateKey } (inputs n is) p token

theorem Agreed.append (h : Agreed privateKey o token is) (js : List WorldInput) :
    Agreed privateKey o token (is ++ js) := by
  obtain ⟨n, p, hconnected⟩ := h
  refine ⟨n, p, ?_⟩
  rw [inputs_append]
  exact hconnected.append _

theorem granted_eq (h : Along step (Secret token) (start privateKey o c) is) {n : ℕ} {p : PeerId}
    {token' : ConnectToken} {now : UInt64}
    (hgranted : .granted p token' now ∈ ((run step (start privateKey o c) is).servers n).log)
    (hkey : token'.token.serverToClientKey = token.token.serverToClientKey) : token' = token := by
  induction is using List.reverseRecOn with
  | nil => exact absurd hgranted (by simp [start, Server.start])
  | append_singleton is i ih =>
      rw [along_append] at h
      rw [run_append] at hgranted
      cases i with
      | client i => exact ih h.1 hgranted
      | server m i =>
          by_cases hm : n = m
          · subst hm
            simp only [run_cons, run_nil, step, Function.update_self] at hgranted
            have hsound := Server.sound_run { o n with privateKey := privateKey } (inputs n is)
            have hserver := servers_run (start privateKey o c) is n
            simp only [start] at hserver
            rcases Server.granted_of_step (hserver ▸ hsound) hgranted with hold | hnew
            · exact ih h.1 hold
            · exact h.2.1.exclusive n i p token' rfl hnew hkey
          · simp only [run_cons, run_nil, step, Function.update_of_ne hm] at hgranted
            exact ih h.1 hgranted

theorem agreed_of_arrival (h : Along step (Secret token) (start privateKey o c) is)
    {ctx : CryptoContext} (hctx : ctx.packetDecryptKey = token.token.serverToClientKey)
    (hclient : Client.Agrees (Agreed privateKey o token is) ctx token.token.clientId
      (run step (start privateKey o c) is).client)
    {env : ClientEnv} {a : Address} {header : Header} {body : SealedBody} {id : Int64}
    (hsecret : Secret token (run step (start privateKey o c) is)
      (.client ⟨env, .accept a (.packet header body)⟩))
    (hbody : IsKeepAlive ctx.packetDecryptKey id body) :
    Agreed privateKey o token is ∧ id = token.token.clientId := by
  have hkeepAlive := hbody
  obtain ⟨n, ad, htype, rfl⟩ := hkeepAlive
  rw [hctx] at hsecret
  rcases hsecret.sealed env a header n ad (.keepAlive id) rfl with ⟨m, e, he, hsealed⟩ |
    ⟨header', hown⟩
  · have hserver := servers_run (start privateKey o c) is m
    obtain ⟨token', now, hgranted, hkey, hid, hconnected⟩ :=
      Server.keepAlive_of_log { o m with privateKey := privateKey } (inputs m is) (hserver ▸ he)
        ⟨n, ad, htype, hsealed⟩
    obtain rfl := granted_eq h (hserver ▸ hgranted) hkey
    exact ⟨⟨m, e.peer, hconnected⟩, hid.symm⟩
  · rw [← hctx] at hown
    exact hclient.log _ hown id hbody

/-- In every run the client has relied only on a server that connected a peer for its
token. -/
theorem agrees_run {nonce : TokenNonce} {address : Address} {payloadCapacity : ℕ}
    {hrtime leftover : UInt64}
    (h : Along step (Secret token) (start privateKey o
      (Client.start (token.issue privateKey nonce) address payloadCapacity hrtime leftover)) is) :
    Client.Agrees (Agreed privateKey o token is)
      (Client.contextOf (token.issue privateKey nonce)) token.token.clientId
      (run step (start privateKey o
        (Client.start (token.issue privateKey nonce) address payloadCapacity hrtime leftover))
        is).client := by
  induction is using List.reverseRecOn with
  | nil => exact Client.agrees_start _ _ _ _ _ _ _
  | append_singleton is i ih =>
      rw [along_append] at h
      have hclient := ih h.1
      rw [run_append]
      cases i with
      | server n i => exact hclient.mono fun hagreed => hagreed.append _
      | client i =>
          have hmono : Agreed privateKey o token is →
              Agreed privateKey o token (is ++ [.client i]) :=
            fun hagreed => hagreed.append _
          refine Client.Agrees.mono ?_ hmono
          refine hclient.step ?_
          intro a header body id hevent hbody
          obtain ⟨env, event⟩ := i
          subst hevent
          exact agreed_of_arrival h.1 rfl hclient h.2.1 hbody

/-- A client is connected, or has reported success, only if a server with the private key
had connected a peer for its very token on a response, and its client id is then the one
in the token. -/
theorem agreed_of_connected (privateKey : Key) (o : ℕ → ServerOptions) (token : ConnectToken)
    (nonce : TokenNonce) (address : Address) (payloadCapacity : ℕ) (hrtime leftover : UInt64)
    (is : List WorldInput)
    (h : Along step (Secret token) (start privateKey o
      (Client.start (token.issue privateKey nonce) address payloadCapacity hrtime leftover)) is) :
    let c := (run step (start privateKey o (Client.start (token.issue privateKey nonce) address
      payloadCapacity hrtime leftover)) is).client
    (∀ peer, c.peer = some peer → peer.state = .connected →
      Agreed privateKey o token is ∧ peer.clientId = token.token.clientId) ∧
    (.connectResult .success ∈ c.log → Agreed privateKey o token is) ∧
    ∀ id, .connected id ∈ c.log → Agreed privateKey o token is ∧ id = token.token.clientId := by
  have hclient := agrees_run h
  refine ⟨hclient.connected, ?_, ?_⟩
  · intro hsuccess
    exact hclient.log _ hsuccess
  · intro id hconnected
    exact hclient.log _ hconnected

end Agreement

section Samples

/-- Whether the keys of a token stay secret in a step of the client and server 0. -/
def secret (token : ConnectToken) (w : World) : WorldInput → Bool
  | .client ⟨_, .accept _ (.packet _ (.encrypted key n ad plain))⟩ =>
      decide (key ≠ token.token.serverToClientKey) || (w.servers 0).log.any fun
        | .emitted e => decide (e.body = .encrypted key n ad plain)
        | _ => false
  | .client _ => true
  | .server m j =>
      match (w.servers m).granting j with
      | some (_, token') => decide (token' = token)
      | none => true

theorem secret_of_check {token : ConnectToken} {w : World} {i : WorldInput}
    (h : secret token w i = true) : Secret token w i := by
  constructor
  · rintro env a header n ad plain rfl
    simp only [secret, Bool.or_eq_true, decide_eq_true_eq, ne_eq, not_true_eq_false, false_or,
      List.any_eq_true] at h
    obtain ⟨effect, hmem, heffect⟩ := h
    cases effect with
    | emitted e => exact .inl ⟨0, e, hmem, of_decide_eq_true heffect⟩
    | _ => cases heffect
  · rintro m j p token' rfl hgranting -
    simpa [secret, hgranting] using h

theorem along_secret {token : ConnectToken} {is : List WorldInput} {w : World}
    (h : Along step (fun w i => secret token w i = true) w is) :
    Along step (Secret token) w is := by
  induction is generalizing w with
  | nil => trivial
  | cons i is ih => exact ⟨secret_of_check h.1, ih h.2⟩

/-- A client with its token from key 1. -/
def sampleClient : Client :=
  Client.start ((sampleToken 1 11 12).issue 1 0) (sampleAddress 9) 1000 0 0

/-- A packet under the server-to-client key of the sample token. -/
def serverPacket (header : Header) (body : PacketBody) : Datagram :=
  .packet header (.encrypted 12 header.sequence
    ⟨7, header.type, calcPackedUint64Bytes header.sequence⟩ body)

/-- The handshake of one client and one server. -/
def oneHandshake : List WorldInput :=
  let client := fun event => WorldInput.client ⟨.plentiful 0, event⟩
  let token := sampleToken 1 11 12
  [client (.triggerTimer .request), client (.triggered .request),
    .server 0 (arrive (sampleAddress 1) (clientRequest 1 0 token)), .server 0 (complete 1),
    client (.accept (sampleAddress 9) (serverPacket ⟨.challenge, 0⟩
      (.challenge 0 (.encrypted 2 0 () ⟨1, 0⟩)))),
    client (.receiverComplete 3 false),
    .server 0 (arrive (sampleAddress 1) (clientResponse 2 token 0 0)), .server 0 (complete 3),
    client (.accept (sampleAddress 9) (serverPacket ⟨.keepAlive, 0⟩ (.keepAlive 1))),
    client (.receiverComplete 5 false)]

theorem agreed_of_connected_oneHandshake :
    (Along step (Secret (sampleToken 1 11 12))
        (start 1 (fun _ => sampleOptions 1) sampleClient) oneHandshake ∧
      .connectResult .success ∈
        (run step (start 1 (fun _ => sampleOptions 1) sampleClient) oneHandshake).client.log) ∧
    Agreed 1 (fun _ => sampleOptions 1) (sampleToken 1 11 12) oneHandshake := by
  have hsecret : Along step (Secret (sampleToken 1 11 12))
      (start 1 (fun _ => sampleOptions 1) sampleClient) oneHandshake :=
    along_secret (by decide +kernel)
  have hsuccess : .connectResult .success ∈
      (run step (start 1 (fun _ => sampleOptions 1) sampleClient) oneHandshake).client.log := by
    decide +kernel
  exact ⟨⟨hsecret, hsuccess⟩, (agreed_of_connected 1 (fun _ => sampleOptions 1)
    (sampleToken 1 11 12) 0 (sampleAddress 9) 1000 0 0 oneHandshake hsecret).2.1 hsuccess⟩

end Samples

end World

end Protocol

end PomeloUdp
