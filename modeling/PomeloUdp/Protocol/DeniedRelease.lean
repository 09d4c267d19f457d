import PomeloUdp.Protocol.AddressMap
import PomeloUdp.Protocol.Authentication

/-!
# The release of denied peers

A denied peer stays in the list of denied peers and in the address map while its Denied packet is
sent. Nothing scans that list: the peer is released by `pomelo_protocol_server_sent_denied`, which
the completion of the sender calls. `SenderAnswers` follows a sender through the stages of its
pipeline to its completion, and `senderFailed_eq_false_iff` says that the completion gets to that
call only if no stage failed. A dispatch that acquires no sender does not get there at all.

`denialsEnd_run` is what holds nevertheless: while every dispatch of a Denied packet acquires its
sender, no sender of one fails and no growth of the address map displaces an entry, each denied peer
is released when its sender completes.
-/

namespace PomeloUdp

namespace Protocol

open Machine

section Pipeline

/-- What the worker and the adapter answer to a sender. -/
structure SenderAnswers where
  /-- `pomelo_platform_submit_worker_task` -/
  submitTask : Bool
  /-- `pomelo_protocol_packet_header_encode` -/
  encodeHeader : Bool
  /-- `pomelo_protocol_packet_encode` -/
  encodeBody : Bool
  /-- `pomelo_protocol_crypto_context_encrypt_packet` -/
  encrypt : Bool
  /-- `pomelo_adapter_send` -/
  adapterSend : Bool
  deriving DecidableEq

/-- `sender_process_entry`: whether the result is not negative. -/
def senderProcessEntry (r : SenderAnswers) : Bool :=
  if r.encodeHeader then
    if r.encodeBody then r.encrypt else false
  else false

/-- `pomelo_protocol_sender_process` and its completion: whether the pipeline goes on. -/
def senderProcess (r : SenderAnswers) : Bool :=
  if r.submitTask then senderProcessEntry r else false

/-- `pomelo_protocol_sender_dispatch`: whether the pipeline goes on. -/
def senderDispatch (r : SenderAnswers) : Bool := r.adapterSend

/-- `POMELO_PROTOCOL_SENDER_FLAG_FAILED` when the pipeline gets to the completion. -/
def senderFailed (r : SenderAnswers) : Bool :=
  if senderProcess r then !senderDispatch r else true

end Pipeline

namespace Server

section Property

/-- A Denied packet of the peer is in flight. -/
def Sending (s : Server) (p : PeerId) : Prop := ∃ id, s.senders id = some ⟨some p, .denied, false⟩

/-- The peer is not in the list of denied peers, and no address leads to it. -/
structure Gone (s : Server) (p : PeerId) : Prop where
  denied : ∀ x ∈ s.lists .denied, x.peer ≠ p
  mapped : ∀ a, s.peerAddressMap a ≠ some p

/-- While the server runs, every peer that was put into the list of denied peers and whose Denied
packet is not in flight any more is gone. -/
def DenialsEnd (o : ServerOptions) (is : List Input) : Prop :=
  ∀ before after, before ++ after <+: is →
    (run step (start o) (before ++ after)).state = .running →
      ∀ x ∈ (run step (start o) before).lists .denied,
        ¬ Sending (run step (start o) (before ++ after)) x.peer →
          Gone (run step (start o) (before ++ after)) x.peer

/-- The Denied packet of the peer that a step denies gets a sender. -/
def dispatched (s : Server) (i : Input) : Bool :=
  match s.denying i with
  | some p => !i.env.acquirePacket p .denied || i.env.acquireSender p .denied
  | none => true

/-- The sender of a Denied packet does not fail in the step. -/
def delivered (s : Server) (i : Input) : Bool :=
  match i.event with
  | .senderComplete id true =>
      match s.senders id with
      | some sender => sender.canceled || decide (sender.type ≠ .denied)
      | none => true
  | _ => true

/-- In a running server, no Denied packet is lost in the step. -/
def sent (s : Server) (i : Input) : Bool :=
  decide (s.state ≠ .running) || dispatched s i && delivered s i

end Property

section Quiet

/-- Senders are listed with their peers, under the names that say what they send. -/
structure Accounted (s : Server) : Prop where
  own : ∀ p, ∀ id ∈ (s.peers p).senders, id.peer = p
  shape : ∀ id sender, s.senders id = some sender → sender.canceled = false →
    sender.peer = some id.peer ∧ sender.type = id.type

/-- Every denied peer has its Denied packet in flight. -/
structure Covered (s : Server) : Prop where
  accounted : Accounted s
  sending : ∀ x ∈ s.lists .denied, Sending s x.peer

/-- No peer is denied between the states, and none that stays denied loses its Denied packet. -/
structure Quiet (s t : Server) : Prop where
  denied : ∀ x ∈ t.lists .denied, x ∈ s.lists .denied
  accounted : Accounted s → Accounted t
  sending : Accounted s → ∀ x ∈ t.lists .denied, Sending s x.peer → Sending t x.peer

/-- The peer is not in the list of denied peers. -/
def Absent (s : Server) (p : PeerId) : Prop := ∀ x ∈ s.lists .denied, x.peer ≠ p

variable {s t u : Server} {env : Env} {p : PeerId}

theorem Quiet.refl (s : Server) : Quiet s s := ⟨fun _ h => h, fun h => h, fun _ _ _ h => h⟩

theorem Quiet.trans (h : Quiet s t) (h' : Quiet t u) : Quiet s u where
  denied x hx := h.denied x (h'.denied x hx)
  accounted hs := h'.accounted (h.accounted hs)
  sending hs x hx hsending :=
    h'.sending (h.accounted hs) x hx (h.sending hs x (h'.denied x hx) hsending)

theorem Quiet.covered (h : Quiet s t) (hs : Covered s) : Covered t where
  accounted := h.accounted hs.accounted
  sending x hx := h.sending hs.accounted x hx (hs.sending x (h.denied x hx))

theorem Quiet.absent (h : Quiet s t) (hp : Absent s p) : Absent t p :=
  fun x hx => hp x (h.denied x hx)

theorem Table.absent (h : Table s) (hstate : (s.peers p).state ≠ .denied) : Absent s p := by
  rintro x hx rfl
  exact hstate (h.member_state .denied x hx)

theorem Accounted.of_senders (hs : Accounted s) (hsenders : t.senders = s.senders)
    (hpeers : ∀ q, ∀ id ∈ (t.peers q).senders, id ∈ (s.peers q).senders) : Accounted t where
  own q id hid := hs.own q id (hpeers q id hid)
  shape := by
    rw [hsenders]
    exact hs.shape

theorem quiet_of (hdenied : ∀ x ∈ t.lists .denied, x ∈ s.lists .denied)
    (hsenders : t.senders = s.senders)
    (hpeers : ∀ q, ∀ id ∈ (t.peers q).senders, id ∈ (s.peers q).senders) : Quiet s t where
  denied := hdenied
  accounted hs := hs.of_senders hsenders hpeers
  sending := by
    rintro - x - ⟨id, hid⟩
    exact ⟨id, (congrFun hsenders id).trans hid⟩

theorem quiet_modifyPeer (s : Server) (p : PeerId) (f : Peer → Peer)
    (hf : ∀ id ∈ (f (s.peers p)).senders, id ∈ (s.peers p).senders) :
    Quiet s (s.modifyPeer p f) := by
  refine quiet_of (fun _ h => h) rfl ?_
  intro q id hid
  rw [modifyPeer_peers] at hid
  split at hid
  · subst q
    exact hf id hid
  · exact hid

theorem quiet_note (s : Server) (effect : Effect) : Quiet s (s.note effect) :=
  quiet_of (fun _ h => h) rfl fun _ _ h => h

theorem quiet_setReceiver (s : Server) (id : ReceiverId) (receiver : Option Receiver) :
    Quiet s (s.setReceiver id receiver) :=
  quiet_of (fun _ h => h) rfl fun _ _ h => h

theorem quiet_removeEntry (s : Server) (name : PeerListName) (x : PeerEntry) :
    Quiet s (s.removeEntry name x) := by
  refine quiet_of ?_ rfl fun _ _ h => h
  intro y hy
  by_cases hname : name = .denied
  · subst hname
    simp only [removeEntry, Function.update_self] at hy
    exact List.mem_of_mem_erase hy
  · simpa [removeEntry, Function.update_of_ne (Ne.symm hname)] using hy

theorem quiet_unlink (s : Server) (name : PeerListName) (p : PeerId) :
    Quiet s (s.unlink name p) := by
  unfold unlink
  split
  · exact Quiet.refl s
  · exact quiet_removeEntry s name _

theorem quiet_pushBack (s : Server) {name : PeerListName} (hname : name ≠ .denied) (p : PeerId) :
    Quiet s (s.pushBack name p) := by
  refine quiet_of ?_ rfl ?_
  · intro y hy
    simpa [pushBack, Function.update_of_ne (Ne.symm hname)] using hy
  · intro q id hid
    rw [pushBack_peers] at hid
    split at hid
    · subst q
      exact hid
    · exact hid

theorem quiet_acquirePeer (s : Server) (env : Env) (a : Address) :
    Quiet s (s.acquirePeer env a) := by
  refine quiet_of (fun _ h => h) rfl ?_
  intro q id hid
  by_cases hq : q = s.tick
  · subst hq
    simp [acquirePeer, Peer.init, Peer.cleanup] at hid
  · simpa [acquirePeer, Function.update_of_ne hq] using hid

theorem quiet_dispatch (env : Env) (s : Server) (p : PeerId) (source : SequenceSource)
    (header : Header) (body : PacketBody) : Quiet s (dispatch env s p source header body) := by
  simp only [dispatch]
  split
  · refine ⟨fun _ h => h, fun hs => ⟨?_, ?_⟩, ?_⟩
    · intro q id hid
      simp only [note, modifyPeer_peers] at hid
      split at hid
      · subst q
        rcases List.mem_append.mp hid with hid | hid
        · exact hs.own p id hid
        · obtain rfl := List.mem_singleton.mp hid
          rfl
      · exact hs.own q id hid
    · intro id sender hsender hcanceled
      by_cases hid : id = ⟨s.tick, p, header.type⟩
      · subst hid
        simp only [note, modifyPeer, setSender, Function.update_self, Option.some.injEq] at hsender
        subst hsender
        exact ⟨rfl, rfl⟩
      · simp only [note, modifyPeer, setSender, Function.update_of_ne hid] at hsender
        exact hs.shape id sender hsender hcanceled
    · rintro hs x - ⟨id, hid⟩
      refine ⟨id, ?_⟩
      by_cases hnew : id = ⟨s.tick, p, header.type⟩
      · subst hnew
        have hpeer : x.peer = p := Option.some.inj (hs.shape _ _ hid rfl).1
        have htype : PacketType.denied = header.type := (hs.shape _ _ hid rfl).2
        simp only [note, modifyPeer, setSender, Function.update_self, hpeer, htype]
      · simpa [note, modifyPeer, setSender, Function.update_of_ne hnew] using hid
  · exact Quiet.refl s

theorem sending_dispatch {env : Env} {p : PeerId} (hacquire : env.acquireSender p .denied = true)
    (s : Server) (source : SequenceSource) (sequence : UInt64) (body : PacketBody) :
    Sending (dispatch env s p source ⟨.denied, sequence⟩ body) p := by
  simp only [dispatch, if_pos hacquire]
  exact ⟨⟨s.tick, p, .denied⟩, Function.update_self ..⟩

theorem quiet_releasePeer (hp : Absent s p) : Quiet s (s.releasePeer p) := by
  have hlists := releasePeer_lists s p
  refine ⟨fun x hx => hlists ▸ hx, fun hs => ⟨?_, ?_⟩, ?_⟩
  · intro q id hid
    rw [releasePeer_peers] at hid
    split at hid
    · exact absurd hid (by simp [Peer.cleanup])
    · exact hs.own q id hid
  · intro id sender hsender hcanceled
    rw [releasePeer_senders] at hsender
    split at hsender
    · obtain ⟨_, -, rfl⟩ := Option.map_eq_some_iff.mp hsender
      exact absurd hcanceled (by simp)
    · exact hs.shape id sender hsender hcanceled
  · rintro hs x hx ⟨id, hid⟩
    rw [hlists] at hx
    refine ⟨id, ?_⟩
    rw [releasePeer_senders, if_neg]
    · exact hid
    · intro hmem
      have hpeer := (hs.shape id _ hid rfl).1
      rw [hs.own p id hmem] at hpeer
      exact hp x hx (Option.some.inj hpeer)

theorem quiet_foldl {body : Server → PeerEntry → Server} {entries : List PeerEntry}
    (hbody : ∀ t, ∀ x ∈ entries, Absent t x.peer → Quiet t (body t x))
    (habsent : ∀ x ∈ entries, Absent s x.peer) : Quiet s (entries.foldl body s) := by
  induction entries generalizing s with
  | nil => exact Quiet.refl s
  | cons x entries ih =>
      rw [List.foldl_cons]
      have hx := hbody s x (List.mem_cons_self ..) (habsent x (List.mem_cons_self ..))
      refine hx.trans (ih (fun t y hy => hbody t y (List.mem_cons_of_mem _ hy)) ?_)
      intro y hy
      exact hx.absent (habsent y (List.mem_cons_of_mem _ hy))

end Quiet

section Handlers

variable {s : Server} {env : Env} {p : PeerId}

theorem quiet_sendOwn (env : Env) (s : Server) (p : PeerId) (type : PacketType)
    (body : PacketBody) : Quiet s (sendOwn env s p type body) := by
  have hnext := quiet_modifyPeer s p (fun peer => peer.nextSequence.1) fun _ h => h
  simp only [sendOwn]
  split
  · exact hnext.trans (quiet_dispatch env _ p .own _ body)
  · exact hnext

theorem quiet_sendKeepAlive (env : Env) (s : Server) (p : PeerId) :
    Quiet s (sendKeepAlive env s p) := quiet_sendOwn env s p _ _

theorem quiet_sendChallenge (env : Env) (s : Server) (p : PeerId)
    (token : Crypto.PrivateToken) : Quiet s (sendChallenge env s p token) := by
  have htake : Quiet s s.takeAnonymous.takeChallenge :=
    quiet_of (fun _ h => h) rfl fun _ _ h => h
  simp only [sendChallenge]
  split
  · exact htake.trans (quiet_dispatch env _ p .anonymous _ _)
  · exact htake

theorem quiet_submitReceiver (env : Env) (s : Server) (p : PeerId) (datagram : Datagram) :
    Quiet s (submitReceiver env s p datagram) := by
  have hsubmit := quiet_setReceiver s s.tick
    (some ⟨some p, s.cryptoCtx p, datagram, env.hrtime, false⟩)
  exact hsubmit.trans (quiet_modifyPeer _ p (fun peer =>
    { peer with
      receivers := peer.receivers ++ [s.tick]
      flags :=
        if datagram.header.type = .response then
          { peer.flags with processingResponse := true }
        else peer.flags }) fun _ h => h)

theorem quiet_validateRequest (hnew : Absent s s.tick) (address : Address) (body : RequestBody) :
    Quiet s (validateRequest env s address body).1 := by
  unfold validateRequest
  split
  · exact Quiet.refl s
  split
  · exact Quiet.refl s
  split
  · have hacquire := quiet_acquirePeer s env address
    dsimp only
    split
    · have hpush : Quiet s ((s.acquirePeer env address).pushBack .requesting s.tick) :=
        hacquire.trans (quiet_pushBack _ (by decide) _)
      exact hpush.trans (quiet_modifyPeer _ s.tick (fun peer =>
        { peer with cryptoCtx := some ⟨0, 0, 0, s.challengeKey, s.privateKey⟩ }) fun _ h => h)
    · exact hacquire.trans (quiet_releasePeer (hacquire.absent hnew))
  · exact Quiet.refl s

theorem quiet_validatePacketOf (address : Address) (header : Header) :
    Quiet s (validatePacketOf s address header).1 := by
  have hprotect : ∀ p, Quiet s (s.modifyPeer p fun _ =>
      ((s.peers p).protectReplay header.sequence).1) := by
    intro p
    exact quiet_modifyPeer s p _ fun _ h => h
  unfold validatePacketOf
  split
  · exact Quiet.refl s
  split
  · split
    · exact Quiet.refl s
    · split <;> exact Quiet.refl s
  · split
    · exact Quiet.refl s
    · exact hprotect _
  · split
    · exact Quiet.refl s
    · exact hprotect _
  · split
    · exact Quiet.refl s
    · exact hprotect _
  · exact Quiet.refl s

theorem quiet_accept (hnew : Absent s s.tick) (address : Address) (datagram : Datagram) :
    Quiet s (accept env s address datagram) := by
  have hvalidate : Quiet s (validateIncoming env s address datagram).1 := by
    unfold validateIncoming
    split
    · exact Quiet.refl s
    split
    · exact Quiet.refl s
    cases datagram with
    | request sequence body => exact quiet_validateRequest hnew address body
    | packet header body => exact quiet_validatePacketOf address header
  unfold accept
  split
  · rename_i heq
    rwa [heq] at hvalidate
  · rename_i t q heq
    rw [heq] at hvalidate
    refine hvalidate.trans ((quiet_note t (.validated t.tick q datagram)).trans ?_)
    dsimp only
    split
    · exact quiet_submitReceiver _ _ _ _
    · exact Quiet.refl _

theorem quiet_socketSend (env : Env) (s : Server) (p : PeerId) (views : List (List UInt8)) :
    Quiet s (socketSend env s p views) := by
  unfold socketSend presendPacket
  split
  · split
    · exact quiet_sendOwn env _ p _ _
    · exact (quiet_sendKeepAlive env s p).trans (quiet_sendOwn env _ p _ _)
  · exact Quiet.refl s

theorem quiet_disconnectPeer (h : Table s) : Quiet s (disconnectPeer env s p) := by
  unfold disconnectPeer
  split
  · exact Quiet.refl s
  rename_i hstate
  have habsent : Absent s p := h.absent (by rw [not_not.mp hstate]; decide)
  have hunlink := quiet_unlink s .connected p
  dsimp only
  split
  · exact hunlink.trans ((quiet_pushBack _ (by decide) p).trans
      ((quiet_modifyPeer _ p _ fun _ h => h).trans (quiet_note _ _)))
  · have hlost := hunlink.trans ((quiet_modifyPeer _ p (fun peer =>
      { peer with state := .disconnected }) fun _ h => h).trans (quiet_note _ (.disconnected p)))
    exact hlost.trans (quiet_releasePeer (hlost.absent habsent))

theorem quiet_keepAliveEntry (x : PeerEntry) (hx : Absent s x.peer) :
    Quiet s (keepAliveEntry env s x) := by
  unfold keepAliveEntry
  dsimp only
  split
  · exact quiet_sendKeepAlive env s _
  · have hlost := (quiet_modifyPeer s x.peer (fun peer => { peer with state := .disconnected })
      fun _ h => h).trans ((quiet_note _ (.disconnected x.peer)).trans
        (quiet_removeEntry _ .connected x))
    exact hlost.trans (quiet_releasePeer (hlost.absent hx))

theorem quiet_disconnectEntry (x : PeerEntry) (hx : Absent s x.peer) :
    Quiet s (disconnectEntry env s x) := by
  have hremain := quiet_modifyPeer s x.peer (fun peer =>
    { peer with remainRedundantDisconnect := (s.peers x.peer).remainRedundantDisconnect - 1 })
    fun _ h => h
  unfold disconnectEntry
  dsimp only
  split
  · exact hremain.trans (quiet_sendOwn env _ _ _ _)
  · have hremove := hremain.trans (quiet_removeEntry _ .disconnecting x)
    exact hremove.trans (quiet_releasePeer (hremove.absent hx))

theorem quiet_scanEntry (x : PeerEntry) (hx : Absent s x.peer) :
    Quiet s (scanEntry env s x) := by
  unfold scanEntry
  dsimp only
  split
  · have hremove := quiet_removeEntry s .challenging x
    exact hremove.trans (quiet_releasePeer (hremove.absent hx))
  · exact Quiet.refl s

theorem Table.quiet_loop (h : Table s) (name : PeerListName) (hname : name ≠ .denied)
    {body : Server → PeerEntry → Server}
    (hbody : ∀ (t : Server) (x : PeerEntry), Absent t x.peer → Quiet t (body t x)) :
    Quiet s ((s.lists name).foldl body s) := by
  refine quiet_foldl (fun t x _ => hbody t x) ?_
  intro x hx
  refine h.absent ?_
  rw [h.member_state name x hx]
  exact fun hstate => hname (state_injective hstate)

theorem quiet_recvResponse (h : (s.peers p).state ≠ .denied → Absent s p)
    (token : Crypto.ChallengeToken) : Quiet s (recvResponse env s p token) := by
  unfold recvResponse
  split
  · exact Quiet.refl s
  rename_i hstate
  have habsent : Absent s p := h (by rw [not_not.mp hstate]; decide)
  split
  · exact Quiet.refl s
  split
  · exact Quiet.refl s
  have hunlink := quiet_unlink s .challenging p
  dsimp only
  split
  · exact hunlink.trans ((quiet_pushBack _ (by decide) p).trans
      ((quiet_modifyPeer _ p _ fun _ h => h).trans
        ((quiet_sendKeepAlive env _ p).trans (quiet_note _ _))))
  · exact hunlink.trans (quiet_releasePeer (hunlink.absent habsent))

theorem quiet_recvDisconnect (h : (s.peers p).state ≠ .denied → Absent s p) :
    Quiet s (recvDisconnect s p) := by
  unfold recvDisconnect
  split
  · exact Quiet.refl s
  · rename_i hstate
    have habsent : Absent s p := h (by rw [not_not.mp hstate]; decide)
    have hlost := (quiet_modifyPeer s p (fun peer => { peer with state := .disconnected })
      fun _ h => h).trans ((quiet_note _ (.disconnected p)).trans (quiet_unlink _ .connected p))
    exact hlost.trans (quiet_releasePeer (hlost.absent habsent))

theorem quiet_recvKeepAlive (s : Server) (p : PeerId) (clientId : Int64) :
    Quiet s (recvKeepAlive s p clientId) := by
  unfold recvKeepAlive
  split
  · exact Quiet.refl s
  split
  · exact Quiet.refl s
  split
  · exact Quiet.refl s
  exact quiet_modifyPeer s p _ fun _ h => h

theorem covered_denyPeer (hs : Covered s) (habsent : Absent s p)
    (hstate : (s.peers p).state = .request)
    (hsender : env.pushEntry = true → env.acquirePacket p .denied = true →
      env.acquireSender p .denied = true) : Covered (denyPeer env s p) := by
  have hunlink := quiet_unlink s .requesting p
  have habsent' := hunlink.absent habsent
  have ht := hunlink.covered hs
  simp only [denyPeer, hstate]
  generalize s.unlink .requesting p = t at habsent' ht
  by_cases hpush : env.pushEntry = true
  swap
  · rw [if_neg hpush]
    exact (quiet_releasePeer habsent').covered ht
  rw [if_pos hpush]
  have hpeers : ∀ q, ∀ id ∈ ((t.pushBack .denied p).takeAnonymous.peers q).senders,
      id ∈ (t.peers q).senders := by
    intro q id hid
    change id ∈ ((t.pushBack .denied p).peers q).senders at hid
    rw [pushBack_peers] at hid
    split at hid
    · subst q
      exact hid
    · exact hid
  have haccounted : Accounted (t.pushBack .denied p).takeAnonymous :=
    ht.accounted.of_senders rfl hpeers
  have hlist : (t.pushBack .denied p).takeAnonymous.lists .denied =
      t.lists .denied ++ [⟨t.tick, p⟩] := by simp [takeAnonymous, pushBack]
  by_cases hpacket : env.acquirePacket p .denied = true
  · have hacquire := hsender hpush hpacket
    simp only [sendDenied, if_pos hpacket, if_true]
    have hdispatch := quiet_dispatch env (t.pushBack .denied p).takeAnonymous p .anonymous
      ⟨.denied, (t.pushBack .denied p).anonymousSequenceNumber⟩ .denied
    refine ⟨hdispatch.accounted haccounted, ?_⟩
    intro x hx
    have hmem := hdispatch.denied x hx
    rw [hlist] at hmem
    rcases List.mem_append.mp hmem with hold | hnew
    · exact hdispatch.sending haccounted x hx (ht.sending x hold)
    · obtain rfl := List.mem_singleton.mp hnew
      exact sending_dispatch hacquire _ _ _ _
  · simp only [sendDenied, if_neg hpacket, Bool.false_eq_true, if_false]
    have hentry : (((t.pushBack .denied p).takeAnonymous).peers p).entry = some ⟨t.tick, p⟩ := by
      simp [takeAnonymous, pushBack]
    rw [unlink_eq .denied hentry]
    have hback : Quiet t (((t.pushBack .denied p).takeAnonymous).removeEntry .denied
        ⟨t.tick, p⟩) := by
      refine quiet_of ?_ rfl hpeers
      intro x hx
      have hnew : (⟨t.tick, p⟩ : PeerEntry) ∉ t.lists .denied := fun hmem => habsent' _ hmem rfl
      simpa [removeEntry, hlist, List.erase_append_right _ hnew] using hx
    exact (hback.trans (quiet_releasePeer (hback.absent habsent'))).covered ht

end Handlers

section Completions

variable {s₀ t : Server} {i : Input} {p : PeerId}

theorem SoftSame.absent (hsoft : SoftSame s₀ t) (h : Table s₀)
    (hstate : (t.peers p).state ≠ .denied) : Absent t p := by
  intro x hx
  rw [hsoft.lists] at hx
  rw [(hsoft.peers p).state] at hstate
  exact h.absent hstate x hx

theorem acquireSender_of_dispatched (hdispatched : dispatched s₀ i = true)
    (hdenying : s₀.denying i = some p) (hpacket : i.env.acquirePacket p .denied = true) :
    i.env.acquireSender p .denied = true := by
  simpa [dispatched, hdenying, hpacket] using hdispatched

theorem covered_recvRequest {datagram : Datagram} {token : ConnectToken} (h : Table s₀)
    (hsoft : SoftSame s₀ t) (hs : Covered t) (hdispatched : dispatched s₀ i = true)
    (hcompletion : s₀.completion i = some (p, datagram,
      some (.request token.protocolId token.expireTimestamp token.token))) :
    Covered (recvRequest i.env t p token) := by
  unfold recvRequest
  split
  · exact hs
  rename_i hstate
  rw [not_not] at hstate
  have habsent : Absent t p := hsoft.absent h (by rw [hstate]; decide)
  have hstate₀ : (s₀.peers p).state = .request := (hsoft.peers p).state.symm.trans hstate
  split
  · rename_i hfull
    rw [hsoft.maxClients, hsoft.lists] at hfull
    refine covered_denyPeer hs habsent hstate fun hpush => ?_
    refine acquireSender_of_dispatched hdispatched ?_
    simp [denying, hcompletion, hstate₀, hfull, hpush]
  · have hadopt := (quiet_modifyPeer t p (fun peer => peer.adoptToken token i.env.hrtime)
      fun _ h => h).trans (quiet_unlink _ .requesting p)
    dsimp only
    split
    · exact (hadopt.trans ((quiet_pushBack _ (by decide) p).trans
        ((quiet_note _ _).trans (quiet_sendChallenge _ _ p _)))).covered hs
    · exact (hadopt.trans (quiet_releasePeer (hadopt.absent habsent))).covered hs

theorem covered_recvFailed {datagram : Datagram} {packet : Option Packet} (h : Table s₀)
    (hsoft : SoftSame s₀ t) (hs : Covered t) (hdispatched : dispatched s₀ i = true)
    (hpacket : packet = none ∨ datagram.header.type = .keepAlive)
    (hcompletion : s₀.completion i = some (p, datagram, packet)) :
    Covered (recvFailed i.env t p datagram.header.type) := by
  cases htype : datagram.header.type with
  | request =>
      rcases hpacket with rfl | hkeepAlive
      · change Covered (recvRequestFailed i.env t p)
        unfold recvRequestFailed
        split
        · exact hs
        rename_i hstate
        rw [not_not] at hstate
        have hstate₀ : (s₀.peers p).state = .request := (hsoft.peers p).state.symm.trans hstate
        refine covered_denyPeer hs (hsoft.absent h (by rw [hstate]; decide)) hstate fun hpush => ?_
        refine acquireSender_of_dispatched hdispatched ?_
        simp [denying, hcompletion, hstate₀, htype, hpush]
      · exact absurd (htype.symm.trans hkeepAlive) (by decide)
  | denied => exact hs
  | challenge => exact hs
  | response => exact hs
  | keepAlive => exact hs
  | payload => exact hs
  | disconnect => exact hs

theorem covered_recvPacket {id : ReceiverId} {datagram : Datagram} {packet : Packet}
    (h : Table s₀) (hsoft : SoftSame s₀ t) (hs : Covered t)
    (hdispatched : dispatched s₀ i = true)
    (hcompletion : s₀.completion i = some (p, datagram, some packet)) :
    Covered (recvPacket i.env t p id datagram packet) := by
  cases packet with
  | payload data => exact (quiet_note t _).covered hs
  | request protocolId expireTimestamp token =>
      exact covered_recvRequest h hsoft hs hdispatched hcompletion
  | response tokenSequence token => exact (quiet_recvResponse (hsoft.absent h) token).covered hs
  | disconnect => exact (quiet_recvDisconnect (hsoft.absent h)).covered hs
  | keepAlive clientId => exact (quiet_recvKeepAlive t p clientId).covered hs
  | denied => exact hs
  | challenge tokenSequence token => exact hs

theorem covered_handleReceiverComplete {id : ReceiverId} {receiver : Receiver}
    {packet : Option Packet} (h : Table s₀) (hsoft : SoftSame s₀ t) (hs : Covered t)
    (hdispatched : dispatched s₀ i = true)
    (hpacket : ∀ clientId, packet = some (.keepAlive clientId) →
      receiver.datagram.header.type = .keepAlive)
    (hcompletion : s₀.completion i = some (p, receiver.datagram, packet)) :
    Covered (handleReceiverComplete i.env t p id receiver packet) := by
  unfold handleReceiverComplete
  split
  · exact hs
  dsimp only
  generalize hflag : (if receiver.datagram.header.type = .response then
      t.modifyPeer p fun peer =>
        { peer with flags := { peer.flags with processingResponse := false } }
    else t) = u
  have hu : Covered u ∧ SoftSame s₀ u := by
    rw [← hflag]
    split
    · exact ⟨(quiet_modifyPeer t p (fun peer =>
          { peer with flags := { peer.flags with processingResponse := false } })
          fun _ h => h).covered hs,
        hsoft.modifyPeer ⟨rfl, rfl, rfl, rfl, rfl, rfl, rfl, rfl, rfl, rfl⟩⟩
    · exact ⟨hs, hsoft⟩
  obtain ⟨hs, hsoft⟩ := hu
  cases packet with
  | none => exact covered_recvFailed h hsoft hs hdispatched (.inl rfl) hcompletion
  | some packet =>
      by_cases hvalid : u.validatePacket p packet = true
      · simp only [hvalid, if_true]
        refine covered_recvPacket h
          (hsoft.modifyPeer ⟨rfl, rfl, rfl, rfl, rfl, rfl, rfl, rfl, rfl, rfl⟩) ?_ hdispatched
          hcompletion
        exact (quiet_modifyPeer u p (fun peer => { peer with lastRecvTime := receiver.recvTime })
          fun _ h => h).covered hs
      · simp only [hvalid]
        refine covered_recvFailed h hsoft hs hdispatched (.inr ?_) hcompletion
        cases packet with
        | keepAlive clientId => exact hpacket clientId rfl
        | _ => exact absurd rfl hvalid

theorem covered_receiverComplete {id : ReceiverId} {workerFailed : Bool} (h : Table s₀)
    (hs : Covered s₀) (hrunning : s₀.state = .running) (hdispatched : dispatched s₀ i = true)
    (hevent : i.event = .receiverComplete id workerFailed) :
    Covered (receiverComplete i.env s₀ id workerFailed) := by
  unfold receiverComplete
  cases hreceiver : s₀.receivers id with
  | none => exact hs
  | some receiver =>
      have htake := quiet_setReceiver s₀ id none
      by_cases hcanceled : receiver.canceled = true
      · simp only [hcanceled, if_true]
        exact htake.covered hs
      dsimp only
      rw [if_neg hcanceled]
      cases hpeer : receiver.peer with
      | none => exact htake.covered hs
      | some p =>
          refine covered_handleReceiverComplete h
            (((SoftSame.refl s₀).setReceiver id none).modifyPeer
              ⟨rfl, rfl, rfl, rfl, rfl, rfl, rfl, rfl, rfl, rfl⟩) ?_ hdispatched ?_ ?_
          · exact (htake.trans (quiet_modifyPeer _ p (fun peer =>
              { peer with receivers := peer.receivers.erase id }) fun _ h => h)).covered hs
          · intro clientId hpacket
            split at hpacket
            · exact absurd hpacket (by simp)
            · exact type_of_processEntry hpacket
          · simp [completion, hevent, hreceiver, hrunning, hcanceled, hpeer]

theorem quiet_takeSender {id : SenderId} {sender : Sender} (hid : t.senders id = some sender)
    (hother : sender.canceled = true ∨ sender.type ≠ .denied) :
    Quiet t (t.setSender id none) := by
  refine ⟨fun _ h => h, fun hs => ⟨hs.own, ?_⟩, ?_⟩
  · intro id' sender' hsender hcanceled
    by_cases heq : id' = id
    · subst heq
      exact absurd hsender (by simp [setSender])
    · exact hs.shape id' sender' (by simpa [setSender, heq] using hsender) hcanceled
  · rintro - x - ⟨id', hid'⟩
    have hne : id' ≠ id := by
      rintro rfl
      obtain rfl := Option.some.inj (hid'.symm.trans hid)
      simp at hother
    exact ⟨id', by simpa [setSender, hne] using hid'⟩

theorem covered_sentDenied (id : SenderId) (h : Table t) (hs : Covered t) :
    Covered (sentDenied ((t.setSender id none).modifyPeer id.peer fun peer =>
      { peer with senders := peer.senders.erase id }) id.peer) := by
  set u := (t.setSender id none).modifyPeer id.peer fun peer =>
    { peer with senders := peer.senders.erase id } with hu
  have haccounted : Accounted u := by
    refine ⟨?_, ?_⟩
    · intro q id' hid'
      rw [hu, modifyPeer_peers] at hid'
      split at hid'
      · subst q
        exact hs.accounted.own _ id' (List.mem_of_mem_erase hid')
      · exact hs.accounted.own q id' hid'
    · intro id' sender' hsender hkept
      by_cases heq : id' = id
      · subst heq
        exact absurd hsender (by simp [hu, modifyPeer, setSender])
      · exact hs.accounted.shape id' sender'
          (by simpa [hu, modifyPeer, setSender, heq] using hsender) hkept
  have hothers : ∀ x ∈ t.lists .denied, x.peer ≠ id.peer → Sending u x.peer := by
    intro x hx hne
    obtain ⟨id', hid'⟩ := hs.sending x hx
    refine ⟨id', ?_⟩
    have hne' : id' ≠ id := by
      rintro rfl
      exact hne (Option.some.inj (hs.accounted.shape _ _ hid' rfl).1)
    simpa [hu, modifyPeer, setSender, hne'] using hid'
  have hpeer : (u.peers id.peer).state = (t.peers id.peer).state ∧
      (u.peers id.peer).entry = (t.peers id.peer).entry := by
    rw [hu, modifyPeer_peers, if_pos rfl]
    exact ⟨rfl, rfl⟩
  unfold sentDenied
  split
  · rename_i hstate
    refine ⟨haccounted, fun x hx => hothers x hx ?_⟩
    intro heq
    rw [hpeer.1, ← heq] at hstate
    exact hstate (h.member_state .denied x hx)
  · rename_i hstate
    rw [not_not, hpeer.1] at hstate
    replace hstate : (t.peers id.peer).state = PeerListName.denied.state := hstate
    obtain ⟨x, hentry, -, -⟩ := h.entry_of_state hstate
    have hunlink := quiet_unlink u .denied id.peer
    have hmem : ∀ y ∈ (u.unlink .denied id.peer).lists .denied,
        y ∈ t.lists .denied ∧ y.peer ≠ id.peer := by
      intro y hy
      rw [unlink_eq .denied (hpeer.2.trans hentry)] at hy
      exact (h.mem_erase_iff hstate hentry).mp hy
    have hcovered : Covered (u.unlink .denied id.peer) := by
      refine ⟨hunlink.accounted haccounted, fun y hy => ?_⟩
      exact hunlink.sending haccounted y hy (hothers y (hmem y hy).1 (hmem y hy).2)
    exact (quiet_releasePeer fun y hy => (hmem y hy).2).covered hcovered

/-- A sender completes; that of a Denied packet did not fail. -/
theorem covered_senderComplete {id : SenderId} {failed : Bool} (h : Table t) (hs : Covered t)
    (hrunning : t.state = .running)
    (hdelivered : failed = true → ∀ sender, t.senders id = some sender →
      sender.canceled = true ∨ sender.type ≠ .denied) :
    Covered (senderComplete t id failed) := by
  unfold senderComplete
  cases hid : t.senders id with
  | none => exact hs
  | some sender =>
      dsimp only
      by_cases hother : sender.canceled = true ∨ sender.type ≠ .denied
      · have htake := quiet_takeSender hid hother
        split
        · exact htake.covered hs
        cases sender.peer with
        | none => exact htake.covered hs
        | some p =>
            have herase := htake.trans (quiet_modifyPeer _ p (fun peer =>
              { peer with senders := peer.senders.erase id }) fun _ h => List.mem_of_mem_erase h)
            have htype := hother.resolve_left ‹_›
            dsimp only
            rw [if_neg htype, ite_self, ite_self]
            exact herase.covered hs
      · rw [not_or, not_not, Bool.not_eq_true] at hother
        obtain ⟨hcanceled, htype⟩ := hother
        have hpeer := (hs.accounted.shape id sender hid hcanceled).1
        have hsuccess : failed ≠ true := by
          intro hfailed
          rcases hdelivered hfailed sender hid with hno | hno
          · exact absurd (hcanceled.symm.trans hno) (by decide)
          · exact hno htype
        rw [if_neg (by simp [hcanceled]), hpeer]
        dsimp only
        have hstill : ((t.setSender id none).modifyPeer id.peer fun peer =>
            { peer with senders := peer.senders.erase id }).state = .running := hrunning
        rw [if_neg (not_not.mpr hstill), if_neg hsuccess, if_pos htype]
        exact covered_sentDenied id h hs

end Completions

section Runs

variable {s : Server} {p : PeerId}

theorem running_of_step (h : Table s) (hn : Named s) (i : Input)
    (hrunning : (step s i).state = .running) : s.state = .running := by
  refine invariant_step (I := fun t => t.state = .running → s.state = .running) h hn i
    (fun hstate => hstate) ?_ hrunning
  intro t a _ _ ht _ hstate
  rcases (settings_act i.env t a).state with hsame | ⟨-, hstopping⟩ | hstopped
  · exact ht (hsame.symm.trans hstate)
  · exact absurd (hstopping.symm.trans hstate) (by decide)
  · exact absurd (hstopped.symm.trans hstate) (by decide)

theorem covered_step (h : Table s) (hn : Named s) {i : Input} (hsent : sent s i = true)
    (hs : s.state = .running → Covered s) :
    (step s i).state = .running → Covered (step s i) := by
  intro hstill
  have hrunning := running_of_step h hn i hstill
  have hcovered : Covered s.ticked :=
    ⟨⟨(hs hrunning).accounted.own, (hs hrunning).accounted.shape⟩, (hs hrunning).sending⟩
  simp only [sent, hrunning, ne_eq, not_true_eq_false, decide_false, Bool.false_or,
    Bool.and_eq_true] at hsent
  obtain ⟨hdispatched, hdelivered⟩ := hsent
  have hticked := h.ticked
  unfold step handle at hstill ⊢
  cases hevent : i.event with
  | accept address datagram =>
      refine (quiet_accept ?_ address datagram).covered hcovered
      intro x hx
      exact Nat.ne_of_lt (Nat.lt_succ_of_le (h.named .denied x hx))
  | receiverComplete id workerFailed =>
      exact covered_receiverComplete hticked hcovered hrunning hdispatched hevent
  | senderComplete id failed =>
      refine covered_senderComplete hticked hcovered hrunning ?_
      rintro rfl sender hid
      have hid' : s.senders id = some sender := hid
      simpa [delivered, hevent, hid'] using hdelivered
  | send p views => exact (quiet_socketSend i.env _ p views).covered hcovered
  | disconnectPeer p => exact (quiet_disconnectPeer hticked).covered hcovered
  | keepAliveTick =>
      exact (hticked.quiet_loop .connected (by decide)
        fun _ x => quiet_keepAliveEntry x).covered hcovered
  | disconnectTick =>
      exact (hticked.quiet_loop .disconnecting (by decide)
        fun _ x => quiet_disconnectEntry x).covered hcovered
  | scanTick =>
      exact (hticked.quiet_loop .challenging (by decide)
        fun _ x => quiet_scanEntry x).covered hcovered
  | stop =>
      rw [hevent] at hstill
      simp [socketStop, hrunning] at hstill
  | stopDeferred =>
      dsimp only
      rw [if_neg (by simp [hrunning])]
      exact hcovered
  | idle => exact hcovered

/-- The peer was denied, and it may have been released since. -/
structure Parted (s : Server) (p : PeerId) : Prop where
  named : p ≤ s.tick
  state : (s.peers p).state = .denied ∨ ∀ name : PeerListName, (s.peers p).state ≠ name.state

theorem Table.parted (h : Table s) {x : PeerEntry} (hx : x ∈ s.lists .denied) :
    Parted s x.peer := ⟨h.named .denied x hx, .inl (h.member_state .denied x hx)⟩

theorem Parted.step (h : Table s) (hn : Named s) (hp : Parted s p) (i : Input) :
    Parted (step s i) p := by
  have hall : p < (Server.step s i).tick ∧ (((Server.step s i).peers p).state = .denied ∨
      ∀ name : PeerListName, ((Server.step s i).peers p).state ≠ name.state) := by
    refine invariant_step (I := fun t => p < t.tick ∧ ((t.peers p).state = .denied ∨
      ∀ name : PeerListName, (t.peers p).state ≠ name.state)) h hn i
      ⟨Nat.lt_succ_of_le hp.named, hp.state⟩ ?_
    rintro t a _ _ ⟨hnamed, hstate⟩ ha
    have hnot : ∀ name : PeerListName, name ≠ .denied → (t.peers p).state ≠ name.state := by
      intro name hname heq
      rcases hstate with hdenied | hno
      · exact hname (state_injective (heq.symm.trans hdenied))
      · exact hno name heq
    refine ⟨(act_tick i.env t a).symm ▸ hnamed, ?_⟩
    have hchange := change_of_act ha p
    generalize (Server.act i.env t a).peers p = y at hchange ⊢
    cases hchange with
    | kept _ _ hsame => exact hsame ▸ hstate
    | pass _ _ hvalue =>
        subst hvalue
        exact hstate
    | own _ _ hsame => exact hsame ▸ hstate
    | acquire _ hname => exact absurd hname (Nat.ne_of_lt hnamed)
    | grant _ hbefore => exact absurd hbefore (hnot .requesting (by decide))
    | moved _ _ hmove =>
        rcases hmove with ⟨hbefore, -⟩ | ⟨hbefore, -⟩ | ⟨hbefore, -⟩
        · exact absurd hbefore (hnot .requesting (by decide))
        · exact absurd hbefore (hnot .challenging (by decide))
        · exact absurd hbefore (hnot .connected (by decide))
    | released _ hreleased =>
        right
        intro name heq
        exact state_ne_disconnected name (heq.symm.trans hreleased)
  exact ⟨hall.1.le, hall.2⟩

theorem Parted.run (hs : Sound s) (hp : Parted s p) (is : List Input) :
    Parted (Machine.run Server.step s is) p := by
  induction is generalizing s with
  | nil => exact hp
  | cons i is ih => exact ih (hs.step i) (hp.step hs.table hs.named i)

end Runs

theorem denialsEnd_of_sent (o : ServerOptions) (is : List Input)
    (h : Along step (fun s i => sent s i = true) (start o) is) : DenialsEnd o is := by
  rintro before after ⟨rest, rfl⟩ hrunning x hx hended
  rw [along_append] at h
  have hstart : (start o).state = .running → Covered (start o) := fun _ =>
    ⟨⟨by simp [start, Peer.zero], by simp [start]⟩, by simp [start]⟩
  have hcovered : Sound (run step (start o) (before ++ after)) ∧
      ((run step (start o) (before ++ after)).state = .running →
        Covered (run step (start o) (before ++ after))) := by
    refine invariant_run (I := fun s => Sound s ∧ (s.state = .running → Covered s)) ?_
      ⟨sound_start o, hstart⟩ h.1
    rintro s i ⟨hsound, hs⟩ hsent
    exact ⟨hsound.step i, covered_step hsound.table hsound.named hsent hs⟩
  obtain ⟨hsound, hcovered⟩ := hcovered
  have hgone : ∀ y ∈ (run step (start o) (before ++ after)).lists .denied, y.peer ≠ x.peer := by
    intro y hy heq
    exact hended (heq ▸ (hcovered hrunning).sending y hy)
  have hparted : Parted (run step (start o) (before ++ after)) x.peer := by
    rw [run_append]
    have hbefore := sound_run o before
    exact (hbefore.table.parted hx).run hbefore after
  refine ⟨hgone, ?_⟩
  intro a ha
  obtain ⟨-, name, hname⟩ := hsound.table.mapped a x.peer ha
  have hdenied : ((run step (start o) (before ++ after)).peers x.peer).state =
      PeerListName.denied.state := hparted.state.resolve_right fun hno => hno name hname
  obtain ⟨y, hy, hpeer⟩ := hsound.table.listed x.peer .denied hdenied
  exact hgone y hy hpeer

/-- A server without room for a client. -/
def fullOptions : ServerOptions where
  privateKey := 1
  challengeKey := 2
  maxClients := 0
  protocolId := 7
  payloadCapacity := 1000

/-- Every pool has an element. -/
def readyEnv : Env where
  hrtime := 0
  now := 0
  acquirePeer := true
  pushEntry := true
  acquireReceiver := true
  acquirePacket := fun _ _ => true
  acquireSender := fun _ _ => true
  leftover := 0

/-- The server denies a request. -/
def denial : List Input :=
  [⟨readyEnv, .accept (.ipv4 1 1)
      (.request 0 ⟨true, 7, 100, 0, .encrypted 1 0 ⟨7, 100⟩ ⟨3, 10, [], 4, 5, 6⟩⟩)⟩,
    ⟨readyEnv, .receiverComplete 1 false⟩]

/-- The sender of the denial completes after the given answers. -/
def denialSent (r : SenderAnswers) : List Input :=
  [⟨readyEnv, .senderComplete ⟨2, 1, .denied⟩ (senderFailed r)⟩]

end Server

namespace MappedServer

/-- The peer is neither in the list of denied peers nor in the address map. -/
structure Gone (m : MappedServer) (p : PeerId) : Prop where
  denied : ∀ x ∈ m.server.lists .denied, x.peer ≠ p
  mapped : ∀ bucket < m.addressMap.nbuckets,
    ∀ e ∈ (m.addressMap.buckets bucket).elements, e.value ≠ p

/-- While the server runs, every peer that was put into the list of denied peers and whose Denied
packet is not in flight any more is gone. -/
def DenialsEnd (overLoad : ℕ → ℕ → Bool) (o : ServerOptions) (is : List Input) : Prop :=
  ∀ before after, before ++ after <+: is →
    (run step (start overLoad o) (before ++ after)).server.state = .running →
      ∀ x ∈ (run step (start overLoad o) before).server.lists .denied,
        ¬ (run step (start overLoad o) (before ++ after)).server.Sending x.peer →
          Gone (run step (start overLoad o) (before ++ after)) x.peer

/-- While no Denied packet is lost and no growth of the address map displaces an entry, every denied
peer is released when its Denied packet was sent. -/
theorem denialsEnd_run (overLoad : ℕ → ℕ → Bool) (o : ServerOptions) (is : List Input)
    (h : Along step (fun m i => m.server.sent i = true ∧ m.keepsPlaces i) (start overLoad o) is) :
    DenialsEnd overLoad o is := by
  rintro before after ⟨rest, rfl⟩ hrunning x hx hended
  rw [along_append] at h
  have hstart := represented_start overLoad o
  obtain ⟨hrun, hrepresented, hsent⟩ :=
    run_server (P := fun s i => s.sent i = true) hstart h.1
  obtain ⟨hbefore, -, -⟩ :=
    run_server (P := fun s i => s.sent i = true) hstart ((along_append _ _ _ _ _).mp h.1).1
  rw [server_start] at hrun hbefore hsent
  have hgone : Server.Gone (run step (start overLoad o) (before ++ after)).server x.peer := by
    rw [hbefore] at hx
    rw [hrun] at hrunning hended ⊢
    exact Server.denialsEnd_of_sent o _ hsent before after List.prefix_rfl hrunning x hx hended
  refine ⟨hgone.denied, fun bucket hbucket e he heq => ?_⟩
  exact hgone.mapped e.key (heq ▸ hrepresented.mapped_of_mem hbucket he)

open Server

theorem denialsEnd_sent :
    DenialsEnd defaultOverLoad fullOptions (denial ++ denialSent ⟨true, true, true, true, true⟩) :=
  denialsEnd_run _ _ _ (by decide +kernel)

/-- A denied peer whose packet the adapter refuses stays denied. -/
theorem not_denialsEnd_refused :
    ¬ DenialsEnd defaultOverLoad fullOptions
      (denial ++ denialSent ⟨true, true, true, true, false⟩) := by
  intro hend
  have hplaces : Along step (fun m i => True ∧ m.keepsPlaces i) (start defaultOverLoad fullOptions)
      (denial ++ denialSent ⟨true, true, true, true, false⟩) := by
    decide +kernel
  obtain ⟨hrun, -, -⟩ := run_server (P := fun _ _ => True) (represented_start _ _) hplaces
  rw [server_start] at hrun
  have hnone : ∀ id, (run Server.step (Server.start fullOptions)
      (denial ++ denialSent ⟨true, true, true, true, false⟩)).senders id = none := by
    intro id
    change Function.update (Function.update (fun _ => none) (⟨2, 1, .denied⟩ : SenderId) _)
      ⟨2, 1, .denied⟩ none id = (none : Option Sender)
    by_cases hid : id = ⟨2, 1, .denied⟩
    · subst hid
      exact Function.update_self ..
    · rw [Function.update_of_ne hid, Function.update_of_ne hid]
  have hgone := hend denial (denialSent ⟨true, true, true, true, false⟩) (List.prefix_refl _)
    (by decide +kernel) ⟨2, 1⟩ (by decide +kernel) fun ⟨id, hid⟩ => by
      rw [hrun, hnone id] at hid
      cases hid
  exact hgone.denied ⟨2, 1⟩ (by decide +kernel) rfl

end MappedServer

end Protocol

end PomeloUdp
