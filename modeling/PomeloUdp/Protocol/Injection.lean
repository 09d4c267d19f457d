import PomeloUdp.Protocol.Genuine
import PomeloUdp.Protocol.ServerStep

/-!
# A server with and without injected datagrams

The same events reach a server twice, once with datagrams that an attacker injects and once
without them. `pomelo_protocol_server_validate` changes the server before a datagram is known to
be authentic: it writes the replay protector of a connected peer, acquires a peer for a request
and lets one response at a time through. `Hides` relates the two servers as long as no genuine
datagram meets a change of that kind: the second has neither the peers nor the receivers that
injected datagrams made. A write on either side keeps it.
-/

namespace PomeloUdp

namespace Protocol

open Machine

/-- An input, and whether it injects a datagram. -/
structure Marked (ι : Type) where
  injected : Bool
  input : ι

/-- Whether the step with that number injects a datagram. -/
def injectedSteps {ι : Type} (es : List (Marked ι)) : ℕ → Bool
  | 0 => false
  | n + 1 => es[n]?.any Marked.injected

/-- Replay protection refuses a sequence number. -/
def ReplayProtector.refuses (r : ReplayProtector) (sequence : UInt64) : Bool :=
  r.tooOld sequence || !r.slotFree sequence

theorem ReplayProtector.protectReplay_refused {r : ReplayProtector} {sequence : UInt64}
    (h : r.refuses sequence = true) : (r.protectReplay sequence).2 = false := by
  unfold refuses at h
  unfold protectReplay
  split
  · rfl
  rename_i hold
  split
  · rename_i hfree
    simp [hold, hfree] at h
  · rfl

namespace Peer

/-- A peer without the receivers of injected datagrams. -/
def hide (I : ℕ → Bool) (peer : Peer) : Peer :=
  { peer with
    receivers := peer.receivers.filter fun id => !I id
    flags := { peer.flags with
      processingResponse :=
        peer.flags.processingResponse && (peer.receivers.filter I).isEmpty } }

variable (I : ℕ → Bool) (peer : Peer)

@[simp] theorem hide_state : (peer.hide I).state = peer.state := rfl

@[simp] theorem hide_clientId : (peer.hide I).clientId = peer.clientId := rfl

@[simp] theorem hide_userData : (peer.hide I).userData = peer.userData := rfl

@[simp] theorem hide_confirmed : (peer.hide I).flags.confirmed = peer.flags.confirmed := rfl

@[simp] theorem hide_sequenceNumber : (peer.hide I).sequenceNumber = peer.sequenceNumber := rfl

@[simp] theorem hide_replayProtector : (peer.hide I).replayProtector = peer.replayProtector := rfl

theorem hide_erase {id : ReceiverId} (hid : I id = false) :
    { peer.hide I with receivers := (peer.hide I).receivers.erase id } =
      hide I { peer with receivers := peer.receivers.erase id } := by
  have hinjected : (peer.receivers.erase id).filter I = peer.receivers.filter I := by
    rw [← List.erase_filter]
    refine List.erase_of_not_mem ?_
    simp [hid]
  unfold hide
  dsimp only
  rw [hinjected, List.erase_filter]

end Peer
namespace Server

section Runs

variable (I : ℕ → Bool) (s : Server)

/-- The payload, keep-alive or disconnect packet that a step lets through, with its peer. -/
def passing (i : Input) : Option (PeerId × Datagram) :=
  match i.event with
  | .accept address datagram =>
      if datagram.header.type.isProtected then
        (validateIncoming i.env s.ticked address datagram).2.map fun p => (p, datagram)
      else none
  | _ => none

/-- A step, and the genuine packet it lets through. -/
def withInjected (e : Marked Input) : Server × Option (PeerId × Datagram) :=
  (step s e.input, if e.injected then none else s.passing e.input)

/-- A step in which nothing happens if it injects a datagram. -/
def withoutInjected (e : Marked Input) : Server × Option (PeerId × Datagram) :=
  if e.injected then (step s ⟨e.input.env, .idle⟩, none) else (step s e.input, s.passing e.input)

/-- An injected datagram gets no receiver, or one whose decryption fails. -/
def forged (e : Marked Input) : Bool :=
  !e.injected ||
    match e.input.event with
    | .accept _ _ =>
        ((step s e.input).receivers (s.tick + 1)).all fun r =>
          (processEntry r.cryptoCtx r.datagram).isNone
    | _ => false

/-- The packet, if it is under replay protection, is of no connected peer, or replay protection
refuses it. -/
def refuses (address : Address) (datagram : Datagram) : Bool :=
  !datagram.header.type.isProtected || decide (s.state ≠ .running) ||
    !datagram.validateBodyLength ||
      (s.peerAddressMap address).all fun p =>
        decide ((s.peers p).state ≠ .connected) ||
          (s.peers p).replayProtector.refuses datagram.header.sequence

/-- A genuine datagram does not meet what an injected one left: at its address the peer of a
request, or in its peer a response that is not decrypted yet. -/
def unhindered (env : Env) (address : Address) (datagram : Datagram) : Bool :=
  if s.state ≠ .running then true
  else if ¬ datagram.validateBodyLength then true
  else
    match datagram with
    | .request _ body =>
        decide (body.protocolId ≠ s.protocolId) || !env.acquirePeer ||
          (s.peerAddressMap address).all fun p => !I p
    | .packet header _ =>
        decide (header.type ≠ .response) ||
          (s.peerAddressMap address).all fun p =>
            decide ((s.peers p).state ≠ .challenge) || ((s.peers p).receivers.filter I).isEmpty

/-- Replay protection refuses an injected datagram, and a genuine one is not hindered. -/
def harmless (e : Marked Input) : Bool :=
  match e.input.event with
  | .accept address datagram =>
      if e.injected then s.refuses address datagram
      else s.unhindered I e.input.env address datagram
  | _ => true

/-- A datagram is injected, or the receiver of an injected one completes. -/
def handlesInjected (e : Marked Input) : Bool :=
  e.injected ||
    match e.input.event with
    | .receiverComplete id _ => I id
    | _ => false

/-- The same genuine packets pass, and injected datagrams do not change the replay protector of
a peer that a genuine request made. -/
def Unaffected (es : List (Marked Input)) : Prop :=
  outputs withInjected s es = outputs withoutInjected s es ∧
    Along (next withInjected) (fun s e => handlesInjected I e = true → ∀ p, I p = false →
      ((step s e.input).peers p).replayProtector = (s.peers p).replayProtector) s es

end Runs

theorem validateIncoming_refused {s : Server} (env : Env) {address : Address} {datagram : Datagram}
    (hrefuses : s.refuses address datagram = true)
    (hprotected : datagram.header.type.isProtected = true) :
    (validateIncoming env s address datagram).2 = none := by
  unfold refuses at hrefuses
  unfold validateIncoming
  split
  · rfl
  rename_i hrunning
  split
  · rfl
  rename_i hlength
  cases datagram with
  | request _ _ => cases hprotected
  | packet header body =>
      change header.type.isProtected = true at hprotected
      dsimp only
      unfold validatePacketOf
      cases hmapped : s.peerAddressMap address with
      | none => rfl
      | some p =>
          have hrejects : (s.peers p).state = .connected →
              ((s.peers p).protectReplay header.sequence).2 = false := by
            intro hstate
            refine ReplayProtector.protectReplay_refused ?_
            rw [not_not] at hrunning hlength
            simpa [Datagram.header, hprotected, hrunning, hlength, hmapped, hstate] using hrefuses
          have hprotect : (if (s.peers p).state ≠ .connected then (s, none)
              else
                let r := (s.peers p).protectReplay header.sequence
                (s.modifyPeer p fun _ => r.1, if r.2 then some p else none)).2 = none := by
            split
            · rfl
            · rename_i hstate
              exact if_neg (by simp [hrejects (not_not.mp hstate)])
          cases htype : header.type with
          | payload => exact hprotect
          | keepAlive => exact hprotect
          | disconnect => exact hprotect
          | response =>
              rw [htype] at hprotected
              cases hprotected
          | _ => rfl

/-- What no injected datagram changes. -/
def fixed (s : Server) : SocketState × Key × Key × ℕ × UInt64 × ℕ × UInt64 × ℕ :=
  (s.state, s.privateKey, s.challengeKey, s.maxClients, s.protocolId, s.payloadCapacity,
    s.challengeSequenceNumber, s.tick)

/-- The receiver of an injected datagram fails, and belongs to the peer of an injected request or
is a response of a genuine peer. -/
def Pending (I : ℕ → Bool) (s : Server) (id : ReceiverId) (r : Receiver) : Prop :=
  processEntry r.cryptoCtx r.datagram = none ∧ ∃ p, r.peer = some p ∧
    (I p = true ∧ r.datagram.header.type = .request ∨
      I p = false ∧ r.datagram.header.type = .response ∧ id ∈ (s.peers p).receivers)

theorem Pending.of_listed {I : ℕ → Bool} {s t : Server} {id : ReceiverId} {r : Receiver}
    (h : Pending I s id r)
    (hlisted : ∀ p, r.peer = some p → I p = false → id ∈ (s.peers p).receivers →
      id ∈ (t.peers p).receivers) : Pending I t id r := by
  obtain ⟨hnone, p, hp, hkind⟩ := h
  refine ⟨hnone, p, hp, ?_⟩
  rcases hkind with hghost | ⟨hgenuine, htype, hmem⟩
  · exact .inl hghost
  · exact .inr ⟨hgenuine, htype, hlisted p hp hgenuine hmem⟩

/-- `d` is `s` without the peers and receivers that injected datagrams made. Their numbers are
those of the steps `I`. -/
structure Hides (I : ℕ → Bool) (s d : Server) : Prop where
  fixed : d.fixed = s.fixed
  peers : ∀ p, I p = false → d.peers p = (s.peers p).hide I
  unborn : ∀ p, I p = true → (d.peers p).state = .disconnected
  map : ∀ a, d.peerAddressMap a = (s.peerAddressMap a).filter fun p => !I p
  lists : ∀ name, d.lists name = (s.lists name).filter fun x => !I x.peer
  senders : ∀ id, d.senders id = if I id.peer then none else s.senders id
  receivers : ∀ id, d.receivers id = if I id then none else s.receivers id
  ghostState : ∀ p, I p = true → (s.peers p).state = .request ∨ (s.peers p).state = .denied ∨
    (s.peers p).state = .disconnected
  ghostEntry : ∀ p x, I p = true → (s.peers p).entry = some x → I x.peer = true
  ghostList : ∀ name, name ≠ .requesting → name ≠ .denied → ∀ x ∈ s.lists name, I x.peer = false
  ghostReceivers : ∀ p, I p = true → ∀ id ∈ (s.peers p).receivers, I id = true
  ghostSenders : ∀ p, I p = true → ∀ id ∈ (s.peers p).senders, I id.peer = true
  senderPeer : ∀ id sender p, s.senders id = some sender → sender.peer = some p → p = id.peer
  owned : ∀ id r p, I id = false → s.receivers id = some r → r.canceled = false →
    r.peer = some p → I p = false
  pending : ∀ id r, I id = true → s.receivers id = some r → r.canceled = false → Pending I s id r

section Release

variable (t : Server) (p : PeerId)

theorem releasePeer_fixed : (t.releasePeer p).fixed = t.fixed := by
  unfold releasePeer
  simp only [cancelSendersAndReceivers, Function.update_self]
  cases (t.peers p).address <;> rfl

theorem releasePeer_addressMap : (t.releasePeer p).peerAddressMap =
    match (t.peers p).address with
    | none => t.peerAddressMap
    | some a => Function.update t.peerAddressMap a none := by
  unfold releasePeer
  simp only [cancelSendersAndReceivers, Function.update_self]
  cases (t.peers p).address <;> rfl

theorem releasePeer_receivers (id : ReceiverId) : (t.releasePeer p).receivers id =
    if id ∈ (t.peers p).receivers then
      (t.receivers id).map fun receiver => { receiver with peer := none, canceled := true }
    else t.receivers id := by
  unfold releasePeer
  simp only [cancelSendersAndReceivers, Function.update_self]
  cases (t.peers p).address <;> rfl

variable {t p}

theorem sender_of_releasePeer {id : SenderId} {sender : Sender} {q : PeerId}
    (hsender : (t.releasePeer p).senders id = some sender) (hq : sender.peer = some q) :
    ∃ sender', t.senders id = some sender' ∧ sender'.peer = some q := by
  rw [releasePeer_senders] at hsender
  split at hsender
  · obtain ⟨sender', -, rfl⟩ := Option.map_eq_some_iff.mp hsender
    cases hq
  · exact ⟨sender, hsender, hq⟩

theorem receiver_of_releasePeer {id : ReceiverId} {r : Receiver}
    (hr : (t.releasePeer p).receivers id = some r) (hcanceled : r.canceled = false) :
    t.receivers id = some r ∧ id ∉ (t.peers p).receivers := by
  rw [releasePeer_receivers] at hr
  split at hr
  · obtain ⟨r', -, rfl⟩ := Option.map_eq_some_iff.mp hr
    cases hcanceled
  · exact ⟨hr, by assumption⟩

end Release

section Genuine

variable {I : ℕ → Bool} {s d : Server} {p : PeerId} {env : Env}

theorem Hides.state (h : Hides I s d) : d.state = s.state := congrArg (·.1) h.fixed

theorem Hides.tick (h : Hides I s d) : d.tick = s.tick :=
  congrArg (·.2.2.2.2.2.2.2) h.fixed

theorem Hides.modifyPeer (h : Hides I s d) (hp : I p = false) {f g : Peer → Peer}
    (hf : g (d.peers p) = (f (s.peers p)).hide I)
    (hkept : ∀ id r, s.receivers id = some r → I id = true → id ∈ (s.peers p).receivers →
      id ∈ (f (s.peers p)).receivers) :
    Hides I (s.modifyPeer p f) (d.modifyPeer p g) := by
  have hghost : ∀ q, I q = true → (s.modifyPeer p f).peers q = s.peers q := by
    intro q hq
    refine Function.update_of_ne ?_ _ _
    rintro rfl
    rw [hp] at hq
    cases hq
  refine { h with peers := ?_, unborn := ?_, ghostState := ?_, ghostEntry := ?_,
                  ghostReceivers := ?_, ghostSenders := ?_, pending := ?_ }
  · intro q hq
    by_cases hqp : q = p
    · subst hqp
      simpa [Server.modifyPeer] using hf
    · simpa [Server.modifyPeer, Function.update_of_ne hqp] using h.peers q hq
  · intro q hq
    have hqp : q ≠ p := by
      rintro rfl
      rw [hp] at hq
      cases hq
    simpa [Server.modifyPeer, Function.update_of_ne hqp] using h.unborn q hq
  · intro q hq
    rw [hghost q hq]
    exact h.ghostState q hq
  · intro q x hq
    rw [hghost q hq]
    exact h.ghostEntry q x hq
  · intro q hq
    rw [hghost q hq]
    exact h.ghostReceivers q hq
  · intro q hq
    rw [hghost q hq]
    exact h.ghostSenders q hq
  · intro id r hid hr hcanceled
    refine (h.pending id r hid hr hcanceled).of_listed fun q _ _ hmem => ?_
    by_cases hqp : q = p
    · subst hqp
      simpa [Server.modifyPeer] using hkept id r hr hid hmem
    · simpa [Server.modifyPeer, Function.update_of_ne hqp] using hmem

theorem Hides.writePeer (h : Hides I s d) (hp : I p = false) {f : Peer → Peer}
    (hf : ∀ peer, f (peer.hide I) = (f peer).hide I)
    (hreceivers : ∀ peer, (f peer).receivers = peer.receivers) :
    Hides I (s.modifyPeer p f) (d.modifyPeer p f) := by
  refine h.modifyPeer hp ?_ fun id _ _ _ hmem => ?_
  · rw [h.peers p hp, hf]
  · rw [hreceivers]
    exact hmem

theorem Hides.note (h : Hides I s d) (effect effect' : Effect) :
    Hides I (s.note effect) (d.note effect') := { h with }

theorem Hides.takeAnonymous (h : Hides I s d) : Hides I s.takeAnonymous d.takeAnonymous :=
  { h with }

theorem Hides.takeChallenge (h : Hides I s d) : Hides I s.takeChallenge d.takeChallenge := by
  refine { h with fixed := ?_ }
  have hfixed := h.fixed
  simp only [Server.fixed, Prod.mk.injEq] at hfixed
  simp [Server.fixed, Server.takeChallenge, hfixed]

theorem Hides.setSender (h : Hides I s d) {id : SenderId} (hid : I id.peer = false)
    {sender : Option Sender} (hpeer : ∀ r q, sender = some r → r.peer = some q → q = id.peer) :
    Hides I (s.setSender id sender) (d.setSender id sender) := by
  refine { h with senders := ?_, senderPeer := ?_ }
  · intro id'
    by_cases heq : id' = id
    · subst heq
      simp [Server.setSender, hid]
    · simpa [Server.setSender, Function.update_of_ne heq] using h.senders id'
  · intro id' r q hr
    by_cases heq : id' = id
    · subst heq
      exact hpeer r q (by simpa [Server.setSender] using hr)
    · exact h.senderPeer id' r q (by simpa [Server.setSender, Function.update_of_ne heq] using hr)

theorem Hides.setReceiver (h : Hides I s d) {id : ReceiverId} (hid : I id = false)
    {receiver : Option Receiver}
    (hpeer : ∀ r q, receiver = some r → r.peer = some q → I q = false) :
    Hides I (s.setReceiver id receiver) (d.setReceiver id receiver) := by
  refine { h with receivers := ?_, owned := ?_, pending := ?_ }
  · intro id'
    by_cases heq : id' = id
    · subst heq
      simp [Server.setReceiver, hid]
    · simpa [Server.setReceiver, Function.update_of_ne heq] using h.receivers id'
  · intro id' r q hid' hr
    by_cases heq : id' = id
    · subst heq
      exact fun _ => hpeer r q (by simpa [Server.setReceiver] using hr)
    · exact h.owned id' r q hid'
        (by simpa [Server.setReceiver, Function.update_of_ne heq] using hr)
  · intro id' r hid' hr
    have heq : id' ≠ id := by
      rintro rfl
      rw [hid] at hid'
      cases hid'
    exact h.pending id' r hid' (by simpa [Server.setReceiver, Function.update_of_ne heq] using hr)

theorem Hides.removeEntry (h : Hides I s d) (name : PeerListName) (x : PeerEntry) :
    Hides I (s.removeEntry name x) (d.removeEntry name x) := by
  refine { h with lists := ?_, ghostList := ?_ }
  · intro name'
    by_cases heq : name' = name
    · subst heq
      simp [Server.removeEntry, h.lists name', List.erase_filter]
    · simpa [Server.removeEntry, Function.update_of_ne heq] using h.lists name'
  · intro name' hrequesting hdenied y hy
    refine h.ghostList name' hrequesting hdenied y ?_
    by_cases heq : name' = name
    · subst heq
      exact List.mem_of_mem_erase (by simpa [Server.removeEntry] using hy)
    · simpa [Server.removeEntry, Function.update_of_ne heq] using hy

theorem Hides.unlink (h : Hides I s d) (hp : I p = false) (name : PeerListName) :
    Hides I (s.unlink name p) (d.unlink name p) := by
  have hentry : (d.peers p).entry = (s.peers p).entry := by
    rw [h.peers p hp]
    rfl
  unfold Server.unlink
  rw [hentry]
  split
  · exact h
  · exact h.removeEntry name _

theorem Hides.pushBack (h : Hides I s d) (hp : I p = false) (name : PeerListName) :
    Hides I (s.pushBack name p) (d.pushBack name p) := by
  have hwritten : Hides I
      (s.modifyPeer p fun peer => { peer with entry := some ⟨s.tick, p⟩, state := name.state })
      (d.modifyPeer p fun peer => { peer with entry := some ⟨d.tick, p⟩, state := name.state }) :=
    h.modifyPeer hp (by rw [h.peers p hp, h.tick]; rfl) fun _ _ _ _ hmem => hmem
  refine { hwritten with lists := ?_, ghostList := ?_ }
  · intro name'
    by_cases heq : name' = name
    · subst heq
      simp [Server.pushBack, h.lists name', h.tick, hp]
    · simpa [Server.pushBack, Function.update_of_ne heq] using h.lists name'
  · intro name' hrequesting hdenied y hy
    by_cases heq : name' = name
    · subst heq
      have hmem : y ∈ s.lists name' ∨ y = ⟨s.tick, p⟩ := by simpa [Server.pushBack] using hy
      rcases hmem with hy | rfl
      · exact h.ghostList name' hrequesting hdenied y hy
      · exact hp
    · exact h.ghostList name' hrequesting hdenied y
        (by simpa [Server.pushBack, Function.update_of_ne heq] using hy)

theorem Hides.releasePeer (h : Hides I s d) (hp : I p = false) :
    Hides I (s.releasePeer p) (d.releasePeer p) := by
  have hpeer := h.peers p hp
  have hghost : ∀ q, I q = true → q ≠ p := by
    rintro q hq rfl
    rw [hp] at hq
    cases hq
  have haddress : (d.peers p).address = (s.peers p).address := by
    rw [hpeer]
    rfl
  constructor
  · rw [releasePeer_fixed, releasePeer_fixed]
    exact h.fixed
  · intro q hq
    rw [releasePeer_peers, releasePeer_peers]
    split
    · rw [hpeer]
      rfl
    · exact h.peers q hq
  · intro q hq
    rw [releasePeer_peers, if_neg (hghost q hq)]
    exact h.unborn q hq
  · intro a
    rw [releasePeer_addressMap, releasePeer_addressMap, haddress]
    cases (s.peers p).address with
    | none => exact h.map a
    | some b =>
        by_cases hab : a = b
        · subst hab
          simp
        · simpa [Function.update_of_ne hab] using h.map a
  · rw [releasePeer_lists, releasePeer_lists]
    exact h.lists
  · intro id
    have hsenders : (d.peers p).senders = (s.peers p).senders := by
      rw [hpeer]
      rfl
    rw [releasePeer_senders, releasePeer_senders, hsenders, h.senders]
    by_cases hid : I id.peer = true
    · simp [hid]
    · simp [hid]
  · intro id
    have hreceivers : (d.peers p).receivers = (s.peers p).receivers.filter fun id => !I id := by
      rw [hpeer]
      rfl
    rw [releasePeer_receivers, releasePeer_receivers, hreceivers, h.receivers]
    by_cases hid : I id = true
    · simp [hid]
    · simp [hid]
  · intro q hq
    rw [releasePeer_peers, if_neg (hghost q hq)]
    exact h.ghostState q hq
  · intro q x hq
    rw [releasePeer_peers, if_neg (hghost q hq)]
    exact h.ghostEntry q x hq
  · rw [releasePeer_lists]
    exact h.ghostList
  · intro q hq
    rw [releasePeer_peers, if_neg (hghost q hq)]
    exact h.ghostReceivers q hq
  · intro q hq
    rw [releasePeer_peers, if_neg (hghost q hq)]
    exact h.ghostSenders q hq
  · intro id sender q hsender hq
    obtain ⟨sender', hsender', hq'⟩ := sender_of_releasePeer hsender hq
    exact h.senderPeer id sender' q hsender' hq'
  · intro id r q hid hr hcanceled hq
    obtain ⟨hr', -⟩ := receiver_of_releasePeer hr hcanceled
    exact h.owned id r q hid hr' hcanceled hq
  · intro id r hid hr hcanceled
    obtain ⟨hr', hnotMem⟩ := receiver_of_releasePeer hr hcanceled
    refine (h.pending id r hid hr' hcanceled).of_listed fun q _ _ hmem => ?_
    have hqp : q ≠ p := by
      rintro rfl
      exact hnotMem hmem
    rw [releasePeer_peers, if_neg hqp]
    exact hmem

theorem Hides.acquirePeer (h : Hides I s d) (htick : I s.tick = false)
    (hnew : ∀ id r, s.receivers id = some r → r.peer ≠ some s.tick) (env : Env)
    (address : Address) :
    Hides I (s.acquirePeer env address) (d.acquirePeer env address) := by
  have hne : ∀ q, I q = true → q ≠ s.tick := by
    rintro q hq rfl
    rw [htick] at hq
    cases hq
  have hpeers : ∀ q, I q = true → (s.acquirePeer env address).peers q = s.peers q :=
    fun q hq => Function.update_of_ne (hne q hq) _ _
  refine { h with peers := ?_, unborn := ?_, map := ?_, ghostState := ?_, ghostEntry := ?_,
                  ghostReceivers := ?_, ghostSenders := ?_, pending := ?_ }
  · intro q hq
    simp only [Server.acquirePeer, h.tick]
    by_cases hqt : q = s.tick
    · subst hqt
      simp only [Function.update_self]
      rfl
    · simpa [Function.update_of_ne hqt] using h.peers q hq
  · intro q hq
    simp only [Server.acquirePeer, h.tick, Function.update_of_ne (hne q hq)]
    exact h.unborn q hq
  · intro a
    simp only [Server.acquirePeer, h.tick]
    by_cases ha : a = address
    · subst ha
      simp [htick, Option.filter]
    · simpa [Function.update_of_ne ha] using h.map a
  · intro q hq
    rw [hpeers q hq]
    exact h.ghostState q hq
  · intro q x hq
    rw [hpeers q hq]
    exact h.ghostEntry q x hq
  · intro q hq
    rw [hpeers q hq]
    exact h.ghostReceivers q hq
  · intro q hq
    rw [hpeers q hq]
    exact h.ghostSenders q hq
  · intro id r hid hr hcanceled
    refine (h.pending id r hid hr hcanceled).of_listed fun q hq _ hmem => ?_
    have hqt : q ≠ s.tick := by
      rintro rfl
      exact hnew id r hr hq
    simpa [Server.acquirePeer, Function.update_of_ne hqt] using hmem

end Genuine

end Server

end Protocol

end PomeloUdp
