import PomeloUdp.Protocol.AddressMap
import PomeloUdp.Protocol.Authentication

/-!
# Accepting a datagram

`pomelo_protocol_socket_accept` validates a datagram and then acquires the receiver that handles
it. The pool gives the memory of the receiver, its initialisation pushes the receiver to the list of
its peer and acquires a packet; when one of the three fails the cleanup of the pool takes the
receiver out of the list again. `acceptStaged` is the acceptance with these three answers, and
`acceptStaged_fst` says that it is `accept` with one of them.

The acquisition undoes what it did, and so does a validation that fails, as long as the address of
the peer that it gives up again displaced none in the address map. A validation that passes has
created the peer of a request or moved the replay protector of a connected peer, and nothing takes
that back when the receiver cannot be acquired: `atomic_iff`.
-/

namespace PomeloUdp

namespace Protocol

open Machine

/-- What the pools answer to the receiver of a datagram. -/
structure ReceiverPools where
  /-- The element of the receiver pool. -/
  element : Bool
  /-- The node in the list of receivers. -/
  entry : Bool
  /-- The packet. -/
  packet : Bool
  deriving DecidableEq

/-- The receiver is acquired. -/
def ReceiverPools.ready (r : ReceiverPools) : Bool := r.element && r.entry && r.packet

namespace Server

section Acquisition

variable (r : ReceiverPools)

/-- `pomelo_protocol_receiver_init`: the server, whether the receiver has a node and whether the
initialisation succeeds. -/
def receiverInit (s : Server) (p : PeerId) : Server × Bool × Bool :=
  if r.entry then
    let s := s.modifyPeer p fun peer => { peer with receivers := peer.receivers ++ [s.tick] }
    (s, true, r.packet)
  else (s, false, false)

/-- `pomelo_protocol_receiver_cleanup` of the receiver that was pushed last. -/
def receiverCleanup (s : Server) (p : PeerId) (entry : Bool) : Server :=
  if entry then
    s.modifyPeer p fun peer => { peer with receivers := peer.receivers.dropLast }
  else s

/-- `pomelo_pool_acquire` on the pool of the receivers. -/
def acquireReceiver (s : Server) (p : PeerId) : Server × Bool :=
  if r.element then
    match receiverInit r s p with
    | (s, _, true) => (s, true)
    | (s, entry, false) => (receiverCleanup s p entry, false)
  else (s, false)

/-- `pomelo_protocol_socket_accept`: the server, and whether a receiver was submitted. A datagram
that is too short or whose header does not decode is `none`. -/
def acceptStaged (env : Env) (s : Server) (address : Address) :
    Option Datagram → Server × Bool
  | none => (s, false)
  | some datagram =>
      match validateIncoming env s address datagram with
      | (s, none) => (s, false)
      | (s, some p) =>
          match acquireReceiver r (s.note (.validated s.tick p datagram)) p with
          | (s, false) => (s, false)
          | (s, true) =>
              let s :=
                if datagram.header.type = .response then
                  s.modifyPeer p fun peer =>
                    { peer with flags := { peer.flags with processingResponse := true } }
                else s
              (s.setReceiver s.tick (some ⟨some p, s.cryptoCtx p, datagram, env.hrtime, false⟩),
                true)

variable {r}

theorem acquireReceiver_failed (h : r.ready = false) (s : Server) (p : PeerId) :
    acquireReceiver r s p = (s, false) := by
  obtain ⟨element, entry, packet⟩ := r
  cases element with
  | false => rfl
  | true =>
      cases entry with
      | false => rfl
      | true =>
          cases packet with
          | true => exact absurd h (by decide)
          | false =>
              have hundo : receiverCleanup (s.modifyPeer p fun peer =>
                  { peer with receivers := peer.receivers ++ [s.tick] }) p true = s := by
                rw [receiverCleanup, if_pos rfl, modifyPeer_modifyPeer]
                exact modifyPeer_self (by simp)
              exact congrArg (·, false) hundo

theorem acquireReceiver_ready (h : r.ready = true) (s : Server) (p : PeerId) :
    acquireReceiver r s p =
      (s.modifyPeer p fun peer => { peer with receivers := peer.receivers ++ [s.tick] }, true) := by
  simp only [ReceiverPools.ready, Bool.and_eq_true] at h
  simp [acquireReceiver, receiverInit, h.1.1, h.1.2, h.2]

theorem acceptStaged_snd (env : Env) (s : Server) (address : Address) (datagram : Datagram) :
    (acceptStaged r env s address (some datagram)).2 =
      ((validateIncoming env s address datagram).2.isSome && r.ready) := by
  rcases hvalid : validateIncoming env s address datagram with ⟨t, p⟩
  cases p with
  | none => simp [acceptStaged, hvalid]
  | some p =>
      cases hready : r.ready with
      | false => simp [acceptStaged, hvalid, acquireReceiver_failed hready]
      | true => simp [acceptStaged, hvalid, acquireReceiver_ready hready]

theorem acceptStaged_fst (env : Env) (s : Server) (address : Address) (datagram : Datagram) :
    (acceptStaged r env s address (some datagram)).1 =
      accept { env with acquireReceiver := r.ready } s address datagram := by
  have hsame : validateIncoming { env with acquireReceiver := r.ready } s address datagram =
      validateIncoming env s address datagram := rfl
  simp only [acceptStaged, accept, hsame]
  obtain ⟨t, p⟩ := validateIncoming env s address datagram
  cases p with
  | none => rfl
  | some p =>
      cases hready : r.ready with
      | false => simp [acquireReceiver_failed hready]
      | true =>
          simp only [acquireReceiver_ready hready, submitReceiver, if_true]
          by_cases htype : datagram.header.type = .response
          · simp [htype, modifyPeer, setReceiver, note, cryptoCtx]
          · simp [htype, modifyPeer, setReceiver, note, cryptoCtx]

end Acquisition

section Atomicity

/-- The peer lists and what the peers of `s` keep about incoming packets. -/
structure Untouched (s t : Server) : Prop where
  lists : t.lists = s.lists
  replayProtector : ∀ p ≤ s.tick, (t.peers p).replayProtector = (s.peers p).replayProtector
  flags : ∀ p ≤ s.tick, (t.peers p).flags = (s.peers p).flags
  receivers : ∀ p ≤ s.tick, (t.peers p).receivers = (s.peers p).receivers

/-- The datagram is a request for which a peer is created. -/
def Creates (env : Env) (s : Server) (address : Address) (datagram : Datagram) : Prop :=
  ∃ sequence body, datagram = .request sequence body ∧ s.peerAddressMap address = none ∧
    body.protocolId = s.protocolId ∧ env.acquirePeer = true ∧ env.pushEntry = true

/-- The datagram moves the replay protector of a connected peer. -/
def Advances (s : Server) (address : Address) (datagram : Datagram) : Prop :=
  ∃ header body p, datagram = .packet header body ∧ header.type.isProtected = true ∧
    s.peerAddressMap address = some p ∧ (s.peers p).state = .connected ∧
    (s.peers p).replayProtector.tooOld header.sequence = false ∧
    (s.peers p).replayProtector.slotFree header.sequence = true ∧
    ¬ ((s.peers p).replayProtector.receivedSequence (ReplayProtector.slot header.sequence) =
        header.sequence ∧ header.sequence ≤ (s.peers p).replayProtector.mostRecentSequence)

/-- The datagram is a request for which a peer is created and, without a place in the list, given up
again. -/
def Discards (env : Env) (s : Server) (address : Address) (datagram : Datagram) : Prop :=
  s.state = .running ∧ datagram.validateBodyLength = true ∧
    ∃ sequence body, datagram = .request sequence body ∧ s.peerAddressMap address = none ∧
      body.protocolId = s.protocolId ∧ env.acquirePeer = true ∧ env.pushEntry = false

/-- The validation of the datagram changes the server. -/
def Changes (env : Env) (s : Server) (address : Address) (datagram : Datagram) : Prop :=
  s.state = .running ∧ datagram.validateBodyLength = true ∧
    (Creates env s address datagram ∨ Advances s address datagram)

variable {s : Server} {env : Env} {address : Address}

theorem Untouched.refl (s : Server) : Untouched s s.ticked :=
  ⟨rfl, fun _ _ => rfl, fun _ _ => rfl, fun _ _ => rfl⟩

theorem protectReplay_eq_self_iff {r : ReplayProtector} {sequence : UInt64}
    (hold : r.tooOld sequence = false) (hfree : r.slotFree sequence = true) :
    (r.protectReplay sequence).1 = r ↔
      r.receivedSequence (ReplayProtector.slot sequence) = sequence ∧
        sequence ≤ r.mostRecentSequence := by
  obtain ⟨slots, recent⟩ := r
  simp only [ReplayProtector.protectReplay, hold, hfree, Bool.false_eq_true, if_false, if_true,
    ReplayProtector.mk.injEq, Function.update_eq_self_iff]
  refine and_congr eq_comm ?_
  split
  · rename_i hlt
    constructor
    · rintro rfl
      exact absurd hlt (UInt64.lt_irrefl _)
    · intro hle
      exact absurd hlt (UInt64.not_lt.mpr hle)
  · rename_i hlt
    exact iff_of_true rfl (UInt64.not_lt.mp hlt)

theorem validateRequest_spec (sequence : UInt64) (body : RequestBody) :
    (Untouched s (validateRequest env s.ticked address body).1 ↔
        ¬ Creates env s address (.request sequence body)) ∧
      (Creates env s address (.request sequence body) →
        (validateRequest env s.ticked address body).2.isSome = true) := by
  have hiff : Creates env s address (.request sequence body) ↔ s.peerAddressMap address = none ∧
      body.protocolId = s.protocolId ∧ env.acquirePeer = true ∧ env.pushEntry = true := by
    constructor
    · rintro ⟨_, _, heq, hcreates⟩
      obtain ⟨-, rfl⟩ := Datagram.request.inj heq
      exact hcreates
    · intro hcreates
      exact ⟨sequence, body, rfl, hcreates⟩
  rw [hiff]
  unfold validateRequest
  by_cases hmapped : (s.peerAddressMap address).isSome = true
  · rw [if_pos hmapped]
    have hno : s.peerAddressMap address ≠ none := Option.isSome_iff_ne_none.mp hmapped
    exact ⟨iff_of_true (Untouched.refl s) fun hcreates => hno hcreates.1,
      fun hcreates => absurd hcreates.1 hno⟩
  have hnone : s.peerAddressMap address = none := by simpa using hmapped
  rw [if_neg hmapped]
  by_cases hprotocol : body.protocolId = s.protocolId
  swap
  · rw [if_pos hprotocol]
    exact ⟨iff_of_true (Untouched.refl s) fun hcreates => hprotocol hcreates.2.1,
      fun hcreates => absurd hcreates.2.1 hprotocol⟩
  rw [if_neg (not_not.mpr hprotocol)]
  by_cases hacquire : env.acquirePeer = true
  swap
  · rw [if_neg hacquire]
    exact ⟨iff_of_true (Untouched.refl s) fun hcreates => hacquire hcreates.2.2.1,
      fun hcreates => absurd hcreates.2.2.1 hacquire⟩
  rw [if_pos hacquire]
  have hother : ∀ q ≤ s.tick, q ≠ s.ticked.tick := by
    intro q hq
    exact Nat.ne_of_lt (Nat.lt_succ_of_le hq)
  by_cases hpush : env.pushEntry = true
  · simp only [if_pos hpush]
    refine ⟨iff_of_false ?_ (not_not.mpr ⟨hnone, hprotocol, hacquire, hpush⟩), fun _ => rfl⟩
    intro huntouched
    have hlists := congrFun huntouched.lists .requesting
    simp [modifyPeer, pushBack, acquirePeer] at hlists
  · simp only [if_neg hpush]
    refine ⟨iff_of_true ?_ fun hcreates => hpush hcreates.2.2.2,
      fun hcreates => absurd hcreates.2.2.2 hpush⟩
    have hpeers : ∀ q ≤ s.tick,
        ((s.ticked.acquirePeer env address).releasePeer s.ticked.tick).peers q = s.peers q := by
      intro q hq
      rw [releasePeer_peers, if_neg (hother q hq)]
      simp [acquirePeer, hother q hq]
    refine ⟨releasePeer_lists _ _, ?_, ?_, ?_⟩
    all_goals
      intro q hq
      rw [hpeers q hq]

theorem untouched_protector_iff (h : Table s) {p : PeerId}
    (hmapped : s.peerAddressMap address = some p) (r : ReplayProtector) :
    Untouched s (s.ticked.modifyPeer p fun peer => { peer with replayProtector := r }) ↔
      r = (s.peers p).replayProtector := by
  obtain ⟨-, name, hname⟩ := h.mapped address p hmapped
  have hp : p ≤ s.tick := h.peer_le name hname
  constructor
  · intro huntouched
    have hsame := huntouched.replayProtector p hp
    simpa [modifyPeer] using hsame
  · rintro rfl
    have hself : s.ticked.modifyPeer p (fun peer =>
        { peer with replayProtector := (s.peers p).replayProtector }) = s.ticked :=
      modifyPeer_self rfl
    rw [hself]
    exact Untouched.refl s

theorem unprotected_spec {header : Header} (body : SealedBody)
    (htype : header.type.isProtected = false) {result : Server × Option PeerId}
    (hresult : result.1 = s.ticked) :
    (Untouched s result.1 ↔ ¬ Advances s address (.packet header body)) ∧
      (Advances s address (.packet header body) → result.2.isSome = true) := by
  have hno : ¬ Advances s address (.packet header body) := by
    rintro ⟨_, _, _, heq, hprotected, -⟩
    obtain ⟨rfl, -⟩ := Datagram.packet.inj heq
    exact absurd (htype.symm.trans hprotected) (by decide)
  rw [hresult]
  exact ⟨iff_of_true (Untouched.refl s) hno, fun hadvances => absurd hadvances hno⟩

theorem protected_spec (h : Table s) {header : Header} (body : SealedBody) {p : PeerId}
    (hmapped : s.peerAddressMap address = some p) (htype : header.type.isProtected = true)
    {result : Server × Option PeerId}
    (hresult : result =
      if (s.peers p).state ≠ .connected then (s.ticked, none)
      else
        let r := (s.peers p).protectReplay header.sequence
        (s.ticked.modifyPeer p fun _ => r.1, if r.2 then some p else none)) :
    (Untouched s result.1 ↔ ¬ Advances s address (.packet header body)) ∧
      (Advances s address (.packet header body) → result.2.isSome = true) := by
  have hiff : Advances s address (.packet header body) ↔
      (s.peers p).state = .connected ∧
        (s.peers p).replayProtector.tooOld header.sequence = false ∧
        (s.peers p).replayProtector.slotFree header.sequence = true ∧
        ¬ ((s.peers p).replayProtector.receivedSequence
            (ReplayProtector.slot header.sequence) = header.sequence ∧
          header.sequence ≤ (s.peers p).replayProtector.mostRecentSequence) := by
    constructor
    · rintro ⟨_, _, q, heq, -, hq, hadvances⟩
      obtain ⟨rfl, -⟩ := Datagram.packet.inj heq
      obtain rfl := Option.some.inj (hmapped.symm.trans hq)
      exact hadvances
    · intro hadvances
      exact ⟨header, body, p, rfl, htype, hmapped, hadvances⟩
  subst hresult
  rw [hiff]
  by_cases hstate : (s.peers p).state = .connected
  swap
  · rw [if_pos hstate]
    exact ⟨iff_of_true (Untouched.refl s) fun hadvances => hstate hadvances.1,
      fun hadvances => absurd hadvances.1 hstate⟩
  rw [if_neg (not_not.mpr hstate)]
  have hwrite := untouched_protector_iff h hmapped
    ((s.peers p).replayProtector.protectReplay header.sequence).1
  refine ⟨hwrite.trans ?_, ?_⟩
  · cases hold : (s.peers p).replayProtector.tooOld header.sequence with
    | true => simp [ReplayProtector.protectReplay, hold]
    | false =>
        cases hfree : (s.peers p).replayProtector.slotFree header.sequence with
        | false => simp [ReplayProtector.protectReplay, hold, hfree]
        | true =>
            rw [protectReplay_eq_self_iff hold hfree]
            simp [hstate]
  · rintro ⟨-, hold, hfree, -⟩
    simp [Peer.protectReplay, ReplayProtector.protectReplay, hold, hfree]

theorem validatePacketOf_spec (h : Table s) (header : Header) (body : SealedBody) :
    (Untouched s (validatePacketOf s.ticked address header).1 ↔
        ¬ Advances s address (.packet header body)) ∧
      (Advances s address (.packet header body) →
        (validatePacketOf s.ticked address header).2.isSome = true) := by
  unfold validatePacketOf
  cases hmapped : s.peerAddressMap address with
  | none =>
      have hno : ¬ Advances s address (.packet header body) := by
        rintro ⟨_, _, p, -, -, hp, -⟩
        exact absurd (hmapped.symm.trans hp) (by simp)
      exact ⟨iff_of_true (Untouched.refl s) hno, fun hadvances => absurd hadvances hno⟩
  | some p =>
      cases htype : header.type with
      | payload => exact protected_spec h body hmapped (by rw [htype]; rfl) rfl
      | keepAlive => exact protected_spec h body hmapped (by rw [htype]; rfl) rfl
      | disconnect => exact protected_spec h body hmapped (by rw [htype]; rfl) rfl
      | response =>
          refine unprotected_spec body (by rw [htype]; rfl) ?_
          dsimp only
          split
          · rfl
          · split <;> rfl
      | request => exact unprotected_spec body (by rw [htype]; rfl) rfl
      | denied => exact unprotected_spec body (by rw [htype]; rfl) rfl
      | challenge => exact unprotected_spec body (by rw [htype]; rfl) rfl

/-- The validation of a datagram leaves the server as it is, unless it creates a peer or moves a
replay protector; then it passes. -/
theorem validateIncoming_spec (h : Table s) (env : Env) (address : Address)
    (datagram : Datagram) :
    (Untouched s (validateIncoming env s.ticked address datagram).1 ↔
        ¬ Changes env s address datagram) ∧
      (Changes env s address datagram →
        (validateIncoming env s.ticked address datagram).2.isSome = true) := by
  unfold validateIncoming
  by_cases hrunning : s.state = .running
  swap
  · rw [if_pos hrunning]
    exact ⟨iff_of_true (Untouched.refl s) fun hchanges => hrunning hchanges.1,
      fun hchanges => absurd hchanges.1 hrunning⟩
  rw [if_neg (not_not.mpr hrunning)]
  by_cases hlength : datagram.validateBodyLength = true
  swap
  · rw [if_pos hlength]
    exact ⟨iff_of_true (Untouched.refl s) fun hchanges => hlength hchanges.2.1,
      fun hchanges => absurd hchanges.2.1 hlength⟩
  rw [if_neg (not_not.mpr hlength)]
  cases datagram with
  | request sequence body =>
      have hiff : Changes env s address (.request sequence body) ↔
          Creates env s address (.request sequence body) := by
        constructor
        · rintro ⟨-, -, hcreates | ⟨_, _, _, heq, -⟩⟩
          · exact hcreates
          · cases heq
        · intro hcreates
          exact ⟨hrunning, hlength, .inl hcreates⟩
      rw [hiff]
      exact validateRequest_spec sequence body
  | packet header body =>
      have hiff : Changes env s address (.packet header body) ↔
          Advances s address (.packet header body) := by
        constructor
        · rintro ⟨-, -, ⟨_, _, heq, -⟩ | hadvances⟩
          · cases heq
          · exact hadvances
        · intro hadvances
          exact ⟨hrunning, hlength, .inr hadvances⟩
      rw [hiff]
      exact validatePacketOf_spec h header body

theorem acceptStaged_failed {r : ReceiverPools} {datagram : Datagram}
    (h : (acceptStaged r env s.ticked address (some datagram)).2 = false) :
    Untouched s (acceptStaged r env s.ticked address (some datagram)).1 ↔
      Untouched s (validateIncoming env s.ticked address datagram).1 := by
  rw [acceptStaged_snd, Bool.and_eq_false_iff] at h
  rcases hvalid : validateIncoming env s.ticked address datagram with ⟨t, p⟩
  cases p with
  | none => simp [acceptStaged, hvalid]
  | some p =>
      have hready : r.ready = false := by simpa [hvalid] using h
      simp only [acceptStaged, hvalid, acquireReceiver_failed hready]
      exact ⟨fun ⟨hlists, hreplay, hflags, hreceivers⟩ => ⟨hlists, hreplay, hflags, hreceivers⟩,
        fun ⟨hlists, hreplay, hflags, hreceivers⟩ => ⟨hlists, hreplay, hflags, hreceivers⟩⟩

end Atomicity

theorem acceptCalls_eq_nil (hchanges : ¬ Changes env s address datagram)
    (hdiscards : ¬ Discards env s address datagram) :
    acceptCalls env s.ticked address datagram = [] := by
  unfold acceptCalls
  by_cases hrunning : s.state = .running
  swap
  · exact if_pos hrunning
  rw [if_neg (not_not.mpr hrunning)]
  by_cases hlength : datagram.validateBodyLength = true
  swap
  · exact if_pos hlength
  rw [if_neg (not_not.mpr hlength)]
  cases datagram with
  | packet header body => rfl
  | request sequence body =>
      dsimp only
      by_cases hmapped : (s.peerAddressMap address).isSome = true
      · exact if_pos hmapped
      rw [if_neg (show ¬ (s.ticked.peerAddressMap address).isSome = true from hmapped)]
      have hnone : s.peerAddressMap address = none := by simpa using hmapped
      by_cases hprotocol : body.protocolId = s.protocolId
      swap
      · exact if_pos hprotocol
      rw [if_neg (show ¬ body.protocolId ≠ s.ticked.protocolId from not_not.mpr hprotocol)]
      by_cases hacquire : env.acquirePeer = true
      swap
      · exact if_neg hacquire
      exfalso
      by_cases hpush : env.pushEntry = true
      · exact hchanges ⟨hrunning, hlength,
          .inl ⟨sequence, body, rfl, hnone, hprotocol, hacquire, hpush⟩⟩
      · exact hdiscards ⟨hrunning, hlength, sequence, body, rfl, hnone, hprotocol, hacquire,
          by simpa using hpush⟩

theorem acceptCalls_of_discards (h : Discards env s address datagram) :
    acceptCalls env s.ticked address datagram =
      [.set address (s.tick + 1), .del address] := by
  obtain ⟨hrunning, hlength, sequence, body, rfl, hnone, hprotocol, hacquire, hpush⟩ := h
  simp [acceptCalls, hrunning, hlength, hnone, hprotocol, hacquire, hpush]

theorem validateIncoming_discards (h : Discards env s address datagram) :
    (validateIncoming env s.ticked address datagram).2 = none := by
  obtain ⟨hrunning, hlength, sequence, body, rfl, hnone, hprotocol, hacquire, hpush⟩ := h
  simp [validateIncoming, validateRequest, hrunning, hlength, hnone, hprotocol, hacquire, hpush]

theorem Discards.not_changes (h : Discards env s address datagram) :
    ¬ Changes env s address datagram := by
  obtain ⟨-, -, sequence, body, rfl, -, -, -, hpush⟩ := h
  rintro ⟨-, -, ⟨_, _, -, -, -, -, hpush'⟩ | ⟨_, _, _, heq, -⟩⟩
  · exact absurd (hpush.symm.trans hpush') (by decide)
  · cases heq

end Server

namespace MappedServer

open Server

section Atomicity

/-- `pomelo_protocol_socket_accept` on the address map: the server, and whether a receiver was
submitted. -/
def acceptStaged (r : ReceiverPools) (env : Env) (m : MappedServer) (address : Address)
    (incoming : Option Datagram) : MappedServer × Bool :=
  let result := Server.acceptStaged r env m.server.ticked address incoming
  let calls := (incoming.map (acceptCalls env m.server.ticked address)).getD []
  (ofMap result.1 m.overLoad (m.write calls), result.2)

theorem acceptStaged_fst (r : ReceiverPools) (env : Env) (m : MappedServer) (address : Address)
    (datagram : Datagram) : (m.acceptStaged r env address (some datagram)).1 =
      m.step ⟨{ env with acquireReceiver := r.ready }, .accept address datagram⟩ := by
  simp only [acceptStaged, Server.acceptStaged_fst]
  rfl

/-- The peer lists, the address map and what the peers of `m` keep about incoming packets. The map
has the same entries as before: every address leads to the same peer, and there are as many. -/
structure Untouched (m n : MappedServer) : Prop where
  server : Server.Untouched m.server n.server
  found : ∀ address, n.addressMap.get n.options address = m.addressMap.get m.options address
  size : n.addressMap.size = m.addressMap.size

/-- An acceptance that submits no receiver changes nothing. -/
def Atomic (r : ReceiverPools) (env : Env) (m : MappedServer) (address : Address)
    (incoming : Option Datagram) : Prop :=
  (m.acceptStaged r env address incoming).2 = false →
    Untouched m (m.acceptStaged r env address incoming).1

variable {r : ReceiverPools} {env : Env} {m : MappedServer} {address : Address}
  {datagram : Datagram}

theorem map_acceptStaged_iff (h : m.Represented)
    (hchanges : ¬ Changes env m.server address datagram) :
    ((∀ a, (m.write (acceptCalls env m.server.ticked address datagram)).get m.options a =
        m.addressMap.get m.options a) ∧
      (m.write (acceptCalls env m.server.ticked address datagram)).size = m.addressMap.size) ↔
    (Discards env m.server address datagram → Utils.Map.GrowthKeepsPlaces m.options m.addressMap
      (.set address (m.server.tick + 1))) := by
  by_cases hdiscards : Discards env m.server address datagram
  · obtain ⟨addresses, h⟩ := h
    have hnone : m.addressMap.findEntry m.options address = none := by
      obtain ⟨-, -, -, -, -, hnone, -⟩ := hdiscards
      rw [m.lookup] at hnone
      exact Option.map_eq_none_iff.mp hnone
    rw [acceptCalls_of_discards hdiscards, imp_iff_right hdiscards, ← h.del_setEntry_iff hnone,
      ← funext_iff]
    rfl
  · rw [acceptCalls_eq_nil hchanges hdiscards]
    exact iff_of_true ⟨fun _ => rfl, rfl⟩ fun hno => absurd hno hdiscards

end Atomicity

/-- An acceptance is atomic when the receiver can be acquired or the validation changes nothing, and
no address displaces another one for a peer that is given up again; and only then. -/
theorem atomic_iff (r : ReceiverPools) (overLoad : ℕ → ℕ → Bool) (o : ServerOptions)
    (is : List Input) (his : Along step keepsPlaces (start overLoad o) is) (env : Env)
    (address : Address) (incoming : Option Datagram) :
    let m := run step (start overLoad o) is
    Atomic r env m address incoming ↔
      ∀ datagram, incoming = some datagram →
        (r.ready = true ∨ ¬ Changes env m.server address datagram) ∧
        (Discards env m.server address datagram → Utils.Map.GrowthKeepsPlaces m.options
          m.addressMap (.set address (m.server.tick + 1))) := by
  intro m
  obtain ⟨hserver, hrepresented, -⟩ := run_server (P := fun _ _ => True)
    (represented_start overLoad o) (along_run (I := fun _ => True) (fun _ _ _ _ => trivial)
      (fun _ _ _ hi => ⟨trivial, hi⟩) trivial his)
  have htable : Table m.server := by
    rw [hserver, server_start]
    exact (sound_run o is).table
  cases incoming with
  | none =>
      refine iff_of_true (fun _ => ⟨?_, fun _ => rfl, rfl⟩) fun _ h => absurd h (by simp)
      exact ⟨rfl, fun _ _ => rfl, fun _ _ => rfl, fun _ _ => rfl⟩
  | some datagram =>
      obtain ⟨huntouched, hpasses⟩ := validateIncoming_spec htable env address datagram
      have hanswer : (m.acceptStaged r env address (some datagram)).2 =
          ((validateIncoming env m.server.ticked address datagram).2.isSome && r.ready) :=
        acceptStaged_snd env m.server.ticked address datagram
      have hpeers : (m.acceptStaged r env address (some datagram)).2 = false →
          (Server.Untouched m.server (m.acceptStaged r env address (some datagram)).1.server ↔
            ¬ Changes env m.server address datagram) := by
        intro hfailed
        rw [← huntouched, ← acceptStaged_failed hfailed]
        exact ⟨fun ⟨hlists, hreplay, hflags, hreceivers⟩ => ⟨hlists, hreplay, hflags, hreceivers⟩,
          fun ⟨hlists, hreplay, hflags, hreceivers⟩ => ⟨hlists, hreplay, hflags, hreceivers⟩⟩
      constructor
      · rintro hatomic _ ⟨rfl⟩
        by_cases hchanges : Changes env m.server address datagram
        · -- the datagram passes, so that only a receiver makes the acceptance atomic
          refine ⟨.inl ?_, fun hdiscards => absurd hchanges hdiscards.not_changes⟩
          by_contra hready
          have hfailed : (m.acceptStaged r env address (some datagram)).2 = false := by
            rw [hanswer, Bool.eq_false_iff.mpr hready, Bool.and_false]
          exact (hpeers hfailed).mp (hatomic hfailed).server hchanges
        · refine ⟨.inr hchanges, fun hdiscards => ?_⟩
          have hfailed : (m.acceptStaged r env address (some datagram)).2 = false := by
            rw [hanswer, validateIncoming_discards hdiscards]
            rfl
          exact (map_acceptStaged_iff hrepresented hchanges).mp
            ⟨(hatomic hfailed).found, (hatomic hfailed).size⟩ hdiscards
      · intro hcondition hfailed
        obtain ⟨hready, hplaces⟩ := hcondition datagram rfl
        have hchanges : ¬ Changes env m.server address datagram := by
          rcases hready with hready | hchanges
          · intro hchanges
            rw [hanswer, hready, hpasses hchanges] at hfailed
            exact absurd hfailed (by decide)
          · exact hchanges
        obtain ⟨hfound, hsize⟩ := (map_acceptStaged_iff hrepresented hchanges).mpr hplaces
        exact ⟨(hpeers hfailed).mpr hchanges, hfound, hsize⟩

/-- The pools of a server without a receiver left. -/
def noReceiver : ReceiverPools := ⟨false, true, true⟩

/-- A server that accepts the requests for protocol 7. -/
def sevenOptions : ServerOptions where
  privateKey := 1
  challengeKey := 2
  maxClients := 1
  protocolId := 7
  payloadCapacity := 1000

/-- Every pool but that of the receivers has an element. -/
def plentyEnv : Env where
  hrtime := 0
  now := 0
  acquirePeer := true
  pushEntry := true
  acquireReceiver := true
  acquirePacket := fun _ _ => true
  acquireSender := fun _ _ => true
  leftover := 0

/-- A request for protocol 7. -/
def sevenRequest : Datagram :=
  .request 0 ⟨true, 7, 100, 0, .encrypted 1 0 ⟨7, 100⟩ ⟨3, 10, [], 4, 5, 6⟩⟩

/-- A request that finds no receiver leaves a peer in the list of requesting peers. -/
theorem not_atomic_noReceiver :
    ¬ Atomic noReceiver plentyEnv (run step (start defaultOverLoad sevenOptions) []) (.ipv4 1 1)
      (some sevenRequest) := by
  intro hatomic
  have hlists := congrFun (hatomic rfl).server.lists .requesting
  exact absurd hlists (by decide)

/-- A request whose peer gets no place in the list is undone, with the address of another one in the
map. -/
theorem atomic_iff_sevenRequest :
    Atomic noReceiver { plentyEnv with pushEntry := false }
      (run step (start defaultOverLoad sevenOptions)
        [⟨plentyEnv, .accept (.ipv4 2 2) sevenRequest⟩])
      (.ipv4 1 1) (some sevenRequest) := by
  refine (atomic_iff noReceiver defaultOverLoad sevenOptions
    [⟨plentyEnv, .accept (.ipv4 2 2) sevenRequest⟩] (by decide +kernel) _ (.ipv4 1 1) _).mpr ?_
  rintro _ ⟨rfl⟩
  refine ⟨.inr ?_, fun _ => by decide +kernel⟩
  rintro ⟨-, -, ⟨_, _, -, -, -, -, hpush⟩ | ⟨_, _, _, heq, -⟩⟩
  · cases hpush
  · cases heq

end MappedServer

end Protocol

end PomeloUdp
