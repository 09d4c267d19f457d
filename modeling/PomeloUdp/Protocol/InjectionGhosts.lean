import PomeloUdp.Protocol.InjectionHandlers

/-!
# What a server does with injected datagrams

An injected datagram makes a peer that waits for its request to be decrypted, a receiver for a
challenged peer, or nothing; later the receiver fails, and the peer is denied and released. None
of this shows in the server that never got the datagram, and so a step keeps `Hides`
(`Hides.step`).
-/

namespace PomeloUdp

namespace Protocol

open Machine

namespace Server

section Ghosts

variable {I : ℕ → Bool} {s d : Server} {p : PeerId} {env : Env}

theorem Hides.modifyGhost (h : Hides I s d) (hp : I p = true) {f : Peer → Peer}
    (hstate : (f (s.peers p)).state = .request ∨ (f (s.peers p)).state = .denied ∨
      (f (s.peers p)).state = .disconnected)
    (hentry : ∀ x, (f (s.peers p)).entry = some x → I x.peer = true)
    (hreceivers : ∀ id ∈ (f (s.peers p)).receivers, I id = true)
    (hsenders : ∀ id ∈ (f (s.peers p)).senders, I id.peer = true) :
    Hides I (s.modifyPeer p f) d := by
  have hne : ∀ q, I q = false → q ≠ p := by
    rintro q hq rfl
    rw [hp] at hq
    cases hq
  refine { h with peers := ?_, ghostState := ?_, ghostEntry := ?_, ghostReceivers := ?_,
                  ghostSenders := ?_, pending := ?_ }
  · intro q hq
    simpa [Server.modifyPeer, Function.update_of_ne (hne q hq)] using h.peers q hq
  · intro q hq
    by_cases hqp : q = p
    · subst hqp
      simpa [Server.modifyPeer] using hstate
    · simpa [Server.modifyPeer, Function.update_of_ne hqp] using h.ghostState q hq
  · intro q x hq
    by_cases hqp : q = p
    · subst hqp
      simpa [Server.modifyPeer] using hentry x
    · simpa [Server.modifyPeer, Function.update_of_ne hqp] using h.ghostEntry q x hq
  · intro q hq
    by_cases hqp : q = p
    · subst hqp
      simpa [Server.modifyPeer] using hreceivers
    · simpa [Server.modifyPeer, Function.update_of_ne hqp] using h.ghostReceivers q hq
  · intro q hq
    by_cases hqp : q = p
    · subst hqp
      simpa [Server.modifyPeer] using hsenders
    · simpa [Server.modifyPeer, Function.update_of_ne hqp] using h.ghostSenders q hq
  · intro id r hid hr hcanceled
    refine (h.pending id r hid hr hcanceled).of_listed fun q _ hq hmem => ?_
    simpa [Server.modifyPeer, Function.update_of_ne (hne q hq)] using hmem

theorem Hides.writeGhost (h : Hides I s d) (hp : I p = true) {f : Peer → Peer}
    (hstate : ∀ peer, (f peer).state = peer.state) (hentry : ∀ peer, (f peer).entry = peer.entry)
    (hreceivers : ∀ peer, ∀ id ∈ (f peer).receivers, I id = true ∨ id ∈ peer.receivers)
    (hsenders : ∀ peer, ∀ id ∈ (f peer).senders, I id.peer = true ∨ id ∈ peer.senders) :
    Hides I (s.modifyPeer p f) d := by
  refine h.modifyGhost hp ?_ ?_ ?_ ?_
  · rw [hstate]
    exact h.ghostState p hp
  · intro x hx
    rw [hentry] at hx
    exact h.ghostEntry p x hp hx
  · intro id hid
    rcases hreceivers _ id hid with hI | hold
    · exact hI
    · exact h.ghostReceivers p hp id hold
  · intro id hid
    rcases hsenders _ id hid with hI | hold
    · exact hI
    · exact h.ghostSenders p hp id hold

theorem Hides.setGhostSender (h : Hides I s d) {id : SenderId} (hid : I id.peer = true)
    {sender : Option Sender} (hpeer : ∀ r q, sender = some r → r.peer = some q → q = id.peer) :
    Hides I (s.setSender id sender) d := by
  refine { h with senders := ?_, senderPeer := ?_ }
  · intro id'
    by_cases heq : id' = id
    · subst heq
      simpa [hid] using h.senders id'
    · simpa [Server.setSender, Function.update_of_ne heq] using h.senders id'
  · intro id' r q hr
    by_cases heq : id' = id
    · subst heq
      exact hpeer r q (by simpa [Server.setSender] using hr)
    · exact h.senderPeer id' r q (by simpa [Server.setSender, Function.update_of_ne heq] using hr)

theorem Hides.unlinkGhost (h : Hides I s d) (hp : I p = true) (name : PeerListName) :
    Hides I (s.unlink name p) d := by
  unfold Server.unlink
  split
  · exact h
  · rename_i x hentry
    have hx := h.ghostEntry p x hp hentry
    have hremoved := h.removeEntry name x
    refine { hremoved with fixed := h.fixed, peers := h.peers, unborn := h.unborn, map := h.map,
                           lists := ?_, senders := h.senders, receivers := h.receivers }
    intro name'
    have hsame : (d.removeEntry name x).lists name' = d.lists name' := by
      by_cases heq : name' = name
      · subst heq
        have hnot : x ∉ d.lists name' := by
          rw [h.lists]
          simp [hx]
        simpa [Server.removeEntry] using List.erase_of_not_mem hnot
      · simp [Server.removeEntry, Function.update_of_ne heq]
    rw [← hsame]
    exact hremoved.lists name'

theorem Hides.pushGhost (h : Hides I s d) (hp : I p = true) {name : PeerListName}
    (hname : name = .requesting ∨ name = .denied) : Hides I (s.pushBack name p) d := by
  have hwritten : Hides I
      (s.modifyPeer p fun peer =>
        { peer with entry := some ⟨s.tick, p⟩, state := name.state }) d := by
    refine h.modifyGhost hp ?_ ?_ ?_ ?_
    · rcases hname with rfl | rfl
      · exact .inl rfl
      · exact .inr (.inl rfl)
    · rintro x hx
      cases hx
      exact hp
    · exact h.ghostReceivers p hp
    · exact h.ghostSenders p hp
  refine { hwritten with lists := ?_, ghostList := ?_ }
  · intro name'
    by_cases heq : name' = name
    · subst heq
      simpa [Server.pushBack, hp] using h.lists name'
    · simpa [Server.pushBack, Function.update_of_ne heq] using h.lists name'
  · intro name' hrequesting hdenied y hy
    have heq : name' ≠ name := by
      rintro rfl
      rcases hname with hname | hname
      · exact hrequesting hname
      · exact hdenied hname
    exact h.ghostList name' hrequesting hdenied y
      (by simpa [Server.pushBack, Function.update_of_ne heq] using hy)

theorem Hides.noteGhost (h : Hides I s d) (effect : Effect) : Hides I (s.note effect) d :=
  { h with }

theorem Hides.dispatchGhost (h : Hides I s d) (hp : I p = true) (source : SequenceSource)
    (header : Header) (body : PacketBody) :
    Hides I (Server.dispatch env s p source header body) d := by
  unfold Server.dispatch
  dsimp only
  split
  · refine Hides.noteGhost (Hides.writeGhost ?_ hp ?_ ?_ ?_ ?_) _
    · refine h.setGhostSender hp fun r q hr hq => ?_
      cases hr
      exact (Option.some.inj hq).symm
    · exact fun _ => rfl
    · exact fun _ => rfl
    · exact fun _ id hid => .inr hid
    · intro peer id hid
      rcases List.mem_append.mp hid with hid | hid
      · exact .inr hid
      · rw [List.mem_singleton.mp hid]
        exact .inl hp
  · exact h

variable (env) in
theorem Hides.sendDeniedGhost (h : Hides I s d) (hp : I p = true) :
    Hides I (Server.sendDenied env s p).1 d := by
  have htaken : Hides I s.takeAnonymous d := { h with }
  unfold Server.sendDenied
  dsimp only
  split
  · exact htaken.dispatchGhost hp _ _ _
  · exact htaken

/-- The address of a peer leads to no genuine peer. -/
def Alone (I : ℕ → Bool) (s : Server) (p : PeerId) : Prop :=
  ∀ a, (s.peers p).address = some a → ∀ q, s.peerAddressMap a = some q → I q = true

theorem Table.alone (h : Table s) (hp : I p = true) (name : PeerListName)
    (hstate : (s.peers p).state = name.state) : Alone I s p := by
  intro a ha q hq
  obtain ⟨x, hx, rfl⟩ := h.listed p name hstate
  obtain ⟨b, hb, hmapped⟩ := h.member_mapped name x hx
  obtain rfl : b = a := Option.some.inj (hb.symm.trans ha)
  rw [hmapped] at hq
  exact Option.some.inj hq ▸ hp

theorem SameTable.alone {t : Server} (h : SameTable s t) (hs : Alone I s p) : Alone I t p := by
  intro a ha q hq
  rw [h.address] at ha
  rw [h.map] at hq
  exact hs a ha q hq

theorem Alone.unlink (h : Alone I s p) (name : PeerListName) : Alone I (s.unlink name p) p := by
  unfold Server.unlink
  split
  · exact h
  · exact h

theorem Alone.pushBack (h : Alone I s p) (name : PeerListName) :
    Alone I (s.pushBack name p) p := by
  intro a ha q hq
  refine h a ?_ q hq
  simpa [Server.pushBack] using ha

/-- Releasing such a peer frees an address that is free without it. -/
theorem Hides.releaseGhost (h : Hides I s d) (hp : I p = true) (hmapped : Alone I s p) :
    Hides I (s.releasePeer p) d := by
  have hne : ∀ q, I q = false → q ≠ p := by
    rintro q hq rfl
    rw [hp] at hq
    cases hq
  constructor
  · rw [releasePeer_fixed]
    exact h.fixed
  · intro q hq
    rw [releasePeer_peers, if_neg (hne q hq)]
    exact h.peers q hq
  · exact h.unborn
  · intro a
    rw [releasePeer_addressMap, h.map]
    cases haddress : (s.peers p).address with
    | none => rfl
    | some b =>
        by_cases hab : a = b
        · subst hab
          dsimp only
          rw [Function.update_self]
          cases hq : s.peerAddressMap a with
          | none => rfl
          | some q => simp [hmapped a haddress q hq]
        · simp [Function.update_of_ne hab]
  · rw [releasePeer_lists]
    exact h.lists
  · intro id
    rw [h.senders, releasePeer_senders]
    by_cases hid : I id.peer = true
    · simp [hid]
    · have hnot : id ∉ (s.peers p).senders := fun hmem => hid (h.ghostSenders p hp id hmem)
      simp [hid, hnot]
  · intro id
    rw [h.receivers, releasePeer_receivers]
    by_cases hid : I id = true
    · simp [hid]
    · have hnot : id ∉ (s.peers p).receivers := fun hmem => hid (h.ghostReceivers p hp id hmem)
      simp [hid, hnot]
  · intro q hq
    rw [releasePeer_peers]
    split
    · exact .inr (.inr rfl)
    · exact h.ghostState q hq
  · intro q x hq
    rw [releasePeer_peers]
    split
    · exact fun hx => absurd hx (by simp [Peer.cleanup])
    · exact h.ghostEntry q x hq
  · rw [releasePeer_lists]
    exact h.ghostList
  · intro q hq
    rw [releasePeer_peers]
    split
    · exact fun _ hid => absurd hid (by simp [Peer.cleanup])
    · exact h.ghostReceivers q hq
  · intro q hq
    rw [releasePeer_peers]
    split
    · exact fun _ hid => absurd hid (by simp [Peer.cleanup])
    · exact h.ghostSenders q hq
  · intro id sender q hsender hq
    obtain ⟨sender', hsender', hq'⟩ := sender_of_releasePeer hsender hq
    exact h.senderPeer id sender' q hsender' hq'
  · intro id r q hid hr hcanceled hq
    obtain ⟨hr', -⟩ := receiver_of_releasePeer hr hcanceled
    exact h.owned id r q hid hr' hcanceled hq
  · intro id r hid hr hcanceled
    obtain ⟨hr', hnotMem⟩ := receiver_of_releasePeer hr hcanceled
    refine (h.pending id r hid hr' hcanceled).of_listed fun q _ hq hmem => ?_
    rw [releasePeer_peers, if_neg (hne q hq)]
    exact hmem

theorem Hides.denyGhost (h : Hides I s d) (hp : I p = true)
    (hstate : (s.peers p).state = .request) (hmapped : Alone I s p) :
    Hides I (Server.denyPeer env s p) d := by
  have hunlinked := h.unlinkGhost hp .requesting
  have halone := hmapped.unlink .requesting
  unfold Server.denyPeer
  rw [hstate]
  dsimp only
  split
  · have hpushed := hunlinked.pushGhost hp (.inr rfl : PeerListName.denied = .requesting ∨ _)
    have hsent := hpushed.sendDeniedGhost env hp
    split
    · exact hsent
    · refine (hsent.unlinkGhost hp .denied).releaseGhost hp (Alone.unlink ?_ .denied)
      exact (sameTable_sendDenied env _ p).alone (halone.pushBack .denied)
  · exact hunlinked.releaseGhost hp halone

theorem Hides.setGhostReceiver (h : Hides I s d) {id : ReceiverId} (hid : I id = true)
    {receiver : Option Receiver}
    (hpending : ∀ r, receiver = some r → r.canceled = false → Pending I s id r) :
    Hides I (s.setReceiver id receiver) d := by
  refine { h with receivers := ?_, owned := ?_, pending := ?_ }
  · intro id'
    by_cases heq : id' = id
    · subst heq
      simpa [hid] using h.receivers id'
    · simpa [Server.setReceiver, Function.update_of_ne heq] using h.receivers id'
  · intro id' r q hid' hr
    have heq : id' ≠ id := by
      rintro rfl
      rw [hid] at hid'
      cases hid'
    exact h.owned id' r q hid' (by simpa [Server.setReceiver, Function.update_of_ne heq] using hr)
  · intro id' r hid' hr
    by_cases heq : id' = id
    · subst heq
      exact hpending r (by simpa [Server.setReceiver] using hr)
    · exact h.pending id' r hid'
        (by simpa [Server.setReceiver, Function.update_of_ne heq] using hr)

theorem handleReceiverComplete_none {t : Server} (hrunning : t.state = .running)
    (id : ReceiverId) (r : Receiver) :
    handleReceiverComplete env t p id r none =
      recvFailed env
        (if r.datagram.header.type = .response then
          t.modifyPeer p fun peer =>
            { peer with flags := { peer.flags with processingResponse := false } }
        else t) p r.datagram.header.type := by
  unfold handleReceiverComplete
  rw [if_neg (not_not.mpr hrunning)]

theorem Hides.failResponse (h : Hides I s d) (hp : I p = false) {id : ReceiverId}
    (hid : I id = true) (hmem : id ∈ (s.peers p).receivers) :
    Hides I
      (((s.setReceiver id none).modifyPeer p fun peer =>
        { peer with receivers := peer.receivers.erase id }).modifyPeer p fun peer =>
          { peer with flags := { peer.flags with processingResponse := false } }) d := by
  have hreleased : Hides I (s.setReceiver id none) d :=
    h.setGhostReceiver hid fun _ hr => absurd hr (by simp)
  have hfilter : ((s.peers p).receivers.erase id).filter (fun id => !I id) =
      (s.peers p).receivers.filter fun id => !I id := by
    rw [← List.erase_filter]
    refine List.erase_of_not_mem ?_
    simp [hid]
  have hinjected : ((s.peers p).receivers.filter I).isEmpty = false := by
    rw [Bool.eq_false_iff, ne_eq, List.isEmpty_iff, List.filter_eq_nil_iff]
    exact fun hnone => hnone id hmem hid
  rw [modifyPeer_modifyPeer, ← modifyPeer_self (t := d) (p := p) (f := fun peer => peer) rfl]
  refine hreleased.modifyPeer hp ?_ fun id' r hr _ hmem' => ?_
  · rw [h.peers p hp]
    unfold Peer.hide
    simp [Server.setReceiver, hfilter, hinjected]
  · refine (List.mem_erase_of_ne ?_).mpr hmem'
    rintro rfl
    simp [Server.setReceiver] at hr

theorem Hides.completeInjected (h : Hides I s d) (htable : Table s) (hrunning : s.state = .running)
    {id : ReceiverId} (hid : I id = true) (workerFailed : Bool) :
    Hides I (Server.receiverComplete env s id workerFailed) d := by
  have hreleased : Hides I (s.setReceiver id none) d :=
    h.setGhostReceiver hid fun _ hr => absurd hr (by simp)
  unfold Server.receiverComplete
  cases hr : s.receivers id with
  | none => exact h
  | some r =>
      dsimp only
      by_cases hcanceled : r.canceled = true
      · rw [if_pos hcanceled]
        exact hreleased
      rw [if_neg hcanceled]
      rw [Bool.not_eq_true] at hcanceled
      obtain ⟨hnone, p, hp, hkind⟩ := h.pending id r hid hr hcanceled
      rw [hp, hnone, ite_self]
      dsimp only
      have hstill : ((s.setReceiver id none).modifyPeer p fun peer =>
          { peer with receivers := peer.receivers.erase id }).state = .running := hrunning
      rw [handleReceiverComplete_none hstill]
      rcases hkind with ⟨hghost, htype⟩ | ⟨hgenuine, htype, hmem⟩
      · have hsame : SameTable s ((s.setReceiver id none).modifyPeer p fun peer =>
            { peer with receivers := peer.receivers.erase id }) :=
          (sameTable_setReceiver s id none).trans (sameTable_modifyPeer _ p _ rfl rfl rfl)
        have herased : Hides I ((s.setReceiver id none).modifyPeer p fun peer =>
            { peer with receivers := peer.receivers.erase id }) d := by
          refine hreleased.writeGhost hghost (fun _ => rfl) (fun _ => rfl) ?_ ?_
          · exact fun peer id' hmem => .inr (List.mem_of_mem_erase hmem)
          · exact fun _ _ hmem => .inr hmem
        rw [htype, if_neg (by decide)]
        change Hides I (recvRequestFailed env _ p) d
        unfold recvRequestFailed
        split
        · exact herased
        · rename_i hstate
          rw [not_not] at hstate
          refine herased.denyGhost hghost hstate (hsame.alone ?_)
          exact htable.alone hghost .requesting ((hsame.state p).symm.trans hstate)
      · rw [htype, if_pos rfl]
        exact h.failResponse hgenuine hid hmem

theorem Hides.sentDeniedGhost (h : Hides I s d) (hp : I p = true)
    (hmapped : (s.peers p).state = .denied → Alone I s p) : Hides I (Server.sentDenied s p) d := by
  unfold Server.sentDenied
  split
  · exact h
  · rename_i hstate
    exact (h.unlinkGhost hp .denied).releaseGhost hp ((hmapped (not_not.mp hstate)).unlink .denied)

theorem Hides.senderCompleteGhost (h : Hides I s d) (htable : Table s) {id : SenderId}
    (hid : I id.peer = true) (failed : Bool) : Hides I (Server.senderComplete s id failed) d := by
  have hreleased : Hides I (s.setSender id none) d :=
    h.setGhostSender hid fun _ _ hr => absurd hr (by simp)
  unfold Server.senderComplete
  cases hr : s.senders id with
  | none => exact h
  | some sender =>
      dsimp only
      split
      · exact hreleased
      cases hpeer : sender.peer with
      | none => exact hreleased
      | some p =>
          obtain rfl := h.senderPeer id sender p hr hpeer
          have hsame : SameTable s ((s.setSender id none).modifyPeer id.peer fun peer =>
              { peer with senders := peer.senders.erase id }) :=
            (sameTable_setSender s id none).trans (sameTable_modifyPeer _ _ _ rfl rfl rfl)
          have herased : Hides I ((s.setSender id none).modifyPeer id.peer fun peer =>
              { peer with senders := peer.senders.erase id }) d := by
            refine hreleased.writeGhost hid (fun _ => rfl) (fun _ => rfl) ?_ ?_
            · exact fun _ _ hmem => .inr hmem
            · exact fun peer id' hmem => .inr (List.mem_of_mem_erase hmem)
          dsimp only
          split
          · exact herased
          split
          · exact herased
          split
          · refine herased.sentDeniedGhost hid fun hstate => hsame.alone ?_
            exact htable.alone hid .denied ((hsame.state _).symm.trans hstate)
          · exact herased

theorem Hides.acquireGhost (h : Hides I s d) (htick : I s.tick = true) {address : Address}
    (hfree : s.peerAddressMap address = none) : Hides I (s.acquirePeer env address) d := by
  have hne : ∀ q, I q = false → q ≠ s.tick := by
    rintro q hq rfl
    rw [htick] at hq
    cases hq
  refine { h with peers := ?_, map := ?_, ghostState := ?_, ghostEntry := ?_,
                  ghostReceivers := ?_, ghostSenders := ?_, pending := ?_ }
  · intro q hq
    simpa [Server.acquirePeer, Function.update_of_ne (hne q hq)] using h.peers q hq
  · intro a
    by_cases ha : a = address
    · subst ha
      simp [Server.acquirePeer, h.map, hfree, htick, Option.filter]
    · simpa [Server.acquirePeer, Function.update_of_ne ha] using h.map a
  · intro q hq
    by_cases hqt : q = s.tick
    · subst hqt
      simp [Server.acquirePeer, Peer.init, Peer.cleanup]
    · simpa [Server.acquirePeer, Function.update_of_ne hqt] using h.ghostState q hq
  · intro q x hq
    by_cases hqt : q = s.tick
    · subst hqt
      simp [Server.acquirePeer, Peer.init, Peer.cleanup]
    · simpa [Server.acquirePeer, Function.update_of_ne hqt] using h.ghostEntry q x hq
  · intro q hq
    by_cases hqt : q = s.tick
    · subst hqt
      simp [Server.acquirePeer, Peer.init, Peer.cleanup]
    · simpa [Server.acquirePeer, Function.update_of_ne hqt] using h.ghostReceivers q hq
  · intro q hq
    by_cases hqt : q = s.tick
    · subst hqt
      simp [Server.acquirePeer, Peer.init, Peer.cleanup]
    · simpa [Server.acquirePeer, Function.update_of_ne hqt] using h.ghostSenders q hq
  · intro id r hid hr hcanceled
    refine (h.pending id r hid hr hcanceled).of_listed fun q _ hq hmem => ?_
    simpa [Server.acquirePeer, Function.update_of_ne (hne q hq)] using hmem

variable (env) in
theorem Hides.validateGhost (h : Hides I s d) (htick : I s.tick = true) (address : Address)
    (body : RequestBody) :
    Hides I (Server.validateRequest env s address body).1 d ∧
      ∀ p, (Server.validateRequest env s address body).2 = some p → I p = true := by
  unfold Server.validateRequest
  split
  · exact ⟨h, fun p hp => absurd hp (by simp)⟩
  rename_i hmapped
  split
  · exact ⟨h, fun p hp => absurd hp (by simp)⟩
  split
  · have hacquired : Hides I (s.acquirePeer env address) d :=
      h.acquireGhost htick (by simpa using hmapped)
    dsimp only
    split
    · refine ⟨?_, fun p hp => Option.some.inj hp ▸ htick⟩
      have hpushed := hacquired.pushGhost htick
        (.inl rfl : PeerListName.requesting = .requesting ∨ _)
      dsimp only
      refine Hides.writeGhost hpushed htick ?_ ?_ ?_ ?_
      · exact fun _ => rfl
      · exact fun _ => rfl
      · exact fun _ _ hmem => .inr hmem
      · exact fun _ _ hmem => .inr hmem
    · refine ⟨hacquired.releaseGhost htick ?_, fun p hp => absurd hp (by simp)⟩
      intro a ha q hq
      have haddress : address = a := by simpa [Server.acquirePeer] using ha
      subst haddress
      simp only [Server.acquirePeer, Function.update_self, Option.some.injEq] at hq
      exact hq ▸ htick
  · exact ⟨h, fun p hp => absurd hp (by simp)⟩

theorem validatePacketOf_refused {address : Address} {header : Header}
    (hrefused : (validatePacketOf s address header).2 = none) :
    (validatePacketOf s address header).1 = s := by
  unfold validatePacketOf at hrefused ⊢
  cases hmapped : s.peerAddressMap address with
  | none => rfl
  | some p =>
      rw [hmapped] at hrefused
      have hprotect : ∀ sequence, (if (s.peers p).state ≠ .connected then (s, none)
            else
              let r := (s.peers p).protectReplay sequence
              (s.modifyPeer p fun _ => r.1, if r.2 then some p else none)).2 = none →
          (if (s.peers p).state ≠ .connected then (s, none)
            else
              let r := (s.peers p).protectReplay sequence
              (s.modifyPeer p fun _ => r.1, if r.2 then some p else none)).1 = s := by
        intro sequence hnone
        split at hnone
        · rename_i hstate
          rw [if_pos hstate]
        · rename_i hstate
          rw [if_neg hstate]
          dsimp only at hnone ⊢
          cases hpasses : ((s.peers p).protectReplay sequence).2 with
          | true =>
              rw [hpasses] at hnone
              cases hnone
          | false => exact modifyPeer_self (protectReplay_rejected hpasses)
      cases htype : header.type with
      | response =>
          dsimp only
          split
          · rfl
          split
          · rfl
          · rfl
      | payload =>
          rw [htype] at hrefused
          exact hprotect _ hrefused
      | keepAlive =>
          rw [htype] at hrefused
          exact hprotect _ hrefused
      | disconnect =>
          rw [htype] at hrefused
          exact hprotect _ hrefused
      | request => rfl
      | denied => rfl
      | challenge => rfl

theorem Hides.submitGhost (h : Hides I s d) (hp : I p = true) (htick : I s.tick = true)
    {datagram : Datagram} (htype : datagram.header.type = .request)
    (hfails : processEntry (s.cryptoCtx p) datagram = none) :
    Hides I (Server.submitReceiver env s p datagram) d := by
  unfold Server.submitReceiver
  dsimp only
  refine Hides.modifyGhost ?_ hp (h.ghostState p hp) (fun x => h.ghostEntry p x hp) ?_
    (h.ghostSenders p hp)
  · refine h.setGhostReceiver htick fun r hr _ => ?_
    cases hr
    exact ⟨hfails, p, rfl, .inl ⟨hp, htype⟩⟩
  · intro id hid
    rcases List.mem_append.mp hid with hid | hid
    · exact h.ghostReceivers p hp id hid
    · rw [List.mem_singleton.mp hid]
      exact htick

theorem Hides.submitInjected (h : Hides I s d) (hp : I p = false) (htick : I s.tick = true)
    {datagram : Datagram} (htype : datagram.header.type = .response)
    (hflag : (s.peers p).flags.processingResponse = false)
    (hfails : processEntry (s.cryptoCtx p) datagram = none) :
    Hides I (Server.submitReceiver env s p datagram) d := by
  have hlisted : Hides I (s.modifyPeer p fun peer => { peer with
      receivers := peer.receivers ++ [s.tick]
      flags := { peer.flags with processingResponse := true } }) d := by
    rw [← modifyPeer_self (t := d) (p := p) (f := fun peer => peer) rfl]
    refine h.modifyPeer hp ?_ fun id r _ _ hmem => List.mem_append_left _ hmem
    rw [h.peers p hp]
    unfold Peer.hide
    simp [List.filter_append, htick, hflag]
  unfold Server.submitReceiver
  simp only [htype, if_true]
  refine Hides.setGhostReceiver hlisted htick fun r hr _ => ?_
  cases hr
  refine ⟨hfails, p, rfl, .inr ⟨hp, htype, ?_⟩⟩
  simp [Server.modifyPeer]

theorem type_of_passing {address : Address} {header : Header} {q : PeerId}
    (hpassed : (validatePacketOf s address header).2 = some q) :
    header.type = .response ∨ header.type.isProtected = true := by
  unfold validatePacketOf at hpassed
  cases hmapped : s.peerAddressMap address with
  | none =>
      rw [hmapped] at hpassed
      cases hpassed
  | some p =>
      rw [hmapped] at hpassed
      cases htype : header.type with
      | response => exact .inl rfl
      | payload => exact .inr rfl
      | keepAlive => exact .inr rfl
      | disconnect => exact .inr rfl
      | _ =>
          rw [htype] at hpassed
          cases hpassed

/-- What becomes of an injected datagram that does not pass replay protection: it is a request
of a new peer, a response of a challenged one, or nothing. -/
theorem Hides.validateInjected (h : Hides I s d) (htick : I s.tick = true) (address : Address)
    (datagram : Datagram)
    (hblocked : datagram.header.type.isProtected = true →
      (Server.validateIncoming env s address datagram).2 = none) :
    Hides I (Server.validateIncoming env s address datagram).1 d ∧
      ∀ p, (Server.validateIncoming env s address datagram).2 = some p →
        I p = true ∧ datagram.header.type = .request ∨
          I p = false ∧ datagram.header.type = .response ∧
            ((Server.validateIncoming env s address datagram).1.peers p).flags.processingResponse =
              false := by
  have hresponse : ∀ t p, Server.validateIncoming env s address datagram = (t, some p) →
      datagram.header.type = .response →
        t = s ∧ (s.peers p).state = .challenge ∧ (s.peers p).flags.processingResponse = false := by
    intro t p hv htype
    obtain ⟨rfl, -, -, hstate, hflag⟩ := response_validated hv htype
    exact ⟨rfl, hstate, hflag⟩
  unfold Server.validateIncoming at hblocked hresponse ⊢
  split
  · exact ⟨h, fun p hp => absurd hp (by simp)⟩
  rename_i hrunning
  rw [if_neg hrunning] at hblocked hresponse
  split
  · exact ⟨h, fun p hp => absurd hp (by simp)⟩
  rename_i hlength
  rw [if_neg hlength] at hblocked hresponse
  cases datagram with
  | request sequence body =>
      obtain ⟨hhides, hghost⟩ := h.validateGhost env htick address body
      exact ⟨hhides, fun p hp => .inl ⟨hghost p hp, rfl⟩⟩
  | packet header body =>
      dsimp only at hblocked hresponse ⊢
      cases hv : Server.validatePacketOf s address header with
      | mk t passed =>
          rw [hv] at hblocked hresponse
          cases passed with
          | none =>
              have hrefused := validatePacketOf_refused (congrArg Prod.snd hv)
              rw [hv] at hrefused
              exact ⟨hrefused ▸ h, fun p hp => absurd hp (by simp)⟩
          | some p =>
              have htype : header.type = .response := by
                refine (type_of_passing (congrArg Prod.snd hv)).resolve_right fun hprotected => ?_
                exact absurd (hblocked hprotected) (by simp)
              obtain ⟨rfl, hstate, hflag⟩ := hresponse t p rfl htype
              refine ⟨h, fun q hq => .inr ?_⟩
              obtain rfl : p = q := Option.some.inj hq
              refine ⟨?_, htype, hflag⟩
              by_contra hghost
              rw [Bool.not_eq_false] at hghost
              rcases h.ghostState p hghost with hother | hother | hother
              all_goals
                rw [hstate] at hother
                cases hother

theorem Hides.acceptInjected (h : Hides I s d) (htick : I s.tick = true) (address : Address)
    (datagram : Datagram)
    (hfails : ∀ r, (Server.accept env s address datagram).receivers s.tick = some r →
      processEntry r.cryptoCtx r.datagram = none)
    (hblocked : datagram.header.type.isProtected = true →
      (Server.validateIncoming env s address datagram).2 = none) :
    Hides I (Server.accept env s address datagram) d := by
  obtain ⟨hhides, hkind⟩ := h.validateInjected htick address datagram hblocked
  have hsame := tick_validateIncoming env s address datagram
  unfold Server.accept at hfails ⊢
  cases hv : Server.validateIncoming env s address datagram with
  | mk t passed =>
      rw [hv] at hhides hkind hsame hfails
      dsimp only at hhides hkind hsame
      cases passed with
      | none => exact hhides
      | some p =>
          dsimp only at hfails ⊢
          split
          · rename_i hacquired
            rw [if_pos hacquired, ← hsame] at hfails
            have hnone : processEntry (t.cryptoCtx p) datagram = none := by
              refine hfails ⟨some p, t.cryptoCtx p, datagram, env.hrtime, false⟩ ?_
              simp [Server.submitReceiver, Server.modifyPeer, Server.setReceiver, Server.note,
                Server.cryptoCtx]
            rw [← hsame] at htick
            rcases hkind p rfl with ⟨hghost, htype⟩ | ⟨hgenuine, htype, hflag⟩
            · exact (hhides.noteGhost _).submitGhost hghost htick htype hnone
            · exact (hhides.noteGhost _).submitInjected hgenuine htick htype hflag hnone
          · exact hhides.noteGhost _

theorem Hides.ticked (h : Hides I s d) : Hides I s.ticked d.ticked := by
  refine { h with fixed := ?_ }
  have hfixed := h.fixed
  simp only [Server.fixed, Prod.mk.injEq] at hfixed
  simp [Server.fixed, hfixed]

theorem Hides.absent (h : Hides I s d) (env : Env) :
    (∀ id workerFailed, I id = true → Server.receiverComplete env d id workerFailed = d) ∧
      (∀ id failed, I id.peer = true → Server.senderComplete d id failed = d) ∧
        (∀ p views, I p = true → Server.socketSend env d p views = d) ∧
          ∀ p, I p = true → Server.disconnectPeer env d p = d := by
  refine ⟨fun id workerFailed hid => ?_, fun id failed hid => ?_, fun p views hp => ?_,
    fun p hp => ?_⟩
  · unfold Server.receiverComplete
    rw [h.receivers, if_pos hid]
  · unfold Server.senderComplete
    rw [h.senders, if_pos hid]
  · unfold Server.socketSend
    rw [if_neg]
    simp [Server.sendable, h.unborn p hp]
  · unfold Server.disconnectPeer
    rw [if_pos]
    simp [h.unborn p hp]

theorem Hides.idleGhost (h : Hides I s d) (env : Env) (hp : I p = true) :
    (∀ views, Server.socketSend env s p views = s) ∧ Server.disconnectPeer env s p = s := by
  have hstate : (s.peers p).state ≠ .connected := by
    rcases h.ghostState p hp with hstate | hstate | hstate <;> simp [hstate]
  refine ⟨fun views => ?_, if_pos hstate⟩
  unfold Server.socketSend
  rw [if_neg]
  simp [Server.sendable, hstate]

theorem Hides.handle (h : Hides I s d) (htable : Table s) (hrunning : s.state = .running)
    (htick : I s.tick = false)
    (hnew : ∀ id r, s.receivers id = some r → r.peer ≠ some s.tick) {event : Event}
    (hclear : ∀ address datagram, event = .accept address datagram →
      s.unhindered I env address datagram = true)
    (hstop : event ≠ .stop) :
    Hides I (Server.handle env s event) (Server.handle env d event) := by
  obtain ⟨hreceiver, hsender, hsend, hdisconnect⟩ := h.absent env
  cases event with
  | accept address datagram =>
      exact h.accept htick hnew address datagram (hclear address datagram rfl)
  | receiverComplete id workerFailed =>
      cases hid : I id with
      | false => exact h.receiverComplete hid workerFailed
      | true =>
          have hnothing : Server.handle env d (.receiverComplete id workerFailed) = d :=
            hreceiver id workerFailed hid
          rw [hnothing]
          exact h.completeInjected htable hrunning hid workerFailed
  | senderComplete id failed =>
      cases hid : I id.peer with
      | false => exact h.senderComplete hid failed
      | true =>
          have hnothing : Server.handle env d (.senderComplete id failed) = d :=
            hsender id failed hid
          rw [hnothing]
          exact h.senderCompleteGhost htable hid failed
  | send p views =>
      cases hp : I p with
      | false => exact h.socketSend hp views
      | true =>
          have hnothing : Server.handle env d (.send p views) = d := hsend p views hp
          have hidle : Server.handle env s (.send p views) = s := (h.idleGhost env hp).1 views
          rw [hnothing, hidle]
          exact h
  | disconnectPeer p =>
      cases hp : I p with
      | false => exact h.disconnectPeer hp
      | true =>
          have hnothing : Server.handle env d (.disconnectPeer p) = d := hdisconnect p hp
          have hidle : Server.handle env s (.disconnectPeer p) = s := (h.idleGhost env hp).2
          rw [hnothing, hidle]
          exact h
  | keepAliveTick => exact h.broadcastKeepAlive
  | disconnectTick => exact h.broadcastDisconnect
  | scanTick => exact h.scanChallengingPeers
  | stop => exact absurd rfl hstop
  | stopDeferred =>
      have hsame : ∀ t : Server, t.state = .running → Server.handle env t .stopDeferred = t := by
        intro t ht
        unfold Server.handle
        dsimp only
        rw [ht, if_neg (by decide)]
      rw [hsame s hrunning, hsame d (h.state.trans hrunning)]
      exact h
  | idle => exact h

theorem Hides.step (h : Hides I s d) (htable : Table s) (hnamed : Named s)
    (hrunning : s.state = .running) {e : Marked Input} (htick : I (s.tick + 1) = e.injected)
    (hforged : s.forged e = true) (hharmless : s.harmless I e = true)
    (hstop : e.input.event ≠ .stop) :
    Hides I (Server.step s e.input) (withoutInjected d e).1 := by
  obtain ⟨injected, env, event⟩ := e
  cases injected with
  | false =>
      refine h.ticked.handle htable.ticked hrunning htick ?_ ?_ hstop
      · intro id r hr hp
        exact absurd (hnamed.peers id r _ hr hp) (by simp)
      · rintro address datagram rfl
        exact hharmless
  | true =>
      cases event with
      | accept address datagram =>
          refine h.ticked.acceptInjected htick address datagram ?_ ?_
          · intro r hr
            have hfails : (((Server.step s ⟨env, .accept address datagram⟩).receivers
                (s.tick + 1)).all fun r =>
                  (processEntry r.cryptoCtx r.datagram).isNone) = true := hforged
            have hreceiver :
                (Server.step s ⟨env, .accept address datagram⟩).receivers (s.tick + 1) =
                  some r := hr
            rw [hreceiver] at hfails
            exact Option.isNone_iff_eq_none.mp hfails
          · exact validateIncoming_refused env hharmless
      | _ => cases hforged

end Ghosts

end Server

end Protocol

end PomeloUdp
