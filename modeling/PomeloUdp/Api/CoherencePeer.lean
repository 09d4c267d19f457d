import PomeloUdp.Api.CoherenceSession

/-!
# The peers of a socket keep the objects together

A peer gets a session when it becomes connected and loses it when it leaves that
state; in between, and before and after, its changes concern no session. When
the protocol socket of a client stops, no session has a peer.
-/

namespace PomeloUdp

namespace Api

open Protocol

namespace Stack

variable {st : Stack} {p : PeerId} {tasks : List Task}

theorem Coherent.submit_receives (h : Coherent st st.lifecycle) {task : Task} {b : BusId}
    (ht : task.receives = some b) : Coherent (st.submit task) (st.submit task).lifecycle := by
  have hlifecycle : task.lifecycle = true := by
    cases hfalse : task.lifecycle with
    | true => rfl
    | false =>
        rw [receives_none hfalse] at ht
        cases ht
  have hne : ∀ t, t.receives = none → task ≠ t := by
    intro t hnone heq
    rw [heq, hnone] at ht
    cases ht
  refine h.congr rfl rfl rfl rfl rfl rfl rfl (fun _ => id)
    (nodup_lifecycle_submit hlifecycle h.dying.nodup) ?_ ?_
  · intro t hnone
    rw [mem_lifecycle_submit hlifecycle]
    exact ⟨fun hmem => hmem.resolve_left fun heq => hne t hnone heq.symm, Or.inr⟩
  · intro e hahead
    exact ahead_lifecycle_submit hlifecycle (hne _ rfl) (hne _ rfl) hahead

theorem Coherent.of_attached {st' : Stack} {tasks' : List Task} (h : Coherent st tasks)
    (hsessions : st'.sessions = st.sessions) (hendpoints : st'.endpoints = st.endpoints)
    (hbuses : st'.buses = st.buses) (hsocket : st'.socketState = st.socketState)
    (hnodup : tasks'.Nodup) (htasks : ∀ t, t ≠ .protocolStop → (t ∈ tasks' ↔ t ∈ tasks))
    (hahead : ∀ e, Sequencer.Ahead (.endpointStop e) (.endpointDestroy e) tasks →
      Sequencer.Ahead (.endpointStop e) (.endpointDestroy e) tasks')
    (hattached : Attached st' tasks') : Coherent st' tasks' where
  linked := h.linked.congr (fun s => by rw [hsessions]) (fun s => by rw [hsessions])
    (fun e => by rw [hendpoints]) (fun e => by rw [hendpoints]) (fun e => by rw [hendpoints])
    (fun b => by rw [hbuses]) (fun b => by rw [hbuses])
  attached := hattached
  dying := h.dying.congr hnodup (fun e => (htasks _ (by simp)).mp)
    (fun e => (htasks _ (by simp)).mp) hahead
    (fun e => by rw [hendpoints]) (fun e => by rw [hendpoints]) (fun e => by rw [hendpoints])
    (fun b => Or.inl (by rw [hbuses])) (fun b hb => Or.inl (by rwa [hbuses]))
  readied := h.readied.congr (fun e => htasks _ (by simp))
    (fun e s he => by rwa [hendpoints] at he)
    (fun e => by rw [hendpoints]) (fun s => by rw [hsessions])
  received := h.received.congr (fun b => by rw [hbuses]) (fun b => by rw [hbuses])
    (fun b => Or.inl (by rw [hbuses])) (fun b hb => Or.inl (by rwa [hbuses]))
    (fun e => by rw [hendpoints]) (fun e he => by rwa [hendpoints])
    (fun e s he => by rwa [hendpoints] at he) (fun s hs => by rwa [hsessions])
  running := ⟨hsocket.trans h.running.1, fun hmem => h.running.2 ((htasks _ (by simp)).mp hmem)⟩

theorem Coherent.setPeer (h : Coherent st tasks) {slot : PeerSlot}
    (hextra : slot.extra = (st.peers p).extra)
    (hstate : (st.peers p).extra = none ∨ slot.state = (st.peers p).state) :
    Coherent (st.setPeer p slot) tasks := by
  refine h.of_attached rfl rfl rfl rfl h.dying.nodup (fun _ _ => Iff.rfl) (fun _ => id) ?_
  constructor
  · intro s q hq
    obtain ⟨hlive, hpeer, hconnected, hrest⟩ := h.attached.peer_of_session s q hq
    rw [setPeer_peers]
    split
    next heq =>
      subst heq
      refine ⟨hlive, hextra.trans hpeer, ?_, hrest⟩
      rcases hstate with hnone | hkept
      · rw [hnone] at hpeer
        cases hpeer
      · exact hkept.trans hconnected
    next => exact ⟨hlive, hpeer, hconnected, hrest⟩
  · intro q s hs
    rw [setPeer_peers] at hs
    split at hs
    next heq =>
      rw [heq]
      exact h.attached.session_of_peer p s (hextra.symm.trans hs)
    next => exact h.attached.session_of_peer q s hs
  · exact h.attached.leaving
  · exact h.attached.incoming
  · exact h.attached.stopping

theorem Coherent.setIncoming (h : Coherent st tasks) {incoming : List IncomingPacket}
    (hincoming : ∀ packet ∈ incoming, packet ∈ st.incoming) :
    Coherent { st with incoming := incoming } tasks :=
  h.congr rfl rfl rfl rfl rfl rfl rfl hincoming h.dying.nodup (fun _ _ => Iff.rfl) fun _ => id

theorem Coherent.addIncoming (h : Coherent st tasks) {type : PacketType}
    (hclient : ∀ q, st.mode = .client q → q = some p) :
    Coherent { st with incoming := st.incoming ++ [⟨p, type⟩] } tasks := by
  refine h.of_attached rfl rfl rfl rfl h.dying.nodup (fun _ _ => Iff.rfl) (fun _ => id) ?_
  refine ⟨h.attached.peer_of_session, h.attached.session_of_peer, h.attached.leaving, ?_,
    h.attached.stopping⟩
  intro q hq packet hpacket
  rcases List.mem_append.mp hpacket with hold | hnew
  · exact h.attached.incoming q hq packet hold
  · rw [List.mem_singleton.mp hnew]
    exact hclient q hq

theorem Coherent.releasePeer (h : Coherent st tasks) (hextra : (st.peers p).extra = none) :
    Coherent (st.releasePeer p) tasks := by
  have hfree : Coherent (st.setPeer p {}) tasks := h.setPeer hextra.symm (Or.inl hextra)
  exact hfree.setIncoming fun _ => List.mem_of_mem_filter

/-- The session of a peer loses it. -/
theorem Coherent.detach (h : Coherent st st.lifecycle) {s : SessionId} {slot : PeerSlot}
    (hextra : (st.peers p).extra = some s) (hnone : slot.extra = none) {session : Session}
    (hpeer : session.peer = none) (hsignature : session.signature = (st.sessions s).signature)
    (hendpoint : session.endpoint = (st.sessions s).endpoint)
    (hready : session.ready = (st.sessions s).ready) :
    Coherent (((st.setPeer p slot).setSession s session).submit (.sessionOnDisconnected s))
      (((st.setPeer p slot).setSession s session).submit (.sessionOnDisconnected s)).lifecycle := by
  have hattached := h.attached.session_of_peer p s hextra
  obtain ⟨hlive, -, -, -⟩ := h.attached.peer_of_session s p hattached
  let st' := (st.setPeer p slot).setSession s session
  have hsignatures : ∀ s', (st'.sessions s').signature = (st.sessions s').signature :=
    setSession_field _ hsignature
  have hendpoints : ∀ s', (st'.sessions s').endpoint = (st.sessions s').endpoint :=
    setSession_field _ hendpoint
  have hreadys : ∀ s', (st'.sessions s').ready = (st.sessions s').ready :=
    setSession_field _ hready
  have hmem : ∀ t, t ∈ (st'.submit (.sessionOnDisconnected s)).lifecycle ↔
      t = .sessionOnDisconnected s ∨ t ∈ st.lifecycle := fun t => mem_lifecycle_submit rfl
  have hpeers : ∀ q, q ≠ p → st'.peers q = st.peers q := fun q hne => by
    change (st.setPeer p slot).peers q = _
    rw [setPeer_peers, if_neg hne]
  have hslot : st'.peers p = slot := by
    change (st.setPeer p slot).peers p = _
    rw [setPeer_peers, if_pos rfl]
  have hsession : st'.sessions s = session := by
    change (Stack.setSession _ s session).sessions s = _
    rw [setSession_sessions, if_pos rfl]
  have hother : ∀ s', s' ≠ s → st'.sessions s' = st.sessions s' := fun s' hne => by
    change (Stack.setSession _ s session).sessions s' = _
    rw [setSession_sessions, if_neg hne]
    rfl
  refine ⟨?_, ?_, ?_, ?_, ?_, h.running.1, ?_⟩
  · exact h.linked.congr hsignatures hendpoints (fun _ => rfl) (fun _ => rfl) (fun _ => rfl)
      (fun _ => rfl) (fun _ => rfl)
  · constructor
    · intro s' q hq
      change (st'.sessions s').peer = some q at hq
      change (st'.sessions s').signature ≠ 0 ∧ (st'.peers q).extra = some s' ∧ _
      have hne : s' ≠ s := by
        intro heq
        rw [heq, hsession, hpeer] at hq
        cases hq
      rw [hother s' hne] at hq ⊢
      obtain ⟨hlive', hextra', hrest⟩ := h.attached.peer_of_session s' q hq
      have hneq : q ≠ p := by
        intro heq
        rw [heq, hextra] at hextra'
        exact hne (Option.some.inj hextra').symm
      change _ ∧ _ ∧ (st'.peers q).state = _ ∧ _
      rw [hpeers q hneq]
      exact ⟨hlive', hextra', hrest⟩
    · intro q s' hs'
      change (st'.peers q).extra = some s' at hs'
      change (st'.sessions s').peer = some q
      have hneq : q ≠ p := by
        intro heq
        rw [heq, hslot, hnone] at hs'
        cases hs'
      rw [hpeers q hneq] at hs'
      have hold := h.attached.session_of_peer q s' hs'
      rw [hother s' fun heq => hneq ?_]
      · exact hold
      · rw [heq, hattached] at hold
        exact (Option.some.inj hold).symm
    · intro s'
      rw [hmem]
      change _ ↔ (st'.sessions s').signature ≠ 0 ∧ (st'.sessions s').peer = none
      by_cases heq : s' = s
      · rw [heq, hsession, hpeer, hsignature]
        simpa using hlive
      · rw [hother s' heq, ← h.attached.leaving s']
        simp [heq]
    · exact h.attached.incoming
    · intro hstop
      rw [hmem] at hstop
      exact h.attached.stopping (by simpa using hstop)
  · exact h.dying.congr (nodup_lifecycle_submit rfl h.dying.nodup)
      (fun e he => by rw [hmem] at he; simpa using he)
      (fun e he => by rw [hmem] at he; simpa using he)
      (fun e hahead => ahead_lifecycle_submit rfl (by simp) (by simp) hahead)
      (fun _ => rfl) (fun _ => rfl) (fun _ => rfl) (fun _ => Or.inl rfl) (fun _ => Or.inl)
  · exact h.readied.congr (fun e => by rw [hmem]; simp) (fun _ _ => id) (fun _ => rfl) hreadys
  · exact h.received.congr (fun _ => rfl) (fun _ => rfl) (fun _ => Or.inl rfl) (fun _ => Or.inl)
      (fun _ => rfl) (fun _ => id) (fun _ _ => id) (fun s' hs' => (hreadys s').trans hs')
  · rw [hmem]
    simpa using h.running.2

theorem sessionOnDisconnected_eq (st : Stack) {s : SessionId}
    (hpeer : (st.sessions s).peer = some p) :
    st.sessionOnDisconnected s =
      ((st.setPeer p { st.peers p with extra := none }).setSession s
        { st.sessions s with peer := none, state := .disconnected }).submit
          (.sessionOnDisconnected s) := by
  unfold Stack.sessionOnDisconnected Stack.detachPeer
  rw [hpeer]
  simp [Stack.setSession, Stack.setPeer]

theorem coherent_leave (p : PeerId) (state : PeerState) (h : Coherent st st.lifecycle) :
    Coherent ((st.setPeerState p state).protocolOnDisconnected p)
        ((st.setPeerState p state).protocolOnDisconnected p).lifecycle ∧
      (((st.setPeerState p state).protocolOnDisconnected p).peers p).extra = none := by
  unfold Stack.protocolOnDisconnected
  have hextra : ((st.setPeerState p state).peers p).extra = (st.peers p).extra := by
    unfold Stack.setPeerState
    rw [setPeer_peers, if_pos rfl]
  rw [hextra]
  cases hs : (st.peers p).extra with
  | none =>
      refine ⟨?_, hextra.trans hs⟩
      exact h.setPeer rfl (Or.inl hs)
  | some s =>
      have hpeer := h.attached.session_of_peer p s hs
      dsimp only
      rw [sessionOnDisconnected_eq (st.setPeerState p state) hpeer]
      have hslot : (st.setPeerState p state).setPeer p
          { (st.setPeerState p state).peers p with extra := none } =
            st.setPeer p { st.peers p with extra := none, state := state } := by
        simp [Stack.setPeerState, Stack.setPeer]
      rw [hslot]
      refine ⟨h.detach hs rfl rfl rfl rfl rfl, ?_⟩
      change ((st.setPeer p _).peers p).extra = none
      rw [setPeer_peers, if_pos rfl]

theorem Coherent.peer_none (h : Coherent st tasks) (hmode : st.mode = .client (some p))
    (hextra : (st.peers p).extra = none) (s : SessionId) : (st.sessions s).peer = none := by
  cases hpeer : (st.sessions s).peer with
  | none => rfl
  | some q =>
      obtain ⟨-, hq, -, -, hclient⟩ := h.attached.peer_of_session s q hpeer
      rw [Option.some.inj (hclient _ hmode), hq] at hextra
      cases hextra

theorem coherent_protocolSocketStop (h : Coherent st st.lifecycle)
    (hmode : st.mode = .client (some p)) (hextra : (st.peers p).extra = none) :
    Coherent st.protocolSocketStop st.protocolSocketStop.lifecycle := by
  unfold Stack.protocolSocketStop
  split
  next =>
    have hmem : ∀ t, t ∈ ({ st with protocolState := .stopping }.submit .protocolStop).lifecycle ↔
        t = .protocolStop ∨ t ∈ st.lifecycle := fun t => mem_lifecycle_submit rfl
    refine h.of_attached rfl rfl rfl rfl (nodup_lifecycle_submit rfl h.dying.nodup)
      (fun t ht => by rw [hmem]; exact ⟨fun hmem' => hmem'.resolve_left ht, Or.inr⟩)
      (fun e hahead => ahead_lifecycle_submit rfl (by simp) (by simp) hahead) ?_
    refine ⟨?_, h.attached.session_of_peer, ?_, h.attached.incoming, fun _ => by simp [submit]⟩
    · intro s q hq
      change (st.sessions s).peer = some q at hq
      rw [h.peer_none hmode hextra s] at hq
      cases hq
    · intro s
      rw [hmem]
      change _ ↔ (st.sessions s).signature ≠ 0 ∧ (st.sessions s).peer = none
      simpa using h.attached.leaving s
  next => exact h

/-- The end of a protocol socket that has stopped: no session had a peer. -/
theorem coherent_protocolStopDeferred (h : Coherent st (.protocolStop :: st.lifecycle)) :
    Coherent st.protocolStopDeferred st.protocolStopDeferred.lifecycle := by
  have hstopped := h.attached.stopping List.mem_cons_self
  have hpeer : ∀ s, (st.sessions s).peer = none := by
    intro s
    cases hs : (st.sessions s).peer with
    | none => rfl
    | some q => exact absurd (h.attached.peer_of_session s q hs).2.2.2.1 hstopped
  have hextra : ∀ q, (st.peers q).extra = none := by
    intro q
    cases hq : (st.peers q).extra with
    | none => rfl
    | some s =>
        have hs := h.attached.session_of_peer q s hq
        rw [hpeer s] at hs
        cases hs
  have hwaiting : ∀ st', st'.sessions = st.sessions → st'.endpoints = st.endpoints →
      st'.buses = st.buses → st'.socketState = st.socketState → st'.queue = st.queue →
      (∀ q, (st'.peers q).extra = none) → st'.protocolState ≠ .running →
      (∀ q, st'.mode = .client q → ∀ packet ∈ st'.incoming, q = some packet.peer) →
      Coherent st' st'.lifecycle := by
    intro st' hsessions hendpoints hbuses hsocket hqueue hpeers hprotocol hincoming
    have hlifecycle : st'.lifecycle = st.lifecycle := by
      rw [Stack.lifecycle, hqueue, Stack.lifecycle]
    rw [hlifecycle]
    refine h.of_attached hsessions hendpoints hbuses hsocket (List.nodup_cons.mp h.dying.nodup).2
      (fun t ht => by simp [ht]) (fun e hahead => hahead.tail (by simp)) ?_
    refine ⟨?_, ?_, ?_, hincoming, fun _ => hprotocol⟩
    · intro s q hq
      rw [hsessions, hpeer s] at hq
      cases hq
    · intro q s hq
      rw [hpeers q] at hq
      cases hq
    · intro s
      rw [hsessions, ← h.attached.leaving s]
      simp
  unfold Stack.protocolStopDeferred
  dsimp only
  split
  next hmode =>
    refine hwaiting _ rfl rfl rfl rfl rfl (fun _ => rfl) (by simp) ?_
    intro q hq
    rw [hmode] at hq
    cases hq
  next hmode =>
    refine hwaiting _ rfl rfl rfl rfl rfl hextra (by simp) ?_
    intro q hq
    exact h.attached.incoming q hq
  next p hmode =>
    refine hwaiting _ rfl rfl rfl rfl rfl (fun q => ?_) (by simp [releasePeer, Stack.setPeer]) ?_
    · change ((st.setPeer p {}).peers q).extra = none
      rw [setPeer_peers]
      split
      · rfl
      · exact hextra q
    · intro q hq packet hpacket
      obtain ⟨hold, hne⟩ := List.mem_filter.mp hpacket
      have hp := h.attached.incoming (some p) hmode packet hold
      rw [Option.some.inj hp] at hne
      simp at hne

end Stack

end Api

end PomeloUdp
