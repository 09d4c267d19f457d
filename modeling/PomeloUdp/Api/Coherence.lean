import PomeloUdp.Api.Quiet

/-!
# How the objects of a socket hang together

While a socket runs, its sessions, endpoints, buses and peers point to each
other in pairs, and every pair that is coming apart has its task in the queue.
The conditions below say so, for a list `tasks` of the tasks that are still to
be done: those that wait, and the one that runs, if there is one.

`Linked` is about sessions, endpoints and buses, `Attached` about sessions and
peers, `Dying` about endpoints that are to be destroyed, `Readied` about the
way from a ping or pong to a ready session, and `Received` about the parcels
that a worker verifies. Each has a lemma that says on which fields it depends.
-/

namespace PomeloUdp

namespace Api

open Protocol

namespace Stack

/-- A session and its endpoint point to each other, and so do an endpoint and
its buses. -/
structure Linked (st : Stack) : Prop where
  endpoint_of_session : ∀ s, (st.sessions s).signature ≠ 0 →
    ∃ e, (st.sessions s).endpoint = some e ∧ (st.endpoints e).extra = some s
  session_of_endpoint : ∀ e s, (st.endpoints e).extra = some s →
    (st.sessions s).signature ≠ 0 ∧ (st.sessions s).endpoint = some e ∧
      (st.endpoints e).acquired = true
  endpoint_of_bus : ∀ b, (st.buses b).acquired = true →
    (st.endpoints (st.buses b).endpoint).acquired = true ∧
      b ∈ (st.endpoints (st.buses b).endpoint).allBuses
  bus_of_endpoint : ∀ e b, (st.endpoints e).acquired = true → b ∈ (st.endpoints e).allBuses →
    (st.buses b).acquired = true ∧ (st.buses b).endpoint = e

theorem Linked.congr {st st' : Stack} (h : Linked st)
    (hsignature : ∀ s, (st'.sessions s).signature = (st.sessions s).signature)
    (hendpoint : ∀ s, (st'.sessions s).endpoint = (st.sessions s).endpoint)
    (hextra : ∀ e, (st'.endpoints e).extra = (st.endpoints e).extra)
    (hacquired : ∀ e, (st'.endpoints e).acquired = (st.endpoints e).acquired)
    (hallBuses : ∀ e, (st'.endpoints e).allBuses = (st.endpoints e).allBuses)
    (hbus : ∀ b, (st'.buses b).acquired = (st.buses b).acquired)
    (hbusEndpoint : ∀ b, (st'.buses b).endpoint = (st.buses b).endpoint) : Linked st' where
  endpoint_of_session s hs := by
    rw [hsignature] at hs
    obtain ⟨e, he, hextra'⟩ := h.endpoint_of_session s hs
    exact ⟨e, by rw [hendpoint, he], by rw [hextra, hextra']⟩
  session_of_endpoint e s hs := by
    rw [hextra] at hs
    rw [hsignature, hendpoint, hacquired]
    exact h.session_of_endpoint e s hs
  endpoint_of_bus b hb := by
    rw [hbus] at hb
    rw [hbusEndpoint, hacquired, hallBuses]
    exact h.endpoint_of_bus b hb
  bus_of_endpoint e b he hb := by
    rw [hacquired] at he
    rw [hallBuses] at hb
    rw [hbus, hbusEndpoint]
    exact h.bus_of_endpoint e b he hb

theorem Linked.extra_unique {st : Stack} (h : Linked st) {e e' : EndpointId} {s : SessionId}
    (he : (st.endpoints e).extra = some s) (he' : (st.endpoints e').extra = some s) :
    e = e' := by
  have hs := (h.session_of_endpoint e s he).2.1
  have hs' := (h.session_of_endpoint e' s he').2.1
  exact Option.some.inj (hs.symm.trans hs')

/-- A session and its peer point to each other, and the peer is connected; a
session without a peer is about to be told to the application. A client has no
other peer than its own. -/
structure Attached (st : Stack) (tasks : List Task) : Prop where
  peer_of_session : ∀ s p, (st.sessions s).peer = some p →
    (st.sessions s).signature ≠ 0 ∧ (st.peers p).extra = some s ∧
      (st.peers p).state = .connected ∧ st.protocolState = .running ∧
      ∀ q, st.mode = .client q → q = some p
  session_of_peer : ∀ p s, (st.peers p).extra = some s → (st.sessions s).peer = some p
  leaving : ∀ s, .sessionOnDisconnected s ∈ tasks ↔
    (st.sessions s).signature ≠ 0 ∧ (st.sessions s).peer = none
  incoming : ∀ q, st.mode = .client q → ∀ packet ∈ st.incoming, q = some packet.peer
  stopping : .protocolStop ∈ tasks → st.protocolState ≠ .running

theorem Attached.congr {st st' : Stack} {tasks tasks' : List Task} (h : Attached st tasks)
    (hsignature : ∀ s, (st'.sessions s).signature = (st.sessions s).signature)
    (hpeer : ∀ s, (st'.sessions s).peer = (st.sessions s).peer)
    (hpeers : st'.peers = st.peers) (hprotocol : st'.protocolState = st.protocolState)
    (hmode : st'.mode = st.mode) (hincoming : ∀ packet ∈ st'.incoming, packet ∈ st.incoming)
    (hleaving : ∀ s, .sessionOnDisconnected s ∈ tasks' ↔ .sessionOnDisconnected s ∈ tasks)
    (hstopping : .protocolStop ∈ tasks' → .protocolStop ∈ tasks) : Attached st' tasks' where
  peer_of_session s p hp := by
    rw [hpeer] at hp
    rw [hsignature, hpeers, hprotocol, hmode]
    exact h.peer_of_session s p hp
  session_of_peer p s hs := by
    rw [hpeers] at hs
    rw [hpeer]
    exact h.session_of_peer p s hs
  leaving s := by
    rw [hleaving, hsignature, hpeer]
    exact h.leaving s
  incoming q hq packet hpacket := by
    rw [hmode] at hq
    exact h.incoming q hq packet (hincoming packet hpacket)
  stopping hstop := by
    rw [hprotocol]
    exact h.stopping (hstopping hstop)

theorem Attached.extra_none {st : Stack} {tasks : List Task} (h : Attached st tasks) {p : PeerId}
    (hp : (st.peers p).state ≠ .connected) : (st.peers p).extra = none := by
  cases hextra : (st.peers p).extra with
  | none => rfl
  | some s => exact absurd (h.peer_of_session s p (h.session_of_peer p s hextra)).2.2.1 hp

/-- The endpoint receives no more: its buses have lost the parcels that wait for
their checksum, or will when they stop. -/
def Drained (st : Stack) (e : EndpointId) : Prop :=
  ∀ b ∈ (st.endpoints e).allBuses, (st.buses b).verifying = [] ∨ (st.buses b).stop = true

/-- An endpoint that is stopped or destroyed belongs to no session, and it is
stopped before it is destroyed. -/
structure Dying (st : Stack) (tasks : List Task) : Prop where
  nodup : tasks.Nodup
  stop_detached : ∀ e, .endpointStop e ∈ tasks → (st.endpoints e).extra = none
  destroy_detached : ∀ e, .endpointDestroy e ∈ tasks →
    (st.endpoints e).extra = none ∧ (st.endpoints e).acquired = true
  destroy_ahead : ∀ e, .endpointDestroy e ∈ tasks →
    Sequencer.Ahead (.endpointStop e) (.endpointDestroy e) tasks ∨ st.Drained e

theorem Drained.congr {st st' : Stack} {e : EndpointId} (h : st.Drained e)
    (hallBuses : (st'.endpoints e).allBuses = (st.endpoints e).allBuses)
    (hverifying : ∀ b, (st'.buses b).verifying = (st.buses b).verifying ∨
      (st'.buses b).verifying = [])
    (hstop : ∀ b, (st.buses b).stop = true →
      (st'.buses b).stop = true ∨ (st'.buses b).verifying = []) : st'.Drained e := by
  intro b hb
  rw [hallBuses] at hb
  rcases h b hb with hempty | hstopped
  · rcases hverifying b with hkept | hlost
    · exact Or.inl (hkept.trans hempty)
    · exact Or.inl hlost
  · exact (hstop b hstopped).symm

theorem Dying.congr {st st' : Stack} {tasks tasks' : List Task} (h : Dying st tasks)
    (hnodup : tasks'.Nodup)
    (hstopTasks : ∀ e, .endpointStop e ∈ tasks' → .endpointStop e ∈ tasks)
    (hdestroyTasks : ∀ e, .endpointDestroy e ∈ tasks' → .endpointDestroy e ∈ tasks)
    (hahead : ∀ e, Sequencer.Ahead (.endpointStop e) (.endpointDestroy e) tasks →
      Sequencer.Ahead (.endpointStop e) (.endpointDestroy e) tasks')
    (hextra : ∀ e, (st'.endpoints e).extra = (st.endpoints e).extra)
    (hacquired : ∀ e, (st'.endpoints e).acquired = (st.endpoints e).acquired)
    (hallBuses : ∀ e, (st'.endpoints e).allBuses = (st.endpoints e).allBuses)
    (hverifying : ∀ b, (st'.buses b).verifying = (st.buses b).verifying ∨
      (st'.buses b).verifying = [])
    (hstop : ∀ b, (st.buses b).stop = true →
      (st'.buses b).stop = true ∨ (st'.buses b).verifying = []) : Dying st' tasks' where
  nodup := hnodup
  stop_detached e he := by
    rw [hextra]
    exact h.stop_detached e (hstopTasks e he)
  destroy_detached e he := by
    rw [hextra, hacquired]
    exact h.destroy_detached e (hdestroyTasks e he)
  destroy_ahead e he := by
    rcases h.destroy_ahead e (hdestroyTasks e he) with hfirst | hdrained
    · exact Or.inl (hahead e hfirst)
    · exact Or.inr (hdrained.congr (hallBuses e) hverifying hstop)

/-- The session of a ready endpoint is ready, or will be by a task, and that
task runs once. -/
structure Readied (st : Stack) (tasks : List Task) : Prop where
  endpoint_ready : ∀ e s, (st.endpoints e).extra = some s → (st.sessions s).ready = true →
    (st.endpoints e).ready = true
  session_ready : ∀ e s, (st.endpoints e).extra = some s → (st.endpoints e).ready = true →
    (st.sessions s).ready = true ∨ .endpointReady e ∈ tasks
  pending : ∀ e s, (st.endpoints e).extra = some s → .endpointReady e ∈ tasks →
    (st.sessions s).ready = false ∧ (st.endpoints e).ready = true

theorem Readied.congr {st st' : Stack} {tasks tasks' : List Task} (h : Readied st tasks)
    (htasks : ∀ e, .endpointReady e ∈ tasks' ↔ .endpointReady e ∈ tasks)
    (hextra : ∀ e s, (st'.endpoints e).extra = some s → (st.endpoints e).extra = some s)
    (hready : ∀ e, (st'.endpoints e).ready = (st.endpoints e).ready)
    (hsession : ∀ s, (st'.sessions s).ready = (st.sessions s).ready) : Readied st' tasks' where
  endpoint_ready e s he := by
    rw [hready, hsession]
    exact h.endpoint_ready e s (hextra e s he)
  session_ready e s he := by
    rw [hready, hsession, htasks]
    exact h.session_ready e s (hextra e s he)
  pending e s he := by
    rw [htasks, hready, hsession]
    exact h.pending e s (hextra e s he)

/-- A parcel of the bus may be received: it is the system bus of its endpoint,
or the endpoint is ready, and the session, if there is one. -/
def Receivable (st : Stack) (b : BusId) : Prop :=
  let endpoint := st.endpoints (st.buses b).endpoint
  endpoint.systemBus = some b ∨
    endpoint.ready = true ∧ ∀ s, endpoint.extra = some s → (st.sessions s).ready = true

theorem Receivable.congr {st st' : Stack} {b : BusId} (h : st.Receivable b)
    (hendpoint : (st'.buses b).endpoint = (st.buses b).endpoint)
    (hsystemBus : ∀ e, (st'.endpoints e).systemBus = (st.endpoints e).systemBus)
    (hready : ∀ e, (st.endpoints e).ready = true → (st'.endpoints e).ready = true)
    (hextra : ∀ e s, (st'.endpoints e).extra = some s → (st.endpoints e).extra = some s)
    (hsession : ∀ s, (st.sessions s).ready = true → (st'.sessions s).ready = true) :
    st'.Receivable b := by
  unfold Receivable at h ⊢
  rw [hendpoint]
  rcases h with hsystem | ⟨hreadyEndpoint, hreadySession⟩
  · exact Or.inl ((hsystemBus _).trans hsystem)
  · exact Or.inr ⟨hready _ hreadyEndpoint,
      fun s hs => hsession s (hreadySession s (hextra _ s hs))⟩

/-- A parcel that a worker verifies may be received, unless its bus is to stop. -/
def Received (st : Stack) : Prop :=
  ∀ b, (st.buses b).verifying ≠ [] →
    (st.buses b).acquired = true ∧ st.Receivable b ∨ (st.buses b).stop = true

theorem Received.congr {st st' : Stack} (h : Received st)
    (hacquired : ∀ b, (st'.buses b).acquired = (st.buses b).acquired)
    (hendpoint : ∀ b, (st'.buses b).endpoint = (st.buses b).endpoint)
    (hverifying : ∀ b, (st'.buses b).verifying = (st.buses b).verifying ∨
      (st'.buses b).verifying = [])
    (hstop : ∀ b, (st.buses b).stop = true →
      (st'.buses b).stop = true ∨ (st'.buses b).verifying = [])
    (hsystemBus : ∀ e, (st'.endpoints e).systemBus = (st.endpoints e).systemBus)
    (hready : ∀ e, (st.endpoints e).ready = true → (st'.endpoints e).ready = true)
    (hextra : ∀ e s, (st'.endpoints e).extra = some s → (st.endpoints e).extra = some s)
    (hsession : ∀ s, (st.sessions s).ready = true → (st'.sessions s).ready = true) :
    Received st' := by
  intro b hb
  have hkept : (st'.buses b).verifying = (st.buses b).verifying :=
    (hverifying b).resolve_right hb
  rcases h b (by rwa [← hkept]) with ⟨hacquiredBus, hreceivable⟩ | hstopped
  · exact Or.inl ⟨(hacquired b).trans hacquiredBus,
      hreceivable.congr (hendpoint b) hsystemBus hready hextra hsession⟩
  · exact Or.inr ((hstop b hstopped).resolve_right hb)

/-- All conditions on the objects, for the tasks still to be done. -/
structure Coherent (st : Stack) (tasks : List Task) : Prop where
  linked : Linked st
  attached : Attached st tasks
  dying : Dying st tasks
  readied : Readied st tasks
  received : Received st
  running : st.socketState = .running ∧ Task.socketStop ∉ tasks

theorem Coherent.congr {st st' : Stack} {tasks tasks' : List Task} (h : Coherent st tasks)
    (hsessions : st'.sessions = st.sessions) (hendpoints : st'.endpoints = st.endpoints)
    (hbuses : st'.buses = st.buses) (hpeers : st'.peers = st.peers)
    (hprotocol : st'.protocolState = st.protocolState) (hsocket : st'.socketState = st.socketState)
    (hmode : st'.mode = st.mode) (hincoming : ∀ packet ∈ st'.incoming, packet ∈ st.incoming)
    (hnodup : tasks'.Nodup) (htasks : ∀ t, t.receives = none → (t ∈ tasks' ↔ t ∈ tasks))
    (hahead : ∀ e, Sequencer.Ahead (.endpointStop e) (.endpointDestroy e) tasks →
      Sequencer.Ahead (.endpointStop e) (.endpointDestroy e) tasks') : Coherent st' tasks' where
  linked := h.linked.congr (fun s => by rw [hsessions]) (fun s => by rw [hsessions])
    (fun e => by rw [hendpoints]) (fun e => by rw [hendpoints]) (fun e => by rw [hendpoints])
    (fun b => by rw [hbuses]) (fun b => by rw [hbuses])
  attached := h.attached.congr (fun s => by rw [hsessions]) (fun s => by rw [hsessions]) hpeers
    hprotocol hmode hincoming (fun s => htasks _ rfl) (htasks _ rfl).mp
  dying := h.dying.congr hnodup (fun e => (htasks _ rfl).mp) (fun e => (htasks _ rfl).mp) hahead
    (fun e => by rw [hendpoints]) (fun e => by rw [hendpoints]) (fun e => by rw [hendpoints])
    (fun b => Or.inl (by rw [hbuses])) (fun b hb => Or.inl (by rwa [hbuses]))
  readied := h.readied.congr (fun e => htasks _ rfl) (fun e s he => by rwa [hendpoints] at he)
    (fun e => by rw [hendpoints]) (fun s => by rw [hsessions])
  received := h.received.congr (fun b => by rw [hbuses]) (fun b => by rw [hbuses])
    (fun b => Or.inl (by rw [hbuses])) (fun b hb => Or.inl (by rwa [hbuses]))
    (fun e => by rw [hendpoints]) (fun e he => by rwa [hendpoints])
    (fun e s he => by rwa [hendpoints] at he) (fun s hs => by rwa [hsessions])
  running := ⟨hsocket.trans h.running.1, fun hmem => h.running.2 ((htasks _ rfl).mp hmem)⟩

theorem Coherent.received_task {st : Stack} {t : Task} {tasks : List Task}
    (h : Coherent st (t :: tasks)) {b : BusId} (ht : t.receives = some b) : Coherent st tasks :=
  h.congr rfl rfl rfl rfl rfl rfl rfl (fun _ => id) (List.nodup_cons.mp h.dying.nodup).2
    (fun t' ht' => by
      rw [List.mem_cons]
      refine ⟨Or.inr, fun hmem => hmem.resolve_left fun heq => ?_⟩
      rw [heq, ht] at ht'
      cases ht')
    (fun e hahead => hahead.tail fun heq => by
      rw [heq] at ht
      cases ht)

theorem Coherent.quiet {st st' : Stack} {tasks : List Task} (h : Coherent st tasks)
    (hquiet : Still st st') : Coherent st' tasks where
  linked := h.linked.congr (fun s => by rw [hquiet.sessions]) (fun s => by rw [hquiet.sessions])
    (fun e => by rw [hquiet.endpoints]) (fun e => by rw [hquiet.endpoints])
    (fun e => by rw [hquiet.endpoints]) hquiet.acquired hquiet.endpoint
  attached := h.attached.congr (fun s => by rw [hquiet.sessions])
    (fun s => by rw [hquiet.sessions]) hquiet.peers hquiet.protocolState hquiet.mode
    (fun packet hp => by rwa [hquiet.incoming] at hp) (fun _ => Iff.rfl) id
  dying := h.dying.congr h.dying.nodup (fun _ => id) (fun _ => id) (fun _ => id)
    (fun e => by rw [hquiet.endpoints]) (fun e => by rw [hquiet.endpoints])
    (fun e => by rw [hquiet.endpoints]) hquiet.verifying hquiet.stop
  readied := h.readied.congr (fun _ => Iff.rfl) (fun e s he => by rwa [hquiet.endpoints] at he)
    (fun e => by rw [hquiet.endpoints]) (fun s => by rw [hquiet.sessions])
  received := h.received.congr hquiet.acquired hquiet.endpoint hquiet.verifying hquiet.stop
    (fun e => by rw [hquiet.endpoints]) (fun e he => by rwa [hquiet.endpoints])
    (fun e s he => by rwa [hquiet.endpoints] at he) (fun s hs => by rwa [hquiet.sessions])
  running := ⟨hquiet.socketState.trans h.running.1, h.running.2⟩

end Stack

end Api

end PomeloUdp
