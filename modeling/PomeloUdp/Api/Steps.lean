import PomeloUdp.Api.Invariant

/-!
# Every step keeps the invariant

The tasks of the lives of sessions and endpoints come first, then the events,
and last the two other steps. A step is admitted if the application does not
stop the socket in it and the client keeps its peer connected until it has told
its session: it handles no denial, and finds a packet for its keep alive, while
the peer is connected.
-/

namespace PomeloUdp

namespace Api

open Protocol

/-- The application does not stop the socket in this step. -/
def Label.NotStop : Label → Prop
  | .event (.received _ c) => ∀ call ∈ c.calls, call.NotStop
  | .event (.requestTimeout calls) => ∀ call ∈ calls, call.NotStop
  | .event (.api call) => call.NotStop
  | .event _ => True
  | .run calls => ∀ call ∈ calls, call.NotStop
  | .resume => True

instance : ∀ label : Label, Decidable label.NotStop
  | .event event => by
      cases event <;> unfold Label.NotStop <;> infer_instance
  | .run calls => inferInstanceAs (Decidable (∀ call ∈ calls, call.NotStop))
  | .resume => isTrue trivial

namespace Stack

/-- Whether the packet at that index is a denial for a connected peer. -/
def deniesConnected (st : Stack) (index : ℕ) : Bool :=
  match st.incoming[index]? with
  | none => false
  | some packet => packet.type = .denied && (st.peers packet.peer).state = .connected

/-- Whether the peer of a client is connected. -/
def clientConnected (st : Stack) : Bool :=
  match st.mode with
  | .client (some p) => (st.peers p).state = .connected
  | _ => false

/-- No denial is handled, and no keep alive packet missing, while the peer of the
client is connected and its protocol socket runs. -/
def KeepsPeer (st : Stack) : Label → Prop
  | .event (.received index c) =>
      st.protocolState = .running → c.valid = true → st.deniesConnected index = false
  | .event (.sendKeepAlive .noPacket) =>
      st.protocolState = .running → st.clientConnected = false
  | _ => True

instance (st : Stack) : ∀ label : Label, Decidable (st.KeepsPeer label)
  | .event event => by
      cases event with
      | sendKeepAlive outcome => cases outcome <;> unfold KeepsPeer <;> infer_instance
      | _ => unfold KeepsPeer; infer_instance
  | .run _ => isTrue trivial
  | .resume => isTrue trivial

variable {st : Stack} {p : PeerId} {e : EndpointId} {s : SessionId} {calls : List ApiCall}

section Peers

theorem Sound.setPeer (h : Sound st st.lifecycle) {slot : PeerSlot}
    (hextra : slot.extra = (st.peers p).extra)
    (hstate : (st.peers p).extra = none ∨ slot.state = (st.peers p).state) :
    Sound (st.setPeer p slot) (st.setPeer p slot).lifecycle :=
  h.of_calm (h.coherent.setPeer hextra hstate)
    (h.logged.congr (fun _ => rfl) (fun _ => rfl) rfl rfl rfl) (Calm.of_queue rfl rfl)

theorem Sound.setPeerState (h : Sound st st.lifecycle) (hp : (st.peers p).state ≠ .connected)
    (state : PeerState) : Sound (st.setPeerState p state) (st.setPeerState p state).lifecycle :=
  h.setPeer rfl (Or.inl (h.coherent.attached.extra_none hp))

theorem Sound.setIncoming (h : Sound st st.lifecycle) {incoming : List IncomingPacket}
    (hincoming : ∀ packet ∈ incoming, packet ∈ st.incoming) :
    Sound { st with incoming := incoming } st.lifecycle :=
  h.of_calm (h.coherent.setIncoming hincoming)
    (h.logged.congr (fun _ => rfl) (fun _ => rfl) rfl rfl rfl) (Calm.of_queue rfl rfl)

theorem Sound.addIncoming (h : Sound st st.lifecycle) {type : PacketType}
    (hclient : ∀ q, st.mode = .client q → q = some p) :
    Sound { st with incoming := st.incoming ++ [⟨p, type⟩] } st.lifecycle :=
  h.of_calm (h.coherent.addIncoming hclient)
    (h.logged.congr (fun _ => rfl) (fun _ => rfl) rfl rfl rfl) (Calm.of_queue rfl rfl)

theorem Sound.releasePeer (h : Sound st st.lifecycle) (hextra : (st.peers p).extra = none) :
    Sound (st.releasePeer p) (st.releasePeer p).lifecycle :=
  h.of_calm (h.coherent.releasePeer hextra)
    (h.logged.congr (fun _ => rfl) (fun _ => rfl) rfl rfl rfl) (Calm.of_queue rfl rfl)

theorem protocolOnDisconnected_frame (st : Stack) (p : PeerId) :
    Calm st (st.protocolOnDisconnected p) ∧
      (∀ s, ((st.protocolOnDisconnected p).sessions s).signature = (st.sessions s).signature) ∧
      (∀ s, ((st.protocolOnDisconnected p).sessions s).ready = (st.sessions s).ready) ∧
      (st.protocolOnDisconnected p).signatureGenerator = st.signatureGenerator ∧
      (st.protocolOnDisconnected p).callbacks = st.callbacks ∧
      (st.protocolOnDisconnected p).assertFailed = st.assertFailed ∧
      (st.protocolOnDisconnected p).mode = st.mode := by
  unfold Stack.protocolOnDisconnected
  split
  · exact ⟨Calm.refl st, fun _ => rfl, fun _ => rfl, rfl, rfl, rfl, rfl⟩
  next s _ =>
    unfold Stack.sessionOnDisconnected Stack.detachPeer
    dsimp only
    split
    · refine ⟨?_, setSession_field _ rfl, setSession_field _ rfl, rfl, rfl, rfl, rfl⟩
      refine Calm.trans ?_ (calm_submit (st.setSession s
        { st.sessions s with state := .disconnected }) rfl)
      exact Calm.of_queue rfl rfl
    next q _ =>
      have hsessions : ∀ s', (((st.setPeer q { st.peers q with extra := none }).setSession s
          { st.sessions s with peer := none }).setSession s
            { ((st.setPeer q { st.peers q with extra := none }).setSession s
              { st.sessions s with peer := none }).sessions s with
                state := .disconnected }).sessions s' =
          if s' = s then { st.sessions s with peer := none, state := .disconnected }
          else st.sessions s' := by
        intro s'
        rw [setSession_sessions]
        split
        · rw [setSession_sessions, if_pos rfl]
        next hne => rw [setSession_sessions, if_neg hne]; rfl
      refine ⟨?_, fun s' => ?_, fun s' => ?_, rfl, rfl, rfl, rfl⟩
      · refine Calm.trans ?_ (calm_submit _ rfl)
        exact Calm.of_queue rfl rfl
      · refine (congrArg Session.signature (hsessions s')).trans ?_
        split
        next heq => rw [heq]
        next => rfl
      · refine (congrArg Session.ready (hsessions s')).trans ?_
        split
        next heq => rw [heq]
        next => rfl

theorem Sound.leave (h : Sound st st.lifecycle) (p : PeerId) (state : PeerState) :
    Sound ((st.setPeerState p state).protocolOnDisconnected p)
        ((st.setPeerState p state).protocolOnDisconnected p).lifecycle ∧
      (((st.setPeerState p state).protocolOnDisconnected p).peers p).extra = none ∧
      ((st.setPeerState p state).protocolOnDisconnected p).mode = st.mode := by
  obtain ⟨hcoherent, hextra⟩ := coherent_leave p state h.coherent
  obtain ⟨hcalm, hsignature, hready, hgenerator, hcallbacks, hassert, hmode⟩ :=
    protocolOnDisconnected_frame (st.setPeerState p state) p
  refine ⟨?_, hextra, hmode⟩
  refine h.of_calm hcoherent (h.logged.congr hsignature hready hgenerator hcallbacks hassert)
    (Calm.trans ?_ hcalm)
  exact Calm.of_queue rfl rfl

theorem Sound.protocolSocketStop (h : Sound st st.lifecycle) (hmode : st.mode = .client (some p))
    (hextra : (st.peers p).extra = none) :
    Sound st.protocolSocketStop st.protocolSocketStop.lifecycle := by
  have hcoherent := coherent_protocolSocketStop h.coherent hmode hextra
  unfold Stack.protocolSocketStop at hcoherent ⊢
  split at hcoherent
  next hrunning =>
    rw [if_pos hrunning]
    refine h.of_calm hcoherent (h.logged.congr (fun _ => rfl) (fun _ => rfl) rfl rfl rfl) ?_
    refine Calm.trans ?_ (calm_submit { st with protocolState := .stopping } rfl)
    exact Calm.of_queue rfl rfl
  next hstopped =>
    rw [if_neg hstopped]
    exact h

end Peers

section Sessions

theorem sound_endpointOnReady (h : Sound st (.endpointReady e :: st.lifecycle))
    (hcalls : ∀ c ∈ calls, c.NotStop) :
    Sound (st.endpointOnReady e calls) (st.endpointOnReady e calls).lifecycle := by
  have hcoherent := coherent_endpointOnReady h.coherent hcalls
  unfold Stack.endpointOnReady at hcoherent ⊢
  split
  next => exact h.of_calm (by simpa [*] using hcoherent) h.logged (Calm.refl st)
  next s hextra =>
    obtain ⟨hlive, -, -⟩ := h.coherent.linked.session_of_endpoint e s hextra
    obtain ⟨hready, -⟩ := h.coherent.readied.pending e s hextra List.mem_cons_self
    rw [hextra] at hcoherent
    dsimp only at hcoherent ⊢
    have hquiet := quiet_inCallback ((st.setSession s
      { st.sessions s with ready := true, state := .connected }).callback s .connected) hcalls
    have hlogged : Logged ((st.setSession s
        { st.sessions s with ready := true, state := .connected }).callback s .connected) :=
      h.logged.connected hlive hready rfl rfl
    refine h.of_calm hcoherent (hlogged.quiet hquiet.toStill) (Calm.trans ?_ hquiet.toCalm)
    exact Calm.of_queue rfl rfl

theorem sound_endpointStopDeferred (h : Sound st (.endpointStop e :: st.lifecycle)) :
    Sound (st.endpointStopDeferred e) (st.endpointStopDeferred e).lifecycle := by
  have hquiet := Quiet.foldl quiet_busStop st (st.endpoints e).allBuses
  refine h.of_calm (coherent_endpointStop h.coherent) ?_ ?_
  · exact (h.logged.quiet hquiet.toStill).congr (fun _ => rfl) (fun _ => rfl) rfl rfl rfl
  · refine hquiet.toCalm.trans ?_
    exact Calm.of_queue rfl rfl

theorem sound_endpointDestroyDeferred (h : Sound st (.endpointDestroy e :: st.lifecycle)) :
    Sound (st.endpointDestroyDeferred e) (st.endpointDestroyDeferred e).lifecycle := by
  have hbuses : ∀ b, (st.endpointDestroyDeferred e).buses b =
      if b ∈ (st.endpoints e).allBuses then { st.buses b with acquired := false }
      else st.buses b := foldl_releaseBus_buses st _
  have hrest : st.endpointDestroyDeferred e =
      { st with
        buses := (st.endpointDestroyDeferred e).buses
        endpoints := (st.endpointDestroyDeferred e).endpoints } := by
    unfold Stack.endpointDestroyDeferred
    rw [foldl_releaseBus_eq]
    rfl
  refine h.of_calm (coherent_endpointDestroy h.coherent) ?_ ?_
  · rw [hrest]
    exact h.logged.congr (fun _ => rfl) (fun _ => rfl) rfl rfl rfl
  · refine Calm.of_flags (by rw [hrest]) (fun b => ?_) (fun b => ?_)
    · rw [hbuses]
      split <;> rfl
    · rw [hbuses]
      split <;> rfl

theorem sound_sessionOnDisconnectedDeferred
    (h : Sound st (.sessionOnDisconnected s :: st.lifecycle)) (hcalls : ∀ c ∈ calls, c.NotStop) :
    Sound (st.sessionOnDisconnectedDeferred s calls)
      (st.sessionOnDisconnectedDeferred s calls).lifecycle := by
  have hcoherent := coherent_sessionOnDisconnectedDeferred h.coherent hcalls
  obtain ⟨e, hendpoint, -, -⟩ := h.coherent.endpoint_of_leaving
  obtain ⟨hlive, hpeer⟩ := (h.coherent.attached.leaving s).mp List.mem_cons_self
  rw [sessionOnDisconnectedDeferred_eq hcalls hendpoint hpeer] at hcoherent ⊢
  have hquiet := quiet_told (st.submit (.endpointStop e)) s hcalls
  have hcallbacks : ((st.submit (.endpointStop e)).told s calls).callbacks =
      if (st.sessions s).ready then (st.callback s .disconnected).callbacks else st.callbacks := by
    unfold Stack.told
    change (if (st.sessions s).ready then _ else _ : Stack).callbacks = _
    split
    · exact (quiet_inCallback _ hcalls).callbacks
    · rfl
  generalize (st.submit (.endpointStop e)).told s calls = st' at hquiet hcallbacks hcoherent ⊢
  refine h.of_calm hcoherent ?_ ?_
  · refine h.logged.close hlive (fun s' hne => ?_) ?_ hquiet.signatureGenerator hcallbacks
      hquiet.assertFailed
    · change (Stack.setSession _ s _).sessions s' = _
      rw [setSession_sessions, if_neg hne]
      exact congrFun hquiet.sessions s'
    · change ((Stack.setSession _ s _).sessions s).signature = 0
      rw [setSession_sessions, if_pos rfl]
  · have htold : Calm st st' := by
      have hsubmit : Calm st (st.submit (.endpointStop e)) := calm_submit st rfl
      refine hsubmit.trans (Calm.trans ?_ hquiet.toCalm)
      exact Calm.of_queue rfl rfl
    refine htold.trans (Calm.trans ?_ ((calm_submit _ rfl).trans (Calm.of_queue rfl rfl)))
    exact Calm.of_queue rfl rfl

theorem sound_protocolStopDeferred (h : Sound st (.protocolStop :: st.lifecycle)) :
    Sound st.protocolStopDeferred st.protocolStopDeferred.lifecycle := by
  refine h.of_calm (coherent_protocolStopDeferred h.coherent) ?_ ?_
  · unfold Stack.protocolStopDeferred
    dsimp only
    split <;> exact h.logged.congr (fun _ => rfl) (fun _ => rfl) rfl rfl rfl
  · unfold Stack.protocolStopDeferred
    dsimp only
    split <;> exact Calm.of_queue rfl rfl

theorem sound_sessionDisconnectDeferred (h : Sound st st.lifecycle) :
    Sound (st.sessionDisconnectDeferred s) (st.sessionDisconnectDeferred s).lifecycle := by
  unfold Stack.sessionDisconnectDeferred
  dsimp only
  split
  · exact h
  · split
    · exact h
    · exact h.quiet (quiet_submit rfl)

theorem sound_disconnectPeer (h : Sound st st.lifecycle) :
    Sound (st.disconnectPeer p) (st.disconnectPeer p).lifecycle := by
  unfold Stack.disconnectPeer
  split
  · exact h
  · exact (h.leave p .disconnecting).1

theorem sound_protocolOnConnected (h : Sound st st.lifecycle) (htasks : st.lifecycle = [])
    (hextra : (st.peers p).extra = none) (hstate : (st.peers p).state = .connected)
    (hprotocol : st.protocolState = .running) (hclient : ∀ q, st.mode = .client q → q = some p)
    (hclean : ∀ b, (st.buses b).acquired = false → (st.buses b).verifying = [])
    (slots : Option SessionSlots) :
    Sound (st.protocolOnConnected p slots) (st.protocolOnConnected p slots).lifecycle := by
  unfold Stack.protocolOnConnected
  split
  next => exact h
  next slots =>
    split
    next hslots =>
      have hlifecycle : (st.sessionInit p slots).lifecycle = [] := by
        rw [sessionInit_eq]
        exact htasks
      rw [htasks] at h
      rw [hlifecycle]
      refine h.of_calm ?_ (h.logged.sessionInit hslots) ?_
      · exact coherent_sessionInit h.coherent hslots hextra hstate hprotocol hclient
          fun b hb => hclean b (hslots.buses b hb)
      · refine Calm.of_flags (by rw [sessionInit_eq]) (fun b => ?_) (fun b => ?_)
        · rw [sessionInit_buses]
          split <;> rfl
        · rw [sessionInit_buses]
          split <;> rfl
    next => exact h

end Sessions

section Events

variable {slots : Option SessionSlots} {packet : IncomingPacket}

theorem sound_acceptRequest (h : Sound st st.lifecycle) :
    Sound (st.acceptRequest p) (st.acceptRequest p).lifecycle := by
  unfold Stack.acceptRequest
  split
  next hfree =>
    simp only [Bool.and_eq_true, decide_eq_true_eq] at hfree
    obtain ⟨⟨-, hmode⟩, hstate⟩ := hfree
    have hextra : (st.peers p).extra = none := by
      apply h.coherent.attached.extra_none
      rw [hstate]
      simp
    have hnew : Sound (st.setPeer p { state := .request })
        (st.setPeer p { state := .request }).lifecycle := h.setPeer hextra.symm (Or.inl hextra)
    refine hnew.addIncoming fun q hq => ?_
    rw [show (st.setPeer p { state := .request }).mode = _ from hmode] at hq
    cases hq
  next => exact h

theorem sound_accept (h : Sound st st.lifecycle) (type : PacketType) :
    Sound (st.accept p type) (st.accept p type).lifecycle := by
  unfold Stack.accept
  split
  next hvalid =>
    have hclient : ∀ q, st.mode = .client q → q = some p := by
      intro q hq
      simp only [Stack.validate, hq, Bool.and_eq_true, decide_eq_true_eq] at hvalid
      exact hvalid.2.1
    dsimp only
    split
    · have hprocessing : Sound (st.setPeer p { st.peers p with processingResponse := true })
          (st.setPeer p { st.peers p with processingResponse := true }).lifecycle :=
        h.setPeer rfl (Or.inr rfl)
      exact hprocessing.addIncoming hclient
    · exact h.addIncoming hclient
  next => exact h

theorem sound_serverRecvRequest (h : Sound st st.lifecycle) (full : Bool) :
    Sound (st.serverRecvRequest p full) (st.serverRecvRequest p full).lifecycle := by
  unfold Stack.serverRecvRequest
  split
  · exact h
  next hstate =>
    have hp : (st.peers p).state ≠ .connected := by
      rw [not_not.mp hstate]
      simp
    split
    · exact h.setPeerState hp .denied
    · exact h.setPeerState hp .challenge

theorem Sound.clean (h : Sound st st.lifecycle) (hqueue : st.queue = []) (b : BusId)
    (hb : (st.buses b).acquired = false) : (st.buses b).verifying = [] := by
  by_contra hwaiting
  rw [(h.receivable hqueue hwaiting).1] at hb
  cases hb

theorem sound_serverRecvResponse (h : Sound st st.lifecycle) (hqueue : st.queue = [])
    (hprotocol : st.protocolState = .running) (hmode : st.mode = .server) :
    Sound (st.serverRecvResponse p slots) (st.serverRecvResponse p slots).lifecycle := by
  unfold Stack.serverRecvResponse
  split
  · exact h
  next hstate =>
    have hp : (st.peers p).state ≠ .connected := by
      rw [not_not.mp hstate]
      simp
    have hextra : ((st.setPeerState p .connected).peers p).extra = none := by
      unfold Stack.setPeerState
      rw [setPeer_peers, if_pos rfl]
      exact h.coherent.attached.extra_none hp
    refine sound_protocolOnConnected (h.setPeerState hp .connected) (lifecycle_nil hqueue) hextra
      ?_ hprotocol (fun q hq => ?_) (h.clean hqueue) slots
    · unfold Stack.setPeerState
      rw [setPeer_peers, if_pos rfl]
    · rw [show (st.setPeerState p .connected).mode = _ from hmode] at hq
      cases hq

theorem sound_expirePeer (h : Sound st st.lifecycle) :
    Sound (st.expirePeer p) (st.expirePeer p).lifecycle := by
  unfold Stack.expirePeer
  split
  · exact h
  · obtain ⟨hleft, hextra, -⟩ := h.leave p .disconnected
    exact hleft.releasePeer hextra

theorem sound_releaseFrom (h : Sound st st.lifecycle) {state : PeerState}
    (hstate : state ≠ .connected) :
    Sound (releaseFrom state st p) (releaseFrom state st p).lifecycle := by
  unfold Stack.releaseFrom
  split
  · exact h
  next hp =>
    refine h.releasePeer (h.coherent.attached.extra_none ?_)
    rw [not_not.mp hp]
    exact hstate

theorem invariant_serverRecvPacket (h : Sound st st.lifecycle) (hqueue : st.queue = [])
    (hprotocol : st.protocolState = .running) (hmode : st.mode = .server) (c : Completion)
    (type : PacketType) : Invariant (st.serverRecvPacket p c type) := by
  cases type with
  | request => exact (sound_serverRecvRequest h c.full).invariant
  | response => exact (sound_serverRecvResponse h hqueue hprotocol hmode).invariant
  | disconnect => exact (sound_expirePeer h).invariant
  | payload => exact invariant_protocolOnReceived h hqueue c.busId c.fragment
  | keepAlive | denied | challenge => exact h.invariant

theorem sound_serverRecvFailed (h : Sound st st.lifecycle) (type : PacketType) :
    Sound (st.serverRecvFailed p type) (st.serverRecvFailed p type).lifecycle := by
  unfold Stack.serverRecvFailed
  split
  · split
    · exact h
    next hstate =>
      refine h.setPeerState ?_ .denied
      rw [not_not.mp hstate]
      simp
  · exact h

theorem sound_giveUp (h : Sound st st.lifecycle) (hmode : st.mode = .client (some p))
    (hp : (st.peers p).state ≠ .connected) (state : PeerState)
    (hcalls : ∀ c ∈ calls, c.NotStop) :
    Sound ((st.setPeerState p state).inCallback calls).protocolSocketStop
      ((st.setPeerState p state).inCallback calls).protocolSocketStop.lifecycle := by
  have hextra : ((st.setPeerState p state).peers p).extra = none := by
    unfold Stack.setPeerState
    rw [setPeer_peers, if_pos rfl]
    exact h.coherent.attached.extra_none hp
  have hquiet := quiet_inCallback (st.setPeerState p state) hcalls
  refine ((h.setPeerState hp state).quiet hquiet).protocolSocketStop
    (hquiet.mode.trans hmode) ?_
  rw [hquiet.peers]
  exact hextra

theorem sound_leaveAndStop (h : Sound st st.lifecycle) (hmode : st.mode = .client (some p))
    (state : PeerState) :
    Sound ((st.setPeerState p state).protocolOnDisconnected p).protocolSocketStop
      ((st.setPeerState p state).protocolOnDisconnected p).protocolSocketStop.lifecycle := by
  obtain ⟨hleft, hextra, hmode'⟩ := h.leave p state
  exact hleft.protocolSocketStop (hmode'.trans hmode) hextra

theorem sound_clientRecvKeepAlive (h : Sound st st.lifecycle) (hqueue : st.queue = [])
    (hprotocol : st.protocolState = .running) (hmode : st.mode = .client (some p))
    (hcalls : ∀ c ∈ calls, c.NotStop) :
    Sound (st.clientRecvKeepAlive p slots calls)
      (st.clientRecvKeepAlive p slots calls).lifecycle := by
  unfold Stack.clientRecvKeepAlive
  split
  · exact h
  next hstate =>
    have hp : (st.peers p).state ≠ .connected := by
      rw [not_not.mp hstate]
      simp
    have hquiet := quiet_inCallback (st.setPeerState p .connected) hcalls
    have hpeer : ((st.setPeerState p .connected).peers p) =
        { st.peers p with state := .connected } := by
      unfold Stack.setPeerState
      rw [setPeer_peers, if_pos rfl]
    refine sound_protocolOnConnected ((h.setPeerState hp .connected).quiet hquiet)
      (hquiet.lifecycle.trans (lifecycle_nil hqueue)) ?_ ?_ (hquiet.protocolState.trans hprotocol)
      (fun q hq => ?_) (fun b hb => ?_) slots
    · rw [hquiet.peers, hpeer]
      exact h.coherent.attached.extra_none hp
    · rw [hquiet.peers, hpeer]
    · rw [hquiet.mode, show (st.setPeerState p .connected).mode = _ from hmode] at hq
      injection hq with hq
      exact hq.symm
    · rcases hquiet.verifying b with hkept | hlost
      · rw [hkept]
        exact h.clean hqueue b ((hquiet.acquired b).symm.trans hb)
      · exact hlost

theorem invariant_clientRecvPacket (h : Sound st st.lifecycle) (hqueue : st.queue = [])
    (hprotocol : st.protocolState = .running) (hmode : st.mode = .client (some p))
    (c : Completion) (hcalls : ∀ call ∈ c.calls, call.NotStop) (type : PacketType)
    (hdenied : type = .denied → (st.peers p).state ≠ .connected) :
    Invariant (st.clientRecvPacket p c type) := by
  cases type with
  | denied => exact (sound_giveUp h hmode (hdenied rfl) .denied hcalls).invariant
  | challenge =>
      change Invariant (st.clientRecvChallenge p)
      unfold Stack.clientRecvChallenge
      split
      · exact h.invariant
      next hstate =>
        refine (h.setPeerState ?_ .response).invariant
        rw [not_not.mp hstate]
        simp
  | disconnect =>
      change Invariant (st.clientRecvDisconnect p)
      unfold Stack.clientRecvDisconnect
      split
      · exact h.invariant
      · exact (sound_leaveAndStop h hmode .disconnected).invariant
  | keepAlive => exact (sound_clientRecvKeepAlive h hqueue hprotocol hmode hcalls).invariant
  | payload => exact invariant_protocolOnReceived h hqueue c.busId c.fragment
  | request | response => exact h.invariant

theorem invariant_packetReceived (h : Sound st st.lifecycle) (hqueue : st.queue = [])
    (index : ℕ) (c : Completion) (hcalls : ∀ call ∈ c.calls, call.NotStop)
    (hkeeps : st.KeepsPeer (.event (.received index c))) :
    Invariant (st.packetReceived index c) := by
  unfold Stack.packetReceived
  split
  next => exact h.invariant
  next packet hpacket =>
    have hmem : packet ∈ st.incoming := List.mem_of_getElem? hpacket
    have hclient : ∀ q, st.mode = .client q → q = some packet.peer :=
      fun q hq => h.coherent.attached.incoming q hq packet hmem
    have hpopped : Sound { st with incoming := st.incoming.eraseIdx index } st.lifecycle :=
      h.setIncoming fun _ => List.mem_of_mem_eraseIdx
    unfold Stack.handleReceiverComplete
    split
    · exact hpopped.invariant
    next hrunning =>
      have hprotocol : st.protocolState = .running := not_not.mp hrunning
      have hdenied : c.valid = true → packet.type = .denied →
          (st.peers packet.peer).state ≠ .connected := by
        intro hvalid htype
        have := hkeeps hprotocol hvalid
        unfold Stack.deniesConnected at this
        simpa [hpacket, htype] using this
      dsimp only
      -- the flag of the response does not matter to the rest
      generalize hst' : (if packet.type = .response then
        Stack.setPeer { st with incoming := st.incoming.eraseIdx index } packet.peer
          { st.peers packet.peer with processingResponse := false }
        else { st with incoming := st.incoming.eraseIdx index }) = st'
      have hqueue' : st'.queue = [] := by
        rw [← hst']
        split <;> exact hqueue
      have h' : Sound st' st'.lifecycle := by
        rw [← hst']
        split
        · have hcleared : Sound (Stack.setPeer { st with incoming := st.incoming.eraseIdx index }
              packet.peer { st.peers packet.peer with processingResponse := false })
              st.lifecycle := hpopped.setPeer rfl (Or.inr rfl)
          exact hcleared
        · exact hpopped
      have hprotocol' : st'.protocolState = .running := by
        rw [← hst']
        split <;> exact hprotocol
      have hmode' : st'.mode = st.mode := by
        rw [← hst']
        split <;> rfl
      have hstate' : (st'.peers packet.peer).state = (st.peers packet.peer).state := by
        rw [← hst']
        split
        · rw [setPeer_peers, if_pos rfl]
        · rfl
      split
      next hmode _ => exact invariant_serverRecvPacket h' hqueue' hprotocol' hmode c packet.type
      next => exact (sound_serverRecvFailed h' packet.type).invariant
      next q hmode hvalid =>
        rw [hclient q (hmode'.symm.trans hmode)] at hmode
        refine invariant_clientRecvPacket h' hqueue' hprotocol' hmode c hcalls packet.type ?_
        intro htype
        rw [hstate']
        exact hdenied hvalid htype
      next => exact h'.invariant

theorem sound_sentDenied (h : Sound st st.lifecycle) :
    Sound (st.sentDenied p) (st.sentDenied p).lifecycle := by
  unfold Stack.sentDenied
  split
  next hdenied =>
    simp only [Bool.and_eq_true, decide_eq_true_eq] at hdenied
    refine h.releasePeer (h.coherent.attached.extra_none ?_)
    rw [hdenied.1.1]
    simp
  next => exact h

theorem sound_serverLoop (h : Sound st st.lifecycle) {round : Stack → PeerId → Stack}
    (hround : ∀ st p, Sound st st.lifecycle → Sound (round st p) (round st p).lifecycle)
    (ps : List PeerId) : Sound (st.serverLoop round ps) (st.serverLoop round ps).lifecycle := by
  unfold Stack.serverLoop
  split
  next hrunning =>
    clear hrunning
    induction ps generalizing st with
    | nil => exact h
    | cons p ps ih => exact ih (hround st p h)
  next => exact h

theorem sound_clientTimer (h : Sound st st.lifecycle) {state : PeerState}
    {fire : Stack → PeerId → Stack}
    (hfire : ∀ p, st.mode = .client (some p) → st.protocolState = .running →
      (st.peers p).state = state → Sound (fire st p) (fire st p).lifecycle) :
    Sound (st.clientTimer state fire) (st.clientTimer state fire).lifecycle := by
  unfold Stack.clientTimer
  split
  next p hmode =>
    split
    next hrunning =>
      simp only [Bool.and_eq_true, decide_eq_true_eq] at hrunning
      exact hfire p hmode hrunning.1 hrunning.2
    next => exact h
  next => exact h

theorem sound_stopUnconnected (h : Sound st st.lifecycle) (state : PeerState)
    (hstate : state ≠ .connected) :
    Sound (st.clientTimer state fun st _ => st.protocolSocketStop)
      (st.clientTimer state fun st _ => st.protocolSocketStop).lifecycle := by
  refine sound_clientTimer h fun p hmode _ hp => ?_
  refine h.protocolSocketStop hmode (h.coherent.attached.extra_none ?_)
  rw [hp]
  exact hstate

theorem invariant_event (h : Sound st st.lifecycle) (hqueue : st.queue = []) {ev : Event}
    (hstop : Label.NotStop (.event ev)) (hkeeps : st.KeepsPeer (.event ev)) :
    Invariant (st.event ev) := by
  cases ev with
  | acceptRequest p => exact (sound_acceptRequest h).invariant
  | accept p type => exact (sound_accept h type).invariant
  | received index c => exact invariant_packetReceived h hqueue index c hstop hkeeps
  | sentDenied p => exact (sound_sentDenied h).invariant
  | broadcastKeepAlive expired =>
      exact (sound_serverLoop h (fun _ _ => sound_expirePeer) expired).invariant
  | broadcastDisconnect finished =>
      exact (sound_serverLoop h (fun _ _ h => sound_releaseFrom h (by simp)) finished).invariant
  | scanChallenging expired =>
      exact (sound_serverLoop h (fun _ _ h => sound_releaseFrom h (by simp)) expired).invariant
  | sendKeepAlive outcome =>
      refine (sound_clientTimer h fun p hmode hprotocol hp => ?_).invariant
      cases outcome with
      | sent => exact h
      | timedOut => exact sound_leaveAndStop h hmode .timedOut
      | noPacket =>
          have hclient := hkeeps hprotocol
          unfold Stack.clientConnected at hclient
          rw [hmode] at hclient
          simp [hp] at hclient
  | noHandshakePacket =>
      exact (sound_stopUnconnected (sound_stopUnconnected h .request (by simp)) .response
        (by simp)).invariant
  | requestTimeout calls =>
      refine (sound_clientTimer h fun p hmode _ hp => ?_).invariant
      refine sound_giveUp h hmode ?_ .requestTimedOut hstop
      rw [hp]
      simp
  | disconnectLimit => exact (sound_stopUnconnected h .disconnecting (by simp)).invariant
  | heartbeat e =>
      change Invariant (st.heartbeat e)
      unfold Stack.heartbeat
      split
      · exact (h.quiet (quiet_sendSystem st e)).invariant
      · exact h.invariant
  | resend d =>
      change Invariant (st.resendTimer d)
      unfold Stack.resendTimer
      split
      · exact (h.quiet (quiet_dispatcherResend st d)).invariant
      · exact h.invariant
  | verified b index valid => exact invariant_checksumVerified h hqueue index valid
  | checksummed index =>
      change Invariant (st.checksumUpdated index)
      unfold Stack.checksumUpdated
      split
      · exact h.invariant
      · refine (h.quiet (Quiet.trans ?_ (quiet_senderDispatch _ false _))).invariant
        apply Quiet.of_queue <;> rfl
  | api call => exact (h.quiet (quiet_apiCall st false hstop)).invariant

end Events

section Run

theorem Invariant.popped (h : Invariant st) {task : Task} {queue : List Task}
    (hqueue : st.queue = task :: queue) (hlifecycle : task.lifecycle = true) :
    Coherent { st with queue := queue }
      (task :: ({ st with queue := queue } : Stack).lifecycle) := by
  have htasks : st.lifecycle = task :: ({ st with queue := queue } : Stack).lifecycle := by
    simp [Stack.lifecycle, hqueue, hlifecycle]
  have hcoherent := h.coherent
  rw [htasks] at hcoherent
  exact hcoherent.congr rfl rfl rfl rfl rfl rfl rfl (fun _ => id) hcoherent.dying.nodup
    (fun _ _ => Iff.rfl) fun _ => id

theorem Settled.popped {b : BusId} (h : st.Settled b) {task : Task} {queue : List Task}
    (hqueue : st.queue = task :: queue) (hne : task ≠ .processSending b) :
    ({ st with queue := queue } : Stack).Settled b := by
  refine ⟨h.stop, fun hprocessing => ?_⟩
  have hmem := h.processing hprocessing
  rw [hqueue] at hmem
  exact (List.mem_cons.mp hmem).resolve_left (Ne.symm hne)

theorem Invariant.silent (h : Invariant st) {task : Task} {queue : List Task}
    (hqueue : st.queue = task :: queue) : ∀ t ∈ queue, t.receives = none := by
  intro t ht
  cases hb : t.receives with
  | none => rfl
  | some b =>
      obtain ⟨hsingle, -⟩ := h.alone t (by rw [hqueue]; exact List.mem_cons_of_mem _ ht) b hb
      rw [hqueue] at hsingle
      injection hsingle with htask hnil
      rw [hnil] at ht
      cases ht

/-- Every task of the sequencer keeps the invariant. -/
theorem invariant_task (h : Invariant st) {task : Task} {queue : List Task}
    (hqueue : st.queue = task :: queue) (hcalls : ∀ c ∈ calls, c.NotStop) :
    Invariant (({ st with queue := queue } : Stack).task calls task) := by
  have hlogged : Logged { st with queue := queue } :=
    h.logged.congr (fun _ => rfl) (fun _ => rfl) rfl rfl rfl
  -- the tasks of sessions and endpoints, and the receiving tasks
  have hlife : task.lifecycle = true →
      Sound { st with queue := queue }
        (task :: ({ st with queue := queue } : Stack).lifecycle) := by
    intro hlifecycle
    refine ⟨h.popped hqueue hlifecycle, hlogged, fun b => (h.settled b).popped hqueue ?_,
      h.silent hqueue⟩
    intro heq
    rw [heq] at hlifecycle
    cases hlifecycle
  -- the tasks of the sending side
  have hsend : task.lifecycle = false →
      Coherent { st with queue := queue } ({ st with queue := queue } : Stack).lifecycle := by
    intro hlifecycle
    have htasks : st.lifecycle = ({ st with queue := queue } : Stack).lifecycle := by
      simp [Stack.lifecycle, hqueue, hlifecycle]
    rw [← htasks]
    exact h.coherent.congr rfl rfl rfl rfl rfl rfl rfl (fun _ => id) h.coherent.dying.nodup
      (fun _ _ => Iff.rfl) fun _ => id
  have hquiet : task.lifecycle = false → (∀ b, task ≠ .processSending b) →
      Sound { st with queue := queue } ({ st with queue := queue } : Stack).lifecycle := by
    intro hlifecycle hne
    exact ⟨hsend hlifecycle, hlogged, fun b => (h.settled b).popped hqueue (hne b),
      h.silent hqueue⟩
  -- a task that receives ran alone
  have hreceive : ∀ b, task.receives = some b → task.lifecycle = true →
      queue = [] ∧ (st.buses b).acquired = true ∧
        ({ st with queue := queue } : Stack).Receivable b ∧
        Sound { st with queue := queue } ({ st with queue := queue } : Stack).lifecycle := by
    intro b hb hlifecycle
    obtain ⟨hsingle, hacquired, hreceivable⟩ :=
      h.alone task (by rw [hqueue]; exact List.mem_cons_self) b hb
    rw [hqueue] at hsingle
    injection hsingle with _ hnil
    have hsound := hlife hlifecycle
    refine ⟨hnil, hacquired, hreceivable, hsound.coherent.received_task hb, hsound.logged,
      hsound.settled, hsound.silent⟩
  cases task with
  | reception b fragment =>
      obtain ⟨hnil, hacquired, hreceivable, hsound⟩ := hreceive b rfl rfl
      exact invariant_receptionExecute hsound hnil hacquired hreceivable fragment
  | verifyChecksum b parcel fragments =>
      obtain ⟨hnil, hacquired, hreceivable, hsound⟩ := hreceive b rfl rfl
      exact invariant_verifyChecksum hsound hnil hacquired hreceivable parcel fragments
  | receiverComplete b parcel =>
      obtain ⟨-, -, hreceivable, hsound⟩ := hreceive b rfl rfl
      exact (sound_receiverComplete hsound hreceivable parcel hcalls).invariant
  | processSending b =>
      have hstill := still_processSendingDeferred { st with queue := queue } b
      change Invariant (Stack.processSendingDeferred _ b)
      refine Sound.invariant ⟨?_, hlogged.quiet hstill, ?_, ?_⟩
      · rw [hstill.lifecycle]
        exact (hsend rfl).quiet hstill
      · refine settled_processSendingDeferred fun b' hne => (h.settled b').popped hqueue ?_
        simpa using Ne.symm hne
      · intro t ht
        cases hb : t.receives with
        | none => rfl
        | some b' =>
            have hlifecycle : t.lifecycle = true := by
              cases hfalse : t.lifecycle with
              | true => rfl
              | false =>
                  rw [receives_none hfalse] at hb
                  cases hb
            have hmem : t ∈ (Stack.processSendingDeferred { st with queue := queue } b).lifecycle :=
              List.mem_filter.mpr ⟨ht, hlifecycle⟩
            rw [hstill.lifecycle] at hmem
            rw [h.silent hqueue t (List.mem_of_mem_filter hmem)] at hb
            cases hb
  | dispatcher d =>
      exact ((hquiet rfl (by simp)).quiet (quiet_dispatcherTask _ d hcalls)).invariant
  | endpointStop e => exact (sound_endpointStopDeferred (hlife rfl)).invariant
  | endpointDestroy e => exact (sound_endpointDestroyDeferred (hlife rfl)).invariant
  | endpointReady e => exact (sound_endpointOnReady (hlife rfl) hcalls).invariant
  | sessionDisconnect s => exact (sound_sessionDisconnectDeferred (hquiet rfl (by simp))).invariant
  | sessionOnDisconnected s =>
      exact (sound_sessionOnDisconnectedDeferred (hlife rfl) hcalls).invariant
  | peerDisconnect p => exact (sound_disconnectPeer (hquiet rfl (by simp))).invariant
  | socketStop =>
      exact absurd List.mem_cons_self ((hlife rfl).coherent.running.2)
  | protocolStop => exact (sound_protocolStopDeferred (hlife rfl)).invariant

theorem Invariant.sound (h : Invariant st) (hqueue : st.queue = []) : Sound st st.lifecycle :=
  ⟨h.coherent, h.logged, h.settled, fun t ht => by rw [hqueue] at ht; cases ht⟩

theorem invariant_step (h : Invariant st) {label : Label} (hstop : label.NotStop)
    (hkeeps : st.KeepsPeer label) : Invariant (st.step label) := by
  cases label with
  | event ev =>
      unfold Stack.step
      dsimp only
      split
      next hidle => exact invariant_event (h.sound hidle.1) hidle.1 hstop hkeeps
      next => exact h
  | run calls =>
      unfold Stack.step
      dsimp only
      split
      next => exact h
      next task queue hqueue => exact invariant_task h hqueue hstop
  | resume =>
      unfold Stack.step
      dsimp only
      split
      next n t dispatching hqueue hdispatching =>
        refine ((h.sound hqueue).quiet (Quiet.trans ?_ (quiet_createDispatcher _ n t))).invariant
        apply Quiet.of_queue <;> rfl
      next => exact h

theorem Started.invariant (h : Started st) : Invariant st := by
  have hpeers : ∀ q, (st.peers q).extra = none := by
    intro q
    rcases h with rfl | ⟨p, rfl⟩
    · rfl
    · simp only [Stack.connect, Function.update_apply]
      split <;> rfl
  have hrest : st.sessions = (fun _ => {}) ∧ st.endpoints = (fun _ => {}) ∧
      st.buses = (fun _ => {}) ∧ st.queue = [] ∧ st.incoming = [] ∧ st.callbacks = [] ∧
      st.socketState = .running ∧ st.assertFailed = false ∧ st.protocolState = .running := by
    rcases h with rfl | ⟨p, rfl⟩ <;> exact ⟨rfl, rfl, rfl, rfl, rfl, rfl, rfl, rfl, rfl⟩
  obtain ⟨hsessions, hendpoints, hbuses, hqueue, hincoming, hcallbacks, hsocket, hassert,
    hprotocol⟩ := hrest
  refine ⟨⟨?_, ?_, ?_, ?_, ?_, ?_⟩, ?_, ?_, ?_⟩
  · constructor <;> simp [hsessions, hendpoints, hbuses]
  · constructor <;> simp [hsessions, hpeers, hincoming, lifecycle_nil hqueue]
  · constructor <;> simp [lifecycle_nil hqueue]
  · constructor <;> simp [hendpoints, lifecycle_nil hqueue]
  · intro b hb
    rw [hbuses] at hb
    exact absurd rfl hb
  · simp [hsocket, lifecycle_nil hqueue]
  · constructor <;> simp [hsessions, hcallbacks, hassert, Stack.callbacksOf]
  · intro b
    constructor <;> simp [hbuses]
  · simp [hqueue]

end Run

end Stack

end Api

end PomeloUdp
