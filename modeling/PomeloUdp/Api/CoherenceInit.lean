import PomeloUdp.Api.CoherencePeer

/-!
# A new session keeps the objects together

A connected peer gets a session in a slot that is free, with an endpoint and
buses that are free, while no session or endpoint is coming apart.
-/

namespace PomeloUdp

namespace Api

open Protocol

namespace Stack

theorem foldl_initBus_buses (st : Stack) (e : EndpointId) (bs : List BusId) (b : BusId) :
    (bs.foldl (initBus e) st).buses b =
      if b ∈ bs then { st.buses b with acquired := true, endpoint := e } else st.buses b := by
  induction bs generalizing st with
  | nil => simp
  | cons b' bs ih =>
      rw [List.foldl_cons, ih]
      unfold Stack.initBus
      rw [setBus_buses]
      by_cases heq : b = b'
      · simp [heq]
      · simp [heq]

theorem foldl_initBus_eq (st : Stack) (e : EndpointId) (bs : List BusId) :
    bs.foldl (initBus e) st = { st with buses := (bs.foldl (initBus e) st).buses } := by
  induction bs generalizing st with
  | nil => rfl
  | cons b bs ih =>
      rw [List.foldl_cons, ih]
      rfl

variable {st : Stack} {p : PeerId} {slots : SessionSlots}

/-- The session that `sessionInit` makes. -/
def newSession (st : Stack) (p : PeerId) (slots : SessionSlots) : Session where
  signature := st.signatureGenerator + 1
  peer := some p
  endpoint := some slots.endpoint
  state := .connecting
  channels := slots.buses

/-- The endpoint that `sessionInit` makes. -/
def newEndpoint (slots : SessionSlots) : Endpoint where
  acquired := true
  extra := some slots.session
  scheduled := true
  buses := slots.buses
  systemBus := some slots.systemBus

theorem sessionInit_sessions (st : Stack) (p : PeerId) (slots : SessionSlots) (s : SessionId) :
    (st.sessionInit p slots).sessions s =
      if s = slots.session then st.newSession p slots else st.sessions s := by
  unfold Stack.sessionInit Stack.endpointInit
  dsimp only
  rw [setSession_sessions, foldl_initBus_eq]
  rfl

theorem sessionInit_endpoints (st : Stack) (p : PeerId) (slots : SessionSlots) (e : EndpointId) :
    (st.sessionInit p slots).endpoints e =
      if e = slots.endpoint then newEndpoint slots else st.endpoints e := by
  unfold Stack.sessionInit Stack.endpointInit
  dsimp only
  rw [foldl_initBus_eq]
  exact setEndpoint_endpoints _ _ _ _

theorem sessionInit_buses (st : Stack) (p : PeerId) (slots : SessionSlots) (b : BusId) :
    (st.sessionInit p slots).buses b =
      if b ∈ slots.allBuses then { st.buses b with acquired := true, endpoint := slots.endpoint }
      else st.buses b := by
  unfold Stack.sessionInit Stack.endpointInit
  exact foldl_initBus_buses _ _ _ _

theorem sessionInit_peers (st : Stack) (p : PeerId) (slots : SessionSlots) (q : PeerId) :
    (st.sessionInit p slots).peers q =
      if q = p then { st.peers p with extra := some slots.session } else st.peers q := by
  unfold Stack.sessionInit Stack.endpointInit
  dsimp only
  rw [foldl_initBus_eq]
  exact setPeer_peers _ _ _ _

theorem sessionInit_eq (st : Stack) (p : PeerId) (slots : SessionSlots) :
    st.sessionInit p slots =
      { st with
        sessions := (st.sessionInit p slots).sessions
        endpoints := (st.sessionInit p slots).endpoints
        buses := (st.sessionInit p slots).buses
        peers := (st.sessionInit p slots).peers
        sessionList := st.sessionList ++ [slots.session]
        signatureGenerator := st.signatureGenerator + 1 } := by
  unfold Stack.sessionInit Stack.endpointInit
  dsimp only
  rw [foldl_initBus_eq]
  rfl

theorem coherent_sessionInit (h : Coherent st []) (hslots : slots.Free st)
    (hextra : (st.peers p).extra = none) (hstate : (st.peers p).state = .connected)
    (hprotocol : st.protocolState = .running) (hclient : ∀ q, st.mode = .client q → q = some p)
    (hclean : ∀ b ∈ slots.allBuses, (st.buses b).verifying = []) :
    Coherent (st.sessionInit p slots) [] := by
  have hsession : ∀ s, s ≠ slots.session → (st.sessionInit p slots).sessions s = st.sessions s :=
    fun s hne => by rw [sessionInit_sessions, if_neg hne]
  have hendpoint : ∀ e, e ≠ slots.endpoint →
      (st.sessionInit p slots).endpoints e = st.endpoints e :=
    fun e hne => by rw [sessionInit_endpoints, if_neg hne]
  have hnewSession : (st.sessionInit p slots).sessions slots.session = st.newSession p slots := by
    rw [sessionInit_sessions, if_pos rfl]
  have hnewEndpoint : (st.sessionInit p slots).endpoints slots.endpoint = newEndpoint slots := by
    rw [sessionInit_endpoints, if_pos rfl]
  -- the endpoints of other sessions are other endpoints
  have hother : ∀ e s, (st.endpoints e).extra = some s →
      e ≠ slots.endpoint ∧ s ≠ slots.session := by
    intro e s he
    obtain ⟨hlive, -, hacquired⟩ := h.linked.session_of_endpoint e s he
    refine ⟨fun heq => ?_, fun heq => hlive (heq ▸ hslots.session)⟩
    rw [heq, hslots.endpoint] at hacquired
    cases hacquired
  refine ⟨?_, ?_, ?_, ?_, ?_, ?_, List.not_mem_nil⟩
  · constructor
    · intro s hs
      by_cases heq : s = slots.session
      · refine ⟨slots.endpoint, ?_, ?_⟩
        · rw [heq, hnewSession]
          rfl
        · rw [hnewEndpoint, heq]
          rfl
      · rw [hsession s heq] at hs ⊢
        obtain ⟨e, he, hextra'⟩ := h.linked.endpoint_of_session s hs
        exact ⟨e, he, by rw [hendpoint e (hother e s hextra').1, hextra']⟩
    · intro e s he
      by_cases heq : e = slots.endpoint
      · rw [heq, hnewEndpoint] at he ⊢
        have hs : s = slots.session := (Option.some.inj he).symm
        rw [hs, hnewSession]
        exact ⟨by simp [newSession], rfl, rfl⟩
      · rw [hendpoint e heq] at he ⊢
        rw [hsession s (hother e s he).2]
        exact h.linked.session_of_endpoint e s he
    · intro b hb
      rw [sessionInit_buses] at hb ⊢
      split
      next hmem =>
        dsimp only
        rw [hnewEndpoint]
        exact ⟨rfl, hmem⟩
      next hnotMem =>
        rw [if_neg hnotMem] at hb
        obtain ⟨hacquired, hmem⟩ := h.linked.endpoint_of_bus b hb
        rw [hendpoint _ fun heq => ?_]
        · exact ⟨hacquired, hmem⟩
        · rw [heq, hslots.endpoint] at hacquired
          cases hacquired
    · intro e b he hb
      by_cases heq : e = slots.endpoint
      · rw [heq, hnewEndpoint] at hb
        have hmem : b ∈ slots.allBuses := hb
        rw [sessionInit_buses, if_pos hmem]
        exact ⟨rfl, heq.symm⟩
      · rw [hendpoint e heq] at he hb
        obtain ⟨hacquired, hbus⟩ := h.linked.bus_of_endpoint e b he hb
        have hnotMem : b ∉ slots.allBuses := by
          intro hmem
          rw [hslots.buses b hmem] at hacquired
          cases hacquired
        rw [sessionInit_buses, if_neg hnotMem]
        exact ⟨hacquired, hbus⟩
  · have hpeers : ∀ q, q ≠ p → (st.sessionInit p slots).peers q = st.peers q :=
      fun q hne => by rw [sessionInit_peers, if_neg hne]
    have hnewPeer : (st.sessionInit p slots).peers p =
        { st.peers p with extra := some slots.session } := by
      rw [sessionInit_peers, if_pos rfl]
    constructor
    · intro s q hq
      by_cases heq : s = slots.session
      · rw [heq, hnewSession] at hq ⊢
        have hqp : q = p := (Option.some.inj hq).symm
        rw [hqp, hnewPeer, sessionInit_eq]
        exact ⟨by simp [newSession], rfl, hstate, hprotocol, hclient⟩
      · rw [hsession s heq] at hq ⊢
        obtain ⟨hlive, hpeer, hrest⟩ := h.attached.peer_of_session s q hq
        have hne : q ≠ p := by
          intro hqp
          rw [hqp, hextra] at hpeer
          cases hpeer
        rw [hpeers q hne, sessionInit_eq]
        exact ⟨hlive, hpeer, hrest⟩
    · intro q s hs
      by_cases heq : q = p
      · rw [heq, hnewPeer] at hs
        rw [← Option.some.inj hs, hnewSession, heq]
        rfl
      · rw [hpeers q heq] at hs
        have hold := h.attached.session_of_peer q s hs
        rw [hsession s fun hss => ?_]
        · exact hold
        · exact (h.attached.peer_of_session s q hold).1 (hss ▸ hslots.session)
    · intro s
      refine ⟨fun hmem => absurd hmem List.not_mem_nil, fun ⟨hlive, hnone⟩ => ?_⟩
      by_cases heq : s = slots.session
      · rw [heq, hnewSession] at hnone
        cases hnone
      · rw [hsession s heq] at hlive hnone
        exact (h.attached.leaving s).mpr ⟨hlive, hnone⟩
    · rw [sessionInit_eq]
      exact h.attached.incoming
    · exact fun hmem => absurd hmem List.not_mem_nil
  · exact ⟨List.nodup_nil, fun e hmem => absurd hmem List.not_mem_nil,
      fun e hmem => absurd hmem List.not_mem_nil, fun e hmem => absurd hmem List.not_mem_nil⟩
  · constructor
    · intro e s he hs
      by_cases heq : e = slots.endpoint
      · rw [heq, hnewEndpoint] at he
        rw [← Option.some.inj he, hnewSession] at hs
        cases hs
      · rw [hendpoint e heq] at he ⊢
        rw [hsession s (hother e s he).2] at hs
        exact h.readied.endpoint_ready e s he hs
    · intro e s he hready
      by_cases heq : e = slots.endpoint
      · rw [heq, hnewEndpoint] at hready
        cases hready
      · rw [hendpoint e heq] at he hready
        rw [hsession s (hother e s he).2]
        exact h.readied.session_ready e s he hready
    · exact fun e s _ hmem => absurd hmem List.not_mem_nil
  · intro b hb
    have hnotMem : b ∉ slots.allBuses := by
      intro hmem
      rw [sessionInit_buses, if_pos hmem] at hb
      exact hb (hclean b hmem)
    rw [sessionInit_buses, if_neg hnotMem] at hb ⊢
    rcases h.received b hb with ⟨hacquired, hreceivable⟩ | hstop
    · refine Or.inl ⟨hacquired, ?_⟩
      have hne : (st.buses b).endpoint ≠ slots.endpoint := by
        intro heq
        have := (h.linked.endpoint_of_bus b hacquired).1
        rw [heq, hslots.endpoint] at this
        cases this
      unfold Receivable at hreceivable ⊢
      rw [sessionInit_buses, if_neg hnotMem, hendpoint _ hne]
      refine hreceivable.imp id fun ⟨hready, hsessions⟩ => ⟨hready, fun s hs => ?_⟩
      rw [hsession s (hother _ s hs).2]
      exact hsessions s hs
    · exact Or.inr hstop
  · rw [sessionInit_eq]
    exact h.running.1

end Stack

end Api

end PomeloUdp
