import PomeloUdp.Api.CoherenceReceiving

/-!
# The end of a session keeps the objects together

The task that tells the application of a disconnection releases the session and
leaves two tasks for its endpoint, which stop and destroy it in this order.
-/

namespace PomeloUdp

namespace Api

open Protocol

namespace Stack

theorem busStop_drains (st : Stack) (b : BusId) :
    ((st.busStop b).buses b).verifying = [] ∨ ((st.busStop b).buses b).stop = true := by
  by_cases hprocessing : (st.buses b).processing = true
  · right
    unfold Stack.busStop
    rw [if_pos hprocessing, setBus_buses, if_pos rfl]
  · left
    rw [busStop_bus st b (by simpa using hprocessing)]

theorem foldl_busStop_drains (st : Stack) (bs : List BusId) {b : BusId} (hb : b ∈ bs) :
    ((bs.foldl busStop st).buses b).verifying = [] ∨
      ((bs.foldl busStop st).buses b).stop = true := by
  induction bs generalizing st with
  | nil => cases hb
  | cons b' bs ih =>
      rw [List.foldl_cons]
      rcases List.mem_cons.mp hb with heq | hmem
      · have hquiet := Quiet.foldl quiet_busStop (st.busStop b') bs
        rw [← heq] at hquiet ⊢
        rcases busStop_drains st b with hempty | hstop
        · rcases hquiet.verifying b with hkept | hlost
          · exact Or.inl (hkept.trans hempty)
          · exact Or.inl hlost
        · exact (hquiet.stop b hstop).symm
      · exact ih (st.busStop b') hmem

section Endpoint

variable {st : Stack} {e : EndpointId}

theorem coherent_endpointStop (h : Coherent st (.endpointStop e :: st.lifecycle)) :
    Coherent (st.endpointStopDeferred e) (st.endpointStopDeferred e).lifecycle := by
  have hquiet := Quiet.foldl quiet_busStop st (st.endpoints e).allBuses
  have hdrained : ((st.endpoints e).allBuses.foldl busStop st).Drained e := by
    intro b hb
    rw [hquiet.endpoints] at hb
    exact foldl_busStop_drains st _ hb
  have h' := h.quiet hquiet.toStill
  have hlifecycle : (st.endpointStopDeferred e).lifecycle = st.lifecycle := hquiet.lifecycle
  rw [hlifecycle]
  unfold Stack.endpointStopDeferred
  dsimp only
  generalize (st.endpoints e).allBuses.foldl busStop st = st₁ at h' hdrained ⊢
  have hscheduled : ∀ e', ((st₁.setEndpoint e { st₁.endpoints e with scheduled := false }).endpoints
      e').extra = (st₁.endpoints e').extra := setEndpoint_field _ rfl
  have hallBuses : ∀ e', ((st₁.setEndpoint e { st₁.endpoints e with scheduled := false }).endpoints
      e').allBuses = (st₁.endpoints e').allBuses := setEndpoint_field _ rfl
  have hacquired : ∀ e', ((st₁.setEndpoint e { st₁.endpoints e with scheduled := false }).endpoints
      e').acquired = (st₁.endpoints e').acquired := setEndpoint_field _ rfl
  have hready : ∀ e', ((st₁.setEndpoint e { st₁.endpoints e with scheduled := false }).endpoints
      e').ready = (st₁.endpoints e').ready := setEndpoint_field _ rfl
  refine ⟨?_, ?_, ?_, ?_, ?_, h'.running.1, ?_⟩
  · exact h'.linked.congr (fun _ => rfl) (fun _ => rfl) hscheduled hacquired
      hallBuses (fun _ => rfl) (fun _ => rfl)
  · exact h'.attached.congr (fun _ => rfl) (fun _ => rfl) rfl rfl rfl (fun _ => id)
      (fun s => by simp) (List.mem_cons_of_mem _)
  · refine ⟨(List.nodup_cons.mp h'.dying.nodup).2, ?_, ?_, ?_⟩
    · intro e' he'
      rw [hscheduled]
      exact h'.dying.stop_detached e' (List.mem_cons_of_mem _ he')
    · intro e' he'
      rw [hscheduled, hacquired]
      exact h'.dying.destroy_detached e' (List.mem_cons_of_mem _ he')
    · intro e' he'
      by_cases heq : e' = e
      · right
        rw [heq]
        exact hdrained.congr (hallBuses e) (fun _ => Or.inl rfl) (fun _ => Or.inl)
      · rcases h'.dying.destroy_ahead e' (List.mem_cons_of_mem _ he') with hahead | hold
        · exact Or.inl
            (hahead.tail fun hcons => heq (by injection hcons with hcons; exact hcons.symm))
        · exact Or.inr (hold.congr (hallBuses e') (fun _ => Or.inl rfl) (fun _ => Or.inl))
  · exact h'.readied.congr (fun e' => by simp) (fun e' s he' => by rwa [hscheduled] at he')
      hready (fun _ => rfl)
  · exact h'.received.congr (fun _ => rfl) (fun _ => rfl) (fun _ => Or.inl rfl) (fun _ => Or.inl)
      (setEndpoint_field _ rfl) (fun e' he' => (hready e').trans he')
      (fun e' s he' => by rwa [hscheduled] at he') (fun _ => id)
  · exact fun hmem => h'.running.2 (List.mem_cons_of_mem _ hmem)

theorem foldl_releaseBus_buses (st : Stack) (bs : List BusId) (b : BusId) :
    (bs.foldl releaseBus st).buses b =
      if b ∈ bs then { st.buses b with acquired := false } else st.buses b := by
  induction bs generalizing st with
  | nil => simp
  | cons b' bs ih =>
      rw [List.foldl_cons, ih]
      unfold Stack.releaseBus
      rw [setBus_buses]
      by_cases heq : b = b'
      · simp [heq]
      · simp [heq]

theorem foldl_releaseBus_eq (st : Stack) (bs : List BusId) :
    bs.foldl releaseBus st = { st with buses := (bs.foldl releaseBus st).buses } := by
  induction bs generalizing st with
  | nil => rfl
  | cons b bs ih =>
      rw [List.foldl_cons, ih]
      rfl

theorem coherent_endpointDestroy (h : Coherent st (.endpointDestroy e :: st.lifecycle)) :
    Coherent (st.endpointDestroyDeferred e) (st.endpointDestroyDeferred e).lifecycle := by
  obtain ⟨hextra, hacquired⟩ := h.dying.destroy_detached e List.mem_cons_self
  have hnodup := List.nodup_cons.mp h.dying.nodup
  have hdrained : st.Drained e := by
    rcases h.dying.destroy_ahead e List.mem_cons_self with hahead | hdrained
    · exact absurd rfl hahead.head_ne
    · exact hdrained
  have hbuses : ∀ b, (st.endpointDestroyDeferred e).buses b =
      if b ∈ (st.endpoints e).allBuses then { st.buses b with acquired := false }
      else st.buses b := foldl_releaseBus_buses st _
  have hendpoints : ∀ e', e' ≠ e →
      (st.endpointDestroyDeferred e).endpoints e' = st.endpoints e' := by
    intro e' hne
    unfold Stack.endpointDestroyDeferred
    rw [setEndpoint_endpoints, if_neg hne, foldl_releaseBus_eq]
  have hendpoint : (st.endpointDestroyDeferred e).endpoints e =
      { st.endpoints e with
        acquired := false, scheduled := false, buses := [], systemBus := none } := by
    unfold Stack.endpointDestroyDeferred
    rw [setEndpoint_endpoints, if_pos rfl, foldl_releaseBus_eq]
  have hextras : ∀ e', ((st.endpointDestroyDeferred e).endpoints e').extra =
      (st.endpoints e').extra := by
    intro e'
    by_cases heq : e' = e
    · rw [heq, hendpoint]
    · rw [hendpoints e' heq]
  have hreadys : ∀ e', ((st.endpointDestroyDeferred e).endpoints e').ready =
      (st.endpoints e').ready := by
    intro e'
    by_cases heq : e' = e
    · rw [heq, hendpoint]
    · rw [hendpoints e' heq]
  have hrest : st.endpointDestroyDeferred e =
      { st with
        buses := (st.endpointDestroyDeferred e).buses
        endpoints := (st.endpointDestroyDeferred e).endpoints } := by
    unfold Stack.endpointDestroyDeferred
    rw [foldl_releaseBus_eq]
    rfl
  have hlifecycle : (st.endpointDestroyDeferred e).lifecycle = st.lifecycle := by
    rw [hrest]
    rfl
  -- the buses that keep their endpoint are not among the released ones
  have hkept : ∀ b, (st.buses b).acquired = true → b ∉ (st.endpoints e).allBuses →
      (st.buses b).endpoint ≠ e := by
    intro b hb hnotMem heq
    exact hnotMem (heq ▸ (h.linked.endpoint_of_bus b hb).2)
  rw [hlifecycle]
  generalize hst : st.endpointDestroyDeferred e = st' at *
  refine ⟨?_, ?_, ?_, ?_, ?_, ?_, ?_⟩
  · constructor
    · intro s hs
      rw [hrest] at hs ⊢
      obtain ⟨e', he', hextra'⟩ := h.linked.endpoint_of_session s hs
      exact ⟨e', he', (hextras e').trans hextra'⟩
    · intro e' s he'
      rw [hextras] at he'
      have hne : e' ≠ e := by
        intro heq
        rw [heq, hextra] at he'
        cases he'
      rw [hendpoints e' hne, hrest]
      exact h.linked.session_of_endpoint e' s he'
    · intro b hb
      rw [hbuses] at hb ⊢
      split at hb
      · cases hb
      next hnotMem =>
        rw [if_neg hnotMem, hendpoints _ (hkept b hb hnotMem)]
        exact h.linked.endpoint_of_bus b hb
    · intro e' b he' hb
      have hne : e' ≠ e := by
        intro heq
        rw [heq, hendpoint] at he'
        cases he'
      rw [hendpoints e' hne] at he' hb
      obtain ⟨hacq, hend⟩ := h.linked.bus_of_endpoint e' b he' hb
      have hnotMem : b ∉ (st.endpoints e).allBuses := fun hmem =>
        hne (hend.symm.trans (h.linked.bus_of_endpoint e b hacquired hmem).2)
      rw [hbuses, if_neg hnotMem]
      exact ⟨hacq, hend⟩
  · rw [hrest]
    exact h.attached.congr (fun _ => rfl) (fun _ => rfl) rfl rfl rfl (fun _ => id)
      (fun s => by simp) (List.mem_cons_of_mem _)
  · refine ⟨hnodup.2, ?_, ?_, ?_⟩
    · intro e' he'
      rw [hextras]
      exact h.dying.stop_detached e' (List.mem_cons_of_mem _ he')
    · intro e' he'
      have hne : e' ≠ e := fun heq => hnodup.1 (heq ▸ he')
      rw [hendpoints e' hne]
      exact h.dying.destroy_detached e' (List.mem_cons_of_mem _ he')
    · intro e' he'
      have hne : e' ≠ e := fun heq => hnodup.1 (heq ▸ he')
      rcases h.dying.destroy_ahead e' (List.mem_cons_of_mem _ he') with hahead | hold
      · exact Or.inl (hahead.tail (by simp))
      · refine Or.inr (hold.congr (by rw [hendpoints e' hne]) (fun b => Or.inl ?_)
          fun b hb => Or.inl ?_)
        · rw [hbuses]
          split <;> rfl
        · rw [hbuses]
          split <;> exact hb
  · exact h.readied.congr (fun e' => by simp) (fun e' s he' => by rwa [hextras] at he')
      hreadys (fun s => by rw [hrest])
  · intro b hb
    rw [hbuses] at hb ⊢
    by_cases hmem : b ∈ (st.endpoints e).allBuses
    · rw [if_pos hmem] at hb ⊢
      exact Or.inr ((hdrained b hmem).resolve_left hb)
    · rw [if_neg hmem] at hb ⊢
      rcases h.received b hb with ⟨hacq, hreceivable⟩ | hstop
      · refine Or.inl ⟨hacq, ?_⟩
        unfold Receivable at hreceivable ⊢
        rw [hbuses, if_neg hmem, hendpoints _ (hkept b hacq hmem), hrest]
        exact hreceivable
      · exact Or.inr hstop
  · rw [hrest]
    exact h.running.1
  · exact fun hmem => h.running.2 (List.mem_cons_of_mem _ hmem)

end Endpoint

section Close

variable {st : Stack} {s : SessionId} {e : EndpointId} {tasks : List Task}

theorem Coherent.endpoint_of_leaving (h : Coherent st (.sessionOnDisconnected s :: tasks)) :
    ∃ e, (st.sessions s).endpoint = some e ∧ (st.endpoints e).extra = some s ∧
      (st.endpoints e).acquired = true := by
  have hlive := ((h.attached.leaving s).mp List.mem_cons_self).1
  obtain ⟨e, hendpoint, hextra⟩ := h.linked.endpoint_of_session s hlive
  exact ⟨e, hendpoint, hextra, (h.linked.session_of_endpoint e s hextra).2.2⟩

/-- Releasing the session and detaching its endpoint leaves two tasks, one behind
the other. -/
theorem Coherent.close (h : Coherent st (.sessionOnDisconnected s :: tasks))
    (hextra : (st.endpoints e).extra = some s) (session : Session)
    (hsignature : session.signature = 0) (hpeer : session.peer = none)
    (hready : session.ready = (st.sessions s).ready) :
    Coherent ((st.setEndpoint e { st.endpoints e with extra := none }).setSession s session)
      (Sequencer.submit (Sequencer.submit tasks (.endpointStop e)) (.endpointDestroy e)) := by
  obtain ⟨hlive, hendpoint, hacquired⟩ := h.linked.session_of_endpoint e s hextra
  obtain ⟨-, hpeerless⟩ := (h.attached.leaving s).mp List.mem_cons_self
  have hnodup := List.nodup_cons.mp h.dying.nodup
  let st' := (st.setEndpoint e { st.endpoints e with extra := none }).setSession s session
  have hsessions : ∀ s', s' ≠ s → st'.sessions s' = st.sessions s' := fun s' hne => by
    change ((st.setSession s session).sessions s') = _
    rw [setSession_sessions, if_neg hne]
  have hsession : st'.sessions s = session := by
    change ((st.setSession s session).sessions s) = _
    rw [setSession_sessions, if_pos rfl]
  have hextras : ∀ e' s', (st'.endpoints e').extra = some s' →
      e' ≠ e ∧ s' ≠ s ∧ (st.endpoints e').extra = some s' := by
    intro e' s' he'
    change ((st.setEndpoint e _).endpoints e').extra = some s' at he'
    rw [setEndpoint_endpoints] at he'
    split at he'
    · cases he'
    next hne =>
      refine ⟨hne, fun heq => hne ?_, he'⟩
      exact h.linked.extra_unique he' (heq ▸ hextra)
  have hnone : (st'.endpoints e).extra = none := by
    change ((st.setEndpoint e _).endpoints e).extra = none
    rw [setEndpoint_endpoints, if_pos rfl]
  have hother : ∀ e', e' ≠ e → st'.endpoints e' = st.endpoints e' := fun e' hne => by
    change (st.setEndpoint e _).endpoints e' = _
    rw [setEndpoint_endpoints, if_neg hne]
  have hacquireds : ∀ e', (st'.endpoints e').acquired = (st.endpoints e').acquired :=
    setEndpoint_field _ rfl
  have hallBuses : ∀ e', (st'.endpoints e').allBuses = (st.endpoints e').allBuses :=
    setEndpoint_field _ rfl
  have hsystemBus : ∀ e', (st'.endpoints e').systemBus = (st.endpoints e').systemBus :=
    setEndpoint_field _ rfl
  have hreadys : ∀ e', (st'.endpoints e').ready = (st.endpoints e').ready :=
    setEndpoint_field _ rfl
  have hsessionReady : ∀ s', (st'.sessions s').ready = (st.sessions s').ready := by
    intro s'
    by_cases heq : s' = s
    · rw [heq, hsession, hready]
    · rw [hsessions s' heq]
  refine ⟨?_, ?_, ?_, ?_, ?_, h.running.1, ?_⟩
  · constructor
    · intro s' hs'
      have hne : s' ≠ s := by
        intro heq
        rw [heq] at hs'
        exact hs' ((congrArg Session.signature hsession).trans hsignature)
      rw [hsessions s' hne] at hs' ⊢
      obtain ⟨e', he', hextra'⟩ := h.linked.endpoint_of_session s' hs'
      refine ⟨e', he', ?_⟩
      rw [hother e' fun heq => hne ?_]
      · exact hextra'
      · rw [heq, hextra] at hextra'
        exact (Option.some.inj hextra').symm
    · intro e' s' he'
      obtain ⟨-, hne, hold⟩ := hextras e' s' he'
      rw [hsessions s' hne, hacquireds]
      exact h.linked.session_of_endpoint e' s' hold
    · intro b hb
      rw [hacquireds, hallBuses]
      exact h.linked.endpoint_of_bus b hb
    · intro e' b he' hb
      rw [hacquireds] at he'
      rw [hallBuses] at hb
      exact h.linked.bus_of_endpoint e' b he' hb
  · constructor
    · intro s' p hp
      have hne : s' ≠ s := by
        intro heq
        rw [heq, hsession, hpeer] at hp
        cases hp
      rw [hsessions s' hne] at hp ⊢
      exact h.attached.peer_of_session s' p hp
    · intro p s' hs'
      have hold := h.attached.session_of_peer p s' hs'
      rw [hsessions s' fun heq => ?_]
      · exact hold
      · rw [heq, hpeerless] at hold
        cases hold
    · intro s'
      simp only [Sequencer.mem_submit, reduceCtorEq, false_or]
      by_cases heq : s' = s
      · rw [heq, hsession]
        exact ⟨fun hmem => absurd hmem hnodup.1, fun hs => absurd hsignature hs.1⟩
      · rw [hsessions s' heq, ← h.attached.leaving s']
        simp [heq]
    · exact h.attached.incoming
    · intro hstop
      simp only [Sequencer.mem_submit, reduceCtorEq, false_or] at hstop
      exact h.attached.stopping (List.mem_cons_of_mem _ hstop)
  · have hfresh : Task.endpointDestroy e ∉ Sequencer.submit tasks (.endpointStop e) := by
      simp only [Sequencer.mem_submit, reduceCtorEq, false_or]
      intro hmem
      have := (h.dying.destroy_detached e (List.mem_cons_of_mem _ hmem)).1
      rw [hextra] at this
      cases this
    constructor
    · exact Sequencer.nodup_submit (Sequencer.nodup_submit hnodup.2 _) _
    · intro e' he'
      by_cases heq : e' = e
      · rw [heq, hnone]
      · simp only [Sequencer.mem_submit, reduceCtorEq, false_or, Task.endpointStop.injEq, heq]
          at he'
        rw [hother e' heq]
        exact h.dying.stop_detached e' (List.mem_cons_of_mem _ he')
    · intro e' he'
      rw [hacquireds]
      by_cases heq : e' = e
      · rw [heq]
        exact ⟨hnone, hacquired⟩
      · simp only [Sequencer.mem_submit, reduceCtorEq, false_or, Task.endpointDestroy.injEq, heq]
          at he'
        rw [hother e' heq]
        exact h.dying.destroy_detached e' (List.mem_cons_of_mem _ he')
    · intro e' he'
      by_cases heq : e' = e
      · rw [heq]
        exact Or.inl (Sequencer.ahead_submit (by simp) hfresh)
      · simp only [Sequencer.mem_submit, reduceCtorEq, false_or, Task.endpointDestroy.injEq, heq]
          at he'
        rcases h.dying.destroy_ahead e' (List.mem_cons_of_mem _ he') with hahead | hdrained
        · have hne : Task.endpointStop e ≠ .endpointStop e' := by simpa using Ne.symm heq
          have hne' : Task.endpointDestroy e ≠ .endpointDestroy e' := by simpa using Ne.symm heq
          exact Or.inl (((hahead.tail (by simp)).submit hne (by simp)).submit (by simp) hne')
        · exact Or.inr (hdrained.congr (hallBuses e') (fun _ => Or.inl rfl) (fun _ => Or.inl))
  · exact h.readied.congr (fun e' => by simp) (fun e' s' he' => (hextras e' s' he').2.2) hreadys
      hsessionReady
  · exact h.received.congr (fun _ => rfl) (fun _ => rfl) (fun _ => Or.inl rfl) (fun _ => Or.inl)
      hsystemBus (fun e' he' => (hreadys e').trans he') (fun e' s' he' => (hextras e' s' he').2.2)
      (fun s' hs' => (hsessionReady s').trans hs')
  · simpa using h.running.2

/-- The state in which the application has heard of the disconnection, if the
session was ready. -/
def told (st : Stack) (s : SessionId) (calls : List ApiCall) : Stack :=
  if (st.sessions s).ready then (st.callback s .disconnected).inCallback calls else st

theorem quiet_told (st : Stack) (s : SessionId) {calls : List ApiCall}
    (hcalls : ∀ c ∈ calls, c.NotStop) :
    Quiet { st with callbacks := (st.told s calls).callbacks } (st.told s calls) := by
  unfold Stack.told
  split
  · have hquiet := quiet_inCallback (st.callback s .disconnected) hcalls
    refine Quiet.trans ?_ hquiet
    apply Quiet.of_queue <;> first | rfl | exact hquiet.callbacks.symm
  · exact Quiet.refl st

theorem detachPeer_of_none (hpeer : (st.sessions s).peer = none) : st.detachPeer s = st := by
  unfold Stack.detachPeer
  rw [hpeer]

theorem sessionRelease_eq (hendpoint : (st.sessions s).endpoint = none)
    (hpeer : (st.sessions s).peer = none) :
    st.sessionRelease s =
      st.setSession s { st.sessions s with signature := 0, endpoint := none, channels := [] } := by
  unfold Stack.sessionRelease
  rw [hendpoint]
  dsimp only
  rw [detachPeer_of_none hpeer]

theorem sessionOnDisconnectedDeferred_eq {calls : List ApiCall} (hcalls : ∀ c ∈ calls, c.NotStop)
    (hendpoint : (st.sessions s).endpoint = some e) (hpeer : (st.sessions s).peer = none) :
    let st' := (st.submit (.endpointStop e)).told s calls
    st.sessionOnDisconnectedDeferred s calls =
      { ((st'.setEndpoint e { st'.endpoints e with extra := none }).setSession s
          { st'.sessions s with signature := 0, endpoint := none, channels := [] }).submit
            (.endpointDestroy e) with
        sessionList := st'.sessionList.erase s } := by
  have hpeer' : (((st.submit (.endpointStop e)).told s calls).sessions s).peer = none := by
    rw [(quiet_told (st.submit (.endpointStop e)) s hcalls).sessions]
    exact hpeer
  unfold Stack.sessionOnDisconnectedDeferred
  rw [hendpoint]
  dsimp only
  rw [sessionRelease_eq]
  · simp [Stack.told, Stack.setSession, Stack.setEndpoint, Stack.submit]
  · simp [Stack.setSession]
  · simpa [Stack.setSession, Stack.told, Stack.setEndpoint, Stack.submit] using hpeer'

theorem coherent_sessionOnDisconnectedDeferred {calls : List ApiCall}
    (h : Coherent st (.sessionOnDisconnected s :: st.lifecycle))
    (hcalls : ∀ c ∈ calls, c.NotStop) :
    Coherent (st.sessionOnDisconnectedDeferred s calls)
      (st.sessionOnDisconnectedDeferred s calls).lifecycle := by
  obtain ⟨e, hendpoint, hextra, -⟩ := h.endpoint_of_leaving
  have hpeer := ((h.attached.leaving s).mp List.mem_cons_self).2
  rw [sessionOnDisconnectedDeferred_eq hcalls hendpoint hpeer]
  have hquiet := quiet_told (st.submit (.endpointStop e)) s hcalls
  generalize (st.submit (.endpointStop e)).told s calls = st' at hquiet ⊢
  have htold : Coherent st' (.sessionOnDisconnected s :: st.lifecycle) := by
    refine Coherent.quiet ?_ hquiet.toStill
    exact h.congr rfl rfl rfl rfl rfl rfl rfl (fun _ => id) h.dying.nodup (fun _ _ => Iff.rfl)
      fun _ => id
  have hclosed := htold.close (e := e) (by rw [hquiet.endpoints]; exact hextra)
    { st'.sessions s with signature := 0, endpoint := none, channels := [] } rfl
    (by rw [hquiet.sessions]; exact hpeer) rfl
  have htasks : st'.lifecycle = Sequencer.submit st.lifecycle (.endpointStop e) :=
    hquiet.lifecycle.trans (lifecycle_submit rfl)
  rw [← htasks] at hclosed
  change Coherent _ (Stack.submit _ _).lifecycle
  rw [lifecycle_submit rfl]
  exact hclosed.congr rfl rfl rfl rfl rfl rfl rfl (fun _ => id) hclosed.dying.nodup
    (fun _ _ => Iff.rfl) fun _ => id

end Close

end Stack

end Api

end PomeloUdp
