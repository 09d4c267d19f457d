import PomeloUdp.Api.Coherence

/-!
# Receiving keeps the objects together

Each lemma takes the conditions of `Coherent` for the running task and those
that wait, and gives them for those that wait after the task.
-/

namespace PomeloUdp

namespace Api

open Protocol

namespace Stack

theorem setEndpoint_endpoints (st : Stack) (e : EndpointId) (endpoint : Endpoint)
    (e' : EndpointId) :
    (st.setEndpoint e endpoint).endpoints e' = if e' = e then endpoint else st.endpoints e' :=
  Function.update_apply st.endpoints e endpoint e'

theorem setSession_sessions (st : Stack) (s : SessionId) (session : Session) (s' : SessionId) :
    (st.setSession s session).sessions s' = if s' = s then session else st.sessions s' :=
  Function.update_apply st.sessions s session s'

theorem setPeer_peers (st : Stack) (p : PeerId) (peer : PeerSlot) (p' : PeerId) :
    (st.setPeer p peer).peers p' = if p' = p then peer else st.peers p' :=
  Function.update_apply st.peers p peer p'

theorem setEndpoint_field {α : Type*} (f : Endpoint → α) {st : Stack} {e : EndpointId}
    {endpoint : Endpoint} (h : f endpoint = f (st.endpoints e)) (e' : EndpointId) :
    f ((st.setEndpoint e endpoint).endpoints e') = f (st.endpoints e') := by
  rw [setEndpoint_endpoints]
  split
  next heq => rw [heq, h]
  next => rfl

theorem setSession_field {α : Type*} (f : Session → α) {st : Stack} {s : SessionId}
    {session : Session} (h : f session = f (st.sessions s)) (s' : SessionId) :
    f ((st.setSession s session).sessions s') = f (st.sessions s') := by
  rw [setSession_sessions]
  split
  next heq => rw [heq, h]
  next => rfl

theorem setBus_field {α : Type*} (f : Bus → α) {st : Stack} {b : BusId} {bus : Bus}
    (h : f bus = f (st.buses b)) (b' : BusId) :
    f ((st.setBus b bus).buses b') = f (st.buses b') := by
  rw [setBus_buses]
  split
  next heq => rw [heq, h]
  next => rfl

theorem mem_lifecycle_submit {st : Stack} {task t : Task} (h : task.lifecycle = true) :
    t ∈ (st.submit task).lifecycle ↔ t = task ∨ t ∈ st.lifecycle := by
  rw [lifecycle_submit h, Sequencer.mem_submit]

theorem nodup_lifecycle_submit {st : Stack} {task : Task} (h : task.lifecycle = true)
    (hnodup : st.lifecycle.Nodup) : (st.submit task).lifecycle.Nodup := by
  rw [lifecycle_submit h]
  exact Sequencer.nodup_submit hnodup task

theorem ahead_lifecycle_submit {st : Stack} {task a b : Task} (h : task.lifecycle = true)
    (ha : task ≠ a) (hb : task ≠ b) (hahead : Sequencer.Ahead a b st.lifecycle) :
    Sequencer.Ahead a b (st.submit task).lifecycle := by
  rw [lifecycle_submit h]
  exact hahead.submit ha hb

section Ready

variable {st : Stack} {e : EndpointId}

theorem Coherent.setReady {s : SessionId} (h : Coherent st (.endpointReady e :: st.lifecycle))
    (hextra : (st.endpoints e).extra = some s) :
    Coherent (st.setSession s { st.sessions s with ready := true, state := .connected })
      st.lifecycle where
  linked := h.linked.congr (setSession_field _ rfl) (setSession_field _ rfl) (fun _ => rfl)
    (fun _ => rfl) (fun _ => rfl) (fun _ => rfl) (fun _ => rfl)
  attached := h.attached.congr (setSession_field _ rfl) (setSession_field _ rfl) rfl rfl rfl
    (fun _ => id) (fun s => by simp) (List.mem_cons_of_mem _)
  dying := h.dying.congr (List.nodup_cons.mp h.dying.nodup).2
    (fun e => List.mem_cons_of_mem _) (fun e => List.mem_cons_of_mem _)
    (fun e hahead => hahead.tail (by simp)) (fun _ => rfl) (fun _ => rfl) (fun _ => rfl)
    (fun _ => Or.inl rfl) (fun _ => Or.inl)
  readied := by
    have hnotMem := (List.nodup_cons.mp h.dying.nodup).1
    have hready := (h.readied.pending e s hextra List.mem_cons_self).2
    constructor
    · intro e' s' he' hs'
      rw [setSession_sessions] at hs'
      split at hs'
      next heq =>
        rw [h.linked.extra_unique he' (heq ▸ hextra)]
        exact hready
      next => exact h.readied.endpoint_ready e' s' he' hs'
    · intro e' s' he' hready'
      rw [setSession_sessions]
      split
      next => exact Or.inl rfl
      next hne =>
        rcases h.readied.session_ready e' s' he' hready' with hs | hmem
        · exact Or.inl hs
        · rcases List.mem_cons.mp hmem with heq | hmem
          · injection heq with heq
            rw [heq] at he'
            exact absurd (Option.some.inj (he'.symm.trans hextra)) hne
          · exact Or.inr hmem
    · intro e' s' he' hmem
      rw [setSession_sessions]
      split
      next heq =>
        rw [h.linked.extra_unique he' (heq ▸ hextra)] at hmem
        exact absurd hmem hnotMem
      next => exact h.readied.pending e' s' he' (List.mem_cons_of_mem _ hmem)
  received := h.received.congr (fun _ => rfl) (fun _ => rfl) (fun _ => Or.inl rfl)
    (fun _ => Or.inl) (fun _ => rfl) (fun _ => id) (fun _ _ => id) (fun s' hs' => by
      rw [setSession_sessions]
      split
      · rfl
      · exact hs')
  running := ⟨h.running.1, fun hmem => h.running.2 (List.mem_cons_of_mem _ hmem)⟩

theorem coherent_endpointOnReady {calls : List ApiCall}
    (h : Coherent st (.endpointReady e :: st.lifecycle)) (hcalls : ∀ c ∈ calls, c.NotStop) :
    Coherent (st.endpointOnReady e calls) (st.endpointOnReady e calls).lifecycle := by
  unfold Stack.endpointOnReady
  split
  next hextra =>
    have hne : ∀ e' s, (st.endpoints e').extra = some s → e' ≠ e := by
      intro e' s he' heq
      rw [heq, hextra] at he'
      cases he'
    refine ⟨h.linked, ?_, ?_, ?_, h.received, h.running.1, ?_⟩
    · exact h.attached.congr (fun _ => rfl) (fun _ => rfl) rfl rfl rfl (fun _ => id)
        (fun s => by simp) (List.mem_cons_of_mem _)
    · exact h.dying.congr (List.nodup_cons.mp h.dying.nodup).2
        (fun e => List.mem_cons_of_mem _) (fun e => List.mem_cons_of_mem _)
        (fun e hahead => hahead.tail (by simp)) (fun _ => rfl) (fun _ => rfl) (fun _ => rfl)
        (fun _ => Or.inl rfl) (fun _ => Or.inl)
    · refine ⟨h.readied.endpoint_ready, ?_, ?_⟩
      · intro e' s he' hready
        refine (h.readied.session_ready e' s he' hready).imp id fun hmem => ?_
        refine (List.mem_cons.mp hmem).resolve_left fun heq => ?_
        injection heq with heq
        exact hne e' s he' heq
      · intro e' s he' hmem
        exact h.readied.pending e' s he' (List.mem_cons_of_mem _ hmem)
    · exact fun hmem => h.running.2 (List.mem_cons_of_mem _ hmem)
  next s hextra =>
    dsimp only
    have hquiet := quiet_inCallback ((st.setSession s
      { st.sessions s with ready := true, state := .connected }).callback s .connected) hcalls
    rw [hquiet.lifecycle]
    refine Coherent.quiet ?_ hquiet.toStill
    exact (h.setReady hextra).congr rfl rfl rfl rfl rfl rfl rfl (fun _ => id)
      (h.setReady hextra).dying.nodup (fun _ _ => Iff.rfl) (fun _ => id)

theorem coherent_checkReady (h : Coherent st st.lifecycle) :
    Coherent (st.checkReady e) (st.checkReady e).lifecycle := by
  unfold Stack.checkReady
  split
  · exact h
  next hready =>
    have hready : (st.endpoints e).ready = false := by simpa using hready
    have hmem : ∀ t, t ∈ ((st.setEndpoint e { st.endpoints e with ready := true }).submit
        (.endpointReady e)).lifecycle ↔ t = .endpointReady e ∨ t ∈ st.lifecycle :=
      fun t => mem_lifecycle_submit rfl
    have hmono : ∀ e', (st.endpoints e').ready = true →
        ((st.setEndpoint e { st.endpoints e with ready := true }).endpoints e').ready = true := by
      intro e' he'
      rw [setEndpoint_endpoints]
      split
      · rfl
      · exact he'
    have hextra : ∀ e', ((st.setEndpoint e { st.endpoints e with ready := true }).endpoints
        e').extra = (st.endpoints e').extra := setEndpoint_field _ rfl
    refine ⟨?_, ?_, ?_, ?_, ?_, h.running.1, ?_⟩
    · exact h.linked.congr (fun _ => rfl) (fun _ => rfl) (setEndpoint_field _ rfl)
        (setEndpoint_field _ rfl) (setEndpoint_field Endpoint.allBuses rfl) (fun _ => rfl)
        (fun _ => rfl)
    · exact h.attached.congr (fun _ => rfl) (fun _ => rfl) rfl rfl rfl (fun _ => id)
        (fun s => by rw [hmem]; simp) (fun hstop => by rw [hmem] at hstop; simpa using hstop)
    · exact h.dying.congr (nodup_lifecycle_submit rfl h.dying.nodup)
        (fun e' he' => by rw [hmem] at he'; simpa using he')
        (fun e' he' => by rw [hmem] at he'; simpa using he')
        (fun e' hahead => ahead_lifecycle_submit rfl (by simp) (by simp) hahead)
        hextra (setEndpoint_field _ rfl) (setEndpoint_field Endpoint.allBuses rfl)
        (fun _ => Or.inl rfl) (fun _ => Or.inl)
    · constructor
      · intro e' s he' hs
        exact hmono e' (h.readied.endpoint_ready e' s ((hextra e').symm.trans he') hs)
      · intro e' s he' hready'
        rw [hmem]
        by_cases heq : e' = e
        · exact Or.inr (Or.inl (by rw [heq]))
        · have hready' : ((st.setEndpoint e { st.endpoints e with ready := true }).endpoints
              e').ready = true := hready'
          rw [setEndpoint_endpoints, if_neg heq] at hready'
          exact (h.readied.session_ready e' s ((hextra e').symm.trans he') hready').imp id Or.inr
      · intro e' s he' hmem'
        have he'' := (hextra e').symm.trans he'
        rcases (hmem _).mp hmem' with heq | hold
        · injection heq with heq
          subst heq
          refine ⟨Bool.eq_false_iff.mpr fun hs => ?_, ?_⟩
          · rw [h.readied.endpoint_ready e' s he'' hs] at hready
            cases hready
          · change ((st.setEndpoint e' _).endpoints e').ready = true
            rw [setEndpoint_endpoints, if_pos rfl]
        · obtain ⟨hs, hready'⟩ := h.readied.pending e' s he'' hold
          exact ⟨hs, hmono e' hready'⟩
    · exact h.received.congr (fun _ => rfl) (fun _ => rfl) (fun _ => Or.inl rfl)
        (fun _ => Or.inl) (setEndpoint_field _ rfl) hmono
        (fun e' s he' => (hextra e').symm.trans he') (fun _ => id)
    · rw [hmem]
      simpa using h.running.2

end Ready

end Stack

end Api

end PomeloUdp
