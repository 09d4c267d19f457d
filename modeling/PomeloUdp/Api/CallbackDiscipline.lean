import PomeloUdp.Api.Steps

/-!
# The discipline of the callbacks

For each session the application sees a beginning of one `connected`, any number
of `received` and one `disconnected`. Once it has been told that a session is
connected, the session keeps a connected peer, or the task that tells of its
disconnection waits and runs after those ahead of it. A client breaks this when
it handles a denial while its peer is connected: the peer goes, the session
stays, and nobody is told.
-/

namespace PomeloUdp

namespace Api

open Protocol

namespace Stack

/-- What the application can rely on. -/
structure Disciplined (st : Stack) : Prop where
  ordered : ∀ signature, ∃ n, st.callbacksOf signature <+: transcript n
  attached : ∀ s, (st.sessions s).signature ≠ 0 →
    .connected ∈ st.callbacksOf (st.sessions s).signature →
    (∃ p, (st.sessions s).peer = some p ∧ (st.peers p).state = .connected) ∨
      .sessionOnDisconnected s ∈ st.queue
  told : ∀ s, .sessionOnDisconnected s ∈ st.queue →
    .connected ∈ st.callbacksOf (st.sessions s).signature →
    ∀ calls : List (List ApiCall), (∀ cs ∈ calls, ∀ c ∈ cs, c.NotStop) →
    st.queue.idxOf (.sessionOnDisconnected s) < calls.length →
    ∃ k ≤ calls.length, .disconnected ∈
      (Machine.run step st ((calls.take k).map .run)).callbacksOf (st.sessions s).signature
  released : ∀ signature, (∀ s, (st.sessions s).signature ≠ 0 →
      (st.sessions s).signature ≠ signature) →
    .connected ∈ st.callbacksOf signature → .disconnected ∈ st.callbacksOf signature
  asserted : st.assertFailed = false

section Waiting

/-- The task that tells of the disconnection of session `s` does not fall behind,
and the session stays what it is. -/
structure Waits (s : SessionId) (st st' : Stack) : Prop where
  mem : .sessionOnDisconnected s ∈ st.queue → .sessionOnDisconnected s ∈ st'.queue
  order : .sessionOnDisconnected s ∈ st.queue →
    st'.queue.idxOf (.sessionOnDisconnected s) ≤ st.queue.idxOf (.sessionOnDisconnected s)
  signature : (st'.sessions s).signature = (st.sessions s).signature
  ready : (st.sessions s).ready = true → (st'.sessions s).ready = true

variable {st st' st'' : Stack} {s : SessionId} {calls : List ApiCall}

theorem Waits.trans (h : Waits s st st') (h' : Waits s st' st'') : Waits s st st'' where
  mem hmem := h'.mem (h.mem hmem)
  order hmem := (h'.order (h.mem hmem)).trans (h.order hmem)
  signature := h'.signature.trans h.signature
  ready hready := h'.ready (h.ready hready)

theorem Waits.of_queue (hqueue : st'.queue = st.queue)
    (hsignature : (st'.sessions s).signature = (st.sessions s).signature)
    (hready : (st.sessions s).ready = true → (st'.sessions s).ready = true) : Waits s st st' where
  mem hmem := by rwa [hqueue]
  order _ := Nat.le_of_eq (by rw [hqueue])
  signature := hsignature
  ready := hready

theorem Waits.refl (s : SessionId) (st : Stack) : Waits s st st := Waits.of_queue rfl rfl id

theorem Waits.of_still (h : Still st st') : Waits s st st' where
  mem hmem := by
    have hlifecycle : Task.sessionOnDisconnected s ∈ st'.lifecycle := by
      rw [h.lifecycle]
      exact List.mem_filter.mpr ⟨hmem, rfl⟩
    exact List.mem_of_mem_filter hlifecycle
  order hmem := h.order _ hmem rfl
  signature := by rw [h.sessions]
  ready hready := by rwa [h.sessions]

theorem Waits.submit (st : Stack) {task : Task} (hne : task ≠ .sessionOnDisconnected s) :
    Waits s st (st.submit task) where
  mem hmem := mem_submit.mpr (Or.inr hmem)
  order hmem := Sequencer.idxOf_submit_le hmem hne
  signature := rfl
  ready := id

theorem waits_endpointOnReady (st : Stack) (s : SessionId) (e : EndpointId)
    (hcalls : ∀ c ∈ calls, c.NotStop) : Waits s st (st.endpointOnReady e calls) := by
  unfold Stack.endpointOnReady
  split
  · exact Waits.refl s st
  next s' _ =>
    refine Waits.trans ?_ (Waits.of_still (quiet_inCallback _ hcalls).toStill)
    refine Waits.of_queue rfl ?_ fun hready => ?_
    · change ((st.setSession s' _).sessions s).signature = _
      rw [setSession_sessions]
      split
      next heq => rw [heq]
      next => rfl
    · change ((st.setSession s' _).sessions s).ready = true
      rw [setSession_sessions]
      split
      · rfl
      · exact hready

theorem waits_sessionOnDisconnectedDeferred {s' : SessionId} {tasks : List Task}
    (h : Coherent st (.sessionOnDisconnected s' :: tasks)) (hne : s ≠ s')
    (hcalls : ∀ c ∈ calls, c.NotStop) :
    Waits s st (st.sessionOnDisconnectedDeferred s' calls) := by
  obtain ⟨e, hendpoint, -, -⟩ := h.endpoint_of_leaving
  have hpeer := ((h.attached.leaving s').mp List.mem_cons_self).2
  rw [sessionOnDisconnectedDeferred_eq hcalls hendpoint hpeer]
  have hquiet := quiet_told (st.submit (.endpointStop e)) s' hcalls
  generalize (st.submit (.endpointStop e)).told s' calls = st' at hquiet ⊢
  have htold : Waits s st st' := by
    have hsubmit : Waits s st (st.submit (.endpointStop e)) := Waits.submit st (by simp)
    refine hsubmit.trans (Waits.trans ?_ (Waits.of_still hquiet.toStill))
    exact Waits.of_queue rfl rfl id
  have hother : ∀ session, ((st'.setEndpoint e { st'.endpoints e with extra := none }).setSession s'
      session).sessions s = st'.sessions s := by
    intro session
    rw [setSession_sessions, if_neg hne]
    rfl
  have hsession : Waits s st' ((st'.setEndpoint e { st'.endpoints e with extra := none }).setSession
      s' { st'.sessions s' with signature := 0, endpoint := none, channels := [] }) :=
    Waits.of_queue rfl (by rw [hother]) fun hready => by rwa [hother]
  have hsubmit : ∀ st : Stack, Waits s st (st.submit (.endpointDestroy e)) :=
    fun st => Waits.submit st (by simp)
  refine htold.trans (hsession.trans ((hsubmit _).trans ?_))
  exact Waits.of_queue rfl rfl id

theorem waits_disconnectPeer {tasks : List Task} (h : Coherent st tasks) {p : PeerId}
    (hs : .sessionOnDisconnected s ∈ tasks) : Waits s st (st.disconnectPeer p) := by
  unfold Stack.disconnectPeer
  split
  · exact Waits.refl s st
  · unfold Stack.protocolOnDisconnected
    have hextra : ((st.setPeerState p .disconnecting).peers p).extra = (st.peers p).extra := by
      unfold Stack.setPeerState
      rw [setPeer_peers, if_pos rfl]
    rw [hextra]
    split
    next => exact Waits.of_queue rfl rfl id
    next s' hs' =>
      have hpeer := h.attached.session_of_peer p s' hs'
      have hne : s ≠ s' := by
        intro heq
        have hnone := ((h.attached.leaving s).mp hs).2
        rw [heq, hpeer] at hnone
        cases hnone
      rw [sessionOnDisconnected_eq (st.setPeerState p .disconnecting) hpeer]
      refine Waits.trans ?_ (Waits.submit _ (by simpa using Ne.symm hne))
      refine Waits.of_queue rfl ?_ fun hready => ?_
      · rw [setSession_sessions, if_neg hne]
        rfl
      · rw [setSession_sessions, if_neg hne]
        exact hready

theorem Invariant.waits (h : Invariant st) {task : Task} {queue : List Task}
    (hqueue : st.queue = task :: queue) (hs : .sessionOnDisconnected s ∈ queue)
    (hne : task ≠ .sessionOnDisconnected s) (hcalls : ∀ c ∈ calls, c.NotStop) :
    Waits s { st with queue := queue } (({ st with queue := queue } : Stack).task calls task) := by
  have hmem : Task.sessionOnDisconnected s ∈ ({ st with queue := queue } : Stack).lifecycle :=
    List.mem_filter.mpr ⟨hs, rfl⟩
  have hreceive : ∀ b, task.receives = some b → False := by
    intro b hb
    obtain ⟨hsingle, -⟩ := h.alone task (by rw [hqueue]; exact List.mem_cons_self) b hb
    rw [hqueue] at hsingle
    injection hsingle with _ hnil
    rw [hnil] at hs
    cases hs
  cases task with
  | reception b _ | verifyChecksum b _ _ | receiverComplete b _ => exact (hreceive b rfl).elim
  | processSending b => exact Waits.of_still (still_processSendingDeferred _ b)
  | dispatcher d => exact Waits.of_still (quiet_dispatcherTask _ d hcalls).toStill
  | endpointStop e =>
      have hquiet := Quiet.foldl quiet_busStop { st with queue := queue }
        (st.endpoints e).allBuses
      refine (Waits.of_still hquiet.toStill).trans ?_
      exact Waits.of_queue rfl rfl id
  | endpointDestroy e =>
      change Waits s _ (Stack.endpointDestroyDeferred _ e)
      unfold Stack.endpointDestroyDeferred
      rw [foldl_releaseBus_eq]
      exact Waits.of_queue rfl rfl id
  | endpointReady e => exact waits_endpointOnReady _ s e hcalls
  | sessionDisconnect s' =>
      change Waits s _ (Stack.sessionDisconnectDeferred _ s')
      unfold Stack.sessionDisconnectDeferred
      dsimp only
      split
      · exact Waits.refl s _
      · split
        · exact Waits.refl s _
        · exact Waits.submit _ (by simp)
  | sessionOnDisconnected s' =>
      have hne' : s ≠ s' := fun heq => hne (by rw [heq])
      exact waits_sessionOnDisconnectedDeferred (h.popped hqueue rfl) hne' hcalls
  | peerDisconnect p =>
      have hcoherent : Coherent { st with queue := queue }
          ({ st with queue := queue } : Stack).lifecycle := by
        have htasks : st.lifecycle = ({ st with queue := queue } : Stack).lifecycle := by
          simp [Stack.lifecycle, hqueue, Task.lifecycle]
        rw [← htasks]
        exact h.coherent.congr rfl rfl rfl rfl rfl rfl rfl (fun _ => id) h.coherent.dying.nodup
          (fun _ _ => Iff.rfl) fun _ => id
      exact waits_disconnectPeer hcoherent hmem
  | socketStop => exact absurd List.mem_cons_self ((h.popped hqueue rfl).running.2)
  | protocolStop =>
      change Waits s _ (Stack.protocolStopDeferred _)
      unfold Stack.protocolStopDeferred
      dsimp only
      split <;> exact Waits.of_queue rfl rfl id

theorem told_sessionOnDisconnectedDeferred {tasks : List Task}
    (h : Coherent st (.sessionOnDisconnected s :: tasks)) (hready : (st.sessions s).ready = true)
    (hcalls : ∀ c ∈ calls, c.NotStop) :
    .disconnected ∈
      (st.sessionOnDisconnectedDeferred s calls).callbacksOf (st.sessions s).signature := by
  obtain ⟨e, hendpoint, -, -⟩ := h.endpoint_of_leaving
  have hpeer := ((h.attached.leaving s).mp List.mem_cons_self).2
  rw [sessionOnDisconnectedDeferred_eq hcalls hendpoint hpeer]
  have hcallbacks : ((st.submit (.endpointStop e)).told s calls).callbacks =
      (st.callback s .disconnected).callbacks := by
    unfold Stack.told
    rw [if_pos (show ((st.submit (.endpointStop e)).sessions s).ready = true from hready)]
    exact (quiet_inCallback _ hcalls).callbacks
  have hcalled : ((st.submit (.endpointStop e)).told s calls).callbacksOf
      (st.sessions s).signature = (st.callback s .disconnected).callbacksOf
        (st.sessions s).signature := callbacksOf_congr hcallbacks _
  change .disconnected ∈ ((st.submit (.endpointStop e)).told s calls).callbacksOf
    (st.sessions s).signature
  rw [hcalled, callbacksOf_callback, if_pos rfl]
  simp

theorem Invariant.told (h : Invariant st) (hs : .sessionOnDisconnected s ∈ st.queue)
    (hready : (st.sessions s).ready = true) (calls : List (List ApiCall))
    (hcalls : ∀ cs ∈ calls, ∀ c ∈ cs, c.NotStop)
    (hlength : st.queue.idxOf (.sessionOnDisconnected s) < calls.length) :
    ∃ k ≤ calls.length, .disconnected ∈
      (Machine.run step st ((calls.take k).map .run)).callbacksOf (st.sessions s).signature := by
  induction calls generalizing st with
  | nil => cases hlength
  | cons cs calls ih =>
      have hcs := hcalls cs List.mem_cons_self
      cases hqueue : st.queue with
      | nil =>
          rw [hqueue] at hs
          cases hs
      | cons task queue =>
          have hstep : st.step (.run cs) = ({ st with queue := queue } : Stack).task cs task := by
            unfold Stack.step
            rw [hqueue]
          by_cases hhead : task = .sessionOnDisconnected s
          · subst hhead
            refine ⟨1, Nat.le_add_left 1 _, ?_⟩
            rw [List.take_succ_cons, List.take_zero, List.map_singleton, Machine.run_cons,
              Machine.run_nil, hstep]
            exact told_sessionOnDisconnectedDeferred (h.popped hqueue rfl) hready hcs
          · rw [hqueue] at hs hlength
            have htail := (List.mem_cons.mp hs).resolve_left (Ne.symm hhead)
            have hwaits := h.waits hqueue htail hhead hcs
            rw [← hstep] at hwaits
            rw [List.idxOf_cons_ne _ hhead, List.length_cons] at hlength
            have hlength' := (hwaits.order htail).trans_lt (Nat.lt_of_succ_lt_succ hlength)
            obtain ⟨k, hk, htold⟩ := ih
              (invariant_step h (show Label.NotStop (.run cs) from hcs) trivial) (hwaits.mem htail)
              (hwaits.ready hready) (fun cs' hcs' => hcalls cs' (List.mem_cons_of_mem _ hcs'))
              hlength'
            refine ⟨k + 1, Nat.succ_le_succ hk, ?_⟩
            rw [List.take_succ_cons, List.map_cons, Machine.run_cons]
            rwa [hwaits.signature] at htold

end Waiting

section Discipline

variable {st : Stack} {s : SessionId}

theorem opening_prefix (n : ℕ) : opening n <+: transcript n := ⟨[.disconnected], rfl⟩

theorem Logged.ready_of_connected (h : Logged st) (hlive : (st.sessions s).signature ≠ 0)
    (hconnected : .connected ∈ st.callbacksOf (st.sessions s).signature) :
    (st.sessions s).ready = true := by
  by_contra hready
  rw [h.silent s hlive (by simpa using hready)] at hconnected
  cases hconnected

theorem Invariant.disciplined (h : Invariant st) : Disciplined st where
  ordered signature := by
    by_cases hlive : ∀ s, (st.sessions s).signature ≠ 0 → (st.sessions s).signature ≠ signature
    · rcases h.logged.closed signature hlive with hnil | ⟨n, hn⟩
      · exact ⟨0, by rw [hnil]; exact List.nil_prefix⟩
      · exact ⟨n, hn ▸ List.prefix_refl _⟩
    · push Not at hlive
      obtain ⟨s, hs, rfl⟩ := hlive
      cases hready : (st.sessions s).ready with
      | false =>
          rw [h.logged.silent s hs hready]
          exact ⟨0, List.nil_prefix⟩
      | true =>
          obtain ⟨n, hn⟩ := h.logged.opened s hs hready
          exact ⟨n, by rw [hn]; exact opening_prefix n⟩
  attached s hs _ := by
    cases hpeer : (st.sessions s).peer with
    | none =>
        have hmem := (h.coherent.attached.leaving s).mpr ⟨hs, hpeer⟩
        exact Or.inr (List.mem_of_mem_filter hmem)
    | some p => exact Or.inl ⟨p, rfl, (h.coherent.attached.peer_of_session s p hpeer).2.2.1⟩
  told s hs hconnected calls hcalls hlength := by
    have hlive := ((h.coherent.attached.leaving s).mp (List.mem_filter.mpr ⟨hs, rfl⟩)).1
    exact h.told hs (h.logged.ready_of_connected hlive hconnected) calls hcalls hlength
  released signature hnone hconnected := by
    rcases h.logged.closed signature hnone with hnil | ⟨n, hn⟩
    · rw [hnil] at hconnected
      cases hconnected
    · rw [hn]
      simp [transcript]
  asserted := h.logged.asserted

/-- In every run whose steps all keep the peer, the application sees the
discipline. -/
theorem disciplined_run (hstarted : Started st) {labels : List Label}
    (hstop : ∀ label ∈ labels, label.NotStop)
    (hkeeps : Machine.Along step KeepsPeer st labels) :
    Disciplined (Machine.run step st labels) := by
  have hboth : Machine.Along step (fun st label => label.NotStop ∧ st.KeepsPeer label) st
      labels := by
    clear hstarted
    induction labels generalizing st with
    | nil => trivial
    | cons label labels ih =>
        exact ⟨⟨hstop label List.mem_cons_self, hkeeps.1⟩,
          ih (fun l hl => hstop l (List.mem_cons_of_mem _ hl)) hkeeps.2⟩
  have hstep : ∀ (st : Stack) (label : Label), Invariant st →
      label.NotStop ∧ st.KeepsPeer label → Invariant (st.step label) :=
    fun st label h hadmitted => invariant_step h hadmitted.1 hadmitted.2
  exact (Machine.invariant_run hstep hstarted.invariant hboth).disciplined

end Discipline

section Denied

/-- A client is challenged, connected and made ready by a ping; a denial that it
accepted before the keep alive is decrypted last. -/
def deniedLate : List Label :=
  [.event (.accept 0 .challenge), .event (.received 0 { valid := true }),
    .event (.accept 0 .keepAlive), .event (.accept 0 .denied),
    .event (.received 0 { valid := true, slots := some ⟨0, 0, [1], 0⟩ }),
    .event (.accept 0 .payload),
    .event (.received 1
      { valid := true, fragment := .data false (some (.ping, false)) })] ++
    List.replicate 10 (.run []) ++ [.event (.received 0 { valid := true }), .run []]

/-- The same run, without the denial, to the disconnection by the server. -/
def disconnectedLate : List Label :=
  [.event (.accept 0 .challenge), .event (.received 0 { valid := true }),
    .event (.accept 0 .keepAlive),
    .event (.received 0 { valid := true, slots := some ⟨0, 0, [1], 0⟩ }),
    .event (.accept 0 .payload),
    .event (.received 0
      { valid := true, fragment := .data false (some (.ping, false)) })] ++
    List.replicate 10 (.run []) ++
    [.event (.accept 0 .disconnect), .event (.received 0 { valid := true }), .run []]

theorem disciplined_disconnectedLate :
    Disciplined (Machine.run step (connect 0) disconnectedLate) :=
  disciplined_run (Or.inr ⟨0, rfl⟩) (by decide +kernel) (by decide +kernel)

/-- Not every run without a stop has the discipline: this one has not. -/
theorem not_disciplined_deniedLate :
    ¬ ∀ st labels, Started st → (∀ label ∈ labels, label.NotStop) →
      Disciplined (Machine.run step st labels) := by
  intro hall
  have h := hall (connect 0) deniedLate (Or.inr ⟨0, rfl⟩) (by decide +kernel)
  have hsession : ((Machine.run step (connect 0) deniedLate).sessions 0).signature = 1 ∧
      ((Machine.run step (connect 0) deniedLate).sessions 0).peer = some 0 ∧
      ((Machine.run step (connect 0) deniedLate).peers 0).state ≠ .connected ∧
      .connected ∈ (Machine.run step (connect 0) deniedLate).callbacksOf 1 ∧
      (Machine.run step (connect 0) deniedLate).queue = [] := by
    decide +kernel
  obtain ⟨hsignature, hpeer, hstate, hconnected, hqueue⟩ := hsession
  rcases h.attached 0 (by rw [hsignature]; decide) (by rw [hsignature]; exact hconnected) with
    ⟨p, hp, hp'⟩ | hmem
  · rw [hpeer] at hp
    rw [← Option.some.inj hp] at hp'
    exact hstate hp'
  · rw [hqueue] at hmem
    cases hmem

end Denied

end Stack

end Api

end PomeloUdp
