import PomeloUdp.Api.Callbacks

/-!
# What holds between the tasks of a socket

`Sound` puts together the objects, the log of the callbacks and the flags of the
buses, for a state in which no task waits to receive. `Invariant` also allows
one such task, which then waits alone and whose bus may receive. Both are for a
socket that the application does not stop.
-/

namespace PomeloUdp

namespace Api

open Protocol

namespace Stack

/-- The objects hang together, the callbacks are in order, the buses are settled
and nothing waits to be received. -/
structure Sound (st : Stack) (tasks : List Task) : Prop where
  coherent : Coherent st tasks
  logged : Logged st
  settled : ∀ b, st.Settled b
  silent : ∀ t ∈ st.queue, t.receives = none

/-- What holds between two tasks. -/
structure Invariant (st : Stack) : Prop where
  coherent : Coherent st st.lifecycle
  logged : Logged st
  settled : ∀ b, st.Settled b
  alone : ∀ t ∈ st.queue, ∀ b, t.receives = some b →
    st.queue = [t] ∧ (st.buses b).acquired = true ∧ st.Receivable b

variable {st st' : Stack} {tasks : List Task} {p : PeerId} {e : EndpointId} {b : BusId}

theorem Sound.invariant (h : Sound st st.lifecycle) : Invariant st where
  coherent := h.coherent
  logged := h.logged
  settled := h.settled
  alone t ht b hb := by
    rw [h.silent t ht] at hb
    cases hb

theorem Sound.of_calm (h : Sound st tasks) {tasks' : List Task}
    (hcoherent : Coherent st' tasks') (hlogged : Logged st') (hcalm : Calm st st') :
    Sound st' tasks' where
  coherent := hcoherent
  logged := hlogged
  settled b := hcalm.settled b (h.settled b)
  silent t ht := (hcalm.submitted t ht).elim id (h.silent t)

theorem Sound.quiet (h : Sound st st.lifecycle) (hquiet : Quiet st st') :
    Sound st' st'.lifecycle := by
  refine h.of_calm ?_ (h.logged.quiet hquiet.toStill) hquiet.toCalm
  rw [hquiet.lifecycle]
  exact h.coherent.quiet hquiet.toStill

theorem Calm.of_flags (hqueue : st'.queue = st.queue)
    (hstop : ∀ b, (st'.buses b).stop = (st.buses b).stop)
    (hprocessing : ∀ b, (st'.buses b).processing = (st.buses b).processing) : Calm st st' where
  settled b hb := ⟨by rw [hstop, hprocessing]; exact hb.stop,
    by rw [hprocessing, hqueue]; exact hb.processing⟩
  submitted _ ht := Or.inr (hqueue ▸ ht)

section Receiving

theorem Sound.submit_receives (h : Sound st st.lifecycle) (hqueue : st.queue = []) {task : Task}
    (ht : task.receives = some b) (hacquired : (st.buses b).acquired = true)
    (hreceivable : st.Receivable b) : Invariant (st.submit task) where
  coherent := h.coherent.submit_receives ht
  logged := h.logged.congr (fun _ => rfl) (fun _ => rfl) rfl rfl rfl
  settled b' := (h.settled b').submit task
  alone t hmem b' hb' := by
    have hsingle : (st.submit task).queue = [task] := by
      simp [Stack.submit, Sequencer.submit, hqueue]
    rw [hsingle, List.mem_singleton] at hmem
    rw [hmem, ht] at hb'
    rw [hsingle, hmem, ← Option.some.inj hb']
    exact ⟨rfl, hacquired, hreceivable⟩

theorem Settled.idle (h : st.Settled b) (hqueue : st.queue = []) :
    (st.buses b).processing = false ∧ (st.buses b).stop = false := by
  have hprocessing : (st.buses b).processing = false := by
    refine Bool.eq_false_iff.mpr fun hp => ?_
    have := h.processing hp
    rw [hqueue] at this
    cases this
  refine ⟨hprocessing, Bool.eq_false_iff.mpr fun hs => ?_⟩
  rw [h.stop hs] at hprocessing
  cases hprocessing

theorem Sound.receivable (h : Sound st tasks) (hqueue : st.queue = [])
    (hb : (st.buses b).verifying ≠ []) : (st.buses b).acquired = true ∧ st.Receivable b := by
  refine (h.coherent.received b hb).resolve_right ?_
  rw [((h.settled b).idle hqueue).2]
  simp

theorem sound_setVerifying (h : Sound st []) (verifying : List Parcel)
    (hb : verifying ≠ [] → (st.buses b).acquired = true ∧ st.Receivable b ∨
      (st.buses b).stop = true) :
    Sound (st.setBus b { st.buses b with verifying := verifying }) [] := by
  have hacquired : ∀ b', ((st.setBus b { st.buses b with verifying := verifying }).buses
      b').acquired = (st.buses b').acquired := setBus_field _ rfl
  have hendpoint : ∀ b', ((st.setBus b { st.buses b with verifying := verifying }).buses
      b').endpoint = (st.buses b').endpoint := setBus_field _ rfl
  have hstop : ∀ b', ((st.setBus b { st.buses b with verifying := verifying }).buses
      b').stop = (st.buses b').stop := setBus_field _ rfl
  refine h.of_calm ?_ (h.logged.congr (fun _ => rfl) (fun _ => rfl) rfl rfl rfl)
    (Calm.of_flags rfl hstop (setBus_field _ rfl))
  refine ⟨?_, ?_, ?_, ?_, ?_, h.coherent.running⟩
  · exact h.coherent.linked.congr (fun _ => rfl) (fun _ => rfl) (fun _ => rfl) (fun _ => rfl)
      (fun _ => rfl) hacquired hendpoint
  · exact h.coherent.attached.congr (fun _ => rfl) (fun _ => rfl) rfl rfl rfl (fun _ => id)
      (fun _ => Iff.rfl) id
  · exact ⟨List.nodup_nil, fun e hmem => absurd hmem List.not_mem_nil,
      fun e hmem => absurd hmem List.not_mem_nil, fun e hmem => absurd hmem List.not_mem_nil⟩
  · exact h.coherent.readied.congr (fun _ => Iff.rfl) (fun _ _ => id) (fun _ => rfl) (fun _ => rfl)
  · intro b' hb'
    have hreceivable : ∀ b'', st.Receivable b'' →
        (st.setBus b { st.buses b with verifying := verifying }).Receivable b'' := fun b'' hr =>
      hr.congr (hendpoint b'') (fun _ => rfl) (fun _ => id) (fun _ _ => id) (fun _ => id)
    rw [hacquired, hstop]
    rw [setBus_buses] at hb'
    split at hb'
    next heq =>
      rw [heq]
      exact (hb hb').imp (fun ⟨hacq, hr⟩ => ⟨hacq, hreceivable b hr⟩) id
    next =>
      exact (h.coherent.received b' hb').imp (fun ⟨hacq, hr⟩ => ⟨hacq, hreceivable b' hr⟩) id

theorem lifecycle_nil (hqueue : st.queue = []) : st.lifecycle = [] := by
  rw [Stack.lifecycle, hqueue]
  rfl

theorem invariant_receptionExecute (h : Sound st st.lifecycle) (hqueue : st.queue = [])
    (hacquired : (st.buses b).acquired = true) (hreceivable : st.Receivable b)
    (fragment : Fragment) : Invariant (st.receptionExecute b fragment) := by
  cases fragment with
  | ack last =>
      unfold Stack.receptionExecute
      dsimp only
      split
      · exact h.invariant
      · split
        · exact (h.quiet (quiet_dispatcherFinish st _)).invariant
        · exact h.invariant
  | data reply parcel =>
      unfold Stack.receptionExecute
      dsimp only
      have hsend : Quiet st
          (if reply then (st.endpointSend (st.buses b).endpoint 0).1 else st) := by
        split
        · exact quiet_endpointSend st _ 0
        · exact Quiet.refl st
      have hqueue' : (if reply then (st.endpointSend (st.buses b).endpoint 0).1 else st).queue =
          [] := by
        split
        · unfold Stack.endpointSend
          split <;> exact hqueue
        · exact hqueue
      generalize (if reply then (st.endpointSend (st.buses b).endpoint 0).1 else st) = st' at *
      cases parcel with
      | none => exact (h.quiet hsend).invariant
      | some parcel =>
          refine (h.quiet hsend).submit_receives hqueue' (b := b) rfl
            ((hsend.acquired b).trans hacquired) ?_
          exact hreceivable.congr (hsend.endpoint b) (fun e => by rw [hsend.endpoints])
            (fun e he => by rwa [hsend.endpoints]) (fun e s he => by rwa [hsend.endpoints] at he)
            (fun s hs => by rwa [hsend.sessions])

theorem invariant_verifyChecksum (h : Sound st st.lifecycle) (hqueue : st.queue = [])
    (hacquired : (st.buses b).acquired = true) (hreceivable : st.Receivable b) (parcel : Parcel)
    (fragments : Bool) : Invariant (st.verifyChecksum b parcel fragments) := by
  unfold Stack.verifyChecksum
  split
  · rw [lifecycle_nil hqueue] at h
    refine Sound.invariant ?_
    rw [show Stack.lifecycle (st.setBus b _) = [] from lifecycle_nil hqueue]
    exact sound_setVerifying h _ fun _ => Or.inl ⟨hacquired, hreceivable⟩
  · exact h.submit_receives hqueue rfl hacquired hreceivable

theorem sound_checkReady (h : Sound st st.lifecycle) :
    Sound (st.checkReady e) (st.checkReady e).lifecycle := by
  have hcoherent := coherent_checkReady (e := e) h.coherent
  unfold Stack.checkReady at hcoherent ⊢
  split at hcoherent
  next hready =>
    rw [if_pos hready]
    exact h
  next hready =>
    rw [if_neg hready]
    refine h.of_calm hcoherent (h.logged.congr (fun _ => rfl) (fun _ => rfl) rfl rfl rfl) ?_
    refine Calm.trans ?_ (calm_submit (st.setEndpoint e { st.endpoints e with ready := true }) rfl)
    exact Calm.of_queue rfl rfl

theorem sound_recvSystemParcel (h : Sound st st.lifecycle) (parcel : Parcel) :
    Sound (st.recvSystemParcel e parcel) (st.recvSystemParcel e parcel).lifecycle := by
  cases parcel with
  | ping => exact sound_checkReady (h.quiet (quiet_sendSystem st e))
  | pong => exact sound_checkReady h
  | other => exact h

theorem sound_busOnReceived {calls : List ApiCall} (h : Sound st st.lifecycle)
    (hreceivable : st.Receivable b)
    (huser : (st.endpoints (st.buses b).endpoint).systemBus ≠ some b)
    (hcalls : ∀ c ∈ calls, c.NotStop) :
    Sound (st.busOnReceived b calls) (st.busOnReceived b calls).lifecycle := by
  unfold Stack.busOnReceived
  split
  next => exact h
  next s hextra =>
    obtain ⟨-, hready⟩ := hreceivable.resolve_left huser
    have hready := hready s hextra
    obtain ⟨hlive, -⟩ := h.coherent.linked.session_of_endpoint _ s hextra
    dsimp only
    refine Sound.quiet ?_ (quiet_inCallback _ hcalls)
    refine h.of_calm ?_ ?_ (Calm.of_queue rfl rfl)
    · exact h.coherent.congr rfl rfl rfl rfl rfl rfl rfl (fun _ => id) h.coherent.dying.nodup
        (fun _ _ => Iff.rfl) fun _ => id
    · refine (h.logged.received hlive hready).congr (fun _ => rfl) (fun _ => rfl) rfl rfl ?_
      change (st.assertFailed || !(st.sessions s).ready) = _
      rw [hready]
      simp [Stack.callback]

theorem sound_receiverComplete {calls : List ApiCall} (h : Sound st st.lifecycle)
    (hreceivable : st.Receivable b) (parcel : Parcel) (hcalls : ∀ c ∈ calls, c.NotStop) :
    Sound (st.receiverComplete b parcel calls) (st.receiverComplete b parcel calls).lifecycle := by
  unfold Stack.receiverComplete
  dsimp only
  split
  next => exact sound_recvSystemParcel h parcel
  next huser => exact sound_busOnReceived h hreceivable huser hcalls

theorem invariant_checksumVerified (h : Sound st st.lifecycle) (hqueue : st.queue = [])
    (index : ℕ) (valid : Bool) : Invariant (st.checksumVerified b index valid) := by
  unfold Stack.checksumVerified
  split
  next => exact h.invariant
  next parcel hparcel =>
    have hwaiting : (st.buses b).verifying ≠ [] := by
      intro hnil
      rw [hnil] at hparcel
      cases hparcel
    obtain ⟨hacquired, hreceivable⟩ := h.receivable hqueue hwaiting
    have hbus : ∀ b', ((st.setBus b { st.buses b with
        verifying := (st.buses b).verifying.eraseIdx index }).buses b').acquired =
          (st.buses b').acquired := setBus_field _ rfl
    have hendpoint : ∀ b', ((st.setBus b { st.buses b with
        verifying := (st.buses b).verifying.eraseIdx index }).buses b').endpoint =
          (st.buses b').endpoint := setBus_field _ rfl
    have hnil : Stack.lifecycle (st.setBus b
        { st.buses b with verifying := (st.buses b).verifying.eraseIdx index }) = [] :=
      lifecycle_nil hqueue
    rw [lifecycle_nil hqueue] at h
    have hsound := sound_setVerifying h ((st.buses b).verifying.eraseIdx index)
      fun _ => Or.inl ⟨hacquired, hreceivable⟩
    rw [← hnil] at hsound
    dsimp only
    split
    · refine hsound.submit_receives hqueue (b := b) rfl ((hbus b).trans hacquired) ?_
      exact hreceivable.congr (hendpoint b) (fun _ => rfl) (fun _ => id) (fun _ _ => id)
        (fun _ => id)
    · exact hsound.invariant

theorem invariant_protocolOnReceived (h : Sound st st.lifecycle) (hqueue : st.queue = [])
    (busId : ℕ) (fragment : Fragment) : Invariant (st.protocolOnReceived p busId fragment) := by
  unfold Stack.protocolOnReceived
  split
  next => exact h.invariant
  next s hs =>
    split
    next => exact h.invariant
    next e he =>
      have hpeer := h.coherent.attached.session_of_peer p s hs
      obtain ⟨hlive, -⟩ := h.coherent.attached.peer_of_session s p hpeer
      obtain ⟨e', he', hextra⟩ := h.coherent.linked.endpoint_of_session s hlive
      obtain rfl : e = e' := Option.some.inj (he.symm.trans he')
      have hacquired := (h.coherent.linked.session_of_endpoint e s hextra).2.2
      unfold Stack.endpointRecv
      dsimp only
      split
      next => exact h.invariant
      next b hb =>
        have hmem : b ∈ (st.endpoints e).allBuses := by
          unfold Endpoint.allBuses
          split at hb
          · simp [hb]
          · split at hb
            · exact List.mem_append_left _ (List.mem_of_getElem? hb)
            · cases hb
        obtain ⟨hbus, hendpoint⟩ := h.coherent.linked.bus_of_endpoint e b hacquired hmem
        refine h.submit_receives hqueue (b := b) rfl hbus ?_
        unfold Receivable
        rw [hendpoint]
        split at hb
        · exact Or.inl hb
        · split at hb
          next hready =>
            refine Or.inr ⟨hready, fun s' hs' => ?_⟩
            refine (h.coherent.readied.session_ready e s' hs' hready).resolve_right ?_
            rw [lifecycle_nil hqueue]
            exact List.not_mem_nil
          next => cases hb

end Receiving

end Stack

end Api

end PomeloUdp
