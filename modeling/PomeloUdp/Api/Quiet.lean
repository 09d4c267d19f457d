import PomeloUdp.Api.Socket

/-!
# What sending leaves alone

Sending moves tasks of buses and dispatchers through the queue, and calls of the
application submit disconnections. None of that touches a session, an endpoint
or a peer, and none of it reorders the tasks of their life. `Quiet` is this
frame; it holds of every function of the sending side, and of the calls of the
application as long as they do not stop the socket.
-/

namespace PomeloUdp

namespace Api

open Protocol

/-- The bus of a task that receives a fragment or a parcel. -/
def Task.receives : Task → Option BusId
  | .reception b _ | .verifyChecksum b _ _ | .receiverComplete b _ => some b
  | _ => none

/-- The tasks by which sessions, endpoints and received parcels live and die. -/
def Task.lifecycle : Task → Bool
  | .processSending _ | .dispatcher _ | .sessionDisconnect _ | .peerDisconnect _ => false
  | _ => true

/-- The call does not stop the socket. -/
def ApiCall.NotStop (call : ApiCall) : Prop := call ≠ .stop

instance (call : ApiCall) : Decidable call.NotStop := inferInstanceAs (Decidable (_ ≠ _))

namespace Stack

/-- The waiting tasks of the lives of sessions and endpoints. -/
def lifecycle (st : Stack) : List Task := st.queue.filter Task.lifecycle

/-- A bus that stops is processing, and one that is processing has its task. -/
structure Settled (st : Stack) (b : BusId) : Prop where
  stop : (st.buses b).stop = true → (st.buses b).processing = true
  processing : (st.buses b).processing = true → Task.processSending b ∈ st.queue

/-- What a change of the sending side leaves alone. A bus may lose the parcels
that wait for their checksum, and is still stopping if it was and has not lost
them. No task of the lifecycle falls behind. -/
structure Still (st st' : Stack) : Prop where
  mode : st'.mode = st.mode
  socketState : st'.socketState = st.socketState
  protocolState : st'.protocolState = st.protocolState
  sessions : st'.sessions = st.sessions
  endpoints : st'.endpoints = st.endpoints
  peers : st'.peers = st.peers
  sessionList : st'.sessionList = st.sessionList
  signatureGenerator : st'.signatureGenerator = st.signatureGenerator
  incoming : st'.incoming = st.incoming
  callbacks : st'.callbacks = st.callbacks
  assertFailed : st'.assertFailed = st.assertFailed
  lifecycle : st'.lifecycle = st.lifecycle
  order : ∀ t ∈ st.queue, t.lifecycle = true → st'.queue.idxOf t ≤ st.queue.idxOf t
  acquired : ∀ b, (st'.buses b).acquired = (st.buses b).acquired
  endpoint : ∀ b, (st'.buses b).endpoint = (st.buses b).endpoint
  verifying : ∀ b, (st'.buses b).verifying = (st.buses b).verifying ∨ (st'.buses b).verifying = []
  stop : ∀ b, (st.buses b).stop = true →
    (st'.buses b).stop = true ∨ (st'.buses b).verifying = []

/-- A change that settles its buses and submits nothing to be received. -/
structure Calm (st st' : Stack) : Prop where
  settled : ∀ b, st.Settled b → st'.Settled b
  submitted : ∀ t ∈ st'.queue, t.receives = none ∨ t ∈ st.queue

/-- A change of the sending side only. -/
structure Quiet (st st' : Stack) : Prop extends Still st st', Calm st st'

theorem Still.of_buses {st st' : Stack} (mode : st'.mode = st.mode)
    (socketState : st'.socketState = st.socketState)
    (protocolState : st'.protocolState = st.protocolState)
    (sessions : st'.sessions = st.sessions) (endpoints : st'.endpoints = st.endpoints)
    (peers : st'.peers = st.peers) (sessionList : st'.sessionList = st.sessionList)
    (signatureGenerator : st'.signatureGenerator = st.signatureGenerator)
    (incoming : st'.incoming = st.incoming) (callbacks : st'.callbacks = st.callbacks)
    (assertFailed : st'.assertFailed = st.assertFailed)
    (lifecycle : st'.lifecycle = st.lifecycle)
    (order : ∀ t ∈ st.queue, t.lifecycle = true → st'.queue.idxOf t ≤ st.queue.idxOf t)
    (buses : st'.buses = st.buses) : Still st st' where
  mode := mode
  socketState := socketState
  protocolState := protocolState
  sessions := sessions
  endpoints := endpoints
  peers := peers
  sessionList := sessionList
  signatureGenerator := signatureGenerator
  incoming := incoming
  callbacks := callbacks
  assertFailed := assertFailed
  lifecycle := lifecycle
  order := order
  acquired b := by rw [buses]
  endpoint b := by rw [buses]
  verifying b := Or.inl (by rw [buses])
  stop b hstop := Or.inl (by rw [buses]; exact hstop)

theorem Still.trans {st₁ st₂ st₃ : Stack} (h : Still st₁ st₂) (h' : Still st₂ st₃) :
    Still st₁ st₃ where
  mode := h'.mode.trans h.mode
  socketState := h'.socketState.trans h.socketState
  protocolState := h'.protocolState.trans h.protocolState
  sessions := h'.sessions.trans h.sessions
  endpoints := h'.endpoints.trans h.endpoints
  peers := h'.peers.trans h.peers
  sessionList := h'.sessionList.trans h.sessionList
  signatureGenerator := h'.signatureGenerator.trans h.signatureGenerator
  incoming := h'.incoming.trans h.incoming
  callbacks := h'.callbacks.trans h.callbacks
  assertFailed := h'.assertFailed.trans h.assertFailed
  lifecycle := h'.lifecycle.trans h.lifecycle
  order t ht hlifecycle := by
    have hmem : t ∈ st₂.lifecycle := by
      rw [h.lifecycle]
      exact List.mem_filter.mpr ⟨ht, hlifecycle⟩
    exact (h'.order t (List.mem_of_mem_filter hmem) hlifecycle).trans (h.order t ht hlifecycle)
  acquired b := (h'.acquired b).trans (h.acquired b)
  endpoint b := (h'.endpoint b).trans (h.endpoint b)
  verifying b := by
    rcases h'.verifying b with hkept | hlost
    · rw [hkept]
      exact h.verifying b
    · exact Or.inr hlost
  stop b hstop := by
    rcases h.stop b hstop with hstop' | hlost
    · exact h'.stop b hstop'
    · rcases h'.verifying b with hkept | hlost'
      · exact Or.inr (hkept.trans hlost)
      · exact Or.inr hlost'

theorem Calm.trans {st₁ st₂ st₃ : Stack} (h : Calm st₁ st₂) (h' : Calm st₂ st₃) :
    Calm st₁ st₃ where
  settled b hb := h'.settled b (h.settled b hb)
  submitted t ht := by
    rcases h'.submitted t ht with hnone | hmem
    · exact Or.inl hnone
    · exact h.submitted t hmem

theorem Calm.of_queue {st st' : Stack} (queue : st'.queue = st.queue)
    (buses : st'.buses = st.buses) : Calm st st' where
  settled b hb := ⟨by rw [buses]; exact hb.stop, by rw [buses, queue]; exact hb.processing⟩
  submitted t ht := Or.inr (queue ▸ ht)

theorem Calm.refl (st : Stack) : Calm st st := Calm.of_queue rfl rfl

theorem Quiet.trans {st₁ st₂ st₃ : Stack} (h : Quiet st₁ st₂) (h' : Quiet st₂ st₃) :
    Quiet st₁ st₃ where
  toStill := h.toStill.trans h'.toStill
  toCalm := h.toCalm.trans h'.toCalm

theorem Quiet.of_queue {st st' : Stack} (mode : st'.mode = st.mode)
    (socketState : st'.socketState = st.socketState)
    (protocolState : st'.protocolState = st.protocolState)
    (sessions : st'.sessions = st.sessions) (endpoints : st'.endpoints = st.endpoints)
    (peers : st'.peers = st.peers) (sessionList : st'.sessionList = st.sessionList)
    (signatureGenerator : st'.signatureGenerator = st.signatureGenerator)
    (incoming : st'.incoming = st.incoming) (callbacks : st'.callbacks = st.callbacks)
    (assertFailed : st'.assertFailed = st.assertFailed)
    (queue : st'.queue = st.queue) (buses : st'.buses = st.buses) : Quiet st st' where
  toStill := Still.of_buses mode socketState protocolState sessions endpoints peers sessionList
    signatureGenerator incoming callbacks assertFailed
    (by rw [Stack.lifecycle, queue, Stack.lifecycle])
    (fun t _ _ => Nat.le_of_eq (by rw [queue])) buses
  toCalm := Calm.of_queue queue buses

theorem Quiet.refl (st : Stack) : Quiet st st := by
  apply Quiet.of_queue <;> rfl

theorem Quiet.foldl {α : Type*} {f : Stack → α → Stack} (hf : ∀ st a, Quiet st (f st a))
    (st : Stack) (as : List α) : Quiet st (as.foldl f st) := by
  induction as generalizing st with
  | nil => exact Quiet.refl st
  | cons a as ih => exact (hf st a).trans (ih (f st a))

theorem mem_submit {st : Stack} {task t : Task} :
    t ∈ (st.submit task).queue ↔ t = task ∨ t ∈ st.queue :=
  Sequencer.mem_submit

theorem lifecycle_submit_of_not (st : Stack) {task : Task} (h : task.lifecycle = false) :
    (st.submit task).lifecycle = st.lifecycle := by
  by_cases hmem : task ∈ st.queue
  · obtain ⟨before, after, -, hqueue, herase⟩ := List.exists_erase_eq hmem
    simp [Stack.lifecycle, Stack.submit, Sequencer.submit, herase, h]
    simp [hqueue, h]
  · simp [Stack.lifecycle, Stack.submit, Sequencer.submit_of_notMem hmem, h]

theorem lifecycle_submit {st : Stack} {task : Task} (h : task.lifecycle = true) :
    (st.submit task).lifecycle = Sequencer.submit st.lifecycle task := by
  simp [Stack.lifecycle, Stack.submit, Sequencer.submit, h, List.erase_filter]

theorem Settled.submit {st : Stack} {b : BusId} (h : st.Settled b) (task : Task) :
    (st.submit task).Settled b :=
  ⟨h.stop, fun hb => mem_submit.mpr (Or.inr (h.processing hb))⟩

theorem still_submit {st : Stack} {task : Task} (h : task.lifecycle = false) :
    Still st (st.submit task) := by
  have hlifecycle := lifecycle_submit_of_not st h
  have horder : ∀ t ∈ st.queue, t.lifecycle = true →
      (st.submit task).queue.idxOf t ≤ st.queue.idxOf t := by
    intro t ht htrue
    refine Sequencer.idxOf_submit_le ht fun heq => ?_
    rw [heq, htrue] at h
    cases h
  apply Still.of_buses <;> first | exact hlifecycle | exact horder | rfl

theorem calm_submit (st : Stack) {task : Task} (h : task.receives = none) :
    Calm st (st.submit task) where
  settled _ hb := hb.submit task
  submitted t ht := by
    rcases mem_submit.mp ht with heq | hmem
    · exact Or.inl (heq ▸ h)
    · exact Or.inr hmem

theorem receives_none {task : Task} (h : task.lifecycle = false) : task.receives = none := by
  cases task <;> first | rfl | simp [Task.lifecycle] at h

theorem quiet_submit {st : Stack} {task : Task} (h : task.lifecycle = false) :
    Quiet st (st.submit task) where
  toStill := still_submit h
  toCalm := calm_submit st (receives_none h)

theorem quiet_setDispatcher (st : Stack) (d : DispatcherId) (dispatcher : Dispatcher) :
    Quiet st (st.setDispatcher d dispatcher) := by
  apply Quiet.of_queue <;> rfl

theorem quiet_setSender (st : Stack) (n : SenderId) (sender : Sender) :
    Quiet st (st.setSender n sender) := by
  apply Quiet.of_queue <;> rfl

theorem setBus_buses (st : Stack) (b : BusId) (bus : Bus) (b' : BusId) :
    (st.setBus b bus).buses b' = if b' = b then bus else st.buses b' :=
  Function.update_apply st.buses b bus b'

theorem still_setBus {st : Stack} {b : BusId} {bus : Bus}
    (hacquired : bus.acquired = (st.buses b).acquired)
    (hendpoint : bus.endpoint = (st.buses b).endpoint)
    (hverifying : bus.verifying = (st.buses b).verifying ∨ bus.verifying = [])
    (hstop : (st.buses b).stop = true → bus.stop = true ∨ bus.verifying = []) :
    Still st (st.setBus b bus) := by
  constructor <;> try rfl
  · exact fun _ _ _ => Nat.le_refl _
  all_goals
    intro b'
    rw [setBus_buses]
    split
    next h =>
      subst h
      assumption
    next => first | rfl | exact Or.inl rfl | exact Or.inl

theorem Settled.setBus {st : Stack} {b b' : BusId} {bus : Bus} (h : st.Settled b')
    (hbus : b' = b → (bus.stop = true → bus.processing = true) ∧
      (bus.processing = true → Task.processSending b ∈ st.queue)) :
    (st.setBus b bus).Settled b' := by
  constructor <;> rw [setBus_buses] <;> split
  next heq => exact (hbus heq).1
  next => exact h.stop
  next heq =>
    rw [heq]
    exact (hbus heq).2
  next => exact h.processing

theorem quiet_setBus {st : Stack} {b : BusId} {bus : Bus}
    (hacquired : bus.acquired = (st.buses b).acquired)
    (hendpoint : bus.endpoint = (st.buses b).endpoint)
    (hverifying : bus.verifying = (st.buses b).verifying)
    (hstop : bus.stop = (st.buses b).stop)
    (hprocessing : bus.processing = (st.buses b).processing) :
    Quiet st (st.setBus b bus) where
  toStill := still_setBus hacquired hendpoint (Or.inl hverifying) fun h =>
    Or.inl (hstop.trans h)
  settled b' hb' := hb'.setBus fun heq => by
    subst heq
    rw [hstop, hprocessing]
    exact ⟨hb'.stop, hb'.processing⟩
  submitted _ ht := Or.inr ht

theorem quiet_endpointSend (st : Stack) (e : EndpointId) (target : ℕ) :
    Quiet st (st.endpointSend e target).1 := by
  unfold Stack.endpointSend
  split <;> apply Quiet.of_queue <;> rfl

theorem quiet_dispatcherFinish (st : Stack) (d : DispatcherId) :
    Quiet st (st.dispatcherFinish d) := by
  unfold Stack.dispatcherFinish
  split
  · exact Quiet.refl st
  · exact (quiet_setDispatcher st d _).trans (quiet_submit rfl)

theorem quiet_dispatcherCancel (st : Stack) (d : DispatcherId) :
    Quiet st (st.dispatcherCancel d) := by
  unfold Stack.dispatcherCancel
  split
  · exact Quiet.refl st
  · exact (quiet_setDispatcher st d _).trans (quiet_dispatcherFinish _ d)

theorem quiet_cancelIncomplete (st : Stack) (incomplete : Option DispatcherId) :
    Quiet st (st.cancelIncomplete incomplete) := by
  cases incomplete with
  | none => exact Quiet.refl st
  | some d => exact quiet_dispatcherCancel st d

theorem quiet_busStop (st : Stack) (b : BusId) : Quiet st (st.busStop b) := by
  unfold Stack.busStop
  split
  next hprocessing =>
    refine ⟨still_setBus rfl rfl (Or.inl rfl) fun _ => Or.inl rfl,
      ⟨fun b' hb' => ?_, fun _ => Or.inr⟩⟩
    refine hb'.setBus fun heq => ?_
    subst heq
    exact ⟨fun _ => hprocessing, hb'.processing⟩
  next hidle =>
    have hpending := Quiet.foldl quiet_dispatcherCancel st (st.buses b).pending
    refine hpending.trans ?_
    refine (quiet_cancelIncomplete _ _).trans
      ⟨still_setBus rfl rfl (Or.inr rfl) fun _ => Or.inr rfl,
      ⟨fun b' hb' => ?_, fun _ => Or.inr⟩⟩
    refine hb'.setBus fun heq => ?_
    subst heq
    exact ⟨fun h => absurd h (by simp), hb'.processing⟩

theorem quiet_processSending (st : Stack) (b : BusId) : Quiet st (st.processSending b) := by
  unfold Stack.processSending
  split
  · exact Quiet.refl st
  · refine ⟨?_, ⟨?_, (calm_submit _ rfl).submitted⟩⟩
    · refine Still.trans ?_ (still_submit rfl)
      exact still_setBus rfl rfl (Or.inl rfl) fun h => Or.inl h
    · intro b' hb'
      constructor
      · intro hstop
        have hstop' : ((st.setBus b { st.buses b with processing := true }).buses b').stop = true :=
          hstop
        change ((st.setBus b _).buses b').processing = true
        rw [setBus_buses] at hstop' ⊢
        split at hstop'
        next heq => simp [heq]
        next hne => simpa [hne] using hb'.stop hstop'
      · intro hprocessing
        have hprocessing' :
            ((st.setBus b { st.buses b with processing := true }).buses b').processing = true :=
          hprocessing
        rw [mem_submit]
        rw [setBus_buses] at hprocessing'
        split at hprocessing'
        next heq => exact Or.inl (by rw [heq])
        next => exact Or.inr (hb'.processing hprocessing')

theorem quiet_submitPending (b : BusId) (pending : List DispatcherId) (st : Stack) :
    Quiet st (submitPending b pending st) := by
  induction pending generalizing st with
  | nil => exact quiet_setBus rfl rfl rfl rfl rfl
  | cons d pending ih =>
      unfold submitPending
      split
      · exact quiet_setBus rfl rfl rfl rfl rfl
      · refine Quiet.trans ?_ ((quiet_submit rfl).trans (ih _))
        split
        · exact quiet_setBus rfl rfl rfl rfl rfl
        · exact Quiet.refl st

theorem still_processSendingDeferred (st : Stack) (b : BusId) :
    Still st (st.processSendingDeferred b) := by
  unfold Stack.processSendingDeferred
  split
  · refine Still.trans ?_ (quiet_busStop _ b).toStill
    exact still_setBus rfl rfl (Or.inl rfl) fun h => Or.inl h
  · refine (quiet_submitPending b (st.buses b).pending st).toStill.trans ?_
    exact still_setBus rfl rfl (Or.inl rfl) fun h => Or.inl h

@[simp] theorem dispatcherFinish_buses (st : Stack) (d : DispatcherId) :
    (st.dispatcherFinish d).buses = st.buses := by
  unfold Stack.dispatcherFinish
  split <;> rfl

@[simp] theorem dispatcherCancel_buses (st : Stack) (d : DispatcherId) :
    (st.dispatcherCancel d).buses = st.buses := by
  unfold Stack.dispatcherCancel
  split
  · rfl
  · rw [dispatcherFinish_buses]
    rfl

theorem cancelIncomplete_buses (st : Stack) (incomplete : Option DispatcherId) :
    (st.cancelIncomplete incomplete).buses = st.buses := by
  cases incomplete with
  | none => rfl
  | some d => exact dispatcherCancel_buses st d

theorem foldl_dispatcherCancel_buses (st : Stack) (ds : List DispatcherId) :
    (ds.foldl dispatcherCancel st).buses = st.buses := by
  induction ds generalizing st with
  | nil => rfl
  | cons d ds ih => rw [List.foldl_cons, ih, dispatcherCancel_buses]

theorem busStop_bus (st : Stack) (b : BusId) (h : (st.buses b).processing = false) :
    ((st.busStop b).buses b) =
      { st.buses b with pending := [], verifying := [], incomplete := none, stop := false } := by
  unfold Stack.busStop
  rw [if_neg (by simp [h])]
  dsimp only
  rw [setBus_buses, if_pos rfl, cancelIncomplete_buses, foldl_dispatcherCancel_buses]

theorem settled_processSendingDeferred {st : Stack} {b : BusId}
    (h : ∀ b', b' ≠ b → st.Settled b') (b' : BusId) :
    (st.processSendingDeferred b).Settled b' := by
  unfold Stack.processSendingDeferred
  split
  next =>
    by_cases heq : b' = b
    · subst heq
      have hbus := busStop_bus (st.setBus b' { st.buses b' with processing := false }) b'
        (by simp [setBus_buses])
      constructor <;> rw [hbus] <;> simp [setBus_buses]
    · exact (quiet_busStop _ b).settled b' ((h b' heq).setBus fun h => absurd h heq)
  next hstop =>
    dsimp only
    have hkept : ∀ pending st', ((submitPending b pending st').buses b).stop =
        (st'.buses b).stop := by
      intro pending
      induction pending with
      | nil =>
          intro st'
          simp [submitPending, setBus_buses]
      | cons d pending ih =>
          intro st'
          unfold submitPending
          split
          · simp [setBus_buses]
          · rw [ih]
            split <;> simp [Stack.submit, setBus_buses]
    by_cases heq : b' = b
    · subst heq
      constructor
      · rw [setBus_buses, if_pos rfl]
        intro h
        exact absurd ((hkept _ _).symm.trans h) hstop
      · rw [setBus_buses, if_pos rfl]
        simp
    · exact ((quiet_submitPending b _ st).settled b' (h b' heq)).setBus fun h => absurd h heq

theorem quiet_createDispatcher (st : Stack) (n : SenderId) (t : Transmission) :
    Quiet st (st.createDispatcher n t) := by
  unfold Stack.createDispatcher
  refine Quiet.trans ?_ (quiet_processSending _ t.bus)
  unfold Stack.dispatcherInit
  dsimp only
  refine Quiet.trans ?_ (quiet_setBus rfl rfl rfl rfl rfl)
  refine Quiet.trans ?_ (quiet_setDispatcher _ st.nextDispatcher _)
  apply Quiet.of_queue <;> rfl

theorem quiet_senderDispatch (st : Stack) (busy : Bool) (n : SenderId) :
    Quiet st (st.senderDispatch busy n) := by
  unfold Stack.senderDispatch
  cases busy with
  | true => exact Quiet.foldl (fun st t => quiet_createDispatcher st n t) st _
  | false => apply Quiet.of_queue <;> rfl

theorem quiet_senderSubmit (st : Stack) (busy large system : Bool)
    (records : List Transmission) : Quiet st (st.senderSubmit busy large system records) := by
  unfold Stack.senderSubmit
  have hnew : Quiet st { st.setSender st.nextSender { records := records, system := system } with
      nextSender := st.nextSender + 1 } := by
    apply Quiet.of_queue <;> rfl
  refine hnew.trans ?_
  cases large with
  | true => apply Quiet.of_queue <;> rfl
  | false => exact quiet_senderDispatch _ busy _

theorem quiet_apiCall (st : Stack) (busy : Bool) {call : ApiCall} (h : call.NotStop) :
    Quiet st (apiCall busy st call) := by
  cases call with
  | sessionSend s channel reliable large =>
      simp only [apiCall]
      split
      · exact Quiet.refl st
      · exact quiet_senderSubmit st busy large false _
  | socketSend sessions channel large =>
      simp only [apiCall]
      split
      · exact Quiet.refl st
      · exact quiet_senderSubmit st busy large false _
  | disconnect s =>
      simp only [apiCall]
      split
      · exact Quiet.refl st
      · exact quiet_submit rfl
  | stop => exact absurd rfl h

theorem quiet_inCallback (st : Stack) {calls : List ApiCall}
    (h : ∀ call ∈ calls, call.NotStop) : Quiet st (st.inCallback calls) := by
  unfold Stack.inCallback
  induction calls generalizing st with
  | nil => exact Quiet.refl st
  | cons call calls ih =>
      exact (quiet_apiCall st true (h call List.mem_cons_self)).trans
        (ih _ fun c hc => h c (List.mem_cons_of_mem call hc))

theorem quiet_onDispatcherResult (st : Stack) (n : SenderId) (success : Bool)
    {calls : List ApiCall} (h : ∀ call ∈ calls, call.NotStop) :
    Quiet st (st.onDispatcherResult n success calls) := by
  unfold Stack.onDispatcherResult
  dsimp only
  split
  · refine Quiet.trans ?_ (quiet_inCallback _ h)
    apply Quiet.of_queue <;> rfl
  · exact quiet_setSender st n _

theorem quiet_onDispatcherCompleted (st : Stack) (b : BusId) (d : DispatcherId) :
    Quiet st (st.onDispatcherCompleted b d) := by
  unfold Stack.onDispatcherCompleted
  refine Quiet.trans ?_ (quiet_processSending _ b)
  split
  · exact quiet_setBus rfl rfl rfl rfl rfl
  · exact Quiet.refl st

theorem quiet_dispatcherDispatch (st : Stack) (d : DispatcherId) :
    Quiet st (st.dispatcherDispatch d) := by
  have hsend := quiet_endpointSend st (st.dispatchers d).endpoint (st.dispatchers d).signature
  unfold Stack.dispatcherDispatch
  dsimp only
  split
  · exact hsend.trans ((quiet_setDispatcher _ d _).trans (quiet_dispatcherFinish _ d))
  · split
    · exact hsend.trans (quiet_dispatcherFinish _ d)
    · exact hsend.trans (quiet_setDispatcher _ d _)

theorem quiet_dispatcherResend (st : Stack) (d : DispatcherId) :
    Quiet st (st.dispatcherResend d) := by
  have hsend := quiet_endpointSend st (st.dispatchers d).endpoint (st.dispatchers d).signature
  unfold Stack.dispatcherResend
  dsimp only
  split
  · exact hsend
  · exact hsend.trans ((quiet_setDispatcher _ d _).trans (quiet_dispatcherFinish _ d))

theorem quiet_dispatcherTask (st : Stack) (d : DispatcherId) {calls : List ApiCall}
    (h : ∀ call ∈ calls, call.NotStop) : Quiet st (st.dispatcherTask d calls) := by
  unfold Stack.dispatcherTask
  split
  · unfold Stack.dispatcherComplete
    dsimp only
    refine Quiet.trans ?_ (quiet_setDispatcher _ d _)
    split
    · exact quiet_onDispatcherResult st _ _ h
    · exact (quiet_onDispatcherResult st _ _ h).trans (quiet_onDispatcherCompleted _ _ d)
  · exact quiet_dispatcherDispatch st d

theorem quiet_sendSystem (st : Stack) (e : EndpointId) : Quiet st (st.sendSystem e) := by
  unfold Stack.sendSystem
  split
  · exact Quiet.refl st
  · exact quiet_senderSubmit st true false true _

end Stack

end Api

end PomeloUdp
