import PomeloUdp.Delivery.BatchInvariant
import PomeloUdp.Delivery.BatchRoutes

/-!
# The runs of batch senders

`accounted_run` is what a run of the senders and dispatchers keeps: the counters of a sender are
what its dispatchers have reported, a sender that is released has completed once, behind all of
them, and one that has not completed waits for its worker, for its loop or for a dispatcher that
is on its way. `Tallied` has the counters, `Routed` the ways, and `Driven` says that a bus whose
list is not empty will send or is blocked.

Two steps break it. A sender without transmissions never completes, since only a result and a
failed creation are counted. And the last result of a sender completes and releases it, while a
dispatcher that was cancelled takes itself out of the sender's list behind its result.
-/

namespace PomeloUdp

namespace Delivery

open Machine
open Base (Pipeline)

namespace Batch

variable {s s' : Batch} {n d b : ℕ} {x : BatchSender} {y : BatchDispatcher}

section Regularity

/-- The stage of a dispatcher is not the result that a cancelled one gives its sender last. -/
def reportsSafely (s : Batch) (d : ℕ) : Bool :=
  match s.dispatchers d with
  | none => true
  | some y =>
      match s.senders y.sender with
      | none => true
      | some x =>
          !y.canceled || x.pipeline.busy || decide (x.completedCounter + 1 ≠ x.records.length) ||
            decide (y.pipeline.taskIndex ≠ y.pipeline.last)

/-- The loop that ends had a transmission. -/
def dispatchesSome (s : Batch) (n : ℕ) : Bool :=
  match s.senders n with
  | none => true
  | some x => decide (x.records ≠ []) || decide (x.loop = none)

/-- A step that neither ends the loop of a sender without transmissions nor lets a cancelled
dispatcher complete its sender. -/
def regular (s : Batch) : BatchEvent → Bool
  | .dispatched n => s.dispatchesSome n
  | .dispatcherTask d _ _ => !s.queued d || s.reportsSafely d
  | _ => true

end Regularity

section Reports

theorem Tallied.exists_sender (h : Tallied s) (hy : s.dispatchers d = some y)
    (hcompleting : y.completing = none) :
    ∃ x, s.senders y.sender = some x ∧ y.senderEntry = true ∧
      d ∈ (s.history y.sender).created ∧ d ∉ (s.history y.sender).reported.map Prod.fst := by
  obtain ⟨hcreated, ⟨-, hentry, hnew⟩ | ⟨hdone, -⟩⟩ := h.dispatcher d y hy
  · cases hx : s.senders y.sender with
    | some x => exact ⟨x, rfl, hentry, hcreated, hnew⟩
    | none =>
        exfalso
        by_cases hlt : y.sender < s.nextSender
        · exact hnew ((h.settled y.sender hlt hx).2 d hcreated)
        · rw [(h.fresh y.sender (Nat.not_lt.mp hlt)).2] at hcreated
          cases hcreated
  · rw [hcompleting] at hdone
    cases hdone

theorem Tallied.createAndSubmitDispatcher (h : Tallied s) (n : ℕ) (acquired extra : Bool) :
    Tallied (s.createAndSubmitDispatcher n acquired extra) := by
  unfold Batch.createAndSubmitDispatcher
  split
  · exact h
  rename_i x hx
  split
  · exact h
  · exact h
  rename_i t rest failedCounter hloop
  dsimp only
  have hbus := sameTally_modifyBus s t.bus fun bus =>
    { bus with sequenceGenerator := bus.sequenceGenerator + 1 }
  have h' := h.same hbus
  generalize s.modifyBus t.bus (fun bus =>
    { bus with sequenceGenerator := bus.sequenceGenerator + 1 }) = u at hbus h'
  have hxu : u.senders n = some x := hbus.senders ▸ hx
  obtain ⟨next, hpipeline, hcounter, htask, hreporting, hlast, hcount, hcompleted⟩ :=
    (h'.sender n x hxu).of_loop hloop
  have hsuccess := (h'.sender n x hxu).1
  simp only [List.length_cons] at hcount
  cases acquired with
  | false =>
      simp only [Bool.false_eq_true, if_false]
      refine h'.goes (f := fun s => s.modifySender n fun x =>
        { x with loop := some ⟨rest, failedCounter + 1⟩ }) hxu
          ⟨_, _, modifySender_put .., rfl, rfl, hsuccess, ?_⟩
      change SenderStage x.records.length x.successCounter (u.history n) x.pipeline
        x.completedCounter x.checksumUpdateTask (some ⟨rest, failedCounter + 1⟩) x.reporting
      rw [hpipeline, hcounter, htask, hreporting]
      refine .dispatching next _ hlast ?_ hcompleted
      change (u.history n).created.length + (failedCounter + 1) + rest.length = x.records.length
      omega
  | true =>
      simp only [if_true]
      refine Tallied.same ?_ (sameTally_processSending ..)
      refine Tallied.same ?_ (sameTally_modifyBus ..)
      have hmade := h'.create (n := n) (x := { x with
          dispatchers := x.dispatchers ++ [u.nextDispatcher], loop := some ⟨rest, failedCounter⟩ })
        (y := .init n t (u.buses t.bus).sequenceGenerator x.chunks extra)
        (h'.lt_nextSender hxu) rfl rfl rfl ?_
      · convert hmade using 1
        simp [note, modifySender, Batch.put, hxu]
      · refine ⟨?_, ?_⟩
        · exact hsuccess
        · change SenderStage x.records.length x.successCounter
            { u.history n with created := (u.history n).created ++ [u.nextDispatcher] } x.pipeline
            x.completedCounter x.checksumUpdateTask (some ⟨rest, failedCounter⟩) x.reporting
          rw [hpipeline, hcounter, htask, hreporting]
          refine SenderStage.dispatching (h := { u.history n with
            created := (u.history n).created ++ [u.nextDispatcher] }) next _ hlast ?_ hcompleted
          simp only [List.length_append, List.length_singleton]
          omega

theorem Tallied.dispatcherCompleted (h : Tallied s) (d : ℕ) :
    Tallied (s.dispatcherCompleted d) := by
  unfold Batch.dispatcherCompleted
  split
  · exact h
  rename_i y hy
  split
  · exact h
  · rename_i hcompleting
    obtain ⟨-, ⟨hnone, -⟩ | ⟨hdone, -⟩⟩ := h.dispatcher d y hy
    · rw [hcompleting] at hnone
      cases hnone
    · rw [hcompleting] at hdone
      cases hdone
  · rename_i hcompleting
    have hsame := sameTally_onDispatcherCompleted s y.bus d
    obtain ⟨y', hy', hcore⟩ := hsame.exists_core' hy
    obtain ⟨-, hentry', hcompleting'⟩ : y'.sender = y.sender ∧ y'.senderEntry = y.senderEntry ∧
        y'.completing = y.completing := by
      simpa [core] using hcore
    have hentry : y.senderEntry = false := by
      obtain ⟨-, ⟨hnone, -⟩ | ⟨-, hentry, -⟩⟩ := h.dispatcher d y hy
      · rw [hcompleting] at hnone
        cases hnone
      · exact hentry
    have hrelease := (h.same hsame).release hy' (hcompleting'.trans hcompleting)
    unfold dispatcherRelease
    simp only [hy', hentry', hentry, Bool.false_eq_true, if_false]
    exact hrelease

theorem onDispatcherResult_eq {u : Batch} (hx : u.senders n = some x)
    (h' : (u.history n).Sound) (hsound : x.Sound (u.history n)) (hd : d ∈ (u.history n).created)
    (hnew : d ∉ (u.history n).reported.map Prod.fst) (success : Bool) :
    ∃ o hist, u.onDispatcherResult n d success = u.put n o hist ∧
      hist.created = (u.history n).created ∧
      hist.reported = (u.history n).reported ++ [(d, success)] ∧ hist.Sound ∧ Fits o hist ∧
      (¬ (x.pipeline.busy = false ∧ x.completedCounter + 1 = x.records.length) →
        ∃ x', o = some x' ∧ x'.reporting = false) := by
  have hresult := onDispatcherResult_put u n x h' hsound hd hnew success
  rwa [put_self hx] at hresult

theorem Tallied.completeCanceled (h : Tallied s) (hy : s.dispatchers d = some y)
    (hcompleting : y.completing = none) (hcanceled : y.canceled = true)
    (hsafe : ∀ x, s.senders y.sender = some x →
      ¬ (x.pipeline.busy = false ∧ x.completedCounter + 1 = x.records.length)) :
    Tallied (if (s.dispatcherComplete d).senderReporting y.sender then s.dispatcherComplete d
      else (s.dispatcherComplete d).dispatcherCompleted d) := by
  obtain ⟨x, hx, hentry, hcreated, hnew⟩ := h.exists_sender hy hcompleting
  set u : Batch := { s with
    dispatchers :=
      Function.update s.dispatchers d (some { y with completing := some true }) } with hu
  have hcomplete : s.dispatcherComplete d = u.onDispatcherResult y.sender d false := by
    unfold Batch.dispatcherComplete
    simp only [hy, hcanceled, if_true]
    rw [modifyDispatcher_eq hy]
    simp [hu, hcanceled]
  obtain ⟨o, hist, hresult, hcreated', hreported', hsound', hfits, hopen⟩ :=
    onDispatcherResult_eq (u := u) hx (h.history y.sender) (h.sender _ x hx) hcreated hnew false
  obtain ⟨x', rfl, hreporting⟩ := hopen (hsafe x hx)
  rw [hcomplete, hresult]
  have hidle : (u.put y.sender (some x') hist).senderReporting y.sender = false := by
    simp [senderReporting, hreporting]
  rw [hidle, if_neg (by decide)]
  have hreport := h.report (o := some { x' with dispatchers := x'.dispatchers.erase d }) hy
    hcompleting hcreated' hreported' hsound' hfits none (fun _ hnone => nomatch hnone)
  have hreleased : (u.put y.sender (some x') hist).dispatcherCompleted d =
      { s.put y.sender (some { x' with dispatchers := x'.dispatchers.erase d }) hist with
        dispatchers := Function.update s.dispatchers d none } := by
    simp [hu, Batch.dispatcherCompleted, dispatcherRelease, Batch.put, hentry, modifySender]
  rwa [hreleased]

theorem Tallied.completeNormal (h : Tallied s) (hy : s.dispatchers d = some y)
    (hcompleting : y.completing = none) (hcanceled : y.canceled = false) :
    Tallied (s.dispatcherComplete d) := by
  obtain ⟨x, hx, hentry, hcreated, hnew⟩ := h.exists_sender hy hcompleting
  set u : Batch := { s.put y.sender (some { x with dispatchers := x.dispatchers.erase d })
      (s.history y.sender) with
    dispatchers := Function.update s.dispatchers d
      (some { y with senderEntry := false, completing := some false }) } with hu
  have hcomplete : s.dispatcherComplete d =
      u.onDispatcherResult y.sender d (!y.failed && !false) := by
    unfold Batch.dispatcherComplete
    simp only [hy, hcanceled, hentry, Bool.false_eq_true, if_false, if_true]
    congr 1
    simp [hu, modifySender, modifyDispatcher, Batch.put, hx, hy, hcanceled]
  have hxu : u.senders y.sender = some { x with dispatchers := x.dispatchers.erase d } := by
    simp [hu]
  have hhistory : u.history y.sender = s.history y.sender := by simp [hu]
  obtain ⟨o, hist, hresult, hcreated', hreported', hsound', hfits, -⟩ :=
    onDispatcherResult_eq (u := u) hxu (hhistory ▸ h.history y.sender)
      (hhistory ▸ h.sender _ x hx) (hhistory ▸ hcreated) (hhistory ▸ hnew) (!y.failed && !false)
  rw [hcomplete, hresult]
  rw [hhistory] at hcreated' hreported'
  have hreport := h.report (o := o) hy hcompleting hcreated' hreported' hsound' hfits
    (some { y with senderEntry := false, completing := some false })
    (fun y' hy' => by obtain rfl := Option.some.inj hy'; exact ⟨rfl, rfl, rfl⟩)
  have hwritten : u.put y.sender o hist = { s.put y.sender o hist with
      dispatchers := Function.update s.dispatchers d
        (some { y with senderEntry := false, completing := some false }) } := by
    simp [hu, Batch.put]
  rwa [hwritten]

theorem Tallied.dispatcherComplete (h : Tallied s) (hy : s.dispatchers d = some y)
    (hcompleting : y.completing = none)
    (hsafe : y.canceled = true → ∀ x, s.senders y.sender = some x →
      ¬ (x.pipeline.busy = false ∧ x.completedCounter + 1 = x.records.length)) :
    Tallied (if (s.dispatcherComplete d).senderReporting y.sender then s.dispatcherComplete d
      else (s.dispatcherComplete d).dispatcherCompleted d) := by
  cases hcanceled : y.canceled with
  | true => exact h.completeCanceled hy hcompleting hcanceled (hsafe hcanceled)
  | false =>
      have hcomplete := h.completeNormal hy hcompleting hcanceled
      split
      · exact hcomplete
      · exact hcomplete.dispatcherCompleted d

end Reports

section Buses

/-- A bus that is at work has its sending task in the queue, and so has one whose list is not
empty, unless a dispatcher blocks it. -/
structure BusDriven (bus : BatchBus) : Prop where
  processing : bus.processing = true → bus.sendTask = true
  pending : bus.pendingDispatchers ≠ [] →
    bus.sendTask = true ∨ bus.incompleteReliableDispatcher ≠ none

/-- Every bus is driven. -/
def Driven (s : Batch) : Prop := ∀ b, BusDriven (s.buses b)

theorem Driven.congr (h : Driven s) (hbuses : s'.buses = s.buses) : Driven s' := by
  intro b
  rw [hbuses]
  exact h b

theorem buses_modifyBus (s : Batch) (b b' : ℕ) (f : BatchBus → BatchBus) :
    (s.modifyBus b f).buses b' = if b' = b then f (s.buses b) else s.buses b' :=
  Function.update_apply ..

theorem Driven.modifyBus (h : Driven s) (b : ℕ) {f : BatchBus → BatchBus}
    (hf : BusDriven (s.buses b) → BusDriven (f (s.buses b))) : Driven (s.modifyBus b f) := by
  intro b'
  rw [buses_modifyBus]
  split
  · exact hf (h b)
  · exact h b'

/-- The sending task of a bus is in the queue behind `pomelo_delivery_bus_process_sending`. -/
theorem driven_processSending (hother : ∀ b', b' ≠ b → BusDriven (s.buses b'))
    (hworking : (s.buses b).processing = true → (s.buses b).sendTask = true) :
    Driven (s.processSending b) := by
  intro b'
  unfold Batch.processSending
  split
  · rename_i hprocessing
    by_cases hb : b' = b
    · rw [hb]
      exact ⟨hworking, fun _ => .inl (hworking hprocessing)⟩
    · exact hother b' hb
  · rw [buses_modifyBus]
    split
    · exact ⟨fun _ => rfl, fun _ => .inl rfl⟩
    · rename_i hb
      exact hother b' hb

theorem Driven.processSending_modifyBus (h : Driven s) (b : ℕ) {f : BatchBus → BatchBus}
    (hprocessing : ∀ bus, (f bus).processing = bus.processing)
    (htask : ∀ bus, (f bus).sendTask = bus.sendTask) :
    Driven ((s.modifyBus b f).processSending b) := by
  refine driven_processSending (fun b' hb => ?_) ?_
  · rw [buses_modifyBus, if_neg hb]
    exact h b'
  · rw [buses_modifyBus, if_pos rfl, hprocessing, htask]
    exact (h b).processing

theorem Driven.createAndSubmitDispatcher (h : Driven s) (n : ℕ) (acquired extra : Bool) :
    Driven (s.createAndSubmitDispatcher n acquired extra) := by
  unfold Batch.createAndSubmitDispatcher
  split
  · exact h
  split
  · exact h
  · exact h
  rename_i t rest failedCounter hloop
  have hbus := h.modifyBus t.bus (f := fun bus =>
    { bus with sequenceGenerator := bus.sequenceGenerator + 1 }) fun hdriven =>
      ⟨hdriven.processing, hdriven.pending⟩
  dsimp only
  generalize s.modifyBus t.bus (fun bus =>
    { bus with sequenceGenerator := bus.sequenceGenerator + 1 }) = u at hbus ⊢
  split
  · refine Driven.processSending_modifyBus ?_ t.bus (fun _ => rfl) fun _ => rfl
    exact hbus.congr rfl
  · exact hbus.congr rfl

theorem buses_stopDispatchers (s : Batch) (b : ℕ) :
    (∀ b', b' ≠ b → (s.stopDispatchers b).buses b' = s.buses b') ∧
      BusDriven ((s.stopDispatchers b).buses b) := by
  have hstopped : ∀ {t : Batch}, t.buses = s.buses → (∀ b', b' ≠ b →
      (t.modifyBus b fun bus => { bus with
        pendingDispatchers := []
        incompleteReliableDispatcher := none
        sequenceGenerator := 0
        processing := false
        stopping := false }).buses b' = s.buses b') ∧
      BusDriven ((t.modifyBus b fun bus => { bus with
        pendingDispatchers := []
        incompleteReliableDispatcher := none
        sequenceGenerator := 0
        processing := false
        stopping := false }).buses b) := by
    intro t hbuses
    refine ⟨fun b' hb => ?_, ?_⟩
    · rw [buses_modifyBus, if_neg hb, hbuses]
    · rw [buses_modifyBus, if_pos rfl]
      exact ⟨fun hworking => (nomatch hworking), fun hlist => absurd rfl hlist⟩
  have hcanceled := buses_cancelAll s (s.buses b).pendingDispatchers
  unfold Batch.stopDispatchers
  dsimp only
  split
  · exact hstopped hcanceled
  · exact hstopped ((buses_dispatcherCancel ..).trans hcanceled)

theorem Driven.stopDispatchers (h : Driven s) (b : ℕ) : Driven (s.stopDispatchers b) := by
  obtain ⟨hother, hstopped⟩ := buses_stopDispatchers s b
  intro b'
  by_cases hb : b' = b
  · rw [hb]
    exact hstopped
  · rw [hother b' hb]
    exact h b'

theorem Driven.stop (h : Driven s) (b : ℕ) : Driven (s.stop b) := by
  unfold Batch.stop
  split
  · exact h.modifyBus b fun hdriven => ⟨hdriven.processing, hdriven.pending⟩
  · exact h.stopDispatchers b

theorem buses_submitPending (b : ℕ) (l : List ℕ) (s : Batch) :
    (∀ b', b' ≠ b → (submitPending b l s).buses b' = s.buses b') ∧
      (((submitPending b l s).buses b).pendingDispatchers = [] ∨
        ((submitPending b l s).buses b).incompleteReliableDispatcher ≠ none) := by
  induction l generalizing s with
  | nil =>
      refine ⟨fun b' hb => ?_, .inl ?_⟩
      · rw [Batch.submitPending, buses_modifyBus, if_neg hb]
      · rw [Batch.submitPending, buses_modifyBus, if_pos rfl]
  | cons d l ih =>
      rw [Batch.submitPending]
      split
      · rename_i hblocked
        refine ⟨fun b' hb => ?_, .inr ?_⟩
        · rw [buses_modifyBus, if_neg hb]
        · rw [buses_modifyBus, if_pos rfl]
          exact Option.isSome_iff_ne_none.mp hblocked
      · dsimp only
        refine ⟨fun b' hb => ((ih _).1 b' hb).trans ?_, (ih _).2⟩
        change Batch.buses (if _ then _ else _) b' = _
        split
        · rw [buses_modifyBus, if_neg hb]
        · rfl

theorem Driven.processSendingDeferred (h : Driven s) (b : ℕ) :
    Driven (s.processSendingDeferred b) := by
  unfold Batch.processSendingDeferred
  dsimp only
  set t := s.modifyBus b fun bus => { bus with sendTask := false } with ht
  set u := if (t.buses b).stopping = true then t
    else Batch.submitPending b (t.buses b).pendingDispatchers t with hu
  set v := u.modifyBus b fun bus => { bus with processing := false } with hv
  have hidle : v.buses b = { u.buses b with processing := false } := by
    rw [hv, buses_modifyBus, if_pos rfl]
  have hother : ∀ b', b' ≠ b → v.buses b' = s.buses b' := by
    intro b' hb
    have htask : t.buses b' = s.buses b' := by rw [ht, buses_modifyBus, if_neg hb]
    have hloop : u.buses b' = t.buses b' := by
      rw [hu]
      split
      · rfl
      · exact (buses_submitPending b _ t).1 b' hb
    rw [hv, buses_modifyBus, if_neg hb, hloop, htask]
  split
  · have hstop : v.stop b = v.stopDispatchers b := by
      rw [Batch.stop, hidle]
      rfl
    obtain ⟨hrest, hstopped⟩ := buses_stopDispatchers v b
    rw [hstop]
    intro b'
    by_cases hb : b' = b
    · rw [hb]
      exact hstopped
    · rw [hrest b' hb, hother b' hb]
      exact h b'
  · rename_i hrunning
    have hloop : (u.buses b).pendingDispatchers = [] ∨
        (u.buses b).incompleteReliableDispatcher ≠ none := by
      rw [hidle] at hrunning
      by_cases hstopping : (t.buses b).stopping = true
      · have hstill : u = t := by rw [hu, if_pos hstopping]
        rw [hstill] at hrunning
        exact absurd hstopping hrunning
      · have hsubmitted : u = Batch.submitPending b (t.buses b).pendingDispatchers t := by
          rw [hu, if_neg hstopping]
        rw [hsubmitted]
        exact (buses_submitPending b _ t).2
    intro b'
    by_cases hb : b' = b
    · rw [hb, hidle]
      refine ⟨fun hworking => (nomatch hworking), fun hlist => .inr ?_⟩
      exact hloop.resolve_left hlist
    · rw [hother b' hb]
      exact h b'

theorem Driven.onDispatcherCompleted (h : Driven s) (b d : ℕ) :
    Driven (s.onDispatcherCompleted b d) := by
  unfold Batch.onDispatcherCompleted
  dsimp only
  split
  · exact h.processSending_modifyBus b (fun _ => rfl) fun _ => rfl
  · exact driven_processSending (fun b' _ => h b') (h b).processing

theorem buses_dispatcherRelease (s : Batch) (d : ℕ) : (s.dispatcherRelease d).buses = s.buses := by
  cases hy : s.dispatchers d with
  | none => rw [dispatcherRelease, hy]
  | some y => exact (sameWay_dispatcherRelease hy).buses

theorem Driven.dispatcherCompleted (h : Driven s) (d : ℕ) : Driven (s.dispatcherCompleted d) := by
  unfold Batch.dispatcherCompleted
  split
  · exact h
  split
  · exact h
  · exact h.congr (buses_dispatcherRelease s d)
  · exact (h.onDispatcherCompleted _ d).congr (buses_dispatcherRelease ..)

theorem Driven.dispatcherTask (h : Driven s) (d : ℕ) (sent timer : Bool) :
    Driven (s.dispatcherTask d sent timer) := by
  unfold Batch.dispatcherTask
  dsimp only
  split
  · exact h
  rename_i y hy
  split
  · obtain ⟨y', -, -, -, -, hsame⟩ := sameWay_dispatcherComplete
      (s := { s with queued := Function.update s.queued d false }) hy
    have hcomplete := h.congr hsame.buses
    split
    · exact hcomplete
    · exact hcomplete.dispatcherCompleted d
  · exact h.congr (buses_dispatcherDispatch ..)

theorem buses_dispatcherRecvAck (s : Batch) (d index : ℕ) :
    (s.dispatcherRecvAck d index).buses = s.buses := by
  unfold dispatcherRecvAck
  split
  · rfl
  split
  · rfl
  split
  · rfl
  · rfl
  · dsimp only
    split
    · rfl
    · exact buses_dispatcherNext ..

theorem buses_recvFragmentAck (s : Batch) (b : ℕ) (sequence : UInt64) (index : ℕ) :
    (s.recvFragmentAck b sequence index).buses = s.buses := by
  unfold Batch.recvFragmentAck
  split
  · rfl
  split
  · exact buses_dispatcherRecvAck ..
  · rfl

theorem buses_dispatcherResend (s : Batch) (d : ℕ) (sent : Bool) :
    (s.dispatcherResend d sent).buses = s.buses := by
  unfold Batch.dispatcherResend
  split
  · rfl
  · exact buses_dispatcherFail s d

end Buses

section Steps

/-- What a run of regular steps keeps. -/
structure Accounting (s : Batch) : Prop where
  tallied : Tallied s
  onWay : OnWay s
  driven : Driven s

theorem accounting_start : Accounting start where
  tallied := tallied_start
  onWay := ⟨fun _ _ hy => (nomatch hy), fun _ hd => (nomatch hd), fun _ _ hd => (nomatch hd),
    fun _ => List.nodup_nil, fun _ _ hd => (nomatch hd), fun _ _ => rfl⟩
  driven := fun _ => ⟨fun hworking => (nomatch hworking), fun hlist => absurd rfl hlist⟩

theorem Accounting.sameWay (h : Accounting s) (htallied : Tallied s') (hsame : SameWay s s') :
    Accounting s' :=
  ⟨htallied, hsame.routed h.onWay, h.driven.congr hsame.buses⟩

theorem Accounting.sameTally (h : Accounting s) (hsame : SameTally s s') (honWay : OnWay s')
    (hdriven : Driven s') : Accounting s' :=
  ⟨h.tallied.same hsame, honWay, hdriven⟩

theorem Accounting.submit (h : Accounting s) (parcel chunks : ℕ) (system : Bool)
    (records : List Transmission) (worker : Bool) :
    Accounting (((s.senderCreate parcel chunks system).addTransmissions s.nextSender
      records).senderSubmit s.nextSender worker) := by
  refine h.sameWay (h.tallied.submit parcel chunks system records worker) ?_
  refine SameWay.trans ?_ (sameWay_senderSubmit ..)
  exact ⟨rfl, rfl, rfl, rfl⟩

theorem Accounting.dispatched (h : Accounting s) (n : ℕ) (hsome : s.dispatchesSome n = true) :
    Accounting (s.dispatched n) := by
  refine h.sameWay ?_ (sameWay_dispatched s n)
  cases hx : s.senders n with
  | none =>
      have hidle : s.dispatched n = s := by rw [Batch.dispatched, hx]
      rw [hidle]
      exact h.tallied
  | some x =>
      simp only [dispatchesSome, hx, Bool.or_eq_true, decide_eq_true_eq] at hsome
      rcases hsome with hrecords | hloop
      · exact h.tallied.dispatched hx hrecords
      · have hidle : s.dispatched n = s := by
          unfold Batch.dispatched
          simp only [hx, hloop]
        rw [hidle]
        exact h.tallied

theorem Tallied.dispatcherTask (h : Tallied s) (hway : OnWay s) (hqueued : s.queued d = true)
    (hsafe : s.reportsSafely d = true) (sent timer : Bool) :
    Tallied (s.dispatcherTask d sent timer) := by
  obtain ⟨y, hy⟩ := hway.queued d hqueued
  have ht := h.same (sameTally_queued s (Function.update s.queued d false))
  unfold Batch.dispatcherTask
  simp only [hy]
  split
  · rename_i hindex
    refine ht.dispatcherComplete hy ?_ fun hcanceled x hx hlast => ?_
    · obtain hfirst | ⟨-, -, hcompleting⟩ := hway.stage hy
      · rw [hfirst] at hindex
        exact absurd hindex (by decide)
      · exact hcompleting.mp hqueued
    · have hx' : s.senders y.sender = some x := hx
      simp [reportsSafely, hy, hx', hcanceled, hlast.1, hlast.2, hindex] at hsafe
  · exact ht.same (sameTally_dispatcherDispatch ..)

theorem Accounting.dispatcherCompleted (h : Accounting s) (d : ℕ) :
    Accounting (s.dispatcherCompleted d) := by
  refine ⟨h.tallied.dispatcherCompleted d, h.onWay.dispatcherCompleted d fun y hy hdone => ?_,
    h.driven.dispatcherCompleted d⟩
  obtain ⟨-, ⟨hnone, -⟩ | ⟨hkept, -⟩⟩ := h.tallied.dispatcher d y hy
  · rw [hdone] at hnone
    cases hnone
  · rw [hdone] at hkept
    cases hkept

theorem Accounting.step (h : Accounting s) (e : BatchEvent) (hregular : s.regular e = true) :
    Accounting (s.step e) := by
  unfold Batch.step
  rw [h.tallied.fault]
  simp only [Option.isSome_none, Bool.false_eq_true, if_false]
  cases e with
  | submit parcel chunks system records worker =>
      exact h.submit parcel chunks system records worker
  | updateChecksumComplete n canceled computed =>
      dsimp only
      split
      · rename_i htask
        obtain ⟨x, hx, htask⟩ := (Option.any_eq_true ..).mp htask
        exact h.sameWay (h.tallied.updateChecksumComplete hx htask canceled computed)
          (sameWay_updateChecksumComplete ..)
      · exact h
  | createAndSubmitDispatcher n acquired extra =>
      exact ⟨h.tallied.createAndSubmitDispatcher n acquired extra,
        h.onWay.createAndSubmitDispatcher n acquired extra,
        h.driven.createAndSubmitDispatcher n acquired extra⟩
  | dispatched n => exact h.dispatched n hregular
  | dispatcherTask d sent timer =>
      dsimp only
      split
      · rename_i hqueued
        have hsafe : s.reportsSafely d = true := by
          simpa [regular, hqueued] using hregular
        exact ⟨h.tallied.dispatcherTask h.onWay hqueued hsafe sent timer,
          h.onWay.dispatcherTask hqueued sent timer, h.driven.dispatcherTask d sent timer⟩
      · exact h
  | dispatcherResend d sent =>
      dsimp only
      split
      · rename_i htimer
        refine h.sameTally (sameTally_dispatcherResend ..) ?_
          (h.driven.congr (buses_dispatcherResend ..))
        have hway := h.onWay.dispatcherResend htimer sent
        rwa [OnWay, pendings_congr (buses_dispatcherResend ..)]
      · exact h
  | reported n =>
      dsimp only
      split
      · rename_i hreporting
        obtain ⟨x, hx, hreporting⟩ := (Option.any_eq_true ..).mp hreporting
        exact h.sameWay (h.tallied.senderRelease hx hreporting) ⟨rfl, rfl, rfl, rfl⟩
      · exact h
  | dispatcherCompleted d =>
      dsimp only
      split
      · exact h
      · exact h.dispatcherCompleted d
  | processSendingDeferred b =>
      dsimp only
      split
      · exact h.sameTally (sameTally_processSendingDeferred ..) (h.onWay.processSendingDeferred b)
          (h.driven.processSendingDeferred b)
      · exact h
  | recvFragmentAck b sequence index =>
      refine h.sameTally (sameTally_recvFragmentAck ..) ?_
        (h.driven.congr (buses_recvFragmentAck ..))
      have hway := h.onWay.recvFragmentAck b sequence index
      rwa [OnWay, pendings_congr (buses_recvFragmentAck ..)]
  | stop b =>
      exact h.sameTally (sameTally_stop ..) (h.onWay.stop b) (h.driven.stop b)

end Steps

section Accounts

/-- The next stage of a dispatcher is in the queue, it is sent again until it is acknowledged, or
the sender that it has reported to has not returned. -/
def Moves (s : Batch) (d : ℕ) : Prop :=
  s.queued d = true ∨
    ∃ y, s.dispatchers d = some y ∧ (y.resendTimer = true ∨ y.completing ≠ none)

/-- A dispatcher is in the list of a bus that will send, or that one on its way blocks. -/
def Waits (s : Batch) (d : ℕ) : Prop :=
  ∃ y, s.dispatchers d = some y ∧ d ∈ s.pendings y.bus ∧
    ((s.buses y.bus).sendTask = true ∨ ∃ d', s.incomplete y.bus = some d' ∧ s.Moves d')

/-- Nothing is left to do. -/
structure Idle (s : Batch) : Prop where
  sender : ∀ n x, s.senders n = some x → x.checksumUpdateTask = false ∧ x.loop = none
  dispatcher : ∀ d, ¬ s.Moves d
  bus : ∀ b, (s.buses b).sendTask = false

/-- The accounts of a sender that has been submitted. -/
structure AccountedSender (s : Batch) (n : ℕ) : Prop where
  sound : (s.history n).Sound
  counters : ∀ x, s.senders n = some x →
    x.completedCounter ≤ x.records.length ∧ x.successCounter = (s.history n).successes
  completed : (s.history n).completed = [] ∨ (s.history n).Settled
  released : s.senders n = none → (s.history n).Settled ∧
    ∀ d y, s.dispatchers d = some y → y.sender = n → y.senderEntry = false ∧ y.completing ≠ none
  unfinished : (s.history n).completed = [] → ∃ x, s.senders n = some x ∧
    (x.checksumUpdateTask = true ∨ x.loop.isSome = true ∨
      ∃ d ∈ (s.history n).created, d ∉ (s.history n).reported.map Prod.fst ∧
        (s.Moves d ∨ s.Waits d))

/-- No dispatcher uses a sender that is gone, every sender that has been submitted keeps its
accounts, and when nothing is left to do all of them have completed. -/
structure Accounted (s : Batch) : Prop where
  fault : s.fault = none
  sender : ∀ n < s.nextSender, s.AccountedSender n
  idle : s.Idle → ∀ n < s.nextSender, (s.history n).Settled

theorem Accounting.moves_or_waits (h : Accounting s) (hy : s.dispatchers d = some y) :
    s.Moves d ∨ s.Waits d := by
  cases h.onWay.place d y hy with
  | pending _ _ _ _ _ hlisted =>
      refine .inr ⟨y, hy, hlisted, ?_⟩
      rcases (h.driven y.bus).pending (List.ne_nil_of_mem hlisted) with htask | hblocked
      · exact .inl htask
      · obtain ⟨d', hd'⟩ := Option.ne_none_iff_exists'.mp hblocked
        refine .inr ⟨d', hd', ?_⟩
        obtain ⟨z, hz, hbus, -, hunlisted⟩ := h.onWay.blocking y.bus d' hd'
        cases h.onWay.place d' z hz with
        | pending _ _ _ _ _ hlisted' => exact absurd (hbus ▸ hlisted') hunlisted
        | sending _ _ _ hmoving =>
            exact hmoving.imp id fun htimer => ⟨z, hz, .inl htimer.2⟩
        | last _ _ hmoving => exact .inl hmoving
        | done _ hcompleting => exact .inr ⟨z, hz, .inr hcompleting⟩
  | sending _ _ _ hmoving => exact .inl (hmoving.imp id fun htimer => ⟨y, hy, .inl htimer.2⟩)
  | last _ _ hmoving => exact .inl (.inl hmoving)
  | done _ hcompleting => exact .inl (.inr ⟨y, hy, .inr hcompleting⟩)

theorem Accounting.accountedSender (h : Accounting s) (hn : n < s.nextSender) :
    s.AccountedSender n where
  sound := h.tallied.history n
  counters x hx := ⟨(h.tallied.sender n x hx).completedCounter_le (h.tallied.history n),
    (h.tallied.sender n x hx).1⟩
  completed := by
    cases hx : s.senders n with
    | none => exact .inr (h.tallied.settled n hn hx)
    | some x =>
        have hsound := h.tallied.sender n x hx
        cases hreporting : x.reporting with
        | true =>
            obtain ⟨hall, hcompleted⟩ := hsound.of_reporting hreporting
            rw [hsound.1] at hcompleted
            exact .inr ⟨hcompleted, (h.tallied.history n).all_reported hall⟩
        | false => exact .inl (hsound.of_not_reporting hreporting)
  released hx := by
    have hsettled := h.tallied.settled n hn hx
    refine ⟨hsettled, fun d y hy hsender => ?_⟩
    obtain ⟨hcreated, ⟨-, -, hnew⟩ | ⟨hdone, hentry, -⟩⟩ := h.tallied.dispatcher d y hy
    · rw [hsender] at hcreated hnew
      exact absurd (hsettled.2 d hcreated) hnew
    · exact ⟨hentry, by rw [hdone]; decide⟩
  unfinished hopen := by
    cases hx : s.senders n with
    | none =>
        have hsettled := h.tallied.settled n hn hx
        rw [hsettled.1] at hopen
        cases hopen
    | some x =>
        refine ⟨x, rfl, ?_⟩
        obtain htask | hloop | ⟨d, hcreated, hnew⟩ :=
          (h.tallied.sender n x hx).unfinished (h.tallied.history n) hopen
        · exact .inl htask
        · exact .inr (.inl hloop)
        · obtain ⟨y, hy, -⟩ := h.tallied.unreported n d hcreated hnew
          exact .inr (.inr ⟨d, hcreated, hnew, h.moves_or_waits hy⟩)

theorem Accounting.accounted (h : Accounting s) : Accounted s where
  fault := h.tallied.fault
  sender _ hn := h.accountedSender hn
  idle hidle n hn := by
    have hsender := h.accountedSender hn
    refine hsender.completed.resolve_left fun hopen => ?_
    obtain ⟨x, hx, htask | hloop | ⟨d, -, -, hmoves | hwaits⟩⟩ := hsender.unfinished hopen
    · rw [(hidle.sender n x hx).1] at htask
      cases htask
    · rw [(hidle.sender n x hx).2] at hloop
      cases hloop
    · exact hidle.dispatcher d hmoves
    · obtain ⟨y, -, -, htask | ⟨d', -, hmoves⟩⟩ := hwaits
      · rw [hidle.bus y.bus] at htask
        cases htask
      · exact hidle.dispatcher d' hmoves

/-- A run in which no sender without transmissions ends its loop, and no cancelled dispatcher
completes its sender, keeps the accounts of every sender. -/
theorem accounted_run (es : List BatchEvent)
    (h : Along step (fun s e => s.regular e = true) start es) : Accounted (run step start es) :=
  (invariant_run (fun _ e hs he => hs.step e he) accounting_start h).accounted

/-- A sender with a reliable transmission, whose dispatcher is sent and acknowledged. -/
def acknowledgedRun : List BatchEvent := [
  .submit 0 1 false [⟨0, .reliable⟩] true, .createAndSubmitDispatcher 0 true false,
  .dispatched 0, .processSendingDeferred 0, .dispatcherTask 0 true true,
  .recvFragmentAck 0 1 0, .dispatcherTask 0 true true, .reported 0, .dispatcherCompleted 0]

theorem accounted_acknowledged : Accounted (run step start acknowledgedRun) :=
  accounted_run acknowledgedRun (by decide)

/-- The same sender, whose bus is stopped instead. -/
def canceledRun : List BatchEvent := [
  .submit 0 1 false [⟨0, .reliable⟩] true, .createAndSubmitDispatcher 0 true false,
  .dispatched 0, .processSendingDeferred 0, .dispatcherTask 0 true true, .stop 0,
  .dispatcherTask 0 true true, .reported 0, .dispatcherCompleted 0]

/-- The dispatcher that is cancelled takes itself out of the list of a sender that is gone. -/
theorem not_accounted_canceled : ¬ Accounted (run step start canceledRun) := by
  intro h
  exact absurd h.fault (by decide)

end Accounts

end Batch

end Delivery

end PomeloUdp
