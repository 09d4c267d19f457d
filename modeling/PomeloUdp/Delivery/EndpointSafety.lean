import PomeloUdp.Delivery.Endpoint

/-!
# What malformed fragments do to an endpoint

The fields of a meta are free: the decoder, the endpoint and
`pomelo_delivery_receiver_check_meta` compare the last index with what they know, but none
of them compares the fragment index with the last one. A fragment with an index above the
last one that a receiver takes fails the assertion of
`pomelo_delivery_receiver_add_fragment`. Apart from these fragments no datagram harms a bus:
`operational_run`.

A receiver is found or opened behind `pomelo_delivery_bus_cleanup_expired_receivers`, which
releases receivers whose stages may still be in the queue, as a stop does.
-/

namespace PomeloUdp

namespace Delivery

open Machine Codec Memory

namespace Bus

variable {s s' : Bus} {env : BusEnv} {id : ℕ} {r : BusReceiver} {m : FragmentMeta} {now : UInt64}

section Conditions

/-- The receiver that has the sequence number, unless it has expired. -/
def current (s : Bus) (now : UInt64) (sequence : UInt64) : Option BusReceiver :=
  ((s.mapGet sequence).bind s.receivers).filter fun r => !decide (r.Expired now)

/-- The checks of `pomelo_delivery_bus_recv_fragment_data` before a receiver is looked up. -/
def Passes (s : Bus) (m : FragmentMeta) : Prop :=
  match m.type with
  | .reliable =>
      if s.incompleteReliableReceiver.isSome then m.sequence = s.lastRecvReliableSequence
      else m.sequence ≠ s.lastRecvReliableSequence
  | .sequenced => ¬m.sequence < s.lastRecvSequencedSequence
  | _ => True

instance (s : Bus) (m : FragmentMeta) : Decidable (s.Passes m) := by
  unfold Passes
  cases m.type <;> infer_instance

/-- The bus has a receiver that takes the fragment, or may open one. -/
def Admits (s : Bus) (env : BusEnv) (m : FragmentMeta) : Prop :=
  s.Passes m ∧
    match s.current env.now m.sequence with
    | some r => r.base.checkMeta m = true
    | none => env.acquire.isSome = true

instance (s : Bus) (env : BusEnv) (m : FragmentMeta) : Decidable (s.Admits env m) := by
  unfold Admits
  cases s.current env.now m.sequence <;> infer_instance

/-- No stage of a receiver that has expired is in the queue. -/
def Settled (s : Bus) (now : UInt64) : Prop :=
  ∀ id ∈ s.receiversHeap, ¬now < s.expiredTime id → s.queued id = false

instance (s : Bus) (now : UInt64) : Decidable (s.Settled now) :=
  inferInstanceAs (Decidable (∀ id ∈ s.receiversHeap, _))

/-- No stage of a receiver in the map is in the queue. -/
def Idle (s : Bus) : Prop := ∀ e ∈ s.receiversMap, s.queued e.2 = false

instance (s : Bus) : Decidable s.Idle := inferInstanceAs (Decidable (∀ e ∈ s.receiversMap, _))

/-- The event stops the bus at once, or the sending half has waited for the stop. -/
def StopsNow (s : Bus) : BusEvent → Prop
  | .stop => s.processing = false
  | .processSendingDeferred => s.processing = true ∧ s.stopping = true
  | _ => False

instance (s : Bus) (event : BusEvent) : Decidable (s.StopsNow event) := by
  cases event <;> unfold StopsNow <;> infer_instance

/-- The fragment is an ack, or is dropped at once, or no receiver with a stage in the queue
expires and none takes a fragment index above the last one. -/
def TakesSafely (s : Bus) (env : BusEnv) (m : FragmentMeta) : Prop :=
  m.type = .ack ∨ ¬s.Passes m ∨
    s.Settled env.now ∧ (s.Admits env m → m.fragmentIndex ≤ m.lastIndex)

instance (s : Bus) (env : BusEnv) (m : FragmentMeta) : Decidable (s.TakesSafely env m) :=
  inferInstanceAs (Decidable (_ ∨ _ ∨ _ ∧ (_ → _)))

end Conditions

section Live

/-- Every stage in the queue has a receiver that waits for it. -/
structure Live (s : Bus) : Prop where
  stage : ∀ id, s.queued id = true →
    ∃ r, s.receivers id = some r ∧ ∀ embedded, r.stage ≠ .checking embedded
  fault : s.fault ≠ some .pipeline

theorem live_start : Live start where
  stage _ h := nomatch h
  fault h := nomatch h

theorem Live.written (h : Live s) (id : ℕ)
    (hreceivers : ∀ j, j ≠ id → s'.receivers j = s.receivers j)
    (hqueued : ∀ j, j ≠ id → s'.queued j = s.queued j)
    (hself : s'.queued id = true →
      ∃ r, s'.receivers id = some r ∧ ∀ embedded, r.stage ≠ .checking embedded)
    (hfault : s'.fault ≠ some .pipeline) : Live s' := by
  refine ⟨fun j hj => ?_, hfault⟩
  by_cases hid : j = id
  · rw [hid] at hj ⊢
    exact hself hj
  · rw [hqueued j hid] at hj
    rw [hreceivers j hid]
    exact h.stage j hj

theorem Live.kept (h : Live s) (hreceivers : s'.receivers = s.receivers)
    (hqueued : s'.queued = s.queued) (hfault : s'.fault = s.fault) : Live s' where
  stage := by
    rw [hreceivers, hqueued]
    exact h.stage
  fault := hfault ▸ h.fault

theorem Live.not_queued (h : Live s) (hr : s.receivers id = some r) {embedded : Bytes}
    (hstage : r.stage = .checking embedded) : s.queued id = false := by
  cases hqueued : s.queued id with
  | false => rfl
  | true =>
      obtain ⟨r', hr', hother⟩ := h.stage id hqueued
      obtain rfl : r = r' := Option.some.inj (hr.symm.trans hr')
      exact absurd hstage (hother embedded)

end Live

section Cleanup

theorem Cleaned.current_eq (h : Cleaned now s s') (hs : Stored s) (hs' : Stored s')
    {sequence : UInt64} (hget : s'.mapGet sequence = some id) (hr : s'.receivers id = some r) :
    s.current now sequence = some r := by
  obtain ⟨k, hk, hsequence, hentry⟩ := hs'.entries _ (mapGet_eq_some hget)
  obtain rfl : r = k := Option.some.inj (hr.symm.trans hk)
  have hsame : s.receivers id = some r := by
    rcases h.receiver id with hsame | ⟨k, -, -, hk'⟩
    · exact hsame.symm.trans hr
    · rw [hr] at hk'
      split at hk'
      · rw [Option.some.inj hk'] at hentry
        cases hentry
      · cases hk'
  have hmem : (sequence, id) ∈ s.receiversMap := by
    have hmapped := (hs.receiver id r hsame).mapped hentry
    rwa [hsequence] at hmapped
  have hlive : ¬r.Expired now := by
    rintro ⟨hexpired, hover⟩
    have hlater := h.heap id ((hs'.receiver id r hr).heaped hexpired)
    rw [expiredTime, hr] at hlater
    exact hover hlater
  have hlookup : s.mapGet sequence = some id := by
    cases hfound : s.mapGet sequence with
    | none => exact absurd hmem (mapGet_eq_none hfound id)
    | some j => rw [hs.entry_unique (mapGet_eq_some hfound) hmem]
  simp [current, hlookup, hsame, hlive]

theorem Cleaned.current_eq_none (h : Cleaned now s s') (hs : Stored s) (hs' : Stored s')
    {sequence : UInt64} (hget : s'.mapGet sequence = none) : s.current now sequence = none := by
  rw [current, Option.filter_eq_none_iff]
  intro r hr
  obtain ⟨id, hfound, hr⟩ := Option.bind_eq_some_iff.mp hr
  obtain ⟨k, hk, hsequence, hentry⟩ := hs.entries _ (mapGet_eq_some hfound)
  obtain rfl : r = k := Option.some.inj (hr.symm.trans hk)
  have hexpired : r.Expired now := by
    rcases h.receiver id with hsame | ⟨k, hk', hexpired, -⟩
    · have hmem := (hs'.receiver id r (hsame.trans hr)).mapped hentry
      rw [show r.sequence = sequence from hsequence] at hmem
      exact absurd hmem (mapGet_eq_none hget id)
    · rwa [Option.some.inj (hr.symm.trans hk')]
  simpa using hexpired

theorem Cleaned.live (h : Cleaned now s s') (hs : Stored s) (hlive : Live s)
    (hsettled : s.Settled now) (hkept : Kept s s') : Live s' := by
  refine ⟨fun id hqueued => ?_, by rw [hkept.fault]; exact hlive.fault⟩
  rw [h.queued] at hqueued
  obtain ⟨r, hr, hstage⟩ := hlive.stage id hqueued
  rcases h.receiver id with hsame | ⟨k, hk, ⟨hexpired, hover⟩, -⟩
  · exact ⟨r, hsame.trans hr, hstage⟩
  · have hfree := hsettled id ((hs.receiver id k hk).heaped hexpired) (by rwa [expiredTime, hk])
    exact absurd (hfree.symm.trans hqueued) Bool.false_ne_true

end Cleanup

section Receiving

theorem ensured_slots (h : Stored s) (env : BusEnv) (m : FragmentMeta)
    (hensured : (s.ensureRecvCommand env m).2 = some id) :
    (match s.current env.now m.sequence with
      | some r => r.base.checkMeta m = true
      | none => env.acquire.isSome = true) ∧
    ∃ r, (s.ensureRecvCommand env m).1.receivers id = some r ∧
      r.base.receiver.fragments.length = m.lastIndex.toNat + 1 := by
  obtain ⟨hcleaned, hstored, -⟩ := h.cleaned env
  unfold ensureRecvCommand at hensured ⊢
  generalize s.cleanupExpiredReceivers env = s' at hcleaned hstored hensured ⊢
  dsimp only at hensured ⊢
  cases hget : s'.mapGet m.sequence with
  | some j =>
      simp only [hget] at hensured ⊢
      obtain ⟨r, hr, -⟩ := hstored.entries _ (mapGet_eq_some hget)
      have hr : s'.receivers j = some r := hr
      simp only [hr] at hensured ⊢
      cases hchecked : r.base.checkMeta m with
      | false => simp [hchecked] at hensured
      | true =>
          simp only [hchecked, if_true, Option.some.injEq] at hensured ⊢
          subst hensured
          rw [hcleaned.current_eq h hstored hget hr]
          refine ⟨hchecked, r, hr, ?_⟩
          rw [ModeReceiver.checkMeta, decide_eq_true_eq, Receiver.checkMeta, decide_eq_true_eq]
            at hchecked
          exact hchecked.2.2
  | none =>
      simp only [hget] at hensured ⊢
      rw [hcleaned.current_eq_none h hstored hget]
      cases hacquire : env.acquire with
      | none => simp [hacquire] at hensured
      | some j =>
          simp only [hacquire] at hensured ⊢
          split at hensured
          · cases hensured
          · rename_i hfree
            rw [if_neg hfree]
            obtain rfl : j = id := Option.some.inj hensured
            refine ⟨rfl, .init m, ?_, by simp [BusReceiver.init, ModeReceiver.init, Receiver.init,
              FragmentMeta.toMeta]⟩
            set s₂ : Bus := { s' with
              receivers := Function.update s'.receivers j (some (.init m))
              receiversMap := (m.sequence, j) :: s'.receiversMap } with hs₂
            change (s₂.opened j m).receivers j = _
            rw [(opened_eq s₂ j m).1, hs₂]
            exact Function.update_self ..

theorem Live.ensureRecvCommand (hlive : Live s) (h : Stored s) (env : BusEnv) (m : FragmentMeta)
    (hsettled : s.Settled env.now) : Live (s.ensureRecvCommand env m).1 := by
  obtain ⟨hcleaned, -, hkept⟩ := h.cleaned env
  have hlive' := hcleaned.live h hlive hsettled hkept
  unfold Bus.ensureRecvCommand
  generalize s.cleanupExpiredReceivers env = s' at hlive' ⊢
  dsimp only
  split
  · split
    · exact hlive'
    · split <;> exact hlive'
  · split
    · exact hlive'
    · rename_i id _
      split
      · exact hlive'
      · set s₂ : Bus := { s' with
          receivers := Function.update s'.receivers id (some (.init m))
          receiversMap := (m.sequence, id) :: s'.receiversMap } with hs₂
        change Live ((s₂.opened id m).enqueue id)
        obtain ⟨hreceivers, -, -, hqueued⟩ := opened_eq s₂ id m
        refine hlive'.written id (fun j hj => ?_) (fun j hj => ?_) (fun _ => ?_)
          (fault_opened s₂ id m hlive'.fault)
        · change (s₂.opened id m).receivers j = _
          rw [hreceivers]
          exact Function.update_of_ne hj ..
        · change Function.update (s₂.opened id m).queued id true j = _
          rw [Function.update_of_ne hj, hqueued]
        · refine ⟨.init m, ?_, fun _ hstage => by cases hstage⟩
          change (s₂.opened id m).receivers id = _
          rw [hreceivers]
          exact Function.update_self ..

theorem Live.addFragment (hlive : Live s) (h : Stored s) (hr : s.receivers id = some r)
    (m : FragmentMeta) (content : Bytes) : Live (s.addFragment id m content) := by
  obtain ⟨hreceivers, -, -, hother, hqueued, hkept⟩ := addFragment_eq hr m content
  refine hlive.written id (fun j hj => ?_) hother (fun hself => ?_)
    (by rw [hkept.fault]; exact hlive.fault)
  · rw [hreceivers, Function.update_of_ne hj]
  · rw [hreceivers, Function.update_self]
    refine ⟨_, rfl, ?_⟩
    rcases (h.receiver id r hr).filled.stage_addFragment m.toMeta content with hsame | ⟨-, hverify⟩
    · rw [hqueued hsame] at hself
      obtain ⟨k, hk, hstage⟩ := hlive.stage id hself
      rw [hsame, Option.some.inj (hr.symm.trans hk)]
      exact hstage
    · rw [hverify]
      exact fun _ => nofun

theorem dropped (h : ¬s.Passes m) (env : BusEnv) (content : Bytes) :
    s.fragmentTarget env m = none ∧ (s.recvFragmentData env m content = s ∨
      s.recvFragmentData env m content =
        { s with received := s.received ++ [(m.sequence, m.fragmentIndex.toNat)] }) := by
  unfold fragmentTarget recvFragmentData
  dsimp only
  cases htype : m.type with
  | reliable =>
      simp only [Passes, htype] at h
      by_cases hincomplete : s.incompleteReliableReceiver.isSome
      · simp only [hincomplete, if_true] at h ⊢
        simp [h]
      · simp only [hincomplete, Bool.false_eq_true, if_false] at h ⊢
        simp [not_not.mp h]
  | sequenced =>
      simp only [Passes, htype, not_not] at h
      simp [h]
  | unreliable => simp [Passes, htype] at h
  | ack => simp [Passes, htype] at h

theorem passed (h : s.Passes m) (env : BusEnv) (content : Bytes) :
    (s.fragmentTarget env m = match s.ensureRecvCommand env m with
      | (_, none) => none
      | (s, some id) => s.receivers id) ∧
    ∃ received, s.recvFragmentData env m content =
      match { s with received := received }.ensureRecvCommand env m with
      | (s, none) => s
      | (s, some id) => s.addFragment id m content := by
  unfold fragmentTarget recvFragmentData
  dsimp only
  cases htype : m.type with
  | reliable =>
      simp only [Passes, htype] at h
      by_cases hincomplete : s.incompleteReliableReceiver.isSome
      · rw [if_pos hincomplete] at h
        rw [if_pos rfl, if_pos hincomplete, if_neg (not_not.mpr h), if_pos rfl, if_pos hincomplete,
          if_neg (not_not.mpr h)]
        exact ⟨rfl, s.received, rfl⟩
      · rw [if_neg hincomplete] at h
        rw [if_pos rfl, if_neg hincomplete, if_neg h, if_pos rfl, if_neg hincomplete, if_neg h]
        exact ⟨rfl, s.received, rfl⟩
  | sequenced =>
      simp only [Passes, htype] at h
      rw [if_neg nofun, if_pos rfl, if_neg h, if_neg nofun, if_pos rfl, if_neg h]
      exact ⟨rfl, _, rfl⟩
  | unreliable => exact ⟨rfl, s.received, rfl⟩
  | ack => exact ⟨rfl, s.received, rfl⟩

theorem fragmentTarget_slots (h : Stored s) (env : BusEnv) (m : FragmentMeta)
    (htarget : s.fragmentTarget env m = some r) :
    s.Admits env m ∧ r.base.receiver.fragments.length = m.lastIndex.toNat + 1 := by
  by_cases hpasses : s.Passes m
  · rw [(passed hpasses env []).1] at htarget
    have hslots := fun id => @ensured_slots s id h env m
    generalize s.ensureRecvCommand env m = e at htarget hslots
    obtain ⟨s₂, o⟩ := e
    cases o with
    | none => cases htarget
    | some id =>
        obtain ⟨hadmits, k, hk, hlength⟩ := hslots id rfl
        rw [Option.some.inj (htarget.symm.trans hk)]
        exact ⟨⟨hpasses, hadmits⟩, hlength⟩
  · rw [(dropped hpasses env []).1] at htarget
    cases htarget

theorem Live.recvFragmentData (hlive : Live s) (h : Stored s) (env : BusEnv) (m : FragmentMeta)
    (content : Bytes) (hsettled : s.Passes m → s.Settled env.now) :
    Live (s.recvFragmentData env m content) := by
  by_cases hpasses : s.Passes m
  · obtain ⟨-, received, heq⟩ := passed hpasses env content
    rw [heq]
    set s₁ : Bus := { s with received := received } with hs₁
    have hstored : Stored s₁ := h.requeued rfl rfl rfl fun _ hj => .inl hj
    have hlive₁ : Live s₁ := hlive.kept rfl rfl rfl
    have hensured := hlive₁.ensureRecvCommand hstored env m (hsettled hpasses)
    have hslots := fun id => @ensured_slots s₁ id hstored env m
    have hlast : m.type = .reliable → s₁.incompleteReliableReceiver ≠ none →
        m.sequence = s₁.lastRecvReliableSequence := by
      intro htype hne
      simp only [Passes, htype] at hpasses
      rwa [if_pos (Option.isSome_iff_ne_none.mpr hne)] at hpasses
    have hstored₂ := (moves_ensureRecvCommand False hstored env m hlast).2.1
    generalize s₁.ensureRecvCommand env m = e at hensured hslots hstored₂ ⊢
    obtain ⟨s₂, o⟩ := e
    cases o with
    | none => exact hensured
    | some id =>
        obtain ⟨-, r, hr, -⟩ := hslots id rfl
        exact hensured.addFragment hstored₂ hr m content
  · rcases (dropped hpasses env content).2 with heq | heq
    · rw [heq]
      exact hlive
    · rw [heq]
      exact hlive.kept rfl rfl rfl

end Receiving

section Stages

theorem Live.receiverComplete (hlive : Live s) (env : BusEnv) (hr : s.receivers id = some r)
    (hfree : s.queued id = false)
    (hentries : r.expiredEntry = true ∨ r.sequenceEntry = true → r.bus = true)
    (hattached : r.canceled = false → r.bus = true ∧ r.sequenceEntry = true) :
    Live (s.receiverComplete env id) := by
  have hgone : ∀ s' : Bus, s'.receivers = Function.update s.receivers id none →
      s'.queued = s.queued → s'.fault ≠ some .pipeline → Live s' := by
    intro s' hreceivers hqueued hfault
    refine hlive.written id (fun j hj => ?_) (fun j _ => by rw [hqueued])
      (fun hself => ?_) hfault
    · rw [hreceivers, Function.update_of_ne hj]
    · rw [hqueued, hfree] at hself
      cases hself
  cases hcanceled : r.canceled with
  | true =>
      have hrelease : s.receiverComplete env id = s.release id := by
        simp only [Bus.receiverComplete, hr, hcanceled, if_true]
      rw [hrelease, release_eq hr hentries]
      exact hgone _ rfl rfl hlive.fault
  | false =>
      obtain ⟨hbus, hentry⟩ := hattached hcanceled
      obtain ⟨hreceivers, -, -, hqueued, hkept⟩ := receiverComplete_eq env hr hcanceled hbus hentry
      refine hgone _ hreceivers hqueued ?_
      rw [hkept.fault]
      exact fault_handleReceiverComplete env id r hlive.fault

theorem Live.modifyReceiver (hlive : Live s) (hfree : s.queued id = false)
    (f : BusReceiver → BusReceiver) : Live (s.modifyReceiver id f) := by
  refine hlive.written id (fun j hj => Function.update_of_ne hj ..) (fun _ _ => rfl)
    (fun hself => ?_) hlive.fault
  exact absurd (hfree.symm.trans hself) nofun

theorem Live.executeCurrentTask (hlive : Live s) (h : Stored s) (env : BusEnv)
    (hqueued : s.queued id = true) : Live (s.executeCurrentTask env id) := by
  obtain ⟨r, hr, -⟩ := hlive.stage id hqueued
  by_cases hstage : r.stage = .complete
  · obtain ⟨-, hattached⟩ := h.attached_of_complete hr hstage
    have hfree : Function.update s.queued id false id = false := Function.update_self ..
    have hlive₁ : Live { s with queued := Function.update s.queued id false } :=
      hlive.written id (fun _ _ => rfl) (fun j hj => Function.update_of_ne hj ..)
        (fun hself => absurd (hfree.symm.trans hself) nofun) hlive.fault
    rw [executeCurrentTask_of_complete env hr hstage]
    exact hlive₁.receiverComplete env hr hfree (fun _ => hattached.1) fun _ => hattached
  · obtain ⟨r', hstaged⟩ := staged_executeCurrentTask env hr hstage
    refine hlive.written id (fun j hj => ?_) hstaged.queued
      (fun hself => ⟨r', ?_, fun embedded hchecking => ?_⟩) ?_
    · rw [hstaged.receivers, Function.update_of_ne hj]
    · rw [hstaged.receivers, Function.update_self]
    · have hdue := hstaged.due
      rw [hchecking] at hdue
      exact absurd (hdue.symm.trans hself) nofun
    · rw [hstaged.kept.fault]
      exact hlive.fault

theorem Live.verifyChecksumComplete (hlive : Live s) (h : Stored s) (checksum : Checksum)
    (env : BusEnv) (hr : s.receivers id = some r) (htask : r.checksumVerifyTask = true)
    (canceled computed : Bool) :
    Live (s.verifyChecksumComplete checksum env id canceled computed) := by
  have hplaced := h.receiver id r hr
  obtain ⟨embedded, hstage⟩ := hplaced.task.mp htask
  have hfree := hlive.not_queued hr hstage
  unfold Bus.verifyChecksumComplete
  simp only [hr, hstage]
  have hwritten : ∀ r' : BusReceiver, (r'.canceled = false → r.canceled = false) →
      r'.bus = r.bus → r'.expiredEntry = r.expiredEntry → r'.sequenceEntry = r.sequenceEntry →
      Live ((s.modifyReceiver id fun _ => r').receiverComplete env id) := by
    intro r' hcanceled hbus hexpired hentry
    refine (hlive.modifyReceiver hfree _).receiverComplete env (r := r') ?_ hfree ?_ ?_
    · simp [Bus.modifyReceiver, hr]
    · rw [hbus, hexpired, hentry]
      cases hown : r.canceled with
      | false => exact fun _ => (hplaced.attached hown).1
      | true =>
          obtain ⟨hno, hno', -⟩ := hplaced.detached hown
          rw [hno, hno']
          simp
    · rw [hbus, hentry]
      exact fun hown => hplaced.attached (hcanceled hown)
  refine hwritten _ (fun hown => (Bool.or_eq_false_iff.mp hown).1) ?_ ?_ ?_ <;> split <;> rfl

end Stages

section Stop

theorem queued_release (s : Bus) (id : ℕ) : (s.release id).queued = s.queued := by
  unfold release require heapRemove mapRemove
  dsimp only
  repeat' split
  all_goals rfl

theorem queued_receiverComplete (s : Bus) (env : BusEnv) (id : ℕ) :
    (s.receiverComplete env id).queued = s.queued := by
  unfold receiverComplete
  split
  · rfl
  · split
    · exact queued_release s id
    · dsimp only
      rw [queued_release, (handleReceiverComplete_eq ..).2.2.2]
      unfold modifyReceiver require heapRemove mapRemove
      dsimp only
      repeat' split
      all_goals rfl

theorem queued_receiverCancel (s : Bus) (env : BusEnv) (id : ℕ) :
    (s.receiverCancel env id).queued = s.queued := by
  unfold receiverCancel
  split
  · rfl
  · split
    · rfl
    · dsimp only
      have hdetached : ∀ s₁ : Bus, s₁.queued = s.queued →
          (if ‹BusReceiver›.checksumVerifyTask = true then s₁
            else s₁.receiverComplete env id).queued = s.queued := by
        intro s₁ hs₁
        split
        · exact hs₁
        · rw [queued_receiverComplete, hs₁]
      apply hdetached
      unfold modifyReceiver heapRemove mapRemove
      dsimp only
      repeat' split
      all_goals rfl

theorem queued_stopReceivers (s : Bus) (env : BusEnv) :
    (s.stopReceivers env).queued = s.queued := by
  have hloop : ∀ (l : List (UInt64 × ℕ)) (s' : Bus), (l.foldl (fun s entry =>
      (s.modifyReceiver entry.2 fun r => { r with sequenceEntry := false }).receiverCancel env
        entry.2) s').queued = s'.queued := by
    intro l
    induction l with
    | nil => exact fun _ => rfl
    | cons e l ih =>
        intro s'
        rw [List.foldl_cons, ih, queued_receiverCancel]
        rfl
  exact hloop s.receiversMap s

theorem Idle.queued (hidle : s.Idle) (h : Stored s) (hlive : Live s) (id : ℕ) :
    s.queued id = false := by
  cases hqueued : s.queued id with
  | false => rfl
  | true =>
      obtain ⟨r, hr, hstage⟩ := hlive.stage id hqueued
      have hplaced := h.receiver id r hr
      have htask := hplaced.task_eq_false hstage
      have hcanceled : r.canceled = false := by
        cases hcanceled : r.canceled with
        | false => rfl
        | true => exact absurd (htask.symm.trans (hplaced.detached hcanceled).2.2) nofun
      have hfree := hidle _ (hplaced.mapped (hplaced.attached hcanceled).2)
      exact absurd (hfree.symm.trans hqueued) nofun

theorem Live.stopReceivers (hlive : Live s) (h : Stored s) (hidle : s.Idle) (env : BusEnv) :
    Live (s.stopReceivers env) := by
  refine ⟨fun id hqueued => ?_, by rw [(stopReceivers_eq h env).2]; exact hlive.fault⟩
  rw [queued_stopReceivers, hidle.queued h hlive] at hqueued
  cases hqueued

theorem Live.step (hlive : Live s) (h : Stored s) (checksum : Checksum) (i : BusInput)
    (hevent : ∀ m content, i.event ≠ .recvFragmentData m content)
    (hstop : s.StopsNow i.event → s.Idle) : Live (s.step checksum i) := by
  obtain ⟨env, event⟩ := i
  unfold Bus.step
  split
  · exact hlive
  · cases event with
    | recvFragmentData m content => exact absurd rfl (hevent m content)
    | stage id =>
        dsimp only
        split
        · rename_i hqueued
          exact hlive.executeCurrentTask h env hqueued
        · exact hlive
    | verifyChecksumComplete id canceled computed =>
        dsimp only
        cases hr : s.receivers id with
        | none => exact hlive
        | some r =>
            dsimp only
            split
            · rename_i htask
              exact hlive.verifyChecksumComplete h checksum env hr htask canceled computed
            · exact hlive
    | processSending => exact hlive.kept rfl rfl rfl
    | processSendingDeferred =>
        dsimp only
        split
        · rename_i hprocessing
          unfold processSendingDeferred
          dsimp only
          have hcleared : Stored { s with processing := false } :=
            h.requeued rfl rfl rfl fun _ hj => .inl hj
          have hlive' : Live { s with processing := false } := hlive.kept rfl rfl rfl
          split
          · rename_i hstopping
            have hidle := hstop ⟨hprocessing, hstopping⟩
            exact hlive'.stopReceivers hcleared hidle env
          · exact hlive'
        · exact hlive
    | stop =>
        dsimp only
        unfold stop
        split
        · exact hlive.kept rfl rfl rfl
        · rename_i hprocessing
          exact hlive.stopReceivers h (hstop (Bool.eq_false_iff.mpr hprocessing)) env

end Stop

end Bus

section Decoding

theorem calcPackedUint64Bytes_readPackedUint64Unsafe (p : Payload) {n : ℕ} (hn : n ≤ 2) :
    calcPackedUint64Bytes (p.readPackedUint64Unsafe n).1 ≤ 2 := by
  apply calcPackedUint64Bytes_le_two
  have hlt : (LittleEndian.fromLittleEndian 0 0 (load p.memory p.address n)).toNat <
      256 ^ (0 + (load p.memory p.address n).length) :=
    LittleEndian.toNat_fromLittleEndian_lt (by rw [length_load]; omega) (by decide)
  rw [length_load, Nat.zero_add] at hlt
  exact hlt.trans_le (Nat.pow_le_pow_right (by decide) hn)

theorem encodable_of_metaDecode {view content : BufferView} {m : FragmentMeta}
    (h : metaDecode view = some (m, content)) : m.encodable = true := by
  have hbit : ∀ byte : UInt8, (byte &&& 0x01).toNat + 1 ≤ 2 := fun byte => by
    rw [UInt8.toNat_and]
    exact Nat.succ_le_succ Nat.and_le_right
  unfold metaDecode at h
  split at h
  · cases h
  · dsimp only at h
    split at h
    · cases h
    · simp only [Option.some.injEq, Prod.mk.injEq] at h
      obtain ⟨rfl, -⟩ := h
      simp only [FragmentMeta.encodable, decide_eq_true_eq]
      exact ⟨calcPackedUint64Bytes_readPackedUint64Unsafe _ (hbit _),
        calcPackedUint64Bytes_readPackedUint64Unsafe _ (hbit _),
        calcPackedUint64Bytes_readPackedUint64Unsafe _ (hbit _)⟩

end Decoding

namespace EndpointBus

variable {b : EndpointBus} {m : FragmentMeta}

/-- The bus can process further fragments: no assertion has failed, its map finds the receivers of
the list and no others, the list, its heap and its reliable receiver agree, and every stage in the
queue has its receiver. -/
structure Operational (b : EndpointBus) : Prop where
  running : b.running = true
  mapped : ∀ sequence, b.receiversMap.get sequence = b.receiving.mapGet sequence
  consistent : b.receiving.Consistent
  stages : ∀ id, b.receiving.queued id = true → (b.receiving.receivers id).isSome = true

/-- What the steps of a bus keep. -/
structure Sound (b : EndpointBus) : Prop where
  mirrors : b.receiversMap.Mirrors b.receiving.receiversMap
  buckets : 16 ≤ b.receiversMap.map.nbuckets
  stored : b.receiving.Stored
  reliable : b.receiving.Reliable
  live : b.receiving.Live
  fault : b.fault = none

theorem sound_start (overLoad : ℕ → ℕ → Bool) : (start overLoad).Sound :=
  ⟨ReceiverMap.mirrors_create overLoad, (ReceiverMap.nbuckets_create overLoad).ge,
    Bus.stored_start, Bus.reliable_start, Bus.live_start, rfl⟩

theorem Sound.operational (h : b.Sound) : b.Operational where
  running := by
    simp [running, h.fault, h.reliable.fault_eq_none h.live.fault]
  mapped := h.mirrors.get_eq
  consistent := h.stored.consistent h.reliable
  stages id hqueued := by
    obtain ⟨r, hr, -⟩ := h.live.stage id hqueued
    rw [hr]
    rfl

/-- The receiver that is opened for the fragment, if there is one, displaces no other. -/
def KeepsReceivers (b : EndpointBus) (env : BusEnv) (m : FragmentMeta) : Prop :=
  b.receiversMap.MovesNothing (b.receiving.recvFragmentDataCalls env m)

instance (b : EndpointBus) (env : BusEnv) (m : FragmentMeta) : Decidable (b.KeepsReceivers env m) :=
  inferInstanceAs (Decidable (b.receiversMap.MovesNothing _))

theorem keepsReceivers_of_few (hmirrors : b.receiversMap.Mirrors b.receiving.receiversMap)
    (hbuckets : 16 ≤ b.receiversMap.map.nbuckets) (hstored : b.receiving.Stored)
    (hload : ∀ size nbuckets, size ≤ 12 → 16 ≤ nbuckets →
      b.receiversMap.overLoad size nbuckets = false)
    (hfew : b.receiving.receiversMap.length < 12) (env : BusEnv) (m : FragmentMeta) :
    b.KeepsReceivers env m := by
  have hone := b.receiving.countP_adds_recvFragmentDataCalls env m
  exact hmirrors.movesNothing_of_few hstored.keys hload hbuckets (by omega)

theorem fault_recvFragmentData (hstored : b.receiving.Stored) (hfault : b.fault = none)
    (env : BusEnv) (content : Bytes) (hencodable : m.encodable = true) :
    (b.recvFragmentData env m content).fault = none ↔ b.KeepsReceivers env m ∧
      ∀ r, b.receiving.fragmentTarget env m = some r → m.fragmentIndex ≤ m.lastIndex := by
  unfold recvFragmentData KeepsReceivers
  by_cases hkeeps : b.receiversMap.MovesNothing (b.receiving.recvFragmentDataCalls env m)
  swap
  · simp [hkeeps]
  simp only [hkeeps, hencodable, decide_true, Bool.not_true, Bool.and_false, Bool.false_eq_true,
    if_false, true_and]
  cases htarget : b.receiving.fragmentTarget env m with
  | none => simp [hfault]
  | some r =>
      obtain ⟨-, hlength⟩ := Bus.fragmentTarget_slots hstored env m htarget
      simp only [Option.any_some, hlength, decide_eq_true_eq, Option.some.injEq, forall_eq',
        UInt64.le_iff_toNat_le]
      split
      · exact iff_of_false nofun (by omega)
      · exact iff_of_true hfault (by omega)

theorem mirrors_recvFragmentData (hmirrors : b.receiversMap.Mirrors b.receiving.receiversMap)
    (hstored : b.receiving.Stored) {env : BusEnv} (hkeeps : b.KeepsReceivers env m)
    (content : Bytes) : (b.recvFragmentData env m content).receiversMap.Mirrors
      (b.recvFragmentData env m content).receiving.receiversMap := by
  change (b.receiversMap.write (b.receiving.recvFragmentDataCalls env m)).Mirrors
    (b.receiving.recvFragmentData env m content).receiversMap
  rw [Bus.receiversMap_recvFragmentData hstored]
  exact hmirrors.write hstored.keys hkeeps

theorem Sound.receptionExecute (h : b.Sound) (env : BusEnv) (content : Bytes)
    (hencodable : m.encodable = true) (hsafe : b.receiving.TakesSafely env m)
    (hkeeps : m.type ≠ .ack → b.KeepsReceivers env m) :
    (b.receptionExecute env m content).Sound := by
  unfold EndpointBus.receptionExecute
  split
  · unfold recvFragmentAck
    split
    · exact h
    · split
      · exact h
      · exact ⟨h.mirrors, h.buckets, h.stored, h.reliable, h.live, h.fault⟩
  · rename_i htype
    refine ⟨mirrors_recvFragmentData h.mirrors h.stored (hkeeps htype) content,
      h.buckets.trans (b.receiversMap.nbuckets_le_write _),
      h.stored.recvFragmentData env m content,
      h.reliable.recvFragmentData h.stored env m content,
      h.live.recvFragmentData h.stored env m content fun hpasses => ?_,
      (fault_recvFragmentData h.stored h.fault env content hencodable).mpr
        ⟨hkeeps htype, fun r htarget => ?_⟩⟩
    · rcases hsafe with hack | hnot | ⟨hsettled, -⟩
      · exact absurd hack htype
      · exact absurd hpasses hnot
      · exact hsettled
    · obtain ⟨hadmits, -⟩ := Bus.fragmentTarget_slots h.stored env m htarget
      rcases hsafe with hack | hnot | ⟨-, hindex⟩
      · exact absurd hack htype
      · exact absurd hadmits.1 hnot
      · exact hindex hadmits

theorem Sound.step (h : b.Sound) (checksum : Checksum) (i : BusInput)
    (hevent : ∀ m content, i.event ≠ .recvFragmentData m content)
    (hcalm : ¬b.receiving.CancelsReliable i)
    (hstop : b.receiving.StopsNow i.event → b.receiving.Idle) :
    (b.step checksum i).Sound := by
  obtain ⟨hstored, hreliable⟩ := h.stored.step checksum i
  have hmoves := b.receiversMap.movesNothing_of_shut
    (b.receiving.countP_adds_mapCalls hevent)
  exact ⟨h.mirrors.step h.stored checksum hmoves,
    h.buckets.trans (b.receiversMap.nbuckets_le_write _), hstored, hreliable h.reliable hcalm,
    h.live.step h.stored checksum i hevent hstop, h.fault⟩

end EndpointBus

namespace Endpoint

variable {e : Endpoint}

/-- The fragment that runs is taken safely and its receiver displaces no other, the platform cancels
no worker of a reliable receiver of its own accord, and a bus stops when no stage of it is in the
queue. -/
def Harmless (e : Endpoint) (i : EndpointInput) : Prop :=
  match i.event with
  | .reception =>
      ∀ r ∈ e.receptions.head?, ∀ b ∈ e.bus r.bus, b.receiving.TakesSafely i.env r.info ∧
        (r.info.type ≠ .ack → b.KeepsReceivers i.env r.info)
  | .bus bus event =>
      ∀ b ∈ e.bus bus, ¬b.receiving.CancelsReliable ⟨i.env, event⟩ ∧
        (b.receiving.StopsNow event → b.receiving.Idle)
  | _ => True

instance (e : Endpoint) (i : EndpointInput) : Decidable (e.Harmless i) :=
  match i with
  | ⟨env, .reception⟩ => inferInstanceAs (Decidable (∀ r ∈ e.receptions.head?, ∀ b ∈ e.bus r.bus,
      b.receiving.TakesSafely env r.info ∧ (r.info.type ≠ .ack → b.KeepsReceivers env r.info)))
  | ⟨env, .bus bus event⟩ => inferInstanceAs (Decidable (∀ b ∈ e.bus bus,
      ¬b.receiving.CancelsReliable ⟨env, event⟩ ∧
        (b.receiving.StopsNow event → b.receiving.Idle)))
  | ⟨_, .recv ..⟩ | ⟨_, .dispatcher ..⟩ | ⟨_, .ready _⟩ => inferInstanceAs (Decidable True)

/-- Every bus is sound and every reception in the queue comes from the decoder. -/
structure Sound (e : Endpoint) : Prop where
  buses : ∀ bus b, e.bus bus = some b → b.Sound
  receptions : ∀ r ∈ e.receptions, r.info.encodable = true

theorem bus_modifyBus (e : Endpoint) (f : EndpointBus → EndpointBus) (bus bus' : Option ℕ) :
    (e.modifyBus f bus).bus bus' = if bus = bus' then (e.bus bus').map f else e.bus bus' := by
  cases bus with
  | none => cases bus' <;> simp [modifyBus, Endpoint.bus]
  | some index =>
      cases bus' with
      | none => simp [modifyBus, Endpoint.bus]
      | some index' =>
          simp only [modifyBus, Endpoint.bus, List.getElem?_modify, Option.some.injEq]
          by_cases hindex : index = index' <;> simp [hindex]

theorem receptions_modifyBus (e : Endpoint) (f : EndpointBus → EndpointBus) (bus : Option ℕ) :
    (e.modifyBus f bus).receptions = e.receptions := by
  cases bus <;> rfl

theorem sound_start (maxFragments nbuses : ℕ) (overLoad : ℕ → ℕ → Bool) :
    (start maxFragments nbuses overLoad).Sound where
  buses bus b hb := by
    cases bus with
    | none =>
        rw [← Option.some.inj hb]
        exact EndpointBus.sound_start overLoad
    | some index =>
        rw [List.eq_of_mem_replicate (List.mem_of_getElem? hb)]
        exact EndpointBus.sound_start overLoad
  receptions _ hr := nomatch hr

theorem Sound.modifyBus (h : e.Sound) {bus : Option ℕ} {f : EndpointBus → EndpointBus}
    (hf : ∀ b, e.bus bus = some b → (f b).Sound) : (e.modifyBus f bus).Sound := by
  refine ⟨fun bus' b hb => ?_, by rw [receptions_modifyBus]; exact h.receptions⟩
  rw [bus_modifyBus] at hb
  split at hb
  · rename_i hbus
    subst hbus
    obtain ⟨b', hb', rfl⟩ := Option.map_eq_some_iff.mp hb
    exact hf b' hb'
  · exact h.buses bus' b hb

theorem Sound.recv (h : e.Sound) (view : BufferView) (acquired : Bool) :
    (e.recv view acquired).Sound := by
  unfold Endpoint.recv
  split
  · exact h
  · rename_i m content hdecode
    split
    · exact h
    · split
      · exact h
      · split
        · refine ⟨h.buses, fun r hr => ?_⟩
          rcases List.mem_append.mp hr with hr | hr
          · exact h.receptions r hr
          · rw [List.mem_singleton.mp hr]
            exact encodable_of_metaDecode hdecode
        · exact h

theorem Sound.step (h : e.Sound) (checksum : Checksum) (i : EndpointInput)
    (hharmless : e.Harmless i) : (e.step checksum i).Sound := by
  obtain ⟨env, event⟩ := i
  cases event with
  | recv view acquired => exact h.recv view acquired
  | reception =>
      unfold Endpoint.step
      dsimp only
      cases hreceptions : e.receptions with
      | nil => exact h
      | cons r receptions =>
          have hencodable := h.receptions r (by rw [hreceptions]; exact List.mem_cons_self)
          have hsafe : ∀ b, e.bus r.bus = some b → b.receiving.TakesSafely env r.info ∧
              (r.info.type ≠ .ack → b.KeepsReceivers env r.info) :=
            fun b hb => hharmless r (by rw [hreceptions]; rfl) b hb
          have hrest : ({ e with receptions := receptions } : Endpoint).Sound :=
            ⟨h.buses, fun r' hr' => h.receptions r' (hreceptions ▸ List.mem_cons_of_mem _ hr')⟩
          refine hrest.modifyBus fun b hb => ?_
          split
          · exact (h.buses r.bus b hb).receptionExecute env r.content hencodable (hsafe b hb).1
              (hsafe b hb).2
          · exact h.buses r.bus b hb
  | bus bus event =>
      have hstep : ∀ event', event' = event → (∀ m content, event' ≠ .recvFragmentData m content) →
          (e.modifyBus (fun b =>
            if b.running then b.step checksum ⟨env, event'⟩ else b) bus).Sound := by
        rintro event' rfl hevent
        refine h.modifyBus fun b hb => ?_
        obtain ⟨hcalm, hstop⟩ := hharmless b hb
        split
        · exact (h.buses bus b hb).step checksum _ hevent hcalm hstop
        · exact h.buses bus b hb
      cases event with
      | recvFragmentData m content => exact h
      | stage id => exact hstep _ rfl fun _ _ => nofun
      | verifyChecksumComplete id canceled computed => exact hstep _ rfl fun _ _ => nofun
      | processSending => exact hstep _ rfl fun _ _ => nofun
      | processSendingDeferred => exact hstep _ rfl fun _ _ => nofun
      | stop => exact hstep _ rfl fun _ _ => nofun
  | dispatcher bus dispatcher =>
      exact Sound.modifyBus h (f := fun b => { b with incompleteReliableDispatcher := dispatcher })
        fun b hb =>
          have hb := h.buses bus b hb
          ⟨hb.mirrors, hb.buckets, hb.stored, hb.reliable, hb.live, hb.fault⟩
  | ready ready => exact ⟨h.buses, h.receptions⟩

/-- In every run whose fragments are taken safely, with the datagrams, the receptions, the
stages, the completions and the stops in any order. -/
theorem operational_run (checksum : Checksum) (maxFragments nbuses : ℕ) (overLoad : ℕ → ℕ → Bool)
    (is : List EndpointInput)
    (hharmless : Along (step checksum) Harmless (start maxFragments nbuses overLoad) is)
    (bus : Option ℕ) (b : EndpointBus)
    (hb : (run (step checksum) (start maxFragments nbuses overLoad) is).bus bus = some b) :
    b.Operational := by
  have hrun := invariant_run (I := Sound) (fun e i he hi => he.step checksum i hi)
    (sound_start maxFragments nbuses overLoad) hharmless
  exact (hrun.buses bus b hb).operational

/-- A datagram arrives and its reception runs; the pool has receiver `id`. -/
def received (id : ℕ) (datagram : Bytes) : List EndpointInput :=
  [⟨.plain id, .recv (viewOf (fun _ => 0) datagram) true⟩, ⟨.plain id, .reception⟩]

/-- A reliable parcel of one fragment on the system bus; the bus stops behind it. -/
def reliableParcel : List EndpointInput :=
  received 1 [0x80, 0, 0, 0, 7, 1, 2, 3] ++ [⟨.plain 1, .bus none (.stage 1)⟩,
    ⟨.plain 1, .bus none (.stage 1)⟩, ⟨.plain 1, .bus none .stop⟩]

theorem operational_reliableParcel : ∃ b,
    (run (step Channel.sampleChecksum) (start 4 0 Utils.Map.uint64Options.overLoad)
      reliableParcel).bus none = some b ∧ b.Operational :=
  ⟨_, rfl, operational_run Channel.sampleChecksum 4 0 Utils.Map.uint64Options.overLoad
    reliableParcel (by decide +kernel) none _ rfl⟩

/-- The fragment with index 1 of a parcel whose last index is 0. -/
theorem not_operational_indexAboveLast :
    ¬ ∀ (checksum : Checksum) (maxFragments nbuses : ℕ) (overLoad : ℕ → ℕ → Bool)
      (is : List EndpointInput) (bus : Option ℕ) (b : EndpointBus),
      (run (step checksum) (start maxFragments nbuses overLoad) is).bus bus = some b →
        b.Operational := by
  intro h
  have hrunning := (h Channel.sampleChecksum 4 0 Utils.Map.uint64Options.overLoad
    (received 1 [0x00, 0, 1, 0, 7]) none _ rfl).running
  have hfailed : ((run (step Channel.sampleChecksum) (start 4 0 Utils.Map.uint64Options.overLoad)
      (received 1 [0x00, 0, 1, 0, 7])).systemBus).running = false := by
    decide +kernel
  exact absurd (hfailed.symm.trans hrunning) nofun

/-- Thirteen parcels in two fragments each, of which the first ones arrive: the map has grown for
the last receiver, and has moved another one. -/
example : ((run (step Channel.sampleChecksum) (start 4 0 Utils.Map.uint64Options.overLoad)
    ((List.range 13).flatMap fun n =>
      received n [0x00, 0, 0, 1, UInt8.ofNat (n + 16), 1])).systemBus).fault = some .map := by
  decide +kernel

end Endpoint

end Delivery

end PomeloUdp
