import PomeloUdp.Delivery.ReliablePart

/-!
# What a bus in every mode keeps for its reliable parcel

No stage of a receiver is lost (`Pending`), and the receivers of the other modes have sequence
numbers of their own (`Foreign`). So a receiver can be opened for the next reliable parcel whenever
the pool has one (`opensReceiver_of_foreign`), and the stages that the reliable receiver has left
are run like those of a `ReceivingBus` (`drained`).
-/

namespace PomeloUdp

namespace Delivery

open Machine

namespace Bus

variable {s s' : Bus} {env : BusEnv} {id : ℕ} {r r' : BusReceiver} {m : FragmentMeta}

section Each

/-- The mode, the sequence number and the stage of every receiver meet `Q`, with whether the queue
has a stage of it. -/
def Each (Q : FragmentType → UInt64 → ReceiverStage → Bool → Prop) (s : Bus) : Prop :=
  ∀ id r, s.receivers id = some r → Q r.type r.sequence r.stage (s.queued id)

variable {Q : FragmentType → UInt64 → ReceiverStage → Bool → Prop}

theorem Each.updated (h : Each Q s) (id : ℕ) {o : Option BusReceiver}
    (hreceivers : s'.receivers = Function.update s.receivers id o)
    (hqueued : ∀ j, j ≠ id → s'.queued j = s.queued j)
    (hself : ∀ r, o = some r → Q r.type r.sequence r.stage (s'.queued id)) : Each Q s' := by
  intro j r hr
  rw [hreceivers] at hr
  by_cases hj : j = id
  · subst hj
    rw [Function.update_self] at hr
    exact hself r hr
  · rw [Function.update_of_ne hj] at hr
    rw [hqueued j hj]
    exact h j r hr

theorem Each.cleanup (h : Each Q s) (hs : Stored s) (env : BusEnv) :
    Each Q (s.cleanupExpiredReceivers env) := by
  obtain ⟨hcleaned, -, -⟩ := hs.cleaned env
  intro id r hr
  rw [hcleaned.queued]
  rcases hcleaned.receiver id with hsame | ⟨k, hk, -, hk'⟩
  · exact h id r (hsame.symm.trans hr)
  · rw [hr] at hk'
    split at hk'
    · rw [Option.some.inj hk']
      exact h id k hk
    · cases hk'

theorem Each.recvFragmentData (h : Each Q s) (hs : Stored s) (env : BusEnv) (m : FragmentMeta)
    (content : Bytes)
    (hadd : ∀ (s : Bus) (id : ℕ) (r : BusReceiver), s.receivers id = some r →
      Q r.type r.sequence r.stage (s.queued id) →
        Q r.type r.sequence (r.modify fun receiver => receiver.addFragment m.toMeta content).stage
          ((s.addFragment id m content).queued id))
    (hnew : Q m.type m.sequence .waitFragments true) :
    Each Q (s.recvFragmentData env m content) := by
  obtain ⟨s₁, ⟨received, rfl⟩, houtcome⟩ := recvFragmentData_outcomes hs env m content
  have h₁ : Each Q { s with received := received } := h
  have hcleaned := h₁.cleanup (hs.requeued rfl rfl rfl fun _ hj => .inl hj) env
  have hadded : ∀ {s : Bus} {id : ℕ} {r : BusReceiver}, Each Q s → s.receivers id = some r →
      Each Q (s.addFragment id m content) := by
    intro s id r h hr
    obtain ⟨hreceivers, -, -, hother, -⟩ := addFragment_eq hr m content
    refine h.updated id hreceivers hother fun r' hr' => ?_
    have hsequence : (r.modify fun receiver =>
        receiver.addFragment m.toMeta content).sequence = r.sequence :=
      r.base.receiver.sequence_addFragment m.toMeta content
    rw [← Option.some.inj hr', hsequence]
    exact hadd s id r hr (h id r hr)
  rcases houtcome with heq | heq | ⟨id, r, hr, heq⟩ | ⟨id, -, heq⟩
  · rw [heq]
    exact h₁
  · rw [heq]
    exact hcleaned
  · rw [heq]
    exact hadded hcleaned hr
  · rw [heq]
    obtain ⟨hreceivers, hqueued⟩ := inserted_eq
      (cleanupExpiredReceivers { s with received := received } env) id m
    have hinserted := congrFun hreceivers id
    rw [Function.update_self] at hinserted
    refine hadded (hcleaned.updated id hreceivers (fun j hj => ?_) fun r hr => ?_) hinserted
    · rw [hqueued, Function.update_of_ne hj]
    · rw [hqueued, Function.update_self, ← Option.some.inj hr]
      exact hnew

end Each

section Stages

/-- A stage of a receiver writes it, and what follows is in the queue or with a worker; or it
releases the receiver with no stage left. The assertion of the pipeline holds. -/
theorem executeCurrentTask_eq (h : Stored s) (env : BusEnv) (hr : s.receivers id = some r) :
    ∃ o, (s.executeCurrentTask env id).receivers = Function.update s.receivers id o ∧
      (∀ j, j ≠ id → (s.executeCurrentTask env id).queued j = s.queued j) ∧
      (∀ r', o = some r' → r'.type = r.type ∧ r'.sequence = r.sequence ∧
        Due r'.stage ((s.executeCurrentTask env id).queued id)) ∧
      (o = none → (s.executeCurrentTask env id).queued id = false) ∧
      (s.fault ≠ some .pipeline → (s.executeCurrentTask env id).fault ≠ some .pipeline) := by
  by_cases hstage : r.stage = .complete
  · obtain ⟨hcanceled, hbus, hentry⟩ := h.attached_of_complete hr hstage
    set s₁ : Bus := { s with queued := Function.update s.queued id false }
    obtain ⟨hreceivers, -, -, hqueued, hkept⟩ :=
      receiverComplete_eq (s := s₁) env hr hcanceled hbus hentry
    rw [executeCurrentTask_of_complete env hr hstage]
    refine ⟨none, hreceivers, fun j hj => ?_, by simp, fun _ => ?_, fun hno => ?_⟩
    · rw [hqueued]
      exact Function.update_of_ne hj ..
    · rw [hqueued]
      exact Function.update_self ..
    · rw [hkept.fault]
      exact fault_handleReceiverComplete env id r hno
  · obtain ⟨r', hstaged⟩ := staged_executeCurrentTask env hr hstage
    refine ⟨some r', hstaged.receivers, hstaged.queued, ?_, by simp, fun hno => ?_⟩
    · rintro k ⟨⟩
      exact ⟨hstaged.type, hstaged.sequence, hstaged.due⟩
    · rw [hstaged.kept.fault]
      exact hno

theorem verifyChecksumComplete_eq (h : Stored s) (checksum : Checksum) (env : BusEnv)
    (hr : s.receivers id = some r) (htask : r.checksumVerifyTask = true)
    (canceled computed : Bool) :
    (s.verifyChecksumComplete checksum env id canceled computed).receivers =
        Function.update s.receivers id none ∧
      (s.verifyChecksumComplete checksum env id canceled computed).queued = s.queued ∧
      (s.fault ≠ some .pipeline →
        (s.verifyChecksumComplete checksum env id canceled computed).fault ≠ some .pipeline) := by
  have hplaced := h.receiver id r hr
  obtain ⟨embedded, hstage⟩ := hplaced.task.mp htask
  cases hcanceled : canceled || r.canceled with
  | true =>
      rw [verifyChecksumComplete_eq_of_canceled h checksum env hr hstage hcanceled]
      exact ⟨rfl, rfl, fun hno => hno⟩
  | false =>
      obtain ⟨hbus, hentry⟩ := hplaced.attached (Bool.or_eq_false_iff.mp hcanceled).2
      rw [verifyChecksumComplete_eq_of_computed checksum env hr hstage hcanceled]
      have hself : (s.modifyReceiver id (.verified checksum embedded computed)).receivers id =
          some (r.verified checksum embedded computed) := by
        simp [modifyReceiver, hr]
      obtain ⟨hreceivers, -, -, hqueued, hkept⟩ := receiverComplete_eq env hself rfl hbus hentry
      refine ⟨hreceivers.trans (by simp [modifyReceiver]), hqueued, fun hno => ?_⟩
      rw [hkept.fault]
      exact fault_handleReceiverComplete env id (r.verified checksum embedded computed) hno

/-- No stage of a receiver is lost, and none is in the queue beside a worker. -/
def Pending (s : Bus) : Prop := Each (fun _ _ stage queued => Due stage queued) s

theorem due_addFragment (hr : s.receivers id = some r) (m : FragmentMeta) (content : Bytes)
    (hdue : Due r.stage (s.queued id)) :
    Due (r.modify fun receiver => receiver.addFragment m.toMeta content).stage
      ((s.addFragment id m content).queued id) := by
  obtain ⟨-, -, -, -, hqueued, -⟩ := addFragment_eq hr m content
  by_cases hstage : (r.modify fun receiver => receiver.addFragment m.toMeta content).stage = r.stage
  · rw [hstage, hqueued hstage]
    exact hdue
  · have hyes : (s.addFragment id m content).queued id = true := by
      unfold Bus.addFragment
      simp only [hr]
      rw [if_pos hstage]
      exact Function.update_self ..
    rw [hyes]
    -- the stage that follows is none of a worker
    rcases r.base.receiver.addFragment_cases m.toMeta content with
      ⟨-, hsame⟩ | ⟨-, -, -, -, -, hnext⟩
    · exact absurd (congrArg Receiver.stage hsame) hstage
    · change Due (r.base.receiver.addFragment m.toMeta content).stage true
      rw [hnext]
      change (r.base.receiver.addFragment m.toMeta content).stage ≠ r.base.receiver.stage at hstage
      rw [hnext] at hstage
      split at hstage
      · rename_i hlast
        rw [if_pos hlast]
        unfold Receiver.next
        split <;> rfl
      · exact absurd rfl hstage

/-- Every receiver of another mode has a sequence number that meets `P`. -/
def Foreign (P : UInt64 → Prop) (s : Bus) : Prop :=
  Each (fun type sequence _ _ => type ≠ .reliable → P sequence) s

variable {P : UInt64 → Prop}

theorem Foreign.mono {Q : UInt64 → Prop} (h : Foreign P s)
    (hPQ : ∀ sequence, P sequence → Q sequence) : Foreign Q s :=
  fun id r hr htype => hPQ _ (h id r hr htype)

theorem fault_recvFragmentData_ne (h : Stored s) (env : BusEnv) (m : FragmentMeta) (content : Bytes)
    (hfault : s.fault ≠ some .pipeline) :
    (s.recvFragmentData env m content).fault ≠ some .pipeline := by
  obtain ⟨s₁, ⟨received, rfl⟩, houtcome⟩ := recvFragmentData_outcomes h env m content
  have hstored : Stored { s with received := received } :=
    h.requeued rfl rfl rfl fun _ hj => .inl hj
  obtain ⟨-, -, hkept⟩ := hstored.cleaned env
  have hcleaned : (cleanupExpiredReceivers { s with received := received } env).fault ≠
      some .pipeline := by
    rw [hkept.fault]
    exact hfault
  rcases houtcome with heq | heq | ⟨id, r, hr, heq⟩ | ⟨id, -, heq⟩
  · rw [heq]
    exact hfault
  · rw [heq]
    exact hcleaned
  · rw [heq, (addFragment_eq hr m content).2.2.2.2.2.fault]
    exact hcleaned
  · have hnew := congrFun (inserted_eq
      (cleanupExpiredReceivers { s with received := received } env) id m).1 id
    rw [Function.update_self] at hnew
    rw [heq, (addFragment_eq hnew m content).2.2.2.2.2.fault]
    exact fault_opened _ id m hcleaned

end Stages

section Opening

/-- The pool has a receiver, and the sequence number is none of another mode: the bus can open a
receiver for its next reliable parcel. -/
theorem opensReceiver_of_foreign {P : UInt64 → Prop} (h : Stored s) (hreliable : Reliable s)
    (hforeign : Foreign P s) (hP : ¬P m.sequence) (hnone : s.incompleteReliableReceiver = none)
    (hacquire : ∃ id ∈ env.acquire, s.receivers id = none) : s.opensReceiver env m = true := by
  obtain ⟨hcleaned, hstored, hkept⟩ := h.cleaned env
  have hforeign' := Each.cleanup hforeign h env
  have hreliable' := hreliable.cleanup h env
  have hget : (s.cleanupExpiredReceivers env).mapGet m.sequence = none := by
    by_contra hsome
    obtain ⟨id, hget⟩ := Option.ne_none_iff_exists'.mp hsome
    obtain ⟨r, hr, hsequence, hentry⟩ := hstored.entries _ (mapGet_eq_some hget)
    by_cases htype : r.type = .reliable
    · exact absurd ((hkept.incomplete.trans hnone).symm.trans
        ((hreliable'.incomplete id).mpr ⟨r, hr, htype, hentry⟩)) nofun
    · exact hP ((show r.sequence = m.sequence from hsequence) ▸ hforeign' id r hr htype)
  obtain ⟨id, hid, hfree⟩ := hacquire
  have hfree' : (s.cleanupExpiredReceivers env).receivers id = none := by
    rcases hcleaned.receiver id with hsame | ⟨r, hr, -⟩
    · exact hsame.trans hfree
    · rw [hfree] at hr
      cases hr
  simp [opensReceiver, hget, Option.mem_def.mp hid, hfree']

theorem countP_adds_of_not_needs (h : Stored s) (hreliable : Reliable s) (env : BusEnv)
    (htype : m.type = .reliable) (hneeds : ¬s.reliablePart.Needs m.sequence) :
    (s.recvFragmentDataCalls env m).countP Utils.Map.adds = 0 := by
  unfold recvFragmentDataCalls
  rw [if_pos htype]
  cases hinc : s.incompleteReliableReceiver with
  | none =>
      have hlast : m.sequence = s.lastRecvReliableSequence := by
        by_contra hne
        exact hneeds ⟨by simp [reliablePart, hinc], hne⟩
      simp [hlast]
  | some id =>
      simp only [Option.isSome_some, if_true]
      split
      · rfl
      · rename_i hlast
        obtain ⟨-, hstored, hkept⟩ := h.cleaned env
        have hget := mapGet_incomplete hstored (hreliable.cleanup h env)
          (hkept.incomplete.trans hinc)
        rw [hkept.reliable, ← not_not.mp hlast] at hget
        simp [ensureRecvCommandCalls, countP_adds_cleanupCalls, hget]

end Opening

section Coherent

/-- What the steps of a bus keep for its reliable parcel. -/
structure Coherent (P : UInt64 → Prop) (s : Bus) : Prop where
  stored : Stored s
  reliable : Reliable s
  pending : Pending s
  foreign : Foreign P s

variable {P : UInt64 → Prop} (checksum : Checksum)

theorem coherent_start : Coherent P start :=
  ⟨stored_start, reliable_start, (fun _ _ hr => nomatch hr), fun _ _ hr => nomatch hr⟩

theorem Coherent.mono {Q : UInt64 → Prop} (h : Coherent P s) (hPQ : ∀ q, P q → Q q) :
    Coherent Q s := ⟨h.stored, h.reliable, h.pending, h.foreign.mono hPQ⟩

theorem Coherent.recvFragmentData (h : Coherent P s) (env : BusEnv) (m : FragmentMeta)
    (content : Bytes) (hP : m.type ≠ .reliable → P m.sequence) :
    Coherent P (s.recvFragmentData env m content) where
  stored := h.stored.recvFragmentData env m content
  reliable := h.reliable.recvFragmentData h.stored env m content
  pending := h.pending.recvFragmentData h.stored env m content
    (fun _ _ _ hr hdue => due_addFragment hr m content hdue) trivial
  foreign := h.foreign.recvFragmentData h.stored env m content (fun _ _ _ _ hP => hP) hP

theorem Each.stage {Q : FragmentType → UInt64 → ReceiverStage → Bool → Prop} (h : Each Q s)
    (hs : Stored s) (env : BusEnv) (id : ℕ)
    (hQ : ∀ type sequence stage stage' queued queued', Q type sequence stage queued →
      Due stage' queued' → Q type sequence stage' queued') :
    Each Q (s.step checksum ⟨env, .stage id⟩) := by
  unfold Bus.step
  split
  · exact h
  · dsimp only
    split
    · cases hr : s.receivers id with
      | none =>
          unfold Bus.executeCurrentTask
          simp only [hr]
          exact h.updated id (Function.update_eq_self id s.receivers).symm
            (fun j hj => Function.update_of_ne hj ..) fun r hr' => nomatch hr.symm.trans hr'
      | some r =>
          obtain ⟨o, hreceivers, hother, hwritten, -⟩ := executeCurrentTask_eq hs env hr
          refine h.updated id hreceivers hother fun r' hr' => ?_
          obtain ⟨htype, hsequence, hdue⟩ := hwritten r' hr'
          rw [htype, hsequence]
          exact hQ _ _ _ _ _ _ (h id r hr) hdue
    · exact h

theorem Coherent.stage (h : Coherent P s) (env : BusEnv) (id : ℕ) :
    Coherent P (s.step checksum ⟨env, .stage id⟩) := by
  obtain ⟨hstored, hreliable⟩ := h.stored.step checksum ⟨env, .stage id⟩
  exact ⟨hstored, hreliable h.reliable nofun,
    h.pending.stage checksum h.stored env id fun _ _ _ _ _ _ _ hdue => hdue,
    h.foreign.stage checksum h.stored env id fun _ _ _ _ _ _ hP _ => hP⟩

theorem step_verifyChecksumComplete_cases (env : BusEnv) (id : ℕ) (canceled computed : Bool) :
    s.step checksum ⟨env, .verifyChecksumComplete id canceled computed⟩ = s ∨
      ∃ r, s.receivers id = some r ∧ r.checksumVerifyTask = true ∧
        s.step checksum ⟨env, .verifyChecksumComplete id canceled computed⟩ =
          s.verifyChecksumComplete checksum env id canceled computed := by
  unfold Bus.step
  split
  · exact .inl rfl
  · dsimp only
    cases hr : s.receivers id with
    | none => exact .inl rfl
    | some r =>
        dsimp only
        split
        · rename_i htask
          exact .inr ⟨r, rfl, htask, rfl⟩
        · exact .inl rfl

theorem Each.verifyChecksumComplete {Q : FragmentType → UInt64 → ReceiverStage → Bool → Prop}
    (h : Each Q s) (hs : Stored s) (env : BusEnv) (id : ℕ) (canceled computed : Bool) :
    Each Q (s.step checksum ⟨env, .verifyChecksumComplete id canceled computed⟩) := by
  rcases step_verifyChecksumComplete_cases (s := s) checksum env id canceled computed with
    hsame | ⟨r, hr, htask, heq⟩
  · rw [hsame]
    exact h
  · obtain ⟨hreceivers, hqueued, -⟩ :=
      verifyChecksumComplete_eq hs checksum env hr htask canceled computed
    rw [heq]
    exact h.updated id hreceivers (fun j _ => congrFun hqueued j) nofun

theorem Coherent.verifyChecksumComplete (h : Coherent P s) (env : BusEnv) (id : ℕ)
    (canceled computed : Bool)
    (hcalm : ¬s.CancelsReliable ⟨env, .verifyChecksumComplete id canceled computed⟩) :
    Coherent P (s.step checksum ⟨env, .verifyChecksumComplete id canceled computed⟩) := by
  obtain ⟨hstored, hreliable⟩ :=
    h.stored.step checksum ⟨env, .verifyChecksumComplete id canceled computed⟩
  exact ⟨hstored, hreliable h.reliable hcalm,
    h.pending.verifyChecksumComplete checksum h.stored env id canceled computed,
    h.foreign.verifyChecksumComplete checksum h.stored env id canceled computed⟩

end Coherent

section Drained

variable {P : UInt64 → Prop} (checksum : Checksum)

theorem Reliable.incomplete_reliablePart (h : Reliable s) :
    s.reliablePart.incompleteReliableReceiver = none ↔ s.incompleteReliableReceiver = none := by
  unfold reliablePart
  cases hid : s.incompleteReliableReceiver with
  | none => simp
  | some id =>
      obtain ⟨r, hr, -⟩ := (h.incomplete id).mp hid
      simp [hr]

theorem reliablePart_stage (h : Coherent P s) (env : BusEnv) (id : ℕ) (hfault : s.fault = none) :
    (s.step checksum ⟨env, .stage id⟩).reliablePart =
      if s.incompleteReliableReceiver = some id then
        s.reliablePart.receiverTask env.worker env.parcel
      else s.reliablePart := by
  cases hqueued : s.queued id with
  | true =>
      have hstep : s.step checksum ⟨env, .stage id⟩ = s.executeCurrentTask env id := by
        simp [Bus.step, hfault, hqueued]
      rw [hstep]
      exact reliablePart_executeCurrentTask h.stored h.reliable env id
  | false =>
      have hstep : s.step checksum ⟨env, .stage id⟩ = s := by
        simp [Bus.step, hqueued]
      rw [hstep]
      split
      · rename_i hid
        -- a receiver that has no stage in the queue waits for fragments or for its worker
        obtain ⟨r, hr, -⟩ := (h.reliable.incomplete id).mp hid
        have hdue := h.pending id r hr
        rw [hqueued] at hdue
        unfold ReceivingBus.receiverTask
        rw [reliablePart_receiver hid hr]
        dsimp only
        change Due r.base.receiver.stage false at hdue
        cases hstage : r.base.receiver.stage with
        | waitFragments => rfl
        | checking embedded => rfl
        | verifyChecksum =>
            rw [hstage] at hdue
            exact absurd hdue nofun
        | complete =>
            rw [hstage] at hdue
            exact absurd hdue nofun
      · rfl

theorem reliablePart_completion (h : Coherent P s) (env : BusEnv) (id : ℕ)
    (canceled computed : Bool)
    (hcalm : ¬s.CancelsReliable ⟨env, .verifyChecksumComplete id canceled computed⟩) :
    (s.step checksum ⟨env, .verifyChecksumComplete id canceled computed⟩).reliablePart =
        s.reliablePart ∨
      (s.step checksum ⟨env, .verifyChecksumComplete id canceled computed⟩).reliablePart =
        (s.reliablePart.verifyChecksumComplete checksum computed).receiverTask env.worker
          env.parcel := by
  rcases step_verifyChecksumComplete_cases (s := s) checksum env id canceled computed with
    hsame | ⟨r, hr, htask, heq⟩
  · exact .inl (by rw [hsame])
  · rw [heq, reliablePart_verifyChecksumComplete h.stored h.reliable checksum env hr htask
      canceled computed fun ⟨hcanceled, hown, htype⟩ => hcalm ⟨hcanceled, r, hr, hown, htype⟩]
    split
    · exact .inr rfl
    · exact .inl rfl

/-- The reliable receiver is `id`, or it is gone with its stages. -/
structure Draining (P : UInt64 → Prop) (id : ℕ) (s : Bus) : Prop where
  coherent : Coherent P s
  fault : s.fault = none
  only : ∀ j, s.incompleteReliableReceiver = some j → j = id
  gone : s.receivers id = none → s.queued id = false

theorem Draining.idle (h : Draining P id s) (hother : s.incompleteReliableReceiver ≠ some id) :
    s.reliablePart.incompleteReliableReceiver = none := by
  rw [h.coherent.reliable.incomplete_reliablePart, Option.eq_none_iff_forall_ne_some]
  intro j hj
  exact hother (h.only j hj ▸ hj)

theorem Draining.idle_of_gone (h : Draining P id s) (hgone : s.receivers id = none) :
    s.reliablePart.incompleteReliableReceiver = none := by
  refine h.idle fun hid => ?_
  obtain ⟨r, hr, -⟩ := (h.coherent.reliable.incomplete id).mp hid
  rw [hgone] at hr
  cases hr

theorem Draining.stepped (h : Draining P id s) (hcoherent : Coherent P s') {o : Option BusReceiver}
    (hreceivers : s'.receivers = Function.update s.receivers id o)
    (hgone : o = none → s'.queued id = false)
    (hfault : s.fault ≠ some .pipeline → s'.fault ≠ some .pipeline) : Draining P id s' where
  coherent := hcoherent
  fault := hcoherent.reliable.fault_eq_none (hfault (by rw [h.fault]; nofun))
  only j hj := by
    by_contra hne
    obtain ⟨r, hr, htype, hentry⟩ := (hcoherent.reliable.incomplete j).mp hj
    rw [hreceivers, Function.update_of_ne hne] at hr
    exact hne (h.only j ((h.coherent.reliable.incomplete j).mpr ⟨r, hr, htype, hentry⟩))
  gone hnone := by
    rw [hreceivers, Function.update_self] at hnone
    exact hgone hnone

theorem Draining.stage (h : Draining P id s) :
    Draining P id (s.step checksum ⟨.plain id, .stage id⟩) ∧
      (s.step checksum ⟨.plain id, .stage id⟩).reliablePart =
        s.reliablePart.receiverTask true true := by
  constructor
  · cases hqueued : s.queued id with
    | false =>
        have hstep : s.step checksum ⟨.plain id, .stage id⟩ = s := by
          simp [Bus.step, hqueued]
        rw [hstep]
        exact h
    | true =>
        have hcoherent := h.coherent.stage checksum (.plain id) id
        have hstep : s.step checksum ⟨.plain id, .stage id⟩ =
            s.executeCurrentTask (.plain id) id := by
          simp [Bus.step, h.fault, hqueued]
        rw [hstep] at hcoherent ⊢
        cases hr : s.receivers id with
        | none => exact absurd ((h.gone hr).symm.trans hqueued) nofun
        | some r =>
            obtain ⟨o, hreceivers, -, -, hgone, hfault⟩ :=
              executeCurrentTask_eq h.coherent.stored (.plain id) hr
            exact h.stepped hcoherent hreceivers hgone hfault
  · rw [reliablePart_stage checksum h.coherent (.plain id) id h.fault]
    split
    · rfl
    · rename_i hother
      rw [ReceivingBus.receiverTask_idle (h.idle hother)]

/-- The worker of the receiver is done; its last stage runs at once. -/
theorem Draining.verifyChecksumComplete (h : Draining P id s) :
    Draining P id (s.step checksum ⟨.plain id, .verifyChecksumComplete id false true⟩) ∧
      (s.step checksum
        ⟨.plain id, .verifyChecksumComplete id false true⟩).reliablePart.receiverTask true true =
        (s.reliablePart.verifyChecksumComplete checksum true).receiverTask true true := by
  have hcoherent := h.coherent.verifyChecksumComplete checksum (.plain id) id false true
    fun hcancels => absurd hcancels.1 nofun
  cases hr : s.receivers id with
  | none =>
      have hstep : s.step checksum ⟨.plain id, .verifyChecksumComplete id false true⟩ = s := by
        simp [Bus.step, hr]
      rw [hstep, ReceivingBus.verifyChecksumComplete_idle (h.idle_of_gone hr)]
      exact ⟨h, rfl⟩
  | some r =>
      have hplaced := h.coherent.stored.receiver id r hr
      cases htask : r.checksumVerifyTask with
      | false =>
          have hstep : s.step checksum ⟨.plain id, .verifyChecksumComplete id false true⟩ = s := by
            simp [Bus.step, hr, htask]
          rw [hstep]
          refine ⟨h, congrArg (ReceivingBus.receiverTask · true true) ?_⟩
          unfold ReceivingBus.verifyChecksumComplete
          split
          · rfl
          · rename_i receiver hreceiver
            split
            · rename_i embedded hstage
              -- a receiver that computes has a worker
              unfold reliablePart at hreceiver
              obtain ⟨j, hj, hreceiver⟩ := Option.bind_eq_some_iff.mp hreceiver
              obtain ⟨k, hk, rfl⟩ := Option.map_eq_some_iff.mp hreceiver
              rw [h.only j hj] at hk
              obtain rfl : r = k := Option.some.inj (hr.symm.trans hk)
              exact absurd (htask.symm.trans (hplaced.task.mpr ⟨embedded, hstage⟩)) nofun
            · rfl
      | true =>
          obtain ⟨embedded, hstage⟩ := hplaced.task.mp htask
          have hstep : s.step checksum ⟨.plain id, .verifyChecksumComplete id false true⟩ =
              s.verifyChecksumComplete checksum (.plain id) id false true := by
            simp [Bus.step, h.fault, hr, htask]
          rw [hstep] at hcoherent ⊢
          obtain ⟨hreceivers, hqueued, hfault⟩ :=
            verifyChecksumComplete_eq h.coherent.stored checksum (.plain id) hr htask false true
          have hfree : s.queued id = false := by
            have hdue : Due r.stage (s.queued id) := h.coherent.pending id r hr
            rwa [hstage] at hdue
          have hdraining := h.stepped hcoherent hreceivers (fun _ => by rw [hqueued, hfree]) hfault
          refine ⟨hdraining, ?_⟩
          have hidle := hdraining.idle_of_gone (by rw [hreceivers, Function.update_self])
          rw [ReceivingBus.receiverTask_idle hidle, reliablePart_verifyChecksumComplete
            h.coherent.stored h.coherent.reliable checksum (.plain id) hr htask false true
            fun hcancels => absurd hcancels.1 nofun]
          split
          · rfl
          · rename_i hother
            have hnone := h.idle hother
            rw [ReceivingBus.verifyChecksumComplete_idle hnone,
              ReceivingBus.receiverTask_idle hnone]

/-- The stages that are left are those of a `ReceivingBus`. -/
theorem Draining.run (h : Draining P id s) :
    Draining P id (Machine.run (step checksum) s [⟨.plain id, .stage id⟩,
      ⟨.plain id, .verifyChecksumComplete id false true⟩, ⟨.plain id, .stage id⟩]) ∧
    (Machine.run (step checksum) s [⟨.plain id, .stage id⟩,
      ⟨.plain id, .verifyChecksumComplete id false true⟩,
      ⟨.plain id, .stage id⟩]).reliablePart = s.reliablePart.drain checksum := by
  obtain ⟨h₁, hpart₁⟩ := h.stage checksum
  obtain ⟨h₂, hpart₂⟩ := h₁.verifyChecksumComplete checksum
  obtain ⟨h₃, hpart₃⟩ := h₂.stage checksum
  refine ⟨h₃, ?_⟩
  unfold ReceivingBus.drain
  rw [← hpart₁, ← hpart₂, ← hpart₃]
  rfl

end Drained

end Bus

end Delivery

end PomeloUdp
