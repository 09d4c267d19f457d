import PomeloUdp.Delivery.Endpoint

/-!
# The reliable receiver of a bus

`ReceivingBus` has the reliable parcels of a bus and no others; `reliablePart` is what a bus in
every mode shows of them. Fragments and receivers of the other modes leave it as it is. A reliable
fragment, a stage of the reliable receiver and the completion of its worker are steps of it:
`reliablePart_recvFragmentData`, `reliablePart_executeCurrentTask` and
`reliablePart_verifyChecksumComplete`. What the other modes have in the map only shows in whether a
receiver can be opened.
-/

namespace PomeloUdp

namespace Delivery

open Machine

namespace ReceivingBus

/-- The bus takes a fragment with that sequence number only in a new receiver. -/
def Needs (bus : ReceivingBus) (sequence : UInt64) : Prop :=
  bus.incompleteReliableReceiver = none ∧ sequence ≠ bus.lastRecvReliableSequence

variable {bus : ReceivingBus} {m : Meta} {content : Bytes} {replied : Bool}

theorem recvFragmentData_acquired {acquired : Bool}
    (h : bus.Needs m.sequence → acquired = true) :
    bus.recvFragmentData m content acquired replied =
      bus.recvFragmentData m content true replied := by
  cases acquired with
  | true => rfl
  | false =>
      unfold recvFragmentData
      cases hreceiver : bus.incompleteReliableReceiver with
      | some receiver => rfl
      | none =>
          have hlast : m.sequence = bus.lastRecvReliableSequence := by
            by_contra hne
            exact absurd (h ⟨hreceiver, hne⟩) nofun
          simp [hlast]

theorem not_needs_recvFragmentData :
    ¬(bus.recvFragmentData m content true replied).1.Needs m.sequence := by
  rintro ⟨hnone, hlast⟩
  cases hreceiver : bus.incompleteReliableReceiver with
  | some receiver =>
      simp only [recvFragmentData, hreceiver] at hnone
      repeat' split at hnone
      all_goals simp [hreceiver] at hnone
  | none =>
      by_cases hsame : m.sequence = bus.lastRecvReliableSequence
      · simp [recvFragmentData, hreceiver, hsame] at hlast
      · simp [recvFragmentData, hreceiver, hsame] at hnone

theorem receiverTask_of_ne {receiver : Receiver}
    (h : bus.incompleteReliableReceiver = some receiver) (hstage : receiver.stage ≠ .complete)
    {worker parcel : Bool} :
    bus.receiverTask worker parcel = { bus with
      incompleteReliableReceiver := some (if receiver.stage = .verifyChecksum then
        receiver.verifyChecksum worker else receiver) } := by
  simp only [receiverTask, h]
  cases hcurrent : receiver.stage with
  | verifyChecksum => simp
  | complete => exact absurd hcurrent hstage
  | _ => simp [← h]

theorem receiverTask_idle (hnone : bus.incompleteReliableReceiver = none) {worker parcel : Bool} :
    bus.receiverTask worker parcel = bus := by
  simp [receiverTask, hnone]

theorem verifyChecksumComplete_idle (hnone : bus.incompleteReliableReceiver = none)
    {checksum : Checksum} {computed : Bool} :
    bus.verifyChecksumComplete checksum computed = bus := by
  simp [verifyChecksumComplete, hnone]

end ReceivingBus

namespace Bus

/-- What a bus shows of its reliable parcels. -/
def reliablePart (s : Bus) : ReceivingBus where
  lastRecvReliableSequence := s.lastRecvReliableSequence
  incompleteReliableReceiver :=
    s.incompleteReliableReceiver.bind fun id => (s.receivers id).map fun r => r.base.receiver
  delivered := (s.delivered.filter fun d => d.1 = .reliable).map Prod.snd

theorem reliablePart_start : start.reliablePart = .start := rfl

/-- The bus can open a receiver for a fragment: the map has none with its sequence number, and the
pool has one. -/
def opensReceiver (s : Bus) (env : BusEnv) (m : FragmentMeta) : Bool :=
  let s := s.cleanupExpiredReceivers env
  (s.mapGet m.sequence).isNone && env.acquire.any fun id => (s.receivers id).isNone

variable {s s' : Bus} {env : BusEnv} {id : ℕ} {r r' : BusReceiver} {m : FragmentMeta}

section Frame

theorem reliablePart_eq (hlast : s'.lastRecvReliableSequence = s.lastRecvReliableSequence)
    (hincomplete : s'.incompleteReliableReceiver = s.incompleteReliableReceiver)
    (hdelivered : (s'.delivered.filter fun d => d.1 = .reliable) =
      s.delivered.filter fun d => d.1 = .reliable)
    (hreceiver : ∀ id, s.incompleteReliableReceiver = some id →
      (s'.receivers id).map BusReceiver.base = (s.receivers id).map BusReceiver.base) :
    s'.reliablePart = s.reliablePart := by
  have hsame : s'.reliablePart.incompleteReliableReceiver =
      s.reliablePart.incompleteReliableReceiver := by
    unfold reliablePart
    dsimp only
    rw [hincomplete]
    cases hid : s.incompleteReliableReceiver with
    | none => rfl
    | some id =>
        have hbase := congrArg (Option.map ModeReceiver.receiver) (hreceiver id hid)
        rw [Option.map_map, Option.map_map] at hbase
        exact hbase
  unfold reliablePart at hsame ⊢
  rw [hlast, hdelivered]
  exact congrArg (fun o => ReceivingBus.mk _ o _) hsame

theorem Reliable.incomplete_ne (h : Reliable s) (hr : s.receivers id = some r)
    (htype : r.type ≠ .reliable) : s.incompleteReliableReceiver ≠ some id := by
  intro hid
  obtain ⟨k, hk, hktype, -⟩ := (h.incomplete id).mp hid
  obtain rfl : r = k := Option.some.inj (hr.symm.trans hk)
  exact htype hktype

theorem Kept.reliablePart_other (h : Kept s s') {o : Option BusReceiver}
    (hreceivers : s'.receivers = Function.update s.receivers id o)
    (hid : s.incompleteReliableReceiver ≠ some id) : s'.reliablePart = s.reliablePart := by
  refine reliablePart_eq h.reliable h.incomplete (by rw [h.delivered]) fun j hj => ?_
  have hne : j ≠ id := by
    rintro rfl
    exact hid hj
  rw [hreceivers, Function.update_of_ne hne]

theorem Kept.reliablePart_written (h : Kept s s')
    (hreceivers : s'.receivers = Function.update s.receivers id (some r'))
    (hid : s.incompleteReliableReceiver = some id) :
    s'.reliablePart =
      { s.reliablePart with incompleteReliableReceiver := some r'.base.receiver } := by
  unfold reliablePart
  simp only [h.reliable, h.incomplete, h.delivered, hid, hreceivers, Option.bind_some,
    Function.update_self, Option.map_some]

theorem reliablePart_receiver (hid : s.incompleteReliableReceiver = some id)
    (hr : s.receivers id = some r) :
    s.reliablePart.incompleteReliableReceiver = some r.base.receiver := by
  simp [reliablePart, hid, hr]

theorem reliablePart_cleanup (h : Stored s) (hreliable : Reliable s) (env : BusEnv) :
    (s.cleanupExpiredReceivers env).reliablePart = s.reliablePart := by
  obtain ⟨hcleaned, -, hkept⟩ := h.cleaned env
  refine reliablePart_eq hkept.reliable hkept.incomplete (by rw [hkept.delivered]) fun j hj => ?_
  obtain ⟨r, hr, htype, -⟩ := (hreliable.incomplete j).mp hj
  rw [hcleaned.receivers_eq h hr htype, hr]

theorem Reliable.cleanup (h : Reliable s) (hs : Stored s) (env : BusEnv) :
    Reliable (s.cleanupExpiredReceivers env) :=
  h.moves (moves_cleanupLoop True env s.receiversHeap.length hs).1

end Frame

section Fragments

/-- A receiver is put in the map. -/
def inserted (s : Bus) (id : ℕ) (m : FragmentMeta) : Bus :=
  { s with
    receivers := Function.update s.receivers id (some (.init m))
    receiversMap := (m.sequence, id) :: s.receiversMap }

theorem ensureRecvCommand_cases (h : Stored s) (env : BusEnv) (m : FragmentMeta) :
    (∃ id r, (s.cleanupExpiredReceivers env).mapGet m.sequence = some id ∧
      (s.cleanupExpiredReceivers env).receivers id = some r ∧ s.opensReceiver env m = false ∧
      s.ensureRecvCommand env m =
        (s.cleanupExpiredReceivers env, if r.base.checkMeta m then some id else none)) ∨
    (s.opensReceiver env m = false ∧
      (s.cleanupExpiredReceivers env).mapGet m.sequence = none ∧
      s.ensureRecvCommand env m = (s.cleanupExpiredReceivers env, none)) ∨
    ∃ id, (s.cleanupExpiredReceivers env).mapGet m.sequence = none ∧
      (s.cleanupExpiredReceivers env).receivers id = none ∧ s.opensReceiver env m = true ∧
      s.ensureRecvCommand env m =
        ((((s.cleanupExpiredReceivers env).inserted id m).opened id m).enqueue id, some id) := by
  obtain ⟨-, hstored, -⟩ := h.cleaned env
  unfold ensureRecvCommand opensReceiver
  generalize s.cleanupExpiredReceivers env = s' at hstored ⊢
  dsimp only
  cases hget : s'.mapGet m.sequence with
  | some id =>
      obtain ⟨r, hr, -⟩ := hstored.entries _ (mapGet_eq_some hget)
      have hr : s'.receivers id = some r := hr
      refine .inl ⟨id, r, rfl, hr, rfl, ?_⟩
      simp only [hr]
      split <;> rfl
  | none =>
      refine .inr ?_
      cases hacquire : env.acquire with
      | none => exact .inl ⟨rfl, rfl, rfl⟩
      | some id =>
          cases hr : s'.receivers id with
          | some r => exact .inl ⟨by simp [hr], rfl, by simp [hr]⟩
          | none =>
              refine .inr ⟨id, rfl, hr, by simp [hr], ?_⟩
              simp only [hr, Option.isSome_none, Bool.false_eq_true, if_false]
              rfl

theorem recvFragmentData_outcomes (h : Stored s) (env : BusEnv) (m : FragmentMeta)
    (content : Bytes) : ∃ s₁, (∃ received, s₁ = { s with received := received }) ∧
      (s.recvFragmentData env m content = s₁ ∨
        s.recvFragmentData env m content = s₁.cleanupExpiredReceivers env ∨
        (∃ id r, (s₁.cleanupExpiredReceivers env).receivers id = some r ∧
          s.recvFragmentData env m content =
            (s₁.cleanupExpiredReceivers env).addFragment id m content) ∨
        ∃ id, (s₁.cleanupExpiredReceivers env).receivers id = none ∧
          s.recvFragmentData env m content =
            ((((s₁.cleanupExpiredReceivers env).inserted id m).opened id m).enqueue
              id).addFragment id m content) := by
  have hensured : ∀ s₁ : Bus, (∃ received, s₁ = { s with received := received }) →
      given m content (s₁.ensureRecvCommand env m) = s₁.cleanupExpiredReceivers env ∨
        (∃ id r, (s₁.cleanupExpiredReceivers env).receivers id = some r ∧
          given m content (s₁.ensureRecvCommand env m) =
            (s₁.cleanupExpiredReceivers env).addFragment id m content) ∨
        ∃ id, (s₁.cleanupExpiredReceivers env).receivers id = none ∧
          given m content (s₁.ensureRecvCommand env m) =
            ((((s₁.cleanupExpiredReceivers env).inserted id m).opened id m).enqueue
              id).addFragment id m content := by
    rintro s₁ ⟨received, rfl⟩
    have hstored : Stored { s with received := received } :=
      h.requeued rfl rfl rfl fun _ hj => .inl hj
    rcases ensureRecvCommand_cases hstored env m with
      ⟨id, r, -, hr, -, heq⟩ | ⟨-, -, heq⟩ | ⟨id, -, hfree, -, heq⟩
    · rw [heq]
      split
      · exact .inr (.inl ⟨id, r, hr, rfl⟩)
      · exact .inl rfl
    · rw [heq]
      exact .inl rfl
    · rw [heq]
      exact .inr (.inr ⟨id, hfree, rfl⟩)
  have hsame : ∃ received, s = { s with received := received } := ⟨s.received, rfl⟩
  unfold Bus.recvFragmentData
  dsimp only
  split
  · refine ⟨s, hsame, ?_⟩
    split
    · split
      · exact .inl rfl
      · exact .inr (hensured s hsame)
    · split
      · exact .inl rfl
      · exact .inr (hensured s hsame)
  · split
    · have hreceived : ∃ received, { s with
          received := s.received ++ [(m.sequence, m.fragmentIndex.toNat)] } =
            { s with received := received } := ⟨_, rfl⟩
      refine ⟨_, hreceived, ?_⟩
      split
      · exact .inl rfl
      · exact .inr (hensured _ hreceived)
    · exact ⟨s, hsame, .inr (hensured s hsame)⟩

theorem inserted_eq (s : Bus) (id : ℕ) (m : FragmentMeta) :
    (((s.inserted id m).opened id m).enqueue id).receivers =
        Function.update s.receivers id (some (.init m)) ∧
      (((s.inserted id m).opened id m).enqueue id).queued = Function.update s.queued id true := by
  obtain ⟨hreceivers, -, -, hqueued⟩ := opened_eq (s.inserted id m) id m
  refine ⟨hreceivers, ?_⟩
  change Function.update ((s.inserted id m).opened id m).queued id true = _
  rw [hqueued]
  rfl

theorem reliablePart_opened_of_ne (hreliable : Reliable s) (hfree : s.receivers id = none)
    (htype : m.type ≠ .reliable) :
    (((s.inserted id m).opened id m).enqueue id).reliablePart = s.reliablePart := by
  have hopened : (s.inserted id m).opened id m = s.inserted id m := if_neg htype
  rw [hopened]
  have hkept : Kept s ((s.inserted id m).enqueue id) := ⟨rfl, rfl, rfl, rfl, rfl, rfl⟩
  have hreceivers : ((s.inserted id m).enqueue id).receivers =
      Function.update s.receivers id (some (.init m)) := rfl
  refine hkept.reliablePart_other hreceivers fun hid => ?_
  obtain ⟨k, hk, -⟩ := (hreliable.incomplete id).mp hid
  rw [hfree] at hk
  cases hk

theorem reliablePart_opened (hnone : s.incompleteReliableReceiver = none)
    (htype : m.type = .reliable) :
    (((s.inserted id m).opened id m).enqueue id).reliablePart =
      { s.reliablePart with
        lastRecvReliableSequence := m.sequence
        incompleteReliableReceiver := some (Receiver.init m.toMeta) } := by
  simp [opened, htype, inserted, require, hnone, enqueue, reliablePart, BusReceiver.init,
    ModeReceiver.init]

theorem reliablePart_addFragment (hid : s.incompleteReliableReceiver = some id)
    (hr : s.receivers id = some r) (m : FragmentMeta) (content : Bytes) :
    (s.addFragment id m content).reliablePart =
      { s.reliablePart with
        incompleteReliableReceiver := some (r.base.receiver.addFragment m.toMeta content) } := by
  obtain ⟨hreceivers, -, -, -, -, hkept⟩ := addFragment_eq hr m content
  exact hkept.reliablePart_written hreceivers hid

theorem reliablePart_addFragment_of_ne (hid : s.incompleteReliableReceiver ≠ some id)
    (hr : s.receivers id = some r) (m : FragmentMeta) (content : Bytes) :
    (s.addFragment id m content).reliablePart = s.reliablePart := by
  obtain ⟨hreceivers, -, -, -, -, hkept⟩ := addFragment_eq hr m content
  exact hkept.reliablePart_other hreceivers hid

theorem mapGet_incomplete (h : Stored s) (hreliable : Reliable s)
    (hid : s.incompleteReliableReceiver = some id) :
    s.mapGet s.lastRecvReliableSequence = some id := by
  obtain ⟨r, hr, -, hentry⟩ := (hreliable.incomplete id).mp hid
  have hmem := (h.receiver id r hr).mapped hentry
  rw [hreliable.last id r hid hr] at hmem
  cases hget : s.mapGet s.lastRecvReliableSequence with
  | none => exact absurd hmem (mapGet_eq_none hget id)
  | some j => rw [h.entry_unique (mapGet_eq_some hget) hmem]

theorem ensureRecvCommand_incomplete (h : Stored s) (hreliable : Reliable s)
    (hid : s.incompleteReliableReceiver = some id) (hr : s.receivers id = some r) (env : BusEnv)
    (htype : m.type = .reliable) (hlast : m.sequence = s.lastRecvReliableSequence) :
    (s.cleanupExpiredReceivers env).receivers id = some r ∧
      s.ensureRecvCommand env m = (s.cleanupExpiredReceivers env,
        if r.base.receiver.checkMeta m.toMeta then some id else none) := by
  obtain ⟨hcleaned, hstored, hkept⟩ := h.cleaned env
  obtain ⟨k, hk, hktype, -⟩ := (hreliable.incomplete id).mp hid
  obtain rfl : r = k := Option.some.inj (hr.symm.trans hk)
  have hr' := hcleaned.receivers_eq h hr hktype
  have hget := mapGet_incomplete hstored (hreliable.cleanup h env) (hkept.incomplete.trans hid)
  rw [hkept.reliable, ← hlast] at hget
  refine ⟨hr', ?_⟩
  rcases ensureRecvCommand_cases h env m with
    ⟨j, k, hj, hk, -, heq⟩ | ⟨-, hnone, -⟩ | ⟨j, hnone, -⟩
  · obtain rfl : id = j := Option.some.inj (hget.symm.trans hj)
    obtain rfl : r = k := Option.some.inj (hr'.symm.trans hk)
    have hcheck : r.base.checkMeta m = r.base.receiver.checkMeta m.toMeta := by
      have htypes : r.base.type = m.type := hktype.trans htype.symm
      simp [ModeReceiver.checkMeta, htypes]
    rw [heq, hcheck]
  · exact absurd (hget.symm.trans hnone) (Option.some_ne_none id)
  · exact absurd (hget.symm.trans hnone) (Option.some_ne_none id)

theorem reliablePart_recvFragmentData_of_some (h : Stored s) (hreliable : Reliable s)
    (hinc : s.incompleteReliableReceiver = some id) (env : BusEnv) (m : FragmentMeta)
    (content : Bytes) (replied : Bool) (htype : m.type = .reliable) :
    s.reliablePart.recvFragmentData m.toMeta content (s.opensReceiver env m) replied =
      ((s.recvFragmentData env m content).reliablePart,
        if replied && s.repliesAck env m then [m.toMeta] else []) := by
  have hcleaned := reliablePart_cleanup h hreliable env
  obtain ⟨r, hr, -, -⟩ := (hreliable.incomplete id).mp hinc
  have hreceiver := reliablePart_receiver hinc hr
  unfold ReceivingBus.recvFragmentData
  rw [hreceiver]
  by_cases hlast : m.sequence = s.lastRecvReliableSequence
  · obtain ⟨hr', heq⟩ := ensureRecvCommand_incomplete h hreliable hinc hr env htype hlast
    have hinc' := (h.cleaned env).2.2.incomplete.trans hinc
    have hadded := reliablePart_addFragment hinc' hr' m content
    rw [hcleaned] at hadded
    have hlast' : m.toMeta.sequence = s.reliablePart.lastRecvReliableSequence := hlast
    simp only [hlast', ne_eq, not_true_eq_false, if_false]
    cases hcheck : r.base.receiver.checkMeta m.toMeta with
    | true =>
        simp [Bus.recvFragmentData, repliesAck, fragmentTarget, htype, hinc, hlast, heq, hcheck,
          hr', hadded]
    | false =>
        simp [Bus.recvFragmentData, repliesAck, fragmentTarget, htype, hinc, hlast, heq, hcheck,
          hcleaned]
  · have hlast' : m.toMeta.sequence ≠ s.reliablePart.lastRecvReliableSequence := hlast
    simp only [hlast', ne_eq, not_false_eq_true, if_true]
    simp [Bus.recvFragmentData, repliesAck, fragmentTarget, htype, hinc, hlast]

theorem reliablePart_recvFragmentData_of_none (h : Stored s) (hreliable : Reliable s)
    (hinc : s.incompleteReliableReceiver = none) (env : BusEnv) (m : FragmentMeta)
    (content : Bytes) (replied : Bool) (htype : m.type = .reliable) :
    s.reliablePart.recvFragmentData m.toMeta content (s.opensReceiver env m) replied =
      ((s.recvFragmentData env m content).reliablePart,
        if replied && s.repliesAck env m then [m.toMeta] else []) := by
  have hcleaned := reliablePart_cleanup h hreliable env
  have hreceiver : s.reliablePart.incompleteReliableReceiver = none := by
    simp [reliablePart, hinc]
  unfold ReceivingBus.recvFragmentData
  rw [hreceiver]
  by_cases hlast : m.sequence = s.lastRecvReliableSequence
  · have hlast' : m.toMeta.sequence = s.reliablePart.lastRecvReliableSequence := hlast
    simp only [hlast', if_true]
    simp [Bus.recvFragmentData, repliesAck, htype, hinc, hlast]
  · have hlast' : m.toMeta.sequence ≠ s.reliablePart.lastRecvReliableSequence := hlast
    simp only [hlast', if_false]
    have hinc' := (h.cleaned env).2.2.incomplete.trans hinc
    rcases ensureRecvCommand_cases h env m with
      ⟨j, k, hget, hk, hopens, heq⟩ | ⟨hopens, -, heq⟩ | ⟨j, -, hfree, hopens, heq⟩
    · -- a receiver of another mode has the sequence number
      have hcheck : k.base.checkMeta m = false := by
        obtain ⟨k', hk', -, hentry⟩ := (h.cleaned env).2.1.entries _ (mapGet_eq_some hget)
        obtain rfl : k = k' := Option.some.inj (hk.symm.trans hk')
        have hother : k.type ≠ .reliable := fun hktype =>
          absurd (hinc'.symm.trans (((hreliable.cleanup h env).incomplete j).mpr
            ⟨k, hk, hktype, hentry⟩)) nofun
        simp [ModeReceiver.checkMeta, htype, hother]
      rw [hcheck] at heq
      simp [Bus.recvFragmentData, repliesAck, fragmentTarget, htype, hinc, hlast, heq, hopens,
        hcleaned]
    · simp [Bus.recvFragmentData, repliesAck, fragmentTarget, htype, hinc, hlast, heq, hopens,
        hcleaned]
    · have hopened := @reliablePart_opened (s.cleanupExpiredReceivers env) j m hinc' htype
      rw [hcleaned] at hopened
      have hnew : ((((s.cleanupExpiredReceivers env).inserted j m).opened j m).enqueue
          j).receivers j = some (.init m) := by
        rw [(inserted_eq (s.cleanupExpiredReceivers env) j m).1, Function.update_self]
      have hid : ((((s.cleanupExpiredReceivers env).inserted j m).opened j m).enqueue
          j).incompleteReliableReceiver = some j := by
        simp [opened, htype, enqueue]
      have hadded := reliablePart_addFragment hid hnew m content
      rw [hopened] at hadded
      simp [Bus.recvFragmentData, repliesAck, fragmentTarget, htype, hinc, hlast, heq, hopens,
        hnew, hadded, BusReceiver.init, ModeReceiver.init, FragmentMeta.toMeta]

/-- A reliable fragment is one for the reliable part, which acknowledges the same. -/
theorem reliablePart_recvFragmentData (h : Stored s) (hreliable : Reliable s) (env : BusEnv)
    (m : FragmentMeta) (content : Bytes) (replied : Bool) (htype : m.type = .reliable) :
    s.reliablePart.recvFragmentData m.toMeta content (s.opensReceiver env m) replied =
      ((s.recvFragmentData env m content).reliablePart,
        if replied && s.repliesAck env m then [m.toMeta] else []) := by
  cases hinc : s.incompleteReliableReceiver with
  | some id =>
      exact reliablePart_recvFragmentData_of_some h hreliable hinc env m content replied htype
  | none =>
      exact reliablePart_recvFragmentData_of_none h hreliable hinc env m content replied htype

theorem reliablePart_ensureRecvCommand_of_ne (h : Stored s) (hreliable : Reliable s) (env : BusEnv)
    (m : FragmentMeta) (content : Bytes) (htype : m.type ≠ .reliable) :
    (given m content (s.ensureRecvCommand env m)).reliablePart = s.reliablePart := by
  have hcleaned := reliablePart_cleanup h hreliable env
  have hreliable' := hreliable.cleanup h env
  rcases ensureRecvCommand_cases h env m with
    ⟨j, k, -, hk, -, heq⟩ | ⟨-, -, heq⟩ | ⟨j, -, hfree, -, heq⟩
  · rw [heq]
    split
    · rename_i hcheck
      rw [ModeReceiver.checkMeta, decide_eq_true_eq] at hcheck
      have hktype : k.type ≠ .reliable := fun hktype => htype (hcheck.1.symm.trans hktype)
      exact (reliablePart_addFragment_of_ne (hreliable'.incomplete_ne hk hktype) hk m
        content).trans hcleaned
    · exact hcleaned
  · rw [heq]
    exact hcleaned
  · have hopened := reliablePart_opened_of_ne (m := m) hreliable' hfree htype
    have hincomplete : ((s.cleanupExpiredReceivers env).inserted j m).opened j m =
        (s.cleanupExpiredReceivers env).inserted j m := if_neg htype
    rw [hincomplete] at hopened heq
    have hnew : (((s.cleanupExpiredReceivers env).inserted j m).enqueue j).receivers j =
        some (.init m) := Function.update_self ..
    have hid : (((s.cleanupExpiredReceivers env).inserted j m).enqueue
        j).incompleteReliableReceiver ≠ some j := by
      intro hid
      obtain ⟨k, hk, -⟩ := (hreliable'.incomplete j).mp hid
      rw [hfree] at hk
      cases hk
    rw [heq]
    exact ((reliablePart_addFragment_of_ne hid hnew m content).trans hopened).trans hcleaned

theorem reliablePart_recvFragmentData_of_ne (h : Stored s) (hreliable : Reliable s) (env : BusEnv)
    (m : FragmentMeta) (content : Bytes) (htype : m.type ≠ .reliable) :
    (s.recvFragmentData env m content).reliablePart = s.reliablePart := by
  unfold Bus.recvFragmentData
  dsimp only
  rw [if_neg htype]
  split
  · split
    · rfl
    · exact reliablePart_ensureRecvCommand_of_ne
        (s := { s with received := s.received ++ [(m.sequence, m.fragmentIndex.toNat)] })
        (h.requeued rfl rfl rfl fun _ hj => .inl hj)
        (hreliable.kept rfl rfl rfl hreliable.fault) env m content htype
  · exact reliablePart_ensureRecvCommand_of_ne h hreliable env m content htype

end Fragments

section Pipeline

theorem reliablePart_receiverComplete (env : BusEnv)
    (hid : s.incompleteReliableReceiver = some id) (hr : s.receivers id = some r)
    (htype : r.type = .reliable) (hcanceled : r.canceled = false) (hbus : r.bus = true)
    (hentry : r.sequenceEntry = true) :
    (s.receiverComplete env id).reliablePart =
      s.reliablePart.handleReceiverComplete r.base.receiver env.parcel := by
  obtain ⟨-, -, -, -, hkept⟩ := receiverComplete_eq env hr hcanceled hbus hentry
  unfold reliablePart
  rw [hkept.reliable, hkept.incomplete, hkept.delivered]
  unfold Bus.handleReceiverComplete ReceivingBus.handleReceiverComplete
  simp only [htype, hid, if_true, require, decide_true]
  cases hfailed : r.base.receiver.failed with
  | true => simp
  | false =>
      cases hparcel : env.parcel with
      | false => simp
      | true => simp [dispatchReceived, htype]

theorem reliablePart_receiverComplete_of_ne (env : BusEnv)
    (hid : s.incompleteReliableReceiver ≠ some id) (hr : s.receivers id = some r)
    (htype : r.type ≠ .reliable) (hcanceled : r.canceled = false) (hbus : r.bus = true)
    (hentry : r.sequenceEntry = true) :
    (s.receiverComplete env id).reliablePart = s.reliablePart := by
  obtain ⟨hreceivers, -, -, -, hkept⟩ := receiverComplete_eq env hr hcanceled hbus hentry
  have hhandled : (s.handleReceiverComplete env id r).lastRecvReliableSequence =
        s.lastRecvReliableSequence ∧
      (s.handleReceiverComplete env id r).incompleteReliableReceiver =
        s.incompleteReliableReceiver ∧
      ((s.handleReceiverComplete env id r).delivered.filter fun d => d.1 = .reliable) =
        s.delivered.filter fun d => d.1 = .reliable := by
    unfold Bus.handleReceiverComplete dispatchReceived
    simp only [htype, if_false]
    repeat' split
    all_goals simp [htype]
  refine reliablePart_eq (hkept.reliable.trans hhandled.1) (hkept.incomplete.trans hhandled.2.1)
    (by rw [hkept.delivered, hhandled.2.2]) fun j hj => ?_
  have hne : j ≠ id := by
    rintro rfl
    exact hid hj
  rw [hreceivers, Function.update_of_ne hne]

/-- A stage of the reliable receiver is a task of the reliable part, and one of another receiver
leaves it as it is. -/
theorem reliablePart_executeCurrentTask (h : Stored s) (hreliable : Reliable s) (env : BusEnv)
    (id : ℕ) :
    (s.executeCurrentTask env id).reliablePart =
      if s.incompleteReliableReceiver = some id then
        s.reliablePart.receiverTask env.worker env.parcel
      else s.reliablePart := by
  cases hr : s.receivers id with
  | none =>
      have hid : s.incompleteReliableReceiver ≠ some id := fun hid => by
        obtain ⟨k, hk, -⟩ := (hreliable.incomplete id).mp hid
        rw [hr] at hk
        cases hk
      simp only [executeCurrentTask, hr]
      rw [if_neg hid]
      rfl
  | some r =>
      have hincomplete : s.incompleteReliableReceiver = some id ↔
          r.type = .reliable ∧ r.sequenceEntry = true := by
        rw [hreliable.incomplete id, hr]
        simp
      by_cases hstage : r.stage = .complete
      · obtain ⟨hcanceled, hbus, hentry⟩ := h.attached_of_complete hr hstage
        rw [executeCurrentTask_of_complete env hr hstage]
        set s₁ : Bus := { s with queued := Function.update s.queued id false }
        split
        · rename_i hid
          rw [reliablePart_receiverComplete (s := s₁) env hid hr (hincomplete.mp hid).1 hcanceled
            hbus hentry]
          simp only [ReceivingBus.receiverTask, reliablePart_receiver hid hr,
            show r.base.receiver.stage = .complete from hstage]
          rfl
        · rename_i hid
          exact reliablePart_receiverComplete_of_ne (s := s₁) env hid hr
            (fun htype => hid (hincomplete.mpr ⟨htype, hentry⟩)) hcanceled hbus hentry
      · obtain ⟨r', hstaged⟩ := staged_executeCurrentTask env hr hstage
        split
        · rename_i hid
          rw [hstaged.kept.reliablePart_written hstaged.receivers hid,
            hstaged.reliable (hincomplete.mp hid).1,
            ReceivingBus.receiverTask_of_ne (reliablePart_receiver hid hr) hstage]
        · rename_i hid
          exact hstaged.kept.reliablePart_other hstaged.receivers hid

theorem reliablePart_verifyChecksumComplete (h : Stored s) (hreliable : Reliable s)
    (checksum : Checksum) (env : BusEnv) (hr : s.receivers id = some r)
    (htask : r.checksumVerifyTask = true) (canceled computed : Bool)
    (hcalm : ¬ (canceled = true ∧ r.canceled = false ∧ r.type = .reliable)) :
    (s.verifyChecksumComplete checksum env id canceled computed).reliablePart =
      if s.incompleteReliableReceiver = some id then
        (s.reliablePart.verifyChecksumComplete checksum computed).receiverTask env.worker env.parcel
      else s.reliablePart := by
  have hplaced := h.receiver id r hr
  obtain ⟨embedded, hstage⟩ := hplaced.task.mp htask
  have hincomplete : s.incompleteReliableReceiver = some id ↔
      r.type = .reliable ∧ r.sequenceEntry = true := by
    rw [hreliable.incomplete id, hr]
    simp
  cases hcanceled : canceled || r.canceled with
  | true =>
      have hid : s.incompleteReliableReceiver ≠ some id := by
        rw [ne_eq, hincomplete]
        rintro ⟨htype, hentry⟩
        have hown : r.canceled = false := by
          cases hown : r.canceled with
          | false => rfl
          | true => exact absurd ((hplaced.detached hown).1.symm.trans hentry) nofun
        rw [hown, Bool.or_false] at hcanceled
        exact hcalm ⟨hcanceled, hown, htype⟩
      rw [verifyChecksumComplete_eq_of_canceled h checksum env hr hstage hcanceled, if_neg hid]
      exact Kept.reliablePart_other ⟨rfl, rfl, rfl, rfl, rfl, rfl⟩ (o := none) rfl hid
  | false =>
      obtain ⟨hbus, hentry⟩ := hplaced.attached (Bool.or_eq_false_iff.mp hcanceled).2
      rw [verifyChecksumComplete_eq_of_computed checksum env hr hstage hcanceled]
      set s₁ := s.modifyReceiver id (.verified checksum embedded computed) with hs₁
      have hreceivers : s₁.receivers =
          Function.update s.receivers id (some (r.verified checksum embedded computed)) := by
        simp [hs₁, modifyReceiver, hr]
      have hself : s₁.receivers id = some (r.verified checksum embedded computed) := by
        rw [hreceivers, Function.update_self]
      have hkept : Kept s s₁ := ⟨rfl, rfl, rfl, rfl, rfl, rfl⟩
      by_cases hid : s.incompleteReliableReceiver = some id
      · have hid' : s₁.incompleteReliableReceiver = some id := hid
        rw [if_pos hid, reliablePart_receiverComplete env hid' hself (hincomplete.mp hid).1 rfl hbus
          hentry, hkept.reliablePart_written hreceivers hid]
        have hcomplete := (Receiver.verifyChecksumComplete_eq checksum (r := r.base.receiver) hstage
          computed).2.2.2
        simp only [ReceivingBus.verifyChecksumComplete, reliablePart_receiver hid hr,
          show r.base.receiver.stage = .checking embedded from hstage, ReceivingBus.receiverTask,
          hcomplete]
        rfl
      · have htype : r.type ≠ .reliable := fun htype => hid (hincomplete.mpr ⟨htype, hentry⟩)
        have hid' : s₁.incompleteReliableReceiver ≠ some id := hid
        rw [if_neg hid, reliablePart_receiverComplete_of_ne env hid' hself htype rfl hbus hentry]
        exact hkept.reliablePart_other hreceivers hid

end Pipeline

end Bus

end Delivery

end PomeloUdp
