import PomeloUdp.Delivery.Bus
import PomeloUdp.Delivery.ReliableDelivery

/-!
# What a bus keeps of its receivers

Every receiver that is not cancelled is in the map under its own sequence number, and every
entry of the map is one of them. A receiver that is cancelled while a worker has it belongs
to no bus any more and is released when the worker is done. The heap holds receivers that
expire. `consistent_run` says what this gives for the reliable receiver.
-/

namespace PomeloUdp

namespace Delivery

open Machine

theorem Receiver.sequence_next (r : Receiver) : r.next.sequence = r.sequence := by
  unfold Receiver.next
  split <;> rfl

theorem Receiver.sequence_verifyChecksum (r : Receiver) (worker : Bool) :
    (r.verifyChecksum worker).sequence = r.sequence := by
  unfold Receiver.verifyChecksum
  split
  · exact r.sequence_next
  · split
    · rfl
    · split <;> rfl

theorem Receiver.verifyChecksumComplete_eq (checksum : Checksum) {r : Receiver} {embedded : Bytes}
    (hstage : r.stage = .checking embedded) (computed : Bool) :
    (r.verifyChecksumComplete checksum embedded computed).sequence = r.sequence ∧
      (r.verifyChecksumComplete checksum embedded computed).fragments = r.fragments ∧
      (r.verifyChecksumComplete checksum embedded computed).recvFragments = r.recvFragments ∧
      (r.verifyChecksumComplete checksum embedded computed).stage = .complete := by
  unfold Receiver.verifyChecksumComplete Receiver.next Receiver.fail
  simp only [hstage]
  repeat' split
  all_goals exact ⟨rfl, rfl, rfl, rfl⟩

/-- The receiver has counted its fragments, and has them all once it does not wait. -/
structure BusReceiver.Filled (r : BusReceiver) : Prop where
  nonempty : r.base.receiver.fragments ≠ []
  count : r.base.receiver.recvFragments = r.base.receiver.fragments.countP Option.isSome
  all : r.stage ≠ .waitFragments →
    r.base.receiver.failed = true ∨ ∀ f ∈ r.base.receiver.fragments, f.isSome
  failed : r.base.receiver.failed = true → r.stage = .complete

namespace BusReceiver

variable {r : BusReceiver} {m : FragmentMeta} {content : Bytes}

theorem filled_init (m : FragmentMeta) : (init m).Filled where
  nonempty := by simp [init, ModeReceiver.init, Receiver.init]
  count := by simp [init, ModeReceiver.init, Receiver.init, List.countP_replicate]
  all h := absurd rfl h
  failed h := by cases h

theorem Filled.addFragment (h : r.Filled) (m : Meta) (content : Bytes) :
    (r.modify fun receiver => receiver.addFragment m content).Filled := by
  obtain ⟨-, hsame⟩ | ⟨hslot, -, hfailed, hset, hcount, hstage⟩ :=
    r.base.receiver.addFragment_cases m content
  · simp only [modify, hsame]
    exact h
  · obtain ⟨hindex, hnone⟩ := List.getElem?_eq_some_iff.mp hslot
    have hcounted : r.base.receiver.recvFragments + 1 =
        (r.base.receiver.fragments.set m.fragmentIndex (some content)).countP Option.isSome := by
      rw [List.countP_set hindex, hnone, h.count]
      simp
    refine ⟨?_, ?_, ?_, ?_⟩
    · change (r.base.receiver.addFragment m content).fragments ≠ []
      rw [hset, ne_eq, List.set_eq_nil_iff]
      exact h.nonempty
    · change (r.base.receiver.addFragment m content).recvFragments =
        (r.base.receiver.addFragment m content).fragments.countP Option.isSome
      rw [hcount, hset, hcounted]
    · change (r.base.receiver.addFragment m content).stage ≠ .waitFragments →
        (r.base.receiver.addFragment m content).failed = true ∨
          ∀ f ∈ (r.base.receiver.addFragment m content).fragments, f.isSome
      rw [hset, hstage, hfailed]
      intro hpast
      by_cases hall : r.base.receiver.recvFragments + 1 = r.base.receiver.fragments.length
      · refine .inr ?_
        rw [← List.countP_eq_length, ← hcounted, hall, List.length_set]
      · rw [if_neg hall] at hpast
        refine (h.all hpast).imp_right fun hsome => ?_
        have hempty := hsome _ (List.getElem_mem hindex)
        rw [hnone] at hempty
        cases hempty
    · change (r.base.receiver.addFragment m content).failed = true →
        (r.base.receiver.addFragment m content).stage = .complete
      rw [hfailed, hstage]
      intro hfail
      have hcomplete : r.base.receiver.stage = .complete := h.failed hfail
      simp [Receiver.next, hcomplete]

/-- With the last fragment the receiver stops waiting; no other one moves it. -/
theorem Filled.stage_addFragment (h : r.Filled) (m : Meta) (content : Bytes) :
    (r.modify fun receiver => receiver.addFragment m content).stage = r.stage ∨
      r.stage = .waitFragments ∧
        (r.modify fun receiver => receiver.addFragment m content).stage = .verifyChecksum := by
  change (r.base.receiver.addFragment m content).stage = r.base.receiver.stage ∨
    r.base.receiver.stage = .waitFragments ∧
      (r.base.receiver.addFragment m content).stage = .verifyChecksum
  obtain ⟨-, hsame⟩ | ⟨hslot, -, -, -, -, hstage⟩ := r.base.receiver.addFragment_cases m content
  · exact .inl (by rw [hsame])
  · rw [hstage]
    split
    · by_cases hwait : r.base.receiver.stage = .waitFragments
      · exact .inr ⟨hwait, by simp [Receiver.next, hwait]⟩
      · obtain ⟨hindex, hnone⟩ := List.getElem?_eq_some_iff.mp hslot
        rcases h.all hwait with hfailed | hsome
        · have hcomplete : r.base.receiver.stage = .complete := h.failed hfailed
          exact .inl (by simp [Receiver.next, hcomplete])
        · have hempty := hsome _ (List.getElem_mem hindex)
          rw [hnone] at hempty
          cases hempty
    · exact .inl rfl

/-- What a verification leaves: a worker that computes, or the last stage. -/
theorem Filled.verifyChecksum (h : r.Filled) (hstage : r.stage = .verifyChecksum) (worker : Bool) :
    (r.modify fun receiver => receiver.verifyChecksum worker).Filled := by
  have hsome : ∀ f ∈ r.base.receiver.fragments, f.isSome := by
    rcases h.all (by rw [hstage]; simp) with hfailed | hsome
    · have hcomplete := h.failed hfailed
      rw [hstage] at hcomplete
      cases hcomplete
    · exact hsome
  have hverify : r.base.receiver.stage = .verifyChecksum := hstage
  have hfailed : r.base.receiver.failed = false := by
    cases hfailed : r.base.receiver.failed with
    | false => rfl
    | true =>
        have hcomplete := h.failed hfailed
        rw [hstage] at hcomplete
        cases hcomplete
  unfold modify Receiver.verifyChecksum
  by_cases hlength : r.base.receiver.fragments.length < 2
  · simp only [hlength, if_true, Receiver.next, hverify]
    exact ⟨h.nonempty, h.count, fun _ => .inr hsome, fun hfail =>
      absurd (hfailed.symm.trans hfail) Bool.false_ne_true⟩
  · simp only [hlength, if_false]
    cases hsplit : splitChecksum r.base.receiver.fragments with
    | none => exact ⟨h.nonempty, h.count, fun _ => .inl rfl, fun _ => rfl⟩
    | some split =>
        obtain ⟨hlengths, hkept⟩ := splitChecksum_keeps hsplit
        have hrest := hkept hsome
        have hne : split.2 ≠ [] := by
          rw [← List.length_pos_iff, hlengths, List.length_pos_iff]
          exact h.nonempty
        have hcount : r.base.receiver.recvFragments = split.2.countP Option.isSome := by
          rw [h.count, List.countP_eq_length.mpr hsome, List.countP_eq_length.mpr hrest, hlengths]
        cases worker with
        | false => exact ⟨hne, hcount, fun _ => .inl rfl, fun _ => rfl⟩
        | true =>
            exact ⟨hne, hcount, fun _ => .inr hrest, fun hfail =>
              absurd (hfailed.symm.trans hfail) Bool.false_ne_true⟩

theorem stage_verifyChecksum (hstage : r.stage = .verifyChecksum) (worker : Bool) :
    (r.modify fun receiver => receiver.verifyChecksum worker).stage = .complete ∨
      ∃ embedded, (r.modify fun receiver => receiver.verifyChecksum worker).stage =
        .checking embedded := by
  have hverify : r.base.receiver.stage = .verifyChecksum := hstage
  change (r.base.receiver.verifyChecksum worker).stage = .complete ∨
    ∃ embedded, (r.base.receiver.verifyChecksum worker).stage = .checking embedded
  unfold Receiver.verifyChecksum
  split
  · exact .inl (by simp [Receiver.next, hverify])
  · split
    · exact .inl rfl
    · split
      · exact .inr ⟨_, rfl⟩
      · exact .inl rfl

theorem filled_fail (h : r.Filled) : (r.modify Receiver.fail).Filled :=
  ⟨h.nonempty, h.count, fun _ => .inl rfl, fun _ => rfl⟩

/-- The receiver with what its worker computed. -/
def verified (checksum : Checksum) (embedded : Bytes) (computed : Bool)
    (r : BusReceiver) : BusReceiver :=
  { r.modify (fun receiver => receiver.verifyChecksumComplete checksum embedded computed) with
    canceled := false, checksumVerifyTask := false }

end BusReceiver

/-- The first fragment of the receiver is there. -/
def BusReceiver.Begun (r : BusReceiver) : Prop :=
  ∃ content, r.base.receiver.fragments[0]? = some (some content)

/-- Resources are there; the pool has receiver `id`. -/
def BusEnv.plain (id : ℕ) : BusEnv := ⟨0, 0, some id, true, true, true⟩

/-- A cancelled receiver. -/
def BusReceiver.detach (r : BusReceiver) : BusReceiver :=
  { r with canceled := true, bus := false, expiredEntry := false, sequenceEntry := false }

namespace Bus

/-- What the fields of a receiver say about the map, the heap and the queue. -/
structure Placement (mapped heaped queued : Prop) (r : BusReceiver) : Prop where
  attached : r.canceled = false → r.bus = true ∧ r.sequenceEntry = true
  detached : r.canceled = true →
    r.sequenceEntry = false ∧ r.expiredEntry = false ∧ r.checksumVerifyTask = true
  mapped : r.sequenceEntry = true → mapped
  heaped : r.expiredEntry = true → heaped
  task : r.checksumVerifyTask = true ↔ ∃ embedded, r.stage = .checking embedded
  waiting : r.stage = .waitFragments → queued → r.expiredEntry = false
  filled : r.Filled

/-- The map and the heap hold the receivers that say so. -/
structure Stored (s : Bus) : Prop where
  keys : (s.receiversMap.map Prod.fst).Nodup
  entries : ∀ e ∈ s.receiversMap, ∃ r, s.receivers e.2 = some r ∧ r.sequence = e.1 ∧
    r.sequenceEntry = true
  heap : s.receiversHeap.Nodup
  expiring : ∀ id ∈ s.receiversHeap, ∃ r, s.receivers id = some r ∧ r.type ≠ .reliable ∧
    r.expiredEntry = true
  receiver : ∀ id r, s.receivers id = some r →
    Placement ((r.sequence, id) ∈ s.receiversMap) (id ∈ s.receiversHeap) (s.queued id = true) r

theorem stored_start : Stored start where
  keys := List.nodup_nil
  entries := nofun
  heap := List.nodup_nil
  expiring := nofun
  receiver _ _ heq := nomatch heq

section Equations

variable {s : Bus} {env : BusEnv} {id : ℕ} {r : BusReceiver}

/-- `pomelo_pool_release` leaves the receiver in neither the map nor the heap. -/
theorem release_eq (hr : s.receivers id = some r)
    (hbus : r.expiredEntry = true ∨ r.sequenceEntry = true → r.bus = true) :
    s.release id = { s with
      receivers := Function.update s.receivers id none
      receiversMap :=
        if r.sequenceEntry then s.receiversMap.erase (r.sequence, id) else s.receiversMap
      receiversHeap := if r.expiredEntry then s.receiversHeap.erase id else s.receiversHeap } := by
  unfold release
  simp only [hr]
  cases hexpired : r.expiredEntry <;> cases hsequence : r.sequenceEntry <;>
    simp_all [require, heapRemove, mapRemove]

theorem receiverCancel_eq (hr : s.receivers id = some r) (hcanceled : r.canceled = false)
    (hbus : r.bus = true) :
    s.receiverCancel env id = { s with
      receivers := Function.update s.receivers id
        (if r.checksumVerifyTask then some r.detach else none)
      receiversMap :=
        if r.sequenceEntry then s.receiversMap.erase (r.sequence, id) else s.receiversMap
      receiversHeap := if r.expiredEntry then s.receiversHeap.erase id else s.receiversHeap } := by
  have hdetached : ∀ s' : Bus, s'.receivers id = some r.detach → s'.receiverComplete env id =
      { s' with receivers := Function.update s'.receivers id none } := by
    intro s' hr'
    simp only [receiverComplete, hr', BusReceiver.detach, if_true]
    rw [release_eq hr' (by simp [BusReceiver.detach])]
    rfl
  unfold receiverCancel
  simp only [hr, hcanceled, hbus, Bool.false_eq_true, if_false, Bool.true_and]
  cases htask : r.checksumVerifyTask with
  | true =>
      cases hexpired : r.expiredEntry <;> cases hsequence : r.sequenceEntry <;>
        simp [heapRemove, mapRemove, modifyReceiver, hr, BusReceiver.detach]
  | false =>
      simp only [Bool.false_eq_true, if_false]
      rw [hdetached]
      · cases hexpired : r.expiredEntry <;> cases hsequence : r.sequenceEntry <;>
          simp [heapRemove, mapRemove, modifyReceiver]
      · cases hexpired : r.expiredEntry <;> cases hsequence : r.sequenceEntry <;>
          simp [heapRemove, mapRemove, modifyReceiver, hr, BusReceiver.detach]

end Equations

section Moves

variable {s s' : Bus} {id : ℕ} {r r' : BusReceiver}

theorem Stored.entry_unique (h : Stored s) {sequence : UInt64} {i j : ℕ}
    (hi : (sequence, i) ∈ s.receiversMap) (hj : (sequence, j) ∈ s.receiversMap) : i = j :=
  congrArg Prod.snd (List.inj_on_of_nodup_map h.keys hi hj rfl)

theorem Stored.erase_mem (h : Stored s) {e : UInt64 × ℕ} :
    e ∈ s.receiversMap.erase (r.sequence, id) ↔ e ≠ (r.sequence, id) ∧ e ∈ s.receiversMap :=
  List.Nodup.mem_erase_iff h.keys.of_map

theorem Stored.written (h : Stored s) (hr : s.receivers id = some r) (r' : BusReceiver)
    (hreceivers : s'.receivers = Function.update s.receivers id (some r'))
    (hmap : s'.receiversMap = s.receiversMap) (hheap : s'.receiversHeap = s.receiversHeap)
    (hqueued : ∀ j, j ≠ id → s'.queued j = s.queued j)
    (hsequence : r'.sequence = r.sequence) (htype : r'.type = r.type)
    (hentry : r'.sequenceEntry = r.sequenceEntry) (hexpired : r'.expiredEntry = r.expiredEntry)
    (hplaced : Placement ((r.sequence, id) ∈ s.receiversMap) (id ∈ s.receiversHeap)
      (s'.queued id = true) r') :
    Stored s' := by
  have hself : s'.receivers id = some r' := by rw [hreceivers, Function.update_self]
  have hother : ∀ j, j ≠ id → s'.receivers j = s.receivers j := fun j hj => by
    rw [hreceivers, Function.update_of_ne hj]
  constructor
  · rw [hmap]
    exact h.keys
  · rw [hmap]
    rintro ⟨sequence, j⟩ he
    obtain ⟨k, hk, hsequence', hentry'⟩ := h.entries _ he
    by_cases hj : j = id
    · subst hj
      obtain rfl : r = k := Option.some.inj (hr.symm.trans hk)
      exact ⟨r', hself, hsequence.trans hsequence', hentry.trans hentry'⟩
    · exact ⟨k, (hother j hj).trans hk, hsequence', hentry'⟩
  · rw [hheap]
    exact h.heap
  · rw [hheap]
    intro j hj
    obtain ⟨k, hk, htype', hexpired'⟩ := h.expiring j hj
    by_cases hid : j = id
    · subst hid
      obtain rfl : r = k := Option.some.inj (hr.symm.trans hk)
      exact ⟨r', hself, htype ▸ htype', hexpired.trans hexpired'⟩
    · exact ⟨k, (hother j hid).trans hk, htype', hexpired'⟩
  · intro j k hk
    rw [hmap, hheap]
    by_cases hj : j = id
    · subst hj
      obtain rfl : r' = k := Option.some.inj (hself.symm.trans hk)
      rw [hsequence]
      exact hplaced
    · rw [hother j hj] at hk
      rw [hqueued j hj]
      exact h.receiver j k hk

/-- A receiver leaves the map and the heap, and perhaps the bus. -/
theorem Stored.left (h : Stored s) (hr : s.receivers id = some r) (o : Option BusReceiver)
    (hreceivers : s'.receivers = Function.update s.receivers id o)
    (hmap : s'.receiversMap =
      if r.sequenceEntry then s.receiversMap.erase (r.sequence, id) else s.receiversMap)
    (hheap : s'.receiversHeap =
      if r.expiredEntry then s.receiversHeap.erase id else s.receiversHeap)
    (hqueued : ∀ j, j ≠ id → s'.queued j = s.queued j)
    (hplaced : ∀ r', o = some r' → Placement False False (s'.queued id = true) r') :
    Stored s' := by
  have hself : s'.receivers id = o := by rw [hreceivers, Function.update_self]
  have hother : ∀ j, j ≠ id → s'.receivers j = s.receivers j := fun j hj => by
    rw [hreceivers, Function.update_of_ne hj]
  have hmem : ∀ {sequence : UInt64} {j : ℕ}, (sequence, j) ∈ s'.receiversMap ↔
      j ≠ id ∧ (sequence, j) ∈ s.receiversMap := by
    intro sequence j
    have hself' : (sequence, id) ∈ s.receiversMap →
        r.sequence = sequence ∧ r.sequenceEntry = true := by
      intro he
      obtain ⟨k, hk, hsequence, hentry⟩ := h.entries _ he
      obtain rfl : r = k := Option.some.inj (hr.symm.trans hk)
      exact ⟨hsequence, hentry⟩
    rw [hmap]
    cases hentry : r.sequenceEntry with
    | true =>
        rw [if_pos rfl, h.erase_mem]
        constructor
        · rintro ⟨hne, he⟩
          refine ⟨?_, he⟩
          rintro rfl
          exact hne (by rw [(hself' he).1])
        · rintro ⟨hne, he⟩
          exact ⟨fun heq => hne (congrArg Prod.snd heq), he⟩
    | false =>
        rw [if_neg Bool.false_ne_true]
        refine ⟨fun he => ⟨?_, he⟩, And.right⟩
        rintro rfl
        rw [(hself' he).2] at hentry
        cases hentry
  have hheapMem : ∀ {j : ℕ}, j ∈ s'.receiversHeap ↔ j ≠ id ∧ j ∈ s.receiversHeap := by
    intro j
    rw [hheap]
    cases hexpired : r.expiredEntry with
    | true => rw [if_pos rfl, h.heap.mem_erase_iff]
    | false =>
        rw [if_neg Bool.false_ne_true]
        refine ⟨fun hj => ⟨?_, hj⟩, And.right⟩
        rintro rfl
        obtain ⟨k, hk, -, hexpired'⟩ := h.expiring j hj
        obtain rfl : r = k := Option.some.inj (hr.symm.trans hk)
        rw [hexpired'] at hexpired
        cases hexpired
  constructor
  · rw [hmap]
    split
    · exact h.keys.sublist (List.erase_sublist.map _)
    · exact h.keys
  · rintro ⟨sequence, j⟩ he
    obtain ⟨hj, he⟩ := hmem.mp he
    obtain ⟨k, hk, hrest⟩ := h.entries _ he
    exact ⟨k, (hother j hj).trans hk, hrest⟩
  · rw [hheap]
    split
    · exact h.heap.erase _
    · exact h.heap
  · intro j hj
    obtain ⟨hne, hj⟩ := hheapMem.mp hj
    obtain ⟨k, hk, hrest⟩ := h.expiring j hj
    exact ⟨k, (hother j hne).trans hk, hrest⟩
  · intro j k hk
    by_cases hj : j = id
    · subst hj
      have hplaced := hplaced k (hself.symm.trans hk)
      have hentry : k.sequenceEntry = false := by
        cases hentry : k.sequenceEntry with
        | true => exact (hplaced.mapped hentry).elim
        | false => rfl
      have hexpired : k.expiredEntry = false := by
        cases hexpired : k.expiredEntry with
        | true => exact (hplaced.heaped hexpired).elim
        | false => rfl
      exact { hplaced with
        mapped := fun h => by rw [hentry] at h; cases h
        heaped := fun h => by rw [hexpired] at h; cases h }
    · rw [hother j hj] at hk
      have hplaced := h.receiver j k hk
      rw [hqueued j hj]
      exact { hplaced with
        mapped := fun hentry => hmem.mpr ⟨hj, hplaced.mapped hentry⟩
        heaped := fun hexpired => hheapMem.mpr ⟨hj, hplaced.heaped hexpired⟩ }

theorem Stored.inserted (h : Stored s) (m : FragmentMeta) (hnone : s.receivers id = none)
    (hkey : ∀ j, (m.sequence, j) ∉ s.receiversMap)
    (hreceivers : s'.receivers = Function.update s.receivers id (some (.init m)))
    (hmap : s'.receiversMap = (m.sequence, id) :: s.receiversMap)
    (hheap : s'.receiversHeap = s.receiversHeap)
    (hqueued : ∀ j, j ≠ id → s'.queued j = s.queued j) : Stored s' := by
  have hself : s'.receivers id = some (.init m) := by rw [hreceivers, Function.update_self]
  have hother : ∀ {j : ℕ} {k : BusReceiver}, s.receivers j = some k →
      j ≠ id ∧ s'.receivers j = some k := by
    intro j k hk
    have hj : j ≠ id := by
      rintro rfl
      rw [hnone] at hk
      cases hk
    exact ⟨hj, by rwa [hreceivers, Function.update_of_ne hj]⟩
  constructor
  · rw [hmap, List.map_cons, List.nodup_cons]
    refine ⟨fun hmem => ?_, h.keys⟩
    obtain ⟨⟨sequence, j⟩, he, rfl⟩ := List.mem_map.mp hmem
    exact hkey j he
  · rw [hmap]
    intro e he
    rcases List.mem_cons.mp he with rfl | he
    · exact ⟨_, hself, rfl, rfl⟩
    · obtain ⟨k, hk, hrest⟩ := h.entries e he
      exact ⟨k, (hother hk).2, hrest⟩
  · rw [hheap]
    exact h.heap
  · rw [hheap]
    intro j hj
    obtain ⟨k, hk, hrest⟩ := h.expiring j hj
    exact ⟨k, (hother hk).2, hrest⟩
  · intro j k hk
    rw [hmap, hheap]
    by_cases hj : j = id
    · subst hj
      obtain rfl : BusReceiver.init m = k := Option.some.inj (hself.symm.trans hk)
      refine ⟨fun _ => ⟨rfl, rfl⟩, nofun, fun _ => List.mem_cons_self, nofun, ⟨nofun, ?_⟩,
        fun _ _ => rfl, BusReceiver.filled_init m⟩
      rintro ⟨embedded, hstage⟩
      cases hstage
    · rw [hreceivers, Function.update_of_ne hj] at hk
      have hplaced := h.receiver j k hk
      rw [hqueued j hj]
      exact { hplaced with
        mapped := fun hentry => List.mem_cons_of_mem _ (hplaced.mapped hentry) }

theorem Stored.pushed (h : Stored s) (hr : s.receivers id = some r) (r' : BusReceiver)
    (hreceivers : s'.receivers = Function.update s.receivers id (some r'))
    (hmap : s'.receiversMap = s.receiversMap) (hheap : s'.receiversHeap = id :: s.receiversHeap)
    (hqueued : ∀ j, j ≠ id → s'.queued j = s.queued j)
    (hfree : r.expiredEntry = false) (hexpiring : r.type ≠ .reliable)
    (hsequence : r'.sequence = r.sequence) (htype : r'.type = r.type)
    (hentry : r'.sequenceEntry = r.sequenceEntry) (hexpired : r'.expiredEntry = true)
    (hplaced : Placement ((r.sequence, id) ∈ s.receiversMap) True (s'.queued id = true) r') :
    Stored s' := by
  have hself : s'.receivers id = some r' := by rw [hreceivers, Function.update_self]
  have hother : ∀ j, j ≠ id → s'.receivers j = s.receivers j := fun j hj => by
    rw [hreceivers, Function.update_of_ne hj]
  have hfresh : id ∉ s.receiversHeap := fun hmem => by
    obtain ⟨k, hk, -, hexpired'⟩ := h.expiring id hmem
    obtain rfl : r = k := Option.some.inj (hr.symm.trans hk)
    rw [hexpired'] at hfree
    cases hfree
  constructor
  · rw [hmap]
    exact h.keys
  · rw [hmap]
    rintro ⟨sequence, j⟩ he
    obtain ⟨k, hk, hsequence', hentry'⟩ := h.entries _ he
    by_cases hj : j = id
    · subst hj
      obtain rfl : r = k := Option.some.inj (hr.symm.trans hk)
      exact ⟨r', hself, hsequence.trans hsequence', hentry.trans hentry'⟩
    · exact ⟨k, (hother j hj).trans hk, hsequence', hentry'⟩
  · rw [hheap, List.nodup_cons]
    exact ⟨hfresh, h.heap⟩
  · rw [hheap]
    intro j hj
    by_cases hid : j = id
    · subst hid
      exact ⟨r', hself, htype ▸ hexpiring, hexpired⟩
    · obtain ⟨k, hk, hrest⟩ := h.expiring j ((List.mem_cons.mp hj).resolve_left hid)
      exact ⟨k, (hother j hid).trans hk, hrest⟩
  · intro j k hk
    rw [hmap, hheap]
    by_cases hj : j = id
    · subst hj
      obtain rfl : r' = k := Option.some.inj (hself.symm.trans hk)
      rw [hsequence]
      exact { hplaced with heaped := fun _ => List.mem_cons_self }
    · rw [hother j hj] at hk
      have hplaced := h.receiver j k hk
      rw [hqueued j hj]
      exact { hplaced with
        heaped := fun hexpired => List.mem_cons_of_mem _ (hplaced.heaped hexpired) }

end Moves

section Move

/-- The bus has the same records; only receivers, their places and its flags may differ. -/
structure Kept (s s' : Bus) : Prop where
  incomplete : s'.incompleteReliableReceiver = s.incompleteReliableReceiver
  reliable : s'.lastRecvReliableSequence = s.lastRecvReliableSequence
  sequenced : s'.lastRecvSequencedSequence = s.lastRecvSequencedSequence
  fault : s'.fault = s.fault
  received : s'.received = s.received
  delivered : s'.delivered = s.delivered

theorem Kept.refl (s : Bus) : Kept s s := ⟨rfl, rfl, rfl, rfl, rfl, rfl⟩

theorem Kept.trans {s s' s'' : Bus} (h : Kept s s') (h' : Kept s' s'') : Kept s s'' where
  incomplete := h'.incomplete.trans h.incomplete
  reliable := h'.reliable.trans h.reliable
  sequenced := h'.sequenced.trans h.sequenced
  fault := h'.fault.trans h.fault
  received := h'.received.trans h.received
  delivered := h'.delivered.trans h.delivered

/-- The reliable receiver of the bus is the new one. -/
def opened (s : Bus) (id : ℕ) (m : FragmentMeta) : Bus :=
  if m.type = .reliable then
    { s.require s.incompleteReliableReceiver.isNone with
      incompleteReliableReceiver := some id
      lastRecvReliableSequence := m.sequence }
  else s

/-- What a bus does with one receiver. `calm` says that the platform cancels no reliable
receiver. -/
inductive Move (calm : Prop) (s s' : Bus) : Prop where
  | idle (receivers : s'.receivers = s.receivers) (kept : Kept s s')
  | abort (receivers : s'.receivers = s.receivers)
      (kept : Kept { s with fault := some .pipeline } s')
  | write (id : ℕ) (r r' : BusReceiver) (receiver : s.receivers id = some r)
      (receivers : s'.receivers = Function.update s.receivers id (some r'))
      (sequence : r'.sequence = r.sequence) (type : r'.type = r.type)
      (entry : r'.sequenceEntry = r.sequenceEntry) (begun : r'.Begun → r.Begun) (kept : Kept s s')
  | insert (id : ℕ) (m : FragmentMeta) (free : s.receivers id = none)
      (key : ∀ j, (m.sequence, j) ∉ s.receiversMap)
      (last : m.type = .reliable → s.incompleteReliableReceiver ≠ none →
        m.sequence = s.lastRecvReliableSequence)
      (receivers : s'.receivers = Function.update s.receivers id (some (.init m)))
      (kept : Kept (s.opened id m) s')
  | leave (id : ℕ) (r : BusReceiver) (o : Option BusReceiver) (receiver : s.receivers id = some r)
      (receivers : s'.receivers = Function.update s.receivers id o)
      (entry : ∀ r', o = some r' → r'.sequenceEntry = false)
      (calm : calm → r.sequenceEntry = true → r.type ≠ .reliable) (kept : Kept s s')
  | complete (env : BusEnv) (id : ℕ) (r : BusReceiver) (receiver : s.receivers id = some r)
      (entry : r.sequenceEntry = true) (stage : r.stage = .complete) (filled : r.Filled)
      (receivers : s'.receivers = Function.update s.receivers id none)
      (kept : Kept (s.handleReceiverComplete env id r) s')

/-- One move after another, each from a stored state to a stored one. -/
inductive Moves (calm : Prop) : Bus → Bus → Prop where
  | refl (s : Bus) : Moves calm s s
  | tail {s s' s'' : Bus} (moves : Moves calm s s') (stored : Stored s') (move : Move calm s' s'')
      (stored' : Stored s'') : Moves calm s s''

variable {calm : Prop} {s s' s'' : Bus} {env : BusEnv} {id : ℕ} {r : BusReceiver}

theorem Moves.single (hs : Stored s) (h : Move calm s s') (hs' : Stored s') : Moves calm s s' :=
  .tail (.refl s) hs h hs'

theorem Moves.trans (h : Moves calm s s') (h' : Moves calm s' s'') : Moves calm s s'' := by
  induction h' with
  | refl => exact h
  | tail _ hs hmove hs' ih => exact ih.tail hs hmove hs'

theorem Moves.stored (h : Moves calm s s') (hs : Stored s) : Stored s' := by
  cases h with
  | refl => exact hs
  | tail _ _ _ hs' => exact hs'

theorem Stored.requeued (h : Stored s) (hreceivers : s'.receivers = s.receivers)
    (hmap : s'.receiversMap = s.receiversMap) (hheap : s'.receiversHeap = s.receiversHeap)
    (hqueued : ∀ id, s'.queued id = true → s.queued id = true ∨
      ∀ r, s.receivers id = some r → r.stage = .waitFragments → r.expiredEntry = false) :
    Stored s' := by
  refine ⟨by rw [hmap]; exact h.keys, ?_, by rw [hheap]; exact h.heap, ?_, ?_⟩
  · rw [hmap, hreceivers]
    exact h.entries
  · rw [hheap, hreceivers]
    exact h.expiring
  · intro j k hk
    rw [hreceivers] at hk
    rw [hmap, hheap]
    have hplaced := h.receiver j k hk
    exact { hplaced with
      waiting := fun hstage hj => (hqueued j hj).elim (hplaced.waiting hstage)
        fun hfree => hfree k hk hstage }

theorem Stored.receiverCancel (h : Stored s) (hr : s.receivers id = some r)
    (hcanceled : r.canceled = false) : Stored (s.receiverCancel env id) := by
  have hplaced := h.receiver id r hr
  rw [receiverCancel_eq hr hcanceled (hplaced.attached hcanceled).1]
  refine h.left hr _ rfl rfl rfl (fun _ _ => rfl) ?_
  intro r' hr'
  split at hr'
  · rename_i htask
    obtain rfl : r.detach = r' := Option.some.inj hr'
    exact ⟨nofun, fun _ => ⟨rfl, rfl, htask⟩, nofun, nofun, hplaced.task, fun _ _ => rfl,
      hplaced.filled.nonempty, hplaced.filled.count, hplaced.filled.all, hplaced.filled.failed⟩
  · cases hr'

theorem kept_receiverCancel (hr : s.receivers id = some r) (hcanceled : r.canceled = false)
    (hbus : r.bus = true) : Kept s (s.receiverCancel env id) := by
  rw [receiverCancel_eq hr hcanceled hbus]
  exact ⟨rfl, rfl, rfl, rfl, rfl, rfl⟩

theorem move_receiverCancel (h : Stored s) (hr : s.receivers id = some r)
    (hcanceled : r.canceled = false) (htype : r.type ≠ .reliable) :
    Move calm s (s.receiverCancel env id) := by
  have hbus := ((h.receiver id r hr).attached hcanceled).1
  refine .leave id r (if r.checksumVerifyTask then some r.detach else none) hr ?_ ?_
    (fun _ _ => htype) (kept_receiverCancel hr hcanceled hbus)
  · rw [receiverCancel_eq hr hcanceled hbus]
  · intro r' hr'
    split at hr'
    · rw [← Option.some.inj hr']
      rfl
    · cases hr'

theorem Placement.not_canceled {mapped heaped queued : Prop} (h : Placement mapped heaped queued r)
    (hexpired : r.expiredEntry = true) : r.canceled = false := by
  cases hcanceled : r.canceled with
  | false => rfl
  | true => exact absurd ((h.detached hcanceled).2.1.symm.trans hexpired) nofun

theorem expire_eq (hr : s.receivers id = some r) (hexpired : r.expiredEntry = true)
    (hcanceled : r.canceled = false) (hbus : r.bus = true) :
    ((s.heapRemove id).modifyReceiver id fun r => { r with expiredEntry := false }).receiverCancel
      env id = s.receiverCancel env id := by
  rw [receiverCancel_eq hr hcanceled hbus, receiverCancel_eq (r := { r with expiredEntry := false })
    (by simp [modifyReceiver, heapRemove, hr]) hcanceled hbus]
  simp [modifyReceiver, heapRemove, hexpired, BusReceiver.detach]

theorem moves_cleanupLoop (calm : Prop) (env : BusEnv) (fuel : ℕ) (h : Stored s) :
    Moves calm s (cleanupLoop env fuel s) ∧ Kept s (cleanupLoop env fuel s) := by
  induction fuel generalizing s with
  | zero => exact ⟨.refl s, .refl s⟩
  | succ fuel ih =>
      unfold cleanupLoop
      cases htop : s.heapTop with
      | none => exact ⟨.refl s, .refl s⟩
      | some id =>
          dsimp only
          split
          · exact ⟨.refl s, .refl s⟩
          · obtain ⟨r, hr, htype, hexpired⟩ := h.expiring id (List.argmin_mem htop)
            have hplaced := h.receiver id r hr
            have hcanceled := hplaced.not_canceled hexpired
            have hbus := (hplaced.attached hcanceled).1
            rw [expire_eq hr hexpired hcanceled hbus]
            have hstored : Stored (s.receiverCancel env id) := h.receiverCancel hr hcanceled
            obtain ⟨hmoves, hkept⟩ := ih hstored
            exact ⟨(Moves.single h (move_receiverCancel h hr hcanceled htype) hstored).trans hmoves,
              (kept_receiverCancel hr hcanceled hbus).trans hkept⟩

theorem mapGet_eq_some {sequence : UInt64} (h : s.mapGet sequence = some id) :
    (sequence, id) ∈ s.receiversMap := by
  obtain ⟨before, after, heq, -⟩ := List.lookup_eq_some_iff.mp h
  rw [heq]
  exact List.mem_append_right _ List.mem_cons_self

theorem mapGet_eq_none {sequence : UInt64} (h : s.mapGet sequence = none) (j : ℕ) :
    (sequence, j) ∉ s.receiversMap := by
  intro hmem
  have hne := List.lookup_eq_none_iff.mp h _ hmem
  simp at hne

theorem opened_eq (s : Bus) (id : ℕ) (m : FragmentMeta) :
    (s.opened id m).receivers = s.receivers ∧ (s.opened id m).receiversMap = s.receiversMap ∧
      (s.opened id m).receiversHeap = s.receiversHeap ∧ (s.opened id m).queued = s.queued := by
  unfold opened require
  split
  · split <;> exact ⟨rfl, rfl, rfl, rfl⟩
  · exact ⟨rfl, rfl, rfl, rfl⟩

theorem fault_opened (s : Bus) (id : ℕ) (m : FragmentMeta) (h : s.fault ≠ some .pipeline) :
    (s.opened id m).fault ≠ some .pipeline := by
  unfold opened require
  split
  · split
    · exact h
    · exact nofun
  · exact h

/-- The receiver for a fragment is one of its mode and sequence number that the map has, or
a new one. -/
theorem moves_ensureRecvCommand (calm : Prop) (h : Stored s) (env : BusEnv) (m : FragmentMeta)
    (hlast : m.type = .reliable → s.incompleteReliableReceiver ≠ none →
      m.sequence = s.lastRecvReliableSequence) :
    Moves calm s (s.ensureRecvCommand env m).1 ∧ Stored (s.ensureRecvCommand env m).1 ∧
      ∀ id, (s.ensureRecvCommand env m).2 = some id → ∃ r,
        (s.ensureRecvCommand env m).1.receivers id = some r ∧ r.type = m.type ∧
          r.sequence = m.sequence ∧ r.sequenceEntry = true := by
  obtain ⟨hmoves, hkept⟩ := moves_cleanupLoop calm env s.receiversHeap.length h
  unfold ensureRecvCommand
  change Moves calm s (s.cleanupExpiredReceivers env) at hmoves
  change Kept s (s.cleanupExpiredReceivers env) at hkept
  have hstored := hmoves.stored h
  generalize s.cleanupExpiredReceivers env = s' at hmoves hkept hstored ⊢
  dsimp only
  cases hget : s'.mapGet m.sequence with
  | some id =>
      dsimp only
      obtain ⟨r, hr, hsequence, hentry⟩ := hstored.entries _ (mapGet_eq_some hget)
      rw [show s'.receivers id = some r from hr]
      dsimp only
      split
      · rename_i hchecked
        refine ⟨hmoves, hstored, ?_⟩
        rintro j ⟨⟩
        rw [ModeReceiver.checkMeta, decide_eq_true_eq] at hchecked
        exact ⟨r, hr, hchecked.1, hsequence, hentry⟩
      · exact ⟨hmoves, hstored, fun _ hid => by cases hid⟩
  | none =>
      dsimp only
      cases hacquire : env.acquire with
      | none => exact ⟨hmoves, hstored, fun _ hid => by cases hid⟩
      | some id =>
          dsimp only
          split
          · exact ⟨hmoves, hstored, fun _ hid => by cases hid⟩
          · rename_i hfree
            have hnone := Option.not_isSome_iff_eq_none.mp hfree
            set s₂ : Bus := { s' with
              receivers := Function.update s'.receivers id (some (.init m))
              receiversMap := (m.sequence, id) :: s'.receiversMap } with hs₂
            change Moves calm s ((s₂.opened id m).enqueue id) ∧
              Stored ((s₂.opened id m).enqueue id) ∧ ∀ j, some id = some j → ∃ r,
                ((s₂.opened id m).enqueue id).receivers j = some r ∧ r.type = m.type ∧
                  r.sequence = m.sequence ∧ r.sequenceEntry = true
            obtain ⟨hreceivers, hmap, hheap, hqueued⟩ := opened_eq s₂ id m
            have hinserted : Stored ((s₂.opened id m).enqueue id) := by
              refine hstored.inserted m hnone (mapGet_eq_none hget) hreceivers hmap hheap ?_
              intro j hj
              change Function.update (s₂.opened id m).queued id true j = s'.queued j
              rw [Function.update_of_ne hj, hqueued]
            have hopened : Kept (s'.opened id m) ((s₂.opened id m).enqueue id) := by
              unfold opened require
              rw [hs₂]
              split
              · dsimp only
                split <;> exact ⟨rfl, rfl, rfl, rfl, rfl, rfl⟩
              · exact ⟨rfl, rfl, rfl, rfl, rfl, rfl⟩
            refine ⟨hmoves.tail hstored (.insert id m hnone (mapGet_eq_none hget) ?_ hreceivers
              hopened) hinserted, hinserted, ?_⟩
            · intro htype hincomplete
              rw [hkept.reliable]
              exact hlast htype (by rwa [← hkept.incomplete])
            · rintro j ⟨⟩
              refine ⟨.init m, ?_, rfl, rfl, rfl⟩
              change (s₂.opened id m).receivers id = _
              rw [hreceivers]
              exact Function.update_self ..

theorem addFragment_eq (hr : s.receivers id = some r) (m : FragmentMeta) (content : Bytes) :
    (s.addFragment id m content).receivers = Function.update s.receivers id
      (some (r.modify fun receiver => receiver.addFragment m.toMeta content)) ∧
    (s.addFragment id m content).receiversMap = s.receiversMap ∧
    (s.addFragment id m content).receiversHeap = s.receiversHeap ∧
    (∀ j, j ≠ id → (s.addFragment id m content).queued j = s.queued j) ∧
    ((r.modify fun receiver => receiver.addFragment m.toMeta content).stage = r.stage →
      (s.addFragment id m content).queued id = s.queued id) ∧
    Kept s (s.addFragment id m content) := by
  have hreceivers : (s.modifyReceiver id fun _ =>
      r.modify fun receiver => receiver.addFragment m.toMeta content).receivers =
        Function.update s.receivers id
          (some (r.modify fun receiver => receiver.addFragment m.toMeta content)) := by
    simp [modifyReceiver, hr]
  unfold addFragment
  simp only [hr]
  split
  · rename_i hchanged
    exact ⟨hreceivers, rfl, rfl, fun j hj => Function.update_of_ne hj ..,
      fun hsame => absurd hsame hchanged, rfl, rfl, rfl, rfl, rfl, rfl⟩
  · exact ⟨hreceivers, rfl, rfl, fun _ _ => rfl, fun _ => rfl, rfl, rfl, rfl, rfl, rfl, rfl⟩

theorem Stored.addFragment (h : Stored s) (hr : s.receivers id = some r) (m : FragmentMeta)
    (content : Bytes) : Stored (s.addFragment id m content) := by
  obtain ⟨hreceivers, hmap, hheap, hother, hqueued, -⟩ := addFragment_eq hr m content
  have hplaced := h.receiver id r hr
  have hstage := hplaced.filled.stage_addFragment m.toMeta content
  refine h.written hr _ hreceivers hmap hheap hother
    (Receiver.sequence_addFragment _ m.toMeta content) rfl rfl rfl ?_
  refine ⟨hplaced.attached, hplaced.detached, hplaced.mapped, hplaced.heaped, ?_, ?_,
    hplaced.filled.addFragment m.toMeta content⟩
  · rcases hstage with hsame | ⟨hwait, hverify⟩
    · rw [hsame]
      exact hplaced.task
    · rw [hverify]
      refine ⟨fun htask => ?_, fun ⟨_, hchecking⟩ => nomatch hchecking⟩
      obtain ⟨embedded, hchecking⟩ := hplaced.task.mp htask
      rw [hwait] at hchecking
      cases hchecking
  · intro hwait hq
    rcases hstage with hsame | ⟨-, hverify⟩
    · exact hplaced.waiting (hsame ▸ hwait) (hqueued hsame ▸ hq)
    · rw [hverify] at hwait
      cases hwait

theorem handleReceiverComplete_eq (s : Bus) (env : BusEnv) (id : ℕ) (r : BusReceiver) :
    (s.handleReceiverComplete env id r).receivers = s.receivers ∧
      (s.handleReceiverComplete env id r).receiversMap = s.receiversMap ∧
      (s.handleReceiverComplete env id r).receiversHeap = s.receiversHeap ∧
      (s.handleReceiverComplete env id r).queued = s.queued := by
  unfold handleReceiverComplete require dispatchReceived
  dsimp only
  repeat' split
  all_goals exact ⟨rfl, rfl, rfl, rfl⟩

theorem fault_handleReceiverComplete (env : BusEnv) (id : ℕ) (r : BusReceiver)
    (h : s.fault ≠ some .pipeline) :
    (s.handleReceiverComplete env id r).fault ≠ some .pipeline := by
  unfold handleReceiverComplete require dispatchReceived
  dsimp only
  repeat' split
  all_goals first | exact h | exact nofun

theorem Kept.handleReceiverComplete (h : Kept s s') (env : BusEnv) (id : ℕ) (r : BusReceiver) :
    Kept (s.handleReceiverComplete env id r) (s'.handleReceiverComplete env id r) := by
  obtain ⟨receivers, queued, map, heap, incomplete, reliable, sequenced, processing, stopping,
    fault, received, delivered⟩ := s
  obtain ⟨rfl, rfl, rfl, rfl, rfl, rfl⟩ := h
  unfold Bus.handleReceiverComplete require dispatchReceived
  dsimp only
  repeat' split
  all_goals exact ⟨rfl, rfl, rfl, rfl, rfl, rfl⟩

theorem receiverComplete_eq (env : BusEnv) (hr : s.receivers id = some r)
    (hcanceled : r.canceled = false) (hbus : r.bus = true) (hentry : r.sequenceEntry = true) :
    (s.receiverComplete env id).receivers = Function.update s.receivers id none ∧
      (s.receiverComplete env id).receiversMap = s.receiversMap.erase (r.sequence, id) ∧
      (s.receiverComplete env id).receiversHeap =
        (if r.expiredEntry then s.receiversHeap.erase id else s.receiversHeap) ∧
      (s.receiverComplete env id).queued = s.queued ∧
      Kept (s.handleReceiverComplete env id r) (s.receiverComplete env id) := by
  unfold receiverComplete
  simp only [hr, hcanceled, hbus, hentry, Bool.false_eq_true, if_false, require, if_true]
  set s₂ : Bus := ((if r.expiredEntry = true then s.heapRemove id else s).mapRemove r.sequence
    id).modifyReceiver id fun r => { r with expiredEntry := false, sequenceEntry := false } with hs₂
  have hplaces : s₂.receivers = Function.update s.receivers id
        (some { r with expiredEntry := false, sequenceEntry := false }) ∧
      s₂.receiversMap = s.receiversMap.erase (r.sequence, id) ∧
      s₂.receiversHeap = (if r.expiredEntry then s.receiversHeap.erase id else s.receiversHeap) ∧
      s₂.queued = s.queued ∧ Kept s s₂ := by
    rw [hs₂]
    split
    · exact ⟨by simp [modifyReceiver, mapRemove, heapRemove, hr], rfl, rfl, rfl, rfl, rfl, rfl, rfl,
        rfl, rfl⟩
    · exact ⟨by simp [modifyReceiver, mapRemove, hr], rfl, rfl, rfl, rfl, rfl, rfl, rfl, rfl, rfl⟩
  obtain ⟨hreceivers, hmap, hheap, hqueued, hkept⟩ := hplaces
  obtain ⟨hreceivers', hmap', hheap', hqueued'⟩ := handleReceiverComplete_eq s₂ env id r
  have hfreed : (s₂.handleReceiverComplete env id r).receivers id =
      some { r with expiredEntry := false, sequenceEntry := false } := by
    rw [hreceivers', hreceivers, Function.update_self]
  rw [release_eq hfreed (by simp)]
  refine ⟨?_, ?_, ?_, ?_, ?_⟩
  · change Function.update (s₂.handleReceiverComplete env id r).receivers id none = _
    rw [hreceivers', hreceivers, Function.update_idem]
  · exact hmap'.trans hmap
  · exact hheap'.trans hheap
  · exact hqueued'.trans hqueued
  · have hhandled := hkept.handleReceiverComplete env id r
    exact ⟨hhandled.incomplete, hhandled.reliable, hhandled.sequenced, hhandled.fault,
      hhandled.received, hhandled.delivered⟩

theorem Placement.not_canceled_of_stage {mapped heaped queued : Prop}
    (h : Placement mapped heaped queued r) (hstage : ∀ embedded, r.stage ≠ .checking embedded) :
    r.canceled = false := by
  cases hcanceled : r.canceled with
  | false => rfl
  | true =>
      obtain ⟨embedded, hchecking⟩ := h.task.mp (h.detached hcanceled).2.2
      exact absurd hchecking (hstage embedded)

theorem Stored.attached_of_complete (h : Stored s) (hr : s.receivers id = some r)
    (hstage : r.stage = .complete) :
    r.canceled = false ∧ r.bus = true ∧ r.sequenceEntry = true := by
  have hplaced := h.receiver id r hr
  have hcanceled := hplaced.not_canceled_of_stage fun embedded heq => by cases hstage.symm.trans heq
  exact ⟨hcanceled, hplaced.attached hcanceled⟩

theorem moves_receiverComplete (h : Stored s) (env : BusEnv) (hr : s.receivers id = some r)
    (hstage : r.stage = .complete) : Moves calm s (s.receiverComplete env id) := by
  have hplaced := h.receiver id r hr
  obtain ⟨hcanceled, hbus, hentry⟩ := h.attached_of_complete hr hstage
  obtain ⟨hreceivers, hmap, hheap, hqueued, hkept⟩ :=
    receiverComplete_eq env hr hcanceled hbus hentry
  refine .single h (.complete env id r hr hentry hstage hplaced.filled hreceivers hkept) ?_
  refine h.left hr none hreceivers ?_ hheap (fun j _ => by rw [hqueued]) fun _ heq => nomatch heq
  rw [hmap, hentry, if_pos rfl]

theorem Placement.task_eq_false {mapped heaped queued : Prop} (h : Placement mapped heaped queued r)
    (hstage : ∀ embedded, r.stage ≠ .checking embedded) : r.checksumVerifyTask = false := by
  cases htask : r.checksumVerifyTask with
  | false => rfl
  | true =>
      obtain ⟨embedded, hchecking⟩ := h.task.mp htask
      exact absurd hchecking (hstage embedded)

theorem moves_waitFragments (h : Stored s) (env : BusEnv) (hr : s.receivers id = some r)
    (hstage : r.stage = .waitFragments) (hfree : r.expiredEntry = false)
    (hqueued : s.queued id = false) : Moves calm s (s.waitFragments env id) := by
  have hplaced := h.receiver id r hr
  have htask := hplaced.task_eq_false fun embedded heq => by cases hstage.symm.trans heq
  unfold waitFragments
  simp only [hr]
  split
  · have hreceivers : (s.modifyReceiver id fun r => { r with expiredTime := 0 }).receivers =
        Function.update s.receivers id (some { r with expiredTime := 0 }) := by
      simp [modifyReceiver, hr]
    refine .single h (.write id r { r with expiredTime := 0 } hr hreceivers rfl rfl rfl
      (fun hbegun => hbegun) ⟨rfl, rfl, rfl, rfl, rfl, rfl⟩) ?_
    exact h.written hr { r with expiredTime := 0 } hreceivers rfl rfl (fun _ _ => rfl) rfl rfl rfl
      rfl ⟨hplaced.attached, hplaced.detached, hplaced.mapped, hplaced.heaped, hplaced.task,
        hplaced.waiting, hplaced.filled.nonempty, hplaced.filled.count, hplaced.filled.all,
        hplaced.filled.failed⟩
  · rename_i hexpiring
    split
    · set r' : BusReceiver :=
        { r with expiredTime := env.now + aliveTime env.rttMean, expiredEntry := true } with hr'
      have hreceivers : ({ s with receiversHeap := id :: s.receiversHeap }.modifyReceiver id
          fun r => { r with
            expiredTime := env.now + aliveTime env.rttMean, expiredEntry := true }).receivers =
          Function.update s.receivers id (some r') := by
        simp [modifyReceiver, hr, hr']
      refine .single h (.write id r r' hr hreceivers rfl rfl rfl (fun hbegun => hbegun)
        ⟨rfl, rfl, rfl, rfl, rfl, rfl⟩) ?_
      refine h.pushed hr r' hreceivers rfl rfl (fun _ _ => rfl) hfree hexpiring rfl rfl rfl rfl ?_
      refine ⟨hplaced.attached, fun hcanceled => ?_, hplaced.mapped, fun _ => trivial, hplaced.task,
        fun _ hq => ?_, hplaced.filled.nonempty, hplaced.filled.count, hplaced.filled.all,
        hplaced.filled.failed⟩
      · have hyes := (hplaced.detached hcanceled).2.2
        rw [htask] at hyes
        cases hyes
      · exact absurd (hqueued.symm.trans hq) nofun
    · set r' : BusReceiver :=
        { r.modify Receiver.fail with expiredTime := env.now + aliveTime env.rttMean } with hr'
      have hreceivers : ((s.modifyReceiver id fun r =>
          { r.modify Receiver.fail with
            expiredTime := env.now + aliveTime env.rttMean }).enqueue id).receivers =
          Function.update s.receivers id (some r') := by
        simp [enqueue, modifyReceiver, hr, hr']
      refine .single h (.write id r r' hr hreceivers rfl rfl rfl (fun hbegun => hbegun)
        ⟨rfl, rfl, rfl, rfl, rfl, rfl⟩) ?_
      refine h.written hr r' hreceivers rfl rfl (fun j hj => Function.update_of_ne hj ..) rfl rfl
        rfl rfl ?_
      have hfilled := BusReceiver.filled_fail hplaced.filled
      refine ⟨hplaced.attached, fun hcanceled => ?_, hplaced.mapped, hplaced.heaped, ?_, nofun,
        hfilled.nonempty, hfilled.count, hfilled.all, hfilled.failed⟩
      · have hyes := (hplaced.detached hcanceled).2.2
        rw [htask] at hyes
        cases hyes
      · rw [show r'.checksumVerifyTask = false from htask]
        exact ⟨nofun, fun ⟨_, hchecking⟩ => nomatch hchecking⟩

theorem begun_of_isSome (h : r.Filled) (hsome : ∀ f ∈ r.base.receiver.fragments, f.isSome) :
    r.Begun := by
  obtain ⟨first, rest, hfragments⟩ := List.exists_cons_of_ne_nil h.nonempty
  rw [hfragments] at hsome
  obtain ⟨content, hcontent⟩ := Option.isSome_iff_exists.mp (hsome first List.mem_cons_self)
  exact ⟨content, by rw [hfragments, hcontent]; rfl⟩

theorem begun_of_filled (h : r.Filled) (hstage : r.stage ≠ .waitFragments)
    (hfailed : r.stage ≠ .complete) : r.Begun := by
  rcases h.all hstage with hfail | hsome
  · exact absurd (h.failed hfail) hfailed
  · exact begun_of_isSome h hsome

theorem moves_verifyChecksum (h : Stored s) (env : BusEnv) (hr : s.receivers id = some r)
    (hstage : r.stage = .verifyChecksum) : Moves calm s (s.verifyChecksum env id) := by
  have hplaced := h.receiver id r hr
  have htask := hplaced.task_eq_false fun embedded heq => by cases hstage.symm.trans heq
  have hbegun : r.Begun := begun_of_filled hplaced.filled
    (fun heq => by cases hstage.symm.trans heq) fun heq => by cases hstage.symm.trans heq
  have hfilled := hplaced.filled.verifyChecksum hstage env.worker
  have hsequence := r.base.receiver.sequence_verifyChecksum env.worker
  have hno : ∀ {p : Prop}, r.canceled = true → p := by
    intro p hcanceled
    have hyes := (hplaced.detached hcanceled).2.2
    rw [htask] at hyes
    cases hyes
  unfold Bus.verifyChecksum
  simp only [hr]
  set verified := r.modify fun receiver => receiver.verifyChecksum env.worker with hverified
  split
  · rename_i embedded hchecking
    have hreceivers : (s.modifyReceiver id fun _ =>
        { verified with checksumVerifyTask := true }).receivers =
          Function.update s.receivers id (some { verified with checksumVerifyTask := true }) := by
      simp [modifyReceiver, hr]
    refine .single h (.write id r { verified with checksumVerifyTask := true } hr hreceivers
      hsequence rfl rfl (fun _ => hbegun) ⟨rfl, rfl, rfl, rfl, rfl, rfl⟩) ?_
    refine h.written hr _ hreceivers rfl rfl (fun _ _ => rfl) hsequence rfl rfl rfl ?_
    refine ⟨hplaced.attached, fun hcanceled => hno hcanceled, hplaced.mapped, hplaced.heaped,
      ⟨fun _ => ⟨embedded, hchecking⟩, fun _ => rfl⟩, fun hwait => ?_, hfilled.nonempty,
      hfilled.count, hfilled.all, hfilled.failed⟩
    rw [show verified.stage = .waitFragments from hwait] at hchecking
    cases hchecking
  · rename_i hother
    have hcomplete : verified.stage = .complete :=
      (BusReceiver.stage_verifyChecksum hstage env.worker).resolve_right
        fun hchecking => hchecking.elim hother
    have hreceivers : ((s.modifyReceiver id fun _ => verified).enqueue id).receivers =
        Function.update s.receivers id (some verified) := by
      simp [enqueue, modifyReceiver, hr]
    refine .single h (.write id r verified hr hreceivers hsequence rfl rfl (fun _ => hbegun)
      ⟨rfl, rfl, rfl, rfl, rfl, rfl⟩) ?_
    refine h.written hr _ hreceivers rfl rfl (fun j hj => Function.update_of_ne hj ..) hsequence rfl
      rfl rfl ?_
    refine ⟨hplaced.attached, fun hcanceled => hno hcanceled, hplaced.mapped, hplaced.heaped,
      ⟨fun hyes => ?_, fun hchecking => (hchecking.elim hother).elim⟩,
      fun hwait => ?_, hfilled⟩
    · rw [show verified.checksumVerifyTask = false from htask] at hyes
      cases hyes
    · rw [hcomplete] at hwait
      cases hwait

theorem Stored.dequeued (h : Stored s) (id : ℕ) :
    Stored { s with queued := Function.update s.queued id false } := by
  refine h.requeued rfl rfl rfl fun j hj => .inl ?_
  by_cases hid : j = id
  · rw [hid] at hj
    exact absurd ((Function.update_self ..).symm.trans hj) nofun
  · have hsame : Function.update s.queued id false j = s.queued j := Function.update_of_ne hid ..
    exact hsame.symm.trans hj

/-- The queue has the stage of a receiver unless it waits for fragments or for its worker. -/
def Due (stage : ReceiverStage) (queued : Bool) : Prop :=
  match stage with
  | .waitFragments => True
  | .checking _ => queued = false
  | .verifyChecksum | .complete => queued = true

/-- A stage but the last one writes its receiver, and what follows is in the queue or with a
worker. -/
structure Staged (env : BusEnv) (id : ℕ) (r r' : BusReceiver) (s s' : Bus) : Prop where
  receivers : s'.receivers = Function.update s.receivers id (some r')
  type : r'.type = r.type
  sequence : r'.sequence = r.sequence
  due : Due r'.stage (s'.queued id)
  reliable : r.type = .reliable → r'.base.receiver =
    if r.stage = .verifyChecksum then r.base.receiver.verifyChecksum env.worker
    else r.base.receiver
  queued : ∀ j, j ≠ id → s'.queued j = s.queued j
  map : s'.receiversMap = s.receiversMap
  kept : Kept s s'

theorem staged_executeCurrentTask (env : BusEnv) (hr : s.receivers id = some r)
    (hstage : r.stage ≠ .complete) :
    ∃ r', Staged env id r r' s (s.executeCurrentTask env id) := by
  have hdequeued : ∀ j, j ≠ id → Function.update s.queued id false j = s.queued j := fun j hj =>
    Function.update_of_ne hj ..
  have hrequeued : ∀ j, j ≠ id →
      Function.update (Function.update s.queued id false) id true j = s.queued j := fun j hj =>
    (Function.update_of_ne hj ..).trans (hdequeued j hj)
  unfold Bus.executeCurrentTask
  cases hcurrent : r.stage with
  | waitFragments =>
      have hwaits : ∀ queued, Due r.stage queued := fun queued => by
        rw [hcurrent]
        trivial
      have hsame : r.base.receiver = if r.stage = .verifyChecksum then
          r.base.receiver.verifyChecksum env.worker else r.base.receiver := by
        rw [if_neg (by simp [hcurrent])]
      unfold Bus.waitFragments
      simp only [hr, hcurrent]
      split
      · refine ⟨{ r with expiredTime := 0 }, ?_, rfl, rfl, hwaits _, fun _ => hsame, hdequeued, rfl,
          rfl, rfl, rfl, rfl, rfl, rfl⟩
        simp [modifyReceiver, hr]
      · rename_i htype
        split
        · refine ⟨{ r with expiredTime := env.now + aliveTime env.rttMean, expiredEntry := true },
            ?_, rfl, rfl, hwaits _, fun _ => hsame, hdequeued, rfl, rfl, rfl, rfl, rfl, rfl, rfl⟩
          simp [modifyReceiver, hr]
        · refine ⟨{ r.modify Receiver.fail with expiredTime := env.now + aliveTime env.rttMean },
            ?_, rfl, rfl, Function.update_self .., fun hreliable => absurd hreliable htype,
            hrequeued, rfl, rfl, rfl, rfl, rfl, rfl, rfl⟩
          simp [modifyReceiver, enqueue, hr]
  | verifyChecksum =>
      have hsequence := r.base.receiver.sequence_verifyChecksum env.worker
      have hverified : r.base.receiver.verifyChecksum env.worker =
          if r.stage = .verifyChecksum then r.base.receiver.verifyChecksum env.worker
          else r.base.receiver := by
        rw [if_pos hcurrent]
      unfold Bus.verifyChecksum
      simp only [hr, hcurrent]
      split
      · rename_i embedded hchecking
        refine ⟨{ r.modify (fun receiver => receiver.verifyChecksum env.worker) with
          checksumVerifyTask := true }, ?_, rfl, hsequence, ?_, fun _ => hverified, hdequeued, rfl,
          rfl, rfl, rfl, rfl, rfl, rfl⟩
        · simp [modifyReceiver, hr]
        · change Due (r.modify fun receiver => receiver.verifyChecksum env.worker).stage _
          rw [hchecking]
          exact Function.update_self ..
      · rename_i hnot
        refine ⟨r.modify fun receiver => receiver.verifyChecksum env.worker, ?_, rfl, hsequence, ?_,
          fun _ => hverified, hrequeued, rfl, rfl, rfl, rfl, rfl, rfl, rfl⟩
        · simp [modifyReceiver, enqueue, hr]
        · rw [(BusReceiver.stage_verifyChecksum hcurrent env.worker).resolve_right
            fun hchecking => hchecking.elim hnot]
          exact Function.update_self ..
  | checking embedded =>
      simp only [hr, hcurrent]
      refine ⟨r, ?_, rfl, rfl, ?_, fun _ => ?_, hdequeued, rfl, rfl, rfl, rfl, rfl, rfl, rfl⟩
      · rw [← hr, Function.update_eq_self]
      · rw [hcurrent]
        exact Function.update_self ..
      · rw [if_neg (by simp [hcurrent])]
  | complete => exact absurd hcurrent hstage

theorem executeCurrentTask_of_complete (env : BusEnv) (hr : s.receivers id = some r)
    (hstage : r.stage = .complete) :
    s.executeCurrentTask env id =
      { s with queued := Function.update s.queued id false }.receiverComplete env id := by
  simp only [executeCurrentTask, hr, hstage]

theorem moves_executeCurrentTask (calm : Prop) (h : Stored s) (env : BusEnv)
    (hqueued : s.queued id = true) : Moves calm s (s.executeCurrentTask env id) := by
  unfold executeCurrentTask
  set s₁ : Bus := { s with queued := Function.update s.queued id false } with hs₁
  have hfree : s₁.queued id = false := Function.update_self ..
  have hstored : Stored s₁ := h.dequeued id
  have hdequeued : Moves calm s s₁ := .single h (.idle rfl ⟨rfl, rfl, rfl, rfl, rfl, rfl⟩) hstored
  cases hr : s.receivers id with
  | none =>
      simp only [show s₁.receivers id = none from hr]
      exact hdequeued.tail hstored (.abort rfl ⟨rfl, rfl, rfl, rfl, rfl, rfl⟩)
        (hstored.requeued rfl rfl rfl fun _ hj => .inl hj)
  | some r =>
      have hr₁ : s₁.receivers id = some r := hr
      simp only [hr₁]
      refine hdequeued.trans ?_
      cases hstage : r.stage with
      | waitFragments =>
          exact moves_waitFragments hstored env hr₁ hstage
            ((h.receiver id r hr).waiting hstage hqueued) hfree
      | verifyChecksum => exact moves_verifyChecksum hstored env hr₁ hstage
      | checking embedded => exact .refl s₁
      | complete => exact moves_receiverComplete hstored env hr₁ hstage

theorem verifyChecksumComplete_eq_of_canceled (h : Stored s) (checksum : Checksum) (env : BusEnv)
    (hr : s.receivers id = some r) {embedded : Bytes} (hstage : r.stage = .checking embedded)
    {canceled : Bool} (hcanceled : (canceled || r.canceled) = true) (computed : Bool) :
    s.verifyChecksumComplete checksum env id canceled computed = { s with
      receivers := Function.update s.receivers id none
      receiversMap :=
        if r.sequenceEntry then s.receiversMap.erase (r.sequence, id) else s.receiversMap
      receiversHeap := if r.expiredEntry then s.receiversHeap.erase id else s.receiversHeap } := by
  have hplaced := h.receiver id r hr
  unfold Bus.verifyChecksumComplete
  simp only [hr, hstage, hcanceled, if_true]
  set r' : BusReceiver := { r.modify (fun receiver => { receiver with
    failed := receiver.failed || !computed, stage := .complete }) with
      canceled := r.canceled || canceled, checksumVerifyTask := false } with hr'
  have hself : (s.modifyReceiver id fun _ => r').receivers id = some r' := by
    simp [modifyReceiver, hr]
  have hyes : r'.canceled = true := by
    rw [hr']
    rwa [Bool.or_comm] at hcanceled
  have hbus : r'.expiredEntry = true ∨ r'.sequenceEntry = true → r'.bus = true := by
    intro hentries
    cases hown : r.canceled with
    | false => exact (hplaced.attached hown).1
    | true =>
        obtain ⟨hentry, hexpired, -⟩ := hplaced.detached hown
        rcases hentries with hyes | hyes
        · exact absurd (hexpired.symm.trans hyes) nofun
        · exact absurd (hentry.symm.trans hyes) nofun
  have hcompleted : (s.modifyReceiver id fun _ => r').receiverComplete env id =
      (s.modifyReceiver id fun _ => r').release id := by
    simp only [receiverComplete, hself, hyes, if_true]
  have hreceivers : Function.update (s.modifyReceiver id fun _ => r').receivers id none =
      Function.update s.receivers id none := by
    simp [modifyReceiver]
  rw [hcompleted, release_eq hself hbus, hreceivers]
  rfl

theorem verifyChecksumComplete_eq_of_computed (checksum : Checksum) (env : BusEnv)
    (hr : s.receivers id = some r) {embedded : Bytes} (hstage : r.stage = .checking embedded)
    {canceled : Bool} (hcanceled : (canceled || r.canceled) = false) (computed : Bool) :
    s.verifyChecksumComplete checksum env id canceled computed =
      (s.modifyReceiver id (.verified checksum embedded computed)).receiverComplete env id := by
  unfold Bus.verifyChecksumComplete
  simp only [hr, hstage, hcanceled, Bool.or_comm r.canceled, Bool.false_eq_true, if_false]
  congr 1
  simp [modifyReceiver, hr, BusReceiver.verified]

/-- The worker of a receiver is done. `calm` excludes that the platform cancels it of its own
accord. -/
theorem moves_verifyChecksumComplete (calm : Prop) (h : Stored s) (checksum : Checksum)
    (env : BusEnv) (hr : s.receivers id = some r) (htask : r.checksumVerifyTask = true)
    (canceled computed : Bool)
    (hcalm : calm → ¬ (canceled = true ∧ r.canceled = false ∧ r.type = .reliable)) :
    Moves calm s (s.verifyChecksumComplete checksum env id canceled computed) := by
  have hplaced := h.receiver id r hr
  obtain ⟨embedded, hstage⟩ := hplaced.task.mp htask
  cases hcanceled : canceled || r.canceled with
  | true =>
      rw [verifyChecksumComplete_eq_of_canceled h checksum env hr hstage hcanceled]
      refine .single h (.leave id r none hr rfl (fun _ heq => nomatch heq) ?_
        ⟨rfl, rfl, rfl, rfl, rfl, rfl⟩) ?_
      · intro hq hentry htype
        have hown : r.canceled = false := by
          cases hown : r.canceled with
          | false => rfl
          | true => exact absurd ((hplaced.detached hown).1.symm.trans hentry) nofun
        rw [hown, Bool.or_false] at hcanceled
        exact hcalm hq ⟨hcanceled, hown, htype⟩
      · exact h.left hr none rfl rfl rfl (fun _ _ => rfl) fun _ heq => nomatch heq
  | false =>
      rw [verifyChecksumComplete_eq_of_computed checksum env hr hstage hcanceled]
      have hown := (Bool.or_eq_false_iff.mp hcanceled).2
      set r' := r.verified checksum embedded computed with hr'
      obtain ⟨hsequence, hfragments, hcount, hcomplete⟩ :=
        Receiver.verifyChecksumComplete_eq checksum (r := r.base.receiver) hstage computed
      have hreceivers : (s.modifyReceiver id (.verified checksum embedded computed)).receivers =
          Function.update s.receivers id (some r') := by
        simp [modifyReceiver, hr, hr']
      have hbegun : r.Begun := begun_of_filled hplaced.filled (by rw [hstage]; nofun)
        (by rw [hstage]; nofun)
      have hall : ∀ f ∈ r.base.receiver.fragments, f.isSome := by
        rcases hplaced.filled.all (by rw [hstage]; nofun) with hfailed | hall
        · have hlast := hplaced.filled.failed hfailed
          rw [hstage] at hlast
          cases hlast
        · exact hall
      have hfilled : r'.Filled := by
        refine ⟨?_, ?_, fun _ => .inr ?_, fun _ => hcomplete⟩
        · change (r.base.receiver.verifyChecksumComplete checksum embedded computed).fragments ≠ []
          rw [hfragments]
          exact hplaced.filled.nonempty
        · change (r.base.receiver.verifyChecksumComplete checksum embedded computed).recvFragments =
            (r.base.receiver.verifyChecksumComplete checksum embedded
              computed).fragments.countP Option.isSome
          rw [hfragments, hcount]
          exact hplaced.filled.count
        · change ∀ f ∈ (r.base.receiver.verifyChecksumComplete checksum embedded
            computed).fragments, f.isSome
          rw [hfragments]
          exact hall
      have hstored : Stored (s.modifyReceiver id (.verified checksum embedded computed)) := by
        refine h.written hr r' hreceivers rfl rfl (fun _ _ => rfl) hsequence rfl rfl rfl ?_
        refine ⟨fun _ => hplaced.attached hown, nofun, hplaced.mapped, hplaced.heaped,
          ⟨nofun, fun ⟨_, hchecking⟩ => ?_⟩, fun hwait => ?_, hfilled⟩
        · rw [show r'.stage = .complete from hcomplete] at hchecking
          cases hchecking
        · rw [show r'.stage = .complete from hcomplete] at hwait
          cases hwait
      refine (Moves.single h (.write id r r' hr hreceivers hsequence rfl rfl (fun _ => hbegun)
        ⟨rfl, rfl, rfl, rfl, rfl, rfl⟩) hstored).trans ?_
      exact moves_receiverComplete hstored env (by rw [hreceivers, Function.update_self]) hcomplete

/-- A receiver that has left its bus and waits for its worker. -/
def Gone (r : BusReceiver) : Prop :=
  r.canceled = true ∧ ∀ queued : Prop, Placement False False queued r

theorem gone_of_canceled {mapped heaped queued : Prop} (h : Placement mapped heaped queued r)
    (hcanceled : r.canceled = true) : Gone r := by
  obtain ⟨hentry, hexpired, htask⟩ := h.detached hcanceled
  refine ⟨hcanceled, fun _ => { h with mapped := ?_, heaped := ?_, waiting := fun _ _ => hexpired }⟩
  · rw [hentry]
    nofun
  · rw [hexpired]
    nofun

theorem Stored.gone (h : Stored s) (hr : s.receivers id = some r) (hcanceled : r.canceled = true) :
    Gone r := gone_of_canceled (h.receiver id r hr) hcanceled

/-- One turn of the loop in `pomelo_delivery_bus_stop`. -/
theorem stopTurn (env : BusEnv) (id : ℕ)
    (h : ∀ r, s'.receivers id = some r → Gone r ∨
      r.canceled = false ∧ ∃ mapped heaped queued : Prop, Placement mapped heaped queued r) :
    ∃ o, ((s'.modifyReceiver id fun r => { r with sequenceEntry := false }).receiverCancel env
        id).receivers = Function.update s'.receivers id o ∧ (∀ r, o = some r → Gone r) ∧
      ((s'.modifyReceiver id fun r => { r with sequenceEntry := false }).receiverCancel env
        id).queued = s'.queued ∧
      Kept s' ((s'.modifyReceiver id fun r => { r with sequenceEntry := false }).receiverCancel
        env id) := by
  cases hr : s'.receivers id with
  | none =>
      have hsame : (s'.modifyReceiver id fun r => { r with sequenceEntry := false }).receiverCancel
          env id = s'.modifyReceiver id fun r => { r with sequenceEntry := false } := by
        simp [Bus.receiverCancel, modifyReceiver, hr]
      rw [hsame]
      exact ⟨none, by simp [modifyReceiver, hr], (fun _ heq => nomatch heq), rfl, rfl, rfl, rfl,
        rfl, rfl, rfl⟩
  | some r =>
      have hself : (s'.modifyReceiver id fun r => { r with sequenceEntry := false }).receivers id =
          some { r with sequenceEntry := false } := by
        simp [modifyReceiver, hr]
      rcases h r hr with hgone | ⟨hcanceled, mapped, heaped, queued, hplaced⟩
      · have hsame : (s'.modifyReceiver id fun r =>
            { r with sequenceEntry := false }).receiverCancel env id =
              s'.modifyReceiver id fun r => { r with sequenceEntry := false } := by
          simp [Bus.receiverCancel, hself, hgone.1]
        have hentry : ({ r with sequenceEntry := false } : BusReceiver) = r := by
          rw [← ((hgone.2 False).detached hgone.1).1]
        rw [hsame]
        refine ⟨some r, ?_, ?_, rfl, rfl, rfl, rfl, rfl, rfl, rfl⟩
        · simp [modifyReceiver, hr, hentry]
        · rintro k ⟨⟩
          exact hgone
      · rw [receiverCancel_eq hself hcanceled (hplaced.attached hcanceled).1]
        refine ⟨if r.checksumVerifyTask then some r.detach else none, ?_, ?_, rfl, rfl, rfl, rfl,
          rfl, rfl, rfl⟩
        · simp [modifyReceiver, BusReceiver.detach]
        · intro k hk
          split at hk
          · rename_i htask
            obtain rfl : r.detach = k := Option.some.inj hk
            exact ⟨rfl, fun _ => ⟨nofun, fun _ => ⟨rfl, rfl, htask⟩, nofun, nofun, hplaced.task,
              fun _ _ => rfl, hplaced.filled.nonempty, hplaced.filled.count, hplaced.filled.all,
              hplaced.filled.failed⟩⟩
          · cases hk

/-- The loop in `pomelo_delivery_bus_stop` leaves what was cancelled before and what a worker
has. -/
theorem stopLoop (h : Stored s) (env : BusEnv) (l : List (UInt64 × ℕ)) (P : ℕ → Prop)
    (hs' : ∀ id r, s'.receivers id = some r → s.receivers id = some r ∧ P id ∨ Gone r) :
    Kept s' (l.foldl (fun s entry => (s.modifyReceiver entry.2 fun r =>
        { r with sequenceEntry := false }).receiverCancel env entry.2) s') ∧
      ∀ id r, (l.foldl (fun s entry => (s.modifyReceiver entry.2 fun r =>
        { r with sequenceEntry := false }).receiverCancel env entry.2) s').receivers id = some r →
        s.receivers id = some r ∧ P id ∧ id ∉ l.map Prod.snd ∨ Gone r := by
  induction l generalizing s' P with
  | nil =>
      refine ⟨Kept.refl s', fun id r hr => (hs' id r hr).imp_left fun ⟨hsame, hP⟩ =>
        ⟨hsame, hP, by simp⟩⟩
  | cons e l ih =>
      have hturn : ∀ r, s'.receivers e.2 = some r → Gone r ∨
          r.canceled = false ∧ ∃ mapped heaped queued : Prop, Placement mapped heaped queued r := by
        intro r hr
        rcases hs' e.2 r hr with ⟨hsame, -⟩ | hgone
        · cases hcanceled : r.canceled with
          | true => exact .inl (h.gone hsame hcanceled)
          | false => exact .inr ⟨rfl, _, _, _, h.receiver e.2 r hsame⟩
        · exact .inl hgone
      obtain ⟨o, hreceivers, ho, -, hkept⟩ := stopTurn env e.2 hturn
      obtain ⟨hkept', hrest⟩ := ih (fun id => P id ∧ id ≠ e.2) fun id r hr => by
        rw [hreceivers] at hr
        by_cases hid : id = e.2
        · rw [hid, Function.update_self] at hr
          exact .inr (ho r hr)
        · rw [Function.update_of_ne hid] at hr
          exact (hs' id r hr).imp_left fun ⟨hsame, hP⟩ => ⟨hsame, hP, hid⟩
      refine ⟨hkept.trans hkept', fun id r hr => (hrest id r hr).imp_left ?_⟩
      rintro ⟨hsame, ⟨hP, hid⟩, hnot⟩
      refine ⟨hsame, hP, ?_⟩
      simp only [List.map_cons, List.mem_cons, not_or]
      exact ⟨hid, hnot⟩

theorem stopReceivers_eq (h : Stored s) (env : BusEnv) :
    (∀ id r, (s.stopReceivers env).receivers id = some r → Gone r) ∧
      (s.stopReceivers env).fault = s.fault := by
  obtain ⟨hkept, hrest⟩ := stopLoop h env s.receiversMap (fun _ => True)
    fun id r hr => .inl ⟨hr, trivial⟩
  refine ⟨fun id r hr => ?_, hkept.fault⟩
  rcases hrest id r hr with ⟨hsame, -, hnot⟩ | hgone
  · cases hcanceled : r.canceled with
    | true => exact h.gone hsame hcanceled
    | false =>
        have hplaced := h.receiver id r hsame
        have hmem := hplaced.mapped (hplaced.attached hcanceled).2
        exact absurd (List.mem_map_of_mem (f := Prod.snd) hmem) hnot
  · exact hgone

theorem Stored.stopReceivers (h : Stored s) (env : BusEnv) : Stored (s.stopReceivers env) := by
  obtain ⟨hgone, -⟩ := stopReceivers_eq h env
  refine ⟨List.nodup_nil, nofun, List.nodup_nil, nofun, fun id r hr => ?_⟩
  obtain ⟨-, hplaced⟩ := hgone id r hr
  have hplaced := hplaced ((s.stopReceivers env).queued id = true)
  exact { hplaced with
    mapped := fun hentry => (hplaced.mapped hentry).elim
    heaped := fun hexpired => (hplaced.heaped hexpired).elim }

end Move

section Steps

variable {calm : Prop} {s s' : Bus} {id : ℕ} {r : BusReceiver}

/-- The end of `pomelo_delivery_bus_recv_fragment_data`: the receiver that was found, if there
is one, gets the fragment. -/
def given (m : FragmentMeta) (content : Bytes) : Bus × Option ℕ → Bus
  | (s, none) => s
  | (s, some id) => s.addFragment id m content

theorem given_ensureRecvCommand (calm : Prop) (h : Stored s) (env : BusEnv) (m : FragmentMeta)
    (content : Bytes) (hlast : m.type = .reliable → s.incompleteReliableReceiver ≠ none →
      m.sequence = s.lastRecvReliableSequence) :
    ∃ s₂, Moves calm s s₂ ∧ (given m content (s.ensureRecvCommand env m) = s₂ ∨
      ∃ id r, s₂.receivers id = some r ∧ r.type = m.type ∧ r.sequence = m.sequence ∧
        r.sequenceEntry = true ∧
          given m content (s.ensureRecvCommand env m) = s₂.addFragment id m content) := by
  obtain ⟨hmoves, -, hreceiver⟩ := moves_ensureRecvCommand calm h env m hlast
  generalize s.ensureRecvCommand env m = e at hmoves hreceiver ⊢
  obtain ⟨s₂, o⟩ := e
  refine ⟨s₂, hmoves, ?_⟩
  cases o with
  | none => exact .inl rfl
  | some id =>
      obtain ⟨r, hr, htype, hsequence, hentry⟩ := hreceiver id rfl
      exact .inr ⟨id, r, hr, htype, hsequence, hentry, rfl⟩

theorem recvFragmentData_cases (calm : Prop) (h : Stored s) (env : BusEnv) (m : FragmentMeta)
    (content : Bytes) :
    ∃ s₁, (m.type ≠ .sequenced ∧ s₁ = s ∨ m.type = .sequenced ∧
        s₁ = { s with received := s.received ++ [(m.sequence, m.fragmentIndex.toNat)] }) ∧
      ∃ s₂, Moves calm s₁ s₂ ∧ (s.recvFragmentData env m content = s₂ ∨
        ∃ id r, s₂.receivers id = some r ∧ r.type = m.type ∧ r.sequence = m.sequence ∧
          r.sequenceEntry = true ∧
            s.recvFragmentData env m content = s₂.addFragment id m content) := by
  unfold recvFragmentData
  dsimp only
  split
  · rename_i htype
    have hne : m.type ≠ .sequenced := by
      rw [htype]
      decide
    refine ⟨s, .inl ⟨hne, rfl⟩, ?_⟩
    split
    · split
      · exact ⟨s, .refl s, .inl rfl⟩
      · rename_i hlast
        exact given_ensureRecvCommand calm h env m content fun _ _ => not_not.mp hlast
    · rename_i hidle
      split
      · exact ⟨s, .refl s, .inl rfl⟩
      · exact given_ensureRecvCommand calm h env m content
          fun _ hne => absurd (Option.not_isSome_iff_eq_none.mp hidle) hne
  · rename_i htype
    split
    · rename_i hsequenced
      refine ⟨_, .inr ⟨hsequenced, rfl⟩, ?_⟩
      split
      · exact ⟨_, .refl _, .inl rfl⟩
      · refine given_ensureRecvCommand calm ?_ env m content fun hreliable => absurd hreliable htype
        exact h.requeued rfl rfl rfl fun _ hj => .inl hj
    · rename_i hsequenced
      exact ⟨s, .inl ⟨hsequenced, rfl⟩, given_ensureRecvCommand calm h env m content
        fun hreliable => absurd hreliable htype⟩

theorem Stored.recvFragmentData (h : Stored s) (env : BusEnv) (m : FragmentMeta) (content : Bytes) :
    Stored (s.recvFragmentData env m content) := by
  obtain ⟨s₁, hs₁, s₂, hmoves, hcases⟩ := recvFragmentData_cases False h env m content
  have hstored : Stored s₁ := by
    rcases hs₁ with ⟨-, rfl⟩ | ⟨-, rfl⟩
    · exact h
    · exact h.requeued rfl rfl rfl fun _ hj => .inl hj
  rcases hcases with heq | ⟨id, r, hr, -, -, -, heq⟩
  · rw [heq]
    exact hmoves.stored hstored
  · rw [heq]
    exact (hmoves.stored hstored).addFragment hr m content

/-- The reliable receiver of the bus is the one in the map. -/
structure Reliable (s : Bus) : Prop where
  incomplete : ∀ id, s.incompleteReliableReceiver = some id ↔
    ∃ r, s.receivers id = some r ∧ r.type = .reliable ∧ r.sequenceEntry = true
  last : ∀ id r, s.incompleteReliableReceiver = some id → s.receivers id = some r →
    r.sequence = s.lastRecvReliableSequence
  fault : s.fault ≠ some .bus

theorem Reliable.fault_eq_none (h : Reliable s) (hpipeline : s.fault ≠ some .pipeline) :
    s.fault = none := by
  cases hfault : s.fault with
  | none => rfl
  | some fault =>
      cases fault with
      | bus => exact absurd hfault h.fault
      | pipeline => exact absurd hfault hpipeline

theorem reliable_start : Reliable start where
  incomplete _ := ⟨fun heq => (nomatch heq), fun ⟨_, heq, _⟩ => (nomatch heq)⟩
  last _ _ heq := nomatch heq
  fault heq := nomatch heq

theorem Reliable.kept (h : Reliable s) (hreceivers : s'.receivers = s.receivers)
    (hincomplete : s'.incompleteReliableReceiver = s.incompleteReliableReceiver)
    (hlast : s'.lastRecvReliableSequence = s.lastRecvReliableSequence)
    (hfault : s'.fault ≠ some .bus) : Reliable s' := by
  refine ⟨?_, ?_, hfault⟩
  · rw [hincomplete, hreceivers]
    exact h.incomplete
  · rw [hincomplete, hreceivers, hlast]
    exact h.last

theorem Reliable.written (h : Reliable s) (hr : s.receivers id = some r) {r' : BusReceiver}
    (hreceivers : s'.receivers = Function.update s.receivers id (some r'))
    (hsequence : r'.sequence = r.sequence) (htype : r'.type = r.type)
    (hentry : r'.sequenceEntry = r.sequenceEntry) (hkept : Kept s s') : Reliable s' := by
  have hcases : ∀ {j : ℕ} {k : BusReceiver}, s'.receivers j = some k →
      ∃ k', s.receivers j = some k' ∧ k.type = k'.type ∧ k.sequence = k'.sequence ∧
        k.sequenceEntry = k'.sequenceEntry := by
    intro j k hk
    rw [hreceivers] at hk
    by_cases hj : j = id
    · rw [hj, Function.update_self] at hk
      rw [← Option.some.inj hk, hj]
      exact ⟨r, hr, htype, hsequence, hentry⟩
    · rw [Function.update_of_ne hj] at hk
      exact ⟨k, hk, rfl, rfl, rfl⟩
  refine ⟨fun j => ?_, ?_, by rw [hkept.fault]; exact h.fault⟩
  · rw [hkept.incomplete, h.incomplete j]
    constructor
    · rintro ⟨k, hk, hktype, hkentry⟩
      by_cases hj : j = id
      · subst hj
        obtain rfl : r = k := Option.some.inj (hr.symm.trans hk)
        refine ⟨r', ?_, htype.trans hktype, hentry.trans hkentry⟩
        rw [hreceivers, Function.update_self]
      · refine ⟨k, ?_, hktype, hkentry⟩
        rw [hreceivers, Function.update_of_ne hj]
        exact hk
    · rintro ⟨k, hk, hktype, hkentry⟩
      obtain ⟨k', hk', htype', -, hentry'⟩ := hcases hk
      exact ⟨k', hk', htype'.symm.trans hktype, hentry'.symm.trans hkentry⟩
  · intro j k hj hk
    obtain ⟨k', hk', -, hsequence', -⟩ := hcases hk
    rw [hkept.incomplete] at hj
    rw [hkept.reliable, hsequence']
    exact h.last j k' hj hk'

theorem Reliable.left (h : Reliable s) (hr : s.receivers id = some r) {o : Option BusReceiver}
    (hreceivers : s'.receivers = Function.update s.receivers id o)
    (ho : ∀ r', o = some r' → r'.sequenceEntry = false)
    (hincomplete : s'.incompleteReliableReceiver =
      if r.type = .reliable ∧ r.sequenceEntry = true then none else s.incompleteReliableReceiver)
    (hlast : s'.lastRecvReliableSequence = s.lastRecvReliableSequence)
    (hfault : s'.fault ≠ some .bus) : Reliable s' := by
  have hcases : ∀ j, s'.incompleteReliableReceiver = some j ↔
      j ≠ id ∧ s.incompleteReliableReceiver = some j := by
    intro j
    rw [hincomplete]
    split
    · rename_i hreliable
      have hself := (h.incomplete id).mpr ⟨r, hr, hreliable⟩
      refine ⟨nofun, ?_⟩
      rintro ⟨hj, hincomplete'⟩
      exact absurd (Option.some.inj (hincomplete'.symm.trans hself)) hj
    · rename_i hreliable
      refine ⟨fun hj => ⟨?_, hj⟩, And.right⟩
      rintro rfl
      obtain ⟨k, hk, hkreliable⟩ := (h.incomplete j).mp hj
      obtain rfl : r = k := Option.some.inj (hr.symm.trans hk)
      exact hreliable hkreliable
  have hother : ∀ j, j ≠ id → s'.receivers j = s.receivers j := fun j hj => by
    rw [hreceivers, Function.update_of_ne hj]
  refine ⟨fun j => ?_, fun j k hj hk => ?_, hfault⟩
  · rw [hcases j, h.incomplete j]
    by_cases hj : j = id
    · subst hj
      refine ⟨fun ⟨hne, _⟩ => absurd rfl hne, ?_⟩
      rintro ⟨k, hk, -, hentry⟩
      rw [hreceivers, Function.update_self] at hk
      rw [ho k hk] at hentry
      cases hentry
    · rw [hother j hj]
      exact and_iff_right hj
  · obtain ⟨hne, hj⟩ := (hcases j).mp hj
    rw [hother j hne] at hk
    rw [hlast]
    exact h.last j k hj hk

/-- A move that cancels no reliable receiver keeps the reliable one. -/
theorem Reliable.move (h : Reliable s) (hs : Stored s) (hmove : Move True s s') : Reliable s' := by
  cases hmove with
  | idle receivers kept =>
      exact h.kept receivers kept.incomplete kept.reliable (by rw [kept.fault]; exact h.fault)
  | abort receivers kept =>
      exact h.kept receivers kept.incomplete kept.reliable (by rw [kept.fault]; nofun)
  | write id r r' receiver receivers sequence type entry _ kept =>
      exact h.written receiver receivers sequence type entry kept
  | insert id m free key last receivers kept =>
      have hnone : m.type = .reliable → s.incompleteReliableReceiver = none := by
        intro htype
        cases hincomplete : s.incompleteReliableReceiver with
        | none => rfl
        | some j =>
            obtain ⟨k, hk, -, hentry⟩ := (h.incomplete j).mp hincomplete
            have hmem := (hs.receiver j k hk).mapped hentry
            rw [h.last j k hincomplete hk,
              ← last htype (by rw [hincomplete]; nofun)] at hmem
            exact absurd hmem (key j)
      have hother : ∀ j, j ≠ id → s'.receivers j = s.receivers j := fun j hj => by
        rw [receivers, Function.update_of_ne hj]
      have hself : s'.receivers id = some (.init m) := by rw [receivers, Function.update_self]
      have hfree : s.incompleteReliableReceiver ≠ some id := fun hincomplete => by
        obtain ⟨k, hk, -⟩ := (h.incomplete id).mp hincomplete
        rw [free] at hk
        cases hk
      obtain ⟨hincomplete, hreliable, -, hfault, -, -⟩ := kept
      by_cases htype : m.type = .reliable
      · have hopened : s.opened id m = { s with
            incompleteReliableReceiver := some id, lastRecvReliableSequence := m.sequence } := by
          simp [opened, require, htype, hnone htype]
        rw [hopened] at hincomplete hreliable hfault
        refine ⟨fun j => ?_, fun j k hj hk => ?_, by rw [hfault]; exact h.fault⟩
        · rw [hincomplete]
          by_cases hj : j = id
          · rw [hj, hself]
            exact ⟨fun _ => ⟨_, rfl, htype, rfl⟩, fun _ => rfl⟩
          · rw [hother j hj, ← h.incomplete j, hnone htype]
            exact ⟨fun heq => absurd (Option.some.inj heq).symm hj, nofun⟩
        · rw [hincomplete] at hj
          rw [← Option.some.inj hj, hself] at hk
          rw [← Option.some.inj hk, hreliable]
          rfl
      · rw [show s.opened id m = s from if_neg htype] at hincomplete hreliable hfault
        refine ⟨fun j => ?_, fun j k hj hk => ?_, by rw [hfault]; exact h.fault⟩
        · rw [hincomplete]
          by_cases hj : j = id
          · rw [hj, hself]
            refine ⟨fun heq => absurd heq hfree, ?_⟩
            rintro ⟨k, hk, hktype, -⟩
            rw [← Option.some.inj hk] at hktype
            exact absurd hktype htype
          · rw [hother j hj]
            exact h.incomplete j
        · rw [hincomplete] at hj
          have hne : j ≠ id := by
            rintro rfl
            exact hfree hj
          rw [hother j hne] at hk
          rw [hreliable]
          exact h.last j k hj hk
  | leave id r o receiver receivers entry calm kept =>
      refine h.left receiver receivers entry ?_ kept.reliable (by rw [kept.fault]; exact h.fault)
      rw [kept.incomplete, if_neg]
      rintro ⟨htype, hentry⟩
      exact calm trivial hentry htype
  | complete env id r receiver entry _ _ receivers kept =>
      have hself : r.type = .reliable → s.incompleteReliableReceiver = some id := fun htype =>
        (h.incomplete id).mpr ⟨r, receiver, htype, entry⟩
      have hhandled : (s.handleReceiverComplete env id r).incompleteReliableReceiver =
            (if r.type = .reliable ∧ r.sequenceEntry = true then none
              else s.incompleteReliableReceiver) ∧
          (s.handleReceiverComplete env id r).lastRecvReliableSequence =
            s.lastRecvReliableSequence ∧
          (s.handleReceiverComplete env id r).fault = s.fault := by
        unfold handleReceiverComplete dispatchReceived
        by_cases htype : r.type = .reliable
        · simp only [htype, hself htype, require, entry, if_true, decide_true, and_self]
          repeat' split
          all_goals exact ⟨rfl, rfl, rfl⟩
        · simp only [htype, if_false, false_and]
          repeat' split
          all_goals exact ⟨rfl, rfl, rfl⟩
      obtain ⟨hincomplete, hreliable, hfault⟩ := hhandled
      exact h.left receiver receivers (fun _ heq => nomatch heq) (kept.incomplete.trans hincomplete)
        (kept.reliable.trans hreliable) (by rw [kept.fault, hfault]; exact h.fault)

theorem Reliable.moves (h : Reliable s) (hmoves : Moves True s s') : Reliable s' := by
  induction hmoves with
  | refl => exact h
  | tail _ hs hmove _ ih => exact ih.move hs hmove

theorem Reliable.stopReceivers (h : Reliable s) (hs : Stored s) (env : BusEnv) :
    Reliable (s.stopReceivers env) := by
  obtain ⟨hgone, hfault⟩ := stopReceivers_eq hs env
  refine ⟨fun id => ⟨fun heq => (nomatch heq), ?_⟩, fun _ _ heq => (nomatch heq),
    by rw [hfault]; exact h.fault⟩
  rintro ⟨r, hr, -, hentry⟩
  obtain ⟨hcanceled, hplaced⟩ := hgone id r hr
  exact absurd (((hplaced False).detached hcanceled).1.symm.trans hentry) nofun

/-- The worker task of a reliable receiver that the bus has not cancelled is reported as
cancelled: the platform shuts down. -/
def CancelsReliable (s : Bus) (i : BusInput) : Prop :=
  match i.event with
  | .verifyChecksumComplete id canceled _ =>
      canceled = true ∧ ∃ r ∈ s.receivers id, r.canceled = false ∧ r.type = .reliable
  | _ => False

instance (s : Bus) (i : BusInput) : Decidable (s.CancelsReliable i) :=
  match i with
  | ⟨_, .verifyChecksumComplete id canceled _⟩ =>
      inferInstanceAs (Decidable (canceled = true ∧
        ∃ r ∈ s.receivers id, r.canceled = false ∧ r.type = .reliable))
  | ⟨_, .recvFragmentData ..⟩ | ⟨_, .stage _⟩ | ⟨_, .processSending⟩
  | ⟨_, .processSendingDeferred⟩ | ⟨_, .stop⟩ => inferInstanceAs (Decidable False)

theorem Stored.stop (h : Stored s) (env : BusEnv) : Stored (s.stop env) := by
  unfold Bus.stop
  split
  · exact h.requeued rfl rfl rfl fun _ hj => .inl hj
  · exact h.stopReceivers env

theorem Reliable.stop (h : Reliable s) (hs : Stored s) (env : BusEnv) : Reliable (s.stop env) := by
  unfold Bus.stop
  split
  · exact h.kept rfl rfl rfl h.fault
  · exact h.stopReceivers hs env

theorem Reliable.recvFragmentData (h : Reliable s) (hs : Stored s) (env : BusEnv) (m : FragmentMeta)
    (content : Bytes) : Reliable (s.recvFragmentData env m content) := by
  obtain ⟨s₁, hs₁, s₂, hmoves, hcases⟩ := recvFragmentData_cases True hs env m content
  have hreliable : Reliable s₁ := by
    rcases hs₁ with ⟨-, rfl⟩ | ⟨-, rfl⟩
    · exact h
    · exact h.kept rfl rfl rfl h.fault
  rcases hcases with heq | ⟨id, r, hr, -, -, -, heq⟩
  · rw [heq]
    exact hreliable.moves hmoves
  · rw [heq]
    obtain ⟨hreceivers, -, -, -, -, hkept⟩ := addFragment_eq hr m content
    exact (hreliable.moves hmoves).written hr hreceivers
      (Receiver.sequence_addFragment _ m.toMeta content) rfl rfl hkept

theorem Stored.step (h : Stored s) (checksum : Checksum) (i : BusInput) :
    Stored (s.step checksum i) ∧
      (Reliable s → ¬ s.CancelsReliable i → Reliable (s.step checksum i)) := by
  obtain ⟨env, event⟩ := i
  unfold Bus.step
  split
  · exact ⟨h, fun hreliable _ => hreliable⟩
  · cases event with
    | recvFragmentData m content =>
        dsimp only
        split
        · exact ⟨h, fun hreliable _ => hreliable⟩
        · exact ⟨h.recvFragmentData env m content,
            fun hreliable _ => hreliable.recvFragmentData h env m content⟩
    | stage id =>
        dsimp only
        split
        · rename_i hqueued
          exact ⟨(moves_executeCurrentTask False h env hqueued).stored h,
            fun hreliable _ => hreliable.moves (moves_executeCurrentTask True h env hqueued)⟩
        · exact ⟨h, fun hreliable _ => hreliable⟩
    | verifyChecksumComplete id canceled computed =>
        dsimp only
        cases hr : s.receivers id with
        | none => exact ⟨h, fun hreliable _ => hreliable⟩
        | some r =>
            dsimp only
            split
            · rename_i htask
              refine ⟨(moves_verifyChecksumComplete False h checksum env hr htask canceled
                computed nofun).stored h, fun hreliable hcalm => hreliable.moves
                  (moves_verifyChecksumComplete True h checksum env hr htask canceled computed ?_)⟩
              rintro - ⟨hcanceled, hown, htype⟩
              exact hcalm ⟨hcanceled, r, hr, hown, htype⟩
            · exact ⟨h, fun hreliable _ => hreliable⟩
    | processSending =>
        exact ⟨h.requeued rfl rfl rfl fun _ hj => .inl hj,
          fun hreliable _ => hreliable.kept rfl rfl rfl hreliable.fault⟩
    | processSendingDeferred =>
        dsimp only
        have hcleared : Stored { s with processing := false } :=
          h.requeued rfl rfl rfl fun _ hj => .inl hj
        have hreliable' : Reliable s → Reliable { s with processing := false } := fun hreliable =>
          hreliable.kept rfl rfl rfl hreliable.fault
        split
        · unfold processSendingDeferred
          dsimp only
          split
          · exact ⟨hcleared.stop env, fun hreliable _ => (hreliable' hreliable).stop hcleared env⟩
          · exact ⟨hcleared, fun hreliable _ => hreliable' hreliable⟩
        · exact ⟨h, fun hreliable _ => hreliable⟩
    | stop => exact ⟨h.stop env, fun hreliable _ => hreliable.stop h env⟩

/-- What the bus, its map and its heap say of one another, and that no assertion of them has
failed. -/
structure Consistent (s : Bus) : Prop where
  incomplete : ∀ id, s.incompleteReliableReceiver = some id ↔ ∃ sequence r,
    (sequence, id) ∈ s.receiversMap ∧ s.receivers id = some r ∧ r.type = .reliable
  last : ∀ id, s.incompleteReliableReceiver = some id →
    (s.lastRecvReliableSequence, id) ∈ s.receiversMap
  keys : (s.receiversMap.map Prod.fst).Nodup
  entries : ∀ e ∈ s.receiversMap, ∃ r, s.receivers e.2 = some r ∧ r.sequence = e.1 ∧
    r.sequenceEntry = true
  heap : ∀ id ∈ s.receiversHeap, ∃ sequence r,
    (sequence, id) ∈ s.receiversMap ∧ s.receivers id = some r ∧ r.type ≠ .reliable
  fault : s.fault ≠ some .bus

theorem Stored.consistent (h : Stored s) (hreliable : Reliable s) : Consistent s := by
  refine ⟨fun id => ?_, fun id hid => ?_, h.keys, h.entries, fun id hid => ?_, hreliable.fault⟩
  · rw [hreliable.incomplete id]
    constructor
    · rintro ⟨r, hr, htype, hentry⟩
      exact ⟨r.sequence, r, (h.receiver id r hr).mapped hentry, hr, htype⟩
    · rintro ⟨sequence, r, hmem, hr, htype⟩
      obtain ⟨k, hk, -, hentry⟩ := h.entries _ hmem
      obtain rfl : r = k := Option.some.inj (hr.symm.trans hk)
      exact ⟨r, hr, htype, hentry⟩
  · obtain ⟨r, hr, -, hentry⟩ := (hreliable.incomplete id).mp hid
    rw [← hreliable.last id r hid hr]
    exact (h.receiver id r hr).mapped hentry
  · obtain ⟨r, hr, htype, hexpired⟩ := h.expiring id hid
    have hplaced := h.receiver id r hr
    have hcanceled := hplaced.not_canceled hexpired
    exact ⟨r.sequence, r, hplaced.mapped (hplaced.attached hcanceled).2, hr, htype⟩

/-- In every run in which the platform cancels no worker task of a reliable receiver of its
own accord, with the fragments, the expiries, the stages, the completions and the stops in
any order. -/
theorem consistent_run (checksum : Checksum) (is : List BusInput)
    (hcalm : Along (step checksum) (fun s i => ¬ s.CancelsReliable i) start is) :
    Consistent (run (step checksum) start is) := by
  have hrun := invariant_run (I := fun s => Stored s ∧ Reliable s) (fun s i hs hi => by
    obtain ⟨hstored, hreliable⟩ := hs.1.step checksum i
    exact ⟨hstored, hreliable hs.2 hi⟩) ⟨stored_start, reliable_start⟩ hcalm
  exact hrun.1.consistent hrun.2

/-- A reliable parcel in two fragments arrives and a worker computes its checksum. -/
def twoFragmentsChecked : List BusInput :=
  [⟨.plain 1, .recvFragmentData ⟨.reliable, 0, 0, 1, 7⟩ [1]⟩,
    ⟨.plain 1, .recvFragmentData ⟨.reliable, 0, 1, 1, 7⟩ (List.replicate checksumBytes 1)⟩,
    ⟨.plain 1, .stage 1⟩]

theorem consistent_run_stop :
    Consistent (run (step Channel.sampleChecksum) start (twoFragmentsChecked ++
      [⟨.plain 1, .stop⟩, ⟨.plain 2, .recvFragmentData ⟨.unreliable, 0, 0, 1, 7⟩ [1]⟩,
        ⟨.plain 1, .verifyChecksumComplete 1 true true⟩])) :=
  consistent_run Channel.sampleChecksum _ (by decide +kernel)

theorem not_consistent_shutdown :
    ¬ ∀ (checksum : Checksum) (is : List BusInput), Consistent (run (step checksum) start is) := by
  intro h
  have hincomplete := (h Channel.sampleChecksum (twoFragmentsChecked ++
    [⟨.plain 1, .verifyChecksumComplete 1 true true⟩])).incomplete 1
  have hsome : (run (step Channel.sampleChecksum) start (twoFragmentsChecked ++
      [⟨.plain 1, .verifyChecksumComplete 1 true true⟩])).incompleteReliableReceiver = some 1 := by
    decide +kernel
  have hmap : (run (step Channel.sampleChecksum) start (twoFragmentsChecked ++
      [⟨.plain 1, .verifyChecksumComplete 1 true true⟩])).receiversMap = [] := by
    decide +kernel
  obtain ⟨sequence, r, hmem, -⟩ := hincomplete.mp hsome
  rw [hmap] at hmem
  cases hmem

end Steps

end Bus

end Delivery

end PomeloUdp
