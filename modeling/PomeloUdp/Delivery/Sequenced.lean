import PomeloUdp.Delivery.BusInvariant

/-!
# Sequenced delivery

A bus hands sequenced parcels over in the order of their sequence numbers, whatever the
order in which their checksums are done. Each first fragment that arrives lets at most one
receiver complete, so that a parcel is handed over twice only if its first fragment arrives
twice: `sequenced_run`.
-/

namespace PomeloUdp

namespace Delivery

open Machine

namespace Bus

variable {calm : Prop} {s s' : Bus} {id : ℕ} {r : BusReceiver} {m : FragmentMeta}
  {spare : UInt64 → ℕ}

/-- The sequence numbers of the sequenced parcels that were handed over. -/
def deliveredSequences (s : Bus) : List UInt64 :=
  (s.delivered.filter fun d => d.1 = .sequenced).map fun d => d.2.1

/-- A sequenced receiver in the map has the first fragment of its parcel. -/
def HoldsFirst (s : Bus) (sequence : UInt64) : Prop :=
  ∃ id r, s.receivers id = some r ∧ r.type = .sequenced ∧ r.sequence = sequence ∧
    r.sequenceEntry = true ∧ r.Begun

/-- The parcels are in order, and each of them and each receiver that has its first fragment
accounts for one arrival of that fragment. `spare` counts the arrivals that are not used yet. -/
structure Ordered (spare : UInt64 → ℕ) (s : Bus) : Prop where
  below : ∀ q ∈ s.deliveredSequences, q ≤ s.lastRecvSequencedSequence
  sorted : s.deliveredSequences.Pairwise (· ≤ ·)
  arrived : ∀ q, s.deliveredSequences.count q + spare q ≤ s.received.count (q, 0)
  held : ∀ q, s.HoldsFirst q →
    s.deliveredSequences.count q + spare q + 1 ≤ s.received.count (q, 0)

theorem ordered_start : Ordered 0 start where
  below := by simp [deliveredSequences, start]
  sorted := List.Pairwise.nil
  arrived _ := Nat.le_refl 0
  held := by
    rintro q ⟨id, r, hr, -⟩
    cases hr

theorem Ordered.kept (h : Ordered spare s)
    (hlast : s'.lastRecvSequencedSequence = s.lastRecvSequencedSequence)
    (hreceived : s'.received = s.received)
    (hdelivered : s'.deliveredSequences = s.deliveredSequences)
    (hholds : ∀ q, s'.HoldsFirst q → s.HoldsFirst q) : Ordered spare s' := by
  refine ⟨?_, ?_, ?_, fun q hq => ?_⟩
  · rw [hdelivered, hlast]
    exact h.below
  · rw [hdelivered]
    exact h.sorted
  · rw [hdelivered, hreceived]
    exact h.arrived
  · rw [hdelivered, hreceived]
    exact h.held q (hholds q hq)

theorem Kept.deliveredSequences (h : Kept s s') :
    s'.deliveredSequences = s.deliveredSequences := by
  unfold Bus.deliveredSequences
  rw [h.delivered]

theorem holdsFirst_of_update {o : Option BusReceiver} {q : UInt64}
    (hreceivers : s'.receivers = Function.update s.receivers id o) (hholds : s'.HoldsFirst q) :
    (∃ r', o = some r' ∧ r'.type = .sequenced ∧ r'.sequence = q ∧ r'.sequenceEntry = true ∧
      r'.Begun) ∨
      ∃ j k, j ≠ id ∧ s.receivers j = some k ∧ k.type = .sequenced ∧ k.sequence = q ∧
        k.sequenceEntry = true ∧ k.Begun := by
  obtain ⟨j, k, hk, hrest⟩ := hholds
  rw [hreceivers] at hk
  by_cases hj : j = id
  · rw [hj, Function.update_self] at hk
    exact .inl ⟨k, hk, hrest⟩
  · rw [Function.update_of_ne hj] at hk
    exact .inr ⟨j, k, hj, hk, hrest⟩

theorem not_begun_init (m : FragmentMeta) : ¬ (BusReceiver.init m).Begun := by
  rintro ⟨content, hcontent⟩
  have hfragments : (BusReceiver.init m).base.receiver.fragments =
      List.replicate (m.lastIndex.toNat + 1) none := rfl
  rw [hfragments] at hcontent
  simp at hcontent

theorem handleReceiverComplete_cases (s : Bus) (env : BusEnv) (id : ℕ) (r : BusReceiver) :
    (s.handleReceiverComplete env id r).received = s.received ∧
      ((s.handleReceiverComplete env id r).lastRecvSequencedSequence =
          s.lastRecvSequencedSequence ∧
        (s.handleReceiverComplete env id r).deliveredSequences = s.deliveredSequences ∨
      r.type = .sequenced ∧ r.base.receiver.failed = false ∧
        s.lastRecvSequencedSequence ≤ r.sequence ∧
        (s.handleReceiverComplete env id r).lastRecvSequencedSequence = r.sequence ∧
        (s.handleReceiverComplete env id r).deliveredSequences =
          s.deliveredSequences ++ [r.sequence]) := by
  unfold handleReceiverComplete
  by_cases htype : r.type = .sequenced
  · have hreliable : r.type ≠ .reliable := by
      rw [htype]
      nofun
    simp only [hreliable, if_false]
    cases hfailed : r.base.receiver.failed with
    | true => exact ⟨rfl, .inl ⟨rfl, rfl⟩⟩
    | false =>
        cases hparcel : env.parcel with
        | false => exact ⟨rfl, .inl ⟨rfl, rfl⟩⟩
        | true =>
            by_cases hstale : r.sequence < s.lastRecvSequencedSequence
            · simp [htype, hstale]
            · refine ⟨by simp [htype, hstale, dispatchReceived], .inr ⟨htype, rfl, ?_, ?_, ?_⟩⟩
              · exact UInt64.not_lt.mp hstale
              · simp [htype, hstale, dispatchReceived]
              · simp [htype, hstale, dispatchReceived, deliveredSequences]
  · have hdropped : ∀ s' : Bus, (s'.dispatchReceived r).deliveredSequences =
        s'.deliveredSequences := by
      intro s'
      simp [dispatchReceived, deliveredSequences, htype]
    have hrequired : ∀ condition, (s.require condition).received = s.received ∧
        (s.require condition).lastRecvSequencedSequence = s.lastRecvSequencedSequence ∧
          (s.require condition).deliveredSequences = s.deliveredSequences := by
      intro condition
      unfold require
      split <;> exact ⟨rfl, rfl, rfl⟩
    obtain ⟨hreceived, hlast, hdelivered⟩ :=
      hrequired (s.incompleteReliableReceiver = some id)
    by_cases hreliable : r.type = .reliable
    · simp only [hreliable, if_true, ne_eq, reduceCtorEq, not_false_eq_true]
      cases hfailed : r.base.receiver.failed with
      | true => exact ⟨hreceived, .inl ⟨hlast, hdelivered⟩⟩
      | false =>
          cases hparcel : env.parcel with
          | false => exact ⟨hreceived, .inl ⟨hlast, hdelivered⟩⟩
          | true => exact ⟨hreceived, .inl ⟨hlast, (hdropped _).trans hdelivered⟩⟩
    · simp only [hreliable, htype, if_true, if_false, ne_eq, not_false_eq_true]
      cases hfailed : r.base.receiver.failed with
      | true => exact ⟨rfl, .inl ⟨rfl, rfl⟩⟩
      | false =>
          cases hparcel : env.parcel with
          | false => exact ⟨rfl, .inl ⟨rfl, rfl⟩⟩
          | true => exact ⟨rfl, .inl ⟨rfl, hdropped s⟩⟩

theorem Ordered.complete (h : Ordered spare s) (hs : Stored s) (env : BusEnv)
    (hr : s.receivers id = some r) (hentry : r.sequenceEntry = true) (hstage : r.stage = .complete)
    (hfilled : r.Filled) (hreceivers : s'.receivers = Function.update s.receivers id none)
    (hkept : Kept (s.handleReceiverComplete env id r) s') : Ordered spare s' := by
  have hleft : ∀ q, s'.HoldsFirst q → ∃ j k, j ≠ id ∧ s.receivers j = some k ∧
      k.type = .sequenced ∧ k.sequence = q ∧ k.sequenceEntry = true ∧ k.Begun := fun q hq =>
    (holdsFirst_of_update hreceivers hq).resolve_left fun ⟨_, hnone, _⟩ => nomatch hnone
  have hholds : ∀ q, s'.HoldsFirst q → s.HoldsFirst q := fun q hq => by
    obtain ⟨j, k, -, hrest⟩ := hleft q hq
    exact ⟨j, k, hrest⟩
  obtain ⟨hreceived, hcases⟩ := handleReceiverComplete_cases s env id r
  rcases hcases with ⟨hlast, hdelivered⟩ | ⟨htype, hfailed, hstale, hlast, hdelivered⟩
  · exact h.kept (hkept.sequenced.trans hlast) (hkept.received.trans hreceived)
      (hkept.deliveredSequences.trans hdelivered) hholds
  · have hbegun : r.Begun := begun_of_isSome hfilled
      ((hfilled.all (by rw [hstage]; nofun)).resolve_left (by rw [hfailed]; nofun))
    have hself := h.held r.sequence ⟨id, r, hr, htype, rfl, hentry, hbegun⟩
    have hother : ∀ q, s'.HoldsFirst q → q ≠ r.sequence := by
      rintro q hq rfl
      obtain ⟨j, k, hj, hk, -, hsequence, hkentry, -⟩ := hleft _ hq
      have hmem := (hs.receiver j k hk).mapped hkentry
      rw [hsequence] at hmem
      exact hj (hs.entry_unique hmem ((hs.receiver id r hr).mapped hentry))
    have hcount : ∀ q, (s.deliveredSequences ++ [r.sequence]).count q =
        s.deliveredSequences.count q + if q = r.sequence then 1 else 0 := by
      intro q
      rw [List.count_append, List.count_singleton]
      simp only [beq_iff_eq, eq_comm (a := r.sequence)]
    rw [← hkept.deliveredSequences] at hdelivered
    rw [← hkept.sequenced] at hlast
    rw [← hkept.received] at hreceived
    refine ⟨?_, ?_, fun q => ?_, fun q hq => ?_⟩
    · rw [hdelivered, hlast]
      intro q hq
      rcases List.mem_append.mp hq with hq | hq
      · exact UInt64.le_trans (h.below q hq) hstale
      · rw [List.mem_singleton.mp hq]
        exact UInt64.le_refl _
    · rw [hdelivered, List.pairwise_append]
      refine ⟨h.sorted, List.pairwise_singleton _ _, fun q hq q' hq' => ?_⟩
      rw [List.mem_singleton.mp hq']
      exact UInt64.le_trans (h.below q hq) hstale
    · rw [hdelivered, hreceived, hcount]
      by_cases hq : q = r.sequence
      · rw [if_pos hq, hq]
        omega
      · rw [if_neg hq]
        exact h.arrived q
    · rw [hdelivered, hreceived, hcount, if_neg (hother q hq)]
      exact h.held q (hholds q hq)

theorem Ordered.move (h : Ordered spare s) (hs : Stored s) (hmove : Move calm s s') :
    Ordered spare s' := by
  cases hmove with
  | idle receivers kept =>
      refine h.kept kept.sequenced kept.received kept.deliveredSequences ?_
      rintro q ⟨id, r, hr, hrest⟩
      exact ⟨id, r, receivers ▸ hr, hrest⟩
  | abort receivers kept =>
      refine h.kept kept.sequenced kept.received kept.deliveredSequences ?_
      rintro q ⟨id, r, hr, hrest⟩
      exact ⟨id, r, receivers ▸ hr, hrest⟩
  | write id r r' receiver receivers sequence type entry begun kept =>
      refine h.kept kept.sequenced kept.received kept.deliveredSequences fun q hq => ?_
      obtain ⟨k, heq, htype, hsequence, hentry, hbegun⟩ | ⟨j, k, -, hrest⟩ :=
        holdsFirst_of_update receivers hq
      · obtain rfl : r' = k := Option.some.inj heq
        exact ⟨id, r, receiver, type.symm.trans htype, sequence.symm.trans hsequence,
          entry.symm.trans hentry, begun hbegun⟩
      · exact ⟨j, k, hrest⟩
  | insert id m free key last receivers kept =>
      have hopened : (s.opened id m).lastRecvSequencedSequence = s.lastRecvSequencedSequence ∧
          (s.opened id m).received = s.received ∧
          (s.opened id m).deliveredSequences = s.deliveredSequences := by
        unfold opened require
        split
        · split <;> exact ⟨rfl, rfl, rfl⟩
        · exact ⟨rfl, rfl, rfl⟩
      refine h.kept (kept.sequenced.trans hopened.1) (kept.received.trans hopened.2.1)
        (kept.deliveredSequences.trans hopened.2.2) fun q hq => ?_
      obtain ⟨k, heq, -, -, -, hbegun⟩ | ⟨j, k, -, hrest⟩ := holdsFirst_of_update receivers hq
      · rw [← Option.some.inj heq] at hbegun
        exact absurd hbegun (not_begun_init m)
      · exact ⟨j, k, hrest⟩
  | leave id r o receiver receivers entry _ kept =>
      refine h.kept kept.sequenced kept.received kept.deliveredSequences fun q hq => ?_
      obtain ⟨k, heq, -, -, hentry, -⟩ | ⟨j, k, -, hrest⟩ := holdsFirst_of_update receivers hq
      · exact absurd ((entry k heq).symm.trans hentry) nofun
      · exact ⟨j, k, hrest⟩
  | complete env id r receiver entry stage filled receivers kept =>
      exact h.complete hs env receiver entry stage filled receivers kept

theorem Ordered.moves (h : Ordered spare s) (hmoves : Moves calm s s') : Ordered spare s' := by
  induction hmoves with
  | refl => exact h
  | tail _ hs hmove _ ih => exact ih.move hs hmove

theorem Ordered.drop (h : Ordered spare s) : Ordered 0 s where
  below := h.below
  sorted := h.sorted
  arrived q := le_trans (Nat.add_le_add_left (Nat.zero_le _) _) (h.arrived q)
  held q hq := by
    refine le_trans (Nat.add_le_add_right (Nat.add_le_add_left (Nat.zero_le _) _) 1) (h.held q hq)

/-- The arrival of a fragment of a sequenced parcel. -/
def arrival (m : FragmentMeta) (q : UInt64) : ℕ :=
  if m.fragmentIndex.toNat = 0 ∧ m.sequence = q then 1 else 0

theorem Ordered.arrive (h : Ordered 0 s) (m : FragmentMeta) :
    Ordered (arrival m)
      { s with received := s.received ++ [(m.sequence, m.fragmentIndex.toNat)] } := by
  have hcount : ∀ q, (s.received ++ [(m.sequence, m.fragmentIndex.toNat)]).count (q, 0) =
      s.received.count (q, 0) + arrival m q := by
    intro q
    rw [List.count_append, List.count_singleton, arrival]
    simp only [beq_iff_eq, Prod.mk.injEq, and_comm]
  refine ⟨h.below, h.sorted, fun q => ?_, fun q hq => ?_⟩
  · change s.deliveredSequences.count q + arrival m q ≤ _
    rw [hcount]
    exact Nat.add_le_add_right (h.arrived q) _
  · change s.deliveredSequences.count q + arrival m q + 1 ≤ _
    rw [hcount, Nat.add_right_comm]
    exact Nat.add_le_add_right (h.held q hq) _

theorem Ordered.addFragment (hr : s.receivers id = some r) (htype : r.type = m.type)
    (hsequence : r.sequence = m.sequence) (hentry : r.sequenceEntry = true)
    (hspare : m.type = .sequenced → spare = arrival m) (h : Ordered spare s) (content : Bytes) :
    Ordered 0 (s.addFragment id m content) := by
  obtain ⟨hreceivers, -, -, -, -, hkept⟩ := addFragment_eq hr m content
  have hholds : ∀ q, (s.addFragment id m content).HoldsFirst q → s.HoldsFirst q ∨ 0 < spare q := by
    intro q hq
    obtain ⟨k, heq, hktype, hksequence, -, hbegun⟩ | ⟨j, k, -, hrest⟩ :=
      holdsFirst_of_update hreceivers hq
    · obtain rfl := Option.some.inj heq
      have hsequenced : r.type = .sequenced := hktype
      have hsame : r.sequence = q :=
        (Receiver.sequence_addFragment _ m.toMeta content).symm.trans hksequence
      obtain ⟨first, hfirst⟩ := hbegun
      change (r.base.receiver.addFragment m.toMeta content).fragments[0]? = some (some first)
        at hfirst
      obtain ⟨-, hidle⟩ | ⟨-, -, -, hset, -⟩ :=
        r.base.receiver.addFragment_cases m.toMeta content
      · rw [hidle] at hfirst
        exact .inl ⟨id, r, hr, hsequenced, hsame, hentry, first, hfirst⟩
      · by_cases hindex : m.fragmentIndex.toNat = 0
        · refine .inr ?_
          rw [hspare (htype.symm.trans hsequenced), arrival,
            if_pos ⟨hindex, hsequence.symm.trans hsame⟩]
          exact Nat.one_pos
        · rw [hset, List.getElem?_set_ne (show m.toMeta.fragmentIndex ≠ 0 from hindex)] at hfirst
          exact .inl ⟨id, r, hr, hsequenced, hsame, hentry, first, hfirst⟩
    · exact .inl ⟨j, k, hrest⟩
  have hused : ∀ q, (s.addFragment id m content).HoldsFirst q →
      s.deliveredSequences.count q + 1 ≤ s.received.count (q, 0) := by
    intro q hq
    rcases hholds q hq with hheld | hpos
    · have hheld := h.held q hheld
      omega
    · have harrived := h.arrived q
      omega
  have hdrop := h.drop
  refine ⟨?_, ?_, fun q => ?_, fun q hq => ?_⟩
  · rw [hkept.deliveredSequences, hkept.sequenced]
    exact hdrop.below
  · rw [hkept.deliveredSequences]
    exact hdrop.sorted
  · rw [hkept.deliveredSequences, hkept.received]
    exact hdrop.arrived q
  · rw [hkept.deliveredSequences, hkept.received]
    exact hused q hq

theorem Ordered.recvFragmentData (h : Ordered 0 s) (hs : Stored s) (env : BusEnv)
    (m : FragmentMeta) (content : Bytes) : Ordered 0 (s.recvFragmentData env m content) := by
  obtain ⟨s₁, hs₁, s₂, hmoves, hcases⟩ := recvFragmentData_cases False hs env m content
  obtain ⟨spare, hspare, hordered⟩ : ∃ spare : UInt64 → ℕ,
      (m.type = .sequenced → spare = arrival m) ∧ Ordered spare s₁ := by
    rcases hs₁ with ⟨hother, rfl⟩ | ⟨-, rfl⟩
    · exact ⟨0, fun hsequenced => absurd hsequenced hother, h⟩
    · exact ⟨arrival m, fun _ => rfl, h.arrive m⟩
  rcases hcases with heq | ⟨id, r, hr, htype, hsequence, hentry, heq⟩
  · rw [heq]
    exact (hordered.moves hmoves).drop
  · rw [heq]
    exact Ordered.addFragment hr htype hsequence hentry hspare (hordered.moves hmoves) content

theorem Ordered.stop (h : Ordered 0 s) (hs : Stored s) (env : BusEnv) :
    Ordered 0 (s.stop env) := by
  unfold Bus.stop
  split
  · exact h.kept rfl rfl rfl fun _ hq => hq
  · obtain ⟨hgone, -⟩ := stopReceivers_eq hs env
    refine ⟨fun q hq => (nomatch hq), List.Pairwise.nil, fun _ => Nat.le_refl 0, ?_⟩
    rintro q ⟨id, r, hr, -, -, hentry, -⟩
    obtain ⟨hcanceled, hplaced⟩ := hgone id r hr
    exact absurd (((hplaced False).detached hcanceled).1.symm.trans hentry) nofun

theorem Ordered.step (h : Ordered 0 s) (hs : Stored s) (checksum : Checksum) (i : BusInput) :
    Ordered 0 (s.step checksum i) := by
  obtain ⟨env, event⟩ := i
  unfold Bus.step
  split
  · exact h
  · cases event with
    | recvFragmentData m content =>
        dsimp only
        split
        · exact h
        · exact h.recvFragmentData hs env m content
    | stage id =>
        dsimp only
        split
        · rename_i hqueued
          exact h.moves (moves_executeCurrentTask False hs env hqueued)
        · exact h
    | verifyChecksumComplete id canceled computed =>
        dsimp only
        cases hr : s.receivers id with
        | none => exact h
        | some r =>
            dsimp only
            split
            · rename_i htask
              exact h.moves (moves_verifyChecksumComplete False hs checksum env hr htask canceled
                computed nofun)
            · exact h
    | processSending => exact h.kept rfl rfl rfl fun _ hq => hq
    | processSendingDeferred =>
        dsimp only
        have hcleared : Ordered 0 { s with processing := false } :=
          h.kept rfl rfl rfl fun _ hq => hq
        split
        · unfold processSendingDeferred
          dsimp only
          split
          · exact hcleared.stop (hs.requeued rfl rfl rfl fun _ hj => .inl hj) env
          · exact hcleared
        · exact h
    | stop => exact h.stop hs env

theorem Ordered.run (h : Ordered 0 s) (hs : Stored s) (checksum : Checksum) (is : List BusInput) :
    Ordered 0 (Machine.run (Bus.step checksum) s is) := by
  induction is generalizing s with
  | nil => exact h
  | cons i is ih => exact ih (h.step hs checksum i) (hs.step checksum i).1

/-- Since the last stop the sequence numbers of the sequenced parcels that were handed over
never decrease, in every run, and they increase if no fragment has arrived more than once. -/
theorem sequenced_run (checksum : Checksum) (is : List BusInput) :
    (run (step checksum) start is).deliveredSequences.Pairwise (· ≤ ·) ∧
      ((run (step checksum) start is).received.Nodup →
        (run (step checksum) start is).deliveredSequences.Pairwise (· < ·)) := by
  have hordered := ordered_start.run stored_start checksum is
  refine ⟨hordered.sorted, fun hnodup => ?_⟩
  have hdistinct : (run (step checksum) start is).deliveredSequences.Nodup := by
    rw [List.nodup_iff_count_le_one]
    intro q
    exact le_trans (hordered.arrived q) (List.nodup_iff_count_le_one.mp hnodup (q, 0))
  exact (hordered.sorted.and hdistinct).imp fun ⟨hle, hne⟩ => UInt64.lt_of_le_of_ne hle hne

/-- Three sequenced parcels of one fragment; the second is complete after the third. -/
def threeSequenced : List BusInput :=
  [⟨.plain 1, .recvFragmentData ⟨.sequenced, 0, 0, 0, 1⟩ [1]⟩, ⟨.plain 1, .stage 1⟩,
    ⟨.plain 1, .stage 1⟩, ⟨.plain 2, .recvFragmentData ⟨.sequenced, 0, 0, 0, 2⟩ [2]⟩,
    ⟨.plain 3, .recvFragmentData ⟨.sequenced, 0, 0, 0, 3⟩ [3]⟩, ⟨.plain 3, .stage 3⟩,
    ⟨.plain 2, .stage 2⟩, ⟨.plain 3, .stage 3⟩, ⟨.plain 2, .stage 2⟩]

theorem sequenced_run_three :
    (run (step Channel.sampleChecksum) start threeSequenced).deliveredSequences = [1, 3] ∧
      (run (step Channel.sampleChecksum) start threeSequenced).deliveredSequences.Pairwise
        (· < ·) :=
  ⟨by decide +kernel, (sequenced_run Channel.sampleChecksum threeSequenced).2 (by decide +kernel)⟩

end Bus

end Delivery

end PomeloUdp
