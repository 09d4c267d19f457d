import PomeloUdp.Delivery.Channel
import PomeloUdp.Delivery.ReceivingInvariant
import Mathlib.Data.List.Perm.Subperm
import Mathlib.Data.List.Sort

/-!
# Reliable delivery

The receiving bus remembers the sequence number of the parcel it collected last
and nothing about older ones: while it is idle, a late copy of a fragment of an
older parcel opens a receiver, and the parcel is delivered again. The sending bus
gives out its sequence numbers when the checksums are ready, so that a parcel of
one chunk overtakes a longer one that was sent before it. And a fragment is
acknowledged before the parcel is put together, so that a parcel the receiver
has no resources for is lost although its dispatcher completes.
`delivers_of_orderly` is what holds of every run that avoids these steps.
-/

namespace PomeloUdp

namespace Delivery

open Machine

/-- The resources a queued task of the receiver asks for are there. -/
def ReceivingBus.Supplied (bus : ReceivingBus) (worker parcel : Bool) : Prop :=
  match bus.incompleteReliableReceiver with
  | none => True
  | some r =>
      (r.stage = .verifyChecksum → 2 ≤ r.fragments.length → worker = true) ∧
        (r.stage = .complete → r.failed = false → parcel = true)

/-- A worker that computes the checksum for the receiver succeeds. -/
def ReceivingBus.Computed (bus : ReceivingBus) (computed : Bool) : Prop :=
  match bus.incompleteReliableReceiver with
  | none => True
  | some r =>
      match r.stage with
      | .checking _ => computed = true
      | _ => True

theorem ReceivingBus.Supplied.receiverTask_eq {bus : ReceivingBus} {worker parcel : Bool}
    (h : bus.Supplied worker parcel) :
    bus.receiverTask worker parcel = bus.receiverTask true true := by
  unfold ReceivingBus.Supplied at h
  unfold ReceivingBus.receiverTask
  cases hr : bus.incompleteReliableReceiver with
  | none => rfl
  | some r =>
      rw [hr] at h
      obtain ⟨hworker, hparcel⟩ := h
      cases hstage : r.stage with
      | waitFragments => simp [hstage]
      | verifyChecksum =>
          by_cases hlength : r.fragments.length < 2
          · simp [hstage, Receiver.verifyChecksum, hlength]
          · simp [hstage, hworker hstage (Nat.le_of_not_lt hlength)]
      | checking embedded => simp [hstage]
      | complete =>
          cases hfailed : r.failed with
          | true => simp [hstage, ReceivingBus.handleReceiverComplete, hfailed]
          | false => simp [hstage, hparcel hstage hfailed]

theorem ReceivingBus.Computed.verifyChecksumComplete_eq {checksum : Checksum}
    {bus : ReceivingBus} {computed : Bool} (h : bus.Computed computed) :
    bus.verifyChecksumComplete checksum computed = bus.verifyChecksumComplete checksum true := by
  unfold ReceivingBus.Computed at h
  unfold ReceivingBus.verifyChecksumComplete
  cases hr : bus.incompleteReliableReceiver with
  | none => rfl
  | some r =>
      rw [hr] at h
      cases hstage : r.stage <;> simp_all

namespace Channel

/-- The parcels are delivered at most once and in the order of their sends, and
those with a dispatcher that saw all their acks are delivered. -/
structure Delivers (checksum : Checksum) (s : Channel) : Prop where
  /-- A parcel that got a sequence number is the one submitted under its number. -/
  submitted : ∀ p ∈ s.sending.dispatched, s.sending.submitted[p.number]? = some p.chunks
  inOrder : s.sending.dispatched.Pairwise (fun p q => p.number < q.number)
  distinct : (s.sending.dispatched.map Parcel.sequence).Nodup
  delivered : s.receiving.delivered.Sublist (s.sending.dispatched.map Parcel.delivery)
  /-- What is left of the receiver's pipeline is run to its end. -/
  acknowledged : ∀ sequence ∈ s.sending.acknowledged,
    sequence ∈ (s.receiving.drain checksum).delivered.map Prod.fst

/-- The steps that keep the order. A parcel is given its sequence number when no
parcel sent before it still waits for its checksum, and the sequence numbers do
not wrap around; an idle receiving bus opens no receiver for an older parcel than
the last one; the tasks of a receiver get their worker and their parcel. -/
def Orderly (s : Channel) : Event → Prop
  | .submit chunks _ acquired => chunks ≠ [] → chunks.length < 2 →
      (acquired = true → s.sending.senders = []) ∧
        s.sending.sequenceGenerator ≠ 0xffffffffffffffff
  | .updateChecksumComplete number computed acquired => computed = true →
      (∃ sender ∈ s.sending.senders, sender.number = number) →
        (acquired = true → ∀ sender ∈ s.sending.senders, number ≤ sender.number) ∧
          s.sending.sequenceGenerator ≠ 0xffffffffffffffff
  | .recvData m content acquired _ => (m, content) ∈ s.data →
      s.receiving.incompleteReliableReceiver = none → acquired = true →
        s.receiving.lastRecvReliableSequence ≤ m.sequence
  | .receiverTask worker parcel => s.receiving.Supplied worker parcel
  | .verifyChecksumComplete computed => s.receiving.Computed computed
  | _ => True

instance (bus : ReceivingBus) (worker parcel : Bool) : Decidable (bus.Supplied worker parcel) := by
  unfold ReceivingBus.Supplied
  split <;> infer_instance

instance (bus : ReceivingBus) (computed : Bool) : Decidable (bus.Computed computed) := by
  unfold ReceivingBus.Computed
  split
  · infer_instance
  · split <;> infer_instance

instance (s : Channel) : ∀ e, Decidable (s.Orderly e)
  | .submit chunks _ acquired => inferInstanceAs (Decidable (chunks ≠ [] → chunks.length < 2 →
      (acquired = true → s.sending.senders = []) ∧
        s.sending.sequenceGenerator ≠ 0xffffffffffffffff))
  | .updateChecksumComplete number computed acquired => inferInstanceAs (Decidable (
      computed = true → (∃ sender ∈ s.sending.senders, sender.number = number) →
        (acquired = true → ∀ sender ∈ s.sending.senders, number ≤ sender.number) ∧
          s.sending.sequenceGenerator ≠ 0xffffffffffffffff))
  | .recvData m content acquired _ => inferInstanceAs (Decidable ((m, content) ∈ s.data →
      s.receiving.incompleteReliableReceiver = none → acquired = true →
        s.receiving.lastRecvReliableSequence ≤ m.sequence))
  | .receiverTask worker parcel => inferInstanceAs (Decidable (s.receiving.Supplied worker parcel))
  | .verifyChecksumComplete computed => inferInstanceAs (Decidable (s.receiving.Computed computed))
  | .processSending | .dispatch .. | .resend .. | .recvAck .. | .completeDispatcher =>
      inferInstanceAs (Decidable True)

section Invariant

variable {fragmentContentCapacity : ℕ} {checksum : Checksum}

/-- Both buses agree with what is on the network. -/
structure Invariant (fragmentContentCapacity : ℕ) (checksum : Checksum) (s : Channel) :
    Prop where
  sending : SendingInvariant fragmentContentCapacity checksum s.sending s.data s.acks
  receiving : ReceivingInvariant fragmentContentCapacity checksum s.sending.dispatched s.acks
    s.receiving

theorem invariant_start : Invariant fragmentContentCapacity checksum start :=
  ⟨SendingInvariant.start, receivingInvariant_start⟩

theorem mem_dispatched_createAndSubmitDispatcher {bus : SendingBus} {sender : Sender}
    {acquired : Bool} {p : Parcel} (hp : p ∈ bus.dispatched) :
    p ∈ (bus.createAndSubmitDispatcher fragmentContentCapacity checksum sender
      acquired).dispatched := by
  cases acquired with
  | false => exact hp
  | true => exact List.mem_append_left _ hp

theorem mem_dispatched_submit {bus : SendingBus} {chunks : List Chunk} {worker acquired : Bool}
    {p : Parcel} (hp : p ∈ bus.dispatched) :
    p ∈ (bus.submit fragmentContentCapacity checksum chunks worker acquired).dispatched := by
  unfold SendingBus.submit
  split
  · exact hp
  · simp only
    split
    · exact mem_dispatched_createAndSubmitDispatcher hp
    · split <;> exact hp

theorem mem_dispatched_updateChecksumComplete {bus : SendingBus} {number : ℕ}
    {computed acquired : Bool} {p : Parcel} (hp : p ∈ bus.dispatched) :
    p ∈ (bus.updateChecksumComplete fragmentContentCapacity checksum number computed
      acquired).dispatched := by
  unfold SendingBus.updateChecksumComplete
  split
  · exact hp
  · simp only
    split
    · exact mem_dispatched_createAndSubmitDispatcher hp
    · exact hp

theorem mem_dispatched_step {s : Channel} (e : Event) {p : Parcel}
    (hp : p ∈ s.sending.dispatched) :
    p ∈ (s.step fragmentContentCapacity checksum e).sending.dispatched := by
  cases e with
  | submit chunks worker acquired => exact mem_dispatched_submit hp
  | updateChecksumComplete number computed acquired =>
      exact mem_dispatched_updateChecksumComplete hp
  | _ =>
      simp only [Channel.step, SendingBus.processSendingDeferred, SendingBus.dispatch,
        SendingBus.resend, SendingBus.recvFragmentAck, SendingBus.completeDispatcher]
      repeat' split
      all_goals exact hp

theorem Invariant.step {s : Channel} (h : Invariant fragmentContentCapacity checksum s)
    {e : Event} (he : s.Orderly e) :
    Invariant fragmentContentCapacity checksum (s.step fragmentContentCapacity checksum e) := by
  have hchunks : ∀ p ∈ s.sending.dispatched, p.chunks ≠ [] :=
    fun p hp => (h.sending.parcels p hp).2
  have hkept := fun e p => @mem_dispatched_step fragmentContentCapacity checksum s e p
  cases e with
  | submit chunks worker acquired =>
      exact ⟨h.sending.submit worker acquired he,
        h.receiving.mono (hkept (.submit chunks worker acquired))⟩
  | updateChecksumComplete number computed acquired =>
      exact ⟨h.sending.updateChecksumComplete number computed acquired he,
        h.receiving.mono (hkept (.updateChecksumComplete number computed acquired))⟩
  | processSending =>
      exact ⟨h.sending.processSendingDeferred, h.receiving.mono (hkept .processSending)⟩
  | dispatch ok timer =>
      exact ⟨h.sending.dispatch ok timer, h.receiving.mono (hkept (.dispatch ok timer))⟩
  | resend ok => exact ⟨h.sending.resend ok, h.receiving.mono (hkept (.resend ok))⟩
  | recvAck m =>
      have hmono := h.receiving.mono (hkept (.recvAck m))
      simp only [Channel.step] at hmono ⊢
      split
      · rename_i hm
        rw [if_pos hm] at hmono
        exact ⟨h.sending.recvFragmentAck hm, hmono⟩
      · exact h
  | completeDispatcher =>
      exact ⟨h.sending.completeDispatcher, h.receiving.mono (hkept .completeDispatcher)⟩
  | recvData m content acquired replied =>
      simp only [Channel.step]
      split
      · rename_i hdata
        obtain ⟨p, hp, hcarries⟩ := h.sending.carried _ hdata
        exact ⟨h.sending.replied _, h.receiving.recvFragmentData
          (fun q hq => (h.sending.submitted q hq).1) h.sending.unique hp hcarries acquired replied
          (he hdata)⟩
      · exact h
  | receiverTask worker parcel =>
      refine ⟨h.sending, ?_⟩
      simp only [Channel.step, ReceivingBus.Supplied.receiverTask_eq he]
      exact h.receiving.receiverTask hchunks
  | verifyChecksumComplete computed =>
      refine ⟨h.sending, ?_⟩
      simp only [Channel.step, ReceivingBus.Computed.verifyChecksumComplete_eq he]
      exact h.receiving.verifyChecksumComplete

theorem sublist_of_increasing {β : Type*} {xs ys : List (UInt64 × β)}
    (hxs : xs.Pairwise (fun x y => x.1 < y.1)) (hys : ys.Pairwise (fun x y => x.1 < y.1))
    (hsubset : xs ⊆ ys) : xs.Sublist ys := by
  have : Std.Antisymm (fun x y : UInt64 × β => x.1 < y.1) :=
    ⟨fun x y hxy hyx => absurd (UInt64.lt_trans hxy hyx) (UInt64.lt_irrefl _)⟩
  have hnodup : xs.Nodup := by
    apply hxs.imp
    rintro x y hlt rfl
    exact UInt64.lt_irrefl _ hlt
  exact List.sublist_of_subperm_of_pairwise (List.Nodup.subperm hnodup hsubset) hxs hys

theorem length_contents_pos {p : Parcel} (hchunks : p.chunks ≠ []) :
    0 < (p.contents fragmentContentCapacity checksum).length := by
  have hpos := List.length_pos_iff.mpr hchunks
  rw [Parcel.contents, length_emitted, length_initFragments]
  omega

theorem Invariant.delivered_drain {s : Channel} (h : Invariant fragmentContentCapacity checksum s)
    {p : Parcel} (hp : p ∈ s.sending.dispatched)
    (hacked : ∀ index < (p.contents fragmentContentCapacity checksum).length,
      Acked s.acks p.sequence index) :
    ∃ x ∈ (s.receiving.drain checksum).delivered, x.1 = p.sequence := by
  by_cases hdelivered : ∃ x ∈ s.receiving.delivered, x.1 = p.sequence
  · obtain ⟨x, hx, heq⟩ := hdelivered
    exact ⟨x, ReceivingBus.mem_delivered_drain hx, heq⟩
  · -- every ack is for a fragment in the receiver in charge
    have hholds : ∀ index < (p.contents fragmentContentCapacity checksum).length,
        ∃ r, s.receiving.incompleteReliableReceiver = some r ∧ r.sequence = p.sequence ∧
          r.Holds index := by
      intro index hindex
      obtain ⟨m, hm, hsequence, hfragment⟩ := hacked index hindex
      have hm' := h.receiving.acked m hm
      rw [hsequence, hfragment] at hm'
      exact hm'.resolve_left hdelivered
    have hchunks := (h.sending.parcels p hp).2
    obtain ⟨r, hr, hsequence, -⟩ := hholds 0 (length_contents_pos hchunks)
    obtain ⟨-, q, hq, hcollects⟩ := h.receiving.collecting r hr
    obtain rfl : q = p := h.sending.unique q hq p hp (hcollects.sequence.symm.trans hsequence)
    refine ⟨q.delivery, ReceivingBus.delivered_drain hr hcollects hchunks
      (hcollects.not_waiting fun index hindex => ?_), rfl⟩
    rw [hcollects.length] at hindex
    obtain ⟨other, hother, -, hheld⟩ := hholds index hindex
    rw [hr] at hother
    exact Option.some.inj hother ▸ hheld

theorem Invariant.delivers {s : Channel} (h : Invariant fragmentContentCapacity checksum s) :
    Delivers checksum s where
  submitted p hp := (h.sending.submitted p hp).2
  inOrder := h.sending.numbers
  distinct := List.pairwise_map.mpr (h.sending.sequences.imp UInt64.ne_of_lt)
  delivered := by
    refine sublist_of_increasing h.receiving.sorted
      (List.pairwise_map.mpr h.sending.sequences) fun x hx => ?_
    obtain ⟨p, hp, rfl⟩ := h.receiving.origin x hx
    exact List.mem_map_of_mem hp
  acknowledged sequence hsequence := by
    obtain ⟨p, hp, rfl, hacked⟩ := h.sending.acknowledged sequence hsequence
    obtain ⟨x, hx, heq⟩ := h.delivered_drain hp hacked
    exact List.mem_map.mpr ⟨x, hx, heq⟩

end Invariant

/-- In a run of orderly steps every parcel is delivered at most once and in the
order of sending, and an acknowledged parcel is delivered. -/
theorem delivers_of_orderly (fragmentContentCapacity : ℕ) (checksum : Checksum)
    (events : List Event)
    (horderly : Along (step fragmentContentCapacity checksum) Orderly start events) :
    Delivers checksum (run (step fragmentContentCapacity checksum) start events) :=
  (invariant_run (fun _ _ h he => h.step he) invariant_start horderly).delivers

/-- A checksum that adds the bytes up. -/
def sampleChecksum : Checksum where
  digest bytes := List.replicate checksumBytes (bytes.foldl (· + ·) 0)
  length_digest bytes := by simp

/-- A chunk in a buffer of the size of a fragment. -/
def sampleChunk (content : Bytes) : Chunk := ⟨content, 1200⟩

/-- The only fragment of the parcel of that number, and what becomes of it. -/
def arrival (sequence : UInt64) (content : Bytes) : List Event :=
  [.recvData ⟨sequence, 0, 0⟩ content true true, .receiverTask true true,
    .receiverTask true true]

/-- A parcel in two fragments. The first transmission of the second one is lost
and the first one arrives twice; the timer sends the second one again. -/
def twoFragments : List Event :=
  let first := List.replicate 1200 1
  let second := [2] ++ sampleChecksum.digest (first ++ [2])
  [.submit [sampleChunk first, sampleChunk [2]] true true,
    .updateChecksumComplete 0 true true, .processSending, .dispatch (fun _ => true) true,
    .recvData ⟨1, 0, 1⟩ first true true, .recvAck ⟨1, 0, 1⟩, .resend (fun _ => true),
    .recvData ⟨1, 1, 1⟩ second true true, .recvData ⟨1, 0, 1⟩ first true true,
    .receiverTask true true, .verifyChecksumComplete true, .receiverTask true true,
    .recvAck ⟨1, 1, 1⟩, .completeDispatcher]

theorem delivers_of_orderly_twoFragments :
    Delivers sampleChecksum (run (step 1200 sampleChecksum) start twoFragments) :=
  delivers_of_orderly 1200 sampleChecksum twoFragments (by decide +kernel)

/-- The timer of the first parcel fires before its ack is back, and the second
copy of its fragment arrives after the second parcel. -/
def lateCopy : List Event :=
  [.submit [sampleChunk [1]] true true, .processSending, .dispatch (fun _ => true) true,
      .resend (fun _ => true)] ++ arrival 1 [1] ++
    [.recvAck ⟨1, 0, 0⟩, .completeDispatcher,
      .submit [sampleChunk [2]] true true, .processSending,
      .dispatch (fun _ => true) true] ++ arrival 2 [2] ++ arrival 1 [1]

theorem delivered_twice :
    ¬ ∀ (fragmentContentCapacity : ℕ) (checksum : Checksum) (events : List Event),
      Delivers checksum (run (step fragmentContentCapacity checksum) start events) := by
  intro h
  have hdelivered := (h 1200 sampleChecksum lateCopy).delivered
  revert hdelivered
  decide +kernel

end Channel

end Delivery

end PomeloUdp
