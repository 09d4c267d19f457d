import PomeloUdp.Delivery.ReliableDelivery

/-!
# Parcels behind an abandoned one

A dispatcher that fails leaves the bus to the next parcel, whatever has arrived of its
own. The receiving bus does not learn of it: the receiver of the abandoned parcel never
expires, and no fragment of another reliable parcel is taken before it completes.
`Attributed.gets_iff_open` says that this and a receiver that had no resources are all
that keeps the parcel in dispatch from being acknowledged and delivered, as far as the
reliable parcels of a bus are concerned.
-/

namespace PomeloUdp

namespace Delivery

open Machine

/-- The fragments of the parcel of a dispatcher, as they travel. -/
def Dispatcher.messages (d : Dispatcher) : List (Meta × Bytes) := d.fragments.mapIdx d.message

/-- `pomelo_delivery_bus_recv_fragment_data` for one fragment after another, with the acks. -/
def ReceivingBus.recvAll (bus : ReceivingBus) : List (Meta × Bytes) → ReceivingBus × List Meta
  | [] => (bus, [])
  | x :: xs =>
      let received := bus.recvFragmentData x.1 x.2 true true
      let rest := recvAll received.1 xs
      (rest.1, received.2 ++ rest.2)

/-- The bus takes the fragments of the parcel with that sequence number, unless the parcel
is the last one and was delivered. -/
def ReceivingBus.Open (bus : ReceivingBus) (sequence : UInt64) : Prop :=
  match bus.incompleteReliableReceiver with
  | some receiver => receiver.sequence = sequence
  | none => bus.lastRecvReliableSequence = sequence → ∃ x ∈ bus.delivered, x.1 = sequence

namespace Channel

/-- What the receiver has left to do is done, and then the fragments arrive: all of the
parcel of the dispatcher are acknowledged, and the parcel is delivered. -/
def Gets (checksum : Checksum) (s : Channel) (d : Dispatcher) (arrivals : List (Meta × Bytes)) :
    Prop :=
  let received := (s.receiving.drain checksum).recvAll arrivals
  (∀ x ∈ d.messages, x.1 ∈ received.2) ∧
    ∃ p ∈ s.sending.dispatched, p.sequence = d.sequence ∧
      p.delivery ∈ (received.1.drain checksum).delivered

/-- The sequence numbers do not wrap around. -/
def Unwrapped (s : Channel) : Event → Prop
  | .submit .. | .updateChecksumComplete .. => s.sending.sequenceGenerator ≠ 0xffffffffffffffff
  | _ => True

instance (s : Channel) : ∀ e, Decidable (s.Unwrapped e)
  | .submit .. | .updateChecksumComplete .. =>
      inferInstanceAs (Decidable (s.sending.sequenceGenerator ≠ 0xffffffffffffffff))
  | .processSending | .dispatch .. | .resend .. | .recvAck .. | .completeDispatcher
  | .recvData .. | .receiverTask .. | .verifyChecksumComplete .. =>
      inferInstanceAs (Decidable True)

end Channel

section Attribution

variable (fragmentContentCapacity : ℕ) (checksum : Checksum)

/-- What a bus collects and has delivered belongs to the parcels, unless its receiver has
failed. -/
structure GatheredFrom (parcels : List Parcel) (bus : ReceivingBus) : Prop where
  last : ∀ r, bus.incompleteReliableReceiver = some r → r.sequence = bus.lastRecvReliableSequence
  collecting : ∀ r, bus.incompleteReliableReceiver = some r →
    r.failed = true ∧ r.stage = .complete ∨
      ∃ p ∈ parcels, Collects fragmentContentCapacity checksum p r
  origin : ∀ x ∈ bus.delivered, ∃ p ∈ parcels, x = p.delivery

end Attribution

variable {fragmentContentCapacity : ℕ} {checksum : Checksum}

namespace GatheredFrom

variable {parcels : List Parcel} {bus : ReceivingBus} {r r' : Receiver} {p : Parcel} {m : Meta}
  {content : Bytes}

theorem start : GatheredFrom fragmentContentCapacity checksum [] ReceivingBus.start := by
  constructor <;> simp [ReceivingBus.start]

theorem mono (h : GatheredFrom fragmentContentCapacity checksum parcels bus) {more : List Parcel}
    (hmore : ∀ p ∈ parcels, p ∈ more) : GatheredFrom fragmentContentCapacity checksum more bus := by
  refine ⟨h.last, fun r hr => ?_, fun x hx => ?_⟩
  · rcases h.collecting r hr with hfailed | ⟨p, hp, hcollects⟩
    · exact .inl hfailed
    · exact .inr ⟨p, hmore p hp, hcollects⟩
  · obtain ⟨p, hp, hx⟩ := h.origin x hx
    exact ⟨p, hmore p hp, hx⟩

theorem replaceReceiver (h : GatheredFrom fragmentContentCapacity checksum parcels bus)
    (hr : bus.incompleteReliableReceiver = some r) (hsequence : r'.sequence = r.sequence)
    (hcollects : r'.failed = true ∧ r'.stage = .complete ∨
      ∃ p ∈ parcels, Collects fragmentContentCapacity checksum p r') :
    GatheredFrom fragmentContentCapacity checksum parcels
      { bus with incompleteReliableReceiver := some r' } := by
  refine ⟨?_, ?_, h.origin⟩
  · rintro other ⟨⟩
    exact hsequence.trans (h.last r hr)
  · rintro other ⟨⟩
    exact hcollects

theorem failed_addFragment (hfailed : r.failed = true) (hstage : r.stage = .complete) :
    (r.addFragment m content).failed = true ∧ (r.addFragment m content).stage = .complete := by
  obtain ⟨-, hsame⟩ | ⟨-, -, hfailed', -, -, hstage'⟩ := r.addFragment_cases m content
  · rw [hsame]
    exact ⟨hfailed, hstage⟩
  · refine ⟨hfailed'.trans hfailed, ?_⟩
    rw [hstage']
    simp [Receiver.next, hstage]

theorem recvFragmentData (h : GatheredFrom fragmentContentCapacity checksum parcels bus)
    (hunique : ∀ p ∈ parcels, ∀ q ∈ parcels, p.sequence = q.sequence → p = q)
    (hp : p ∈ parcels) (hcarries : Carries fragmentContentCapacity checksum p m content)
    (acquired replied : Bool) :
    GatheredFrom fragmentContentCapacity checksum parcels
      (bus.recvFragmentData m content acquired replied).1 := by
  unfold ReceivingBus.recvFragmentData
  simp only
  split
  · rename_i r hr
    split
    · exact h
    · rename_i hlast
      simp only [ne_eq, not_not] at hlast
      split
      · refine h.replaceReceiver hr (r.sequence_addFragment m content) ?_
        rcases h.collecting r hr with ⟨hfailed, hstage⟩ | ⟨q, hq, hcollects⟩
        · exact .inl (failed_addFragment hfailed hstage)
        · obtain rfl : q = p := hunique q hq p hp (by
            rw [← hcollects.sequence, h.last r hr, ← hlast, hcarries.sequence])
          exact .inr ⟨q, hp, (hcollects.addFragment hcarries).1⟩
      · exact h
  · split
    · exact h
    · split
      · refine ⟨?_, ?_, h.origin⟩
        · rintro r ⟨⟩
          exact Receiver.sequence_addFragment _ m content
        · rintro r ⟨⟩
          exact .inr ⟨p, hp, ((Collects.init hcarries).addFragment hcarries).1⟩
      · exact h

theorem verifyChecksum_cases (r : Receiver) (worker : Bool) :
    r.verifyChecksum worker = r.verifyChecksum true ∨
      (r.verifyChecksum worker).failed = true ∧ (r.verifyChecksum worker).stage = .complete ∧
        (r.verifyChecksum worker).sequence = r.sequence := by
  cases worker with
  | true => exact .inl rfl
  | false =>
      unfold Receiver.verifyChecksum
      split
      · exact .inl rfl
      · split
        · exact .inl rfl
        · exact .inr ⟨rfl, rfl, rfl⟩

theorem receiverTask (h : GatheredFrom fragmentContentCapacity checksum parcels bus)
    (hchunks : ∀ p ∈ parcels, p.chunks ≠ []) (worker parcel : Bool) :
    GatheredFrom fragmentContentCapacity checksum parcels (bus.receiverTask worker parcel) := by
  unfold ReceivingBus.receiverTask
  split
  · exact h
  · rename_i r hr
    split
    · rename_i hstage
      rcases h.collecting r hr with ⟨-, hcomplete⟩ | ⟨p, hp, hcollects⟩
      · rw [hstage] at hcomplete
        cases hcomplete
      · obtain ⟨hverified, -, -⟩ := hcollects.verifyChecksum (hchunks p hp) hstage
        rcases verifyChecksum_cases r worker with hsame | ⟨hfailed, hcomplete, hsequence⟩
        · rw [hsame]
          exact h.replaceReceiver hr (hverified.sequence.trans hcollects.sequence.symm)
            (.inr ⟨p, hp, hverified⟩)
        · exact h.replaceReceiver hr hsequence (.inl ⟨hfailed, hcomplete⟩)
    · rename_i hstage
      have hidle : GatheredFrom fragmentContentCapacity checksum parcels
          { bus with incompleteReliableReceiver := none } :=
        ⟨fun _ hr => (by cases hr), fun _ hr => (by cases hr), h.origin⟩
      unfold ReceivingBus.handleReceiverComplete
      simp only
      split
      · exact hidle
      · rename_i hfailed
        split
        · refine { hidle with origin := fun x hx => ?_ }
          rcases List.mem_append.mp hx with hx | hx
          · exact h.origin x hx
          · rcases h.collecting r hr with ⟨hfailed', -⟩ | ⟨p, hp, hcollects⟩
            · exact absurd hfailed' hfailed
            · exact ⟨p, hp, (List.mem_singleton.mp hx).trans (hcollects.delivery hstage)⟩
        · exact hidle
    · exact h

theorem verifyChecksumComplete (h : GatheredFrom fragmentContentCapacity checksum parcels bus)
    (computed : Bool) :
    GatheredFrom fragmentContentCapacity checksum parcels
      (bus.verifyChecksumComplete checksum computed) := by
  unfold ReceivingBus.verifyChecksumComplete
  split
  · exact h
  · rename_i r hr
    split
    · rename_i embedded hstage
      cases computed with
      | false => exact h.replaceReceiver hr rfl (.inl ⟨rfl, rfl⟩)
      | true =>
          rcases h.collecting r hr with ⟨-, hcomplete⟩ | ⟨p, hp, hcollects⟩
          · rw [hstage] at hcomplete
            cases hcomplete
          · obtain ⟨hverified, -⟩ := hcollects.verifyChecksumComplete hstage
            exact h.replaceReceiver hr (hverified.sequence.trans hcollects.sequence.symm)
              (.inr ⟨p, hp, hverified⟩)
    · exact h

theorem drain (h : GatheredFrom fragmentContentCapacity checksum parcels bus)
    (hchunks : ∀ p ∈ parcels, p.chunks ≠ []) :
    GatheredFrom fragmentContentCapacity checksum parcels (bus.drain checksum) :=
  ((h.receiverTask hchunks true true).verifyChecksumComplete true).receiverTask hchunks true true

end GatheredFrom

namespace ReceivingBus

variable {bus : ReceivingBus} {r : Receiver} {p : Parcel}

theorem stage_receiverTask (h : (bus.receiverTask true true).incompleteReliableReceiver = some r) :
    r.stage ≠ .verifyChecksum := by
  unfold receiverTask at h
  split at h
  · rename_i hnone
    rw [hnone] at h
    cases h
  · rename_i r' hr'
    split at h
    · rename_i hstage
      rw [← Option.some.inj h]
      unfold Receiver.verifyChecksum
      split
      · simp [Receiver.next, hstage]
      · split <;> simp [Receiver.fail]
    · unfold handleReceiverComplete at h
      simp only at h
      split at h
      · cases h
      · split at h <;> cases h
    · rename_i hverify _
      obtain rfl : r' = r := Option.some.inj (hr'.symm.trans h)
      exact hverify

theorem stage_verifyChecksumComplete
    (h : (bus.verifyChecksumComplete checksum true).incompleteReliableReceiver = some r)
    (hbus : ∀ r', bus.incompleteReliableReceiver = some r' → r'.stage ≠ .verifyChecksum) :
    r.stage = .waitFragments ∨ r.stage = .complete := by
  unfold verifyChecksumComplete at h
  split at h
  · rename_i hnone
    rw [hnone] at h
    cases h
  · rename_i r' hr'
    split at h
    · rename_i embedded hstage
      rw [← Option.some.inj h]
      unfold Receiver.verifyChecksumComplete
      refine .inr ?_
      repeat' split
      all_goals simp [Receiver.next, Receiver.fail, hstage]
    · rename_i hchecking
      obtain rfl : r' = r := Option.some.inj (hr'.symm.trans h)
      cases hstage : r'.stage with
      | waitFragments => exact .inl rfl
      | verifyChecksum => exact absurd hstage (hbus r' hr')
      | checking embedded => exact absurd hstage (hchecking embedded)
      | complete => exact .inr rfl

theorem stage_drain (h : (bus.drain checksum).incompleteReliableReceiver = some r) :
    r.stage = .waitFragments := by
  have hverified : ∀ r', ((bus.receiverTask true true).verifyChecksumComplete checksum
      true).incompleteReliableReceiver = some r' →
      r'.stage = .waitFragments ∨ r'.stage = .complete := fun r' hr' =>
    stage_verifyChecksumComplete hr' fun r'' hr'' => stage_receiverTask hr''
  unfold drain receiverTask at h
  split at h
  · rename_i hnone
    rw [show _ = none from hnone] at h
    cases h
  · rename_i r' hr'
    have hstage := hverified r' hr'
    split at h
    · rename_i hverify
      rw [hverify] at hstage
      exact absurd hstage (by simp)
    · unfold handleReceiverComplete at h
      simp only at h
      split at h
      · cases h
      · split at h <;> cases h
    · rename_i hcomplete
      obtain rfl : r' = r := Option.some.inj (hr'.symm.trans h)
      exact hstage.resolve_right hcomplete

theorem drain_idle (hnone : bus.incompleteReliableReceiver = none) : bus.drain checksum = bus := by
  simp [drain, receiverTask, verifyChecksumComplete, hnone]

theorem recvAll_collecting (bus : ReceivingBus) (hr : bus.incompleteReliableReceiver = some r)
    (hlast : r.sequence = bus.lastRecvReliableSequence)
    (hcollects : Collects fragmentContentCapacity checksum p r) {xs : List (Meta × Bytes)}
    (hxs : ∀ x ∈ xs, Carries fragmentContentCapacity checksum p x.1 x.2) :
    ∃ r', (bus.recvAll xs).1.incompleteReliableReceiver = some r' ∧
      Collects fragmentContentCapacity checksum p r' ∧
      (∀ index, r.Holds index → r'.Holds index) ∧ (∀ x ∈ xs, r'.Holds x.1.fragmentIndex) ∧
      (bus.recvAll xs).2 = xs.map Prod.fst := by
  induction xs generalizing bus r with
  | nil => exact ⟨r, hr, hcollects, fun _ hheld => hheld, by simp, rfl⟩
  | cons x xs ih =>
      have hcarries := hxs x List.mem_cons_self
      have hmatches : x.1.sequence = bus.lastRecvReliableSequence := by
        rw [hcarries.sequence, ← hcollects.sequence, hlast]
      have hchecked : r.checkMeta x.1 = true := by
        rw [Receiver.checkMeta, decide_eq_true_eq]
        exact ⟨hcollects.sequence.trans hcarries.sequence.symm,
          hcollects.length.trans hcarries.last.symm⟩
      have hreceived : bus.recvFragmentData x.1 x.2 true true =
          ({ bus with incompleteReliableReceiver := some (r.addFragment x.1 x.2) }, [x.1]) := by
        simp [recvFragmentData, hr, hmatches, hchecked]
      obtain ⟨hadded, hholds⟩ := hcollects.addFragment hcarries
      obtain ⟨r', hr', hcollects', hkept, hall, hacks⟩ :=
        ih { bus with incompleteReliableReceiver := some (r.addFragment x.1 x.2) } rfl
          ((r.sequence_addFragment x.1 x.2).trans hlast) hadded
          fun y hy => hxs y (List.mem_cons_of_mem _ hy)
      refine ⟨r', ?_, hcollects', fun index hheld => hkept index (hheld.addFragment x.1 x.2),
        ?_, ?_⟩
      · simpa only [recvAll, hreceived] using hr'
      · intro y hy
        rcases List.mem_cons.mp hy with rfl | hy
        · exact hkept _ hholds
        · exact hall y hy
      · simp [recvAll, hreceived, hacks]

theorem recvAll_rejected (xs : List (Meta × Bytes)) (hr : bus.incompleteReliableReceiver = some r)
    (hxs : ∀ x ∈ xs, x.1.sequence ≠ bus.lastRecvReliableSequence) :
    bus.recvAll xs = (bus, []) := by
  induction xs with
  | nil => rfl
  | cons x xs ih =>
      have hreceived : bus.recvFragmentData x.1 x.2 true true = (bus, []) := by
        simp [recvFragmentData, hr, hxs x List.mem_cons_self]
      simp [recvAll, hreceived, ih fun y hy => hxs y (List.mem_cons_of_mem _ hy)]

theorem recvAll_idle (xs : List (Meta × Bytes)) (hnone : bus.incompleteReliableReceiver = none)
    (hxs : ∀ x ∈ xs, x.1.sequence = bus.lastRecvReliableSequence) :
    bus.recvAll xs = (bus, xs.map Prod.fst) := by
  induction xs with
  | nil => rfl
  | cons x xs ih =>
      have hreceived : bus.recvFragmentData x.1 x.2 true true = (bus, [x.1]) := by
        simp [recvFragmentData, hnone, hxs x List.mem_cons_self]
      simp [recvAll, hreceived, ih fun y hy => hxs y (List.mem_cons_of_mem _ hy)]

theorem recvAll_opened (hnone : bus.incompleteReliableReceiver = none)
    (hlast : p.sequence ≠ bus.lastRecvReliableSequence) {xs : List (Meta × Bytes)} (hne : xs ≠ [])
    (hxs : ∀ x ∈ xs, Carries fragmentContentCapacity checksum p x.1 x.2) :
    ∃ r', (bus.recvAll xs).1.incompleteReliableReceiver = some r' ∧
      Collects fragmentContentCapacity checksum p r' ∧ (∀ x ∈ xs, r'.Holds x.1.fragmentIndex) ∧
      (bus.recvAll xs).2 = xs.map Prod.fst := by
  cases xs with
  | nil => exact absurd rfl hne
  | cons x xs =>
      have hcarries := hxs x List.mem_cons_self
      have hreceived : bus.recvFragmentData x.1 x.2 true true =
          ({ bus with
              lastRecvReliableSequence := x.1.sequence
              incompleteReliableReceiver := some ((Receiver.init x.1).addFragment x.1 x.2) },
            [x.1]) := by
        simp [recvFragmentData, hnone, hcarries.sequence, hlast]
      obtain ⟨hadded, hholds⟩ := (Collects.init hcarries).addFragment hcarries
      obtain ⟨r', hr', hcollects, hkept, hall, hacks⟩ := recvAll_collecting { bus with
          lastRecvReliableSequence := x.1.sequence
          incompleteReliableReceiver := some ((Receiver.init x.1).addFragment x.1 x.2) } rfl
        (Receiver.sequence_addFragment _ x.1 x.2) hadded
        fun y hy => hxs y (List.mem_cons_of_mem _ hy)
      refine ⟨r', ?_, hcollects, ?_, ?_⟩
      · simpa only [recvAll, hreceived] using hr'
      · intro y hy
        rcases List.mem_cons.mp hy with rfl | hy
        · exact hkept _ hholds
        · exact hall y hy
      · simp [recvAll, hreceived, hacks]

end ReceivingBus

namespace Dispatcher

variable {d : Dispatcher} {p : Parcel}

theorem carries_messages (h : Dispatches fragmentContentCapacity checksum p d)
    {x : Meta × Bytes} (hx : x ∈ d.messages) :
    Carries fragmentContentCapacity checksum p x.1 x.2 := by
  obtain ⟨index, hindex, rfl⟩ := List.mem_mapIdx.mp hx
  refine ⟨h.sequence, ?_, h.content index _ (List.getElem?_eq_getElem hindex)⟩
  rw [← h.length]
  exact Nat.sub_add_cancel (Nat.one_le_of_lt hindex)

theorem exists_message {index : ℕ} (hindex : index < d.fragments.length) :
    ∃ x ∈ d.messages, x.1.fragmentIndex = index :=
  ⟨_, List.mem_mapIdx.mpr ⟨index, hindex, rfl⟩, rfl⟩

end Dispatcher

namespace Channel

variable {s : Channel}

/-- Both buses deal with parcels that are known by their sequence numbers. -/
structure Attributed (fragmentContentCapacity : ℕ) (checksum : Checksum) (s : Channel) :
    Prop where
  sending : SentFrom fragmentContentCapacity checksum s.sending s.data
  receiving : GatheredFrom fragmentContentCapacity checksum s.sending.dispatched s.receiving

theorem attributed_start : Attributed fragmentContentCapacity checksum start :=
  ⟨SentFrom.start, GatheredFrom.start⟩

theorem Attributed.step (h : Attributed fragmentContentCapacity checksum s) {e : Event}
    (he : s.Unwrapped e) :
    Attributed fragmentContentCapacity checksum (s.step fragmentContentCapacity checksum e) := by
  have hchunks : ∀ p ∈ s.sending.dispatched, p.chunks ≠ [] := fun p hp =>
    (h.sending.parcels p hp).2
  have hkept := fun e p => @mem_dispatched_step fragmentContentCapacity checksum s e p
  cases e with
  | submit chunks worker acquired =>
      exact ⟨h.sending.submit chunks worker acquired he,
        h.receiving.mono (hkept (.submit chunks worker acquired))⟩
  | updateChecksumComplete number computed acquired =>
      exact ⟨h.sending.updateChecksumComplete number computed acquired he,
        h.receiving.mono (hkept (.updateChecksumComplete number computed acquired))⟩
  | processSending =>
      exact ⟨h.sending.processSendingDeferred, h.receiving.mono (hkept .processSending)⟩
  | dispatch ok timer =>
      exact ⟨h.sending.dispatch ok timer, h.receiving.mono (hkept (.dispatch ok timer))⟩
  | resend ok => exact ⟨h.sending.resend ok, h.receiving.mono (hkept (.resend ok))⟩
  | recvAck m =>
      have hmono := h.receiving.mono (hkept (.recvAck m))
      simp only [Channel.step] at hmono ⊢
      split
      · rename_i hm
        rw [if_pos hm] at hmono
        exact ⟨h.sending.recvFragmentAck m, hmono⟩
      · exact h
  | completeDispatcher =>
      exact ⟨h.sending.completeDispatcher, h.receiving.mono (hkept .completeDispatcher)⟩
  | recvData m content acquired replied =>
      simp only [Channel.step]
      split
      · rename_i hdata
        obtain ⟨p, hp, hcarries⟩ := h.sending.carried _ hdata
        exact ⟨h.sending,
          h.receiving.recvFragmentData h.sending.unique hp hcarries acquired replied⟩
      · exact h
  | receiverTask worker parcel => exact ⟨h.sending, h.receiving.receiverTask hchunks worker parcel⟩
  | verifyChecksumComplete computed =>
      exact ⟨h.sending, h.receiving.verifyChecksumComplete computed⟩

theorem Attributed.exists_message (h : Attributed fragmentContentCapacity checksum s)
    {d : Dispatcher} (hd : s.sending.incompleteReliableDispatcher = some d) :
    ∃ x, x ∈ d.messages := by
  obtain ⟨p, hp, hdispatches⟩ := h.sending.dispatchers d (by simp [hd])
  have hpos : 0 < d.fragments.length := by
    rw [hdispatches.length]
    exact length_contents_pos (h.sending.parcels p hp).2
  obtain ⟨first, hfirst, -⟩ := d.exists_message hpos
  exact ⟨first, hfirst⟩

theorem gets_of_collects {d : Dispatcher} {p : Parcel} {r : Receiver}
    {arrivals : List (Meta × Bytes)} (hp : p ∈ s.sending.dispatched) (hchunks : p.chunks ≠ [])
    (hd : Dispatches fragmentContentCapacity checksum p d)
    (harrivals : ∀ x, x ∈ arrivals ↔ x ∈ d.messages)
    (hr : ((s.receiving.drain checksum).recvAll arrivals).1.incompleteReliableReceiver = some r)
    (hcollects : Collects fragmentContentCapacity checksum p r)
    (hall : ∀ x ∈ arrivals, r.Holds x.1.fragmentIndex)
    (hacks : ((s.receiving.drain checksum).recvAll arrivals).2 = arrivals.map Prod.fst) :
    s.Gets checksum d arrivals := by
  refine ⟨fun x hx => ?_, p, hp, hd.sequence.symm, ?_⟩
  · rw [hacks]
    exact List.mem_map_of_mem ((harrivals x).mpr hx)
  · refine ReceivingBus.delivered_drain hr hcollects hchunks
      (hcollects.not_waiting fun index hindex => ?_)
    rw [hcollects.length, ← hd.length] at hindex
    obtain ⟨x, hx, rfl⟩ := d.exists_message hindex
    exact hall x ((harrivals x).mpr hx)

theorem Attributed.gets_iff_open (h : Attributed fragmentContentCapacity checksum s)
    {d : Dispatcher} (hd : s.sending.incompleteReliableDispatcher = some d)
    {arrivals : List (Meta × Bytes)} (harrivals : ∀ x, x ∈ arrivals ↔ x ∈ d.messages) :
    s.Gets checksum d arrivals ↔ (s.receiving.drain checksum).Open d.sequence := by
  obtain ⟨p, hp, hdispatches⟩ := h.sending.dispatchers d (by simp [hd])
  have hchunks : ∀ q ∈ s.sending.dispatched, q.chunks ≠ [] := fun q hq =>
    (h.sending.parcels q hq).2
  have hcarries : ∀ x ∈ arrivals, Carries fragmentContentCapacity checksum p x.1 x.2 := fun x hx =>
    Dispatcher.carries_messages hdispatches ((harrivals x).mp hx)
  obtain ⟨first, hfirst⟩ := h.exists_message hd
  have hgathered := h.receiving.drain hchunks
  unfold ReceivingBus.Open
  cases hbus : (s.receiving.drain checksum).incompleteReliableReceiver with
  | some r =>
      dsimp only
      have hwaits := ReceivingBus.stage_drain hbus
      have hlast := hgathered.last r hbus
      constructor
      · rintro ⟨hacked, -⟩
        by_contra hother
        have hrejected := ReceivingBus.recvAll_rejected arrivals hbus fun x hx => by
          rw [(hcarries x hx).sequence, ← hdispatches.sequence, ← hlast]
          exact Ne.symm hother
        have hmem := hacked first hfirst
        rw [hrejected] at hmem
        cases hmem
      · intro hsequence
        rcases hgathered.collecting r hbus with ⟨-, hstage⟩ | ⟨q, hq, hcollects⟩
        · rw [hwaits] at hstage
          cases hstage
        · obtain rfl : q = p := h.sending.unique q hq p hp
            (by rw [← hcollects.sequence, hsequence, hdispatches.sequence])
          obtain ⟨r', hr', hcollects', -, hall, hacks⟩ :=
            ReceivingBus.recvAll_collecting _ hbus hlast hcollects hcarries
          exact gets_of_collects hp (hchunks q hp) hdispatches harrivals hr' hcollects' hall hacks
  | none =>
      dsimp only
      by_cases hlast : (s.receiving.drain checksum).lastRecvReliableSequence = d.sequence
      · have hidle := ReceivingBus.recvAll_idle arrivals hbus fun x hx => by
          rw [(hcarries x hx).sequence, hlast, hdispatches.sequence]
        have hdrained : (s.receiving.drain checksum).drain checksum =
            s.receiving.drain checksum := ReceivingBus.drain_idle hbus
        constructor
        · rintro ⟨-, q, -, hsequence, hdelivered⟩ -
          rw [hidle, hdrained] at hdelivered
          exact ⟨q.delivery, hdelivered, hsequence⟩
        · intro hopen
          obtain ⟨x, hx, hsequence⟩ := hopen hlast
          obtain ⟨q, hq, rfl⟩ := hgathered.origin x hx
          refine ⟨fun y hy => ?_, q, hq, hsequence, ?_⟩
          · rw [hidle]
            exact List.mem_map_of_mem ((harrivals y).mpr hy)
          · rw [hidle, hdrained]
            exact hx
      · refine ⟨fun _ heq => absurd heq hlast, fun _ => ?_⟩
        obtain ⟨r', hr', hcollects, hall, hacks⟩ := ReceivingBus.recvAll_opened hbus (p := p)
          (by rw [← hdispatches.sequence]; exact Ne.symm hlast)
          (List.ne_nil_of_mem ((harrivals first).mpr hfirst)) hcarries
        exact gets_of_collects hp (hchunks p hp) hdispatches harrivals hr' hcollects hall hacks

end Channel

end Delivery

end PomeloUdp
