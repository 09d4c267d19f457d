import PomeloUdp.Delivery.Receiving
import PomeloUdp.Delivery.SendingInvariant

/-!
# What a receiving bus has received

A receiver collects the fragments of one parcel. When it has them all, the
checksum it computes is the one that came with them and the bytes it hands over
are those of the parcel. An ack says that its fragment is in the receiver in
charge or that the parcel was delivered.
-/

namespace PomeloUdp

namespace Delivery

/-- What the application gets when the parcel arrives. -/
def Parcel.delivery (p : Parcel) : UInt64 × Bytes := (p.sequence, bytesOf p.chunks)

/-- The receiver has fragment `index`. -/
def Receiver.Holds (r : Receiver) (index : ℕ) : Prop :=
  ∃ content, r.fragments[index]? = some (some content)

section Collects

variable (fragmentContentCapacity : ℕ) (checksum : Checksum)

/-- What the fragments of a receiver are at the stages of its pipeline. -/
def Stored (p : Parcel) (r : Receiver) : ReceiverStage → Prop
  | .waitFragments =>
      (∀ (index : ℕ) (content : Bytes), r.fragments[index]? = some (some content) →
        (p.contents fragmentContentCapacity checksum)[index]? = some content) ∧
      r.recvFragments = r.fragments.countP Option.isSome ∧
      r.recvFragments ≠ r.fragments.length
  | .verifyChecksum =>
      r.fragments = (p.contents fragmentContentCapacity checksum).map some
  | .checking embeddedChecksum =>
      embeddedChecksum = checksum.digest (bytesOf p.chunks) ∧
      receivedBytes r.fragments = bytesOf p.chunks ∧ ∀ f ∈ r.fragments, f.isSome
  | .complete =>
      receivedBytes r.fragments = bytesOf p.chunks ∧ ∀ f ∈ r.fragments, f.isSome

/-- The receiver collects the parcel. -/
structure Collects (p : Parcel) (r : Receiver) : Prop where
  sequence : r.sequence = p.sequence
  length : r.fragments.length = (p.contents fragmentContentCapacity checksum).length
  failed : r.failed = false
  stored : Stored fragmentContentCapacity checksum p r r.stage

end Collects

variable {fragmentContentCapacity : ℕ} {checksum : Checksum} {p : Parcel} {r : Receiver}
  {m : Meta} {content : Bytes}

theorem splitChecksum_keeps {fragments rest : List (Option Bytes)} {embedded : Bytes}
    (h : splitChecksum fragments = some (embedded, rest)) :
    rest.length = fragments.length ∧
      ((∀ f ∈ fragments, f.isSome) → ∀ f ∈ rest, f.isSome) := by
  unfold splitChecksum at h
  split at h
  · rename_i content hlast
    obtain ⟨front, rfl⟩ := List.getLast?_eq_some_iff.mp hlast
    split at h
    · cases h
    · simp only [Option.some.injEq, Prod.mk.injEq, List.dropLast_concat] at h
      obtain ⟨-, rfl⟩ := h
      refine ⟨by simp, fun hall f hf => ?_⟩
      rcases List.mem_append.mp hf with hf | hf
      · exact hall f (List.mem_append_left _ hf)
      · rw [List.mem_singleton.mp hf]
        rfl
  · cases h

namespace Collects

theorem complete_fragments (h : Collects fragmentContentCapacity checksum p r)
    (hstage : r.stage ≠ .waitFragments) : ∀ f ∈ r.fragments, f.isSome := by
  have hstored := h.stored
  cases hcase : r.stage with
  | waitFragments => exact absurd hcase hstage
  | verifyChecksum =>
      rw [hcase] at hstored
      intro f hf
      rw [show r.fragments = _ from hstored] at hf
      obtain ⟨content, -, rfl⟩ := List.mem_map.mp hf
      rfl
  | checking embedded =>
      rw [hcase] at hstored
      exact hstored.2.2
  | complete =>
      rw [hcase] at hstored
      exact hstored.2

theorem holds (h : Collects fragmentContentCapacity checksum p r)
    (hstage : r.stage ≠ .waitFragments) {index : ℕ} (hindex : index < r.fragments.length) :
    r.Holds index := by
  have hsome := h.complete_fragments hstage _ (List.getElem_mem hindex)
  obtain ⟨content, hcontent⟩ := Option.isSome_iff_exists.mp hsome
  exact ⟨content, by rw [List.getElem?_eq_getElem hindex, hcontent]⟩

theorem not_waiting (h : Collects fragmentContentCapacity checksum p r)
    (hall : ∀ index < r.fragments.length, r.Holds index) : r.stage ≠ .waitFragments := by
  intro hstage
  have hstored := h.stored
  rw [hstage] at hstored
  obtain ⟨-, hcount, hmissing⟩ := hstored
  apply hmissing
  rw [hcount, List.countP_eq_length]
  intro f hf
  obtain ⟨index, hindex, rfl⟩ := List.getElem_of_mem hf
  obtain ⟨content, hcontent⟩ := hall index hindex
  rw [List.getElem?_eq_getElem hindex] at hcontent
  rw [Option.some.inj hcontent]
  rfl

theorem init (h : Carries fragmentContentCapacity checksum p m content) :
    Collects fragmentContentCapacity checksum p (Receiver.init m) where
  sequence := h.sequence
  length := by simp [Receiver.init, h.last]
  failed := rfl
  stored := by
    refine ⟨fun index content hcontent => ?_, ?_, ?_⟩
    · simp [Receiver.init, List.getElem?_replicate] at hcontent
    · simp [Receiver.init, List.countP_replicate]
    · simp [Receiver.init]

theorem verifyChecksum (h : Collects fragmentContentCapacity checksum p r)
    (hchunks : p.chunks ≠ []) (hstage : r.stage = .verifyChecksum) :
    Collects fragmentContentCapacity checksum p (r.verifyChecksum true) ∧
      (r.verifyChecksum true).stage ≠ .waitFragments ∧
      (r.verifyChecksum true).stage ≠ .verifyChecksum := by
  have hfragments := h.stored
  rw [hstage] at hfragments
  simp only [Stored] at hfragments
  by_cases hlength : r.fragments.length < 2
  · have hbytes := flatten_emitted_of_length_lt fragmentContentCapacity checksum hchunks
      (show (p.contents fragmentContentCapacity checksum).length < 2 from h.length ▸ hlength)
    have hnext : r.verifyChecksum true = { r with stage := .complete } := by
      simp [Receiver.verifyChecksum, hlength, Receiver.next, hstage]
    rw [hnext]
    refine ⟨⟨h.sequence, h.length, h.failed, ?_, h.complete_fragments (by simp [hstage])⟩,
      by simp, by simp⟩
    rw [hfragments, receivedBytes_map_some]
    exact hbytes
  · obtain ⟨rest, hsplit, hbytes⟩ := splitChecksum_emitted fragmentContentCapacity checksum hchunks
      (show 2 ≤ (p.contents fragmentContentCapacity checksum).length
        from h.length ▸ Nat.le_of_not_lt hlength)
    change splitChecksum ((p.contents fragmentContentCapacity checksum).map some) = _ at hsplit
    rw [← hfragments] at hsplit
    obtain ⟨hrest, hsome⟩ := splitChecksum_keeps hsplit
    have hchecking : r.verifyChecksum true = { r with
        fragments := rest, stage := .checking (checksum.digest (bytesOf p.chunks)) } := by
      simp [Receiver.verifyChecksum, hlength, hsplit]
    rw [hchecking]
    exact ⟨⟨h.sequence, hrest.trans h.length, h.failed, rfl, hbytes,
      hsome (h.complete_fragments (by simp [hstage]))⟩, by simp, by simp⟩

theorem verifyChecksumComplete (h : Collects fragmentContentCapacity checksum p r)
    {embedded : Bytes} (hstage : r.stage = .checking embedded) :
    Collects fragmentContentCapacity checksum p (r.verifyChecksumComplete checksum embedded true) ∧
      (r.verifyChecksumComplete checksum embedded true).stage = .complete := by
  have hstored := h.stored
  rw [hstage] at hstored
  obtain ⟨hembedded, hbytes, hsome⟩ := hstored
  have hnext : r.verifyChecksumComplete checksum embedded true =
      { r with stage := .complete } := by
    simp [Receiver.verifyChecksumComplete, hbytes, hembedded, Receiver.next, hstage]
  rw [hnext]
  exact ⟨⟨h.sequence, h.length, h.failed, hbytes, hsome⟩, rfl⟩

theorem delivery (h : Collects fragmentContentCapacity checksum p r)
    (hstage : r.stage = .complete) :
    (r.sequence, (setFragments r.fragments).flatten) = p.delivery := by
  have hstored := h.stored
  rw [hstage] at hstored
  rw [bytes_setFragments, hstored.1, h.sequence]
  rfl

end Collects

/-- Adding a fragment fills its slot if that is empty, and starts the next stage
with the last one; in every other case nothing changes. -/
theorem Receiver.addFragment_cases (r : Receiver) (m : Meta) (content : Bytes) :
    (r.fragments[m.fragmentIndex]? ≠ some none ∧ r.addFragment m content = r) ∨
      (r.fragments[m.fragmentIndex]? = some none ∧
        (r.addFragment m content).sequence = r.sequence ∧
        (r.addFragment m content).failed = r.failed ∧
        (r.addFragment m content).fragments =
          r.fragments.set m.fragmentIndex (some content) ∧
        (r.addFragment m content).recvFragments = r.recvFragments + 1 ∧
        (r.addFragment m content).stage =
          if r.recvFragments + 1 = r.fragments.length then r.next.stage else r.stage) := by
  by_cases hslot : r.fragments[m.fragmentIndex]? = some none
  · refine Or.inr ⟨hslot, ?_⟩
    by_cases hlast : r.recvFragments + 1 = r.fragments.length
    · cases hstage : r.stage <;> simp [Receiver.addFragment, hslot, hlast, Receiver.next, hstage]
    · simp [Receiver.addFragment, hslot, hlast]
  · refine Or.inl ⟨hslot, ?_⟩
    unfold Receiver.addFragment
    split
    · rename_i hempty
      exact absurd hempty hslot
    · rfl

theorem Receiver.sequence_addFragment (r : Receiver) (m : Meta) (content : Bytes) :
    (r.addFragment m content).sequence = r.sequence := by
  obtain ⟨-, hsame⟩ | ⟨-, hsequence, -⟩ := r.addFragment_cases m content
  · rw [hsame]
  · exact hsequence

theorem Receiver.Holds.addFragment {index : ℕ} (h : r.Holds index) (m : Meta)
    (content : Bytes) : (r.addFragment m content).Holds index := by
  obtain ⟨-, hsame⟩ | ⟨hslot, -, -, hset, -⟩ := r.addFragment_cases m content
  · rw [hsame]
    exact h
  · obtain ⟨old, hold⟩ := h
    refine ⟨old, ?_⟩
    have hne : m.fragmentIndex ≠ index := by
      rintro rfl
      rw [hslot] at hold
      cases hold
    rw [hset, List.getElem?_set_ne hne]
    exact hold

namespace Collects

theorem addFragment_waiting (h : Collects fragmentContentCapacity checksum p r)
    (hcarries : Carries fragmentContentCapacity checksum p m content)
    (hstage : r.stage = .waitFragments)
    (hslot : r.fragments[m.fragmentIndex]? = some none)
    {r' : Receiver} (hsequence : r'.sequence = r.sequence) (hfailed : r'.failed = r.failed)
    (hset : r'.fragments = r.fragments.set m.fragmentIndex (some content))
    (hcount : r'.recvFragments = r.recvFragments + 1)
    (hstage' : r'.stage = if r.recvFragments + 1 = r.fragments.length
      then .verifyChecksum else .waitFragments) :
    Collects fragmentContentCapacity checksum p r' := by
  have hstored := h.stored
  rw [hstage] at hstored
  obtain ⟨hcontent, hcounted, hmissing⟩ := hstored
  have hcontent' : ∀ (index : ℕ) (other : Bytes), r'.fragments[index]? = some (some other) →
      (p.contents fragmentContentCapacity checksum)[index]? = some other := by
    intro index other hother
    rw [hset, List.getElem?_set] at hother
    split at hother
    · rename_i hindex
      split at hother
      · simp only [Option.some.injEq] at hother
        rw [← hindex, ← hother]
        exact hcarries.content
      · cases hother
    · exact hcontent index other hother
  have hindex : m.fragmentIndex < r.fragments.length :=
    (List.getElem?_eq_some_iff.mp hslot).1
  have hnone : r.fragments[m.fragmentIndex] = none :=
    (List.getElem?_eq_some_iff.mp hslot).2
  have hcounted' : r'.recvFragments = r'.fragments.countP Option.isSome := by
    rw [hcount, hset, List.countP_set hindex, hnone, hcounted]
    simp
  have hlength' : r'.fragments.length = r.fragments.length := by simp [hset]
  refine ⟨hsequence.trans h.sequence, hlength'.trans h.length, hfailed.trans h.failed, ?_⟩
  rw [hstage']
  split
  · rename_i hall
    -- the counter says that no slot is empty any more
    have hsome : ∀ f ∈ r'.fragments, f.isSome := by
      rw [← List.countP_eq_length, ← hcounted', hcount, hall, hlength']
    simp only [Stored]
    apply List.ext_getElem?
    intro index
    rw [List.getElem?_map]
    by_cases hlt : index < r'.fragments.length
    · obtain ⟨other, hother⟩ :=
        Option.isSome_iff_exists.mp (hsome _ (List.getElem_mem hlt))
      have hget : r'.fragments[index]? = some (some other) := by
        rw [List.getElem?_eq_getElem hlt, hother]
      rw [hget, hcontent' index other hget]
      rfl
    · have hle := Nat.le_of_not_lt hlt
      rw [List.getElem?_eq_none hle, List.getElem?_eq_none]
      · rfl
      · rwa [← h.length, ← hlength']
  · rename_i hmore
    refine ⟨hcontent', hcounted', ?_⟩
    rw [hcount, hlength']
    exact hmore

theorem addFragment (h : Collects fragmentContentCapacity checksum p r)
    (hcarries : Carries fragmentContentCapacity checksum p m content) :
    Collects fragmentContentCapacity checksum p (r.addFragment m content) ∧
      (r.addFragment m content).Holds m.fragmentIndex := by
  have hindex : m.fragmentIndex < r.fragments.length := by
    rw [h.length]
    exact (List.getElem?_eq_some_iff.mp hcarries.content).1
  obtain ⟨hslot, hsame⟩ | ⟨hslot, hsequence, hfailed, hset, hcount, hstage'⟩ :=
    r.addFragment_cases m content
  · rw [hsame]
    refine ⟨h, ?_⟩
    rw [List.getElem?_eq_getElem hindex] at hslot
    cases hcase : r.fragments[m.fragmentIndex] with
    | none => exact absurd (congrArg some hcase) hslot
    | some old => exact ⟨old, by rw [List.getElem?_eq_getElem hindex, hcase]⟩
  · have hstage : r.stage = .waitFragments := by
      by_contra hne
      have hsome := h.complete_fragments hne _ (List.mem_of_getElem? hslot)
      cases hsome
    refine ⟨h.addFragment_waiting hcarries hstage hslot hsequence hfailed hset hcount ?_,
      content, ?_⟩
    · rw [hstage']
      simp [Receiver.next, hstage]
    · rw [hset, List.getElem?_set_self hindex]

end Collects

/-- What holds of a receiving bus and the acks on the network, for the parcels
that a sending bus has given sequence numbers. -/
structure ReceivingInvariant (fragmentContentCapacity : ℕ) (checksum : Checksum)
    (parcels : List Parcel) (acks : List Meta) (bus : ReceivingBus) : Prop where
  sorted : bus.delivered.Pairwise (fun x y => x.1 < y.1)
  origin : ∀ x ∈ bus.delivered, ∃ p ∈ parcels, x = p.delivery
  below : ∀ x ∈ bus.delivered, x.1 ≤ bus.lastRecvReliableSequence ∧
    (bus.incompleteReliableReceiver ≠ none → x.1 < bus.lastRecvReliableSequence)
  idle : bus.incompleteReliableReceiver = none → bus.lastRecvReliableSequence = 0 ∨
    ∃ x ∈ bus.delivered, x.1 = bus.lastRecvReliableSequence
  collecting : ∀ r, bus.incompleteReliableReceiver = some r →
    r.sequence = bus.lastRecvReliableSequence ∧
      ∃ p ∈ parcels, Collects fragmentContentCapacity checksum p r
  acked : ∀ m ∈ acks, (∃ x ∈ bus.delivered, x.1 = m.sequence) ∨
    ∃ r, bus.incompleteReliableReceiver = some r ∧ r.sequence = m.sequence ∧
      r.Holds m.fragmentIndex

theorem receivingInvariant_start :
    ReceivingInvariant fragmentContentCapacity checksum [] [] ReceivingBus.start := by
  constructor <;> simp [ReceivingBus.start]

namespace ReceivingInvariant

variable {parcels : List Parcel} {acks : List Meta} {bus : ReceivingBus}

theorem mono (h : ReceivingInvariant fragmentContentCapacity checksum parcels acks bus)
    {more : List Parcel} (hmore : ∀ p ∈ parcels, p ∈ more) :
    ReceivingInvariant fragmentContentCapacity checksum more acks bus :=
  { h with
    origin := fun x hx => by
      obtain ⟨p, hp, hdelivery⟩ := h.origin x hx
      exact ⟨p, hmore p hp, hdelivery⟩
    collecting := fun r hr => by
      obtain ⟨hsequence, p, hp, hcollects⟩ := h.collecting r hr
      exact ⟨hsequence, p, hmore p hp, hcollects⟩ }

theorem replaceReceiver
    (h : ReceivingInvariant fragmentContentCapacity checksum parcels acks bus) {r r' : Receiver}
    (hr : bus.incompleteReliableReceiver = some r) (hp : p ∈ parcels)
    (hcollects : Collects fragmentContentCapacity checksum p r')
    (hsequence : r'.sequence = r.sequence) (hholds : ∀ index, r.Holds index → r'.Holds index) :
    ReceivingInvariant fragmentContentCapacity checksum parcels acks
      { bus with incompleteReliableReceiver := some r' } := by
  refine ⟨h.sorted, h.origin, fun x hx => ⟨(h.below x hx).1, fun _ => (h.below x hx).2 ?_⟩,
    (fun hnone => by cases hnone), ?_, ?_⟩
  · simp [hr]
  · rintro other ⟨⟩
    exact ⟨hsequence.trans (h.collecting r hr).1, p, hp, hcollects⟩
  · intro m hm
    rcases h.acked m hm with hdelivered | ⟨other, hother, heq, hheld⟩
    · exact Or.inl hdelivered
    · rw [hr] at hother
      obtain rfl := Option.some.inj hother
      exact Or.inr ⟨r', rfl, hsequence.trans heq, hholds _ hheld⟩

theorem reply (h : ReceivingInvariant fragmentContentCapacity checksum parcels acks bus)
    (m : Meta) (replied : Bool)
    (hm : (∃ x ∈ bus.delivered, x.1 = m.sequence) ∨
      ∃ r, bus.incompleteReliableReceiver = some r ∧ r.sequence = m.sequence ∧
        r.Holds m.fragmentIndex) :
    ReceivingInvariant fragmentContentCapacity checksum parcels
      (acks ++ if replied then [m] else []) bus := by
  refine { h with acked := fun other hother => ?_ }
  rcases List.mem_append.mp hother with hother | hother
  · exact h.acked other hother
  · split at hother
    · rw [List.mem_singleton.mp hother]
      exact hm
    · cases hother

/-- A fragment of a parcel arrives. While the bus is idle it must not be one of
an older parcel than the last one. -/
theorem recvFragmentData
    (h : ReceivingInvariant fragmentContentCapacity checksum parcels acks bus)
    (hpositive : ∀ p ∈ parcels, 0 < p.sequence)
    (hunique : ∀ p ∈ parcels, ∀ q ∈ parcels, p.sequence = q.sequence → p = q)
    (hp : p ∈ parcels) (hcarries : Carries fragmentContentCapacity checksum p m content)
    (acquired replied : Bool)
    (hsafe : bus.incompleteReliableReceiver = none → acquired = true →
      bus.lastRecvReliableSequence ≤ m.sequence) :
    ReceivingInvariant fragmentContentCapacity checksum parcels
      (acks ++ (bus.recvFragmentData m content acquired replied).2)
      (bus.recvFragmentData m content acquired replied).1 := by
  unfold ReceivingBus.recvFragmentData
  simp only
  split
  · rename_i r hr
    obtain ⟨hsequence, q, hq, hcollects⟩ := h.collecting r hr
    split
    · simpa using h
    · rename_i hlast
      simp only [ne_eq, not_not] at hlast
      split
      · obtain rfl : q = p := hunique q hq p hp (by
          rw [← hcollects.sequence, hsequence, ← hlast, hcarries.sequence])
        obtain ⟨hadded, hholds⟩ := hcollects.addFragment hcarries
        have hsame : (r.addFragment m content).sequence = r.sequence :=
          hadded.sequence.trans hcollects.sequence.symm
        exact (h.replaceReceiver hr hq hadded hsame fun index hindex =>
            hindex.addFragment m content).reply m replied
          (Or.inr ⟨_, rfl, hadded.sequence.trans hcarries.sequence.symm, hholds⟩)
      · simpa using h
  · rename_i hnone
    split
    · rename_i hlast
      refine h.reply m replied (Or.inl ?_)
      rcases h.idle hnone with hzero | hdelivered
      · have hpos := hpositive p hp
        rw [← hcarries.sequence, hlast, hzero] at hpos
        exact absurd hpos (UInt64.lt_irrefl _)
      · rw [hlast]
        exact hdelivered
    · rename_i hlast
      split
      · rename_i hacquired
        have hlt : bus.lastRecvReliableSequence < m.sequence :=
          UInt64.lt_of_le_of_ne (hsafe hnone hacquired) (Ne.symm hlast)
        obtain ⟨hadded, hholds⟩ := (Collects.init hcarries).addFragment hcarries
        have hsequence : ((Receiver.init m).addFragment m content).sequence = m.sequence :=
          hadded.sequence.trans hcarries.sequence.symm
        have hcollecting : ReceivingInvariant fragmentContentCapacity checksum parcels acks
            { bus with
              lastRecvReliableSequence := m.sequence
              incompleteReliableReceiver := some ((Receiver.init m).addFragment m content) } := by
          refine ⟨h.sorted, h.origin, ?_, (fun hidle => by cases hidle), ?_, ?_⟩
          · intro x hx
            have hbelow := UInt64.lt_of_le_of_lt (h.below x hx).1 hlt
            exact ⟨UInt64.le_of_lt hbelow, fun _ => hbelow⟩
          · rintro r ⟨⟩
            exact ⟨hsequence, p, hp, hadded⟩
          · intro other hother
            rcases h.acked other hother with hdelivered | ⟨r, hr, -⟩
            · exact Or.inl hdelivered
            · rw [hnone] at hr
              cases hr
        exact hcollecting.reply m replied (Or.inr ⟨_, rfl, hsequence, hholds⟩)
      · simpa using h

/-- The queued task of the receiver. The worker and the parcel must be there when
they are asked for. -/
theorem receiverTask (h : ReceivingInvariant fragmentContentCapacity checksum parcels acks bus)
    (hchunks : ∀ p ∈ parcels, p.chunks ≠ []) :
    ReceivingInvariant fragmentContentCapacity checksum parcels acks
      (bus.receiverTask true true) := by
  unfold ReceivingBus.receiverTask
  split
  · exact h
  · rename_i r hr
    obtain ⟨hsequence, p, hp, hcollects⟩ := h.collecting r hr
    split
    · rename_i hstage
      obtain ⟨hverified, hpast, -⟩ := hcollects.verifyChecksum (hchunks p hp) hstage
      refine h.replaceReceiver hr hp hverified
        (hverified.sequence.trans hcollects.sequence.symm) fun index hindex => ?_
      apply hverified.holds hpast
      rw [hverified.length, ← hcollects.length]
      obtain ⟨content, hcontent⟩ := hindex
      exact (List.getElem?_eq_some_iff.mp hcontent).1
    · rename_i hstage
      have hdelivered : bus.handleReceiverComplete r true = { bus with
          incompleteReliableReceiver := none, delivered := bus.delivered ++ [p.delivery] } := by
        simp [ReceivingBus.handleReceiverComplete, hcollects.failed,
          hcollects.delivery hstage]
      have hlast : p.sequence = bus.lastRecvReliableSequence :=
        hcollects.sequence.symm.trans hsequence
      rw [hdelivered]
      refine ⟨?_, ?_, ?_, fun _ => Or.inr ⟨p.delivery, by simp, hlast⟩, by simp, ?_⟩
      · rw [List.pairwise_append]
        refine ⟨h.sorted, List.pairwise_singleton _ _, fun x hx y hy => ?_⟩
        rw [List.mem_singleton.mp hy]
        change x.1 < p.sequence
        rw [hlast]
        exact (h.below x hx).2 (by simp [hr])
      · intro x hx
        rcases List.mem_append.mp hx with hx | hx
        · exact h.origin x hx
        · exact ⟨p, hp, List.mem_singleton.mp hx⟩
      · intro x hx
        refine ⟨?_, by simp⟩
        rcases List.mem_append.mp hx with hx | hx
        · exact (h.below x hx).1
        · rw [List.mem_singleton.mp hx]
          exact UInt64.le_of_eq hlast
      · intro m hm
        refine Or.inl ?_
        rcases h.acked m hm with ⟨x, hx, heq⟩ | ⟨other, hother, heq, -⟩
        · exact ⟨x, List.mem_append_left _ hx, heq⟩
        · rw [hr] at hother
          obtain rfl := Option.some.inj hother
          exact ⟨p.delivery, by simp, hcollects.sequence.symm.trans heq⟩
    · exact h

theorem verifyChecksumComplete
    (h : ReceivingInvariant fragmentContentCapacity checksum parcels acks bus) :
    ReceivingInvariant fragmentContentCapacity checksum parcels acks
      (bus.verifyChecksumComplete checksum true) := by
  unfold ReceivingBus.verifyChecksumComplete
  split
  · exact h
  · rename_i r hr
    obtain ⟨-, p, hp, hcollects⟩ := h.collecting r hr
    split
    · rename_i embedded hstage
      obtain ⟨hverified, hcomplete⟩ := hcollects.verifyChecksumComplete hstage
      refine h.replaceReceiver hr hp hverified
        (hverified.sequence.trans hcollects.sequence.symm) fun index hindex => ?_
      apply hverified.holds (by simp [hcomplete])
      rw [hverified.length, ← hcollects.length]
      obtain ⟨content, hcontent⟩ := hindex
      exact (List.getElem?_eq_some_iff.mp hcontent).1
    · exact h

end ReceivingInvariant

namespace ReceivingBus

variable {bus : ReceivingBus}

theorem delivered_receiverTask (hr : bus.incompleteReliableReceiver = some r)
    (hcollects : Collects fragmentContentCapacity checksum p r) (hstage : r.stage = .complete) :
    p.delivery ∈ (bus.receiverTask true true).delivered := by
  simp [receiverTask, hr, hstage, handleReceiverComplete, hcollects.failed,
    hcollects.delivery hstage]

theorem mem_delivered_receiverTask {x : UInt64 × Bytes} (hx : x ∈ bus.delivered) :
    x ∈ (bus.receiverTask true true).delivered := by
  unfold receiverTask handleReceiverComplete
  repeat' split
  all_goals simp [hx]

theorem mem_delivered_verifyChecksumComplete {x : UInt64 × Bytes} (hx : x ∈ bus.delivered) :
    x ∈ (bus.verifyChecksumComplete checksum true).delivered := by
  unfold verifyChecksumComplete
  repeat' split
  all_goals exact hx

theorem mem_delivered_drain {x : UInt64 × Bytes} (hx : x ∈ bus.delivered) :
    x ∈ (bus.drain checksum).delivered :=
  mem_delivered_receiverTask (mem_delivered_verifyChecksumComplete (mem_delivered_receiverTask hx))

theorem delivered_drain (hr : bus.incompleteReliableReceiver = some r)
    (hcollects : Collects fragmentContentCapacity checksum p r) (hchunks : p.chunks ≠ [])
    (hstage : r.stage ≠ .waitFragments) : p.delivery ∈ (bus.drain checksum).delivered := by
  -- past the verification, the worker and the last task remain
  have hrest : ∀ {b : ReceivingBus} {r' : Receiver}, b.incompleteReliableReceiver = some r' →
      Collects fragmentContentCapacity checksum p r' → r'.stage ≠ .waitFragments →
      r'.stage ≠ .verifyChecksum →
        p.delivery ∈
          ((b.verifyChecksumComplete checksum true).receiverTask true true).delivered := by
    intro b r' hr' hcollects' hwait hverify
    cases hcase : r'.stage with
    | waitFragments => exact absurd hcase hwait
    | verifyChecksum => exact absurd hcase hverify
    | checking embedded =>
        obtain ⟨hverified, hcomplete⟩ := hcollects'.verifyChecksumComplete hcase
        refine delivered_receiverTask ?_ hverified hcomplete
        simp [verifyChecksumComplete, hr', hcase]
    | complete =>
        refine delivered_receiverTask ?_ hcollects' hcase
        simp [verifyChecksumComplete, hr', hcase]
  unfold drain
  cases hcase : r.stage with
  | waitFragments => exact absurd hcase hstage
  | verifyChecksum =>
      obtain ⟨hverified, hwait, hverify⟩ := hcollects.verifyChecksum hchunks hcase
      refine hrest ?_ hverified hwait hverify
      simp [receiverTask, hr, hcase]
  | checking embedded =>
      refine hrest ?_ hcollects hstage (by simp [hcase])
      simp [receiverTask, hr, hcase]
  | complete =>
      exact mem_delivered_receiverTask (mem_delivered_verifyChecksumComplete
        (delivered_receiverTask hr hcollects hcase))

end ReceivingBus

end Delivery

end PomeloUdp
