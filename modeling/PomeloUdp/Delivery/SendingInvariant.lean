import PomeloUdp.Delivery.Sending
import PomeloUdp.Library.Counter
import Mathlib.Data.List.Nodup

/-!
# What a sending bus has sent

A dispatcher sends the parcel it was created for: every fragment on the network
carries the sequence number of a parcel and one of its contents. A fragment
counts as acked only when an ack for it is on the network. As long as the
sequence numbers do not wrap around and no sender overtakes another one, the
parcels get increasing sequence numbers in the order of their sends.
-/

namespace PomeloUdp

namespace Delivery

section Contents

variable (fragmentContentCapacity : ℕ) (checksum : Checksum)

/-- What travels behind the metas of a parcel. -/
def Parcel.contents (p : Parcel) : List Bytes :=
  emitted fragmentContentCapacity checksum p.chunks

/-- The meta and the content are those of a fragment of the parcel. -/
structure Carries (p : Parcel) (m : Meta) (content : Bytes) : Prop where
  sequence : m.sequence = p.sequence
  last : m.lastIndex + 1 = (p.contents fragmentContentCapacity checksum).length
  content : (p.contents fragmentContentCapacity checksum)[m.fragmentIndex]? = some content

/-- The fragments of the dispatcher are those of the parcel. -/
structure Dispatches (p : Parcel) (d : Dispatcher) : Prop where
  sequence : d.sequence = p.sequence
  length : d.fragments.length = (p.contents fragmentContentCapacity checksum).length
  content : ∀ index fragment, d.fragments[index]? = some fragment →
    (p.contents fragmentContentCapacity checksum)[index]? =
      some (payload d.checksumMode d.checksum d.fragments.length index fragment.content)

end Contents

/-- An ack for the fragment was sent. -/
def Acked (acks : List Meta) (sequence : UInt64) (index : ℕ) : Prop :=
  ∃ m ∈ acks, m.sequence = sequence ∧ m.fragmentIndex = index

theorem Acked.append {acks : List Meta} {sequence : UInt64} {index : ℕ}
    (h : Acked acks sequence index) (more : List Meta) :
    Acked (acks ++ more) sequence index := by
  obtain ⟨m, hm, hacked⟩ := h
  exact ⟨m, List.mem_append_left _ hm, hacked⟩

/-- Every fragment that the dispatcher takes for acked was acked. -/
def AcksKnown (acks : List Meta) (d : Dispatcher) : Prop :=
  ∀ index fragment, d.fragments[index]? = some fragment → fragment.acked = true →
    Acked acks d.sequence index

variable {fragmentContentCapacity : ℕ} {checksum : Checksum} {acks : List Meta}

namespace Dispatcher

theorem dispatches_init (number : ℕ) (sequence : UInt64) (chunks : List Chunk) :
    Dispatches fragmentContentCapacity checksum ⟨number, sequence, chunks⟩
      (init fragmentContentCapacity checksum number sequence chunks) where
  sequence := rfl
  length := by simp [init, Parcel.contents, emitted]
  content index fragment h := by
    simp only [init] at h ⊢
    simp [Parcel.contents, emitted, List.getElem?_mapIdx, h]

theorem acksKnown_init (number : ℕ) (sequence : UInt64) (chunks : List Chunk) :
    AcksKnown acks (init fragmentContentCapacity checksum number sequence chunks) := by
  intro index fragment h hacked
  have hmem := List.mem_of_getElem? h
  simp only [init, initFragments, List.mem_append, List.mem_map] at hmem
  rcases hmem with ⟨chunk, -, rfl⟩ | hmem
  · cases hacked
  · split at hmem
    · rw [List.mem_singleton.mp hmem] at hacked
      cases hacked
    · cases hmem

theorem mem_sendFrom {d : Dispatcher} {ok : ℕ → Bool} {index : ℕ} {fragments : List Fragment}
    {x : Meta × Bytes} (hx : x ∈ (d.sendFrom ok index fragments).1) :
    ∃ offset fragment, fragments[offset]? = some fragment ∧
      x = d.message (index + offset) fragment := by
  induction fragments generalizing index with
  | nil => cases hx
  | cons fragment fragments ih =>
      have later : x ∈ (d.sendFrom ok (index + 1) fragments).1 →
          ∃ offset other, (fragment :: fragments)[offset]? = some other ∧
            x = d.message (index + offset) other := by
        intro hx
        obtain ⟨offset, other, hother, hmessage⟩ := ih hx
        refine ⟨offset + 1, other, by simpa using hother, ?_⟩
        rw [hmessage, Nat.add_assoc, Nat.add_comm 1 offset]
      simp only [sendFrom] at hx
      split at hx
      · exact later hx
      · split at hx
        · rcases List.mem_cons.mp hx with rfl | hx
          · exact ⟨0, fragment, rfl, rfl⟩
          · exact later hx
        · cases hx

variable {p : Parcel} {d : Dispatcher}

theorem mem_send (h : Dispatches fragmentContentCapacity checksum p d) {ok : ℕ → Bool}
    {x : Meta × Bytes} (hx : x ∈ (d.send ok).1) :
    Carries fragmentContentCapacity checksum p x.1 x.2 := by
  obtain ⟨index, fragment, hfragment, rfl⟩ := mem_sendFrom hx
  have hlength : index < d.fragments.length := (List.getElem?_eq_some_iff.mp hfragment).1
  rw [Nat.zero_add]
  refine ⟨h.sequence, ?_, h.content index fragment hfragment⟩
  rw [← h.length]
  simp only [message]
  omega

/-- The dispatchers differ in their stage, timer and flags only. -/
structure SameParcel (d d' : Dispatcher) : Prop where
  sequence : d'.sequence = d.sequence
  checksumMode : d'.checksumMode = d.checksumMode
  checksum : d'.checksum = d.checksum
  fragments : d'.fragments = d.fragments

theorem SameParcel.dispatches {d' : Dispatcher} (same : SameParcel d d')
    (h : Dispatches fragmentContentCapacity checksum p d) :
    Dispatches fragmentContentCapacity checksum p d' where
  sequence := same.sequence.trans h.sequence
  length := by rw [same.fragments, h.length]
  content index fragment hfragment := by
    rw [same.fragments] at hfragment ⊢
    rw [same.checksumMode, same.checksum]
    exact h.content index fragment hfragment

theorem SameParcel.acksKnown {d' : Dispatcher} (same : SameParcel d d') (h : AcksKnown acks d) :
    AcksKnown acks d' := by
  unfold AcksKnown
  rw [same.sequence, same.fragments]
  exact h

theorem sameParcel_dispatch (d : Dispatcher) (ok : ℕ → Bool) (timer : Bool) :
    SameParcel d (d.dispatch ok timer).1 := by
  simp only [dispatch]
  split
  · exact ⟨rfl, rfl, rfl, rfl⟩
  · split <;> exact ⟨rfl, rfl, rfl, rfl⟩

theorem sameParcel_resend (d : Dispatcher) (ok : ℕ → Bool) : SameParcel d (d.resend ok).1 := by
  simp only [resend]
  split <;> exact ⟨rfl, rfl, rfl, rfl⟩

theorem dispatch_messages (d : Dispatcher) (ok : ℕ → Bool) (timer : Bool) :
    (d.dispatch ok timer).2 = (d.send ok).1 := by
  simp only [dispatch]
  split
  · rfl
  · split <;> rfl

theorem recvAck_cases (d : Dispatcher) (m : Meta) :
    d.recvAck m = d ∨ ∃ fragment d', d.fragments[m.fragmentIndex]? = some fragment ∧
      d'.fragments = d.fragments.set m.fragmentIndex { fragment with acked := true } ∧
      d'.sequence = d.sequence ∧ d'.checksumMode = d.checksumMode ∧
      d'.checksum = d.checksum ∧ d.recvAck m = d' := by
  cases hfragment : d.fragments[m.fragmentIndex]? with
  | none => simp [recvAck, hfragment]
  | some fragment =>
      by_cases hacked : fragment.acked = true
      · simp [recvAck, hfragment, hacked]
      · refine Or.inr ⟨fragment, d.recvAck m, rfl, ?_⟩
        simp only [recvAck, hfragment, hacked, Bool.false_eq_true, if_false]
        split <;> simp [next]

theorem dispatches_recvAck (h : Dispatches fragmentContentCapacity checksum p d) (m : Meta) :
    Dispatches fragmentContentCapacity checksum p (d.recvAck m) := by
  obtain hsame | ⟨fragment, d', hfragment, hset, hsequence, hmode, hchecksum, hd'⟩ :=
    recvAck_cases d m
  · rw [hsame]
    exact h
  · rw [hd']
    refine ⟨hsequence.trans h.sequence, by simp [hset, h.length], ?_⟩
    intro index other hother
    rw [hmode, hchecksum, hset, List.length_set]
    rw [hset, List.getElem?_set] at hother
    split at hother
    · rename_i hindex
      split at hother
      · obtain rfl : _ = other := Option.some.inj hother
        exact h.content index fragment (hindex ▸ hfragment)
      · cases hother
    · exact h.content index other hother

theorem acksKnown_recvAck (h : AcksKnown acks d) {m : Meta} (hm : m ∈ acks)
    (hsequence : d.sequence = m.sequence) : AcksKnown acks (d.recvAck m) := by
  obtain hsame | ⟨fragment, d', hfragment, hset, hsequence', -, -, hd'⟩ := recvAck_cases d m
  · rw [hsame]
    exact h
  · rw [hd']
    intro index other hother hacked
    rw [hsequence']
    rw [hset, List.getElem?_set] at hother
    split at hother
    · rename_i hindex
      exact ⟨m, hm, hsequence.symm, hindex⟩
    · exact h index other hother hacked

theorem acksKnown_append (h : AcksKnown acks d) (more : List Meta) :
    AcksKnown (acks ++ more) d := fun index fragment hfragment hacked =>
  (h index fragment hfragment hacked).append more

end Dispatcher

section Invariant

variable (fragmentContentCapacity : ℕ) (checksum : Checksum)

/-- What a bus has in dispatch and on the network belongs to parcels that are known by their
sequence numbers. -/
structure SentFrom (bus : SendingBus) (data : List (Meta × Bytes)) : Prop where
  sequences : bus.dispatched.Pairwise (fun p q => p.sequence < q.sequence)
  parcels : ∀ p ∈ bus.dispatched, p.sequence ≤ bus.sequenceGenerator ∧ p.chunks ≠ []
  senders : ∀ sender ∈ bus.senders, sender.chunks ≠ []
  dispatchers : ∀ d ∈ bus.incompleteReliableDispatcher.toList ++ bus.pendingDispatchers,
    ∃ p ∈ bus.dispatched, Dispatches fragmentContentCapacity checksum p d
  carried : ∀ x ∈ data, ∃ p ∈ bus.dispatched,
    Carries fragmentContentCapacity checksum p x.1 x.2

/-- What holds of a sending bus, the data fragments and the acks on the
network, as long as no sender overtakes another one. -/
structure SendingInvariant (bus : SendingBus) (data : List (Meta × Bytes))
    (acks : List Meta) : Prop extends SentFrom fragmentContentCapacity checksum bus data where
  numbers : bus.dispatched.Pairwise (fun p q => p.number < q.number)
  submitted : ∀ p ∈ bus.dispatched, 0 < p.sequence ∧ bus.submitted[p.number]? = some p.chunks
  waiting : ∀ sender ∈ bus.senders, bus.submitted[sender.number]? = some sender.chunks ∧
    ∀ p ∈ bus.dispatched, p.number < sender.number
  distinct : bus.senders.Pairwise (fun sender other => sender.number < other.number)
  known : ∀ d ∈ bus.incompleteReliableDispatcher.toList ++ bus.pendingDispatchers,
    AcksKnown acks d
  acknowledged : ∀ sequence ∈ bus.acknowledged, ∃ p ∈ bus.dispatched, p.sequence = sequence ∧
    ∀ index < (p.contents fragmentContentCapacity checksum).length, Acked acks sequence index

end Invariant

variable {bus : SendingBus} {data : List (Meta × Bytes)}

namespace SentFrom

theorem start : SentFrom fragmentContentCapacity checksum SendingBus.start [] := by
  constructor <;> simp [SendingBus.start]

theorem unique (h : SentFrom fragmentContentCapacity checksum bus data) :
    ∀ p ∈ bus.dispatched, ∀ q ∈ bus.dispatched, p.sequence = q.sequence → p = q := by
  have hnodup : (bus.dispatched.map Parcel.sequence).Nodup :=
    List.pairwise_map.mpr (h.sequences.imp UInt64.ne_of_lt)
  intro p hp q hq heq
  exact List.inj_on_of_nodup_map hnodup hp hq heq

theorem spent (h : SentFrom fragmentContentCapacity checksum bus data)
    (hgenerator : bus.sequenceGenerator ≠ 0xffffffffffffffff) (processing : Bool) :
    SentFrom fragmentContentCapacity checksum
      { bus with
        sequenceGenerator := bus.sequenceGenerator + 1
        processing := processing } data :=
  ⟨h.sequences, fun p hp => ⟨UInt64.le_of_lt (UInt64.lt_of_le_of_lt (h.parcels p hp).1
    (Counter.lt_add_one hgenerator)), (h.parcels p hp).2⟩, h.senders, h.dispatchers, h.carried⟩

theorem createAndSubmitDispatcher (h : SentFrom fragmentContentCapacity checksum bus data)
    {sender : Sender} (hchunks : sender.chunks ≠ []) (acquired : Bool)
    (hgenerator : bus.sequenceGenerator ≠ 0xffffffffffffffff) :
    SentFrom fragmentContentCapacity checksum
      (bus.createAndSubmitDispatcher fragmentContentCapacity checksum sender acquired) data := by
  have hlt : bus.sequenceGenerator < bus.sequenceGenerator + 1 := Counter.lt_add_one hgenerator
  have hbelow : ∀ p ∈ bus.dispatched, p.sequence < bus.sequenceGenerator + 1 := fun p hp =>
    UInt64.lt_of_le_of_lt (h.parcels p hp).1 hlt
  cases acquired with
  | false => exact h.spent hgenerator bus.processing
  | true =>
      let added : Parcel := ⟨sender.number, bus.sequenceGenerator + 1, sender.chunks⟩
      have hdispatched : (bus.createAndSubmitDispatcher fragmentContentCapacity checksum sender
          true).dispatched = bus.dispatched ++ [added] := rfl
      refine ⟨?_, ?_, h.senders, ?_, ?_⟩
      · rw [hdispatched, List.pairwise_append]
        refine ⟨h.sequences, List.pairwise_singleton _ _, fun p hp q hq => ?_⟩
        rw [List.mem_singleton.mp hq]
        exact hbelow p hp
      · intro p hp
        rcases List.mem_append.mp hp with hp | hp
        · exact ⟨UInt64.le_of_lt (hbelow p hp), (h.parcels p hp).2⟩
        · rw [List.mem_singleton.mp hp]
          exact ⟨UInt64.le_refl _, hchunks⟩
      · intro d hd
        rw [show (bus.createAndSubmitDispatcher fragmentContentCapacity checksum sender
          true).pendingDispatchers = bus.pendingDispatchers ++ [Dispatcher.init
            fragmentContentCapacity checksum sender.number added.sequence sender.chunks]
          from rfl, ← List.append_assoc] at hd
        rcases List.mem_append.mp hd with hd | hd
        · obtain ⟨p, hp, hdispatches⟩ := h.dispatchers d hd
          exact ⟨p, List.mem_append_left _ hp, hdispatches⟩
        · rw [List.mem_singleton.mp hd]
          exact ⟨added, List.mem_append_right _ (List.mem_singleton_self _),
            Dispatcher.dispatches_init _ _ _⟩
      · intro x hx
        obtain ⟨p, hp, hcarries⟩ := h.carried x hx
        exact ⟨p, List.mem_append_left _ hp, hcarries⟩

theorem submit (h : SentFrom fragmentContentCapacity checksum bus data) (chunks : List Chunk)
    (worker acquired : Bool) (hgenerator : bus.sequenceGenerator ≠ 0xffffffffffffffff) :
    SentFrom fragmentContentCapacity checksum
      (bus.submit fragmentContentCapacity checksum chunks worker acquired) data := by
  unfold SendingBus.submit
  split
  · exact h
  · rename_i hchunks
    have hrecorded : SentFrom fragmentContentCapacity checksum
        { bus with submitted := bus.submitted ++ [chunks] } data := { h with }
    simp only
    split
    · exact hrecorded.createAndSubmitDispatcher hchunks acquired hgenerator
    · split
      · refine { hrecorded with senders := fun sender hsender => ?_ }
        rcases List.mem_append.mp hsender with hsender | hsender
        · exact h.senders sender hsender
        · rw [List.mem_singleton.mp hsender]
          exact hchunks
      · exact hrecorded

theorem updateChecksumComplete (h : SentFrom fragmentContentCapacity checksum bus data)
    (number : ℕ) (computed acquired : Bool)
    (hgenerator : bus.sequenceGenerator ≠ 0xffffffffffffffff) :
    SentFrom fragmentContentCapacity checksum
      (bus.updateChecksumComplete fragmentContentCapacity checksum number computed acquired)
      data := by
  unfold SendingBus.updateChecksumComplete
  split
  · exact h
  · rename_i sender hfind
    have herased : SentFrom fragmentContentCapacity checksum
        { bus with senders := bus.senders.erase sender } data :=
      { h with senders := fun other hother => h.senders other (List.mem_of_mem_erase hother) }
    simp only
    split
    · exact herased.createAndSubmitDispatcher
        (h.senders sender (List.mem_of_find?_eq_some hfind)) acquired hgenerator
    · exact herased

theorem processSendingDeferred (h : SentFrom fragmentContentCapacity checksum bus data) :
    SentFrom fragmentContentCapacity checksum bus.processSendingDeferred data := by
  unfold SendingBus.processSendingDeferred
  split
  · split
    · rename_i d dispatchers hidle hpending
      refine { h with dispatchers := ?_ }
      simpa [hidle, hpending] using h.dispatchers
    · exact { h with }
  · exact h

theorem replaceDispatcher (h : SentFrom fragmentContentCapacity checksum bus data)
    {d : Dispatcher} (hd : bus.incompleteReliableDispatcher = some d) (d' : Dispatcher)
    {more : List (Meta × Bytes)}
    (hdispatches : ∀ p, Dispatches fragmentContentCapacity checksum p d →
      Dispatches fragmentContentCapacity checksum p d')
    (hmore : ∀ p, Dispatches fragmentContentCapacity checksum p d →
      ∀ x ∈ more, Carries fragmentContentCapacity checksum p x.1 x.2) :
    SentFrom fragmentContentCapacity checksum
      { bus with incompleteReliableDispatcher := some d' } (data ++ more) := by
  have hdispatchers := h.dispatchers
  simp only [hd, Option.toList_some, List.singleton_append, List.mem_cons] at hdispatchers
  obtain ⟨p, hp, hpd⟩ := hdispatchers d (.inl rfl)
  refine { h with dispatchers := ?_, carried := ?_ }
  · simp only [Option.toList_some, List.singleton_append, List.mem_cons]
    rintro other (rfl | hother)
    · exact ⟨p, hp, hdispatches p hpd⟩
    · exact hdispatchers other (.inr hother)
  · intro x hx
    rcases List.mem_append.mp hx with hx | hx
    · exact h.carried x hx
    · exact ⟨p, hp, hmore p hpd x hx⟩

theorem dispatch (h : SentFrom fragmentContentCapacity checksum bus data) (ok : ℕ → Bool)
    (timer : Bool) :
    SentFrom fragmentContentCapacity checksum (bus.dispatch ok timer).1
      (data ++ (bus.dispatch ok timer).2) := by
  unfold SendingBus.dispatch
  split
  · simpa using h
  · rename_i d hd
    split
    · refine h.replaceDispatcher hd _ (fun p =>
        (Dispatcher.sameParcel_dispatch d ok timer).dispatches) fun p hpd x hx => ?_
      rw [Dispatcher.dispatch_messages] at hx
      exact Dispatcher.mem_send hpd hx
    · simpa using h

theorem resend (h : SentFrom fragmentContentCapacity checksum bus data) (ok : ℕ → Bool) :
    SentFrom fragmentContentCapacity checksum (bus.resend ok).1
      (data ++ (bus.resend ok).2) := by
  unfold SendingBus.resend
  split
  · simpa using h
  · rename_i d hd
    split
    · exact h.replaceDispatcher hd _ (fun p => (Dispatcher.sameParcel_resend d ok).dispatches)
        fun p hpd x hx => Dispatcher.mem_send hpd hx
    · simpa using h

theorem recvFragmentAck (h : SentFrom fragmentContentCapacity checksum bus data) (m : Meta) :
    SentFrom fragmentContentCapacity checksum (bus.recvFragmentAck m) data := by
  unfold SendingBus.recvFragmentAck
  split
  · exact h
  · rename_i d hd
    split
    · rw [← List.append_nil data]
      refine h.replaceDispatcher hd _ (fun p hpd => Dispatcher.dispatches_recvAck hpd m)
        fun p hpd x hx => ?_
      cases hx
    · exact h

theorem completeDispatcher (h : SentFrom fragmentContentCapacity checksum bus data) :
    SentFrom fragmentContentCapacity checksum bus.completeDispatcher data := by
  unfold SendingBus.completeDispatcher
  split
  · exact h
  · split
    · refine { h with dispatchers := fun d hd => h.dispatchers d ?_ }
      exact List.mem_append_right _ (by simpa using hd)
    · exact h

end SentFrom

namespace SendingInvariant

theorem start : SendingInvariant fragmentContentCapacity checksum SendingBus.start [] [] := by
  constructor
  · exact SentFrom.start
  all_goals simp [SendingBus.start]

/-- A dispatcher of a sender that is in turn: no other waiting sender was
submitted before it. -/
theorem createAndSubmitDispatcher
    (h : SendingInvariant fragmentContentCapacity checksum bus data acks) {sender : Sender}
    (hnumber : bus.submitted[sender.number]? = some sender.chunks) (hchunks : sender.chunks ≠ [])
    (hlater : ∀ p ∈ bus.dispatched, p.number < sender.number) (acquired : Bool)
    (hturn : acquired = true → ∀ other ∈ bus.senders, sender.number < other.number)
    (hgenerator : bus.sequenceGenerator ≠ 0xffffffffffffffff) :
    SendingInvariant fragmentContentCapacity checksum
      (bus.createAndSubmitDispatcher fragmentContentCapacity checksum sender acquired)
      data acks := by
  have hsent := h.toSentFrom.createAndSubmitDispatcher hchunks acquired hgenerator
  cases acquired with
  | false =>
      exact { hsent with
        numbers := h.numbers
        submitted := h.submitted
        waiting := h.waiting
        distinct := h.distinct
        known := h.known
        acknowledged := h.acknowledged }
  | true =>
      have hpos : 0 < bus.sequenceGenerator + 1 :=
        UInt64.lt_of_le_of_lt UInt64.zero_le (Counter.lt_add_one hgenerator)
      refine { hsent with
        numbers := List.pairwise_append.mpr ⟨h.numbers, List.pairwise_singleton _ _,
          fun p hp q hq => ?_⟩
        submitted := fun p hp => ?_
        waiting := fun other hother => ⟨(h.waiting other hother).1, fun p hp => ?_⟩
        distinct := h.distinct
        known := fun d hd => ?_
        acknowledged := fun sequence hsequence => ?_ }
      · rw [List.mem_singleton.mp hq]
        exact hlater p hp
      · rcases List.mem_append.mp hp with hp | hp
        · exact h.submitted p hp
        · rw [List.mem_singleton.mp hp]
          exact ⟨hpos, hnumber⟩
      · rcases List.mem_append.mp hp with hp | hp
        · exact (h.waiting other hother).2 p hp
        · rw [List.mem_singleton.mp hp]
          exact hturn rfl other hother
      · rw [show (bus.createAndSubmitDispatcher fragmentContentCapacity checksum sender
          true).pendingDispatchers = bus.pendingDispatchers ++ [Dispatcher.init
            fragmentContentCapacity checksum sender.number (bus.sequenceGenerator + 1)
              sender.chunks] from rfl, ← List.append_assoc] at hd
        rcases List.mem_append.mp hd with hd | hd
        · exact h.known d hd
        · rw [List.mem_singleton.mp hd]
          exact Dispatcher.acksKnown_init _ _ _
      · obtain ⟨p, hp, hrest⟩ := h.acknowledged sequence hsequence
        exact ⟨p, List.mem_append_left _ hp, hrest⟩

theorem recorded (h : SendingInvariant fragmentContentCapacity checksum bus data acks)
    (chunks : List Chunk) :
    SendingInvariant fragmentContentCapacity checksum
      { bus with submitted := bus.submitted ++ [chunks] } data acks := by
  have hkept : ∀ {number : ℕ} {parcel : List Chunk}, bus.submitted[number]? = some parcel →
      (bus.submitted ++ [chunks])[number]? = some parcel := by
    intro number parcel hparcel
    rw [List.getElem?_append_left (List.getElem?_eq_some_iff.mp hparcel).1, hparcel]
  exact { h with
    submitted := fun p hp => (h.submitted p hp).imp_right hkept
    waiting := fun sender hsender => (h.waiting sender hsender).imp_left hkept }

theorem submit (h : SendingInvariant fragmentContentCapacity checksum bus data acks)
    {chunks : List Chunk} (worker acquired : Bool)
    (hsafe : chunks ≠ [] → chunks.length < 2 →
      (acquired = true → bus.senders = []) ∧ bus.sequenceGenerator ≠ 0xffffffffffffffff) :
    SendingInvariant fragmentContentCapacity checksum
      (bus.submit fragmentContentCapacity checksum chunks worker acquired) data acks := by
  unfold SendingBus.submit
  split
  · exact h
  · rename_i hchunks
    simp only
    have hlater : ∀ p ∈ bus.dispatched, p.number < bus.submitted.length :=
      fun p hp => (List.getElem?_eq_some_iff.mp (h.submitted p hp).2).1
    have hrecorded := h.recorded chunks
    have hlast : (bus.submitted ++ [chunks])[bus.submitted.length]? = some chunks := by simp
    split
    · rename_i hlength
      obtain ⟨hidle, hgenerator⟩ := hsafe hchunks hlength
      refine createAndSubmitDispatcher hrecorded hlast hchunks hlater acquired ?_ hgenerator
      intro hacquired other hother
      rw [show ({ bus with submitted := bus.submitted ++ [chunks] } : SendingBus).senders =
        bus.senders from rfl, hidle hacquired] at hother
      cases hother
    · split
      · refine { hrecorded with senders := ?_, waiting := ?_, distinct := ?_ }
        · intro sender hsender
          rcases List.mem_append.mp hsender with hsender | hsender
          · exact h.senders sender hsender
          · rw [List.mem_singleton.mp hsender]
            exact hchunks
        · intro sender hsender
          rcases List.mem_append.mp hsender with hsender | hsender
          · exact hrecorded.waiting sender hsender
          · rw [List.mem_singleton.mp hsender]
            exact ⟨hlast, hlater⟩
        · rw [List.pairwise_append]
          refine ⟨h.distinct, List.pairwise_singleton _ _, fun sender hsender other hother => ?_⟩
          rw [List.mem_singleton.mp hother]
          exact (List.getElem?_eq_some_iff.mp (h.waiting sender hsender).1).1
      · exact hrecorded

theorem updateChecksumComplete
    (h : SendingInvariant fragmentContentCapacity checksum bus data acks) (number : ℕ)
    (computed acquired : Bool)
    (hsafe : computed = true → (∃ sender ∈ bus.senders, sender.number = number) →
      (acquired = true → ∀ sender ∈ bus.senders, number ≤ sender.number) ∧
        bus.sequenceGenerator ≠ 0xffffffffffffffff) :
    SendingInvariant fragmentContentCapacity checksum
      (bus.updateChecksumComplete fragmentContentCapacity checksum number computed acquired)
      data acks := by
  unfold SendingBus.updateChecksumComplete
  split
  · exact h
  · rename_i sender hfind
    have hnumber : sender.number = number := by simpa using List.find?_some hfind
    have hmem := List.mem_of_find?_eq_some hfind
    obtain ⟨hsubmitted, hlater⟩ := h.waiting sender hmem
    have herased : SendingInvariant fragmentContentCapacity checksum
        { bus with senders := bus.senders.erase sender } data acks :=
      { h with
        senders := fun other hother => h.senders other (List.mem_of_mem_erase hother)
        waiting := fun other hother => h.waiting other (List.mem_of_mem_erase hother)
        distinct := h.distinct.sublist List.erase_sublist }
    simp only
    split
    · rename_i hcomputed
      obtain ⟨hfirst, hgenerator⟩ := hsafe hcomputed ⟨sender, hmem, hnumber⟩
      refine createAndSubmitDispatcher herased hsubmitted (h.senders sender hmem) hlater acquired
        ?_ hgenerator
      intro hacquired other hother
      have hle := hfirst hacquired other (List.mem_of_mem_erase hother)
      have hnodup : (bus.senders.map Sender.number).Nodup :=
        List.pairwise_map.mpr (h.distinct.imp Nat.ne_of_lt)
      have hne : other.number ≠ sender.number := by
        intro heq
        have hsame : other = sender :=
          List.inj_on_of_nodup_map hnodup (List.mem_of_mem_erase hother) hmem heq
        rw [hsame] at hother
        exact (List.Nodup.of_map _ hnodup).not_mem_erase hother
      omega
    · exact herased

theorem processSendingDeferred
    (h : SendingInvariant fragmentContentCapacity checksum bus data acks) :
    SendingInvariant fragmentContentCapacity checksum bus.processSendingDeferred data acks := by
  unfold SendingBus.processSendingDeferred
  split
  · split
    · rename_i d dispatchers hidle hpending
      refine { h with dispatchers := ?_, known := ?_ }
      · simpa [hidle, hpending] using h.dispatchers
      · simpa [hidle, hpending] using h.known
    · exact { h with }
  · exact h

theorem replaceDispatcher (h : SendingInvariant fragmentContentCapacity checksum bus data acks)
    {d d' : Dispatcher} (hd : bus.incompleteReliableDispatcher = some d)
    {data' : List (Meta × Bytes)}
    (hsent : SentFrom fragmentContentCapacity checksum
      { bus with incompleteReliableDispatcher := some d' } data')
    (hknown : AcksKnown acks d → AcksKnown acks d') :
    SendingInvariant fragmentContentCapacity checksum
      { bus with incompleteReliableDispatcher := some d' } data' acks := by
  refine { hsent with
    numbers := h.numbers
    submitted := h.submitted
    waiting := h.waiting
    distinct := h.distinct
    known := ?_
    acknowledged := h.acknowledged }
  have hdispatchers := h.known
  simp only [hd, Option.toList_some, List.singleton_append, List.mem_cons] at hdispatchers ⊢
  rintro other (rfl | hother)
  · exact hknown (hdispatchers d (.inl rfl))
  · exact hdispatchers other (.inr hother)

theorem dispatch (h : SendingInvariant fragmentContentCapacity checksum bus data acks)
    (ok : ℕ → Bool) (timer : Bool) :
    SendingInvariant fragmentContentCapacity checksum (bus.dispatch ok timer).1
      (data ++ (bus.dispatch ok timer).2) acks := by
  have hsent := h.toSentFrom.dispatch ok timer
  unfold SendingBus.dispatch at hsent ⊢
  split
  · simpa using h
  · rename_i d hd
    simp only [hd] at hsent
    split
    · rename_i hstage
      rw [if_pos hstage] at hsent
      exact h.replaceDispatcher hd hsent (Dispatcher.sameParcel_dispatch d ok timer).acksKnown
    · simpa using h

theorem resend (h : SendingInvariant fragmentContentCapacity checksum bus data acks)
    (ok : ℕ → Bool) :
    SendingInvariant fragmentContentCapacity checksum (bus.resend ok).1
      (data ++ (bus.resend ok).2) acks := by
  have hsent := h.toSentFrom.resend ok
  unfold SendingBus.resend at hsent ⊢
  split
  · simpa using h
  · rename_i d hd
    simp only [hd] at hsent
    split
    · rename_i hstage
      rw [if_pos hstage] at hsent
      exact h.replaceDispatcher hd hsent (Dispatcher.sameParcel_resend d ok).acksKnown
    · simpa using h

theorem recvFragmentAck (h : SendingInvariant fragmentContentCapacity checksum bus data acks)
    {m : Meta} (hm : m ∈ acks) :
    SendingInvariant fragmentContentCapacity checksum (bus.recvFragmentAck m) data acks := by
  have hsent := h.toSentFrom.recvFragmentAck m
  unfold SendingBus.recvFragmentAck at hsent ⊢
  split
  · exact h
  · rename_i d hd
    simp only [hd] at hsent
    split
    · rename_i hsequence
      rw [if_pos hsequence] at hsent
      exact h.replaceDispatcher hd hsent fun hacks =>
        Dispatcher.acksKnown_recvAck hacks hm hsequence
    · exact h

theorem completeDispatcher
    (h : SendingInvariant fragmentContentCapacity checksum bus data acks) :
    SendingInvariant fragmentContentCapacity checksum bus.completeDispatcher data acks := by
  have hsent := h.toSentFrom.completeDispatcher
  unfold SendingBus.completeDispatcher at hsent ⊢
  split
  · exact h
  · rename_i d hd
    simp only [hd] at hsent
    split
    · rename_i hstage
      rw [if_pos hstage] at hsent
      refine { hsent with
        numbers := h.numbers
        submitted := h.submitted
        waiting := h.waiting
        distinct := h.distinct
        known := fun other hother =>
          h.known other (List.mem_append_right _ (by simpa using hother))
        acknowledged := fun sequence hsequence => ?_ }
      rcases List.mem_append.mp hsequence with hsequence | hsequence
      · exact h.acknowledged sequence hsequence
      · split at hsequence
        · rename_i hall
          obtain ⟨p, hp, hpd⟩ := h.dispatchers d (by simp [hd])
          rw [List.mem_singleton.mp hsequence]
          refine ⟨p, hp, hpd.sequence.symm, fun index hindex => ?_⟩
          rw [← hpd.length] at hindex
          exact h.known d (by simp [hd]) index _ (List.getElem?_eq_getElem hindex)
            (List.all_eq_true.mp hall _ (List.getElem_mem hindex))
        · cases hsequence
    · exact h

theorem replied (h : SendingInvariant fragmentContentCapacity checksum bus data acks)
    (more : List Meta) :
    SendingInvariant fragmentContentCapacity checksum bus data (acks ++ more) :=
  { h with
    known := fun d hd => Dispatcher.acksKnown_append (h.known d hd) more
    acknowledged := fun sequence hsequence => by
      obtain ⟨p, hp, heq, hacked⟩ := h.acknowledged sequence hsequence
      exact ⟨p, hp, heq, fun index hindex => (hacked index hindex).append more⟩ }

end SendingInvariant

end Delivery

end PomeloUdp
