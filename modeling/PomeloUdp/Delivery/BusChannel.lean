import PomeloUdp.Delivery.Abandonment
import PomeloUdp.Delivery.Draining
import PomeloUdp.Delivery.EndpointSafety

/-!
# A channel between two buses in every mode

`Channel` has reliable parcels only. A bus sends unreliable and sequenced parcels as well, which
take their sequence numbers from the same generator and arrive in the same map of receivers. In a
`BusChannel` the receiving bus is an `EndpointBus`, with the receivers of every mode, their map and
the assertions that end the run.

Its reliable part is a `Channel` (`channel`): every step of a `BusChannel` is a few steps of it, or
none (`Sound.step`). `gets_iff` says what keeps the parcel in dispatch from being acknowledged and
delivered: the receiver of an abandoned parcel, a receiver that had no resources, and a growth of
the map that displaces a receiver.
-/

namespace PomeloUdp

namespace Delivery

open Machine

/-- A fragment that arrives, with the answers of the platform and the pools. -/
structure Arrival where
  env : BusEnv
  info : FragmentMeta
  content : Bytes
  /-- It comes from the decoder. -/
  encodable : info.encodable = true

/-- What the reliable part of a bus sees of it. -/
def Arrival.message (a : Arrival) : Meta × Bytes := (a.info.toMeta, a.content)

namespace EndpointBus

/-- A reception, with the ack that is sent; the bus stops where an assertion fails. -/
def receive (b : EndpointBus) (a : Arrival) (replied : Bool) : EndpointBus × List Meta :=
  if b.running then
    let received := b.recvFragmentData a.env a.info a.content
    (received,
      if received.running && replied && b.receiving.repliesAck a.env a.info then [a.info.toMeta]
      else [])
  else (b, [])

/-- One reception after another. -/
def recvAll (b : EndpointBus) : List Arrival → EndpointBus × List Meta
  | [] => (b, [])
  | a :: as =>
      let received := b.receive a true
      let rest := recvAll received.1 as
      (rest.1, received.2 ++ rest.2)

/-- A step of a bus that no assertion has stopped. -/
def advance (checksum : Checksum) (b : EndpointBus) (i : BusInput) : EndpointBus :=
  if b.running then b.step checksum i else b

/-- What is left of the pipeline of the reliable receiver, with a worker and a parcel at hand. -/
def drain (checksum : Checksum) (b : EndpointBus) : EndpointBus :=
  match b.receiving.incompleteReliableReceiver with
  | none => b
  | some id => run (advance checksum) b [⟨.plain id, .stage id⟩,
      ⟨.plain id, .verifyChecksumComplete id false true⟩, ⟨.plain id, .stage id⟩]

variable {b : EndpointBus}

theorem running_iff : b.running = true ↔ b.fault = none ∧ b.receiving.fault = none := by
  simp [running]

/-- The assertion of the map comes first. -/
theorem keepsReceivers_of_running {env : BusEnv} {m : FragmentMeta} {content : Bytes}
    (h : (b.recvFragmentData env m content).running = true) : b.KeepsReceivers env m := by
  by_contra hmoves
  have hfault := (running_iff.mp h).1
  have hmap : (b.recvFragmentData env m content).fault = some .map := by
    unfold KeepsReceivers at hmoves
    simp [recvFragmentData, hmoves]
  exact absurd (hmap.symm.trans hfault) nofun

section Arrivals

variable {P : UInt64 → Prop} {a : Arrival}

theorem drain_eq (checksum : Checksum) (h : b.receiving.Coherent P)
    (hrunning : b.running = true) :
    (b.drain checksum).running = true ∧ (b.drain checksum).receiving.Coherent P ∧
      (b.drain checksum).receiving.reliablePart = b.receiving.reliablePart.drain checksum := by
  obtain ⟨hown, hfault⟩ := running_iff.mp hrunning
  unfold drain
  cases hid : b.receiving.incompleteReliableReceiver with
  | none =>
      have hnone := h.reliable.incomplete_reliablePart.mpr hid
      exact ⟨hrunning, h, (ReceivingBus.drain_idle hnone).symm⟩
  | some id =>
      have hdraining : Bus.Draining P id b.receiving := by
        refine ⟨h, hfault, fun j hj => (Option.some.inj (hid.symm.trans hj)).symm, fun hgone => ?_⟩
        obtain ⟨r, hr, -⟩ := (h.reliable.incomplete id).mp hid
        rw [hgone] at hr
        cases hr
      have hstep : ∀ (c : EndpointBus) {i : BusInput}, c.fault = none →
          c.receiving.fault = none → c.advance checksum i = c.step checksum i :=
        fun c _ hown hfault => if_pos (running_iff.mpr ⟨hown, hfault⟩)
      obtain ⟨h₁, -⟩ := hdraining.stage checksum
      obtain ⟨h₂, -⟩ := h₁.verifyChecksumComplete checksum
      obtain ⟨h₃, hpart⟩ := hdraining.run checksum
      simp only [run_cons, run_nil] at h₃ hpart ⊢
      rw [hstep b hown hfault]
      rw [hstep (b.step checksum ⟨.plain id, .stage id⟩) hown h₁.fault]
      rw [hstep ((b.step checksum ⟨.plain id, .stage id⟩).step checksum
        ⟨.plain id, .verifyChecksumComplete id false true⟩) hown h₂.fault]
      exact ⟨running_iff.mpr ⟨hown, h₃.fault⟩, h₃.coherent, hpart⟩

theorem receive_eq (h : b.receiving.Coherent P) (hrunning : b.running = true)
    (htype : a.info.type = .reliable) (hindex : a.info.fragmentIndex ≤ a.info.lastIndex)
    (hkeeps : b.KeepsReceivers a.env a.info)
    (hopens : b.receiving.reliablePart.Needs a.info.sequence →
      b.receiving.opensReceiver a.env a.info = true) :
    (b.receive a true).1.running = true ∧ (b.receive a true).1.receiving.Coherent P ∧
      b.receiving.reliablePart.recvFragmentData a.message.1 a.message.2 true true =
        ((b.receive a true).1.receiving.reliablePart, (b.receive a true).2) := by
  obtain ⟨hown, hfault⟩ := running_iff.mp hrunning
  have hcoherent := h.recvFragmentData a.env a.info a.content fun hne => absurd htype hne
  have hstill : (b.recvFragmentData a.env a.info a.content).running = true := by
    refine running_iff.mpr ⟨(fault_recvFragmentData h.stored hown a.env a.content a.encodable).mpr
      ⟨hkeeps, fun _ _ => hindex⟩, ?_⟩
    have hpipeline := Bus.fault_recvFragmentData_ne h.stored a.env a.info a.content
      (by rw [hfault]; nofun)
    exact hcoherent.reliable.fault_eq_none hpipeline
  have hpart := Bus.reliablePart_recvFragmentData h.stored h.reliable a.env a.info a.content true
    htype
  rw [ReceivingBus.recvFragmentData_acquired hopens] at hpart
  have hreceived : b.receive a true = (b.recvFragmentData a.env a.info a.content,
      if b.receiving.repliesAck a.env a.info then [a.info.toMeta] else []) := by
    simp [receive, hrunning, hstill]
  rw [hreceived]
  exact ⟨hstill, hcoherent, hpart⟩

theorem recvAll_eq (h : b.receiving.Coherent P) (hrunning : b.running = true) {as : List Arrival}
    {sequence : UInt64} (has : ∀ a ∈ as, a.info.type = .reliable ∧
      a.info.fragmentIndex ≤ a.info.lastIndex ∧ a.info.sequence = sequence)
    (hkeeps : ∀ a ∈ as.head?, b.KeepsReceivers a.env a.info)
    (hopens : ∀ a ∈ as.head?, b.receiving.reliablePart.Needs a.info.sequence →
      b.receiving.opensReceiver a.env a.info = true) :
    (b.recvAll as).1.running = true ∧ (b.recvAll as).1.receiving.Coherent P ∧
      b.receiving.reliablePart.recvAll (as.map Arrival.message) =
        ((b.recvAll as).1.receiving.reliablePart, (b.recvAll as).2) := by
  induction as generalizing b with
  | nil => exact ⟨hrunning, h, rfl⟩
  | cons a as ih =>
      obtain ⟨htype, hindex, hsequence⟩ := has a List.mem_cons_self
      obtain ⟨hstill, hcoherent, hpart⟩ := receive_eq h hrunning htype hindex (hkeeps a rfl)
        (hopens a rfl)
      have hshut : ¬(b.receive a true).1.receiving.reliablePart.Needs sequence := by
        have hneeds := @ReceivingBus.not_needs_recvFragmentData b.receiving.reliablePart
          a.message.1 a.message.2 true
        rw [hpart] at hneeds
        exact hsequence ▸ hneeds
      obtain ⟨hrest, hcoherent', hparts⟩ := ih hcoherent hstill
        (fun a' ha' => has a' (List.mem_cons_of_mem _ ha'))
        (fun a' ha' => by
          obtain ⟨htype', -, hsequence'⟩ := has a' (List.mem_cons_of_mem _
            (List.mem_of_mem_head? ha'))
          exact ReceiverMap.movesNothing_of_shut _ (Bus.countP_adds_of_not_needs hcoherent.stored
            hcoherent.reliable a'.env htype' (hsequence' ▸ hshut)))
        fun a' ha' hneeds => by
          obtain ⟨-, -, hsequence'⟩ := has a' (List.mem_cons_of_mem _ (List.mem_of_mem_head? ha'))
          exact absurd (hsequence' ▸ hneeds) hshut
      refine ⟨hrest, hcoherent', ?_⟩
      simp only [List.map_cons, ReceivingBus.recvAll, hpart, hparts, recvAll]

theorem recvAll_stopped (hstopped : b.running = false) (as : List Arrival) :
    b.recvAll as = (b, []) := by
  induction as with
  | nil => rfl
  | cons a as ih => simp [recvAll, receive, hstopped, ih]

theorem drain_stopped (checksum : Checksum) (hstopped : b.running = false) :
    b.drain checksum = b := by
  unfold drain
  split
  · rfl
  · simp [advance, hstopped]

theorem recvAll_displaced {as : List Arrival}
    (hmoves : ¬∀ a ∈ as.head?, b.KeepsReceivers a.env a.info) : (b.recvAll as).2 = [] := by
  cases as with
  | nil => exact absurd (fun _ ha => nomatch ha) hmoves
  | cons a as =>
      have hmoves : ¬b.KeepsReceivers a.env a.info := fun hkeeps => hmoves fun a' ha' => by
        obtain rfl := Option.some.inj ha'
        exact hkeeps
      cases hrunning : b.running with
      | false => rw [recvAll_stopped hrunning]
      | true =>
          have hstopped : (b.recvFragmentData a.env a.info a.content).running = false :=
            Bool.eq_false_iff.mpr fun hstill => hmoves (keepsReceivers_of_running hstill)
          have hreceived : b.receive a true =
              (b.recvFragmentData a.env a.info a.content, []) := by
            simp [receive, hrunning, hstopped]
          simp [recvAll, hreceived, recvAll_stopped hstopped]

end Arrivals

end EndpointBus

/-- A sending bus, a receiving bus and all that was sent between them; `others` are the fragments
that are not reliable. -/
structure BusChannel where
  sending : SendingBus
  bus : EndpointBus
  data : List (Meta × Bytes)
  acks : List Meta
  others : List (FragmentMeta × Bytes)

/-- What can happen next: an event of the reliable sending side, a parcel in another mode with its
fragments, the arrival of a fragment, a stage of a receiver and the completion of its worker. -/
inductive BusChannelEvent where
  | sending (e : Event)
  | dispatchOther (type : FragmentType) (busId : UInt64) (contents : List Bytes)
  | recvFragment (a : Arrival) (replied : Bool)
  | stage (env : BusEnv) (id : ℕ)
  | verifyChecksumComplete (env : BusEnv) (id : ℕ) (canceled computed : Bool)

/-- The event is one of the sending bus. -/
def Event.sends : Event → Bool
  | .recvData .. | .receiverTask .. | .verifyChecksumComplete .. => false
  | _ => true

namespace BusChannel

/-- Two started buses and an empty network. -/
def start (overLoad : ℕ → ℕ → Bool) : BusChannel := ⟨.start, .start overLoad, [], [], []⟩

/-- What the channel has to do with reliable parcels. -/
def channel (s : BusChannel) : Channel := ⟨s.sending, s.bus.receiving.reliablePart, s.data, s.acks⟩

/-- The fragments of a parcel with that sequence number. -/
def fragmentsOf (type : FragmentType) (busId sequence : UInt64) (contents : List Bytes) :
    List (FragmentMeta × Bytes) :=
  contents.mapIdx fun index content =>
    (⟨type, busId, .ofNat index, .ofNat (contents.length - 1), sequence⟩, content)

section Step

variable (fragmentContentCapacity : ℕ) (checksum : Checksum)

/-- The channel after an event. -/
def step (s : BusChannel) : BusChannelEvent → BusChannel
  | .sending e =>
      if e.sends then
        let next := s.channel.step fragmentContentCapacity checksum e
        { s with sending := next.sending, data := next.data }
      else s
  | .dispatchOther type busId contents =>
      if type = .unreliable ∨ type = .sequenced then
        let sequence := s.sending.sequenceGenerator + 1
        { s with
          sending := { s.sending with sequenceGenerator := sequence, processing := true }
          others := s.others ++ fragmentsOf type busId sequence contents }
      else s
  | .recvFragment a replied =>
      if a.info.type = .reliable ∧ a.message ∈ s.data ∨ (a.info, a.content) ∈ s.others then
        let received := s.bus.receive a replied
        { s with bus := received.1, acks := s.acks ++ received.2 }
      else s
  | .stage env id => { s with bus := s.bus.advance checksum ⟨env, .stage id⟩ }
  | .verifyChecksumComplete env id canceled computed =>
      { s with
        bus := s.bus.advance checksum ⟨env, .verifyChecksumComplete id canceled computed⟩ }

end Step

/-- What the receiver has left to do is done, and then the fragments arrive: all of the parcel of
the dispatcher are acknowledged, and the parcel is delivered. -/
def Gets (checksum : Checksum) (s : BusChannel) (d : Dispatcher) (arrivals : List Arrival) :
    Prop :=
  let received := (s.bus.drain checksum).recvAll arrivals
  (∀ x ∈ d.messages, x.1 ∈ received.2) ∧
    ∃ p ∈ s.sending.dispatched, p.sequence = d.sequence ∧
      (FragmentType.reliable, p.delivery) ∈ (received.1.drain checksum).receiving.delivered

/-- The sequence numbers do not wrap around, and the platform cancels no worker of a reliable
receiver of its own accord. -/
def Regular (s : BusChannel) : BusChannelEvent → Prop
  | .sending e => s.channel.Unwrapped e
  | .dispatchOther .. => s.sending.sequenceGenerator ≠ 0xffffffffffffffff
  | .verifyChecksumComplete env id canceled computed =>
      ¬s.bus.receiving.CancelsReliable ⟨env, .verifyChecksumComplete id canceled computed⟩
  | _ => True

instance (s : BusChannel) : ∀ e, Decidable (s.Regular e)
  | .sending e => inferInstanceAs (Decidable (s.channel.Unwrapped e))
  | .dispatchOther .. =>
      inferInstanceAs (Decidable (s.sending.sequenceGenerator ≠ 0xffffffffffffffff))
  | .verifyChecksumComplete env id canceled computed => inferInstanceAs (Decidable
      ¬s.bus.receiving.CancelsReliable ⟨env, .verifyChecksumComplete id canceled computed⟩)
  | .recvFragment .. | .stage .. => inferInstanceAs (Decidable True)

section Growth

/-- A bus has given away no sequence number twice. -/
structure Grows (bus bus' : SendingBus) : Prop where
  generator : bus.sequenceGenerator ≤ bus'.sequenceGenerator
  dispatched : ∀ p ∈ bus'.dispatched, p ∈ bus.dispatched ∨ bus.sequenceGenerator < p.sequence

/-- The sequence number has been given to a parcel that is not reliable. -/
def Apart (bus : SendingBus) (sequence : UInt64) : Prop :=
  sequence ≤ bus.sequenceGenerator ∧ ∀ p ∈ bus.dispatched, p.sequence ≠ sequence

variable {fragmentContentCapacity : ℕ} {checksum : Checksum} {bus bus' : SendingBus}

theorem Grows.apart (h : Grows bus bus') {sequence : UInt64} (hapart : Apart bus sequence) :
    Apart bus' sequence := by
  refine ⟨UInt64.le_trans hapart.1 h.generator, fun p hp => ?_⟩
  rcases h.dispatched p hp with hold | hnew
  · exact hapart.2 p hold
  · exact (UInt64.ne_of_lt (UInt64.lt_of_le_of_lt hapart.1 hnew)).symm

theorem Grows.trans {bus'' : SendingBus} (h : Grows bus bus') (h' : Grows bus' bus'') :
    Grows bus bus'' := by
  refine ⟨UInt64.le_trans h.generator h'.generator, fun p hp => ?_⟩
  rcases h'.dispatched p hp with hp | hnew
  · exact h.dispatched p hp
  · exact .inr (UInt64.lt_of_le_of_lt h.generator hnew)

theorem grows_same (hgenerator : bus'.sequenceGenerator = bus.sequenceGenerator)
    (hdispatched : bus'.dispatched = bus.dispatched) : Grows bus bus' :=
  ⟨hgenerator ▸ UInt64.le_refl _, fun _ hp => .inl (hdispatched ▸ hp)⟩

theorem grows_spent (hgenerator : bus.sequenceGenerator ≠ 0xffffffffffffffff) (processing : Bool) :
    Grows bus { bus with
      sequenceGenerator := bus.sequenceGenerator + 1
      processing := processing } :=
  ⟨UInt64.le_of_lt (Counter.lt_add_one hgenerator), fun _ hp => .inl hp⟩

theorem grows_createAndSubmitDispatcher
    (hgenerator : bus.sequenceGenerator ≠ 0xffffffffffffffff) (sender : Sender) (acquired : Bool) :
    Grows bus (bus.createAndSubmitDispatcher fragmentContentCapacity checksum sender acquired) := by
  cases acquired with
  | false => exact grows_spent hgenerator bus.processing
  | true =>
      refine ⟨UInt64.le_of_lt (Counter.lt_add_one hgenerator), fun p hp => ?_⟩
      rcases List.mem_append.mp hp with hp | hp
      · exact .inl hp
      · rw [List.mem_singleton.mp hp]
        exact .inr (Counter.lt_add_one hgenerator)

theorem grows_submit (hgenerator : bus.sequenceGenerator ≠ 0xffffffffffffffff)
    (chunks : List Chunk) (worker acquired : Bool) :
    Grows bus (bus.submit fragmentContentCapacity checksum chunks worker acquired) := by
  unfold SendingBus.submit
  dsimp only
  split
  · exact grows_same rfl rfl
  · split
    · have hrecorded : Grows bus { bus with submitted := bus.submitted ++ [chunks] } :=
        grows_same rfl rfl
      refine hrecorded.trans (grows_createAndSubmitDispatcher ?_ _ acquired)
      exact hgenerator
    · split <;> exact grows_same rfl rfl

theorem grows_updateChecksumComplete (hgenerator : bus.sequenceGenerator ≠ 0xffffffffffffffff)
    (number : ℕ) (computed acquired : Bool) :
    Grows bus (bus.updateChecksumComplete fragmentContentCapacity checksum number computed
      acquired) := by
  unfold SendingBus.updateChecksumComplete
  dsimp only
  split
  · exact grows_same rfl rfl
  · rename_i sender _
    split
    · have herased : Grows bus { bus with senders := bus.senders.erase sender } :=
        grows_same rfl rfl
      refine herased.trans (grows_createAndSubmitDispatcher ?_ sender acquired)
      exact hgenerator
    · exact grows_same rfl rfl

theorem grows_step {s : Channel} {e : Event} (he : s.Unwrapped e) :
    Grows s.sending (s.step fragmentContentCapacity checksum e).sending := by
  cases e with
  | submit chunks worker acquired => exact grows_submit he chunks worker acquired
  | updateChecksumComplete number computed acquired =>
      exact grows_updateChecksumComplete he number computed acquired
  | processSending =>
      change Grows s.sending s.sending.processSendingDeferred
      unfold SendingBus.processSendingDeferred
      repeat' split
      all_goals exact grows_same rfl rfl
  | dispatch ok timer =>
      change Grows s.sending (s.sending.dispatch ok timer).1
      unfold SendingBus.dispatch
      repeat' split
      all_goals exact grows_same rfl rfl
  | resend ok =>
      change Grows s.sending (s.sending.resend ok).1
      unfold SendingBus.resend
      repeat' split
      all_goals exact grows_same rfl rfl
  | recvAck m =>
      unfold Channel.step SendingBus.recvFragmentAck
      dsimp only
      repeat' split
      all_goals exact grows_same rfl rfl
  | completeDispatcher =>
      change Grows s.sending s.sending.completeDispatcher
      unfold SendingBus.completeDispatcher
      repeat' split
      all_goals exact grows_same rfl rfl
  | recvData m content acquired replied =>
      unfold Channel.step
      dsimp only
      split <;> exact grows_same rfl rfl
  | receiverTask worker parcel => exact grows_same rfl rfl
  | verifyChecksumComplete computed => exact grows_same rfl rfl

theorem step_of_sends {s : Channel} {e : Event} (he : e.sends = true) :
    (s.step fragmentContentCapacity checksum e).receiving = s.receiving ∧
      (s.step fragmentContentCapacity checksum e).acks = s.acks := by
  cases e with
  | recvData | receiverTask | verifyChecksumComplete => cases he
  | recvAck m =>
      unfold Channel.step
      dsimp only
      split <;> exact ⟨rfl, rfl⟩
  | _ => exact ⟨rfl, rfl⟩

end Growth

section Invariant

/-- What the buses and the network say of one another: the reliable parcels are those of a channel,
and the other ones have sequence numbers of their own. -/
structure Sound (fragmentContentCapacity : ℕ) (checksum : Checksum) (s : BusChannel) : Prop where
  attributed : s.channel.Attributed fragmentContentCapacity checksum
  coherent : s.bus.receiving.Coherent (Apart s.sending)
  others : ∀ x ∈ s.others, x.1.type ≠ .reliable ∧ Apart s.sending x.1.sequence
  mapped : s.bus.running = true →
    s.bus.receiversMap.Mirrors s.bus.receiving.receiversMap ∧
      16 ≤ s.bus.receiversMap.map.nbuckets

variable {fragmentContentCapacity : ℕ} {checksum : Checksum} {s : BusChannel}

theorem sound_start (overLoad : ℕ → ℕ → Bool) :
    Sound fragmentContentCapacity checksum (start overLoad) :=
  ⟨Channel.attributed_start, Bus.coherent_start, nofun, fun _ =>
    ⟨ReceiverMap.mirrors_create overLoad, (ReceiverMap.nbuckets_create overLoad).ge⟩⟩

theorem Sound.sending (h : Sound fragmentContentCapacity checksum s) {e : Event}
    (he : s.channel.Unwrapped e) : Sound fragmentContentCapacity checksum
      (s.step fragmentContentCapacity checksum (.sending e)) := by
  unfold step
  dsimp only
  split
  · rename_i hsends
    obtain ⟨hreceiving, hacks⟩ := @step_of_sends fragmentContentCapacity checksum s.channel e hsends
    have hgrows : Grows s.sending (s.channel.step fragmentContentCapacity checksum e).sending :=
      grows_step he
    refine ⟨?_, h.coherent.mono fun _ => hgrows.apart,
      fun x hx => ⟨(h.others x hx).1, hgrows.apart (h.others x hx).2⟩, h.mapped⟩
    have hchannel := h.attributed.step he
    generalize s.channel.step fragmentContentCapacity checksum e = next at *
    obtain ⟨sending, receiving, data, acks⟩ := next
    obtain rfl : receiving = s.bus.receiving.reliablePart := hreceiving
    obtain rfl : acks = s.acks := hacks
    exact hchannel
  · exact h

theorem sequence_fragmentsOf {type : FragmentType} {busId sequence : UInt64}
    {contents : List Bytes} {x : FragmentMeta × Bytes}
    (hx : x ∈ fragmentsOf type busId sequence contents) :
    x.1.type = type ∧ x.1.sequence = sequence := by
  obtain ⟨index, hindex, rfl⟩ := List.mem_mapIdx.mp hx
  exact ⟨rfl, rfl⟩

theorem Sound.dispatchOther (h : Sound fragmentContentCapacity checksum s) (type : FragmentType)
    (busId : UInt64) (contents : List Bytes)
    (hgenerator : s.sending.sequenceGenerator ≠ 0xffffffffffffffff) :
    Sound fragmentContentCapacity checksum
      (s.step fragmentContentCapacity checksum (.dispatchOther type busId contents)) := by
  unfold step
  dsimp only
  split
  · rename_i htype
    have hgrows := grows_spent hgenerator true
    refine ⟨⟨h.attributed.sending.spent hgenerator true, h.attributed.receiving⟩,
      h.coherent.mono fun _ => hgrows.apart, fun x hx => ?_, h.mapped⟩
    rcases List.mem_append.mp hx with hx | hx
    · exact ⟨(h.others x hx).1, hgrows.apart (h.others x hx).2⟩
    · obtain ⟨hxtype, hsequence⟩ := sequence_fragmentsOf hx
      rw [hxtype, hsequence]
      refine ⟨fun hreliable => ?_, UInt64.le_refl _, fun p hp => UInt64.ne_of_lt ?_⟩
      · rw [hreliable] at htype
        exact absurd htype (by decide)
      · exact UInt64.lt_of_le_of_lt (h.attributed.sending.parcels p hp).1
          (Counter.lt_add_one hgenerator)
  · exact h

theorem repliesAck_of_ne (b : Bus) (env : BusEnv) {m : FragmentMeta} (htype : m.type ≠ .reliable) :
    b.repliesAck env m = false := by
  simp [Bus.repliesAck, htype]

theorem Sound.recvFragment (h : Sound fragmentContentCapacity checksum s) (a : Arrival)
    (replied : Bool) : Sound fragmentContentCapacity checksum
      (s.step fragmentContentCapacity checksum (.recvFragment a replied)) := by
  unfold step
  dsimp only
  split
  swap
  · exact h
  rename_i hguard
  unfold EndpointBus.receive
  split
  swap
  · rw [List.append_nil]
    exact h
  rename_i hrunning
  obtain ⟨hmirrors, hbuckets⟩ := h.mapped hrunning
  have hother : a.info.type ≠ .reliable → Apart s.sending a.info.sequence := by
    intro htype
    rcases hguard with ⟨hreliable, -⟩ | hmem
    · exact absurd hreliable htype
    · exact (h.others _ hmem).2
  refine ⟨?_, h.coherent.recvFragmentData a.env a.info a.content hother, h.others,
    fun hstill => ?_⟩
  · by_cases htype : a.info.type = .reliable
    · have hdata : a.message ∈ s.data := by
        rcases hguard with ⟨-, hdata⟩ | hmem
        · exact hdata
        · exact absurd htype (h.others _ hmem).1
      set b' := s.bus.recvFragmentData a.env a.info a.content with hb'
      have hstep := h.attributed.step (e := .recvData a.info.toMeta a.content
        (s.bus.receiving.opensReceiver a.env a.info) (b'.running && replied)) trivial
      have hpart := Bus.reliablePart_recvFragmentData h.coherent.stored h.coherent.reliable a.env
        a.info a.content (b'.running && replied) htype
      have hdata' : (a.info.toMeta, a.content) ∈ s.channel.data := hdata
      simp only [Channel.step, hdata', if_true] at hstep
      rw [show s.channel.receiving = s.bus.receiving.reliablePart from rfl, hpart] at hstep
      exact hstep
    · have hpart := Bus.reliablePart_recvFragmentData_of_ne h.coherent.stored h.coherent.reliable
        a.env a.info a.content htype
      have hattributed := h.attributed
      simp only [repliesAck_of_ne _ _ htype, Bool.and_false, Bool.false_eq_true, if_false,
        List.append_nil]
      unfold channel at hattributed ⊢
      rw [← hpart] at hattributed
      exact hattributed
  · have hkeeps := EndpointBus.keepsReceivers_of_running hstill
    exact ⟨EndpointBus.mirrors_recvFragmentData hmirrors h.coherent.stored hkeeps a.content,
      hbuckets.trans (s.bus.receiversMap.nbuckets_le_write _)⟩

theorem Sound.advance (h : Sound fragmentContentCapacity checksum s) {i : BusInput}
    (hevent : ∀ m content, i.event ≠ .recvFragmentData m content)
    (hcoherent : (s.bus.receiving.step checksum i).Coherent (Apart s.sending))
    (hpart : s.bus.running = true → GatheredFrom fragmentContentCapacity checksum
      s.sending.dispatched (s.bus.receiving.step checksum i).reliablePart) :
    Sound fragmentContentCapacity checksum { s with bus := s.bus.advance checksum i } := by
  unfold EndpointBus.advance
  split
  · rename_i hrunning
    obtain ⟨hmirrors, hbuckets⟩ := h.mapped hrunning
    have hmoves := s.bus.receiversMap.movesNothing_of_shut
      (s.bus.receiving.countP_adds_mapCalls hevent)
    exact ⟨⟨h.attributed.sending, hpart hrunning⟩, hcoherent, h.others, fun _ =>
      ⟨hmirrors.step h.coherent.stored checksum hmoves,
        hbuckets.trans (s.bus.receiversMap.nbuckets_le_write _)⟩⟩
  · exact h

theorem Sound.step (h : Sound fragmentContentCapacity checksum s) {e : BusChannelEvent}
    (he : s.Regular e) :
    Sound fragmentContentCapacity checksum (s.step fragmentContentCapacity checksum e) := by
  have hchunks : ∀ p ∈ s.sending.dispatched, p.chunks ≠ [] := fun p hp =>
    (h.attributed.sending.parcels p hp).2
  have hgathered : GatheredFrom fragmentContentCapacity checksum s.sending.dispatched
    s.bus.receiving.reliablePart := h.attributed.receiving
  cases e with
  | sending e => exact h.sending he
  | dispatchOther type busId contents => exact h.dispatchOther type busId contents he
  | recvFragment a replied => exact h.recvFragment a replied
  | stage env id =>
      refine h.advance (fun _ _ => nofun) (h.coherent.stage checksum env id) fun hrunning => ?_
      rw [Bus.reliablePart_stage checksum h.coherent env id
        (EndpointBus.running_iff.mp hrunning).2]
      split
      · exact hgathered.receiverTask hchunks env.worker env.parcel
      · exact hgathered
  | verifyChecksumComplete env id canceled computed =>
      refine h.advance (fun _ _ => nofun)
        (h.coherent.verifyChecksumComplete checksum env id canceled computed he) fun _ => ?_
      rcases Bus.reliablePart_completion checksum h.coherent env id canceled computed he with
        hsame | hverified
      · rw [hsame]
        exact hgathered
      · rw [hverified]
        exact (hgathered.verifyChecksumComplete computed).receiverTask hchunks env.worker env.parcel

theorem Sound.drained (h : Sound fragmentContentCapacity checksum s) :
    Sound fragmentContentCapacity checksum { s with bus := s.bus.drain checksum } := by
  unfold EndpointBus.drain
  split
  · exact h
  · rename_i id _
    have h₁ := h.step (e := .stage (.plain id) id) trivial
    have h₂ := h₁.step (e := .verifyChecksumComplete (.plain id) id false true)
      fun hcancels => absurd hcancels.1 Bool.false_ne_true
    exact h₂.step (e := .stage (.plain id) id) trivial

theorem Sound.keepsReceivers_of_few (h : Sound fragmentContentCapacity checksum s)
    (hrunning : s.bus.running = true)
    (hload : ∀ size nbuckets, size ≤ 12 → 16 ≤ nbuckets →
      (s.bus.drain checksum).receiversMap.overLoad size nbuckets = false)
    (hfew : (s.bus.drain checksum).receiving.receiversMap.length < 12) (env : BusEnv)
    (m : FragmentMeta) : (s.bus.drain checksum).KeepsReceivers env m := by
  have hdrained := h.drained
  obtain ⟨hstill, hcoherent, -⟩ := EndpointBus.drain_eq checksum h.coherent hrunning
  obtain ⟨hmirrors, hbuckets⟩ := hdrained.mapped hstill
  exact EndpointBus.keepsReceivers_of_few hmirrors hbuckets hcoherent.stored hload hfew env m

end Invariant

section Delivery

variable {fragmentContentCapacity : ℕ} {checksum : Checksum} {s : BusChannel} {d : Dispatcher}
  {arrivals : List Arrival}

theorem mem_delivered_reliablePart {b : Bus} {x : UInt64 × Bytes} :
    x ∈ b.reliablePart.delivered ↔ (FragmentType.reliable, x) ∈ b.delivered := by
  simp [Bus.reliablePart]

theorem Sound.message (h : Sound fragmentContentCapacity checksum s)
    (hd : s.sending.incompleteReliableDispatcher = some d) {a : Arrival}
    (ha : a.message ∈ d.messages) :
    a.info.fragmentIndex ≤ a.info.lastIndex ∧ a.info.sequence = d.sequence ∧
      ¬Apart s.sending a.info.sequence := by
  obtain ⟨p, hp, hdispatches⟩ := h.attributed.sending.dispatchers d (by simp [channel, hd])
  have hcarries := Dispatcher.carries_messages hdispatches ha
  obtain ⟨index, hindex, heq⟩ := List.mem_mapIdx.mp ha
  have hmeta : a.info.toMeta = ⟨d.sequence, index, d.fragments.length - 1⟩ :=
    (congrArg Prod.fst heq).symm
  have hsequence : a.info.sequence = d.sequence := congrArg Meta.sequence hmeta
  have hfirst : a.info.fragmentIndex.toNat = index := congrArg Meta.fragmentIndex hmeta
  have hlast : a.info.lastIndex.toNat = d.fragments.length - 1 := congrArg Meta.lastIndex hmeta
  refine ⟨?_, hsequence, fun hapart => hapart.2 p hp ?_⟩
  · rw [UInt64.le_iff_toNat_le]
    omega
  · rw [hsequence, hdispatches.sequence]

theorem Sound.gets_iff_channel (h : Sound fragmentContentCapacity checksum s)
    (hd : s.sending.incompleteReliableDispatcher = some d)
    (harrivals : ∀ a ∈ arrivals, a.message ∈ d.messages)
    (hreliable : ∀ a ∈ arrivals, a.info.type = .reliable)
    (hacquire : ∀ a ∈ arrivals.head?, ∃ id ∈ a.env.acquire,
      (s.bus.drain checksum).receiving.receivers id = none) (hrunning : s.bus.running = true)
    (hkeeps : ∀ a ∈ arrivals.head?, (s.bus.drain checksum).KeepsReceivers a.env a.info) :
    s.Gets checksum d arrivals ↔ s.channel.Gets checksum d (arrivals.map Arrival.message) := by
  obtain ⟨hdrained, hcoherent, hpart⟩ := EndpointBus.drain_eq checksum h.coherent hrunning
  obtain ⟨hstill, hcoherent', hparts⟩ := EndpointBus.recvAll_eq hcoherent hdrained
    (fun a ha => ⟨hreliable a ha, (h.message hd (harrivals a ha)).1,
      (h.message hd (harrivals a ha)).2.1⟩) hkeeps fun a ha hneeds =>
        Bus.opensReceiver_of_foreign hcoherent.stored hcoherent.reliable hcoherent.foreign
          (h.message hd (harrivals a (List.mem_of_mem_head? ha))).2.2
          (hcoherent.reliable.incomplete_reliablePart.mp hneeds.1) (hacquire a ha)
  obtain ⟨-, -, hlast⟩ := EndpointBus.drain_eq checksum hcoherent' hstill
  rw [hpart] at hparts
  unfold Gets Channel.Gets
  dsimp only
  simp only [← mem_delivered_reliablePart, hlast]
  rw [show s.channel.receiving = s.bus.receiving.reliablePart from rfl, hparts]
  exact Iff.rfl

end Delivery

/-- In every state that is reached before the sequence numbers wrap around, with parcels in every
mode: the parcel in dispatch is acknowledged and delivered when its fragments arrive, in any order
and any number of times, exactly if no assertion has failed on the receiving bus, it waits for no
other reliable parcel and has not lost this one, and the receiver that is opened for the first
fragment, if there is one, displaces no other. -/
theorem gets_iff (fragmentContentCapacity : ℕ) (checksum : Checksum) (overLoad : ℕ → ℕ → Bool)
    (events : List BusChannelEvent)
    (hregular : Along (step fragmentContentCapacity checksum) Regular (start overLoad) events)
    (s : BusChannel)
    (hs : s = run (step fragmentContentCapacity checksum) (start overLoad) events)
    (d : Dispatcher) (hd : s.sending.incompleteReliableDispatcher = some d)
    (arrivals : List Arrival)
    (harrivals : ∀ x, x ∈ arrivals.map Arrival.message ↔ x ∈ d.messages)
    (hreliable : ∀ a ∈ arrivals, a.info.type = .reliable)
    (hacquire : ∀ a ∈ arrivals.head?, ∃ id ∈ a.env.acquire,
      (s.bus.drain checksum).receiving.receivers id = none) :
    s.Gets checksum d arrivals ↔ s.bus.running = true ∧
      (s.bus.drain checksum).receiving.reliablePart.Open d.sequence ∧
        ∀ a ∈ arrivals.head?, (s.bus.drain checksum).KeepsReceivers a.env a.info := by
  have hsound : Sound fragmentContentCapacity checksum s := by
    rw [hs]
    exact invariant_run (fun _ _ h he => h.step he) (sound_start overLoad) hregular
  obtain ⟨first, hfirst⟩ := hsound.attributed.exists_message hd
  -- a bus that sends no ack does not get the parcel
  have hacked : s.Gets checksum d arrivals → ((s.bus.drain checksum).recvAll arrivals).2 ≠ [] :=
    fun hgets hnone => by
      have hmem := hgets.1 first hfirst
      rw [hnone] at hmem
      cases hmem
  cases hrunning : s.bus.running with
  | false =>
      refine iff_of_false (fun hgets => hacked hgets ?_) fun h => absurd h.1 nofun
      rw [EndpointBus.drain_stopped checksum hrunning, EndpointBus.recvAll_stopped hrunning]
  | true =>
      by_cases hkeeps : ∀ a ∈ arrivals.head?, (s.bus.drain checksum).KeepsReceivers a.env a.info
      · have hchannel := hsound.gets_iff_channel hd
          (fun a ha => (harrivals _).mp (List.mem_map_of_mem ha)) hreliable hacquire hrunning hkeeps
        obtain ⟨-, -, hpart⟩ := EndpointBus.drain_eq checksum hsound.coherent hrunning
        rw [hchannel, hsound.attributed.gets_iff_open hd harrivals, hpart]
        exact ⟨fun hopen => ⟨rfl, hopen, hkeeps⟩, fun h => h.2.1⟩
      · exact iff_of_false (fun hgets => hacked hgets (EndpointBus.recvAll_displaced hkeeps))
          fun h => hkeeps h.2.2

/-- Two reliable parcels in two fragments, and an unreliable one whose first fragment arrives. -/
def sampleParcels : List BusChannelEvent :=
  [.sending (.submit [Channel.sampleChunk (List.replicate 1200 1), Channel.sampleChunk [2]] true
      true),
    .sending (.submit [Channel.sampleChunk (List.replicate 1200 3), Channel.sampleChunk [4]] true
      true),
    .sending (.updateChecksumComplete 0 true true), .sending (.updateChecksumComplete 1 true true),
    .sending .processSending, .dispatchOther .unreliable 0 [[5], [6]],
    .recvFragment ⟨.plain 0, ⟨.unreliable, 0, 0, 1, 3⟩, [5], by decide⟩ true,
    .stage (.plain 0) 0]

/-- The second fragment of the first parcel is not sent, and its dispatcher gives up. The
first one arrives, and the second parcel is dispatched. -/
def abandoned : List BusChannelEvent :=
  sampleParcels ++ [.sending (.dispatch (fun index => index = 0) true),
    .sending .completeDispatcher,
    .recvFragment ⟨.plain 1, ⟨.reliable, 0, 0, 1, 1⟩, List.replicate 1200 1, by decide⟩ true,
    .sending .processSending, .sending (.dispatch (fun _ => true) true)]

/-- The dispatcher of the first parcel gives up before any fragment of it has arrived. -/
def abandonedUnseen : List BusChannelEvent :=
  sampleParcels ++ [.sending (.dispatch (fun index => index = 0) true),
    .sending .completeDispatcher, .sending .processSending,
    .sending (.dispatch (fun _ => true) true)]

/-- The dispatcher of the second parcel. -/
def secondDispatcher : Dispatcher :=
  { Dispatcher.init 1200 Channel.sampleChecksum 1 2
      [Channel.sampleChunk (List.replicate 1200 3), Channel.sampleChunk [4]] with
    stage := .waiting
    resendTimer := true }

/-- Its fragments. -/
def secondArrivals : List Arrival :=
  [⟨.plain 2, ⟨.reliable, 0, 0, 1, 2⟩, List.replicate 1200 3, by decide⟩,
    ⟨.plain 2, ⟨.reliable, 0, 1, 1, 2⟩,
      [4] ++ Channel.sampleChecksum.digest (List.replicate 1200 3 ++ [4]), by decide⟩]

theorem message_secondArrivals :
    secondArrivals.map Arrival.message = secondDispatcher.messages := by
  decide +kernel

theorem gets_iff_abandonedUnseen :
    (run (step 1200 Channel.sampleChecksum) (start Utils.Map.uint64Options.overLoad)
      abandonedUnseen).Gets Channel.sampleChecksum secondDispatcher secondArrivals := by
  have hidle : ((run (step 1200 Channel.sampleChecksum) (start Utils.Map.uint64Options.overLoad)
      abandonedUnseen).bus.drain
        Channel.sampleChecksum).receiving.reliablePart.incompleteReliableReceiver = none := by
    decide +kernel
  have hlast : ((run (step 1200 Channel.sampleChecksum) (start Utils.Map.uint64Options.overLoad)
      abandonedUnseen).bus.drain
        Channel.sampleChecksum).receiving.reliablePart.lastRecvReliableSequence ≠
          secondDispatcher.sequence := by
    decide +kernel
  refine (gets_iff 1200 Channel.sampleChecksum Utils.Map.uint64Options.overLoad abandonedUnseen
    (by decide +kernel) _ rfl secondDispatcher (by decide +kernel) secondArrivals
    (fun x => by rw [message_secondArrivals]) (by decide) fun a ha => ?_).mpr
      ⟨by decide +kernel, ?_, by decide +kernel⟩
  · obtain rfl := Option.some.inj ha
    exact ⟨2, rfl, by decide +kernel⟩
  · unfold ReceivingBus.Open
    rw [hidle]
    exact fun heq => absurd heq hlast

theorem not_gets_abandoned :
    ¬ ∀ (fragmentContentCapacity : ℕ) (checksum : Checksum) (overLoad : ℕ → ℕ → Bool)
      (events : List BusChannelEvent) (d : Dispatcher) (arrivals : List Arrival),
      Along (step fragmentContentCapacity checksum) Regular (start overLoad) events →
      (run (step fragmentContentCapacity checksum) (start overLoad)
        events).sending.incompleteReliableDispatcher = some d →
      arrivals.map Arrival.message = d.messages → (∀ a ∈ arrivals, a.info.type = .reliable) →
      (run (step fragmentContentCapacity checksum) (start overLoad) events).Gets checksum d
        arrivals := by
  intro h
  obtain ⟨hacked, -⟩ := h 1200 Channel.sampleChecksum Utils.Map.uint64Options.overLoad abandoned
    secondDispatcher secondArrivals (by decide +kernel) (by decide +kernel) message_secondArrivals
    (by decide)
  revert hacked
  decide +kernel

/-- Twelve unreliable parcels of two fragments, with the sequence numbers 16 to 27, have a receiver
each, and the one of the reliable parcel behind them would displace theirs. -/
example :
    let s := run (step 1200 Channel.sampleChecksum) (start Utils.Map.uint64Options.overLoad)
      (List.replicate 27 (.dispatchOther .unreliable 0 [[1], [2]]) ++
        (List.range 12).map (fun n => .recvFragment
          ⟨.plain n, ⟨.unreliable, 0, 0, 1, .ofNat (n + 16)⟩, [1],
            show (⟨.unreliable, 0, 0, 1, 0⟩ : FragmentMeta).encodable = true by decide⟩ true) ++
        [.sending (.submit [Channel.sampleChunk [3]] true true), .sending .processSending])
    s.bus.running = true ∧ s.bus.receiving.receiversMap.length = 12 ∧
      ¬s.bus.KeepsReceivers (.plain 12) ⟨.reliable, 0, 0, 0, 28⟩ := by
  decide +kernel

end BusChannel

end Delivery

end PomeloUdp
