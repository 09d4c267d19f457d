import PomeloUdp.Delivery.FragmentLimit

/-!
# Fragments in any order

A receiver is created by whichever fragment of a parcel arrives first and gets the
others in any order, each any number of times, while the tasks of its pipeline run. It
leaves the waiting stage with the last missing fragment, its checksum is right and the
parcel it builds reads back what was written: `reassembles_iff`. The metas travel
encoded, so this needs a last index that the codec keeps.
-/

namespace PomeloUdp

namespace Delivery

open Memory Codec FragmentMeta

/-- `pomelo_delivery_receiver_t` in any mode: what the one of the reliable mode has, and
the mode, which is that of the fragment that created it. -/
structure ModeReceiver where
  type : FragmentType
  receiver : Receiver

/-- A fragment arrives, or the next task of the pipeline runs. -/
inductive ReceiverEvent where
  | fragment (index : ℕ)
  | task
  deriving DecidableEq, Repr

/-- The numbers of a decoded meta. -/
def FragmentMeta.toMeta (m : FragmentMeta) : Meta where
  sequence := m.sequence
  fragmentIndex := m.fragmentIndex.toNat
  lastIndex := m.lastIndex.toNat

namespace ModeReceiver

/-- `pomelo_delivery_receiver_init`. -/
def init (m : FragmentMeta) : ModeReceiver := ⟨m.type, Receiver.init m.toMeta⟩

/-- `pomelo_delivery_receiver_check_meta`. -/
def checkMeta (r : ModeReceiver) (m : FragmentMeta) : Bool :=
  r.type = m.type ∧ r.receiver.checkMeta m.toMeta = true

/-- `pomelo_delivery_receiver_add_fragment`. -/
def addFragment (r : ModeReceiver) (m : FragmentMeta) (content : Bytes) : ModeReceiver :=
  { r with receiver := r.receiver.addFragment m.toMeta content }

/-- The receiver that the bus creates for a payload. -/
def create (view : BufferView) : Option ModeReceiver :=
  (metaDecode view).map fun s =>
    (init s.1).addFragment s.1 (load s.2.memory s.2.offset s.2.length)

/-- A payload for the receiver: the bus drops it when its meta does not match. -/
def recv (r : ModeReceiver) (view : BufferView) : ModeReceiver :=
  match metaDecode view with
  | none => r
  | some s =>
      if r.checkMeta s.1 then r.addFragment s.1 (load s.2.memory s.2.offset s.2.length) else r

/-- The next task of the pipeline, with a worker at hand. -/
def task (checksum : Checksum) (r : ModeReceiver) : ModeReceiver :=
  match r.receiver.stage with
  | .verifyChecksum => { r with receiver := r.receiver.verifyChecksum true }
  | .checking embeddedChecksum =>
      { r with receiver := r.receiver.verifyChecksumComplete checksum embeddedChecksum true }
  | _ => r

/-- One event; `payloads` are those of the fragments, `none` where the sender could not
encode one. -/
def step (checksum : Checksum) (memory : ℕ → UInt8) (payloads : List (Option Bytes))
    (r : ModeReceiver) : ReceiverEvent → ModeReceiver
  | .fragment index =>
      match payloads[index]? with
      | some (some payload) => r.recv (viewOf memory payload)
      | _ => r
  | .task => r.task checksum

/-- A receiver created by fragment `first`, after some events. -/
def run (checksum : Checksum) (memory : ℕ → UInt8) (payloads : List (Option Bytes)) (first : ℕ)
    (events : List ReceiverEvent) : Option ModeReceiver :=
  match payloads[first]? with
  | some (some payload) =>
      (create (viewOf memory payload)).map fun r => events.foldl (step checksum memory payloads) r
  | _ => none

end ModeReceiver

/-- The payloads that a new dispatcher hands to the protocol. -/
def payloads (context : Context) (checksum : Checksum) (memory : ℕ → UInt8) (type : FragmentType)
    (busId : UInt64) (number : ℕ) (sequence : UInt64) (chunks : List Chunk) :
    List (Option Bytes) :=
  ((Dispatcher.init context.fragmentContentCapacity checksum number sequence chunks).send
    fun _ => true).1.map (fragmentPayload context memory type busId)

/-- A receiver created by any of the payloads and given the others in any order, each any
number of times, does not fail. It waits until every fragment arrived, two tasks later
it is complete, and a complete one gives a parcel that reads back `bytes`. -/
def Reassembles (checksum : Checksum) (payloads : List (Option Bytes)) (bytes : Bytes) : Prop :=
  ∀ (memory : ℕ → UInt8) (first : ℕ) (events : List ReceiverEvent), first < payloads.length →
    ∃ r, ModeReceiver.run checksum memory payloads first events = some r ∧
      r.receiver.failed = false ∧
      (r.receiver.stage ≠ .waitFragments ↔
        ∀ index < payloads.length, index = first ∨ .fragment index ∈ events) ∧
      (r.receiver.stage ≠ .waitFragments →
        ((r.task checksum).task checksum).receiver.stage = .complete) ∧
      (r.receiver.stage = .complete → ∀ lengths : List ℕ, lengths.sum = bytes.length →
        (Reader.init (setFragments r.receiver.fragments)).readAll lengths = some bytes)

section Collecting

variable {context : Context} {checksum : Checksum} {p : Parcel} {r : ModeReceiver}
  {arrived : List ℕ}

/-- The receiver collects the parcel, and it has the fragments that arrived. -/
structure Collecting (context : Context) (checksum : Checksum) (p : Parcel) (type : FragmentType)
    (arrived : List ℕ) (r : ModeReceiver) : Prop where
  type : r.type = type
  collects : Collects context.fragmentContentCapacity checksum p r.receiver
  holds : ∀ index < r.receiver.fragments.length, r.receiver.Holds index ↔ index ∈ arrived

theorem holds_of_addFragment {r : Receiver} {m : Meta} {content : Bytes} {index : ℕ}
    (h : (r.addFragment m content).Holds index) : r.Holds index ∨ index = m.fragmentIndex := by
  obtain ⟨-, hsame⟩ | ⟨-, -, -, hset, -⟩ := r.addFragment_cases m content
  · rw [hsame] at h
    exact Or.inl h
  · obtain ⟨other, hother⟩ := h
    by_cases hindex : index = m.fragmentIndex
    · exact Or.inr hindex
    · rw [hset, List.getElem?_set_ne (Ne.symm hindex)] at hother
      exact Or.inl ⟨other, hother⟩

namespace Collecting

variable {type : FragmentType}

theorem waiting_iff (h : Collecting context checksum p type arrived r) :
    r.receiver.stage ≠ .waitFragments ↔
      ∀ index < (p.contents context.fragmentContentCapacity checksum).length, index ∈ arrived := by
  rw [← h.collects.length]
  constructor
  · intro hstage index hindex
    exact (h.holds index hindex).mp (h.collects.holds hstage hindex)
  · intro hall
    exact h.collects.not_waiting fun index hindex => (h.holds index hindex).mpr (hall index hindex)

theorem addFragment (h : Collecting context checksum p type arrived r) {m : FragmentMeta}
    {content : Bytes}
    (hcarries : Carries context.fragmentContentCapacity checksum p m.toMeta content) :
    Collecting context checksum p type (m.toMeta.fragmentIndex :: arrived)
      (r.addFragment m content) := by
  obtain ⟨hcollects, hadded⟩ := h.collects.addFragment hcarries
  have hlength : (r.addFragment m content).receiver.fragments.length =
      r.receiver.fragments.length := hcollects.length.trans h.collects.length.symm
  refine ⟨h.type, hcollects, ?_⟩
  intro index hindex
  rw [List.mem_cons]
  constructor
  · intro hholds
    rcases holds_of_addFragment hholds with hbefore | hnew
    · exact Or.inr ((h.holds index (hlength ▸ hindex)).mp hbefore)
    · exact Or.inl hnew
  · rintro (rfl | hbefore)
    · exact hadded
    · exact ((h.holds index (hlength ▸ hindex)).mpr hbefore).addFragment _ _

theorem create {m : FragmentMeta} {content : Bytes} (htype : m.type = type)
    (hcarries : Carries context.fragmentContentCapacity checksum p m.toMeta content) :
    Collecting context checksum p type [m.toMeta.fragmentIndex]
      ((ModeReceiver.init m).addFragment m content) := by
  have hinit : Collecting context checksum p type [] (ModeReceiver.init m) := by
    refine ⟨htype, Collects.init hcarries, ?_⟩
    intro index hindex
    refine iff_of_false ?_ (List.not_mem_nil)
    rintro ⟨other, hother⟩
    simp [ModeReceiver.init, Receiver.init, List.getElem?_replicate] at hother
  exact hinit.addFragment hcarries

theorem recv (h : Collecting context checksum p type arrived r) {m : FragmentMeta}
    {content : Bytes} {view view' : BufferView} (htype : m.type = type)
    (hcarries : Carries context.fragmentContentCapacity checksum p m.toMeta content)
    (hdecode : metaDecode view = some (m, view'))
    (hload : load view'.memory view'.offset view'.length = content) :
    Collecting context checksum p type (m.toMeta.fragmentIndex :: arrived) (r.recv view) := by
  have hcheck : r.checkMeta m = true := by
    have hsequence := h.collects.sequence.trans hcarries.sequence.symm
    have hlength := h.collects.length.trans hcarries.last.symm
    simp [ModeReceiver.checkMeta, Receiver.checkMeta, h.type, htype, hsequence, hlength]
  rw [ModeReceiver.recv, hdecode]
  simp only [hcheck, if_true, hload]
  exact h.addFragment hcarries

theorem task (h : Collecting context checksum p type arrived r) (hchunks : p.chunks ≠ []) :
    Collecting context checksum p type arrived (r.task checksum) ∧
      (r.receiver.stage ≠ .waitFragments →
        (r.task checksum).receiver.stage ≠ .waitFragments ∧
        (r.task checksum).receiver.stage ≠ .verifyChecksum ∧
        (r.receiver.stage ≠ .verifyChecksum → (r.task checksum).receiver.stage = .complete)) := by
  -- past the waiting stage every fragment is there
  have keep : ∀ r' : ModeReceiver, r'.type = r.type → r.receiver.stage ≠ .waitFragments →
      r'.receiver.stage ≠ .waitFragments →
      Collects context.fragmentContentCapacity checksum p r'.receiver →
      Collecting context checksum p type arrived r' := by
    intro r' htype hstage hstage' hcollects
    refine ⟨htype.trans h.type, hcollects, ?_⟩
    intro index hindex
    have hbefore : index < r.receiver.fragments.length := by
      rwa [h.collects.length, ← hcollects.length]
    exact iff_of_true (hcollects.holds hstage' hindex)
      ((h.holds index hbefore).mp (h.collects.holds hstage hbefore))
  unfold ModeReceiver.task
  cases hcase : r.receiver.stage with
  | waitFragments => exact ⟨h, fun hstage => absurd rfl hstage⟩
  | verifyChecksum =>
      have hwaiting : r.receiver.stage ≠ .waitFragments := by simp [hcase]
      obtain ⟨hcollects, hstage, hverified⟩ := h.collects.verifyChecksum hchunks hcase
      exact ⟨keep _ rfl hwaiting hstage hcollects,
        fun _ => ⟨hstage, hverified, fun hne => absurd rfl hne⟩⟩
  | checking embedded =>
      have hwaiting : r.receiver.stage ≠ .waitFragments := by simp [hcase]
      obtain ⟨hcollects, hstage⟩ := h.collects.verifyChecksumComplete hcase
      refine ⟨keep _ rfl hwaiting (by simp [hstage]) hcollects, fun _ => ⟨?_, ?_, fun _ => hstage⟩⟩
      · simp [hstage]
      · simp [hstage]
  | complete => exact ⟨h, fun _ => ⟨by simp [hcase], by simp [hcase], fun _ => hcase⟩⟩

theorem complete (h : Collecting context checksum p type arrived r) (hchunks : p.chunks ≠ [])
    (hstage : r.receiver.stage ≠ .waitFragments) :
    ((r.task checksum).task checksum).receiver.stage = .complete := by
  obtain ⟨hfirst, hnext⟩ := h.task hchunks
  obtain ⟨hwaiting, hverified, -⟩ := hnext hstage
  exact ((hfirst.task hchunks).2 hwaiting).2.2 hverified

theorem readAll (h : Collecting context checksum p type arrived r)
    (hstage : r.receiver.stage = .complete) {lengths : List ℕ}
    (hsum : lengths.sum = (bytesOf p.chunks).length) :
    (Reader.init (setFragments r.receiver.fragments)).readAll lengths =
      some (bytesOf p.chunks) := by
  have hbytes : (setFragments r.receiver.fragments).flatten = bytesOf p.chunks :=
    congrArg Prod.snd (h.collects.delivery hstage)
  rw [← hbytes] at hsum ⊢
  exact Reader.readAll_init _ hsum

theorem beyond (h : Collecting context checksum p type arrived r) {other : ℕ}
    (hother : (p.contents context.fragmentContentCapacity checksum).length ≤ other) :
    Collecting context checksum p type (other :: arrived) r := by
  refine ⟨h.type, h.collects, ?_⟩
  intro index hindex
  have hne : index ≠ other := by
    rw [h.collects.length] at hindex
    omega
  rw [h.holds index hindex, List.mem_cons]
  simp [hne]

end Collecting

end Collecting

section Payloads

variable {context : Context} {checksum : Checksum} {memory : ℕ → UInt8} {type : FragmentType}
  {busId : UInt64} {number : ℕ} {sequence : UInt64} {chunks : List Chunk}

theorem getElem?_payloads (index : ℕ) :
    (payloads context checksum memory type busId number sequence chunks)[index]? =
      (emitted context.fragmentContentCapacity checksum chunks)[index]?.map fun content =>
        fragmentPayload context memory type busId
          (⟨sequence, index,
            (emitted context.fragmentContentCapacity checksum chunks).length - 1⟩, content) := by
  rw [payloads, send_init, List.getElem?_map, List.getElem?_mapIdx, Option.map_map]
  rfl

theorem length_payloads :
    (payloads context checksum memory type busId number sequence chunks).length =
      (emitted context.fragmentContentCapacity checksum chunks).length := by
  rw [payloads, send_init, List.length_map, List.length_mapIdx]

variable (memory type number sequence) in
theorem exists_payload
    (hcount : (emitted context.fragmentContentCapacity checksum chunks).length ≤ parcelMaxFragments)
    (hbus : busId.toNat ≤ deliveryMaxBuses) {index : ℕ}
    (hindex : index < (emitted context.fragmentContentCapacity checksum chunks).length) :
    ∃ (payload : Bytes) (m : FragmentMeta) (content : Bytes),
      (payloads context checksum memory type busId number sequence chunks)[index]? =
        some (some payload) ∧
      m.type = type ∧ m.toMeta.fragmentIndex = index ∧
      Carries context.fragmentContentCapacity checksum ⟨number, sequence, chunks⟩ m.toMeta content ∧
      ∀ memory' : ℕ → UInt8, ∃ view, metaDecode (viewOf memory' payload) = some (m, view) ∧
        load view.memory view.offset view.length = content := by
  obtain ⟨content, hcontent⟩ : ∃ content,
      (emitted context.fragmentContentCapacity checksum chunks)[index]? = some content :=
    ⟨_, List.getElem?_eq_getElem hindex⟩
  set sent : Meta := ⟨sequence, index,
    (emitted context.fragmentContentCapacity checksum chunks).length - 1⟩ with hsent
  have hcarries : Carries context.fragmentContentCapacity checksum ⟨number, sequence, chunks⟩ sent
      content := ⟨rfl, Nat.sub_add_cancel (Nat.lt_of_le_of_lt (Nat.zero_le _) hindex), hcontent⟩
  have hfits : (fragmentMeta type busId sent).Fits :=
    hcarries.fits hcount hbus
  have hmeta : (fragmentMeta type busId sent).toMeta = sent := by
    rw [parcelMaxFragments] at hcount
    simp only [FragmentMeta.toMeta, fragmentMeta, hsent, UInt64.toNat_ofNat']
    congr 1 <;> omega
  refine ⟨(fragmentMeta type busId sent).bytes ++ content, fragmentMeta type busId sent, content,
    ?_, rfl, by rw [hmeta], by rwa [hmeta], fun memory' => metaDecode_eq memory' content hfits⟩
  rw [getElem?_payloads, hcontent, Option.map_some]
  exact congrArg some (fragmentPayload_eq context memory hfits)

variable (memory) in
theorem Collecting.foldl
    (hcount : (emitted context.fragmentContentCapacity checksum chunks).length ≤ parcelMaxFragments)
    (hbus : busId.toNat ≤ deliveryMaxBuses) (hchunks : chunks ≠ []) (memory' : ℕ → UInt8)
    (events : List ReceiverEvent) {arrived : List ℕ} {r : ModeReceiver}
    (h : Collecting context checksum ⟨number, sequence, chunks⟩ type arrived r) :
    ∃ arrived', Collecting context checksum ⟨number, sequence, chunks⟩ type arrived'
        (events.foldl (ModeReceiver.step checksum memory'
          (payloads context checksum memory type busId number sequence chunks)) r) ∧
      ∀ index, index ∈ arrived' ↔ index ∈ arrived ∨ .fragment index ∈ events := by
  induction events generalizing arrived r with
  | nil => exact ⟨arrived, h, by simp⟩
  | cons event events ih =>
      cases event with
      | fragment index =>
          have hstep : Collecting context checksum ⟨number, sequence, chunks⟩ type
              (index :: arrived) (ModeReceiver.step checksum memory'
                (payloads context checksum memory type busId number sequence chunks) r
                  (.fragment index)) := by
            by_cases hindex : index <
                (emitted context.fragmentContentCapacity checksum chunks).length
            · obtain ⟨payload, m, content, hpayload, htype, hm, hcarries, hdecode⟩ :=
                exists_payload memory type number sequence hcount hbus hindex
              obtain ⟨view, hview, hload⟩ := hdecode memory'
              simp only [ModeReceiver.step, hpayload]
              rw [← hm]
              exact h.recv htype hcarries hview hload
            · have hbeyond := Nat.le_of_not_lt hindex
              have hnone : (payloads context checksum memory type busId number sequence
                  chunks)[index]? = none := by
                rw [List.getElem?_eq_none_iff, length_payloads]
                exact hbeyond
              simp only [ModeReceiver.step, hnone]
              exact h.beyond hbeyond
          obtain ⟨arrived', hcollecting, harrived⟩ := ih hstep
          refine ⟨arrived', hcollecting, fun other => ?_⟩
          rw [harrived other, List.mem_cons, List.mem_cons]
          rw [ReceiverEvent.fragment.injEq, or_assoc, or_left_comm]
      | task =>
          obtain ⟨arrived', hcollecting, harrived⟩ := ih (h.task hchunks).1
          exact ⟨arrived', hcollecting, fun other => by simp [harrived other]⟩

theorem reassembles_of_length_le
    (hcount : (emitted context.fragmentContentCapacity checksum chunks).length ≤ parcelMaxFragments)
    (hbus : busId.toNat ≤ deliveryMaxBuses) :
    Reassembles checksum (payloads context checksum memory type busId number sequence chunks)
      (bytesOf chunks) := by
  intro memory' first events hfirst
  rw [length_payloads] at hfirst ⊢
  have hchunks : chunks ≠ [] := by
    rintro rfl
    simp [emitted, initFragments, checksumModeOf] at hfirst
  obtain ⟨payload, m, content, hpayload, htype, hm, hcarries, hdecode⟩ :=
    exists_payload memory type number sequence hcount hbus hfirst
  obtain ⟨view, hview, hload⟩ := hdecode memory'
  have hcreate : ModeReceiver.create (viewOf memory' payload) =
      some ((ModeReceiver.init m).addFragment m content) := by
    rw [ModeReceiver.create, hview, Option.map_some, hload]
  obtain ⟨arrived, hcollecting, harrived⟩ :=
    (Collecting.create htype hcarries).foldl memory hcount hbus hchunks memory' events
  refine ⟨_, by simp only [ModeReceiver.run, hpayload, hcreate, Option.map_some],
    hcollecting.collects.failed, ?_, hcollecting.complete hchunks,
    fun hstage lengths hsum => hcollecting.readAll hstage hsum⟩
  rw [hcollecting.waiting_iff]
  apply forall₂_congr
  intro index hindex
  rw [harrived index, hm, List.mem_singleton]

theorem length_le_of_reassembles
    (hcount : (emitted context.fragmentContentCapacity checksum chunks).length ≤
      parcelMaxFragments + 1)
    (hbus : busId.toNat ≤ deliveryMaxBuses)
    (h : Reassembles checksum (payloads context checksum memory type busId number sequence chunks)
      (bytesOf chunks)) :
    (emitted context.fragmentContentCapacity checksum chunks).length ≤ parcelMaxFragments := by
  by_contra hmany
  have hlength : (emitted context.fragmentContentCapacity checksum chunks).length = 65537 := by
    rw [parcelMaxFragments] at hcount hmany
    omega
  obtain ⟨r, hrun, -, hstage, -⟩ := h (fun _ => 0) 0 [] (by rw [length_payloads]; omega)
  rw [length_payloads, hlength] at hstage
  obtain ⟨content, hcontent⟩ : ∃ content,
      (emitted context.fragmentContentCapacity checksum chunks)[0]? = some content :=
    ⟨_, List.getElem?_eq_getElem (by omega)⟩
  have hpayload : (payloads context checksum memory type busId number sequence chunks)[0]? =
      some (fragmentPayload context memory type busId (⟨sequence, 0, 65536⟩, content)) := by
    rw [getElem?_payloads, hcontent, Option.map_some, hlength]
  set sent : Meta := ⟨sequence, 0, 65536⟩ with hsent
  rw [ModeReceiver.run, hpayload] at hrun
  cases hencoded : fragmentPayload context memory type busId (sent, content) with
  | none =>
      rw [hencoded] at hrun
      cases hrun
  | some payload =>
      rw [hencoded] at hrun
      obtain rfl := eq_of_fragmentPayload hencoded
      have hbusId : (fragmentMeta type busId sent).busId.toNat < 65536 :=
        Nat.lt_of_le_of_lt hbus (by decide)
      obtain ⟨other, view, hdecode⟩ := metaDecode_overflow (fun _ => 0) content hbusId rfl rfl
      simp only [ModeReceiver.create, hdecode, Option.map_some, List.foldl_nil,
        Option.some.injEq] at hrun
      subst hrun
      -- one slot, filled by the first fragment
      have hwaiting := hstage.mp (by
        simp [ModeReceiver.addFragment, ModeReceiver.init, FragmentMeta.toMeta, Receiver.init,
          Receiver.addFragment, Receiver.next]) 1 (by decide)
      simp at hwaiting

/-- What was written to a fresh parcel is put together again from its payloads, whatever
their order and however often each arrives, if and only if its bytes and their checksum
take at most 65536 fragments. -/
theorem reassembles_iff (context : Context) (checksum : Checksum) (acquired : ℕ → Bool)
    (writes : List Bytes) (chunks : List Chunk)
    (hwritten : writeAll context acquired writes = some chunks) (memory : ℕ → UInt8)
    (type : FragmentType) (busId : UInt64) (hbus : busId.toNat ≤ deliveryMaxBuses) (number : ℕ)
    (sequence : UInt64) :
    Reassembles checksum (payloads context checksum memory type busId number sequence chunks)
        writes.flatten ↔
      ChecksumFits parcelMaxFragments context.chunkCapacity writes.flatten.length := by
  obtain ⟨hpacked, hbytes⟩ := writeAll_packed hwritten
  have hchunks := hpacked.count.trans context.maxFragments_le
  rw [← hbytes, ← hpacked.length_emitted_le_iff checksum hchunks]
  constructor
  · apply length_le_of_reassembles _ hbus
    rw [length_emitted, length_initFragments]
    split <;> omega
  · intro hcount
    exact reassembles_of_length_le hcount hbus

/-- The configuration of the default packets, with parcels of as many fragments as a
context may have. -/
def largestContext : Context where
  fragmentContentCapacity := 1185
  maxFragments := 65536
  bufferCapacity := 1225
  content_pos := sampleContext.content_pos
  content_lt := sampleContext.content_lt
  maxFragments_le := by decide
  meta_le := sampleContext.meta_le

/-- 77660160 bytes, 65536 times 1185. -/
def largestBytes : Bytes := List.replicate 77660160 0

theorem length_largestBytes : largestBytes.length = 77660160 := List.length_replicate

/-- The 65536 full chunks that hold them. -/
def largestChunks : List Chunk := chunksOf largestContext (fun _ => true) largestBytes

theorem writeAll_largestChunks :
    writeAll largestContext (fun _ => true) [largestBytes] = some largestChunks :=
  writeAll_singleton _ (fun _ => rfl) (by rw [length_largestBytes]; decide)

/-- The checksum of 65536 full chunks is fragment number 65536, which the metas cannot
say. -/
theorem largestChunks_not_reassembled :
    ¬ Reassembles Channel.sampleChecksum
      (payloads largestContext Channel.sampleChecksum (fun _ => 0) .reliable 1 0 1 largestChunks)
      [largestBytes].flatten := by
  obtain ⟨hpacked, hbytes⟩ := writeAll_packed writeAll_largestChunks
  intro h
  rw [← hbytes] at h
  have hchunks : largestChunks.length ≤ parcelMaxFragments :=
    hpacked.count.trans largestContext.maxFragments_le
  have hcount := length_le_of_reassembles (by
    rw [length_emitted, length_initFragments]
    split <;> omega) (by decide) h
  rw [hpacked.length_emitted_le_iff Channel.sampleChecksum hchunks, hbytes, List.flatten_cons,
    List.flatten_nil, List.append_nil, length_largestBytes] at hcount
  exact absurd hcount (by decide)

theorem reassembles_iff_largestChunks :
    Reassembles Channel.sampleChecksum
      (payloads largestContext Channel.sampleChecksum (fun _ => 0) .reliable 1 0 1 largestChunks)
        [largestBytes].flatten ↔
      ChecksumFits parcelMaxFragments largestContext.chunkCapacity [largestBytes].flatten.length :=
  reassembles_iff largestContext Channel.sampleChecksum (fun _ => true) [largestBytes]
    largestChunks writeAll_largestChunks (fun _ => 0) .reliable 1 (by decide) 0 1

end Payloads

end Delivery

end PomeloUdp
