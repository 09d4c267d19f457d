import PomeloUdp.Api.MessageRead
import PomeloUdp.Delivery.Reassembly
import PomeloUdp.Protocol.PacketRoundTrip

/-!
# A message on its way

A message is written value by value, cut into fragments, and every fragment travels in a
datagram of its own: behind its meta, in the body of a payload packet, encrypted. The other
side opens the datagrams, collects the fragments, and reads the values from the parcel that they
make. `readValues_transfer` says that the values are the written ones, whatever datagrams are
lost, repeated or overtaken by others.

A dispatcher puts the checksum in a view of its own behind the content of the last fragment
(`fragmentViews`). The receiver cuts it off again, so the last fragment may be left without
content, but no other one is (`Firm`), and the reader of the parcel never stands before an
empty chunk.
-/

namespace PomeloUdp

namespace Api

open Delivery Codec Memory Aead

/-- The two ends of a connection, which share a key and the protocol. The tokens are what
the packets of the receiver held before. -/
structure Connection where
  order : ByteOrder
  cipher : PacketCipher
  tokenCipher : TokenCipher
  sender : CryptoContext
  receiver : CryptoContext
  key : receiver.packetDecryptKey = sender.packetEncryptKey
  protocolId : receiver.protocolId = sender.protocolId
  noEncrypt : Bool
  oldToken : ConnectToken
  oldChallenge : ChallengeToken

namespace Connection

variable (c : Connection)

/-- `sender_process_entry` for a payload, in a buffer that held `memory` before. -/
def datagram (memory : ℕ → UInt8) (sequence : UInt64) (views : List Bytes) : Option Bytes :=
  (senderProcessEntry c.cipher c.sender ⟨memory, bufferCapacity, 0, 0⟩ c.noEncrypt
    ⟨sequence, .payload views⟩).map fun view => load view.memory view.offset view.length

/-- `pomelo_protocol_socket_validate_incoming` and `receiver_process_entry`: the view that
`pomelo_protocol_socket_recv_payload` hands on. -/
def openPayload (memory : ℕ → UInt8) (datagram : Bytes) : Option Bytes :=
  (validateIncoming ⟨store memory 0 datagram, bufferCapacity, 0, datagram.length⟩
    (!c.noEncrypt)).bind fun r =>
      (receiverProcessEntry c.order c.cipher c.tokenCipher c.receiver r.2 c.noEncrypt r.1
        c.oldToken c.oldChallenge).bind fun packet =>
          match packet.2 with
          | .payload views => views.head?
          | _ => none

theorem openPayload_datagram (memory memory' : ℕ → UInt8) (sequence : UInt64)
    {views : List Bytes} (hcount : views.length ≤ payloadMaxViews)
    (hnonempty : 1 ≤ views.flatten.length)
    (hfits : views.flatten.length ≤ packetBodyCapacity) :
    ((c.datagram memory sequence views).bind fun datagram => c.openPayload memory' datagram) =
      some views.flatten := by
  set packet : OutgoingPacket := ⟨sequence, .payload views⟩ with hpacket
  have hcarries : Codec.Carries c.order c.cipher c.tokenCipher c.sender c.receiver c.oldToken
      packet.body (.payload [views.flatten]) := .payload views hcount hnonempty hfits
  rw [datagram, senderProcessEntry_eq c.cipher c.noEncrypt packet memory hfits, Option.map_some,
    Option.bind_some, load_store, openPayload, validateIncoming_eq hcarries, Option.bind_some,
    receiverProcessEntry_eq hcarries c.key c.protocolId, Option.bind_some]
  rfl

end Connection

/-- The views that `pomelo_delivery_dispatcher_send` hands to the endpoint for a fragment: the
meta, the content and, behind the last fragment in the embedded mode, the checksum. -/
def fragmentViews (context : Context) (checksum : Checksum) (memory : ℕ → UInt8)
    (type : FragmentType) (busId sequence : UInt64) (chunks : List Chunk) (index : ℕ) :
    Option (List Bytes) :=
  let mode := checksumModeOf context.fragmentContentCapacity chunks
  let computed := checksum.digest (bytesOf chunks)
  let fragments := initFragments mode computed chunks
  fragments[index]?.bind fun fragment =>
    ((fragmentMeta type busId ⟨sequence, index, fragments.length - 1⟩).metaEncode
      ⟨memory, context.bufferCapacity, 0, 0⟩).map fun view =>
        [load view.memory view.offset view.length, fragment.content] ++
          if index + 1 = fragments.length ∧ mode = .embedded then [computed] else []

/-- The parcel on its way: what the dispatcher and the receiver have of it. -/
structure Shipment where
  context : Context
  checksum : Checksum
  type : FragmentType
  busId : UInt64
  sequence : UInt64
  chunks : List Chunk

/-- A datagram with a fragment arrives, in a packet with some sequence number, or the next
task of the pipeline of the receiver runs. The buffers on the way held `memory` before. -/
inductive TransferEvent where
  | datagram (index : ℕ) (sequence : UInt64) (memory : ℕ → UInt8)
  | task

namespace Shipment

variable (p : Shipment) (c : Connection)

/-- What travels behind the metas. -/
def contents : List Bytes := emitted p.context.fragmentContentCapacity p.checksum p.chunks

/-- The payload of a fragment at the other end of the connection. -/
def arriving (index : ℕ) (sequence : UInt64) (memory : ℕ → UInt8) : Option Bytes :=
  (fragmentViews p.context p.checksum memory p.type p.busId p.sequence p.chunks index).bind
    fun views => (c.datagram memory sequence views).bind (c.openPayload memory)

/-- One event at the other end, where the parcel has a receiver from its first fragment on. -/
def step (s : Option ModeReceiver) : TransferEvent → Option ModeReceiver
  | .datagram index sequence memory =>
      match p.arriving c index sequence memory with
      | none => s
      | some payload =>
          if (recvMeta p.context (viewOf memory payload)).isNone then s
          else
            match s with
            | none => ModeReceiver.create (viewOf memory payload)
            | some r => some (r.recv (viewOf memory payload))
  | .task => s.map (ModeReceiver.task p.checksum)

/-- The receiver after some events. -/
def run (events : List TransferEvent) : Option ModeReceiver := events.foldl (p.step c) none

/-- The message that `pomelo_session_on_received` makes of a complete receiver. -/
def received (s : Option ModeReceiver) : Option ReadMessage :=
  s.bind fun r =>
    if r.receiver.stage = .complete ∧ r.receiver.failed = false then
      some (ReadMessage.init (setFragments r.receiver.fragments))
    else none

/-- A datagram with the fragment arrives. -/
def Arrives (events : List TransferEvent) (index : ℕ) : Prop :=
  ∃ sequence memory, .datagram index sequence memory ∈ events

end Shipment

section Views

variable {context : Context} {checksum : Checksum} {memory : ℕ → UInt8} {type : FragmentType}
  {busId sequence : UInt64} {chunks : List Chunk} {index : ℕ}

theorem fragmentViews_eq {content payload : Bytes}
    (hcontent : (emitted context.fragmentContentCapacity checksum chunks)[index]? = some content)
    (hpayload : fragmentPayload context memory type busId
      (⟨sequence, index, (emitted context.fragmentContentCapacity checksum chunks).length - 1⟩,
        content) = some payload) :
    ∃ views, fragmentViews context checksum memory type busId sequence chunks index = some views ∧
      views.length ≤ payloadMaxViews ∧ views.flatten = payload := by
  rw [length_emitted] at hpayload
  simp only [emitted, List.getElem?_mapIdx, Option.map_eq_some_iff] at hcontent
  obtain ⟨fragment, hfragment, hcontent⟩ := hcontent
  obtain ⟨view, hview, hpayload⟩ := Option.map_eq_some_iff.mp hpayload
  simp only [fragmentViews, hfragment, Option.bind_some]
  rw [hview, Option.map_some]
  refine ⟨_, rfl, ?_, ?_⟩
  · split
    · exact (by decide : 3 ≤ payloadMaxViews)
    · exact (by decide : 2 ≤ payloadMaxViews)
  · rw [← hpayload, ← hcontent, Delivery.payload]
    split <;> simp

theorem ne_nil_of_mem_initFragments (hpacked : Packed context chunks) {mode : ChecksumMode}
    {fragment : Fragment}
    (hfragment : fragment ∈ initFragments mode (checksum.digest (bytesOf chunks)) chunks) :
    fragment.content ≠ [] := by
  rw [initFragments, List.mem_append, List.mem_map] at hfragment
  rcases hfragment with ⟨chunk, hchunk, rfl⟩ | hfragment
  · exact List.ne_nil_of_length_pos (hpacked.bounds chunk hchunk).1
  · split at hfragment
    · rw [List.mem_singleton.mp hfragment]
      apply List.ne_nil_of_length_pos
      rw [checksum.length_digest]
      decide
    · cases hfragment

theorem ne_nil_of_mem_emitted (hpacked : Packed context chunks) {content : Bytes}
    (hcontent : content ∈ emitted context.fragmentContentCapacity checksum chunks) :
    content ≠ [] := by
  simp only [emitted, List.mem_mapIdx] at hcontent
  obtain ⟨index, hindex, rfl⟩ := hcontent
  have hfragment := ne_nil_of_mem_initFragments hpacked (List.getElem_mem hindex)
  rw [payload]
  split
  · exact List.append_ne_nil_of_left_ne_nil hfragment _
  · exact hfragment

end Views

/-- Every fragment that arrived holds something, unless it is the last one. -/
def Firm (r : Receiver) : Prop := ∀ content, some content ∈ r.fragments.dropLast → content ≠ []

namespace Firm

variable {r : Receiver} {m : Meta} {content : Bytes}

theorem addFragment (h : Firm r) (hcontent : content ≠ []) :
    Firm (r.addFragment m content) := by
  obtain ⟨-, hsame⟩ | ⟨-, -, -, hset, -⟩ := r.addFragment_cases m content
  · rwa [hsame]
  · intro other hother
    rw [hset, List.dropLast_eq_take, List.length_set, List.take_set] at hother
    rcases List.mem_or_eq_of_mem_set hother with hbefore | hnew
    · rw [← List.dropLast_eq_take] at hbefore
      exact h other hbefore
    · rw [Option.some.inj hnew]
      exact hcontent

theorem init (m : Meta) : Firm (Receiver.init m) := by
  intro content hcontent
  have hmem := List.mem_of_mem_dropLast hcontent
  rw [Receiver.init, List.mem_replicate] at hmem
  cases hmem.2

theorem verifyChecksum (h : Firm r) : Firm (r.verifyChecksum true) := by
  unfold Receiver.verifyChecksum
  split
  · unfold Receiver.next
    split <;> exact h
  · split
    · exact h
    next embedded fragments hsplit =>
      intro content hcontent
      rw [if_pos rfl] at hcontent
      unfold splitChecksum at hsplit
      split at hsplit
      · split at hsplit
        · cases hsplit
        · simp only [Option.some.injEq, Prod.mk.injEq] at hsplit
          rw [← hsplit.2, List.dropLast_concat] at hcontent
          exact h content hcontent
      · cases hsplit

theorem verifyChecksumComplete (h : Firm r) (checksum : Checksum) (embedded : Bytes) :
    Firm (r.verifyChecksumComplete checksum embedded true) := by
  rw [Receiver.verifyChecksumComplete, if_pos rfl]
  split
  · unfold Receiver.next
    split <;> exact h
  · exact h

theorem task {r : ModeReceiver} (h : Firm r.receiver) (checksum : Checksum) :
    Firm (r.task checksum).receiver := by
  unfold ModeReceiver.task
  split
  · exact h.verifyChecksum
  · exact h.verifyChecksumComplete checksum _
  · exact h

theorem tight (h : Firm r) (hall : ∀ f ∈ r.fragments, f.isSome) :
    Tight (setFragments r.fragments) := by
  obtain ⟨contents, hcontents⟩ : ∃ contents : List Bytes, r.fragments = contents.map some := by
    refine ⟨r.fragments.map (·.getD []), ?_⟩
    rw [List.map_map]
    conv_lhs => rw [← List.map_id r.fragments]
    refine List.map_congr_left fun f hf => ?_
    obtain ⟨content, rfl⟩ := Option.isSome_iff_exists.mp (hall f hf)
    rfl
  rw [hcontents, tight_setFragments]
  obtain rfl | ⟨front, last, rfl⟩ := contents.eq_nil_or_concat'
  · exact List.Pairwise.nil
  · rw [Tight, List.pairwise_append]
    refine ⟨tight_of_ne_nil ?_, List.pairwise_singleton _ _, ?_⟩ <;>
      intro content hcontent
    · exact h content (by
        rw [hcontents, List.map_append, List.map_singleton, List.dropLast_concat]
        exact List.mem_map_of_mem hcontent)
    · intro other _ hnil
      refine absurd hnil (h content ?_)
      rw [hcontents, List.map_append, List.map_singleton, List.dropLast_concat]
      exact List.mem_map_of_mem hcontent

end Firm

namespace Shipment

variable {p : Shipment} {c : Connection} {index : ℕ}

/-- Every fragment of the parcel fits into a packet, and the other end takes it. -/
structure Sendable (p : Shipment) : Prop where
  capacity : p.context.fragmentContentCapacity + maxFragmentMetaDataBytes ≤ packetBodyCapacity
  packed : Packed p.context p.chunks
  count : p.contents.length ≤ p.context.maxFragments
  bus : p.busId.toNat ≤ deliveryMaxBuses

/-- The parcel that a receiver collects. -/
def parcel (p : Shipment) : Parcel := ⟨0, p.sequence, p.chunks⟩

theorem Sendable.arriving (h : p.Sendable) (c : Connection) (hindex : index < p.contents.length)
    (sequence : UInt64) (memory : ℕ → UInt8) :
    ∃ (payload : Bytes) (m : FragmentMeta) (view : BufferView) (content : Bytes),
      p.arriving c index sequence memory = some payload ∧
      recvMeta p.context (viewOf memory payload) = some (m, view) ∧
      load view.memory view.offset view.length = content ∧ content ≠ [] ∧ m.type = p.type ∧
      m.toMeta.fragmentIndex = index ∧
      Carries p.context.fragmentContentCapacity p.checksum p.parcel m.toMeta content := by
  obtain ⟨content, hcontent⟩ : ∃ content, p.contents[index]? = some content :=
    ⟨_, List.getElem?_eq_getElem hindex⟩
  set sent : Meta := ⟨p.sequence, index, p.contents.length - 1⟩ with hsent
  have hcarries : Carries p.context.fragmentContentCapacity p.checksum p.parcel sent content :=
    ⟨rfl, Nat.sub_add_cancel (Nat.lt_of_le_of_lt (Nat.zero_le _) hindex), hcontent⟩
  have hmeta : (fragmentMeta p.type p.busId sent).toMeta = sent := by
    have hcount := h.count.trans p.context.maxFragments_le
    rw [parcelMaxFragments] at hcount
    simp only [FragmentMeta.toMeta, fragmentMeta, hsent, UInt64.toNat_ofNat']
    congr 1 <;> omega
  obtain ⟨payload, hpayload, hfits, view, hrecv, hload⟩ :=
    Carries.receivable (x := (sent, content)) hcarries h.capacity h.packed h.count h.bus memory
      memory
  obtain ⟨views, hviews, hlength, hflatten⟩ := fragmentViews_eq hcontent hpayload
  have hnonempty : 1 ≤ payload.length := by
    rw [eq_of_fragmentPayload hpayload, FragmentMeta.bytes]
    simp
  refine ⟨payload, fragmentMeta p.type p.busId sent, view, content, ?_, hrecv, hload,
    ne_nil_of_mem_emitted h.packed (List.mem_of_getElem? hcontent), rfl, by rw [hmeta],
    by rwa [hmeta]⟩
  rw [Shipment.arriving, hviews, Option.bind_some]
  have hopen := c.openPayload_datagram memory memory sequence hlength (by rwa [hflatten])
    (by rwa [hflatten])
  rw [hflatten] at hopen
  exact hopen

theorem arriving_of_le (hindex : p.contents.length ≤ index) (c : Connection) (sequence : UInt64)
    (memory : ℕ → UInt8) : p.arriving c index sequence memory = none := by
  rw [contents, length_emitted] at hindex
  rw [Shipment.arriving, fragmentViews]
  simp only [List.getElem?_eq_none hindex, Option.bind_none]

/-- What the other end has of the parcel once some fragments have arrived. -/
def Collected (p : Shipment) (arrived : List ℕ) : Option ModeReceiver → Prop
  | none => ∀ index < p.contents.length, index ∉ arrived
  | some r => Collecting p.context p.checksum p.parcel p.type arrived r ∧ Firm r.receiver

theorem Collected.datagram (h : p.Sendable) {arrived : List ℕ} {s : Option ModeReceiver}
    (hs : p.Collected arrived s) (index : ℕ) (sequence : UInt64) (memory : ℕ → UInt8) :
    p.Collected (index :: arrived) (p.step c s (.datagram index sequence memory)) := by
  by_cases hindex : index < p.contents.length
  · obtain ⟨payload, m, view, content, harriving, hrecv, hload, hnonempty, htype, hm, hcarries⟩ :=
      h.arriving c hindex sequence memory
    have hdecode : metaDecode (viewOf memory payload) = some (m, view) := by
      obtain ⟨r, hr, hlimit⟩ := Option.bind_eq_some_iff.mp hrecv
      split at hlimit
      · cases hlimit
      · rw [hr, hlimit]
    simp only [step, harriving, hrecv, Option.isNone_some, Bool.false_eq_true, if_false]
    cases s with
    | none =>
        rw [ModeReceiver.create, hdecode, Option.map_some, hload]
        refine ⟨?_, (Firm.init m.toMeta).addFragment hnonempty⟩
        have hcreated : Collecting p.context p.checksum p.parcel p.type _ _ :=
          Collecting.create htype hcarries
        refine ⟨hcreated.type, hcreated.collects, fun other hother => ?_⟩
        rw [hcreated.holds other hother, hm, List.mem_singleton, List.mem_cons]
        rw [hcreated.collects.length] at hother
        exact ⟨Or.inl, fun hor => hor.resolve_right (hs other hother)⟩
    | some r =>
        refine ⟨hm ▸ hs.1.recv htype hcarries hdecode hload, ?_⟩
        rw [ModeReceiver.recv, hdecode]
        dsimp only
        split
        · exact hload ▸ hs.2.addFragment (hload ▸ hnonempty)
        · exact hs.2
  · have hbeyond := Nat.le_of_not_lt hindex
    simp only [step, arriving_of_le hbeyond]
    cases s with
    | none =>
        intro other hother
        rw [List.mem_cons, not_or]
        exact ⟨fun heq => hindex (heq ▸ hother), hs other hother⟩
    | some r => exact ⟨hs.1.beyond hbeyond, hs.2⟩

theorem Collected.task (hchunks : p.chunks ≠ []) {arrived : List ℕ} {s : Option ModeReceiver}
    (hs : p.Collected arrived s) : p.Collected arrived (p.step c s .task) := by
  cases s with
  | none => exact hs
  | some r => exact ⟨(hs.1.task hchunks).1, hs.2.task p.checksum⟩

/-- After every sequence of events. -/
theorem collected_run (h : p.Sendable) (hchunks : p.chunks ≠ []) (c : Connection)
    (events : List TransferEvent) :
    ∃ arrived, p.Collected arrived (p.run c events) ∧
      ∀ index, index ∈ arrived ↔ Arrives events index := by
  have hfrom : ∀ (events : List TransferEvent) (s : Option ModeReceiver) (arrived : List ℕ),
      p.Collected arrived s → ∃ arrived', p.Collected arrived' (events.foldl (p.step c) s) ∧
        ∀ index, index ∈ arrived' ↔ index ∈ arrived ∨ Arrives events index := by
    intro events
    induction events with
    | nil => exact fun s arrived hs => ⟨arrived, hs, by simp [Arrives]⟩
    | cons event events ih =>
        intro s arrived hs
        cases event with
        | datagram index sequence memory =>
            obtain ⟨arrived', hcollected, harrived⟩ := ih _ _ (hs.datagram h index sequence memory)
            refine ⟨arrived', hcollected, fun other => ?_⟩
            rw [harrived other, List.mem_cons]
            constructor
            · rintro ((rfl | hbefore) | ⟨sequence', memory', hmem⟩)
              · exact .inr ⟨sequence, memory, List.mem_cons_self⟩
              · exact .inl hbefore
              · exact .inr ⟨sequence', memory', List.mem_cons_of_mem _ hmem⟩
            · rintro (hbefore | ⟨sequence', memory', hmem⟩)
              · exact .inl (.inr hbefore)
              · rcases List.mem_cons.mp hmem with heq | hmem
                · injection heq with hindex
                  exact .inl (.inl hindex)
                · exact .inr ⟨sequence', memory', hmem⟩
        | task =>
            obtain ⟨arrived', hcollected, harrived⟩ := ih _ _ (hs.task hchunks)
            refine ⟨arrived', hcollected, fun other => ?_⟩
            rw [harrived other]
            simp [Arrives]
  obtain ⟨arrived, hcollected, harrived⟩ := hfrom events none [] (by simp [Collected])
  exact ⟨arrived, hcollected, fun index => by simp [harrived index]⟩

theorem Collected.ahead {arrived : List ℕ} {s : Option ModeReceiver}
    (hs : p.Collected arrived s) {m : ReadMessage} (hm : received s = some m) :
    m.Ahead (bytesOf p.chunks) := by
  cases s with
  | none => cases hm
  | some r =>
      rw [Shipment.received, Option.bind_some] at hm
      split at hm
      next hcomplete =>
        obtain rfl := Option.some.inj hm
        have hbytes : (setFragments r.receiver.fragments).flatten = bytesOf p.chunks :=
          congrArg Prod.snd (hs.1.collects.delivery hcomplete.1)
        rw [← hbytes]
        refine ReadMessage.Ahead.init (hs.2.tight ?_)
        exact hs.1.collects.complete_fragments (by simp [hcomplete.1])
      next => cases hm

theorem Collected.complete (hchunks : p.chunks ≠ []) {arrived : List ℕ} {s : Option ModeReceiver}
    (hs : p.Collected arrived s) (hall : ∀ index < p.contents.length, index ∈ arrived)
    (hcontents : p.contents ≠ []) :
    ∃ m, received (p.step c (p.step c s .task) .task) = some m := by
  cases s with
  | none =>
      have hpos := List.length_pos_iff.mpr hcontents
      exact absurd (hall 0 hpos) (hs 0 hpos)
  | some r =>
      have hcomplete := hs.1.complete hchunks (hs.1.waiting_iff.mpr hall)
      have hfailed := ((hs.1.task hchunks).1.task hchunks).1.collects.failed
      exact ⟨_, if_pos ⟨hcomplete, hfailed⟩⟩

end Shipment

/-- The parcel of a message that is sent. -/
def Message.ship (m : Message) (checksum : Checksum) (type : FragmentType)
    (busId sequence : UInt64) : Shipment where
  context := m.context.delivery.toContext
  checksum := checksum
  type := type
  busId := busId
  sequence := sequence
  chunks := m.writer.chunks

theorem Message.Written.sendable {capacity : UInt64} {context : MessageContext}
    (hcontext : MessageContext.rootCreate capacity = some context) {m : Message} {bytes : Bytes}
    (hm : m.Written context bytes)
    (hfits : ChecksumFits context.delivery.maxFragments 1185 bytes.length)
    (checksum : Checksum) (type : FragmentType) {busId : UInt64}
    (hbus : busId.toNat ≤ deliveryMaxBuses) (sequence : UInt64) :
    (m.ship checksum type busId sequence).Sendable := by
  obtain ⟨hcapacity, hchunk, -⟩ := rootCreate_eq hcontext
  have hsame : (m.ship checksum type busId sequence).context = context.delivery.toContext :=
    congrArg (fun context => context.delivery.toContext) hm.same
  have hpacked : Packed (m.ship checksum type busId sequence).context
      (m.ship checksum type busId sequence).chunks := hsame ▸ hm.packed
  refine ⟨?_, hpacked, ?_, hbus⟩
  · rw [hsame, hcapacity]
    decide
  · rw [← hm.content] at hfits
    refine (hpacked.length_emitted_le_iff checksum hpacked.count).mpr ?_
    rw [hsame, hchunk]
    exact hfits

/-- The values written to a new message come out at the other end of a connection. Whatever
datagrams are lost, repeated, reordered or sent again in other packets, a message that arrives
gives back these values to the reads that go with them, and none behind them; and it arrives two
tasks after the last missing fragment. -/
theorem readValues_transfer {capacity : UInt64} {context : MessageContext}
    (hcontext : MessageContext.rootCreate capacity = some context) (acquired : ℕ → Bool)
    (writes : List MessageWrite) (m : Message)
    (hwritten : (Message.init context [] (by simp)).performAll acquired writes = some m)
    (hbytes : writes.flatMap MessageWrite.bytes ≠ [])
    (hfits : ChecksumFits context.delivery.maxFragments 1185
      (writes.flatMap MessageWrite.bytes).length)
    (checksum : Checksum) (type : FragmentType) (busId sequence : UInt64)
    (hbus : busId.toNat ≤ deliveryMaxBuses) (c : Connection) (events : List TransferEvent) :
    let p := m.ship checksum type busId sequence
    (∀ received, Shipment.received (p.run c events) = some received →
      ∃ rest, received.readValues (writes.map MessageWrite.toRead) = .ok writes rest ∧
        ∀ length, 0 < length → rest.readBuffer length = .messageUnderflow rest) ∧
    ((∀ index < p.contents.length, Shipment.Arrives events index) →
      ∃ received, Shipment.received (p.run c (events ++ [.task, .task])) = some received) := by
  intro p
  have hm := Message.Written.init.performAll hwritten
  rw [List.nil_append] at hm
  have hsendable : p.Sendable := hm.sendable hcontext hfits checksum type hbus sequence
  have hcontent : bytesOf p.chunks = writes.flatMap MessageWrite.bytes := hm.content
  have hchunks : p.chunks ≠ [] := by
    intro hnil
    rw [hnil] at hcontent
    exact hbytes hcontent.symm
  have hcontents : p.contents ≠ [] := by
    intro hnil
    have hlength := length_emitted p.context.fragmentContentCapacity p.checksum p.chunks
    rw [show emitted _ _ _ = [] from hnil, length_initFragments] at hlength
    have hpos := List.length_pos_iff.mpr hchunks
    rw [List.length_nil] at hlength
    omega
  obtain ⟨arrived, hcollected, harrived⟩ := Shipment.collected_run hsendable hchunks c events
  constructor
  · intro received hreceived
    have hahead := hcollected.ahead hreceived
    rw [hcontent, ← List.append_nil (writes.flatMap _)] at hahead
    obtain ⟨rest, hvalues, hrest⟩ := hahead.readValues
    exact ⟨rest, hvalues, fun length hlength => hrest.readBuffer_of_lt hlength⟩
  · intro hall
    rw [Shipment.run, List.foldl_append]
    exact hcollected.complete hchunks (fun index hindex => (harrived index).mpr (hall index hindex))
      hcontents

/-- A connection whose keys are all zero. -/
def sampleConnection : Connection where
  order := .littleEndian
  cipher := Cipher.plain _ _ _
  tokenCipher := Cipher.plain _ _ _
  sender := sampleContext
  receiver := sampleContext
  key := rfl
  protocolId := rfl
  noEncrypt := false
  oldToken := sampleToken
  oldChallenge := ⟨0, .replicate 256 0⟩

/-- Two numbers and two thousand bytes, which take two fragments. -/
def sampleWrites : List MessageWrite :=
  [.uint16 258, .buffer (List.replicate 2000 7), .int64 (-1)]

/-- The datagrams of every fragment that there can be, the last one first. -/
def sampleEvents : List TransferEvent :=
  (List.range 56).reverse.map fun index => .datagram index (UInt64.ofNat index) fun _ => 0

theorem readValues_transfer_sampleWrites :
    ∃ m received rest,
      (Message.init defaultContext [] (by simp)).performAll (fun _ => true) sampleWrites = some m ∧
      Shipment.received ((m.ship Channel.sampleChecksum .reliable 1 1).run sampleConnection
        (sampleEvents ++ [.task, .task])) = some received ∧
      received.readValues [.uint16, .buffer 2000, .int64] = .ok sampleWrites rest := by
  have hlength : (sampleWrites.flatMap MessageWrite.bytes).length = 2010 := by
    simp [sampleWrites, MessageWrite.bytes, -List.reduceReplicate]
  have hreads : sampleWrites.map MessageWrite.toRead = [.uint16, .buffer 2000, .int64] := by
    simp [sampleWrites, MessageWrite.toRead, -List.reduceReplicate]
  have hnew : (Message.init defaultContext [] (by simp)).Written defaultContext [] :=
    Message.Written.init
  obtain ⟨m, hm⟩ := hnew.performAll_of_le sampleWrites (fun _ => rfl)
    (by rw [hlength]; decide) (by decide)
  have hbytes : sampleWrites.flatMap MessageWrite.bytes ≠ [] :=
    List.ne_nil_of_length_pos (by rw [hlength]; decide)
  have hfits : ChecksumFits defaultContext.delivery.maxFragments 1185
      (sampleWrites.flatMap MessageWrite.bytes).length := by
    rw [hlength]
    decide
  have hwritten := hnew.performAll hm
  have hcount : (m.ship Channel.sampleChecksum .reliable 1 1).contents.length ≤
      m.context.delivery.maxFragments :=
    (hwritten.sendable rootCreate_zero hfits Channel.sampleChecksum .reliable (by decide) 1).count
  rw [hwritten.same] at hcount
  have hsample := readValues_transfer rootCreate_zero (fun _ => true) sampleWrites m hm hbytes
    hfits Channel.sampleChecksum .reliable 1 1 (by decide) sampleConnection
  obtain ⟨received, hreceived⟩ := (hsample sampleEvents).2 (by
    intro index hindex
    have hlt : index < 56 := Nat.lt_of_lt_of_le hindex hcount
    exact ⟨UInt64.ofNat index, fun _ => 0, List.mem_map_of_mem (by simpa using hlt)⟩)
  obtain ⟨rest, hrest, -⟩ := (hsample (sampleEvents ++ [.task, .task])).1 received hreceived
  rw [hreads] at hrest
  exact ⟨m, received, rest, hm, hreceived, hrest⟩

end Api

end PomeloUdp
