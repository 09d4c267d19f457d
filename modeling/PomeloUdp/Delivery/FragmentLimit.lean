import PomeloUdp.Delivery.FragmentMeta
import PomeloUdp.Delivery.Parcel
import PomeloUdp.Delivery.ReliableDelivery

/-!
# What can be sent and what can be received

A receiving endpoint refuses a fragment whose last index reaches `maxFragments`. The
writer keeps the chunks of a parcel within `maxFragments`, but a checksum with no room
in the last chunk takes one fragment more. `receivable_iff` says for which parcels every
fragment is received as it was sent.
-/

namespace PomeloUdp

namespace Delivery

open Memory Codec FragmentMeta

/-- `POMELO_DELIVERY_MAX_BUSES`. -/
def deliveryMaxBuses : ℕ := 65535

/-- The meta that `pomelo_delivery_dispatcher_send` encodes for a fragment. -/
def fragmentMeta (type : FragmentType) (busId : UInt64) (m : Meta) : FragmentMeta where
  type := type
  busId := busId
  fragmentIndex := .ofNat m.fragmentIndex
  lastIndex := .ofNat m.lastIndex
  sequence := m.sequence

/-- The payload that `pomelo_delivery_dispatcher_send` hands to the protocol for a
fragment: the meta in a buffer of its own and the content behind it. -/
def fragmentPayload (context : Context) (memory : ℕ → UInt8) (type : FragmentType)
    (busId : UInt64) (x : Meta × Bytes) : Option Bytes :=
  ((fragmentMeta type busId x.1).metaEncode ⟨memory, context.bufferCapacity, 0, 0⟩).map
    fun view => load view.memory view.offset view.length ++ x.2

/-- `pomelo_delivery_endpoint_recv` up to the limit on the last index. -/
def recvMeta (context : Context) (view : BufferView) : Option (FragmentMeta × BufferView) :=
  (metaDecode view).bind fun r =>
    if context.maxFragments ≤ r.1.lastIndex.toNat then none else some r

/-- A fragment fits into a payload of the protocol, and the receiving endpoint takes it
for what it is. -/
def Receivable (context : Context) (type : FragmentType) (busId : UInt64) (x : Meta × Bytes) :
    Prop :=
  ∀ memory memory' : ℕ → UInt8, ∃ payload,
    fragmentPayload context memory type busId x = some payload ∧
    payload.length ≤ packetBodyCapacity ∧
    ∃ view, recvMeta context (viewOf memory' payload) = some (fragmentMeta type busId x.1, view) ∧
      load view.memory view.offset view.length = x.2

/-- With chunks of the capacity, `length` bytes and their checksum take at most `limit`
fragments: they need no checksum, they leave a fragment for it, or the last chunk has
room for it. -/
def ChecksumFits (limit capacity length : ℕ) : Prop :=
  length ≤ capacity ∨ length ≤ (limit - 1) * capacity ∨ length + checksumBytes ≤ limit * capacity

instance (limit capacity length : ℕ) : Decidable (ChecksumFits limit capacity length) := by
  unfold ChecksumFits
  infer_instance

section Emitted

variable {context : Context} {checksum : Checksum} {chunks : List Chunk}

theorem Packed.checksumModeOf_eq_extra_iff {front : List Chunk} {last : Chunk}
    (h : Packed context (front ++ [last])) :
    checksumModeOf context.fragmentContentCapacity (front ++ [last]) = .extra ↔
      1 ≤ front.length ∧ context.chunkCapacity < last.content.length + checksumBytes := by
  have hcapacity := h.capacity last (by simp)
  have hle := (h.last last (by simp)).2
  have hsize := context.content_lt
  have hmin : min context.fragmentContentCapacity last.capacity = context.chunkCapacity := by
    rw [hcapacity, Context.chunkCapacity, Nat.min_comm]
  have hsmall : context.chunkCapacity ≤ context.fragmentContentCapacity := Nat.min_le_right _ _
  have hremain : (context.chunkCapacity + 2 ^ 64 - last.content.length) % 2 ^ 64 =
      context.chunkCapacity - last.content.length := by
    omega
  simp only [checksumModeOf, List.getLast?_concat, hmin, hremain, List.length_append,
    List.length_singleton]
  by_cases hone : 1 ≤ front.length
  · rw [if_pos (by omega)]
    split
    · simp only [reduceCtorEq, false_iff, not_and]
      omega
    · simp only [true_iff]
      omega
  · rw [if_neg (by omega)]
    simp only [reduceCtorEq, false_iff, not_and]
    omega

variable (checksum) in
theorem Packed.length_emitted_le_iff (h : Packed context chunks) {limit : ℕ}
    (hlimit : chunks.length ≤ limit) :
    (emitted context.fragmentContentCapacity checksum chunks).length ≤ limit ↔
      ChecksumFits limit context.chunkCapacity (bytesOf chunks).length := by
  rw [length_emitted, length_initFragments]
  obtain rfl | ⟨front, last, rfl⟩ := chunks.eq_nil_or_concat'
  · simp [checksumModeOf, ChecksumFits, bytesOf]
  · have hmode := h.checksumModeOf_eq_extra_iff
    have hlength := h.length_bytesOf
    obtain ⟨hpos, hle⟩ := h.last last (by simp)
    rw [List.length_append, List.length_singleton] at hlimit ⊢
    rw [ChecksumFits, hlength]
    obtain hone | hmore := Nat.eq_zero_or_pos front.length
    · have hnone : checksumModeOf context.fragmentContentCapacity (front ++ [last]) ≠ .extra := by
        rw [Ne, hmode]
        omega
      rw [if_neg hnone, hone]
      exact iff_of_true (by omega) (Or.inl (by omega))
    · have hfirst : context.chunkCapacity ≤ front.length * context.chunkCapacity :=
        Nat.le_mul_of_pos_left _ hmore
      obtain hlt | heq := Nat.lt_or_eq_of_le hlimit
      · -- a fragment is left for the checksum
        have hroom : (front.length + 1) * context.chunkCapacity ≤
            (limit - 1) * context.chunkCapacity :=
          Nat.mul_le_mul_right _ (by omega)
        rw [Nat.succ_mul] at hroom
        refine iff_of_true ?_ (Or.inr (Or.inl (by omega)))
        split <;> omega
      · have hlast : limit * context.chunkCapacity =
            front.length * context.chunkCapacity + context.chunkCapacity := by
          rw [← heq, Nat.succ_mul]
        rw [hlast, show limit - 1 = front.length by omega]
        split
        · rename_i hextra
          have hfull := (hmode.mp hextra).2
          constructor <;> omega
        · rename_i hembedded
          rw [hmode] at hembedded
          constructor <;> omega

theorem Packed.length_le_of_mem_emitted (h : Packed context chunks) {content : Bytes}
    (hcontent : content ∈ emitted context.fragmentContentCapacity checksum chunks) :
    content.length ≤ max context.fragmentContentCapacity checksumBytes := by
  have hsmall : context.chunkCapacity ≤ context.fragmentContentCapacity := Nat.min_le_right _ _
  have hdigest := checksum.length_digest (bytesOf chunks)
  obtain rfl | ⟨front, last, rfl⟩ := chunks.eq_nil_or_concat'
  · cases hcontent
  · have hchunk : ∀ chunk ∈ front ++ [last],
        chunk.content.length ≤ context.fragmentContentCapacity := by
      intro chunk hchunk
      rcases List.mem_append.mp hchunk with hchunk | hchunk
      · rw [h.full chunk (by rwa [List.dropLast_concat])]
        exact hsmall
      · rw [List.mem_singleton.mp hchunk]
        exact ((h.last last (by simp)).2).trans hsmall
    have hchunks : ∀ other ∈ (front ++ [last]).map Chunk.content,
        other.length ≤ max context.fragmentContentCapacity checksumBytes := by
      intro other hother
      obtain ⟨chunk, hmem, rfl⟩ := List.mem_map.mp hother
      exact (hchunk chunk hmem).trans (Nat.le_max_left _ _)
    cases hmode : checksumModeOf context.fragmentContentCapacity (front ++ [last]) with
    | none =>
        simp only [emitted, hmode] at hcontent
        rw [mapIdx_payload_of_ne_embedded (by simp)] at hcontent
        exact hchunks content (by simpa [initFragments, Function.comp_def] using hcontent)
    | embedded =>
        have hroom : last.content.length + checksumBytes ≤ context.chunkCapacity := by
          have hextra := (not_congr h.checksumModeOf_eq_extra_iff).mp (by simp [hmode])
          have hmany := (not_congr (checksumModeOf_eq_none_iff context.fragmentContentCapacity
            (show front ++ [last] ≠ [] by simp))).mp (by simp [hmode])
          rw [List.length_append, List.length_singleton] at hmany
          omega
        have hfragments : initFragments .embedded (checksum.digest (bytesOf (front ++ [last])))
            (front ++ [last]) = front.map (fun chunk => ⟨chunk.content, false⟩) ++
              [⟨last.content, false⟩] := by
          simp [initFragments]
        simp only [emitted, hmode, hfragments] at hcontent
        rw [mapIdx_payload_embedded, List.mem_append, List.mem_singleton] at hcontent
        rcases hcontent with hcontent | rfl
        · exact hchunks content (by simpa [Function.comp_def] using Or.inl hcontent)
        · rw [List.length_append, hdigest]
          exact (hroom.trans hsmall).trans (Nat.le_max_left _ _)
    | extra =>
        simp only [emitted, hmode] at hcontent
        rw [mapIdx_payload_of_ne_embedded (by simp), initFragments, if_pos rfl, List.map_append,
          List.map_singleton, List.mem_append, List.mem_singleton] at hcontent
        rcases hcontent with hcontent | rfl
        · exact hchunks content (by simpa [Function.comp_def] using hcontent)
        · rw [hdigest]
          exact Nat.le_max_right _ _

end Emitted

section Receivable

variable {context : Context} {checksum : Checksum} {p : Parcel} {x : Meta × Bytes}
  {type : FragmentType} {busId : UInt64}

theorem Carries.fits {m : Meta} {content : Bytes}
    (h : Carries context.fragmentContentCapacity checksum p m content)
    (hcount : (p.contents context.fragmentContentCapacity checksum).length ≤ parcelMaxFragments)
    (hbus : busId.toNat ≤ deliveryMaxBuses) : (fragmentMeta type busId m).Fits := by
  have hindex := (List.getElem?_eq_some_iff.mp h.content).1
  have hlast := h.last
  rw [parcelMaxFragments] at hcount
  rw [deliveryMaxBuses] at hbus
  refine ⟨?_, ?_, ?_⟩
  · simp only [fragmentMeta]
    omega
  · simp only [fragmentMeta, UInt64.toNat_ofNat']
    omega
  · simp only [fragmentMeta, UInt64.toNat_ofNat']
    omega

theorem fragmentPayload_eq (context : Context) (memory : ℕ → UInt8)
    (h : (fragmentMeta type busId x.1).Fits) :
    fragmentPayload context memory type busId x =
      some ((fragmentMeta type busId x.1).bytes ++ x.2) := by
  have hlength : (fragmentMeta type busId x.1).metaLength ≤ context.bufferCapacity :=
    h.metaLength_le.trans context.meta_le
  rw [fragmentPayload, metaEncode_eq memory hlength, Option.map_some, load_store]

theorem eq_of_fragmentPayload {memory : ℕ → UInt8} {payload : Bytes}
    (h : fragmentPayload context memory type busId x = some payload) :
    payload = (fragmentMeta type busId x.1).bytes ++ x.2 := by
  obtain ⟨view, hview, rfl⟩ := Option.map_eq_some_iff.mp h
  rw [metaEncode_eq memory (metaLength_le_of_metaEncode hview)] at hview
  obtain rfl := Option.some.inj hview
  rw [load_store]

theorem Carries.receivable (h : Carries context.fragmentContentCapacity checksum p x.1 x.2)
    (hcapacity : context.fragmentContentCapacity + maxFragmentMetaDataBytes ≤ packetBodyCapacity)
    (hpacked : Packed context p.chunks)
    (hcount : (p.contents context.fragmentContentCapacity checksum).length ≤ context.maxFragments)
    (hbus : busId.toNat ≤ deliveryMaxBuses) : Receivable context type busId x := by
  intro memory memory'
  have hfits : (fragmentMeta type busId x.1).Fits :=
    h.fits (hcount.trans context.maxFragments_le) hbus
  have hlength : x.2.length ≤ max context.fragmentContentCapacity checksumBytes :=
    hpacked.length_le_of_mem_emitted (List.mem_of_getElem? h.content)
  obtain ⟨view, hdecode, hload⟩ := metaDecode_eq memory' x.2 hfits
  refine ⟨_, fragmentPayload_eq context memory hfits, ?_, view, ?_, hload⟩
  · have hmeta := hfits.metaLength_le
    rw [List.length_append, length_bytes]
    simp only [maxFragmentMetaDataBytes, packetBodyCapacity, checksumBytes] at hcapacity hlength ⊢
    omega
  · have hlast : (fragmentMeta type busId x.1).lastIndex.toNat < context.maxFragments := by
      have hlastIndex := h.last
      have hmax := context.maxFragments_le
      rw [parcelMaxFragments] at hmax
      simp only [fragmentMeta, UInt64.toNat_ofNat']
      omega
    rw [recvMeta, hdecode, Option.bind_some, if_neg (Nat.not_le.mpr hlast)]

end Receivable

section Limit

variable {context : Context} {checksum : Checksum} {chunks : List Chunk}

theorem carries_of_mem_send {number : ℕ} {sequence : UInt64} {acks : List Meta} {ok : ℕ → Bool}
    {x : Meta × Bytes}
    (hx : x ∈ ((acks.foldl Dispatcher.recvAck (Dispatcher.init context.fragmentContentCapacity
      checksum number sequence chunks)).send ok).1) :
    Carries context.fragmentContentCapacity checksum ⟨number, sequence, chunks⟩ x.1 x.2 := by
  have hacks : ∀ (acks : List Meta) (d : Dispatcher),
      Dispatches context.fragmentContentCapacity checksum ⟨number, sequence, chunks⟩ d →
      Dispatches context.fragmentContentCapacity checksum ⟨number, sequence, chunks⟩
        (acks.foldl Dispatcher.recvAck d) := by
    intro acks
    induction acks with
    | nil => exact fun d h => h
    | cons m acks ih => exact fun d h => ih _ (Dispatcher.dispatches_recvAck h m)
  exact Dispatcher.mem_send (hacks acks _ (Dispatcher.dispatches_init number sequence chunks)) hx

theorem sendFrom_eq (d : Dispatcher) (fragments : List Fragment)
    (h : ∀ fragment ∈ fragments, fragment.acked = false) (index : ℕ) :
    (d.sendFrom (fun _ => true) index fragments).1 =
      fragments.mapIdx fun offset fragment => d.message (index + offset) fragment := by
  induction fragments generalizing index with
  | nil => rfl
  | cons fragment fragments ih =>
      have hfirst := h fragment List.mem_cons_self
      have hrest := ih (fun other hother => h other (List.mem_cons_of_mem _ hother)) (index + 1)
      simp only [Dispatcher.sendFrom, hfirst, Bool.false_eq_true, if_false, if_true]
      rw [hrest, List.mapIdx_cons]
      simp only [Nat.add_zero, Nat.add_assoc, Nat.add_comm 1]

theorem send_init (number : ℕ) (sequence : UInt64) (chunks : List Chunk) :
    ((Dispatcher.init context.fragmentContentCapacity checksum number sequence chunks).send
      fun _ => true).1 =
    (emitted context.fragmentContentCapacity checksum chunks).mapIdx fun index content =>
      (⟨sequence, index, (emitted context.fragmentContentCapacity checksum chunks).length - 1⟩,
        content) := by
  rw [Dispatcher.send, sendFrom_eq]
  · rw [length_emitted]
    simp only [emitted, List.mapIdx_mapIdx, Function.comp_def, Nat.zero_add, Dispatcher.message,
      Dispatcher.init]
  · intro fragment hfragment
    simp only [Dispatcher.init, initFragments, List.mem_append, List.mem_map] at hfragment
    rcases hfragment with ⟨chunk, -, rfl⟩ | hfragment
    · rfl
    · split at hfragment
      · rw [List.mem_singleton.mp hfragment]
      · cases hfragment

theorem length_emitted_le_of_receivable (hpacked : Packed context chunks) {type : FragmentType}
    {busId : UInt64} {number : ℕ} {sequence : UInt64}
    (h : ∀ x ∈ ((Dispatcher.init context.fragmentContentCapacity checksum number sequence
      chunks).send fun _ => true).1, Receivable context type busId x) :
    (emitted context.fragmentContentCapacity checksum chunks).length ≤ context.maxFragments := by
  by_contra hmany
  rw [send_init] at h
  obtain ⟨content, rest, hcontents⟩ := List.exists_cons_of_length_pos
    (Nat.lt_of_le_of_lt (Nat.zero_le _) (Nat.lt_of_not_le hmany))
  obtain ⟨payload, -, -, view, hrecv, -⟩ := h _ (by
    rw [hcontents, List.mapIdx_cons]
    exact List.mem_cons_self) (fun _ => 0) fun _ => 0
  rw [← hcontents] at hrecv
  -- the last index is the number of chunks, which is the limit
  have hcount : (emitted context.fragmentContentCapacity checksum chunks).length - 1 =
      context.maxFragments := by
    have hlength := length_emitted context.fragmentContentCapacity checksum chunks
    have hle := hpacked.count
    rw [length_initFragments] at hlength
    split at hlength <;> omega
  have hmax := context.maxFragments_le
  rw [parcelMaxFragments] at hmax
  obtain ⟨r, -, hlimit⟩ := Option.bind_eq_some_iff.mp hrecv
  split at hlimit
  · cases hlimit
  · rename_i hbelow
    obtain rfl := Option.some.inj hlimit
    apply hbelow
    simp only [fragmentMeta, hcount, UInt64.toNat_ofNat']
    omega

/-- For a parcel of packed chunks every fragment is received as it was sent, in every
mode and after any acks, if and only if its bytes and their checksum take at most
`maxFragments` fragments. -/
theorem receivable_iff (context : Context) (checksum : Checksum)
    (hcapacity : context.fragmentContentCapacity + maxFragmentMetaDataBytes ≤ packetBodyCapacity)
    (acquired : ℕ → Bool) (writes : List Bytes) (chunks : List Chunk)
    (hwritten : writeAll context acquired writes = some chunks) (type : FragmentType)
    (busId : UInt64) (hbus : busId.toNat ≤ deliveryMaxBuses) (number : ℕ) (sequence : UInt64) :
    (∀ (acks : List Meta) (ok : ℕ → Bool) (x : Meta × Bytes),
      x ∈ ((acks.foldl Dispatcher.recvAck (Dispatcher.init context.fragmentContentCapacity
        checksum number sequence chunks)).send ok).1 → Receivable context type busId x) ↔
    ChecksumFits context.maxFragments context.chunkCapacity writes.flatten.length := by
  obtain ⟨hpacked, hbytes⟩ := writeAll_packed hwritten
  rw [← hbytes, ← hpacked.length_emitted_le_iff checksum hpacked.count]
  constructor
  · intro hall
    exact length_emitted_le_of_receivable hpacked fun x hx => hall [] _ x hx
  · intro hcount acks ok x hx
    exact (carries_of_mem_send hx).receivable hcapacity hpacked hcount hbus

/-- The configuration of the default packets, with parcels of two fragments. -/
def sampleContext : Context where
  fragmentContentCapacity := 1185
  maxFragments := 2
  bufferCapacity := 1225
  content_pos := by decide
  content_lt := by decide
  maxFragments_le := by decide
  meta_le := by decide

/-- Two full chunks of 2370 bytes. -/
def fullChunks : List Chunk := chunksOf sampleContext (fun _ => true) (List.replicate 2370 0)

theorem writeAll_fullChunks :
    writeAll sampleContext (fun _ => true) [List.replicate 2370 0] = some fullChunks :=
  writeAll_singleton _ (fun _ => rfl) (by rw [List.length_replicate]; decide)

/-- The checksum of two full chunks takes a third fragment, which the receiving endpoint
refuses. -/
theorem fullChunks_not_receivable :
    ¬ ∀ (acks : List Meta) (ok : ℕ → Bool) (x : Meta × Bytes),
      x ∈ ((acks.foldl Dispatcher.recvAck (Dispatcher.init
        sampleContext.fragmentContentCapacity Channel.sampleChecksum 0 1 fullChunks)).send ok).1 →
          Receivable sampleContext .reliable 1 x := by
  obtain ⟨hpacked, hbytes⟩ := writeAll_packed writeAll_fullChunks
  intro hall
  have hcount :
      (emitted sampleContext.fragmentContentCapacity Channel.sampleChecksum fullChunks).length ≤
      sampleContext.maxFragments :=
    length_emitted_le_of_receivable hpacked fun x hx => hall [] _ x hx
  rw [hpacked.length_emitted_le_iff Channel.sampleChecksum hpacked.count, hbytes] at hcount
  simp only [List.flatten_cons, List.flatten_nil, List.append_nil, List.length_replicate] at hcount
  exact absurd hcount (by decide)

theorem receivable_iff_fullChunks :
    (∀ (acks : List Meta) (ok : ℕ → Bool) (x : Meta × Bytes),
      x ∈ ((acks.foldl Dispatcher.recvAck (Dispatcher.init
        sampleContext.fragmentContentCapacity Channel.sampleChecksum 0 1 fullChunks)).send ok).1 →
          Receivable sampleContext .reliable 1 x) ↔
    ChecksumFits sampleContext.maxFragments sampleContext.chunkCapacity
      [List.replicate 2370 (0 : UInt8)].flatten.length :=
  receivable_iff sampleContext Channel.sampleChecksum (by decide) (fun _ => true)
    [List.replicate 2370 0] fullChunks writeAll_fullChunks .reliable 1 (by decide) 0 1

end Limit

end Delivery

end PomeloUdp
