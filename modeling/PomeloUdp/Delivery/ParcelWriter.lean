import Mathlib.Data.List.Infix
import PomeloUdp.Delivery.Chunking

/-!
# The writer of a parcel

The writer fills the last chunk and then one new chunk after the other (`writeFrom_ok_iff`). A
write that gets no chunk has already filled the chunks before it, and their bytes stay in the
parcel, unless it was `Blocked` from the start. The room in the last chunk is a difference of two
`size_t`, so a chunk that is longer than a fragment may be gets bytes up to the end of its buffer
and behind it.
-/

namespace PomeloUdp

namespace Delivery

/-- `pomelo_delivery_context_t`, with a buffer capacity that is a `size_t`. -/
structure SizedContext extends Context where
  buffer_lt : bufferCapacity < 2 ^ 64

section WriteFrom

variable {context : Context} {acquired : ℕ → Bool} {chunks : List Chunk} {bytes : Bytes}

/-- There is no room in the last chunk, and there is no other one. -/
def Blocked (context : Context) (acquired : ℕ → Bool) (chunks : List Chunk) : Prop :=
  room context chunks = 0 ∧ ¬ (chunks.length < context.maxFragments ∧ acquired chunks.length = true)

/-- The chunks that a number of bytes needs can be had. -/
def Available (context : Context) (acquired : ℕ → Bool) (chunks : List Chunk) (length : ℕ) :
    Prop :=
  ∀ i, room context chunks + i * context.chunkCapacity < length →
    chunks.length + i < context.maxFragments ∧ acquired (chunks.length + i) = true

theorem room_append (context : Context) (chunks : List Chunk) (bytes : Bytes) :
    room context (chunks ++ [⟨bytes, context.bufferCapacity⟩]) =
      context.chunkCapacity - bytes.length := by
  simp [room, Context.chunkCapacity]

theorem ne_nil_of_room (hroom : room context chunks ≠ 0) : chunks ≠ [] := by
  rintro rfl
  exact hroom rfl

theorem length_fill (chunks : List Chunk) (bytes : Bytes) :
    (fill chunks bytes).length = chunks.length := by
  obtain rfl | ⟨front, last, rfl⟩ := chunks.eq_nil_or_concat'
  · rfl
  · simp [fill]

theorem room_fill (hroom : room context chunks ≠ 0) (bytes : Bytes) :
    room context (fill chunks bytes) = room context chunks - bytes.length := by
  obtain ⟨front, last, rfl⟩ := chunks.eq_nil_or_concat'.resolve_left (ne_nil_of_room hroom)
  simp [room, fill, Nat.sub_sub]

variable (context acquired) in
theorem writeFrom_extends (chunks : List Chunk) (bytes : Bytes) :
    bytesOf chunks <+: bytesOf (writeFrom context acquired chunks bytes).1 := by
  induction chunks, bytes using writeFrom.induct context acquired with
  | case1 chunks =>
      rw [writeFrom, if_pos rfl]
  | case2 chunks bytes hbytes hroom hmax =>
      rw [writeFrom, if_neg hbytes, if_pos hroom, if_pos hmax]
  | case3 chunks bytes hbytes hroom hmax hacquired ih =>
      rw [writeFrom, if_neg hbytes, if_pos hroom, if_neg hmax, if_pos hacquired]
      rw [bytesOf_append] at ih
      exact (List.prefix_append _ _).trans ih
  | case4 chunks bytes hbytes hroom hmax hacquired =>
      rw [writeFrom, if_neg hbytes, if_pos hroom, if_neg hmax, if_neg hacquired]
  | case5 chunks bytes hbytes hroom ih =>
      rw [writeFrom, if_neg hbytes, if_neg hroom]
      rw [bytesOf_fill (ne_nil_of_room hroom)] at ih
      exact (List.prefix_append _ _).trans ih

theorem bytesOf_writeFrom (chunks : List Chunk) (bytes : Bytes)
    (hok : (writeFrom context acquired chunks bytes).2 = true) :
    bytesOf (writeFrom context acquired chunks bytes).1 = bytesOf chunks ++ bytes := by
  induction chunks, bytes using writeFrom.induct context acquired with
  | case1 chunks => simp [writeFrom]
  | case2 chunks bytes hbytes hroom hmax =>
      rw [writeFrom, if_neg hbytes, if_pos hroom, if_pos hmax] at hok
      cases hok
  | case3 chunks bytes hbytes hroom hmax hacquired ih =>
      rw [writeFrom, if_neg hbytes, if_pos hroom, if_neg hmax, if_pos hacquired] at hok ⊢
      rw [ih hok, bytesOf_append, List.append_assoc, List.take_append_drop]
  | case4 chunks bytes hbytes hroom hmax hacquired =>
      rw [writeFrom, if_neg hbytes, if_pos hroom, if_neg hmax, if_neg hacquired] at hok
      cases hok
  | case5 chunks bytes hbytes hroom ih =>
      rw [writeFrom, if_neg hbytes, if_neg hroom] at hok ⊢
      rw [ih hok, bytesOf_fill (ne_nil_of_room hroom), List.append_assoc, List.take_append_drop]

theorem available_append (hroom : room context chunks = 0) (hbytes : bytes ≠ []) :
    Available context acquired chunks bytes.length ↔
      (chunks.length < context.maxFragments ∧ acquired chunks.length = true) ∧
        Available context acquired
          (chunks ++ [⟨bytes.take context.chunkCapacity, context.bufferCapacity⟩])
          (bytes.drop context.chunkCapacity).length := by
  have hlength : 0 < bytes.length := List.length_pos_iff.mpr hbytes
  simp only [Available, hroom, room_append, List.length_append, List.length_singleton,
    List.length_take, List.length_drop]
  constructor
  · intro h
    refine ⟨h 0 (by omega), fun i hi => ?_⟩
    have hnext := h (i + 1) (by rw [Nat.succ_mul]; omega)
    rwa [Nat.add_comm i, ← Nat.add_assoc] at hnext
  · rintro ⟨hfirst, h⟩ i hi
    cases i with
    | zero => exact hfirst
    | succ i =>
        have hnext := h i (by rw [Nat.succ_mul] at hi; omega)
        rwa [Nat.add_assoc, Nat.add_comm 1] at hnext

theorem available_fill (hroom : room context chunks ≠ 0) (bytes : Bytes) :
    Available context acquired chunks bytes.length ↔
      Available context acquired (fill chunks (bytes.take (room context chunks)))
        (bytes.drop (room context chunks)).length := by
  simp only [Available, room_fill hroom, length_fill, List.length_take, List.length_drop]
  refine forall_congr' fun i => ?_
  have hsame : room context chunks + i * context.chunkCapacity < bytes.length ↔
      room context chunks - min (room context chunks) bytes.length + i * context.chunkCapacity <
        bytes.length - room context chunks := by
    omega
  rw [hsame]

theorem writeFrom_ok_iff (chunks : List Chunk) (bytes : Bytes) :
    (writeFrom context acquired chunks bytes).2 = true ↔
      Available context acquired chunks bytes.length := by
  induction chunks, bytes using writeFrom.induct context acquired with
  | case1 chunks => simp [writeFrom, Available]
  | case2 chunks bytes hbytes hroom hmax =>
      rw [writeFrom, if_neg hbytes, if_pos hroom, if_pos hmax, available_append hroom hbytes]
      exact ⟨fun hfalse => absurd hfalse Bool.false_ne_true,
        fun h => absurd h.1.1 (Nat.not_lt.mpr hmax)⟩
  | case3 chunks bytes hbytes hroom hmax hacquired ih =>
      rw [writeFrom, if_neg hbytes, if_pos hroom, if_neg hmax, if_pos hacquired, ih,
        available_append hroom hbytes]
      exact ⟨fun h => ⟨⟨Nat.lt_of_not_le hmax, hacquired⟩, h⟩, And.right⟩
  | case4 chunks bytes hbytes hroom hmax hacquired =>
      rw [writeFrom, if_neg hbytes, if_pos hroom, if_neg hmax, if_neg hacquired,
        available_append hroom hbytes]
      exact ⟨fun hfalse => absurd hfalse Bool.false_ne_true, fun h => absurd h.1.2 hacquired⟩
  | case5 chunks bytes hbytes hroom ih =>
      rw [writeFrom, if_neg hbytes, if_neg hroom, ih, ← available_fill hroom]

theorem writeFrom_of_blocked (hbytes : bytes ≠ []) (h : Blocked context acquired chunks) :
    writeFrom context acquired chunks bytes = (chunks, false) := by
  rw [writeFrom, if_neg hbytes, if_pos h.1]
  split
  · rfl
  next hmax =>
    rw [if_neg fun hacquired => h.2 ⟨Nat.lt_of_not_le hmax, hacquired⟩]

theorem length_lt_writeFrom (hbytes : bytes ≠ []) (h : ¬ Blocked context acquired chunks) :
    (bytesOf chunks).length < (bytesOf (writeFrom context acquired chunks bytes).1).length := by
  have hlength : 0 < bytes.length := List.length_pos_iff.mpr hbytes
  rw [writeFrom, if_neg hbytes]
  by_cases hroom : room context chunks = 0
  · obtain ⟨hmax, hacquired⟩ := not_not.mp fun hnot => h ⟨hroom, hnot⟩
    rw [if_pos hroom, if_neg (Nat.not_le.mpr hmax), if_pos hacquired]
    have hrest := (writeFrom_extends context acquired
      (chunks ++ [⟨bytes.take context.chunkCapacity, context.bufferCapacity⟩])
      (bytes.drop context.chunkCapacity)).length_le
    have hcapacity := context.chunkCapacity_pos
    rw [bytesOf_append, List.length_append, List.length_take] at hrest
    omega
  · rw [if_neg hroom]
    have hrest := (writeFrom_extends context acquired
      (fill chunks (bytes.take (room context chunks)))
      (bytes.drop (room context chunks))).length_le
    rw [bytesOf_fill (ne_nil_of_room hroom), List.length_append, List.length_take] at hrest
    omega

end WriteFrom

/-- `payload.capacity` of a chunk in the writer. -/
def payloadCapacity (context : Context) (chunk : Chunk) : ℕ :=
  min chunk.capacity context.fragmentContentCapacity

/-- `remain_fragment_bytes` of the last chunk. -/
def remainFragmentBytes (context : Context) (chunks : List Chunk) : UInt64 :=
  match chunks.getLast? with
  | none => 0
  | some chunk => UInt64.ofNat (payloadCapacity context chunk) - UInt64.ofNat chunk.content.length

/-- What a chunk shows lies in its buffer. -/
def InBuffer (chunk : Chunk) : Prop :=
  chunk.content.length ≤ chunk.capacity ∧ chunk.capacity < 2 ^ 64

/-- The buffer of the last chunk has room for the bytes. -/
def Fits (chunks : List Chunk) (bytes : Bytes) : Prop :=
  ∃ chunk ∈ chunks.getLast?, chunk.content.length + bytes.length ≤ chunk.capacity

instance (chunks : List Chunk) (bytes : Bytes) : Decidable (Fits chunks bytes) :=
  inferInstanceAs (Decidable (∃ chunk ∈ chunks.getLast?, _))

/-- The last chunk is longer than a fragment may be. -/
def Long (context : Context) (chunks : List Chunk) : Prop :=
  ∃ chunk ∈ chunks.getLast?, payloadCapacity context chunk < chunk.content.length

instance (context : Context) (chunks : List Chunk) : Decidable (Long context chunks) :=
  inferInstanceAs (Decidable (∃ chunk ∈ chunks.getLast?, _))

/-- `pomelo_delivery_writer_t`, which counts the bytes of its parcel in a `size_t`. -/
structure ParcelWriter where
  chunks : List Chunk
  writtenBytes : UInt64
  inBuffer : ∀ chunk ∈ chunks, InBuffer chunk
  counted : writtenBytes = UInt64.ofNat (bytesOf chunks).length

namespace ParcelWriter

/-- `pomelo_delivery_writer_init`. -/
def init (chunks : List Chunk) (inBuffer : ∀ chunk ∈ chunks, InBuffer chunk) : ParcelWriter where
  chunks := chunks
  writtenBytes := chunks.foldr (fun chunk sum => UInt64.ofNat chunk.content.length + sum) 0
  inBuffer := inBuffer
  counted := by
    clear inBuffer
    induction chunks with
    | nil => rfl
    | cons chunk chunks ih =>
        rw [List.foldr_cons, ih, ← UInt64.ofNat_add]
        simp only [bytesOf, List.map_cons, List.flatten_cons, List.length_append]

/-- `pomelo_delivery_parcel_append_chunk`, and as many of the bytes as the chunk takes. -/
def appendChunk (context : SizedContext) (w : ParcelWriter) (bytes : Bytes) : ParcelWriter where
  chunks := w.chunks ++ [⟨bytes.take context.chunkCapacity, context.bufferCapacity⟩]
  writtenBytes := w.writtenBytes + UInt64.ofNat (min context.chunkCapacity bytes.length)
  inBuffer chunk hchunk := by
    rcases List.mem_append.mp hchunk with hchunk | hchunk
    · exact w.inBuffer chunk hchunk
    · rw [List.mem_singleton.mp hchunk]
      refine ⟨?_, context.buffer_lt⟩
      rw [List.length_take]
      exact (Nat.min_le_left _ _).trans (Nat.min_le_left _ _)
  counted := by
    rw [w.counted, bytesOf_append, List.length_append, List.length_take, UInt64.ofNat_add]

/-- `pomelo_payload_write_buffer_unsafe` on the last chunk, unless it writes behind the
buffer. -/
def fillChunk (w : ParcelWriter) (bytes : Bytes) : Option ParcelWriter :=
  if hfits : Fits w.chunks bytes then
    some {
      chunks := fill w.chunks bytes
      writtenBytes := w.writtenBytes + UInt64.ofNat bytes.length
      inBuffer := by
        obtain ⟨last, hlast, hlength⟩ := hfits
        obtain ⟨front, hchunks⟩ := List.getLast?_eq_some_iff.mp hlast
        have hfill : fill w.chunks bytes =
            front ++ [{ last with content := last.content ++ bytes }] := by
          simp [fill, hchunks]
        intro chunk hchunk
        rw [hfill] at hchunk
        rcases List.mem_append.mp hchunk with hchunk | hchunk
        · exact w.inBuffer chunk (hchunks ▸ List.mem_append_left _ hchunk)
        · rw [List.mem_singleton.mp hchunk]
          refine ⟨?_, (w.inBuffer last (by simp [hchunks])).2⟩
          rw [List.length_append]
          exact hlength
      counted := by
        obtain ⟨last, hlast, -⟩ := hfits
        have hne : w.chunks ≠ [] := by
          rintro hnil
          simp [hnil] at hlast
        rw [w.counted, bytesOf_fill hne, List.length_append, UInt64.ofNat_add] }
  else none

/-- The loop of `pomelo_delivery_writer_write`. A write behind the end of a buffer has no
result. -/
def write (context : SizedContext) (acquired : ℕ → Bool) (w : ParcelWriter) (bytes : Bytes) :
    Option (ParcelWriter × Bool) :=
  if bytes = [] then some (w, true)
  else if remainFragmentBytes context.toContext w.chunks = 0 then
    if context.maxFragments ≤ w.chunks.length then some (w, false)
    else if acquired w.chunks.length then
      write context acquired (w.appendChunk context bytes) (bytes.drop context.chunkCapacity)
    else some (w, false)
  else
    match w.fillChunk
        (bytes.take (remainFragmentBytes context.toContext w.chunks).toNat) with
    | none => none
    | some w' =>
        write context acquired w'
          (bytes.drop (remainFragmentBytes context.toContext w.chunks).toNat)
  termination_by bytes.length
  decreasing_by
    all_goals
      have hcapacity := context.chunkCapacity_pos
      have hbytes : 0 < bytes.length := List.length_pos_iff.mpr (by assumption)
      rw [List.length_drop]
    · omega
    · have hremain : (remainFragmentBytes context.toContext w.chunks).toNat ≠ 0 := by
        rwa [Ne, ← UInt64.toNat_zero, UInt64.toNat_inj]
      omega

variable {context : SizedContext} {acquired : ℕ → Bool} {w : ParcelWriter} {bytes : Bytes}

theorem chunks_fillChunk (hfits : Fits w.chunks bytes) :
    ∃ w', w.fillChunk bytes = some w' ∧ w'.chunks = fill w.chunks bytes :=
  ⟨_, dif_pos hfits, rfl⟩

end ParcelWriter

theorem toNat_remainFragmentBytes {context : Context} {chunks : List Chunk}
    (hshort : ¬ Long context chunks) :
    (remainFragmentBytes context chunks).toNat = room context chunks := by
  unfold remainFragmentBytes room
  cases hlast : chunks.getLast? with
  | none => rfl
  | some chunk =>
      have hle : chunk.content.length ≤ payloadCapacity context chunk := by
        by_contra hlt
        exact hshort ⟨chunk, hlast, Nat.lt_of_not_le hlt⟩
      have hlt : payloadCapacity context chunk < 2 ^ 64 :=
        Nat.lt_of_le_of_lt (Nat.min_le_right _ _) context.content_lt
      dsimp only
      rw [UInt64.toNat_sub_of_le, UInt64.toNat_ofNat_of_lt' hlt,
        UInt64.toNat_ofNat_of_lt' (Nat.lt_of_le_of_lt hle hlt)]
      · rfl
      · rw [UInt64.le_iff_toNat_le, UInt64.toNat_ofNat_of_lt' hlt,
          UInt64.toNat_ofNat_of_lt' (Nat.lt_of_le_of_lt hle hlt)]
        exact hle

section Long

variable {context : Context} {chunks : List Chunk} {bytes : Bytes}

theorem not_long_append (bytes : Bytes) :
    ¬ Long context
      (chunks ++ [⟨bytes.take context.chunkCapacity, context.bufferCapacity⟩]) := by
  rintro ⟨chunk, hchunk, hlong⟩
  rw [List.getLast?_concat] at hchunk
  obtain rfl := Option.some.inj hchunk
  rw [List.length_take] at hlong
  exact Nat.not_lt.mpr (Nat.min_le_left _ _) hlong

theorem fits_of_le_room (hshort : ¬ Long context chunks) (hroom : room context chunks ≠ 0)
    (hbytes : bytes.length ≤ room context chunks) : Fits chunks bytes := by
  obtain ⟨front, last, rfl⟩ := chunks.eq_nil_or_concat'.resolve_left (ne_nil_of_room hroom)
  have hle : min last.capacity context.fragmentContentCapacity ≤ last.capacity :=
    Nat.min_le_left _ _
  refine ⟨last, by simp, ?_⟩
  simp only [room, List.getLast?_concat] at hbytes hroom
  omega

theorem not_long_fill (hshort : ¬ Long context chunks) (hroom : room context chunks ≠ 0)
    (hbytes : bytes.length ≤ room context chunks) : ¬ Long context (fill chunks bytes) := by
  obtain ⟨front, last, rfl⟩ := chunks.eq_nil_or_concat'.resolve_left (ne_nil_of_room hroom)
  rintro ⟨chunk, hchunk, hlong⟩
  simp only [fill, room, List.getLast?_concat, List.dropLast_concat, Option.mem_def,
    Option.some.injEq] at hchunk hbytes hroom
  subst hchunk
  simp only [payloadCapacity, List.length_append] at hlong
  omega

end Long

namespace ParcelWriter

variable {context : SizedContext} {acquired : ℕ → Bool}

variable (acquired) in
theorem write_of_short (chunks : List Chunk) (bytes : Bytes)
    (hshort : ¬ Long context.toContext chunks) (w : ParcelWriter) (hchunks : w.chunks = chunks) :
    ∃ w', w.write context acquired bytes =
        some (w', (writeFrom context.toContext acquired chunks bytes).2) ∧
      w'.chunks = (writeFrom context.toContext acquired chunks bytes).1 := by
  induction chunks, bytes using writeFrom.induct context.toContext acquired generalizing w with
  | case1 chunks =>
      rw [write, writeFrom, if_pos rfl, if_pos rfl]
      exact ⟨w, rfl, hchunks⟩
  | case2 chunks bytes hbytes hroom hmax =>
      subst hchunks
      have hremain : remainFragmentBytes context.toContext w.chunks = 0 :=
        UInt64.toNat_inj.mp ((toNat_remainFragmentBytes hshort).trans hroom)
      rw [write, writeFrom, if_neg hbytes, if_neg hbytes, if_pos hremain, if_pos hroom,
        if_pos hmax, if_pos hmax]
      exact ⟨w, rfl, rfl⟩
  | case3 chunks bytes hbytes hroom hmax hacquired ih =>
      subst hchunks
      have hremain : remainFragmentBytes context.toContext w.chunks = 0 :=
        UInt64.toNat_inj.mp ((toNat_remainFragmentBytes hshort).trans hroom)
      rw [write, writeFrom, if_neg hbytes, if_neg hbytes, if_pos hremain, if_pos hroom,
        if_neg hmax, if_neg hmax, if_pos hacquired, if_pos hacquired]
      exact ih (not_long_append bytes) (w.appendChunk context bytes) rfl
  | case4 chunks bytes hbytes hroom hmax hacquired =>
      subst hchunks
      have hremain : remainFragmentBytes context.toContext w.chunks = 0 :=
        UInt64.toNat_inj.mp ((toNat_remainFragmentBytes hshort).trans hroom)
      rw [write, writeFrom, if_neg hbytes, if_neg hbytes, if_pos hremain, if_pos hroom,
        if_neg hmax, if_neg hmax, if_neg hacquired, if_neg hacquired]
      exact ⟨w, rfl, rfl⟩
  | case5 chunks bytes hbytes hroom ih =>
      subst hchunks
      have hremain := toNat_remainFragmentBytes hshort
      have hne : remainFragmentBytes context.toContext w.chunks ≠ 0 := fun hzero =>
        hroom (by rw [← hremain, hzero]; rfl)
      have hle : (bytes.take (room context.toContext w.chunks)).length ≤
          room context.toContext w.chunks := List.length_take_le _ _
      obtain ⟨w', hfill, hchunks'⟩ := chunks_fillChunk (fits_of_le_room hshort hroom hle)
      rw [write, writeFrom, if_neg hbytes, if_neg hbytes, if_neg hne, if_neg hroom, hremain, hfill]
      exact ih (not_long_fill hshort hroom hle) w' hchunks'

theorem lt_remainFragmentBytes {w : ParcelWriter} {chunk : Chunk}
    (hlast : w.chunks.getLast? = some chunk)
    (hlong : payloadCapacity context.toContext chunk < chunk.content.length) :
    chunk.capacity <
      chunk.content.length + (remainFragmentBytes context.toContext w.chunks).toNat := by
  obtain ⟨hle, hlt⟩ := w.inBuffer chunk (List.mem_of_getLast? hlast)
  rw [remainFragmentBytes, hlast]
  dsimp only
  rw [UInt64.toNat_sub, UInt64.toNat_ofNat_of_lt' (by change _ < 2 ^ 64; omega),
    UInt64.toNat_ofNat_of_lt' (by change _ < 2 ^ 64; omega)]
  omega

variable (acquired) in
theorem write_of_long {w : ParcelWriter} {bytes : Bytes} (hbytes : bytes ≠ [])
    (hlong : Long context.toContext w.chunks) :
    if Fits w.chunks bytes then
      ∃ w', w.write context acquired bytes = some (w', true) ∧
        bytesOf w'.chunks = bytesOf w.chunks ++ bytes
    else w.write context acquired bytes = none := by
  obtain ⟨chunk, hlast, hlong⟩ := hlong
  have hremain := lt_remainFragmentBytes hlast hlong
  obtain ⟨hle, -⟩ := w.inBuffer chunk (List.mem_of_getLast? hlast)
  have hne : remainFragmentBytes context.toContext w.chunks ≠ 0 := by
    intro hzero
    rw [hzero] at hremain
    exact absurd hle (Nat.not_le.mpr hremain)
  rw [write, if_neg hbytes, if_neg hne]
  split
  next hfits =>
    obtain ⟨chunk', hlast', hlength⟩ := hfits
    obtain rfl := Option.some.inj (hlast.symm.trans hlast')
    obtain ⟨w', hfill, hchunks⟩ := chunks_fillChunk ⟨chunk, hlast, hlength⟩
    have hall : bytes.length ≤ (remainFragmentBytes context.toContext w.chunks).toNat := by omega
    have hchunksNil : w.chunks ≠ [] := by
      rintro hnil
      simp [hnil] at hlast
    rw [List.take_of_length_le hall, List.drop_of_length_le hall, hfill]
    dsimp only
    refine ⟨w', ?_, ?_⟩
    · rw [write, if_pos rfl]
    · rw [hchunks, bytesOf_fill hchunksNil]
  next hfits =>
    have hnot : ¬ Fits w.chunks
        (bytes.take (remainFragmentBytes context.toContext w.chunks).toNat) := by
      rintro ⟨chunk', hlast', hlength⟩
      obtain rfl := Option.some.inj (hlast.symm.trans hlast')
      rw [List.length_take] at hlength
      exact hfits ⟨chunk, hlast, by omega⟩
    rw [fillChunk, dif_neg hnot]

end ParcelWriter

end Delivery

end PomeloUdp
