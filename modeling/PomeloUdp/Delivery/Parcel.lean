import Mathlib.Algebra.GroupWithZero.Nat
import PomeloUdp.Delivery.Fragment

/-!
# Writing and reading parcels

The writer of a parcel fills its last chunk before it asks for another one. So every
chunk but the last one is full and none is empty (`Packed`), and the number of chunks
follows from the number of bytes. The reader takes the bytes of the chunks one after
the other.
-/

namespace PomeloUdp

namespace Delivery

/-- `POMELO_MAX_FRAGMENT_META_DATA_BYTES`. -/
def maxFragmentMetaDataBytes : ℕ := 15

/-- `POMELO_DELIVERY_PARCEL_MAX_FRAGMENTS`. -/
def parcelMaxFragments : ℕ := 65536

/-- `POMELO_DELIVERY_PARCEL_MAX_FRAGMENTS_DEFAULT`. -/
def parcelMaxFragmentsDefault : ℕ := 222

/-- `pomelo_delivery_context_t` with the capacity of the buffers in its buffer context. No function
of the source checks `meta_le`: it holds of what `pomelo_context_root_create` sets up. -/
structure Context where
  fragmentContentCapacity : ℕ
  maxFragments : ℕ
  bufferCapacity : ℕ
  content_pos : 0 < fragmentContentCapacity
  content_lt : fragmentContentCapacity < 2 ^ 64
  maxFragments_le : maxFragments ≤ parcelMaxFragments
  meta_le : maxFragmentMetaDataBytes ≤ bufferCapacity

namespace Context

/-- `pomelo_delivery_context_root_create`; the fragment capacity is a `size_t`. -/
def create (fragmentCapacity maxFragments bufferCapacity : ℕ) (hsize : fragmentCapacity < 2 ^ 64)
    (hbuffer : maxFragmentMetaDataBytes ≤ bufferCapacity) : Option Context :=
  if hcapacity : fragmentCapacity ≤ maxFragmentMetaDataBytes then none
  else if maxFragments = 0 then
    some {
      fragmentContentCapacity := fragmentCapacity - maxFragmentMetaDataBytes
      maxFragments := parcelMaxFragmentsDefault
      bufferCapacity := bufferCapacity
      content_pos := Nat.sub_pos_of_lt (Nat.lt_of_not_le hcapacity)
      content_lt := Nat.lt_of_le_of_lt (Nat.sub_le _ _) hsize
      maxFragments_le := by decide
      meta_le := hbuffer }
  else if hmax : parcelMaxFragments < maxFragments then none
  else
    some {
      fragmentContentCapacity := fragmentCapacity - maxFragmentMetaDataBytes
      maxFragments := maxFragments
      bufferCapacity := bufferCapacity
      content_pos := Nat.sub_pos_of_lt (Nat.lt_of_not_le hcapacity)
      content_lt := Nat.lt_of_le_of_lt (Nat.sub_le _ _) hsize
      maxFragments_le := Nat.le_of_not_lt hmax
      meta_le := hbuffer }

variable (context : Context)

/-- What a chunk with an empty buffer holds. -/
def chunkCapacity : ℕ := min context.bufferCapacity context.fragmentContentCapacity

theorem chunkCapacity_pos : 0 < context.chunkCapacity := by
  have hcontent := context.content_pos
  have hbuffer := context.meta_le
  rw [maxFragmentMetaDataBytes] at hbuffer
  rw [chunkCapacity]
  omega

end Context

section Writer

variable (context : Context)

/-- The room in the last chunk. A chunk holds at most its capacity, so there is none
left when the position of the writer has reached the capacity. -/
def room (chunks : List Chunk) : ℕ :=
  match chunks.getLast? with
  | none => 0
  | some chunk =>
      min chunk.capacity context.fragmentContentCapacity - chunk.content.length

/-- Bytes behind the content of the last chunk. -/
def fill (chunks : List Chunk) (bytes : Bytes) : List Chunk :=
  match chunks.getLast? with
  | none => chunks
  | some chunk => chunks.dropLast ++ [{ chunk with content := chunk.content ++ bytes }]

/-- The loop of `pomelo_delivery_writer_write` with the bytes that remain. `acquired`
says for which chunks a buffer could be acquired. -/
def writeFrom (acquired : ℕ → Bool) (chunks : List Chunk) (bytes : Bytes) : List Chunk × Bool :=
  if bytes = [] then (chunks, true)
  else if room context chunks = 0 then
    if context.maxFragments ≤ chunks.length then (chunks, false)
    else if acquired chunks.length then
      writeFrom acquired
        (chunks ++ [⟨bytes.take context.chunkCapacity, context.bufferCapacity⟩])
        (bytes.drop context.chunkCapacity)
    else (chunks, false)
  else
    writeFrom acquired (fill chunks (bytes.take (room context chunks)))
      (bytes.drop (room context chunks))
  termination_by bytes.length
  decreasing_by
    all_goals
      have hcapacity := context.chunkCapacity_pos
      have hbytes : 0 < bytes.length := List.length_pos_iff.mpr (by assumption)
      rw [List.length_drop]
      omega

/-- `pomelo_delivery_writer_write` for one write after the other on a fresh parcel; the
chunks if every one succeeds. -/
def writeAll (acquired : ℕ → Bool) (writes : List Bytes) : Option (List Chunk) :=
  writes.foldlM (fun chunks bytes =>
    let r := writeFrom context acquired chunks bytes
    if r.2 then some r.1 else none) []

/-- Every chunk but the last one is full, and the last one holds something. -/
structure Packed (chunks : List Chunk) : Prop where
  capacity : ∀ chunk ∈ chunks, chunk.capacity = context.bufferCapacity
  full : ∀ chunk ∈ chunks.dropLast, chunk.content.length = context.chunkCapacity
  last : ∀ chunk, chunks.getLast? = some chunk →
    0 < chunk.content.length ∧ chunk.content.length ≤ context.chunkCapacity
  count : chunks.length ≤ context.maxFragments

namespace Packed

variable {context} {chunks : List Chunk}

theorem nil : Packed context [] where
  capacity := by simp
  full := by simp
  last := by simp
  count := Nat.zero_le _

theorem room_concat {front : List Chunk} {chunk : Chunk} (h : Packed context (front ++ [chunk])) :
    room context (front ++ [chunk]) = context.chunkCapacity - chunk.content.length := by
  have hcapacity := h.capacity chunk (by simp)
  simp [room, hcapacity, Context.chunkCapacity]

theorem append (h : Packed context chunks) (hroom : room context chunks = 0)
    (hcount : chunks.length < context.maxFragments) {bytes : Bytes} (hbytes : bytes ≠ []) :
    Packed context (chunks ++ [⟨bytes.take context.chunkCapacity, context.bufferCapacity⟩]) where
  capacity chunk hchunk := by
    rcases List.mem_append.mp hchunk with hchunk | hchunk
    · exact h.capacity chunk hchunk
    · rw [List.mem_singleton.mp hchunk]
  full chunk hchunk := by
    rw [List.dropLast_concat] at hchunk
    obtain rfl | ⟨front, last, rfl⟩ := chunks.eq_nil_or_concat'
    · cases hchunk
    · rw [h.room_concat] at hroom
      have hlast := (h.last last (by simp)).2
      rcases List.mem_append.mp hchunk with hchunk | hchunk
      · exact h.full chunk (by rwa [List.dropLast_concat])
      · rw [List.mem_singleton.mp hchunk]
        omega
  last chunk hchunk := by
    rw [List.getLast?_concat] at hchunk
    obtain rfl := Option.some.inj hchunk
    have hpos := context.chunkCapacity_pos
    have hlength := List.length_pos_iff.mpr hbytes
    rw [List.length_take]
    omega
  count := by
    rw [List.length_append, List.length_singleton]
    exact hcount

theorem fill (h : Packed context chunks) (bytes : Bytes)
    (hbytes : bytes.length ≤ room context chunks) : Packed context (fill chunks bytes) := by
  obtain rfl | ⟨front, last, rfl⟩ := chunks.eq_nil_or_concat'
  · exact h
  · obtain ⟨hpos, hle⟩ := h.last last (by simp)
    rw [h.room_concat] at hbytes
    have hfill : Delivery.fill (front ++ [last]) bytes =
        front ++ [{ last with content := last.content ++ bytes }] := by
      simp [Delivery.fill]
    rw [hfill]
    refine ⟨?_, ?_, ?_, ?_⟩
    · intro chunk hchunk
      rcases List.mem_append.mp hchunk with hchunk | hchunk
      · exact h.capacity chunk (List.mem_append_left _ hchunk)
      · rw [List.mem_singleton.mp hchunk]
        exact h.capacity last (by simp)
    · intro chunk hchunk
      rw [List.dropLast_concat] at hchunk
      exact h.full chunk (by rwa [List.dropLast_concat])
    · intro chunk hchunk
      rw [List.getLast?_concat] at hchunk
      obtain rfl := Option.some.inj hchunk
      simp only [List.length_append]
      omega
    · have hcount := h.count
      rw [List.length_append, List.length_singleton] at hcount ⊢
      exact hcount

end Packed

theorem bytesOf_append (chunks : List Chunk) (chunk : Chunk) :
    bytesOf (chunks ++ [chunk]) = bytesOf chunks ++ chunk.content := by
  simp [bytesOf]

theorem bytesOf_fill {chunks : List Chunk} (hchunks : chunks ≠ []) (bytes : Bytes) :
    bytesOf (fill chunks bytes) = bytesOf chunks ++ bytes := by
  obtain ⟨front, last, rfl⟩ := chunks.eq_nil_or_concat'.resolve_left hchunks
  simp [fill, bytesOf]

section Run

variable {context} {acquired : ℕ → Bool}

variable (acquired) in
theorem writeFrom_packed (chunks : List Chunk) (bytes : Bytes) (h : Packed context chunks) :
    Packed context (writeFrom context acquired chunks bytes).1 ∧
      ((writeFrom context acquired chunks bytes).2 = true →
        bytesOf (writeFrom context acquired chunks bytes).1 = bytesOf chunks ++ bytes) := by
  induction chunks, bytes using writeFrom.induct context acquired with
  | case1 chunks =>
      rw [writeFrom, if_pos rfl]
      exact ⟨h, fun _ => by simp⟩
  | case2 chunks bytes hbytes hroom hmax =>
      rw [writeFrom, if_neg hbytes, if_pos hroom, if_pos hmax]
      exact ⟨h, fun hfalse => by cases hfalse⟩
  | case3 chunks bytes hbytes hroom hmax hacquired ih =>
      rw [writeFrom, if_neg hbytes, if_pos hroom, if_neg hmax, if_pos hacquired]
      obtain ⟨hpacked, hwritten⟩ := ih (h.append hroom (Nat.lt_of_not_le hmax) hbytes)
      refine ⟨hpacked, fun hok => ?_⟩
      rw [hwritten hok, bytesOf_append, List.append_assoc, List.take_append_drop]
  | case4 chunks bytes hbytes hroom hmax hacquired =>
      rw [writeFrom, if_neg hbytes, if_pos hroom, if_neg hmax, if_neg hacquired]
      exact ⟨h, fun hfalse => by cases hfalse⟩
  | case5 chunks bytes hbytes hroom ih =>
      rw [writeFrom, if_neg hbytes, if_neg hroom]
      have hchunks : chunks ≠ [] := by
        rintro rfl
        exact hroom rfl
      obtain ⟨hpacked, hwritten⟩ := ih (h.fill _ (by rw [List.length_take]; omega))
      refine ⟨hpacked, fun hok => ?_⟩
      rw [hwritten hok, bytesOf_fill hchunks, List.append_assoc, List.take_append_drop]

theorem writeAll_packed {writes : List Bytes} {chunks : List Chunk}
    (h : writeAll context acquired writes = some chunks) :
    Packed context chunks ∧ bytesOf chunks = writes.flatten := by
  have hfrom : ∀ (writes : List Bytes) (before chunks : List Chunk), Packed context before →
      writes.foldlM (fun chunks bytes =>
        let r := writeFrom context acquired chunks bytes
        if r.2 then some r.1 else none) before = some chunks →
      Packed context chunks ∧ bytesOf chunks = bytesOf before ++ writes.flatten := by
    intro writes
    induction writes with
    | nil =>
        intro before chunks hpacked hrun
        obtain rfl : before = chunks := by simpa using hrun
        exact ⟨hpacked, by simp⟩
    | cons bytes writes ih =>
        intro before chunks hpacked hrun
        obtain ⟨hpacked', hwritten⟩ := writeFrom_packed acquired before bytes hpacked
        rw [List.foldlM_cons] at hrun
        by_cases hok : (writeFrom context acquired before bytes).2 = true
        · rw [if_pos hok] at hrun
          obtain ⟨hresult, hbytes⟩ := ih _ _ hpacked' hrun
          refine ⟨hresult, ?_⟩
          rw [hbytes, hwritten hok, List.flatten_cons, List.append_assoc]
        · rw [if_neg hok] at hrun
          cases hrun
  have hresult := hfrom writes [] chunks Packed.nil h
  simpa [bytesOf] using hresult

end Run

/-- The bytes of packed chunks: the full ones and the last one. -/
theorem Packed.length_bytesOf {context : Context} {front : List Chunk} {last : Chunk}
    (h : Packed context (front ++ [last])) :
    (bytesOf (front ++ [last])).length =
      front.length * context.chunkCapacity + last.content.length := by
  have hfull : ∀ chunk ∈ front, chunk.content.length = context.chunkCapacity := by
    simpa using h.full
  rw [bytesOf_append, List.length_append]
  congr 1
  clear h
  induction front with
  | nil => simp [bytesOf]
  | cons chunk front ih =>
      have hrest := ih fun other hother => hfull other (List.mem_cons_of_mem _ hother)
      have hfirst := hfull chunk List.mem_cons_self
      simp only [bytesOf, List.map_cons, List.flatten_cons, List.length_append] at hrest ⊢
      rw [hrest, hfirst, List.length_cons, Nat.succ_mul, Nat.add_comm]

theorem Packed.length_bytesOf_of_room {context : Context} {chunks : List Chunk}
    (h : Packed context chunks) (hroom : room context chunks = 0) :
    (bytesOf chunks).length = chunks.length * context.chunkCapacity := by
  obtain rfl | ⟨front, last, rfl⟩ := chunks.eq_nil_or_concat'
  · simp [bytesOf]
  · have hle := (h.last last (by simp)).2
    rw [h.room_concat] at hroom
    rw [h.length_bytesOf, List.length_append, List.length_singleton, Nat.succ_mul]
    omega

theorem writeFrom_ok {context : Context} {acquired : ℕ → Bool} (chunks : List Chunk)
    (bytes : Bytes) (h : Packed context chunks) (hacquired : ∀ index, acquired index = true)
    (hfits : (bytesOf chunks).length + bytes.length ≤
      context.maxFragments * context.chunkCapacity) :
    (writeFrom context acquired chunks bytes).2 = true := by
  induction chunks, bytes using writeFrom.induct context acquired with
  | case1 chunks => rw [writeFrom, if_pos rfl]
  | case2 chunks bytes hbytes hroom hmax =>
      have hlength := List.length_pos_iff.mpr hbytes
      have hfull := Nat.mul_le_mul_right context.chunkCapacity hmax
      rw [h.length_bytesOf_of_room hroom] at hfits
      omega
  | case3 chunks bytes hbytes hroom hmax hacquired' ih =>
      rw [writeFrom, if_neg hbytes, if_pos hroom, if_neg hmax, if_pos hacquired']
      apply ih (h.append hroom (Nat.lt_of_not_le hmax) hbytes)
      rw [bytesOf_append, List.length_append, List.length_take, List.length_drop]
      omega
  | case4 chunks bytes hbytes hroom hmax hacquired' =>
      exact absurd (hacquired _) hacquired'
  | case5 chunks bytes hbytes hroom ih =>
      rw [writeFrom, if_neg hbytes, if_neg hroom]
      have hchunks : chunks ≠ [] := by
        rintro rfl
        exact hroom rfl
      apply ih (h.fill _ (by rw [List.length_take]; omega))
      rw [bytesOf_fill hchunks, List.length_append, List.length_take, List.length_drop]
      omega

/-- The chunks of a fresh parcel after one write. -/
def chunksOf (context : Context) (acquired : ℕ → Bool) (bytes : Bytes) : List Chunk :=
  (writeFrom context acquired [] bytes).1

theorem writeAll_singleton {context : Context} {acquired : ℕ → Bool} (bytes : Bytes)
    (hacquired : ∀ index, acquired index = true)
    (hfits : bytes.length ≤ context.maxFragments * context.chunkCapacity) :
    writeAll context acquired [bytes] = some (chunksOf context acquired bytes) := by
  have hok := writeFrom_ok [] bytes Packed.nil hacquired (by simpa [bytesOf] using hfits)
  simp only [writeAll, List.foldlM_cons, List.foldlM_nil, hok, if_true]
  rfl

end Writer

section Reader

/-- `pomelo_delivery_reader_t`: the chunks from its index on, what is left of the chunk
before them, and the number of bytes that remain. -/
structure Reader where
  chunks : List Bytes
  payload : Bytes
  remainBytes : ℕ
  deriving DecidableEq, Repr

/-- The loop of `pomelo_delivery_reader_read` with the number of bytes that remain to be
read: the bytes, and the chunks and the rest of the current one behind them. -/
def readFrom : List Bytes → Bytes → ℕ → Option (Bytes × List Bytes × Bytes)
  | [], payload, remain =>
      if remain ≤ payload.length then some (payload.take remain, [], payload.drop remain)
      else none
  | chunk :: chunks, payload, remain =>
      if remain ≤ payload.length then
        some (payload.take remain, chunk :: chunks, payload.drop remain)
      else
        (readFrom chunks chunk (remain - payload.length)).map fun r => (payload ++ r.1, r.2)

namespace Reader

/-- `pomelo_delivery_reader_init`. -/
def init (chunks : List Bytes) : Reader where
  chunks := chunks
  payload := []
  remainBytes := (chunks.map List.length).sum

/-- `pomelo_delivery_reader_read`. -/
def read (r : Reader) (length : ℕ) : Option (Bytes × Reader) :=
  if length = 0 then some ([], r)
  else if r.remainBytes < length then none
  else
    (readFrom r.chunks r.payload length).map fun s =>
      (s.1, ⟨s.2.1, s.2.2, r.remainBytes - length⟩)

/-- One read after the other: the bytes of all of them. -/
def readAll (r : Reader) : List ℕ → Option Bytes
  | [] => some []
  | length :: lengths =>
      (r.read length).bind fun s => (s.2.readAll lengths).map fun bytes => s.1 ++ bytes

end Reader

theorem readFrom_eq (chunks : List Bytes) (payload : Bytes) (remain : ℕ)
    (h : remain ≤ (payload ++ chunks.flatten).length) :
    ∃ chunks' payload', readFrom chunks payload remain =
        some ((payload ++ chunks.flatten).take remain, chunks', payload') ∧
      payload' ++ chunks'.flatten = (payload ++ chunks.flatten).drop remain := by
  induction chunks generalizing payload remain with
  | nil =>
      simp only [List.flatten_nil, List.append_nil] at h ⊢
      exact ⟨[], payload.drop remain, by rw [readFrom, if_pos h], by simp⟩
  | cons chunk chunks ih =>
      by_cases hfirst : remain ≤ payload.length
      · refine ⟨chunk :: chunks, payload.drop remain, ?_, ?_⟩
        · rw [readFrom, if_pos hfirst, List.take_append_of_le_length hfirst]
        · rw [List.drop_append_of_le_length hfirst]
      · rw [List.length_append, List.flatten_cons] at h
        obtain ⟨chunks', payload', hread, hrest⟩ :=
          ih chunk (remain - payload.length) (by omega)
        have hlong : payload.length ≤ remain := Nat.le_of_not_le hfirst
        have htake : ∀ rest : Bytes, (payload ++ rest).take remain =
            payload ++ rest.take (remain - payload.length) := by
          intro rest
          rw [List.take_append, List.take_of_length_le hlong]
        have hdrop : ∀ rest : Bytes, (payload ++ rest).drop remain =
            rest.drop (remain - payload.length) := by
          intro rest
          rw [List.drop_append, List.drop_of_length_le hlong, List.nil_append]
        refine ⟨chunks', payload', ?_, ?_⟩
        · rw [readFrom, if_neg hfirst, hread, Option.map_some, List.flatten_cons, htake]
        · rw [hrest, List.flatten_cons, hdrop]

theorem Reader.readAll_eq (lengths : List ℕ) (r : Reader)
    (hremain : r.remainBytes = (r.payload ++ r.chunks.flatten).length)
    (hsum : lengths.sum = r.remainBytes) :
    r.readAll lengths = some (r.payload ++ r.chunks.flatten) := by
  induction lengths generalizing r with
  | nil =>
      rw [List.sum_nil, hremain] at hsum
      rw [readAll, List.length_eq_zero_iff.mp hsum.symm]
  | cons length lengths ih =>
      rw [List.sum_cons] at hsum
      by_cases hzero : length = 0
      · have hnext := ih r hremain (by omega)
        rw [readAll, read, if_pos hzero, Option.bind_some, hnext]
        simp
      · obtain ⟨chunks', payload', hread, hrest⟩ :=
          readFrom_eq r.chunks r.payload length (by omega)
        have hnext := ih ⟨chunks', payload', r.remainBytes - length⟩
          (by simp only [hrest, List.length_drop, hremain]) (by simp only; omega)
        rw [readAll, read, if_neg hzero, if_neg (by omega), hread, Option.map_some,
          Option.bind_some, hnext, hrest, Option.map_some, List.take_append_drop]

/-- The bytes that lie ahead of a reader. -/
structure Reader.Ahead (r : Reader) (bytes : Bytes) : Prop where
  ahead : r.payload ++ r.chunks.flatten = bytes
  remain : r.remainBytes = bytes.length

theorem Reader.ahead_init (chunks : List Bytes) : (Reader.init chunks).Ahead chunks.flatten where
  ahead := rfl
  remain := by simp [init, List.length_flatten]

theorem Reader.Ahead.read {r : Reader} {bytes rest : Bytes} (h : r.Ahead (bytes ++ rest)) :
    ∃ r', r.read bytes.length = some (bytes, r') ∧ r'.Ahead rest := by
  obtain ⟨hbytes, hremain⟩ := h
  rw [List.length_append] at hremain
  unfold Reader.read
  by_cases hzero : bytes.length = 0
  · obtain rfl := List.length_eq_zero_iff.mp hzero
    exact ⟨r, if_pos rfl, hbytes, by simpa using hremain⟩
  · obtain ⟨chunks', payload', hread, hrest⟩ := readFrom_eq r.chunks r.payload bytes.length
      (by rw [hbytes, List.length_append]; omega)
    rw [hbytes] at hread hrest
    refine ⟨⟨chunks', payload', r.remainBytes - bytes.length⟩, ?_, ?_, ?_⟩
    · rw [if_neg hzero, if_neg (by omega), hread, Option.map_some, List.take_left]
    · rw [hrest, List.drop_left]
    · change r.remainBytes - bytes.length = rest.length
      omega

theorem Reader.readAll_init (chunks : List Bytes) {lengths : List ℕ}
    (hsum : lengths.sum = chunks.flatten.length) :
    (Reader.init chunks).readAll lengths = some chunks.flatten :=
  Reader.readAll_eq lengths (init chunks) (by simp [init, List.length_flatten])
    (by rw [hsum, init, List.length_flatten])

end Reader

end Delivery

end PomeloUdp
