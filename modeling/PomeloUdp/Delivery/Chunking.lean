import PomeloUdp.Delivery.Reading

/-!
# Chunks do not depend on the writes

A writer counts the bytes it has written. Its chunks are packed, and packed chunks with the same
bytes are the same chunks (`Packed.eq_of_bytesOf`). So they depend on the bytes of the writes
alone: `writeAll_independent`.
-/

namespace PomeloUdp

namespace Delivery

/-- `pomelo_delivery_writer_t` with the chunks of its parcel. -/
structure Writer where
  chunks : List Chunk
  writtenBytes : ℕ
  deriving DecidableEq, Repr

namespace Writer

variable (context : Context) (acquired : ℕ → Bool)

/-- `pomelo_delivery_writer_init`. -/
def init (chunks : List Chunk) : Writer where
  chunks := chunks
  writtenBytes := (chunks.map fun chunk => chunk.content.length).sum

/-- The loop of `pomelo_delivery_writer_write` with its counter. -/
def write (w : Writer) (bytes : Bytes) : Writer × Bool :=
  if bytes = [] then (w, true)
  else if room context w.chunks = 0 then
    if context.maxFragments ≤ w.chunks.length then (w, false)
    else if acquired w.chunks.length then
      write
        { chunks := w.chunks ++ [⟨bytes.take context.chunkCapacity, context.bufferCapacity⟩]
          writtenBytes := w.writtenBytes + min context.chunkCapacity bytes.length }
        (bytes.drop context.chunkCapacity)
    else (w, false)
  else
    write
      { chunks := fill w.chunks (bytes.take (room context w.chunks))
        writtenBytes := w.writtenBytes + min (room context w.chunks) bytes.length }
      (bytes.drop (room context w.chunks))
  termination_by bytes.length
  decreasing_by
    all_goals
      have hcapacity := context.chunkCapacity_pos
      have hbytes : 0 < bytes.length := List.length_pos_iff.mpr (by assumption)
      rw [List.length_drop]
      omega

/-- One write after the other on a fresh parcel; the writer if every one succeeds. -/
def writeAll (writes : List Bytes) : Option Writer :=
  writes.foldlM (fun w bytes =>
    let r := w.write context acquired bytes
    if r.2 then some r.1 else none) (init [])

variable {context acquired} {w : Writer}

theorem write_eq (w : Writer) (bytes : Bytes) :
    (w.write context acquired bytes).1.chunks = (writeFrom context acquired w.chunks bytes).1 ∧
      (w.write context acquired bytes).2 = (writeFrom context acquired w.chunks bytes).2 ∧
      ((w.write context acquired bytes).2 = true →
        (w.write context acquired bytes).1.writtenBytes = w.writtenBytes + bytes.length) := by
  induction w, bytes using write.induct context acquired with
  | case1 w =>
      rw [write, writeFrom, if_pos rfl, if_pos rfl]
      exact ⟨rfl, rfl, fun _ => rfl⟩
  | case2 w bytes hbytes hroom hmax =>
      rw [write, writeFrom, if_neg hbytes, if_neg hbytes, if_pos hroom, if_pos hroom, if_pos hmax,
        if_pos hmax]
      exact ⟨rfl, rfl, fun hfalse => absurd hfalse Bool.false_ne_true⟩
  | case3 w bytes hbytes hroom hmax hacquired ih =>
      rw [write, writeFrom, if_neg hbytes, if_neg hbytes, if_pos hroom, if_pos hroom, if_neg hmax,
        if_neg hmax, if_pos hacquired, if_pos hacquired]
      obtain ⟨hchunks, hok, hwritten⟩ := ih
      refine ⟨hchunks, hok, fun hsuccess => ?_⟩
      rw [hwritten hsuccess, List.length_drop]
      dsimp only
      omega
  | case4 w bytes hbytes hroom hmax hacquired =>
      rw [write, writeFrom, if_neg hbytes, if_neg hbytes, if_pos hroom, if_pos hroom, if_neg hmax,
        if_neg hmax, if_neg hacquired, if_neg hacquired]
      exact ⟨rfl, rfl, fun hfalse => absurd hfalse Bool.false_ne_true⟩
  | case5 w bytes hbytes hroom ih =>
      rw [write, writeFrom, if_neg hbytes, if_neg hbytes, if_neg hroom, if_neg hroom]
      obtain ⟨hchunks, hok, hwritten⟩ := ih
      refine ⟨hchunks, hok, fun hsuccess => ?_⟩
      rw [hwritten hsuccess, List.length_drop]
      dsimp only
      omega

theorem writeAll_eq {writes : List Bytes} (h : writeAll context acquired writes = some w) :
    Delivery.writeAll context acquired writes = some w.chunks ∧
      w.writtenBytes = writes.flatten.length := by
  have hfrom : ∀ (writes : List Bytes) (w w' : Writer),
      writes.foldlM (fun w bytes =>
        let r := w.write context acquired bytes
        if r.2 then some r.1 else none) w = some w' →
      writes.foldlM (fun chunks bytes =>
        let r := writeFrom context acquired chunks bytes
        if r.2 then some r.1 else none) w.chunks = some w'.chunks ∧
        w'.writtenBytes = w.writtenBytes + writes.flatten.length := by
    intro writes
    induction writes with
    | nil =>
        intro w w' hrun
        obtain rfl : w = w' := by simpa using hrun
        exact ⟨rfl, rfl⟩
    | cons bytes writes ih =>
        intro w w' hrun
        obtain ⟨hchunks, hok, hwritten⟩ := @write_eq context _ w bytes
        rw [List.foldlM_cons] at hrun ⊢
        by_cases hsuccess : (w.write context acquired bytes).2 = true
        · rw [if_pos hsuccess] at hrun
          obtain ⟨hrest, hcount⟩ := ih _ _ hrun
          rw [if_pos (hok ▸ hsuccess), ← hchunks]
          refine ⟨hrest, ?_⟩
          rw [hcount, hwritten hsuccess, List.flatten_cons, List.length_append, Nat.add_assoc]
        · rw [if_neg hsuccess] at hrun
          cases hrun
  obtain ⟨hchunks, hcount⟩ := hfrom writes (init []) w h
  exact ⟨hchunks, hcount.trans (Nat.zero_add _)⟩

end Writer

namespace Packed

variable {context : Context} {chunks chunks' : List Chunk} {chunk : Chunk}

theorem tail (h : Packed context (chunk :: chunks)) : Packed context chunks where
  capacity other hother := h.capacity other (List.mem_cons_of_mem _ hother)
  full other hother := by
    cases chunks with
    | nil => cases hother
    | cons next rest => exact h.full other (List.mem_cons_of_mem _ hother)
  last other hother := by
    cases chunks with
    | nil => cases hother
    | cons next rest => exact h.last other (by rwa [List.getLast?_cons_cons])
  count := (Nat.le_succ _).trans h.count

theorem head (h : Packed context (chunk :: chunks)) (hchunks : chunks ≠ []) :
    chunk.content.length = context.chunkCapacity := by
  obtain ⟨next, rest, rfl⟩ := List.exists_cons_of_ne_nil hchunks
  exact h.full chunk List.mem_cons_self

theorem bounds (h : Packed context chunks) :
    ∀ chunk ∈ chunks, 0 < chunk.content.length ∧ chunk.content.length ≤ context.chunkCapacity := by
  induction chunks with
  | nil => exact fun _ hchunk => nomatch hchunk
  | cons first rest ih =>
      intro chunk hchunk
      rcases List.mem_cons.mp hchunk with rfl | hchunk
      · cases rest with
        | nil => exact h.last chunk rfl
        | cons next rest =>
            rw [h.head (List.cons_ne_nil _ _)]
            exact ⟨context.chunkCapacity_pos, Nat.le_refl _⟩
      · exact ih h.tail chunk hchunk

theorem length_pos (h : Packed context chunks) (hchunks : chunks ≠ []) :
    0 < (bytesOf chunks).length := by
  obtain ⟨first, rest, rfl⟩ := List.exists_cons_of_ne_nil hchunks
  have hpos := (h.bounds first List.mem_cons_self).1
  simp only [bytesOf, List.map_cons, List.flatten_cons, List.length_append]
  omega

theorem eq_of_bytesOf (h : Packed context chunks) (h' : Packed context chunks')
    (hbytes : bytesOf chunks = bytesOf chunks') : chunks = chunks' := by
  induction chunks generalizing chunks' with
  | nil =>
      by_contra hne
      have hpos := h'.length_pos (Ne.symm hne)
      rw [← hbytes] at hpos
      exact Nat.lt_irrefl 0 hpos
  | cons chunk rest ih =>
      cases chunks' with
      | nil =>
          have hpos := h.length_pos (List.cons_ne_nil _ _)
          rw [hbytes] at hpos
          exact absurd hpos (Nat.lt_irrefl 0)
      | cons chunk' rest' =>
          have hsplit : chunk.content ++ bytesOf rest = chunk'.content ++ bytesOf rest' := hbytes
          have hlength := congrArg List.length hsplit
          rw [List.length_append, List.length_append] at hlength
          have hle := (h.bounds chunk List.mem_cons_self).2
          have hle' := (h'.bounds chunk' List.mem_cons_self).2
          have hsame : chunk.content.length = chunk'.content.length := by
            by_cases hrest : rest = []
            · by_cases hrest' : rest' = []
              · rw [hrest, hrest'] at hlength
                exact hlength
              · have hpos := h'.tail.length_pos hrest'
                have hfull := h'.head hrest'
                rw [hrest] at hlength
                change _ + 0 = _ at hlength
                omega
            · have hpos := h.tail.length_pos hrest
              have hfull := h.head hrest
              by_cases hrest' : rest' = []
              · rw [hrest'] at hlength
                change _ = _ + 0 at hlength
                omega
              · rw [hfull, h'.head hrest']
          obtain ⟨hcontent, htail⟩ := List.append_inj hsplit hsame
          have hcapacity := h.capacity chunk List.mem_cons_self
          have hcapacity' := h'.capacity chunk' List.mem_cons_self
          obtain rfl : chunk = chunk' := by
            obtain ⟨content, capacity⟩ := chunk
            obtain ⟨content', capacity'⟩ := chunk'
            dsimp only at hcontent hcapacity hcapacity'
            rw [hcontent, hcapacity, hcapacity']
          rw [ih h.tail h'.tail htail]

end Packed

/-- What a parcel with these bytes is. -/
structure Chunked (context : Context) (bytes : Bytes) (w : Writer) : Prop where
  content : bytesOf w.chunks = bytes
  full : ∀ chunk ∈ w.chunks.dropLast,
    chunk.content.length = min context.bufferCapacity context.fragmentContentCapacity
  ne_nil : ∀ chunk ∈ w.chunks, chunk.content ≠ []
  writtenBytes : w.writtenBytes = bytes.length
  reads : ∀ lengths, (Reader.init (w.chunks.map Chunk.content)).Reads bytes lengths

theorem Writer.chunked {context : Context} {acquired : ℕ → Bool} {writes : List Bytes} {w : Writer}
    (h : Writer.writeAll context acquired writes = some w) :
    Packed context w.chunks ∧ Chunked context writes.flatten w := by
  obtain ⟨hchunks, hcount⟩ := Writer.writeAll_eq h
  obtain ⟨hpacked, hbytes⟩ := writeAll_packed hchunks
  have hne : ∀ chunk ∈ w.chunks, chunk.content ≠ [] := fun chunk hchunk =>
    List.ne_nil_of_length_pos (hpacked.bounds chunk hchunk).1
  refine ⟨hpacked, hbytes, hpacked.full, hne, hcount, fun lengths => ?_⟩
  rw [← hbytes]
  refine Reader.reads_of_tight lengths (Reader.init (w.chunks.map Chunk.content))
    (tight_of_ne_nil ?_) (by simp [Reader.init, Reader.ahead, List.length_flatten])
  intro content hcontent
  obtain ⟨chunk, hchunk, rfl⟩ := List.mem_map.mp hcontent
  exact hne chunk hchunk

/-- Two sequences of writes with the same bytes give the same chunks. -/
theorem writeAll_independent {context : Context} {acquired acquired' : ℕ → Bool}
    {writes writes' : List Bytes} {w w' : Writer}
    (h : Writer.writeAll context acquired writes = some w)
    (h' : Writer.writeAll context acquired' writes' = some w')
    (hbytes : writes.flatten = writes'.flatten) :
    w.chunks = w'.chunks ∧ Chunked context writes.flatten w ∧
      Chunked context writes.flatten w' := by
  obtain ⟨hpacked, hchunked⟩ := Writer.chunked h
  obtain ⟨hpacked', hchunked'⟩ := Writer.chunked h'
  rw [← hbytes] at hchunked'
  exact ⟨hpacked.eq_of_bytesOf hpacked' (hchunked.content.trans hchunked'.content.symm), hchunked,
    hchunked'⟩

theorem ten_le_parcelMaxFragments : 10 ≤ parcelMaxFragments := by decide

/-- A context whose fragments hold two bytes. -/
def twoByteContext : Context :=
  ⟨2, 10, 20, by decide, by decide, ten_le_parcelMaxFragments, by decide⟩

/-- Five bytes cut in two ways. -/
theorem writeAll_independent_fiveBytes :
    ∃ w, Writer.writeAll twoByteContext (fun _ => true) [[1], [2, 3, 4], [5]] = some w ∧
      Chunked twoByteContext [1, 2, 3, 4, 5] w := by
  have hfirst : Writer.writeAll twoByteContext (fun _ => true) [[1], [2, 3, 4], [5]] =
      some ⟨[⟨[1, 2], 20⟩, ⟨[3, 4], 20⟩, ⟨[5], 20⟩], 5⟩ := by
    decide +kernel
  have hsecond : Writer.writeAll twoByteContext (fun _ => true) [[1, 2, 3], [], [4, 5]] =
      some ⟨[⟨[1, 2], 20⟩, ⟨[3, 4], 20⟩, ⟨[5], 20⟩], 5⟩ := by
    decide +kernel
  exact ⟨_, hfirst, (writeAll_independent hfirst hsecond rfl).2.1⟩

end Delivery

end PomeloUdp
