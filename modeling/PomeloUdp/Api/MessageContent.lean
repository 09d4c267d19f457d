import PomeloUdp.Api.MessageWrite

/-!
# What a message holds after its writes

The chunks of a message that was new at first stay packed through its writes, and their bytes are
those of the writes (`Written`). The fragments of an application take as many bytes as its messages
may have, so with the buffers at hand a new message takes exactly the writes that stay within the
capacity: `performAll_isSome_iff`.
-/

namespace PomeloUdp

namespace Api

open Delivery

namespace Message

/-- One write after the other; the message if every one succeeds. -/
def performAll (acquired : ℕ → Bool) (m : Message) : List MessageWrite → Option Message
  | [] => some m
  | w :: writes =>
      match w.perform acquired m with
      | some (m', .ok) => m'.performAll acquired writes
      | _ => none

/-- A message that was new at first can be written to, its chunks are packed, and what was
written is in them. -/
structure Written (context : MessageContext) (m : Message) (bytes : Bytes) : Prop where
  same : m.context = context
  mode : m.mode = .write
  idle : m.busy = false
  packed : Packed context.delivery.toContext m.writer.chunks
  content : m.content = bytes

namespace Written

variable {context : MessageContext} {acquired : ℕ → Bool} {m m' : Message} {bytes : Bytes}

theorem init : Written context (Message.init context [] (by simp)) [] where
  same := rfl
  mode := rfl
  idle := rfl
  packed := Packed.nil
  content := rfl

theorem not_long (h : Written context m bytes) :
    ¬ Long m.context.delivery.toContext m.writer.chunks := by
  rintro ⟨chunk, hchunk, hlong⟩
  rw [h.same, payloadCapacity, h.packed.capacity chunk (List.mem_of_getLast? hchunk)] at hlong
  exact Nat.not_lt.mpr (h.packed.last chunk hchunk).2 hlong

theorem perform (h : Written context m bytes) {w : MessageWrite}
    (hok : w.perform acquired m = some (m', .ok)) : Written context m' (bytes ++ w.bytes) := by
  rw [w.perform_eq] at hok
  by_cases hrefuses : m.Refuses w.bytes.length
  · obtain ⟨result, hresult, heq⟩ := writeBuffer_of_refuses acquired hrefuses
    rw [heq] at hok
    simp only [Option.some.injEq, Prod.mk.injEq] at hok
    exact absurd hok.2 hresult
  · obtain ⟨w', hwrite, hchunks⟩ := ParcelWriter.write_of_short acquired m.writer.chunks w.bytes
      h.not_long m.writer rfl
    have hpacked := writeFrom_packed acquired m.writer.chunks w.bytes h.packed
    rw [writeBuffer_of_not_refuses hrefuses, hwrite, Option.map_some, h.same] at hok
    simp only [Option.some.injEq, Prod.mk.injEq] at hok
    obtain ⟨rfl, hsuccess⟩ := hok
    rw [h.same] at hchunks
    have hwritten : (writeFrom context.delivery.toContext acquired m.writer.chunks w.bytes).2 =
        true := by
      by_contra hfailed
      rw [if_neg hfailed] at hsuccess
      cases hsuccess
    refine ⟨rfl, h.mode, h.idle, ?_, ?_⟩
    · rw [hchunks]
      exact hpacked.1
    · rw [Message.content, hchunks, hpacked.2 hwritten, ← h.content]
      rfl

theorem performAll (h : Written context m bytes) {writes : List MessageWrite}
    (hok : m.performAll acquired writes = some m') :
    Written context m' (bytes ++ writes.flatMap MessageWrite.bytes) := by
  induction writes generalizing m bytes with
  | nil =>
      rw [Message.performAll] at hok
      rw [← Option.some.inj hok, List.flatMap_nil, List.append_nil]
      exact h
  | cons w writes ih =>
      rw [Message.performAll] at hok
      split at hok
      next m₁ hfirst =>
        rw [List.flatMap_cons, ← List.append_assoc]
        exact ih (h.perform hfirst) hok
      next => cases hok

theorem perform_of_le (h : Written context m bytes) (w : MessageWrite)
    (hacquired : ∀ index, acquired index = true)
    (hcapacity : bytes.length + w.bytes.length ≤ context.messageCapacity)
    (hfragments : context.messageCapacity ≤
      context.delivery.maxFragments * context.delivery.chunkCapacity) :
    ∃ m', w.perform acquired m = some (m', .ok) := by
  have hrefuses : ¬ m.Refuses w.bytes.length := by
    rintro (hmode | hbusy | hover)
    · exact hmode h.mode
    · rw [h.idle] at hbusy
      cases hbusy
    · rw [h.same, h.content] at hover
      exact Nat.not_lt.mpr ((Nat.mod_le _ _).trans hcapacity) hover
  have hok := writeFrom_ok m.writer.chunks w.bytes h.packed hacquired
    ((hcapacity.trans hfragments).trans' (by rw [← h.content]; exact Nat.le_refl _))
  obtain ⟨w', hwrite, -⟩ := ParcelWriter.write_of_short acquired m.writer.chunks w.bytes
    h.not_long m.writer rfl
  rw [h.same] at hwrite
  rw [w.perform_eq, writeBuffer_of_not_refuses hrefuses, h.same, hwrite, hok]
  exact ⟨_, rfl⟩

theorem performAll_of_le (h : Written context m bytes) (writes : List MessageWrite)
    (hacquired : ∀ index, acquired index = true)
    (hcapacity : bytes.length + (writes.flatMap MessageWrite.bytes).length ≤
      context.messageCapacity)
    (hfragments : context.messageCapacity ≤
      context.delivery.maxFragments * context.delivery.chunkCapacity) :
    ∃ m', m.performAll acquired writes = some m' := by
  induction writes generalizing m bytes with
  | nil => exact ⟨m, rfl⟩
  | cons w writes ih =>
      rw [List.flatMap_cons, List.length_append] at hcapacity
      obtain ⟨m₁, hfirst⟩ := h.perform_of_le w hacquired (by omega) hfragments
      obtain ⟨m', hrest⟩ := ih (h.perform hfirst) (by rw [List.length_append]; omega)
      refine ⟨m', ?_⟩
      rw [Message.performAll, hfirst]
      exact hrest

theorem ne_nil (h : Written context m bytes) :
    ∀ chunk ∈ m.writer.chunks.map Chunk.content, chunk ≠ [] := by
  intro content hcontent
  obtain ⟨chunk, hchunk, rfl⟩ := List.mem_map.mp hcontent
  exact List.ne_nil_of_length_pos (h.packed.bounds chunk hchunk).1

end Written

end Message

theorem create_eq {size : ℕ} (hpos : size ≠ 0) {context : Context}
    (h : Context.create packetBodyCapacity (ceilDiv size fragmentBodyCapacity) bufferCapacity
      (by decide) (by decide) = some context) :
    context.fragmentContentCapacity = 1185 ∧ context.chunkCapacity = 1185 ∧
      size ≤ context.maxFragments * 1185 := by
  have hcount : size ≤ ceilDiv size fragmentBodyCapacity * 1185 := by
    rw [show fragmentBodyCapacity = 1185 from rfl, ceilDiv]
    split <;> omega
  have hne : ceilDiv size fragmentBodyCapacity ≠ 0 := by
    intro hzero
    rw [hzero] at hcount
    omega
  unfold Context.create at h
  rw [dif_neg (by decide), if_neg hne] at h
  split at h
  · cases h
  · obtain rfl := Option.some.inj h
    exact ⟨rfl, rfl, hcount⟩

theorem rootCreate_eq {capacity : UInt64} {context : MessageContext}
    (h : MessageContext.rootCreate capacity = some context) :
    context.delivery.fragmentContentCapacity = 1185 ∧ context.delivery.chunkCapacity = 1185 ∧
      context.messageCapacity ≤ context.delivery.maxFragments * 1185 := by
  have hpos : (if capacity = 0 then messageDefaultCapacity else capacity.toNat) ≠ 0 := by
    split
    · decide
    next hne => exact fun hzero => hne (UInt64.toNat_inj.mp hzero)
  unfold MessageContext.rootCreate at h
  dsimp only at h
  split at h
  · cases h
  next delivery hdelivery =>
    obtain rfl := Option.some.inj h
    exact create_eq hpos hdelivery

theorem length_bytesOf_le {context : Context} {chunks : List Chunk} (h : Packed context chunks) :
    (bytesOf chunks).length ≤ context.maxFragments * context.chunkCapacity := by
  obtain rfl | ⟨front, last, rfl⟩ := chunks.eq_nil_or_concat'
  · exact Nat.zero_le _
  · have hcount := Nat.mul_le_mul_right context.chunkCapacity h.count
    have hlast := (h.last last (by simp)).2
    rw [List.length_append, List.length_singleton, Nat.succ_mul] at hcount
    rw [h.length_bytesOf]
    omega

namespace Message.Written

variable {context : MessageContext} {acquired : ℕ → Bool} {m m' : Message} {bytes : Bytes}

theorem le_of_perform (h : Written context m bytes) {w : MessageWrite}
    (hsize : context.delivery.maxFragments * context.delivery.chunkCapacity < 2 ^ 64)
    (hok : w.perform acquired m = some (m', .ok)) :
    bytes.length + w.bytes.length ≤ context.messageCapacity := by
  have hm' := h.perform hok
  have hlength := length_bytesOf_le hm'.packed
  change m'.content.length ≤ _ at hlength
  rw [hm'.content, List.length_append] at hlength
  rw [w.perform_eq] at hok
  by_contra hover
  have hrefuses : m.Refuses w.bytes.length := by
    refine .inr (.inr ?_)
    rw [h.same, h.content, Nat.mod_eq_of_lt (by omega)]
    omega
  obtain ⟨result, hresult, heq⟩ := writeBuffer_of_refuses acquired hrefuses
  rw [heq] at hok
  simp only [Option.some.injEq, Prod.mk.injEq] at hok
  exact hresult hok.2

theorem le_of_performAll (h : Written context m bytes) {writes : List MessageWrite}
    (hsize : context.delivery.maxFragments * context.delivery.chunkCapacity < 2 ^ 64)
    (hbytes : bytes.length ≤ context.messageCapacity)
    (hok : m.performAll acquired writes = some m') :
    bytes.length + (writes.flatMap MessageWrite.bytes).length ≤ context.messageCapacity := by
  induction writes generalizing m bytes with
  | nil => exact hbytes
  | cons w writes ih =>
      rw [Message.performAll] at hok
      split at hok
      next m₁ hfirst =>
        have hle := h.le_of_perform hsize hfirst
        rw [← List.length_append] at hle
        have hrest := ih (h.perform hfirst) hle hok
        rw [List.length_append] at hrest
        rw [List.flatMap_cons, List.length_append]
        omega
      next => cases hok

end Message.Written

/-- With the buffers at hand a new message of an application takes a sequence of writes if and
only if their bytes are within its capacity. -/
theorem performAll_isSome_iff {capacity : UInt64} {context : MessageContext}
    (hcontext : MessageContext.rootCreate capacity = some context) {acquired : ℕ → Bool}
    (hacquired : ∀ index, acquired index = true) (writes : List MessageWrite) :
    ((Message.init context [] (by simp)).performAll acquired writes).isSome ↔
      (writes.flatMap MessageWrite.bytes).length ≤ context.messageCapacity := by
  obtain ⟨-, hchunk, hfragments⟩ := rootCreate_eq hcontext
  rw [← hchunk] at hfragments
  rw [Option.isSome_iff_exists]
  constructor
  · rintro ⟨m, hm⟩
    have hmax := context.delivery.maxFragments_le
    rw [parcelMaxFragments] at hmax
    have hle := Message.Written.init.le_of_performAll (by rw [hchunk]; omega) (Nat.zero_le _) hm
    rwa [List.length_nil, Nat.zero_add] at hle
  · intro hle
    exact Message.Written.init.performAll_of_le writes hacquired
      (by rwa [List.length_nil, Nat.zero_add]) hfragments

theorem rootCreate_zero : MessageContext.rootCreate 0 = some defaultContext :=
  (Option.some_get _).symm

/-- The default capacity is 65536 bytes. -/
theorem performAll_isSome_default :
    ((Message.init defaultContext [] (by simp)).performAll (fun _ => true)
      [.buffer (List.replicate 65534 1), .uint16 2]).isSome ∧
    ¬ ((Message.init defaultContext [] (by simp)).performAll (fun _ => true)
      [.buffer (List.replicate 65535 1), .uint16 2]).isSome := by
  rw [performAll_isSome_iff rootCreate_zero fun _ => rfl,
    performAll_isSome_iff rootCreate_zero fun _ => rfl]
  simp only [List.flatMap_cons, List.flatMap_nil, MessageWrite.bytes, List.length_append,
    List.length_replicate, LittleEndian.length_toLittleEndian, List.length_nil]
  decide

end Api

end PomeloUdp
