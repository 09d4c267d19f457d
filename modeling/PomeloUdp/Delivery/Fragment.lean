import Mathlib.Algebra.Group.Nat.Defs
import Mathlib.Data.List.Basic
import Mathlib.Data.List.Enum

/-!
# Cutting a parcel into fragments and building it again

A parcel is a list of chunks. A parcel of two or more chunks travels with a
checksum of its bytes, behind the content of its last fragment if there is room
for it there, else in a fragment of its own. The receiver cuts the checksum off
the last fragment, compares it with its own computation and hands the remaining
contents to a new parcel, without the last one if nothing is left of it.
`verify_emitted` and `bytes_setFragments` say that this gives the bytes back.
-/

namespace PomeloUdp

namespace Delivery

abbrev Bytes := List UInt8

/-- `POMELO_CRYPTO_CHECKSUM_BYTES`. -/
def checksumBytes : ℕ := 32

/-- The checksum of the crypto library: a function of the bytes fed to it. -/
structure Checksum where
  digest : Bytes → Bytes
  length_digest : ∀ bytes, (digest bytes).length = checksumBytes

/-- A buffer view of a parcel; `capacity` is what its buffer holds from the
offset of the view on. -/
structure Chunk where
  content : Bytes
  capacity : ℕ
  deriving DecidableEq, Repr

/-- The bytes of a parcel. -/
def bytesOf (chunks : List Chunk) : Bytes := (chunks.map Chunk.content).flatten

/-- `pomelo_delivery_checksum_mode`. -/
inductive ChecksumMode where
  | none
  | embedded
  | extra
  deriving DecidableEq, Repr

/-- The choice of `pomelo_delivery_dispatcher_init`. The subtraction is one of
`size_t`. -/
def checksumModeOf (fragmentContentCapacity : ℕ) (chunks : List Chunk) : ChecksumMode :=
  match chunks.getLast? with
  | .none => .none
  | .some lastChunk =>
      if 2 ≤ chunks.length then
        let capacity := min fragmentContentCapacity lastChunk.capacity
        let remain := (capacity + 2 ^ 64 - lastChunk.content.length) % 2 ^ 64
        if checksumBytes ≤ remain then .embedded else .extra
      else .none

/-- `pomelo_delivery_fragment_t` of a dispatcher. -/
structure Fragment where
  content : Bytes
  acked : Bool
  deriving DecidableEq, Repr

/-- The fragments that `pomelo_delivery_dispatcher_init` prepares. -/
def initFragments (mode : ChecksumMode) (checksum : Bytes) (chunks : List Chunk) :
    List Fragment :=
  chunks.map (fun chunk => ⟨chunk.content, false⟩) ++
    if mode = .extra then [⟨checksum, false⟩] else []

/-- The content behind the meta of fragment `index` of `count`: the checksum
follows the last one in the embedded mode. -/
def payload (mode : ChecksumMode) (checksum : Bytes) (count index : ℕ) (content : Bytes) :
    Bytes :=
  if index + 1 = count ∧ mode = .embedded then content ++ checksum else content

/-- Everything `pomelo_delivery_dispatcher_send` puts behind the metas of a
parcel, in the order of the fragment indices. -/
def emitted (fragmentContentCapacity : ℕ) (checksum : Checksum) (chunks : List Chunk) :
    List Bytes :=
  let mode := checksumModeOf fragmentContentCapacity chunks
  let computed := checksum.digest (bytesOf chunks)
  let fragments := initFragments mode computed chunks
  fragments.mapIdx fun index fragment =>
    payload mode computed fragments.length index fragment.content

/-- The bytes `verify_checksum_entry` feeds to the checksum: fragments without a
buffer are skipped. -/
def receivedBytes (fragments : List (Option Bytes)) : Bytes :=
  (fragments.map (·.getD [])).flatten

/-- `pomelo_delivery_receiver_verify_checksum` on two or more fragments: the
checksum at the end of the last one and the fragments without it, or nothing
when the last fragment is too short. -/
def splitChecksum (fragments : List (Option Bytes)) : Option (Bytes × List (Option Bytes)) :=
  match fragments.getLast? with
  | some (some content) =>
      if content.length < checksumBytes then none
      else
        let offset := content.length - checksumBytes
        some (content.drop offset, fragments.dropLast ++ [some (content.take offset)])
  | _ => none

/-- `pomelo_delivery_parcel_set_fragments`: the chunks of the parcel, without an
empty last fragment. -/
def setFragments (fragments : List (Option Bytes)) : List Bytes :=
  let contents := fragments.map (·.getD [])
  if contents.getLast? = some [] then contents.dropLast else contents

theorem bytes_setFragments (fragments : List (Option Bytes)) :
    (setFragments fragments).flatten = receivedBytes fragments := by
  simp only [setFragments, receivedBytes]
  split
  · rename_i hlast
    obtain ⟨front, hfront⟩ := List.getLast?_eq_some_iff.mp hlast
    simp [hfront]
  · rfl

theorem receivedBytes_concat (fragments : List (Option Bytes)) (content : Bytes) :
    receivedBytes (fragments ++ [some content]) = receivedBytes fragments ++ content := by
  simp [receivedBytes]

@[simp] theorem receivedBytes_map_some (contents : List Bytes) :
    receivedBytes (contents.map some) = contents.flatten := by
  simp [receivedBytes, Function.comp_def]

theorem splitChecksum_concat (checksum : Checksum) (fragments : List (Option Bytes))
    (content bytes : Bytes) :
    splitChecksum (fragments ++ [some (content ++ checksum.digest bytes)]) =
      some (checksum.digest bytes, fragments ++ [some content]) := by
  have hlength := checksum.length_digest bytes
  simp [splitChecksum, hlength]

@[simp] theorem length_initFragments (mode : ChecksumMode) (computed : Bytes)
    (chunks : List Chunk) :
    (initFragments mode computed chunks).length =
      chunks.length + if mode = .extra then 1 else 0 := by
  by_cases hmode : mode = .extra <;> simp [initFragments, hmode]

theorem payload_of_ne_embedded {mode : ChecksumMode} (hmode : mode ≠ .embedded)
    (computed : Bytes) (count index : ℕ) (content : Bytes) :
    payload mode computed count index content = content := by
  simp [payload, hmode]

theorem mapIdx_payload_of_ne_embedded {mode : ChecksumMode} (hmode : mode ≠ .embedded)
    (computed : Bytes) (count : ℕ) (fragments : List Fragment) :
    (fragments.mapIdx fun index fragment => payload mode computed count index fragment.content) =
      fragments.map Fragment.content := by
  apply List.ext_getElem?
  intro index
  simp only [payload_of_ne_embedded hmode, List.getElem?_mapIdx, List.getElem?_map]

theorem mapIdx_payload_embedded (computed : Bytes) (front : List Fragment) (last : Fragment) :
    ((front ++ [last]).mapIdx fun index fragment =>
        payload .embedded computed (front ++ [last]).length index fragment.content) =
      front.map Fragment.content ++ [last.content ++ computed] := by
  rw [List.mapIdx_concat]
  congr 1
  · apply List.ext_getElem?
    intro index
    rw [List.getElem?_mapIdx, List.getElem?_map]
    by_cases hindex : index < front.length
    · have hne : index ≠ front.length := Nat.ne_of_lt hindex
      simp [payload, hne]
    · simp [List.getElem?_eq_none (Nat.le_of_not_lt hindex)]
  · simp [payload]

section Emitted

variable (fragmentContentCapacity : ℕ) (checksum : Checksum) {chunks : List Chunk}

theorem checksumModeOf_eq_none_iff (hchunks : chunks ≠ []) :
    checksumModeOf fragmentContentCapacity chunks = .none ↔ chunks.length < 2 := by
  unfold checksumModeOf
  cases hlast : chunks.getLast? with
  | none => exact absurd (List.getLast?_eq_none_iff.mp hlast) hchunks
  | some lastChunk =>
      by_cases hlength : 2 ≤ chunks.length
      · simp only [if_pos hlength]
        split <;> exact iff_of_false (by simp) (Nat.not_lt.mpr hlength)
      · simp only [if_neg hlength]
        exact iff_of_true trivial (Nat.lt_of_not_le hlength)

theorem emitted_of_length_lt (hchunks : chunks ≠ []) (h : chunks.length < 2) :
    emitted fragmentContentCapacity checksum chunks = chunks.map Chunk.content := by
  have hmode := (checksumModeOf_eq_none_iff fragmentContentCapacity hchunks).mpr h
  simp only [emitted, hmode]
  rw [mapIdx_payload_of_ne_embedded (by simp)]
  simp [initFragments]

theorem emitted_eq_concat (h : 2 ≤ chunks.length) :
    ∃ front last, emitted fragmentContentCapacity checksum chunks =
        front ++ [last ++ checksum.digest (bytesOf chunks)] ∧
      front.flatten ++ last = bytesOf chunks := by
  have hchunks : chunks ≠ [] := List.ne_nil_of_length_pos (by omega)
  cases hmode : checksumModeOf fragmentContentCapacity chunks with
  | none =>
      exact absurd ((checksumModeOf_eq_none_iff fragmentContentCapacity hchunks).mp hmode)
        (Nat.not_lt.mpr h)
  | embedded =>
      obtain ⟨front, last, rfl⟩ := chunks.eq_nil_or_concat'.resolve_left hchunks
      refine ⟨front.map Chunk.content, last.content, ?_, by simp [bytesOf]⟩
      have hfragments : initFragments .embedded (checksum.digest (bytesOf (front ++ [last])))
          (front ++ [last]) = front.map (fun chunk => ⟨chunk.content, false⟩) ++
            [⟨last.content, false⟩] := by
        simp [initFragments]
      simp only [emitted, hmode, hfragments]
      rw [mapIdx_payload_embedded]
      simp [Function.comp_def]
  | extra =>
      refine ⟨chunks.map Chunk.content, [], ?_, by simp [bytesOf]⟩
      simp only [emitted, hmode]
      rw [mapIdx_payload_of_ne_embedded (by simp)]
      simp [initFragments, Function.comp_def]

theorem length_emitted (chunks : List Chunk) :
    (emitted fragmentContentCapacity checksum chunks).length =
      (initFragments (checksumModeOf fragmentContentCapacity chunks)
        (checksum.digest (bytesOf chunks)) chunks).length := by
  simp [emitted]

theorem flatten_emitted_of_length_lt (hchunks : chunks ≠ [])
    (h : (emitted fragmentContentCapacity checksum chunks).length < 2) :
    (emitted fragmentContentCapacity checksum chunks).flatten = bytesOf chunks := by
  rw [length_emitted, length_initFragments] at h
  rw [emitted_of_length_lt fragmentContentCapacity checksum hchunks (by omega)]
  rfl

theorem splitChecksum_emitted (hchunks : chunks ≠ [])
    (h : 2 ≤ (emitted fragmentContentCapacity checksum chunks).length) :
    ∃ rest, splitChecksum ((emitted fragmentContentCapacity checksum chunks).map some) =
        some (checksum.digest (bytesOf chunks), rest) ∧
      receivedBytes rest = bytesOf chunks := by
  have hlength : 2 ≤ chunks.length := by
    by_contra hlt
    rw [emitted_of_length_lt fragmentContentCapacity checksum hchunks (Nat.lt_of_not_le hlt),
      List.length_map] at h
    exact hlt h
  obtain ⟨front, last, hemitted, hbytes⟩ :=
    emitted_eq_concat fragmentContentCapacity checksum hlength
  refine ⟨front.map some ++ [some last], ?_, ?_⟩
  · rw [hemitted, List.map_append, List.map_singleton, splitChecksum_concat]
  · rw [receivedBytes_concat, receivedBytes_map_some, hbytes]

end Emitted

end Delivery

end PomeloUdp
