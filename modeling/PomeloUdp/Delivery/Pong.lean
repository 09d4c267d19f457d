import PomeloUdp.Delivery.FragmentMeta
import PomeloUdp.Delivery.Parcel

/-!
# The parcels of the system bus

A ping carries a sequence number and says whether its sender wants the time; a pong answers
with the same number and, if so, with the time. The first byte has the kind of the parcel, the
lengths of the numbers and the flag. The numbers follow, low byte first.

`recvSystemParcel_ping` and `recvSystemParcel_pong` say what is read from what was written.
The length of the time is written less one and read as it is, so that its highest byte is lost:
`pong_roundTrip_iff`.
-/

namespace PomeloUdp

namespace Delivery

open LittleEndian

/-- `POMELO_DELIVERY_OPCODE_PING`. -/
def opcodePing : UInt8 := 0

/-- `POMELO_DELIVERY_OPCODE_PONG`. -/
def opcodePong : UInt8 := 1

/-- What the parcel of a system bus asks for. -/
inductive SystemParcel where
  | ping (sequence : UInt64) (timeSync : Bool)
  /-- A pong, and with a time the sequence number and the time. -/
  | pong (sync : Option (UInt64 × UInt64))
  deriving DecidableEq, Repr

section Sending

variable (context : Context) (acquired : ℕ → Bool)

/-- The first byte of a ping. -/
def pingMetaByte (sequence : UInt64) (timeSync : Bool) : UInt8 :=
  opcodePing <<< 5 ||| UInt8.ofNat ((calcPackedUint64Bytes sequence - 1) <<< 4) |||
    UInt8.ofNat (timeSync.toNat <<< 3)

/-- The chunks that `pomelo_delivery_endpoint_send_ping_ex` writes, without its assertion. -/
def sendPingEx (sequence : UInt64) (timeSync : Bool) : Option (List Chunk) :=
  writeAll context acquired
    [[pingMetaByte sequence timeSync], toLittleEndian (calcPackedUint64Bytes sequence) sequence]

/-- The first byte of a pong for the lengths of its numbers, the second one if the time is to be
sent. -/
def pongMetaByteOf (sequenceBytes : ℕ) (timeBytes : Option ℕ) : UInt8 :=
  let metaByte := opcodePong <<< 5 ||| UInt8.ofNat ((sequenceBytes - 1) <<< 4) |||
    UInt8.ofNat (timeBytes.isSome.toNat <<< 3)
  match timeBytes with
  | none => metaByte
  | some timeBytes => metaByte ||| UInt8.ofNat (timeBytes - 1)

/-- The first byte of a pong. -/
def pongMetaByte (sequence : UInt64) (time : Option UInt64) : UInt8 :=
  pongMetaByteOf (calcPackedUint64Bytes sequence) (time.map calcPackedUint64Bytes)

/-- The chunks that `pomelo_delivery_endpoint_send_pong_ex` writes, without its assertion. The
time is there if `time_sync` is set. -/
def sendPongEx (sequence : UInt64) (time : Option UInt64) : Option (List Chunk) :=
  writeAll context acquired
    ([[pongMetaByte sequence time], toLittleEndian (calcPackedUint64Bytes sequence) sequence] ++
      match time with
      | none => []
      | some time => [toLittleEndian (calcPackedUint64Bytes time) time])

end Sending

section Receiving

/-- `pomelo_delivery_endpoint_recv_ping`, up to its answer. -/
def recvPing (metaByte : UInt8) (reader : Reader) : Option SystemParcel :=
  let sequenceBytes := (metaByte >>> 4 &&& 0x01).toNat + 1
  let timeSync := (metaByte >>> 3 &&& 0x01) ≠ 0
  (reader.read sequenceBytes).map fun r => .ping (fromLittleEndian 0 0 r.1) timeSync

/-- `pomelo_delivery_endpoint_recv_pong`, up to what it does with the numbers. -/
def recvPong (metaByte : UInt8) (reader : Reader) : Option SystemParcel :=
  let timeSync := (metaByte >>> 3 &&& 0x01) ≠ 0
  if !timeSync then some (.pong none)
  else
    let sequenceBytes := (metaByte >>> 4 &&& 0x01).toNat + 1
    let timeBytes := (metaByte &&& 0x07).toNat
    (reader.read sequenceBytes).bind fun r =>
      (r.2.read timeBytes).map fun r' =>
        .pong (some (fromLittleEndian 0 0 r.1, fromLittleEndian 0 0 r'.1))

/-- `pomelo_delivery_endpoint_recv_system_parcel`. -/
def recvSystemParcel (chunks : List Bytes) : Option SystemParcel :=
  ((Reader.init chunks).read 1).bind fun r =>
    let metaByte := r.1.headD 0
    let opcode := metaByte >>> 5
    if opcode = opcodePing then recvPing metaByte r.2
    else if opcode = opcodePong then recvPong metaByte r.2
    else none

end Receiving

section RoundTrip

variable {context : Context} {acquired : ℕ → Bool} {chunks : List Chunk} {sequence time : UInt64}

theorem pingMetaByte_eq (hsequence : sequence.toNat < 65536) (timeSync : Bool) :
    pingMetaByte sequence timeSync >>> 5 = opcodePing ∧
      (pingMetaByte sequence timeSync >>> 4 &&& 0x01).toNat + 1 = calcPackedUint64Bytes sequence ∧
      decide ((pingMetaByte sequence timeSync >>> 3 &&& 0x01) ≠ 0) = timeSync := by
  have hle := calcPackedUint64Bytes_le_two hsequence
  obtain ⟨hone, -, -⟩ := calcPackedUint64Bytes_bounds sequence
  unfold pingMetaByte
  generalize calcPackedUint64Bytes sequence = bytes at hle hone
  interval_cases bytes <;> cases timeSync <;> decide

theorem pongMetaByteOf_eq {s t : ℕ} (hs : 1 ≤ s ∧ s ≤ 2) (ht : 1 ≤ t ∧ t ≤ 8) :
    pongMetaByteOf s (some t) >>> 5 = opcodePong ∧
      (pongMetaByteOf s (some t) >>> 4 &&& 0x01).toNat + 1 = s ∧
      decide ((pongMetaByteOf s (some t) >>> 3 &&& 0x01) ≠ 0) = true ∧
      (pongMetaByteOf s (some t) &&& 0x07).toNat + 1 = t := by
  obtain ⟨hs, hs'⟩ := hs
  obtain ⟨ht, ht'⟩ := ht
  interval_cases s <;> interval_cases t <;> decide

theorem fromLittleEndian_take (n k : ℕ) (hn : n ≤ 8) (hk : k ≤ n) (value : UInt64) :
    (fromLittleEndian 0 0 ((toLittleEndian n value).take k)).toNat = value.toNat % 256 ^ k := by
  have htake : (toLittleEndian n value).take k = toLittleEndian k value := by
    clear hn
    induction k generalizing n value with
    | zero => rfl
    | succ k ih =>
        obtain ⟨n, rfl⟩ : ∃ m, n = m + 1 := ⟨n - 1, by omega⟩
        rw [toLittleEndian, List.take_succ_cons, ih n (by omega), toLittleEndian]
  rw [htake, fromLittleEndian_toLittleEndian_from k 0 (by omega) 0 value value
    (by simp [Nat.mod_one]) (by simp), Nat.zero_add]

theorem recvSystemParcel_ping (hsequence : sequence.toNat < 65536) (timeSync : Bool)
    (h : sendPingEx context acquired sequence timeSync = some chunks) :
    recvSystemParcel (chunks.map Chunk.content) = some (.ping sequence timeSync) := by
  obtain ⟨hopcode, hbytes, hflag⟩ := pingMetaByte_eq hsequence timeSync
  obtain ⟨-, hle, hlt⟩ := calcPackedUint64Bytes_bounds sequence
  have hahead := Reader.ahead_init (chunks.map Chunk.content)
  have hwritten : (chunks.map Chunk.content).flatten = [pingMetaByte sequence timeSync] ++
      (toLittleEndian (calcPackedUint64Bytes sequence) sequence ++ []) := by
    rw [← bytesOf, (writeAll_packed h).2]
    rfl
  rw [hwritten] at hahead
  obtain ⟨r, hread, hahead⟩ := hahead.read
  obtain ⟨r', hread', -⟩ := hahead.read
  rw [length_toLittleEndian] at hread'
  rw [List.length_singleton] at hread
  rw [recvSystemParcel, hread, Option.bind_some]
  dsimp only [List.headD_cons]
  rw [if_pos hopcode, recvPing, hbytes, hread', Option.map_some,
    fromLittleEndian_toLittleEndian hle hlt, hflag]

theorem recvSystemParcel_pong (hsequence : sequence.toNat < 65536)
    (h : sendPongEx context acquired sequence (some time) = some chunks) :
    ∃ time' : UInt64,
      recvSystemParcel (chunks.map Chunk.content) = some (.pong (some (sequence, time'))) ∧
        time'.toNat = time.toNat % 256 ^ (calcPackedUint64Bytes time - 1) := by
  obtain ⟨hpos, hle, hlt⟩ := calcPackedUint64Bytes_bounds sequence
  obtain ⟨hone, hle', -⟩ := calcPackedUint64Bytes_bounds time
  obtain ⟨hopcode, hbytes, hflag, htime⟩ :=
    pongMetaByteOf_eq ⟨hpos, calcPackedUint64Bytes_le_two hsequence⟩ ⟨hone, hle'⟩
  change pongMetaByte sequence (some time) >>> 5 = opcodePong at hopcode
  change (pongMetaByte sequence (some time) >>> 4 &&& 0x01).toNat + 1 = _ at hbytes
  change decide ((pongMetaByte sequence (some time) >>> 3 &&& 0x01) ≠ 0) = true at hflag
  change (pongMetaByte sequence (some time) &&& 0x07).toNat + 1 = _ at htime
  have hahead := Reader.ahead_init (chunks.map Chunk.content)
  set written := toLittleEndian (calcPackedUint64Bytes time) time with hwrittenTime
  have hwritten : (chunks.map Chunk.content).flatten = [pongMetaByte sequence (some time)] ++
      (toLittleEndian (calcPackedUint64Bytes sequence) sequence ++
        (written.take (calcPackedUint64Bytes time - 1) ++
          written.drop (calcPackedUint64Bytes time - 1))) := by
    rw [← bytesOf, (writeAll_packed h).2, List.take_append_drop]
    simp [hwrittenTime]
  rw [hwritten] at hahead
  obtain ⟨r, hread, hahead⟩ := hahead.read
  obtain ⟨r', hread', hahead⟩ := hahead.read
  obtain ⟨r'', hread'', -⟩ := hahead.read
  have hlength : (written.take (calcPackedUint64Bytes time - 1)).length =
      (pongMetaByte sequence (some time) &&& 0x07).toNat := by
    rw [List.length_take, hwrittenTime, length_toLittleEndian]
    omega
  rw [length_toLittleEndian] at hread'
  rw [List.length_singleton] at hread
  rw [hlength] at hread''
  refine ⟨fromLittleEndian 0 0 (written.take (calcPackedUint64Bytes time - 1)), ?_,
    fromLittleEndian_take _ _ hle' (by omega) time⟩
  rw [recvSystemParcel, hread, Option.bind_some]
  dsimp only [List.headD_cons]
  rw [if_neg (by rw [hopcode]; decide), if_pos hopcode, recvPong, hflag]
  dsimp only [Bool.not_true, Bool.false_eq_true, if_false]
  rw [if_neg (by decide), hbytes, hread', Option.bind_some, hread'', Option.map_some,
    fromLittleEndian_toLittleEndian hle hlt]

theorem pow_le_of_calcPackedUint64Bytes {value : UInt64}
    (h : 1 < calcPackedUint64Bytes value) :
    256 ^ (calcPackedUint64Bytes value - 1) ≤ value.toNat := by
  obtain ⟨-, -, -, hone | hpow⟩ := calcPackedUint64Bytes_spec value
  · exact absurd hone h.ne'
  · exact hpow

/-- A pong gives its sequence number and its time exactly if the time is zero. -/
theorem pong_roundTrip_iff (hsequence : sequence.toNat < 65536)
    (h : sendPongEx context acquired sequence (some time) = some chunks) :
    recvSystemParcel (chunks.map Chunk.content) = some (.pong (some (sequence, time))) ↔
      time = 0 := by
  obtain ⟨time', hrecv, htime'⟩ := recvSystemParcel_pong hsequence h
  obtain ⟨hone, -, -⟩ := calcPackedUint64Bytes_bounds time
  rw [hrecv, Option.some_inj, SystemParcel.pong.injEq, Option.some_inj, Prod.mk.injEq]
  constructor
  · rintro ⟨-, rfl⟩
    by_cases hbytes : 1 < calcPackedUint64Bytes time'
    · have hle := pow_le_of_calcPackedUint64Bytes hbytes
      have hlt := Nat.mod_lt time'.toNat (Nat.pow_pos (n := calcPackedUint64Bytes time' - 1)
        (show 0 < 256 by decide))
      rw [← htime'] at hlt
      exact absurd hle (Nat.not_le.mpr hlt)
    · rw [show calcPackedUint64Bytes time' - 1 = 0 by omega, pow_zero, Nat.mod_one] at htime'
      exact UInt64.toNat_inj.mp htime'
  · rintro rfl
    exact ⟨rfl, UInt64.toNat_inj.mp (by simpa using htime')⟩

/-- A context with room for a pong in one fragment. -/
def pongContext : Context := ⟨1000, 10, 1000, by decide, by decide, by decide, by decide⟩

/-- A pong at the start of the clock. -/
theorem pong_roundTrip_zero :
    recvSystemParcel [[0x28, 7, 0]] = some (.pong (some (7, 0))) := by
  have hsend : sendPongEx pongContext (fun _ => true) 7 (some 0) =
      some [⟨[0x28, 7, 0], 1000⟩] := by
    decide +kernel
  exact (pong_roundTrip_iff (by decide) hsend).mpr rfl

/-- A pong a millisecond later: the time is read as 16960. -/
theorem not_pong_roundTrip_millisecond :
    sendPongEx pongContext (fun _ => true) 7 (some 1000000) =
        some [⟨[0x2A, 7, 0x40, 0x42, 0x0F], 1000⟩] ∧
      recvSystemParcel [[0x2A, 7, 0x40, 0x42, 0x0F]] ≠ some (.pong (some (7, 1000000))) := by
  have hrecv : recvSystemParcel [[0x2A, 7, 0x40, 0x42, 0x0F]] = some (.pong (some (7, 16960))) := by
    decide +kernel
  exact ⟨by decide +kernel, by rw [hrecv]; decide⟩

end RoundTrip

end Delivery

end PomeloUdp
