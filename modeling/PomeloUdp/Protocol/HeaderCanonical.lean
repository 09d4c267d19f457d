import PomeloUdp.Protocol.PacketRoundTrip

/-!
# Which headers are canonical

The sender writes the prefix 0 for a request, and for any other packet its type and the least
number of sequence bytes. The decoder also takes a prefix with the type of a request and a number
of sequence bytes, and more sequence bytes than the number needs. The associated data holds the
prefix that the sender would have written for the decoded number, so the cipher does not tell
such a header from the one that was sent: `headerAuthentic_iff`.
-/

namespace PomeloUdp

namespace Codec

open Memory LittleEndian Payload Aead

open Protocol (PacketType)

/-- The bytes a view shows. -/
def BufferView.bytes (view : BufferView) : List UInt8 := load view.memory view.offset view.length

@[simp] theorem BufferView.length_bytes (view : BufferView) : view.bytes.length = view.length :=
  length_load _ _ _

/-- The header that the sender emits for a packet. -/
def IsHeaderOf (bytes : List UInt8) (packet : OutgoingPacket) : Prop :=
  (headerEncode ⟨fun _ => 0, bufferCapacity, 0, 0⟩ (headerInit packet)).map BufferView.bytes =
    some bytes

theorem isHeaderOf_iff {bytes : List UInt8} {packet : OutgoingPacket} :
    IsHeaderOf bytes packet ↔ bytes = headerBytes (headerInit packet) := by
  rw [IsHeaderOf, headerEncode_eq, Option.map_some, BufferView.bytes]
  dsimp only
  rw [← length_headerBytes, load_store, Option.some.injEq, eq_comm]

section Read

/-- The header at the front of bytes. -/
def readHeader : List UInt8 → Option Header
  | [] => none
  | prefixByte :: rest =>
      if prefixByte = 0 then some ⟨0, .request, 0, 0⟩
      else
        (ofTypeCode? (prefixByte >>> 4)).bind fun type =>
          let sequenceBytes := (prefixByte &&& 0x0F).toNat
          if 8 < sequenceBytes ∨ sequenceBytes < 1 then none
          else if rest.length < sequenceBytes then none
          else
            some ⟨prefixByte, type, fromLittleEndian 0 0 (rest.take sequenceBytes), sequenceBytes⟩

theorem BufferView.holds_bytes (view : BufferView) : view.reader.Holds view.bytes :=
  ⟨by simp [BufferView.reader], by rw [BufferView.length_bytes]; rfl⟩

theorem headerDecode_eq_readHeader (view : BufferView) :
    headerDecode view = (readHeader view.bytes).map fun header =>
      (header, { view with
        offset := view.offset + (1 + header.sequenceBytes)
        length := view.length - (1 + header.sequenceBytes) }) := by
  have hlength := view.length_bytes
  have hp := view.holds_bytes
  cases hbytes : view.bytes with
  | nil =>
      rw [hbytes, List.length_nil] at hlength
      rw [headerDecode, Payload.readUint8, Payload.tryRead, if_pos]
      · rfl
      · rw [BufferView.reader, ← hlength]
        exact Nat.one_pos
  | cons prefixByte rest =>
      rw [hbytes] at hp hlength
      rw [List.length_cons] at hlength
      have hfirst : view.reader.Holds ([prefixByte] ++ rest) := hp
      have hrest := hfirst.right
      rw [headerDecode, hfirst.readUint8, Option.bind_some, readHeader]
      dsimp only
      by_cases hzero : prefixByte = 0
      · rw [if_pos hzero, if_pos hzero]
        rfl
      · rw [if_neg hzero, if_neg hzero]
        cases ofTypeCode? (prefixByte >>> 4) with
        | none => rfl
        | some type =>
            dsimp only [Option.bind_some]
            by_cases hcount : 8 < (prefixByte &&& 0x0F).toNat ∨ (prefixByte &&& 0x0F).toNat < 1
            · rw [if_pos hcount, if_pos hcount]
              rfl
            · rw [if_neg hcount, if_neg hcount]
              set n := (prefixByte &&& 0x0F).toNat
              by_cases hshort : rest.length < n
              · rw [if_pos hshort, readPackedUint64, tryRead, if_pos]
                · rfl
                · simp only [advance, BufferView.reader]
                  omega
              · rw [if_neg hshort]
                have htake : (rest.take n).length = n := by
                  rw [List.length_take]
                  omega
                have hread : ((view.reader.advance 1).Holds (rest.take n ++ rest.drop n)) := by
                  rwa [List.take_append_drop]
                have htry := hread.tryRead
                rw [htake] at htry
                rw [readPackedUint64, htry]
                rfl

/-- What a header that was read says about the bytes. -/
inductive Yields : List UInt8 → Header → Prop where
  | request (rest : List UInt8) : Yields (0 :: rest) ⟨0, .request, 0, 0⟩
  | other {prefixByte : UInt8} {type : PacketType} {sequence : UInt64} {n : ℕ} (rest : List UInt8)
      (hbyte : prefixByte ≠ 0) (htype : ofTypeCode? (prefixByte >>> 4) = some type)
      (hcount : (prefixByte &&& 0x0F).toNat = n) (hone : 1 ≤ n) (hle : n ≤ 8)
      (hsequence : sequence.toNat < 256 ^ n) :
      Yields (prefixByte :: (toLittleEndian n sequence ++ rest)) ⟨prefixByte, type, sequence, n⟩

theorem yields_of_readHeader {bytes : List UInt8} {header : Header}
    (h : readHeader bytes = some header) : Yields bytes header := by
  cases bytes with
  | nil => cases h
  | cons prefixByte rest =>
      rw [readHeader] at h
      by_cases hzero : prefixByte = 0
      · rw [if_pos hzero] at h
        rw [hzero, ← Option.some.inj h]
        exact .request rest
      · rw [if_neg hzero] at h
        obtain ⟨type, htype, h⟩ := Option.bind_eq_some_iff.mp h
        dsimp only at h
        split at h
        · cases h
        next hcount =>
          split at h
          · cases h
          next hlength =>
            set n := (prefixByte &&& 0x0F).toNat with hn
            have htake : (rest.take n).length = n := by
              rw [List.length_take]
              omega
            obtain ⟨sequence, hsequence, hbytes⟩ :=
              @exists_toLittleEndian (rest.take n) (by omega)
            rw [htake] at hsequence hbytes
            rw [← hbytes, fromLittleEndian_toLittleEndian (by omega) hsequence] at h
            rw [← Option.some.inj h, ← List.take_append_drop n rest, ← hbytes]
            exact .other (rest.drop n) hzero htype hn.symm (by omega) (by omega) hsequence

theorem Yields.take {bytes : List UInt8} {header : Header} (h : Yields bytes header) :
    bytes.take (1 + header.sequenceBytes) = headerBytes header := by
  cases h with
  | request rest => rfl
  | @other prefixByte type sequence n rest hbyte htype hcount hone hle hsequence =>
      rw [Nat.add_comm, List.take_succ_cons, List.take_left' (length_toLittleEndian n sequence)]
      rfl

end Read

section Minimal

theorem prefixEncode_of_decode {prefixByte : UInt8} {type : PacketType}
    (htype : ofTypeCode? (prefixByte >>> 4) = some type) :
    prefixEncode type (prefixByte &&& 0x0F).toNat = prefixByte := by
  have hall : ∀ k : Fin 256, ∀ type ∈ ofTypeCode? (UInt8.ofNat k >>> 4),
      prefixEncode type (UInt8.ofNat k &&& 0x0F).toNat = UInt8.ofNat k := by
    decide +kernel
  have hbyte := hall ⟨prefixByte.toNat, prefixByte.toNat_lt⟩
  rw [UInt8.ofNat_toNat] at hbyte
  exact hbyte type htype

theorem exists_packet (type : PacketType) (sequence : UInt64) :
    ∃ packet : OutgoingPacket, packet.type = type ∧ packet.sequence = sequence := by
  cases type with
  | request =>
      exact ⟨⟨sequence, .request 0 0 (Vector.replicate 24 0) (Vector.replicate 1024 0)⟩, rfl, rfl⟩
  | denied => exact ⟨⟨sequence, .denied⟩, rfl, rfl⟩
  | challenge => exact ⟨⟨sequence, .challenge 0 ⟨0, Vector.replicate 256 0⟩⟩, rfl, rfl⟩
  | response => exact ⟨⟨sequence, .response 0 (Vector.replicate 300 0)⟩, rfl, rfl⟩
  | keepAlive => exact ⟨⟨sequence, .keepAlive 0⟩, rfl, rfl⟩
  | payload => exact ⟨⟨sequence, .payload []⟩, rfl, rfl⟩
  | disconnect => exact ⟨⟨sequence, .disconnect⟩, rfl, rfl⟩

theorem headerInit_of_ne {packet : OutgoingPacket} (h : packet.type ≠ .request) :
    headerInit packet = ⟨prefixEncode packet.type (calcPackedUint64Bytes packet.sequence),
      packet.type, packet.sequence, calcPackedUint64Bytes packet.sequence⟩ := by
  rw [headerInit, if_neg h]

theorem prefixEncode_inj {type type' : PacketType} (htype : type ≠ .request)
    (htype' : type' ≠ .request) {value value' : UInt64}
    (h : prefixEncode type (calcPackedUint64Bytes value) =
      prefixEncode type' (calcPackedUint64Bytes value')) :
    type = type' ∧ calcPackedUint64Bytes value = calcPackedUint64Bytes value' := by
  obtain ⟨hone, hle, -⟩ := calcPackedUint64Bytes_bounds value
  obtain ⟨hone', hle', -⟩ := calcPackedUint64Bytes_bounds value'
  obtain ⟨-, hdecode, hcount⟩ := prefixEncode_decode htype hone hle
  obtain ⟨-, hdecode', hcount'⟩ := prefixEncode_decode htype' hone' hle'
  rw [h] at hdecode hcount
  exact ⟨Option.some.inj (hdecode.symm.trans hdecode'), hcount.symm.trans hcount'⟩

/-- The header is the one that the sender writes for its type and number. -/
def Header.Minimal (header : Header) : Prop :=
  header.prefixByte = 0 ∨
    header.type ≠ .request ∧ header.sequenceBytes = calcPackedUint64Bytes header.sequence

theorem Yields.minimal_iff {bytes : List UInt8} {header : Header} (h : Yields bytes header) :
    header.Minimal ↔ ∃ packet, headerBytes header = headerBytes (headerInit packet) := by
  cases h with
  | request rest =>
      obtain ⟨packet, htype, -⟩ := exists_packet .request 0
      exact iff_of_true (.inl rfl) ⟨packet, by rw [headerInit_request htype]⟩
  | @other prefixByte type sequence n rest hbyte htype hcount hone hle hsequence =>
      constructor
      · rintro (hzero | ⟨hrequest, hcalc⟩)
        · exact absurd hzero hbyte
        · obtain ⟨packet, rfl, rfl⟩ := exists_packet type sequence
          refine ⟨packet, ?_⟩
          dsimp only at hcalc
          rw [headerInit_of_ne hrequest, ← hcalc, ← hcount, prefixEncode_of_decode htype]
      · rintro ⟨packet, hbytes⟩
        have hfirst : prefixByte = (headerInit packet).prefixByte := (List.cons.inj hbytes).1
        have hrest : toLittleEndian n sequence =
            toLittleEndian (headerInit packet).sequenceBytes (headerInit packet).sequence :=
          (List.cons.inj hbytes).2
        have hpacket : packet.type ≠ .request := by
          intro hpacket
          rw [headerInit_request hpacket] at hfirst
          exact hbyte hfirst
        rw [headerInit_of_ne hpacket] at hfirst hrest
        dsimp only at hfirst hrest
        obtain ⟨hone', hle', hvalue⟩ := calcPackedUint64Bytes_bounds packet.sequence
        obtain ⟨-, hdecode, hcount'⟩ := prefixEncode_decode hpacket hone' hle'
        rw [← hfirst] at hdecode hcount'
        rw [← hcount, hcount'] at hrest hsequence ⊢
        have hsame := congrArg (fromLittleEndian 0 0) hrest
        rw [fromLittleEndian_toLittleEndian hle' hsequence,
          fromLittleEndian_toLittleEndian hle' hvalue] at hsame
        refine .inr ⟨?_, ?_⟩
        · rw [Option.some.inj (htype.symm.trans hdecode)]
          exact hpacket
        · rw [hsame]

theorem Header.Minimal.headerBytes_eq {header : Header} {packet : OutgoingPacket}
    {bytes : List UInt8} (h : header.Minimal) (hyields : Yields bytes header)
    (hrequest : header.type ≠ .request) (htype : header.type = packet.type)
    (hsequence : header.sequence = packet.sequence) :
    headerBytes header = headerBytes (headerInit packet) := by
  cases hyields with
  | request rest => exact absurd rfl hrequest
  | @other prefixByte type sequence n rest hbyte hdecode hcount hone hle hvalue =>
      obtain ⟨-, hcalc⟩ := h.resolve_left hbyte
      dsimp only at hrequest htype hsequence hcalc
      subst htype hsequence
      rw [headerInit_of_ne hrequest, ← hcalc, ← hcount, prefixEncode_of_decode hdecode]

end Minimal

section Canonical

/-- The bytes do not begin with a header, or with one that has the prefix 0, or with one of
another type than a request whose last sequence byte is not 0, if there are several. -/
def CanonicalHeader : List UInt8 → Prop
  | [] => True
  | prefixByte :: rest =>
      prefixByte = 0 ∨ (6 : UInt8) < prefixByte >>> 4 ∨
        ((prefixByte &&& 0x0F).toNat < 1 ∨ 8 < (prefixByte &&& 0x0F).toNat ∨
          rest.length < (prefixByte &&& 0x0F).toNat) ∨
        (prefixByte >>> 4 ≠ 0 ∧ ((prefixByte &&& 0x0F).toNat = 1 ∨
          rest[(prefixByte &&& 0x0F).toNat - 1]? ≠ some 0))

theorem ofTypeCode?_eq_none_iff (code : UInt8) : ofTypeCode? code = none ↔ 6 < code := by
  have hall : ∀ k : Fin 256, ofTypeCode? (UInt8.ofNat k) = none ↔ 6 < UInt8.ofNat k := by
    decide +kernel
  have hcode := hall ⟨code.toNat, code.toNat_lt⟩
  rwa [UInt8.ofNat_toNat] at hcode

theorem ofTypeCode?_request_iff {code : UInt8} {type : PacketType}
    (h : ofTypeCode? code = some type) : type = .request ↔ code = 0 := by
  constructor
  · rintro rfl
    by_contra hne
    rw [ofTypeCode?, if_neg hne] at h
    split_ifs at h <;> cases h
  · rintro rfl
    exact (Option.some.inj h).symm

theorem canonicalHeader_of_none {bytes : List UInt8} (h : readHeader bytes = none) :
    CanonicalHeader bytes := by
  cases bytes with
  | nil => trivial
  | cons prefixByte rest =>
      rw [readHeader] at h
      split at h
      · cases h
      next hzero =>
        cases htype : ofTypeCode? (prefixByte >>> 4) with
        | none => exact .inr (.inl ((ofTypeCode?_eq_none_iff _).mp htype))
        | some type =>
            rw [htype, Option.bind_some] at h
            dsimp only at h
            split at h
            next hcount => exact .inr (.inr (.inl (hcount.symm.imp_right .inl)))
            next hcount =>
              split at h
              next hlength => exact .inr (.inr (.inl (.inr (.inr hlength))))
              · cases h

theorem calcPackedUint64Bytes_eq_iff_getElem? {sequence : UInt64} {n : ℕ} (rest : List UInt8)
    (hone : 1 ≤ n) (hle : n ≤ 8) (hsequence : sequence.toNat < 256 ^ n) :
    n = calcPackedUint64Bytes sequence ↔
      n = 1 ∨ (toLittleEndian n sequence ++ rest)[n - 1]? ≠ some 0 := by
  have hlast : n - 1 < (toLittleEndian n sequence).length := by
    rw [length_toLittleEndian]
    omega
  have hdigit : sequence.toNat / 256 ^ (n - 1) < 256 := by
    rw [Nat.div_lt_iff_lt_mul (Nat.pow_pos (by decide)), ← Nat.pow_succ']
    rwa [Nat.succ_eq_add_one, Nat.sub_add_cancel hone]
  have hzero : (toLittleEndian n sequence)[n - 1] = 0 ↔ sequence.toNat < 256 ^ (n - 1) := by
    rw [← UInt8.toNat_inj, toNat_getElem_toLittleEndian, Nat.mod_eq_of_lt hdigit]
    exact Nat.div_eq_zero_iff_lt (Nat.pow_pos (by decide))
  rw [eq_comm, calcPackedUint64Bytes_eq_iff hone hsequence,
    List.getElem?_append_left hlast, List.getElem?_eq_getElem hlast, Ne, Option.some.injEq, hzero,
    Nat.not_lt]

theorem Yields.canonical_iff {bytes : List UInt8} {header : Header} (h : Yields bytes header) :
    CanonicalHeader bytes ↔ header.Minimal := by
  cases h with
  | request rest => exact iff_of_true (.inl rfl) (.inl rfl)
  | @other prefixByte type sequence n rest hbyte htype hcount hone hle hsequence =>
      have hlength : n ≤ (toLittleEndian n sequence ++ rest).length := by
        rw [List.length_append, length_toLittleEndian]
        exact Nat.le_add_right _ _
      have hcode : ¬ (6 : UInt8) < prefixByte >>> 4 := by
        rw [← ofTypeCode?_eq_none_iff, htype]
        exact nofun
      have hmalformed : ¬ (n < 1 ∨ 8 < n ∨ (toLittleEndian n sequence ++ rest).length < n) := by
        omega
      rw [CanonicalHeader, hcount]
      simp only [hbyte, hcode, hmalformed, false_or]
      rw [Header.Minimal]
      dsimp only
      have hrequest : type ≠ .request ↔ prefixByte >>> 4 ≠ 0 :=
        not_congr (ofTypeCode?_request_iff htype)
      rw [hrequest, calcPackedUint64Bytes_eq_iff_getElem? rest hone hle hsequence]
      exact ⟨.inr, fun h => h.resolve_left hbyte⟩

end Canonical

/-! The packets of `Protocol.Datagram` stand for the bytes: their lengths pass the same check, and
their associated data are equal exactly if the bytes are. -/

section Symbolic

theorem validateBodyLength_eq {type : PacketType} (htype : type ≠ .request) {length : ℕ}
    (hlt : length < 2 ^ 64) :
    validateBodyLength type (.ofNat length) true = Protocol.validateBodyLength type length := by
  have hlength : (UInt64.ofNat length - UInt64.ofNat hmacBytes).toNat =
      if hmacBytes ≤ length then length - hmacBytes else 2 ^ 64 + length - hmacBytes := by
    rw [UInt64.toNat_sub, UInt64.toNat_ofNat_of_lt' hlt, hmacBytes,
      UInt64.toNat_ofNat_of_lt' (by decide)]
    split <;> omega
  unfold validateBodyLength Protocol.validateBodyLength
  rw [if_pos ⟨rfl, htype⟩]
  dsimp only
  rw [hlength]
  by_cases hle : hmacBytes ≤ length
  · rw [if_pos hle, decide_eq_true hle, Bool.true_and]
    cases type <;> first | exact absurd rfl htype | rfl
  · rw [if_neg hle, decide_eq_false hle, Bool.false_and]
    simp only [hmacBytes, packetBodyCapacity, challengeBodySize] at hle ⊢
    cases type with
    | request => exact absurd rfl htype
    | payload => exact Bool.and_eq_false_iff.mpr (.inr (decide_eq_false (by omega)))
    | denied | challenge | response | keepAlive | disconnect => exact decide_eq_false (by omega)

theorem makeAssociatedData_eq_iff {ctx ctx' : CryptoContext} {s s' : Protocol.CryptoContext}
    (hctx : s.protocolId = ctx.protocolId) (hctx' : s'.protocolId = ctx'.protocolId)
    {header header' : Protocol.Header} (htype : header.type ≠ .request)
    (htype' : header'.type ≠ .request) :
    makeAssociatedData ctx (prefixEncode header.type (calcPackedUint64Bytes header.sequence)) =
        makeAssociatedData ctx'
          (prefixEncode header'.type (calcPackedUint64Bytes header'.sequence)) ↔
      s.makeAssociatedData header = s'.makeAssociatedData header' := by
  unfold makeAssociatedData Protocol.CryptoContext.makeAssociatedData
  rw [hctx, hctx']
  constructor
  · intro h
    obtain ⟨hfront, hprefix⟩ := List.append_inj' h rfl
    have hid := congrArg (fromLittleEndian 0 0) (List.append_inj_right hfront rfl)
    rw [fromLittleEndian_toLittleEndian (Nat.le_refl 8) ctx.protocolId.toNat_lt,
      fromLittleEndian_toLittleEndian (Nat.le_refl 8) ctx'.protocolId.toNat_lt] at hid
    obtain ⟨hsame, hcount⟩ := prefixEncode_inj htype htype' (List.singleton_inj.mp hprefix)
    rw [hid, hsame, hcount]
  · intro h
    obtain ⟨hid, hsame, hcount⟩ := Protocol.PacketAd.mk.inj h
    rw [hid, hsame, hcount]

end Symbolic

section Authentic

variable (cipher : PacketCipher) (sender receiver : CryptoContext) (sent : List OutgoingPacket)
  (view : BufferView)

/-- The associated data that goes with a type and a sequence number. -/
def associatedDataOf (ctx : CryptoContext) (type : PacketType) (sequence : UInt64) : List UInt8 :=
  makeAssociatedData ctx (prefixEncode type (calcPackedUint64Bytes sequence))

/-- The sender has encrypted the body of a packet to this ciphertext, with the associated data and
the nonce. -/
def Emitted (packet : OutgoingPacket) (ciphertext ad nonce : List UInt8) : Prop :=
  packet.type ≠ .request ∧ ciphertext = wireBody cipher sender false packet ∧
    ad = associatedDataOf sender packet.type packet.sequence ∧ nonce = makeNonce packet.sequence

/-- An ideal cipher: what the receiver opens in a datagram is what the sender has encrypted with
the same associated data and the same nonce. -/
def IdealCipher : Prop :=
  ∀ header body, headerDecode view = some (header, body) → header.type ≠ .request →
    ∀ message, cipher.decrypt body.bytes (associatedDataOf receiver header.type header.sequence)
        (makeNonce header.sequence) receiver.packetDecryptKey = some message →
      ∃ packet ∈ sent, Emitted cipher sender packet body.bytes
        (associatedDataOf receiver header.type header.sequence) (makeNonce header.sequence)

/-- The decoder takes only headers of the encoder, and what decrypts has the header on the wire
with which the sender emitted it. -/
structure HeaderAuthentic : Prop where
  canonical : ∀ header body, headerDecode view = some (header, body) →
    ∃ packet, IsHeaderOf (view.bytes.take (1 + header.sequenceBytes)) packet
  authentic : ∀ header body, headerDecode view = some (header, body) → header.type ≠ .request →
    ∀ decrypted, decryptPacket cipher receiver body header = some decrypted →
      ∃ packet ∈ sent, body.bytes = wireBody cipher sender false packet ∧
        IsHeaderOf (view.bytes.take (1 + header.sequenceBytes)) packet

end Authentic

section Theorem

variable {cipher : PacketCipher} {sender receiver : CryptoContext} {sent : List OutgoingPacket}
  {view : BufferView}

theorem makeNonce_inj {sequence sequence' : UInt64} (h : makeNonce sequence = makeNonce sequence') :
    sequence = sequence' := by
  have hbytes := congrArg (fromLittleEndian 0 0) (List.append_cancel_left h)
  rwa [fromLittleEndian_toLittleEndian (by decide) sequence.toNat_lt,
    fromLittleEndian_toLittleEndian (by decide) sequence'.toNat_lt] at hbytes

theorem associatedDataOf_inj {type type' : PacketType} (htype : type ≠ .request)
    (htype' : type' ≠ .request) {sequence sequence' : UInt64}
    (h : associatedDataOf receiver type sequence = associatedDataOf sender type' sequence') :
    type = type' := by
  have hlast := congrArg List.getLast? h
  rw [associatedDataOf, associatedDataOf, makeAssociatedData, makeAssociatedData,
    List.getLast?_concat, List.getLast?_concat, Option.some.injEq] at hlast
  exact (prefixEncode_inj htype htype' hlast).1

theorem exists_message_of_decryptPacket {body decrypted : BufferView} {header : Header}
    (hrequest : header.type ≠ .request)
    (h : decryptPacket cipher receiver body header = some decrypted) :
    ∃ message, cipher.decrypt body.bytes (associatedDataOf receiver header.type header.sequence)
      (makeNonce header.sequence) receiver.packetDecryptKey = some message := by
  rw [decryptPacket, if_neg hrequest] at h
  split at h
  · cases h
  · obtain ⟨message, hmessage, -⟩ := Option.map_eq_some_iff.mp h
    exact ⟨message, hmessage⟩

theorem exists_decryptPacket {body : BufferView} {header : Header} {message : List UInt8}
    (hrequest : header.type ≠ .request) (hlength : hmacBytes ≤ body.length)
    (h : cipher.decrypt body.bytes (associatedDataOf receiver header.type header.sequence)
      (makeNonce header.sequence) receiver.packetDecryptKey = some message) :
    ∃ decrypted, decryptPacket cipher receiver body header = some decrypted := by
  rw [decryptPacket, if_neg hrequest, if_neg (Nat.not_lt.mpr hlength)]
  exact ⟨_, congrArg (Option.map _) h⟩

/-- With an ideal cipher, the header of a datagram is one of the encoder, and the one that was
sent, if and only if its bytes are canonical. -/
theorem headerAuthentic_iff (hideal : IdealCipher cipher sender receiver sent view) :
    HeaderAuthentic cipher sender receiver sent view ↔ CanonicalHeader view.bytes := by
  cases hread : readHeader view.bytes with
  | none =>
      have hdecode : headerDecode view = none := by
        rw [headerDecode_eq_readHeader, hread]
        rfl
      refine iff_of_true ⟨?_, ?_⟩ (canonicalHeader_of_none hread)
      · intro header body h
        rw [hdecode] at h
        cases h
      · intro header body h
        rw [hdecode] at h
        cases h
  | some header =>
      have hyields := yields_of_readHeader hread
      have hdecode := headerDecode_eq_readHeader view
      rw [hread, Option.map_some] at hdecode
      rw [hyields.canonical_iff]
      constructor
      · intro h
        obtain ⟨packet, hpacket⟩ := h.canonical _ _ hdecode
        rw [isHeaderOf_iff, hyields.take] at hpacket
        exact hyields.minimal_iff.mpr ⟨packet, hpacket⟩
      · intro hminimal
        refine ⟨?_, ?_⟩
        · intro header' body h
          obtain ⟨rfl, rfl⟩ := Prod.mk.inj (Option.some.inj (hdecode.symm.trans h))
          obtain ⟨packet, hpacket⟩ := hyields.minimal_iff.mp hminimal
          exact ⟨packet, isHeaderOf_iff.mpr (hyields.take.trans hpacket)⟩
        · intro header' body h hrequest decrypted hdecrypted
          obtain ⟨rfl, -⟩ := Prod.mk.inj (Option.some.inj (hdecode.symm.trans h))
          obtain ⟨message, hmessage⟩ := exists_message_of_decryptPacket hrequest hdecrypted
          obtain ⟨packet, hsent, hpacket, hbody, had, hnonce⟩ :=
            hideal _ _ h hrequest message hmessage
          have htype := associatedDataOf_inj hrequest hpacket had
          have hheader := hminimal.headerBytes_eq hyields hrequest htype (makeNonce_inj hnonce)
          exact ⟨packet, hsent, hbody, isHeaderOf_iff.mpr (hyields.take.trans hheader)⟩

end Theorem

section Example

/-- The tag of sixteen bytes of a key, a nonce and the last byte of the associated data. -/
def exampleTag (ad nonce : List UInt8) (key : Vector UInt8 32) : List UInt8 :=
  (key[0] :: ad.getLastD 0 :: nonce ++ List.replicate 16 0).take 16

theorem length_exampleTag (ad nonce : List UInt8) (key : Vector UInt8 32) :
    (exampleTag ad nonce key).length = hmacBytes := by
  rw [exampleTag, List.length_take]
  simp [hmacBytes]

/-- A cipher that opens only what has the right tag. -/
def taggedCipher : PacketCipher where
  encrypt message ad nonce key := message ++ exampleTag ad nonce key
  decrypt ciphertext ad nonce key :=
    if ciphertext.drop (ciphertext.length - hmacBytes) = exampleTag ad nonce key then
      some (ciphertext.take (ciphertext.length - hmacBytes))
    else none
  length_encrypt message ad nonce key := by
    rw [List.length_append, length_exampleTag]
  decrypt_encrypt message ad nonce key := by
    rw [List.length_append, length_exampleTag, Nat.add_sub_cancel, List.drop_left, if_pos rfl,
      List.take_left]

/-- Both sides of an example. -/
def exampleContext : CryptoContext :=
  ⟨7, Vector.replicate 32 3, Vector.replicate 32 3, Vector.replicate 32 0, Vector.replicate 32 0⟩

/-- A keep-alive packet with the number 5. -/
def fifthKeepAlive : OutgoingPacket := ⟨5, .keepAlive 1⟩

/-- A view of bytes. -/
def showing (bytes : List UInt8) : BufferView :=
  ⟨store (fun _ => 0) 0 bytes, bufferCapacity, 0, bytes.length⟩

theorem bytes_showing (bytes : List UInt8) : (showing bytes).bytes = bytes :=
  load_store (fun _ => 0) 0 bytes

theorem bytes_of_headerDecode {view body : BufferView} {header : Header}
    (h : headerDecode view = some (header, body)) :
    readHeader view.bytes = some header ∧
      body.bytes = view.bytes.drop (1 + header.sequenceBytes) := by
  rw [headerDecode_eq_readHeader] at h
  obtain ⟨header', hread, heq⟩ := Option.map_eq_some_iff.mp h
  obtain ⟨rfl, rfl⟩ := Prod.mk.inj heq
  exact ⟨hread, (drop_load _ _ _ _).symm⟩

theorem idealCipher_fifthKeepAlive (wire : List UInt8)
    (hwire : wire = [0x41, 5] ∨ wire = [0x42, 5, 0]) :
    IdealCipher taggedCipher exampleContext exampleContext [fifthKeepAlive]
      (showing (wire ++ wireBody taggedCipher exampleContext false fifthKeepAlive)) := by
  intro header body hdecode hrequest message hmessage
  obtain ⟨hread, hbody⟩ := bytes_of_headerDecode hdecode
  rw [bytes_showing] at hread hbody
  refine ⟨fifthKeepAlive, List.mem_singleton_self _, nofun, ?_⟩
  rcases hwire with rfl | rfl
  · obtain rfl : (⟨0x41, .keepAlive, 5, 1⟩ : Header) = header := Option.some.inj hread
    exact ⟨hbody, rfl, rfl⟩
  · obtain rfl : (⟨0x42, .keepAlive, 5, 2⟩ : Header) = header := Option.some.inj hread
    exact ⟨hbody, rfl, rfl⟩

/-- The datagram of the keep-alive packet. -/
theorem headerAuthentic_iff_fifthKeepAlive :
    HeaderAuthentic taggedCipher exampleContext exampleContext [fifthKeepAlive]
      (showing ([0x41, 5] ++ wireBody taggedCipher exampleContext false fifthKeepAlive)) := by
  apply (headerAuthentic_iff (idealCipher_fifthKeepAlive _ (.inl rfl))).mpr
  rw [bytes_showing]
  exact .inr (.inr (.inr ⟨by decide, .inl rfl⟩))

/-- The same packet with a sequence byte more: it is decoded and decrypted, with a header that
nobody has sent. -/
theorem not_headerAuthentic_longer :
    ¬ ∀ (cipher : PacketCipher) (sender receiver : CryptoContext) (sent : List OutgoingPacket)
      (view : BufferView), IdealCipher cipher sender receiver sent view →
        HeaderAuthentic cipher sender receiver sent view := by
  intro h
  have hauthentic := h _ _ _ _ _ (idealCipher_fifthKeepAlive _ (.inr rfl))
  obtain ⟨body, hdecode⟩ : ∃ body, headerDecode (showing ([0x42, 5, 0] ++
      wireBody taggedCipher exampleContext false fifthKeepAlive)) =
      some (⟨0x42, .keepAlive, 5, 2⟩, body) := by
    rw [headerDecode_eq_readHeader, bytes_showing]
    exact ⟨_, rfl⟩
  obtain ⟨hread, hbody⟩ := bytes_of_headerDecode hdecode
  rw [bytes_showing] at hbody
  have hlength : hmacBytes ≤ body.length := by
    rw [← body.length_bytes, hbody]
    decide
  have hopen : taggedCipher.decrypt body.bytes
      (associatedDataOf exampleContext .keepAlive 5) (makeNonce 5)
      exampleContext.packetDecryptKey =
      some (bodyBytes taggedCipher exampleContext fifthKeepAlive.body) := by
    rw [hbody]
    exact taggedCipher.decrypt_encrypt _ _ _ _
  obtain ⟨decrypted, hdecrypted⟩ :=
    @exists_decryptPacket taggedCipher exampleContext body ⟨0x42, .keepAlive, 5, 2⟩ _ nofun
      hlength hopen
  obtain ⟨packet, hsent, -, hheader⟩ := hauthentic.authentic _ _ hdecode nofun _ hdecrypted
  rw [List.mem_singleton.mp hsent, isHeaderOf_iff, (yields_of_readHeader hread).take] at hheader
  exact absurd hheader (by decide)

end Example

end Codec

end PomeloUdp
