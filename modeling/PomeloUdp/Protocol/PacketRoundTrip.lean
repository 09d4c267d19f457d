import Mathlib.Tactic.IntervalCases
import PomeloUdp.Protocol.PacketCodec

/-!
# The round trip of packets

`Carries` says what the body of a packet to send becomes at the receiver. The datagram
of a packet is its header followed by its body, encrypted or not (`senderProcessEntry_eq`);
the receiver finds the header again (`headerDecode_eq`), the lengths pass
(`validateIncoming_eq`), and the body decrypts and decodes to what it carries
(`receive_datagram`).

A request has no sequence number on the wire: the receiver takes it to be 0.
-/

namespace PomeloUdp

namespace Codec

open Memory LittleEndian Payload Aead

open Protocol (PacketType)

section Header

theorem prefixEncode_decode {type : PacketType} (htype : type ≠ .request) {n : ℕ} (hone : 1 ≤ n)
    (hle : n ≤ 8) :
    prefixEncode type n ≠ 0 ∧ ofTypeCode? (prefixEncode type n >>> 4) = some type ∧
      (prefixEncode type n &&& 0x0F).toNat = n := by
  interval_cases n <;> cases type <;> first | exact absurd rfl htype | decide

/-- The header on the wire. -/
def headerBytes (header : Header) : List UInt8 :=
  [header.prefixByte] ++ toLittleEndian header.sequenceBytes header.sequence

@[simp] theorem length_headerBytes (header : Header) :
    (headerBytes header).length = 1 + header.sequenceBytes := by
  simp [headerBytes, Nat.add_comm]

theorem headerInit_request {packet : OutgoingPacket} (h : packet.type = .request) :
    headerInit packet = ⟨0, .request, 0, 0⟩ := by
  simp [headerInit, h]

theorem headerInit_type (packet : OutgoingPacket) : (headerInit packet).type = packet.type := by
  unfold headerInit
  split <;> rfl

theorem headerInit_sequenceBytes_le (packet : OutgoingPacket) :
    (headerInit packet).sequenceBytes ≤ 8 := by
  unfold headerInit
  split
  · exact Nat.zero_le _
  · exact (calcPackedUint64Bytes_bounds packet.sequence).2.1

theorem headerEncode_eq (packet : OutgoingPacket) (memory : ℕ → UInt8) :
    headerEncode ⟨memory, bufferCapacity, 0, 0⟩ (headerInit packet) =
      some ⟨store memory 0 (headerBytes (headerInit packet)), bufferCapacity, 0,
        1 + (headerInit packet).sequenceBytes⟩ := by
  have hbytes := headerInit_sequenceBytes_le packet
  set view : BufferView := ⟨memory, bufferCapacity, 0, 0⟩ with hview
  have hfits : ¬ view.writer.capacity - view.writer.position <
      1 + (headerInit packet).sequenceBytes := by
    simp only [hview, BufferView.writer, bufferCapacity, packetBodyCapacity, hmacBytes]
    omega
  rw [headerEncode, if_neg hfits]
  by_cases htype : packet.type = .request
  · simp [hview, BufferView.writer, headerInit_request htype, headerBytes, toLittleEndian, write,
      address]
  · simp only [hview, BufferView.writer, headerInit_type, htype, if_false, headerBytes, write_write]
    simp [write, address]

theorem headerDecode_eq (packet : OutgoingPacket) (memory : ℕ → UInt8) (capacity : ℕ)
    (body : List UInt8) :
    headerDecode ⟨store memory 0 (headerBytes (headerInit packet) ++ body), capacity, 0,
        (headerBytes (headerInit packet) ++ body).length⟩ =
      some (headerInit packet,
        ⟨store memory 0 (headerBytes (headerInit packet) ++ body), capacity,
          1 + (headerInit packet).sequenceBytes, body.length⟩) := by
  set datagram := headerBytes (headerInit packet) ++ body with hdatagram
  have hsplit : datagram = [(headerInit packet).prefixByte] ++
      (toLittleEndian (headerInit packet).sequenceBytes (headerInit packet).sequence ++ body) := by
    simp [hdatagram, headerBytes]
  have hp : Holds ⟨store memory 0 datagram, 0, 0, datagram.length⟩
      ([(headerInit packet).prefixByte] ++
        (toLittleEndian (headerInit packet).sequenceBytes (headerInit packet).sequence ++
          body)) := by
    rw [← hsplit]
    exact holds_store memory 0 datagram (Nat.le_refl _)
  have hprefix := hp.readUint8
  have hsequence := hp.right
  unfold headerDecode
  simp only [BufferView.reader, hprefix, Option.bind_some]
  by_cases htype : packet.type = .request
  · rw [headerInit_request htype, if_pos rfl]
    simp [BufferView.consumed, advance, hdatagram, headerInit_request htype]
  · obtain ⟨hone, hle, hvalue⟩ := calcPackedUint64Bytes_bounds packet.sequence
    obtain ⟨hne, hcode, hbytes⟩ := prefixEncode_decode htype hone hle
    have hinit : headerInit packet = ⟨prefixEncode packet.type
        (calcPackedUint64Bytes packet.sequence), packet.type, packet.sequence,
        calcPackedUint64Bytes packet.sequence⟩ := by
      simp [headerInit, htype]
    simp only [hinit, List.length_singleton] at hsequence ⊢
    rw [if_neg hne, hcode, Option.bind_some, hbytes, if_neg (by omega),
      hsequence.readPackedUint64 hle hvalue, Option.map_some]
    simp [hdatagram, hinit]

end Header

section Challenge

variable {cipher : PacketCipher} {p : Payload} {key : Vector UInt8 32} {tokenSequence : UInt64}
  {xs : List UInt8}

/-- A challenge token before it is encrypted. -/
def challengeBytes (token : ChallengeToken) : List UInt8 :=
  toLittleEndian 8 token.clientId.toUInt64 ++ (token.userData.toList ++ List.replicate 20 0)

/-- An encrypted challenge token. -/
def sealedChallenge (cipher : PacketCipher) (key : Vector UInt8 32) (tokenSequence : UInt64)
    (token : ChallengeToken) : List UInt8 :=
  cipher.encrypt (challengeBytes token) [] (makeNonce tokenSequence) key

theorem length_challengeBytes (token : ChallengeToken) : (challengeBytes token).length = 284 := by
  simp [challengeBytes]

@[simp] theorem length_sealedChallenge (token : ChallengeToken) :
    (sealedChallenge cipher key tokenSequence token).length = 300 := by
  rw [sealedChallenge, cipher.length_encrypt, length_challengeBytes]
  rfl

theorem encryptChallengeToken_eq (token : ChallengeToken)
    (h : p.position + challengeTokenBytes ≤ p.capacity) :
    encryptChallengeToken cipher p key tokenSequence token =
      p.write (sealedChallenge cipher key tokenSequence token) := by
  simp only [challengeTokenBytes] at h
  have hid : p.attempt (writeInt64 token.clientId) =
      p.write (toLittleEndian 8 token.clientId.toUInt64) :=
    attempt_first (by simp; omega)
  have hpadded : ((p.attempt (writeInt64 token.clientId)).attempt
      (writeBuffer token.userData.toList)).attempt (zeroPad (p.position + 300)) =
      p.write (challengeBytes token ++ List.replicate 16 0) := by
    rw [hid, attempt_writeVector, attempt_zeroPad h]
    · have hpad : p.position + 300 - (p.position + (toLittleEndian 8 token.clientId.toUInt64 ++
          token.userData.toList).length) = 20 + 16 := by
        simp
      rw [hpad, List.replicate_add]
      simp [challengeBytes]
    · simp
      omega
  simp only [encryptChallengeToken, challengeTokenBytes]
  rw [hpadded]
  simp only [write, hmacBytes]
  rw [load_store_take (by simp [length_challengeBytes]),
    List.take_left' (by simp [length_challengeBytes])]
  rw [← sealedChallenge, store_over (by simp [length_challengeBytes])]
  simp [length_challengeBytes]

theorem decryptChallengeToken_eq (token old : ChallengeToken)
    (h : p.Holds (sealedChallenge cipher key tokenSequence token)) :
    ∃ q, decryptChallengeToken cipher p key tokenSequence old = some (token, q) := by
  have hload := h.load
  have hfits := h.fits
  rw [length_sealedChallenge] at hload hfits
  set m := store p.memory p.address (challengeBytes token) with hm
  have hq : Holds { p with memory := m } (challengeBytes token) :=
    ⟨by rw [length_challengeBytes]; simp only; omega, load_store _ _ _⟩
  rw [challengeBytes] at hq
  have huserData := hq.right
  rw [length_toLittleEndian] at huserData
  refine ⟨{ p with
    memory := m
    position := p.position + challengeTokenBytes }, ?_⟩
  unfold decryptChallengeToken
  rw [show challengeTokenBytes = 300 from rfl, hload, sealedChallenge, cipher.decrypt_encrypt,
    Option.map_some, ← hm]
  simp only []
  rw [hq.readInt64, Option.getD_some]
  simp only []
  rw [huserData.readBuffer, Option.getD_some]

end Challenge

section Body

variable (order : ByteOrder) (cipher : PacketCipher) (tokenCipher : TokenCipher)
  (ctx : CryptoContext)

/-- The body of a packet on the wire, before it is encrypted. -/
def bodyBytes : OutgoingBody → List UInt8
  | .request protocolId expireTimestamp nonce encrypted =>
      versionInfo ++ (toLittleEndian 8 protocolId ++ (toLittleEndian 8 expireTimestamp ++
        (nonce.toList ++ encrypted.toList)))
  | .challenge tokenSequence token =>
      toLittleEndian 8 tokenSequence ++ sealedChallenge cipher ctx.challengeKey tokenSequence token
  | .response tokenSequence encrypted => toLittleEndian 8 tokenSequence ++ encrypted.toList
  | .keepAlive clientId => toLittleEndian 8 clientId.toUInt64
  | .payload views => views.flatten
  | .denied | .disconnect => []

theorem foldlM_writeBuffer (views : List (List UInt8)) (p : Payload) (xs : List UInt8)
    (h : p.position + (xs.length + views.flatten.length) ≤ p.capacity) :
    views.foldlM (fun p source => writeBuffer source p) (p.write xs) =
      some (p.write (xs ++ views.flatten)) := by
  induction views generalizing xs with
  | nil => simp
  | cons source views ih =>
      rw [List.flatten_cons, List.length_append] at h
      have hfirst : writeBuffer source (p.write xs) = some (p.write (xs ++ source)) := by
        have hfits : ¬ (p.write xs).capacity < (p.write xs).position + source.length := by
          simp only [write]
          omega
        rw [← write_write, writeBuffer]
        by_cases hempty : source.length = 0
        · obtain rfl := List.length_eq_zero_iff.mp hempty
          simp
        · rw [if_neg hempty, tryWrite, if_neg hfits]
      rw [List.foldlM_cons, hfirst]
      simp only [Option.bind_eq_bind, Option.bind_some]
      rw [ih _ (by rw [List.length_append]; omega)]
      simp

variable {ctx}

theorem packetEncode_eq (body : OutgoingBody) (memory : ℕ → UInt8) {capacity offset : ℕ}
    (h : offset + (bodyBytes cipher ctx body).length ≤ capacity) :
    packetEncode cipher ctx ⟨memory, capacity, offset, 0⟩ body =
      some ⟨store memory offset (bodyBytes cipher ctx body), capacity, offset,
        (bodyBytes cipher ctx body).length⟩ := by
  set view : BufferView := ⟨memory, capacity, offset, 0⟩ with hview
  have hroom : view.writer.capacity - view.writer.position = capacity - offset := rfl
  cases body with
  | request protocolId expireTimestamp nonce encrypted =>
      simp only [bodyBytes, List.length_append, length_toLittleEndian, Vector.length_toList,
        versionInfo, List.length_cons, List.length_nil] at h
      have hfits : ¬ view.writer.capacity - view.writer.position < requestBodySize := by
        rw [hroom]
        simp only [requestBodySize, versionInfo, List.length_cons, List.length_nil,
          connectTokenPrivateBytes]
        omega
      rw [packetEncode, requestEncode, if_neg hfits]
      simp only [write_write]
      simp [hview, BufferView.written, BufferView.writer, write, address, bodyBytes]
  | denied => simp [packetEncode, bodyBytes, hview]
  | challenge tokenSequence token =>
      simp only [bodyBytes, List.length_append, length_toLittleEndian, length_sealedChallenge] at h
      have hfits : ¬ view.writer.capacity - view.writer.position < challengeBodySize := by
        rw [hroom]
        simp only [challengeBodySize]
        omega
      have htoken : (view.writer.write (toLittleEndian 8 tokenSequence)).position +
          challengeTokenBytes ≤ (view.writer.write (toLittleEndian 8 tokenSequence)).capacity := by
        simp only [write, hview, BufferView.writer, length_toLittleEndian, challengeTokenBytes]
        omega
      rw [packetEncode, challengeEncode, if_neg hfits,
        encryptChallengeToken_eq _ htoken, write_write]
      simp [hview, BufferView.written, BufferView.writer, write, address, bodyBytes]
  | response tokenSequence encrypted =>
      simp only [bodyBytes, List.length_append, length_toLittleEndian, Vector.length_toList] at h
      have hfits : ¬ view.writer.capacity - view.writer.position < challengeBodySize := by
        rw [hroom]
        simp only [challengeBodySize]
        omega
      rw [packetEncode, responseEncode, if_neg hfits, write_write]
      simp [hview, BufferView.written, BufferView.writer, write, address, bodyBytes]
  | keepAlive clientId =>
      simp only [bodyBytes, length_toLittleEndian] at h
      have hfits : ¬ view.writer.capacity <
          view.writer.position + (toLittleEndian 8 clientId.toUInt64).length := by
        simp only [hview, BufferView.writer, length_toLittleEndian]
        omega
      rw [packetEncode, keepAliveEncode, writeInt64, writeUint64, tryWrite, if_neg hfits]
      simp [hview, BufferView.written, BufferView.writer, write, address, bodyBytes]
  | payload views =>
      simp only [bodyBytes] at h
      have hwritten := foldlM_writeBuffer views view.writer [] (by
        simp only [hview, BufferView.writer, List.length_nil]
        omega)
      rw [write_nil] at hwritten
      rw [packetEncode, payloadEncode, hwritten]
      simp [hview, BufferView.written, BufferView.writer, write, address, bodyBytes]
  | disconnect => simp [packetEncode, bodyBytes, hview]

/-- The body of a packet in its datagram. -/
def wireBody (cipher : PacketCipher) (ctx : CryptoContext) (noEncrypt : Bool)
    (packet : OutgoingPacket) : List UInt8 :=
  if noEncrypt = true ∨ packet.type = .request then bodyBytes cipher ctx packet.body
  else
    cipher.encrypt (bodyBytes cipher ctx packet.body)
      (makeAssociatedData ctx (prefixEncode packet.type (calcPackedUint64Bytes packet.sequence)))
      (makeNonce packet.sequence) ctx.packetEncryptKey

variable (ctx) in
theorem length_wireBody (noEncrypt : Bool) (packet : OutgoingPacket) :
    (wireBody cipher ctx noEncrypt packet).length = (bodyBytes cipher ctx packet.body).length +
      if noEncrypt = true ∨ packet.type = .request then 0 else hmacBytes := by
  unfold wireBody
  split
  · rfl
  · rw [cipher.length_encrypt]

/-- The datagram of a packet. -/
def datagramBytes (cipher : PacketCipher) (ctx : CryptoContext) (noEncrypt : Bool)
    (packet : OutgoingPacket) : List UInt8 :=
  headerBytes (headerInit packet) ++ wireBody cipher ctx noEncrypt packet

theorem headerInit_sequence (packet : OutgoingPacket) (h : packet.type ≠ .request) :
    (headerInit packet).sequence = packet.sequence := by
  simp [headerInit, h]

theorem senderProcessEntry_eq (noEncrypt : Bool) (packet : OutgoingPacket) (memory : ℕ → UInt8)
    (h : (bodyBytes cipher ctx packet.body).length ≤ packetBodyCapacity) :
    senderProcessEntry cipher ctx ⟨memory, bufferCapacity, 0, 0⟩ noEncrypt packet =
      some ⟨store memory 0 (datagramBytes cipher ctx noEncrypt packet), bufferCapacity, 0,
        (datagramBytes cipher ctx noEncrypt packet).length⟩ := by
  have hbytes := headerInit_sequenceBytes_le packet
  have hlength := length_headerBytes (headerInit packet)
  have hfits : 0 + (1 + (headerInit packet).sequenceBytes) +
      (bodyBytes cipher ctx packet.body).length ≤ bufferCapacity := by
    simp only [bufferCapacity, packetBodyCapacity, hmacBytes] at h ⊢
    omega
  have hstore : ∀ body : List UInt8,
      store (store memory 0 (headerBytes (headerInit packet)))
        (0 + (1 + (headerInit packet).sequenceBytes)) body =
      store memory 0 (headerBytes (headerInit packet) ++ body) := by
    intro body
    rw [← hlength, store_store]
  simp only [senderProcessEntry, headerEncode_eq, Option.bind_some]
  rw [packetEncode_eq cipher packet.body _ hfits, Option.bind_some, datagramBytes, wireBody]
  by_cases hplain : noEncrypt = true ∨ packet.type = .request
  · rw [if_pos hplain]
    have hsame : (if noEncrypt = true then
        some (⟨store (store memory 0 (headerBytes (headerInit packet)))
          (0 + (1 + (headerInit packet).sequenceBytes)) (bodyBytes cipher ctx packet.body),
          bufferCapacity, 0 + (1 + (headerInit packet).sequenceBytes),
          (bodyBytes cipher ctx packet.body).length⟩ : BufferView)
        else encryptPacket cipher ctx ⟨store (store memory 0 (headerBytes (headerInit packet)))
          (0 + (1 + (headerInit packet).sequenceBytes)) (bodyBytes cipher ctx packet.body),
          bufferCapacity, 0 + (1 + (headerInit packet).sequenceBytes),
          (bodyBytes cipher ctx packet.body).length⟩ (headerInit packet)) =
        some ⟨store (store memory 0 (headerBytes (headerInit packet)))
          (0 + (1 + (headerInit packet).sequenceBytes)) (bodyBytes cipher ctx packet.body),
          bufferCapacity, 0 + (1 + (headerInit packet).sequenceBytes),
          (bodyBytes cipher ctx packet.body).length⟩ := by
      split
      · rfl
      · rename_i hencrypted
        have htype := hplain.resolve_left hencrypted
        rw [encryptPacket, if_pos ((headerInit_type packet).trans htype)]
    rw [hsame, Option.map_some, hstore]
    simp [hlength]
  · obtain ⟨hencrypted, htype⟩ := not_or.mp hplain
    rw [if_neg hplain, if_neg hencrypted]
    have hroom : ¬ bufferCapacity - (0 + (1 + (headerInit packet).sequenceBytes) +
        (bodyBytes cipher ctx packet.body).length) < hmacBytes := by
      simp only [bufferCapacity, packetBodyCapacity, hmacBytes] at h ⊢
      omega
    rw [encryptPacket, headerInit_type, if_neg htype]
    simp only
    rw [if_neg hroom, headerInit_sequence packet htype, load_store, Option.map_some, store_over,
      hstore]
    · simp [hlength]
    · rw [cipher.length_encrypt]
      exact Nat.le_add_right _ _

end Body

section Delivery

variable (order : ByteOrder) (cipher : PacketCipher) (tokenCipher : TokenCipher)
  (sender receiver : CryptoContext) (oldToken : ConnectToken)

/-- The body of a packet to send and the one the receiver should get. The token of a
request is sealed under the private key of the receiver and the challenge token of a
response under its challenge key, while the sender of a challenge seals the token
itself. A payload has at most as many views as the packet has room for. -/
inductive Carries : OutgoingBody → IncomingBody → Prop
  | request (token : ConnectToken) (valid : token.Valid) (encrypted : Vector UInt8 1024)
      (sealing : encrypted.toList = sealedPrivate order token tokenCipher receiver.privateKey) :
      Carries
        (.request token.protocolId token.expireTimestamp token.connectTokenNonce encrypted)
        (.request token.protocolId token.expireTimestamp token.connectTokenNonce
          ({ oldToken with
            protocolId := token.protocolId
            expireTimestamp := token.expireTimestamp
            connectTokenNonce := token.connectTokenNonce }.withPrivate token))
  | denied : Carries .denied .denied
  | challenge (tokenSequence : UInt64) (token : ChallengeToken) (encrypted : Vector UInt8 300)
      (sealing : encrypted.toList =
        sealedChallenge cipher sender.challengeKey tokenSequence token) :
      Carries (.challenge tokenSequence token) (.challenge tokenSequence encrypted)
  | response (tokenSequence : UInt64) (token : ChallengeToken) (encrypted : Vector UInt8 300)
      (sealing : encrypted.toList =
        sealedChallenge cipher receiver.challengeKey tokenSequence token) :
      Carries (.response tokenSequence encrypted) (.response tokenSequence token)
  | keepAlive (clientId : Int64) : Carries (.keepAlive clientId) (.keepAlive clientId)
  | payload (views : List (List UInt8)) (count : views.length ≤ payloadMaxViews)
      (nonempty : 1 ≤ views.flatten.length) (fits : views.flatten.length ≤ packetBodyCapacity) :
      Carries (.payload views) (.payload [views.flatten])
  | disconnect : Carries .disconnect .disconnect

variable {order cipher tokenCipher sender receiver oldToken}

theorem toNat_bodyLength {type : PacketType} {n : UInt64} {encrypted : Bool} {m : ℕ}
    (h : n.toNat = m + if encrypted = true ∧ type ≠ .request then hmacBytes else 0) :
    (if encrypted = true ∧ type ≠ .request then n - UInt64.ofNat hmacBytes else n).toNat = m := by
  have hmac : (UInt64.ofNat hmacBytes).toNat = hmacBytes := rfl
  split
  · rename_i hencrypted
    rw [if_pos hencrypted] at h
    rw [UInt64.toNat_sub_of_le, hmac, h, Nat.add_sub_cancel]
    rw [UInt64.le_iff_toNat_le, hmac, h]
    exact Nat.le_add_left _ _
  · rename_i hplain
    rw [if_neg hplain] at h
    exact h

theorem Carries.length {packet : OutgoingPacket} {body : IncomingBody}
    (h : Carries order cipher tokenCipher sender receiver oldToken packet.body body) :
    (bodyBytes cipher sender packet.body).length ≤ packetBodyCapacity ∧
      ∀ (n : UInt64) (encrypted : Bool), n.toNat = (bodyBytes cipher sender packet.body).length +
        (if encrypted = true ∧ packet.type ≠ .request then hmacBytes else 0) →
          validateBodyLength packet.type n encrypted = true := by
  obtain ⟨sequence, outgoing⟩ := packet
  simp only [OutgoingPacket.type] at h ⊢
  cases h with
  | request token valid encrypted sealing =>
      refine ⟨by simp [bodyBytes, versionInfo, packetBodyCapacity], ?_⟩
      intro n b hn
      simp only [validateBodyLength, toNat_bodyLength hn]
      simp [bodyBytes, requestBodySize, connectTokenPrivateBytes]
  | payload views count nonempty fits =>
      refine ⟨fits, ?_⟩
      intro n b hn
      simp only [validateBodyLength, toNat_bodyLength hn, bodyBytes, Bool.and_eq_true,
        decide_eq_true_eq]
      exact ⟨nonempty, fits⟩
  | _ =>
      refine ⟨by simp [bodyBytes, packetBodyCapacity], ?_⟩
      intro n b hn
      simp only [validateBodyLength, toNat_bodyLength hn]
      simp [bodyBytes, challengeBodySize]

theorem validateIncoming_eq {packet : OutgoingPacket} {body : IncomingBody}
    (h : Carries order cipher tokenCipher sender receiver oldToken packet.body body)
    (noEncrypt : Bool) (memory : ℕ → UInt8) (capacity : ℕ) :
    validateIncoming
        ⟨store memory 0 (datagramBytes cipher sender noEncrypt packet), capacity, 0,
          (datagramBytes cipher sender noEncrypt packet).length⟩ (!noEncrypt) =
      some (headerInit packet,
        ⟨store memory 0 (datagramBytes cipher sender noEncrypt packet), capacity,
          1 + (headerInit packet).sequenceBytes,
          (wireBody cipher sender noEncrypt packet).length⟩) := by
  obtain ⟨hfits, hvalid⟩ := h.length
  have hwire := length_wireBody cipher sender noEncrypt packet
  have hheader := length_headerBytes (headerInit packet)
  have hlength : (datagramBytes cipher sender noEncrypt packet).length =
      1 + (headerInit packet).sequenceBytes + (wireBody cipher sender noEncrypt packet).length := by
    rw [datagramBytes, List.length_append, hheader]
  have hmin : ¬ (datagramBytes cipher sender noEncrypt packet).length <
      if (!noEncrypt) = true then 18 else 2 := by
    rw [hlength, hwire]
    by_cases htype : packet.type = .request
    · have hrequest : 1000 ≤ (bodyBytes cipher sender packet.body).length := by
        obtain ⟨sequence, outgoing⟩ := packet
        cases outgoing with
        | request _ _ _ encrypted =>
            simp only [bodyBytes, List.length_append, Vector.length_toList]
            omega
        | _ => cases htype
      have hleast : (if (!noEncrypt) = true then 18 else 2) ≤ 18 := by
        split <;> omega
      rw [if_pos (Or.inr htype)]
      omega
    · have hsequence : 1 ≤ (headerInit packet).sequenceBytes := by
        simp only [headerInit, if_neg htype]
        exact (calcPackedUint64Bytes_bounds packet.sequence).1
      cases noEncrypt with
      | true =>
          simp only [Bool.not_true, Bool.false_eq_true, if_false]
          omega
      | false =>
          simp only [Bool.not_false, if_true, Bool.false_eq_true, false_or, htype, if_false,
            hmacBytes]
          omega
  have hbody : (UInt64.ofNat (wireBody cipher sender noEncrypt packet).length).toNat =
      (bodyBytes cipher sender packet.body).length +
        if (!noEncrypt) = true ∧ packet.type ≠ .request then hmacBytes else 0 := by
    have hsmall : (wireBody cipher sender noEncrypt packet).length < 2 ^ 64 := by
      rw [hwire]
      simp only [packetBodyCapacity] at hfits
      split
      · omega
      · simp only [hmacBytes]
        omega
    rw [UInt64.toNat_ofNat', Nat.mod_eq_of_lt hsmall, hwire]
    congr 1
    by_cases htype : packet.type = .request <;> cases noEncrypt <;> simp [htype]
  rw [validateIncoming, if_neg hmin, datagramBytes, headerDecode_eq, Option.bind_some]
  simp only [headerInit_type]
  rw [hvalid _ _ hbody, if_pos rfl]

/-- The body that the worker decodes. -/
theorem packetDecode_eq {packet : OutgoingPacket} {body : IncomingBody}
    (h : Carries order cipher tokenCipher sender receiver oldToken packet.body body)
    (oldChallenge : ChallengeToken) {view : BufferView}
    (hp : view.reader.Holds (bodyBytes cipher sender packet.body))
    (hlength : view.length = (bodyBytes cipher sender packet.body).length) :
    packetDecode order cipher tokenCipher receiver view oldToken oldChallenge packet.type =
      some body := by
  obtain ⟨sequence, outgoing⟩ := packet
  simp only [OutgoingPacket.type] at h hp hlength ⊢
  have hroom : view.reader.capacity - view.reader.position =
      (bodyBytes cipher sender outgoing).length := by
    simp [BufferView.reader, hlength]
  cases h with
  | request token valid encrypted sealing =>
      rw [bodyBytes] at hp
      have hfits : ¬ view.reader.capacity - view.reader.position < requestBodySize := by
        rw [hroom]
        simp [bodyBytes, requestBodySize, connectTokenPrivateBytes]
      have hprotocolId := hp.right
      have hexpire := hprotocolId.right
      have hnonce := hexpire.right
      have hprivate := hnonce.right
      simp only [length_toLittleEndian, Vector.length_toList] at hexpire hnonce hprivate
      have hversion : load view.reader.memory view.reader.address versionInfo.length =
          versionInfo := hp.left.load
      rw [packetDecode, requestDecode, if_neg hfits, if_neg (by simp [hversion])]
      simp only []
      rw [hprotocolId.readUint64, Option.bind_some]
      simp only []
      rw [hexpire.readUint64, Option.bind_some]
      simp only []
      rw [hnonce.readBuffer, Option.bind_some]
      simp only []
      have hload := hprivate.load
      rw [Vector.length_toList, sealing] at hload
      rw [decodePrivate_eq tokenCipher _ _ receiver.privateKey valid
        { oldToken with
          protocolId := token.protocolId
          expireTimestamp := token.expireTimestamp
          connectTokenNonce := token.connectTokenNonce } rfl rfl rfl hload, Option.map_some]
  | denied => rfl
  | challenge tokenSequence token encrypted sealing =>
      rw [bodyBytes, ← sealing] at hp
      have hfits : ¬ view.reader.capacity - view.reader.position < challengeBodySize := by
        rw [hroom]
        simp [bodyBytes, challengeBodySize]
      have hsealed := hp.right
      rw [length_toLittleEndian, ← List.append_nil encrypted.toList] at hsealed
      rw [packetDecode, challengeDecode, if_neg hfits, hp.readUint64, Option.bind_some]
      simp only []
      rw [hsealed.readBuffer, Option.map_some]
  | response tokenSequence token encrypted sealing =>
      rw [bodyBytes, sealing] at hp
      have hfits : ¬ view.reader.capacity - view.reader.position < challengeBodySize := by
        rw [hroom]
        simp [bodyBytes, challengeBodySize]
      have hsealed := hp.right
      rw [length_toLittleEndian] at hsealed
      obtain ⟨q, hdecrypt⟩ := decryptChallengeToken_eq token oldChallenge hsealed
      rw [packetDecode, responseDecode, if_neg hfits, hp.readUint64, Option.bind_some]
      simp only []
      rw [hdecrypt, Option.map_some]
  | keepAlive clientId =>
      rw [bodyBytes, ← List.append_nil (toLittleEndian 8 clientId.toUInt64)] at hp
      rw [packetDecode, keepAliveDecode, hp.readInt64, Option.map_some]
  | payload views count nonempty fits =>
      have hload := hp.load
      simp only [bodyBytes, BufferView.reader, address, Nat.add_zero] at hload hlength
      rw [packetDecode, payloadDecode, hlength, hload]
  | disconnect => rfl

variable (cipher sender) in
theorem load_wireBody (noEncrypt : Bool) (packet : OutgoingPacket) (memory : ℕ → UInt8) :
    load (store memory 0 (datagramBytes cipher sender noEncrypt packet))
      (1 + (headerInit packet).sequenceBytes) (wireBody cipher sender noEncrypt packet).length =
      wireBody cipher sender noEncrypt packet := by
  have hp := holds_store memory 0 (datagramBytes cipher sender noEncrypt packet) (Nat.le_refl _)
  rw [datagramBytes] at hp ⊢
  have hload := hp.right.load
  rw [length_headerBytes] at hload
  simpa [address, advance] using hload

theorem receiverProcessEntry_eq {packet : OutgoingPacket} {body : IncomingBody}
    (h : Carries order cipher tokenCipher sender receiver oldToken packet.body body)
    (hkey : receiver.packetDecryptKey = sender.packetEncryptKey)
    (hprotocolId : receiver.protocolId = sender.protocolId) (noEncrypt : Bool)
    (memory : ℕ → UInt8) (capacity : ℕ) (oldChallenge : ChallengeToken) :
    receiverProcessEntry order cipher tokenCipher receiver
        ⟨store memory 0 (datagramBytes cipher sender noEncrypt packet), capacity,
          1 + (headerInit packet).sequenceBytes,
          (wireBody cipher sender noEncrypt packet).length⟩ noEncrypt (headerInit packet)
        oldToken oldChallenge =
      some ((headerInit packet).sequence, body) := by
  have hload := load_wireBody cipher sender noEncrypt packet memory
  set m := store memory 0 (datagramBytes cipher sender noEncrypt packet) with hm
  have hdecrypted : ∃ view : BufferView,
      (if noEncrypt = true then
        some (⟨m, capacity, 1 + (headerInit packet).sequenceBytes,
          (wireBody cipher sender noEncrypt packet).length⟩ : BufferView)
        else decryptPacket cipher receiver ⟨m, capacity, 1 + (headerInit packet).sequenceBytes,
          (wireBody cipher sender noEncrypt packet).length⟩ (headerInit packet)) = some view ∧
      view.reader.Holds (bodyBytes cipher sender packet.body) ∧
      view.length = (bodyBytes cipher sender packet.body).length := by
    by_cases hplain : noEncrypt = true ∨ packet.type = .request
    · have hwire : wireBody cipher sender noEncrypt packet = bodyBytes cipher sender packet.body :=
        if_pos hplain
      rw [hwire] at hload ⊢
      refine ⟨⟨m, capacity, 1 + (headerInit packet).sequenceBytes,
        (bodyBytes cipher sender packet.body).length⟩, ?_, ⟨?_, ?_⟩, rfl⟩
      · split
        · rfl
        · rename_i hencrypted
          have htype := hplain.resolve_left hencrypted
          rw [decryptPacket, if_pos ((headerInit_type packet).trans htype)]
      · simp [BufferView.reader]
      · simpa [BufferView.reader, address] using hload
    · obtain ⟨hencrypted, htype⟩ := not_or.mp hplain
      have hwire := length_wireBody cipher sender noEncrypt packet
      rw [if_neg hplain] at hwire
      have hlong : ¬ (wireBody cipher sender noEncrypt packet).length < hmacBytes := by
        rw [hwire]
        omega
      have had : ∀ prefixByte, makeAssociatedData receiver prefixByte =
          makeAssociatedData sender prefixByte := by
        intro prefixByte
        simp only [makeAssociatedData, hprotocolId]
      refine ⟨⟨store m (1 + (headerInit packet).sequenceBytes)
        (bodyBytes cipher sender packet.body), capacity, 1 + (headerInit packet).sequenceBytes,
        (bodyBytes cipher sender packet.body).length⟩, ?_, ⟨?_, ?_⟩, rfl⟩
      · rw [if_neg hencrypted, decryptPacket, headerInit_type, if_neg htype]
        simp only []
        rw [if_neg hlong, hload, headerInit_sequence packet htype, hkey, had, wireBody,
          if_neg hplain, cipher.decrypt_encrypt, Option.map_some]
      · simp [BufferView.reader]
      · simp [BufferView.reader, address, load_store]
  obtain ⟨view, hview, hp, hlength⟩ := hdecrypted
  rw [receiverProcessEntry, hview, Option.bind_some, headerInit_type,
    packetDecode_eq h oldChallenge hp hlength, Option.map_some]

/-- The sender makes a datagram of every packet it can build. In a buffer of the
receiver, its lengths pass, and its header, decryption and body give back the type, the
sequence number and what the body carries, except that a request has the sequence
number 0. -/
theorem packet_roundTrip (packet : OutgoingPacket) (body : IncomingBody)
    (hkey : receiver.packetDecryptKey = sender.packetEncryptKey)
    (hprotocolId : receiver.protocolId = sender.protocolId)
    (h : Carries order cipher tokenCipher sender receiver oldToken packet.body body)
    (noEncrypt : Bool) (memory memory' : ℕ → UInt8) (oldChallenge : ChallengeToken) :
    ∃ (datagram view : BufferView) (header : Header),
      senderProcessEntry cipher sender ⟨memory, bufferCapacity, 0, 0⟩ noEncrypt packet =
        some datagram ∧
      datagram.length ≤ bufferCapacity ∧
      validateIncoming ⟨store memory' 0 (load datagram.memory datagram.offset datagram.length),
        bufferCapacity, 0, datagram.length⟩ (!noEncrypt) = some (header, view) ∧
      header.type = packet.type ∧
      receiverProcessEntry order cipher tokenCipher receiver view noEncrypt header oldToken
        oldChallenge = some (if packet.type = .request then 0 else packet.sequence, body) := by
  have hfits := h.length.1
  have hsequence : (headerInit packet).sequence =
      if packet.type = .request then 0 else packet.sequence := by
    unfold headerInit
    split <;> rfl
  have hdatagram : (datagramBytes cipher sender noEncrypt packet).length ≤ bufferCapacity := by
    have hbytes := headerInit_sequenceBytes_le packet
    have hbody := length_wireBody cipher sender noEncrypt packet
    have hmac : (if noEncrypt = true ∨ packet.type = .request then 0 else hmacBytes) ≤
        hmacBytes := by
      split <;> omega
    rw [datagramBytes, List.length_append, length_headerBytes, hbody, bufferCapacity]
    omega
  have hvalidate := validateIncoming_eq h noEncrypt memory' bufferCapacity
  have hreceive := receiverProcessEntry_eq h hkey hprotocolId noEncrypt memory' bufferCapacity
    oldChallenge
  rw [hsequence] at hreceive
  refine ⟨_, _, headerInit packet, senderProcessEntry_eq cipher noEncrypt packet memory hfits,
    hdatagram, ?_, headerInit_type packet, hreceive⟩
  simp only [load_store]
  exact hvalidate

end Delivery

section Sample

/-- A crypto context whose keys are all zero. -/
def sampleContext : CryptoContext where
  protocolId := 7
  packetDecryptKey := .replicate 32 0
  packetEncryptKey := .replicate 32 0
  challengeKey := .replicate 32 0
  privateKey := .replicate 32 0

/-- The private part of the sample token, sealed for the sample context. -/
def sampleSealed : Vector UInt8 1024 :=
  ⟨(sealedPrivate .littleEndian sampleToken (Cipher.plain _ _ _)
      sampleContext.privateKey).toArray, by
    rw [List.size_toArray, length_sealedPrivate _ _ _ _ ⟨by decide, by decide⟩]
    rfl⟩

/-- A request with the sequence number 5. -/
def sampleRequest : OutgoingPacket where
  sequence := 5
  body := .request sampleToken.protocolId sampleToken.expireTimestamp sampleToken.connectTokenNonce
    sampleSealed

theorem sampleRequest_carries :
    Carries .littleEndian (Cipher.plain _ _ _) (Cipher.plain _ _ _) sampleContext sampleContext
      sampleToken sampleRequest.body
      (.request sampleToken.protocolId sampleToken.expireTimestamp sampleToken.connectTokenNonce
        ({ sampleToken with
          protocolId := sampleToken.protocolId
          expireTimestamp := sampleToken.expireTimestamp
          connectTokenNonce := sampleToken.connectTokenNonce }.withPrivate sampleToken)) :=
  .request sampleToken ⟨by decide, by decide⟩ sampleSealed rfl

/-- A request does not carry its sequence number: no datagram brings back the 5. -/
theorem sampleRequest_sequence_lost :
    ¬ ∃ (datagram view : BufferView) (header : Header) (body : IncomingBody),
      senderProcessEntry (Cipher.plain _ _ _) sampleContext ⟨fun _ => 0, bufferCapacity, 0, 0⟩ false
        sampleRequest = some datagram ∧
      validateIncoming ⟨store (fun _ => 0) 0
        (load datagram.memory datagram.offset datagram.length), bufferCapacity, 0,
          datagram.length⟩ true = some (header, view) ∧
      receiverProcessEntry .littleEndian (Cipher.plain _ _ _) (Cipher.plain _ _ _) sampleContext
        view false header sampleToken ⟨0, .replicate 256 0⟩ =
          some (sampleRequest.sequence, body) := by
  rintro ⟨datagram, view, header, body, hsend, hvalidate, hreceive⟩
  have hcarries := sampleRequest_carries
  rw [senderProcessEntry_eq _ false sampleRequest _ hcarries.length.1] at hsend
  cases hsend
  simp only [load_store] at hvalidate
  rw [show true = !false from rfl, validateIncoming_eq hcarries] at hvalidate
  cases hvalidate
  rw [receiverProcessEntry_eq hcarries rfl rfl] at hreceive
  have hzero : (0 : UInt64) = 5 := congrArg Prod.fst (Option.some.inj hreceive)
  exact absurd hzero (by decide)

theorem packet_roundTrip_sampleRequest :
    ∃ (datagram view : BufferView) (header : Header),
      senderProcessEntry (Cipher.plain _ _ _) sampleContext ⟨fun _ => 0, bufferCapacity, 0, 0⟩ false
        sampleRequest = some datagram ∧
      datagram.length ≤ bufferCapacity ∧
      validateIncoming ⟨store (fun _ => 0) 0
        (load datagram.memory datagram.offset datagram.length), bufferCapacity, 0,
          datagram.length⟩ true = some (header, view) ∧
      header.type = .request ∧
      receiverProcessEntry .littleEndian (Cipher.plain _ _ _) (Cipher.plain _ _ _) sampleContext
        view false header sampleToken ⟨0, .replicate 256 0⟩ = some (0,
          .request sampleToken.protocolId sampleToken.expireTimestamp sampleToken.connectTokenNonce
            ({ sampleToken with
              protocolId := sampleToken.protocolId
              expireTimestamp := sampleToken.expireTimestamp
              connectTokenNonce := sampleToken.connectTokenNonce }.withPrivate sampleToken)) :=
  packet_roundTrip sampleRequest _ rfl rfl sampleRequest_carries false (fun _ => 0) (fun _ => 0)
    ⟨0, .replicate 256 0⟩

end Sample

end Codec

end PomeloUdp
