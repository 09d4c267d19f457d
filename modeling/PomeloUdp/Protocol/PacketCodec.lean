import PomeloUdp.Base.Buffer
import PomeloUdp.Crypto.Token
import PomeloUdp.Protocol.Packet

/-!
# The codec of packets

`senderProcessEntry` builds a datagram in a buffer: the header, the body behind it,
and the encryption of the body where it stands. `validateIncoming` checks the lengths
and decodes the header, and `receiverProcessEntry` decrypts and decodes the body.

The union in a request packet and the one in a challenge or response packet hold the
encrypted token on one side and the decrypted one on the other, so the packets to send
and the received ones have types of their own.
-/

namespace PomeloUdp

namespace Codec

open Memory LittleEndian Payload Aead

open Protocol (PacketType)

/-- `POMELO_CHALLENGE_TOKEN_BYTES`. -/
def challengeTokenBytes : ℕ := 300

/-- `POMELO_PROTOCOL_PACKET_REQUEST_BODY_SIZE`. -/
def requestBodySize : ℕ := versionInfo.length + 8 + 8 + 24 + connectTokenPrivateBytes

/-- `POMELO_PROTOCOL_PACKET_CHALLENGE_BODY_SIZE`, and that of a response. -/
def challengeBodySize : ℕ := 308

/-- `POMELO_PROTOCOL_PAYLOAD_MAX_VIEWS`. -/
def payloadMaxViews : ℕ := 16

/-- The AEAD of packets and challenge tokens. -/
abbrev PacketCipher := Cipher (Vector UInt8 32) (List UInt8) hmacBytes

/-- `pomelo_protocol_crypto_context_t`. -/
structure CryptoContext where
  protocolId : UInt64
  packetDecryptKey : Vector UInt8 32
  packetEncryptKey : Vector UInt8 32
  challengeKey : Vector UInt8 32
  privateKey : Vector UInt8 32

/-- `pomelo_challenge_token_t`. -/
structure ChallengeToken where
  clientId : Int64
  userData : Vector UInt8 256

/-- The body of a packet to send. -/
inductive OutgoingBody where
  | request (protocolId expireTimestamp : UInt64) (connectTokenNonce : Vector UInt8 24)
      (encrypted : Vector UInt8 1024)
  | denied
  | challenge (tokenSequence : UInt64) (token : ChallengeToken)
  | response (tokenSequence : UInt64) (encrypted : Vector UInt8 300)
  | keepAlive (clientId : Int64)
  | payload (views : List (List UInt8))
  | disconnect

/-- The body of a received packet. -/
inductive IncomingBody where
  | request (protocolId expireTimestamp : UInt64) (connectTokenNonce : Vector UInt8 24)
      (token : ConnectToken)
  | denied
  | challenge (tokenSequence : UInt64) (encrypted : Vector UInt8 300)
  | response (tokenSequence : UInt64) (token : ChallengeToken)
  | keepAlive (clientId : Int64)
  | payload (views : List (List UInt8))
  | disconnect

/-- `pomelo_protocol_packet_t` of a packet to send. -/
structure OutgoingPacket where
  sequence : UInt64
  body : OutgoingBody

/-- The type of a packet to send. -/
def OutgoingPacket.type (packet : OutgoingPacket) : PacketType :=
  match packet.body with
  | .request _ _ _ _ => .request
  | .denied => .denied
  | .challenge _ _ => .challenge
  | .response _ _ => .response
  | .keepAlive _ => .keepAlive
  | .payload _ => .payload
  | .disconnect => .disconnect

/-- The number of a packet type. -/
def typeCode : PacketType → UInt8
  | .request => 0
  | .denied => 1
  | .challenge => 2
  | .response => 3
  | .keepAlive => 4
  | .payload => 5
  | .disconnect => 6

/-- The packet type with a number below `POMELO_PROTOCOL_PACKET_TYPE_COUNT`. -/
def ofTypeCode? (code : UInt8) : Option PacketType :=
  if code = 0 then some .request
  else if code = 1 then some .denied
  else if code = 2 then some .challenge
  else if code = 3 then some .response
  else if code = 4 then some .keepAlive
  else if code = 5 then some .payload
  else if code = 6 then some .disconnect
  else none

/-- `pomelo_protocol_packet_header_t`. -/
structure Header where
  prefixByte : UInt8
  type : PacketType
  sequence : UInt64
  sequenceBytes : ℕ

section Challenge

variable (cipher : PacketCipher) (p : Payload) (key : Vector UInt8 32) (tokenSequence : UInt64)

/-- `pomelo_crypto_make_nonce` of the 12 bytes of a nonce. -/
def makeNonce (sequence : UInt64) : List UInt8 := List.replicate 4 0 ++ toLittleEndian 8 sequence

/-- `pomelo_codec_encrypt_challenge_token`. -/
def encryptChallengeToken (token : ChallengeToken) : Payload :=
  let start := p.address
  let q := p.attempt (writeInt64 token.clientId)
  let q := q.attempt (writeBuffer token.userData.toList)
  let q := q.attempt (zeroPad (p.position + challengeTokenBytes))
  { q with memory := store q.memory start (cipher.encrypt
      (load q.memory start (challengeTokenBytes - hmacBytes)) [] (makeNonce tokenSequence) key) }

/-- `pomelo_codec_decrypt_challenge_token` into a token that had a value before. -/
def decryptChallengeToken (old : ChallengeToken) : Option (ChallengeToken × Payload) :=
  (cipher.decrypt (load p.memory p.address challengeTokenBytes) [] (makeNonce tokenSequence)
    key).map fun decrypted =>
      let q := { p with memory := store p.memory p.address decrypted }
      let clientId := q.readInt64.getD (old.clientId, q)
      let userData := (clientId.2.readBuffer 256).getD (old.userData, clientId.2)
      (⟨clientId.1, userData.1⟩, { q with position := p.position + challengeTokenBytes })

end Challenge

section Sending

variable (cipher : PacketCipher) (ctx : CryptoContext) (view : BufferView)

/-- `pomelo_protocol_prefix_encode`. -/
def prefixEncode (type : PacketType) (sequenceBytes : ℕ) : UInt8 :=
  (typeCode type &&& 0x0F) <<< 4 ||| UInt8.ofNat sequenceBytes &&& 0x0F

/-- `pomelo_protocol_packet_header_init`. -/
def headerInit (packet : OutgoingPacket) : Header :=
  if packet.type = .request then ⟨0, packet.type, 0, 0⟩
  else
    let sequenceBytes := calcPackedUint64Bytes packet.sequence
    ⟨prefixEncode packet.type sequenceBytes, packet.type, packet.sequence, sequenceBytes⟩

/-- `pomelo_protocol_packet_header_encode`. -/
def headerEncode (header : Header) : Option BufferView :=
  let p := view.writer
  if p.capacity - p.position < 1 + header.sequenceBytes then none
  else
    let q :=
      if header.type = .request then p.write [0]
      else (p.write [header.prefixByte]).write (toLittleEndian header.sequenceBytes header.sequence)
    some { view with memory := q.memory, length := view.length + (1 + header.sequenceBytes) }

/-- `pomelo_protocol_packet_request_encode`. -/
def requestEncode (protocolId expireTimestamp : UInt64) (connectTokenNonce : Vector UInt8 24)
    (encrypted : Vector UInt8 1024) : Option BufferView :=
  let p := view.writer
  if p.capacity - p.position < requestBodySize then none
  else
    let p := p.write versionInfo
    let p := p.write (toLittleEndian 8 protocolId)
    let p := p.write (toLittleEndian 8 expireTimestamp)
    let p := p.write connectTokenNonce.toList
    some (view.written (p.write encrypted.toList))

/-- `pomelo_protocol_packet_challenge_encode`. -/
def challengeEncode (tokenSequence : UInt64) (token : ChallengeToken) : Option BufferView :=
  let p := view.writer
  if p.capacity - p.position < challengeBodySize then none
  else
    some (view.written (encryptChallengeToken cipher (p.write (toLittleEndian 8 tokenSequence))
      ctx.challengeKey tokenSequence token))

/-- `pomelo_protocol_packet_response_encode`. -/
def responseEncode (tokenSequence : UInt64) (encrypted : Vector UInt8 300) : Option BufferView :=
  let p := view.writer
  if p.capacity - p.position < challengeBodySize then none
  else some (view.written ((p.write (toLittleEndian 8 tokenSequence)).write encrypted.toList))

/-- `pomelo_protocol_packet_keep_alive_encode`. -/
def keepAliveEncode (clientId : Int64) : Option BufferView :=
  (view.writer.writeInt64 clientId).map view.written

/-- `pomelo_protocol_packet_payload_encode`. -/
def payloadEncode (views : List (List UInt8)) : Option BufferView :=
  (views.foldlM (fun p source => writeBuffer source p) view.writer).map view.written

/-- `pomelo_protocol_packet_encode`. -/
def packetEncode : OutgoingBody → Option BufferView
  | .request protocolId expireTimestamp nonce encrypted =>
      requestEncode view protocolId expireTimestamp nonce encrypted
  | .challenge tokenSequence token => challengeEncode cipher ctx view tokenSequence token
  | .response tokenSequence encrypted => responseEncode view tokenSequence encrypted
  | .keepAlive clientId => keepAliveEncode view clientId
  | .payload views => payloadEncode view views
  | .denied | .disconnect => some view

/-- `pomelo_protocol_crypto_context_make_associated_data`. -/
def makeAssociatedData (prefixByte : UInt8) : List UInt8 :=
  versionInfo ++ toLittleEndian 8 ctx.protocolId ++ [prefixByte]

/-- `pomelo_protocol_crypto_context_encrypt_packet`. -/
def encryptPacket (header : Header) : Option BufferView :=
  if header.type = .request then some view
  else if view.capacity - (view.offset + view.length) < hmacBytes then none
  else
    let prefixByte := prefixEncode header.type (calcPackedUint64Bytes header.sequence)
    let encrypted := cipher.encrypt (load view.memory view.offset view.length)
      (makeAssociatedData ctx prefixByte) (makeNonce header.sequence) ctx.packetEncryptKey
    some { view with
      memory := store view.memory view.offset encrypted
      length := encrypted.length }

/-- `sender_process_entry`. -/
def senderProcessEntry (noEncrypt : Bool) (packet : OutgoingPacket) : Option BufferView :=
  let header := headerInit packet
  (headerEncode view header).bind fun view =>
    let bodyView := { view with offset := view.offset + view.length, length := 0 }
    (packetEncode cipher ctx bodyView packet.body).bind fun bodyView =>
      (if noEncrypt then some bodyView else encryptPacket cipher ctx bodyView header).map
        fun bodyView =>
          { view with memory := bodyView.memory, length := view.length + bodyView.length }

end Sending

section Receiving

variable (order : ByteOrder) (cipher : PacketCipher) (tokenCipher : TokenCipher)
  (ctx : CryptoContext) (view : BufferView)

/-- `pomelo_protocol_packet_header_decode`. -/
def headerDecode : Option (Header × BufferView) :=
  (view.reader.readUint8).bind fun r =>
    if r.1 = 0 then some (⟨0, .request, 0, 0⟩, view.consumed r.2)
    else
      (ofTypeCode? (r.1 >>> 4)).bind fun type =>
        let sequenceBytes := (r.1 &&& 0x0F).toNat
        if 8 < sequenceBytes ∨ sequenceBytes < 1 then none
        else
          (r.2.readPackedUint64 sequenceBytes).map fun r' =>
            (⟨r.1, type, r'.1, sequenceBytes⟩,
              { view with
                offset := view.offset + (1 + sequenceBytes)
                length := view.length - (1 + sequenceBytes) })

/-- `pomelo_protocol_packet_validate_body_length`; the length is a `size_t`, so the
subtraction of the HMAC wraps. -/
def validateBodyLength (type : PacketType) (bodyLength : UInt64) (encrypted : Bool) : Bool :=
  let length :=
    if encrypted ∧ type ≠ .request then bodyLength - UInt64.ofNat hmacBytes else bodyLength
  match type with
  | .request => decide (length.toNat = requestBodySize)
  | .denied => decide (length.toNat = 0)
  | .challenge => decide (length.toNat = challengeBodySize)
  | .response => decide (length.toNat = challengeBodySize)
  | .keepAlive => decide (length.toNat = 8)
  | .payload => decide (0 < length.toNat) && decide (length.toNat ≤ packetBodyCapacity)
  | .disconnect => decide (length.toNat = 0)

/-- The checks on lengths in `pomelo_protocol_socket_validate_incoming`, with the decoded
header and the view of the body. -/
def validateIncoming (encrypted : Bool) : Option (Header × BufferView) :=
  if view.length < (if encrypted then 18 else 2) then none
  else
    (headerDecode view).bind fun r =>
      if validateBodyLength r.1.type (UInt64.ofNat r.2.length) encrypted then some r else none

/-- `pomelo_protocol_crypto_context_decrypt_packet`. -/
def decryptPacket (header : Header) : Option BufferView :=
  if header.type = .request then some view
  else if view.length < hmacBytes then none
  else
    let prefixByte := prefixEncode header.type (calcPackedUint64Bytes header.sequence)
    (cipher.decrypt (load view.memory view.offset view.length) (makeAssociatedData ctx prefixByte)
      (makeNonce header.sequence) ctx.packetDecryptKey).map fun decrypted =>
        { view with memory := store view.memory view.offset decrypted, length := decrypted.length }

/-- `pomelo_protocol_packet_request_decode` into a packet whose token had a value
before. -/
def requestDecode (old : ConnectToken) : Option IncomingBody :=
  let p := view.reader
  if p.capacity - p.position < requestBodySize then none
  else if load p.memory p.address versionInfo.length ≠ versionInfo then none
  else
    let p := p.advance versionInfo.length
    (p.readUint64).bind fun protocolId =>
      (protocolId.2.readUint64).bind fun expireTimestamp =>
        (expireTimestamp.2.readBuffer 24).bind fun nonce =>
          (decodePrivate order tokenCipher nonce.2.memory nonce.2.address
            { old with
              protocolId := protocolId.1
              expireTimestamp := expireTimestamp.1
              connectTokenNonce := nonce.1 } ctx.privateKey).map
            (.request protocolId.1 expireTimestamp.1 nonce.1)

/-- `pomelo_protocol_packet_challenge_decode`. -/
def challengeDecode : Option IncomingBody :=
  let p := view.reader
  if p.capacity - p.position < challengeBodySize then none
  else
    (p.readUint64).bind fun tokenSequence =>
      (tokenSequence.2.readBuffer 300).map fun encrypted =>
        .challenge tokenSequence.1 encrypted.1

/-- `pomelo_protocol_packet_response_decode` into a packet whose token had a value
before. -/
def responseDecode (old : ChallengeToken) : Option IncomingBody :=
  let p := view.reader
  if p.capacity - p.position < challengeBodySize then none
  else
    (p.readUint64).bind fun tokenSequence =>
      (decryptChallengeToken cipher tokenSequence.2 ctx.challengeKey tokenSequence.1 old).map
        fun token => .response tokenSequence.1 token.1

/-- `pomelo_protocol_packet_keep_alive_decode`. -/
def keepAliveDecode : Option IncomingBody :=
  (view.reader.readInt64).map fun clientId => .keepAlive clientId.1

/-- `pomelo_protocol_packet_payload_decode`: the view is attached. -/
def payloadDecode : Option IncomingBody :=
  some (.payload [load view.memory view.offset view.length])

/-- `pomelo_protocol_packet_decode`. -/
def packetDecode (oldToken : ConnectToken) (oldChallenge : ChallengeToken) :
    PacketType → Option IncomingBody
  | .request => requestDecode order tokenCipher ctx view oldToken
  | .challenge => challengeDecode view
  | .response => responseDecode cipher ctx view oldChallenge
  | .keepAlive => keepAliveDecode view
  | .payload => payloadDecode view
  | .denied => some .denied
  | .disconnect => some .disconnect

/-- `receiver_process_entry`: the sequence number and the body of the packet. -/
def receiverProcessEntry (noDecrypt : Bool) (header : Header) (oldToken : ConnectToken)
    (oldChallenge : ChallengeToken) : Option (UInt64 × IncomingBody) :=
  (if noDecrypt then some view else decryptPacket cipher ctx view header).bind fun view =>
    (packetDecode order cipher tokenCipher ctx view oldToken oldChallenge header.type).map
      fun body => (header.sequence, body)

end Receiving

end Codec

end PomeloUdp
