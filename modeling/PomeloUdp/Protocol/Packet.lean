import Mathlib.Algebra.Group.Nat.Defs
import Mathlib.Data.Nat.Notation
import Mathlib.Tactic.SplitIfs
import PomeloUdp.Base.Buffer
import PomeloUdp.Library.Aead

/-!
# Packets and tokens of the protocol

A datagram is modelled as its header decodes: a packet type, a 64-bit sequence
number and a body. The body of a request is in clear, apart from the private
part of its connect token; every other body is a ciphertext under a packet key,
with the sequence number as nonce and the version, the protocol id and the
prefix byte as associated data. The plaintext of a body is the constructor of
its packet type, so every byte string of the length that type demands is
represented: a challenge token that does not decrypt is a forged one.
-/

namespace PomeloUdp

open Aead

/-- `POMELO_KEY_BYTES` is 32. -/
abbrev Key := BitVec 256

/-- `POMELO_USER_DATA_BYTES` is 256. -/
abbrev UserData := BitVec 2048

/-- `POMELO_CONNECT_TOKEN_NONCE_BYTES` is 24. -/
abbrev TokenNonce := BitVec 192

/-- `pomelo_address_t`: `pomelo_address_compare` is equality here. -/
inductive Address where
  | ipv4 (ip : BitVec 32) (port : UInt16)
  | ipv6 (ip : BitVec 128) (port : UInt16)
  deriving DecidableEq, Repr

/-- `POMELO_SECONDS_TO_NS` of a 32-bit token timeout, in 64-bit unsigned
arithmetic. -/
def secondsToNs (timeout : Int32) : UInt64 := timeout.toInt64.toUInt64 * 1000000000

namespace Crypto

/-- The private part of `pomelo_connect_token_t`. -/
structure PrivateToken where
  clientId : Int64
  timeout : Int32
  addresses : List Address
  clientToServerKey : Key
  serverToClientKey : Key
  userData : UserData
  deriving DecidableEq

/-- The associated data of the private part, next to the version. -/
structure TokenAd where
  protocolId : UInt64
  expireTimestamp : UInt64
  deriving DecidableEq

/-- The encrypted private part of a connect token. -/
abbrev SealedToken := Sealed Key TokenNonce TokenAd PrivateToken

/-- `pomelo_challenge_token_t`. -/
structure ChallengeToken where
  clientId : Int64
  userData : UserData
  deriving DecidableEq

/-- The encrypted challenge token; it has no associated data. -/
abbrev SealedChallenge := Sealed Key UInt64 Unit ChallengeToken

end Crypto

namespace Protocol

open Crypto

/-- `pomelo_protocol_packet_type`. -/
inductive PacketType where
  | request
  | denied
  | challenge
  | response
  | keepAlive
  | payload
  | disconnect
  deriving DecidableEq, Repr

/-- `pomelo_protocol_packet_header_t` as far as it is used after decoding. -/
structure Header where
  type : PacketType
  sequence : UInt64
  deriving DecidableEq

/-- The associated data of a packet, next to the version: the protocol id and the
prefix byte, which holds the type and the number of sequence bytes. -/
structure PacketAd where
  protocolId : UInt64
  type : PacketType
  sequenceBytes : ℕ
  deriving DecidableEq

/-- The plaintext of a packet body. -/
inductive PacketBody where
  | denied
  | challenge (tokenSequence : UInt64) (token : SealedChallenge)
  | response (tokenSequence : UInt64) (token : SealedChallenge)
  | keepAlive (clientId : Int64)
  | payload (data : List UInt8)
  | disconnect
  deriving DecidableEq

namespace PacketBody

/-- The number of bytes of a body. -/
def length : PacketBody → ℕ
  | denied => 0
  | challenge _ _ => 308
  | response _ _ => 308
  | keepAlive _ => 8
  | payload data => data.length
  | disconnect => 0

end PacketBody

/-- An encrypted packet body. -/
abbrev SealedBody := Sealed Key UInt64 PacketAd PacketBody

namespace SealedBody

/-- The number of bytes on the wire. -/
def length : SealedBody → ℕ
  | .encrypted _ _ _ body => body.length + hmacBytes
  | .forged _ length => length

end SealedBody

/-- The body of a request packet. -/
structure RequestBody where
  /-- Whether the first bytes are the version info. -/
  versionMatches : Bool
  protocolId : UInt64
  expireTimestamp : UInt64
  connectTokenNonce : TokenNonce
  token : SealedToken
  deriving DecidableEq

/-- A datagram after its header was decoded. -/
inductive Datagram where
  /-- A request whose body has the length of a request body. -/
  | request (sequence : UInt64) (body : RequestBody)
  /-- Every other datagram. -/
  | packet (header : Header) (body : SealedBody)
  deriving DecidableEq

namespace Datagram

/-- The header of a datagram. -/
def header : Datagram → Header
  | request sequence _ => ⟨.request, sequence⟩
  | packet header _ => header

end Datagram

/-- The types under replay protection. -/
def PacketType.isProtected : PacketType → Bool
  | payload => true
  | keepAlive => true
  | disconnect => true
  | _ => false

/-- `pomelo_protocol_packet_validate_body_length` of an encrypted packet that is
not a request. The subtraction of the HMAC wraps in `size_t`, and then no length
is accepted. -/
def validateBodyLength (type : PacketType) (bodyLength : ℕ) : Bool :=
  decide (hmacBytes ≤ bodyLength) &&
    match type with
    | .request => false
    | .denied => decide (bodyLength - hmacBytes = 0)
    | .challenge => decide (bodyLength - hmacBytes = 308)
    | .response => decide (bodyLength - hmacBytes = 308)
    | .keepAlive => decide (bodyLength - hmacBytes = 8)
    | .payload =>
        decide (0 < bodyLength - hmacBytes) &&
          decide (bodyLength - hmacBytes ≤ packetBodyCapacity)
    | .disconnect => decide (bodyLength - hmacBytes = 0)

/-- The length check on a datagram. -/
def Datagram.validateBodyLength : Datagram → Bool
  | request _ _ => true
  | packet header body => Protocol.validateBodyLength header.type body.length

/-- The keys of `pomelo_protocol_crypto_context_t`. -/
structure CryptoContext where
  protocolId : UInt64
  packetDecryptKey : Key
  packetEncryptKey : Key
  challengeKey : Key
  privateKey : Key
  deriving DecidableEq

namespace CryptoContext

/-- A context without keys. -/
def zero : CryptoContext := ⟨0, 0, 0, 0, 0⟩

/-- `pomelo_protocol_crypto_context_make_associated_data`. -/
def makeAssociatedData (ctx : CryptoContext) (header : Header) : PacketAd :=
  ⟨ctx.protocolId, header.type, calcPackedUint64Bytes header.sequence⟩

/-- `pomelo_protocol_crypto_context_encrypt_packet`. -/
def encryptPacket (ctx : CryptoContext) (header : Header) (body : PacketBody) : SealedBody :=
  .encrypted ctx.packetEncryptKey header.sequence (ctx.makeAssociatedData header) body

/-- `pomelo_protocol_crypto_context_decrypt_packet`. -/
def decryptPacket (ctx : CryptoContext) (header : Header) (body : SealedBody) :
    Option PacketBody :=
  body.open? ctx.packetDecryptKey header.sequence (ctx.makeAssociatedData header)

theorem decryptPacket_eq_some_iff {ctx : CryptoContext} {header : Header} {c : SealedBody}
    {body : PacketBody} :
    ctx.decryptPacket header c = some body ↔
      c = .encrypted ctx.packetDecryptKey header.sequence (ctx.makeAssociatedData header) body :=
  Sealed.open?_eq_some_iff

end CryptoContext

/-- A packet as the handlers of the server see it: `pomelo_protocol_packet_decode`
with the token or the challenge token decrypted. -/
inductive Packet where
  | request (protocolId expireTimestamp : UInt64) (token : PrivateToken)
  | denied
  | challenge (tokenSequence : UInt64) (token : SealedChallenge)
  | response (tokenSequence : UInt64) (token : ChallengeToken)
  | keepAlive (clientId : Int64)
  | payload (data : List UInt8)
  | disconnect
  deriving DecidableEq

/-- `pomelo_protocol_packet_request_decode`. -/
def requestDecode (ctx : CryptoContext) (body : RequestBody) : Option Packet :=
  if body.versionMatches then
    (body.token.open? ctx.privateKey body.connectTokenNonce
      ⟨body.protocolId, body.expireTimestamp⟩).map
        (.request body.protocolId body.expireTimestamp)
  else none

/-- `pomelo_protocol_packet_decode` of a decrypted body. A body of another type
than the one in the header does not decode. -/
def packetDecode (ctx : CryptoContext) (type : PacketType) : PacketBody → Option Packet
  | .denied => if type = .denied then some .denied else none
  | .challenge tokenSequence token =>
      if type = .challenge then some (.challenge tokenSequence token) else none
  | .response tokenSequence token =>
      if type = .response then
        (token.open? ctx.challengeKey tokenSequence ()).map (.response tokenSequence)
      else none
  | .keepAlive clientId => if type = .keepAlive then some (.keepAlive clientId) else none
  | .payload data => if type = .payload then some (.payload data) else none
  | .disconnect => if type = .disconnect then some .disconnect else none

/-- `receiver_process_entry`: decryption and decoding of a datagram. -/
def processEntry (ctx : CryptoContext) : Datagram → Option Packet
  | .request _ body => requestDecode ctx body
  | .packet header body =>
      (ctx.decryptPacket header body).bind (packetDecode ctx header.type)

/-- The type of a decoded packet. -/
def Packet.type : Packet → PacketType
  | .request _ _ _ => .request
  | .denied => .denied
  | .challenge _ _ => .challenge
  | .response _ _ => .response
  | .keepAlive _ => .keepAlive
  | .payload _ => .payload
  | .disconnect => .disconnect

theorem type_of_packetDecode {ctx : CryptoContext} {type : PacketType} {body : PacketBody}
    {packet : Packet} (h : packetDecode ctx type body = some packet) : type = packet.type := by
  cases body with
  | response tokenSequence token =>
      simp only [packetDecode] at h
      split at h
      · obtain ⟨_, -, rfl⟩ := Option.map_eq_some_iff.mp h
        assumption
      · cases h
  | _ =>
      simp only [packetDecode] at h
      split at h
      · cases h
        assumption
      · cases h

theorem type_of_processEntry {ctx : CryptoContext} {datagram : Datagram} {packet : Packet}
    (h : processEntry ctx datagram = some packet) : datagram.header.type = packet.type := by
  cases datagram with
  | request sequence body =>
      simp only [processEntry, requestDecode] at h
      split at h
      · obtain ⟨_, -, rfl⟩ := Option.map_eq_some_iff.mp h
        rfl
      · cases h
  | packet header body =>
      simp only [processEntry, Option.bind_eq_some_iff] at h
      obtain ⟨_, -, hdecode⟩ := h
      exact type_of_packetDecode hdecode

theorem processEntry_eq_request {ctx : CryptoContext} {datagram : Datagram}
    {protocolId expireTimestamp : UInt64} {token : PrivateToken}
    (h : processEntry ctx datagram = some (.request protocolId expireTimestamp token)) :
    ∃ sequence body, datagram = .request sequence body ∧ body.protocolId = protocolId ∧
      body.expireTimestamp = expireTimestamp ∧
      body.token = .encrypted ctx.privateKey body.connectTokenNonce
        ⟨protocolId, expireTimestamp⟩ token := by
  have htype := type_of_processEntry h
  cases datagram with
  | request sequence body =>
      simp only [processEntry, requestDecode] at h
      split at h
      · obtain ⟨token', hopen, heq⟩ := Option.map_eq_some_iff.mp h
        simp only [Packet.request.injEq] at heq
        obtain ⟨rfl, rfl, rfl⟩ := heq
        exact ⟨sequence, body, rfl, rfl, rfl, Sealed.open?_eq_some_iff.mp hopen⟩
      · cases h
  | packet header body =>
      simp only [Datagram.header, Packet.type] at htype
      simp only [processEntry, Option.bind_eq_some_iff] at h
      obtain ⟨plain, -, hdecode⟩ := h
      rw [htype] at hdecode
      cases plain <;> simp [packetDecode] at hdecode

theorem processEntry_eq_response {ctx : CryptoContext} {datagram : Datagram}
    {tokenSequence : UInt64} {token : ChallengeToken}
    (h : processEntry ctx datagram = some (.response tokenSequence token)) :
    ∃ sequence, datagram = .packet ⟨.response, sequence⟩
      (.encrypted ctx.packetDecryptKey sequence (ctx.makeAssociatedData ⟨.response, sequence⟩)
        (.response tokenSequence (.encrypted ctx.challengeKey tokenSequence () token))) := by
  have htype := type_of_processEntry h
  cases datagram with
  | request sequence body => cases htype
  | packet header body =>
      obtain ⟨type, sequence⟩ := header
      simp only [Datagram.header, Packet.type] at htype
      subst htype
      simp only [processEntry, Option.bind_eq_some_iff] at h
      obtain ⟨plain, hplain, hdecode⟩ := h
      rw [CryptoContext.decryptPacket_eq_some_iff] at hplain
      cases plain with
      | response tokenSequence' token' =>
          simp only [packetDecode, if_true, Option.map_eq_some_iff,
            Packet.response.injEq] at hdecode
          obtain ⟨token'', hopen, rfl, rfl⟩ := hdecode
          rw [Sealed.open?_eq_some_iff] at hopen
          exact ⟨sequence, by rw [hplain, hopen]⟩
      | _ => simp [packetDecode] at hdecode

end Protocol

end PomeloUdp
