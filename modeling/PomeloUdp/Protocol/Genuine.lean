import PomeloUdp.Protocol.Server

/-!
# Datagrams of a client

The datagrams a client builds from its connect token and the challenge of the
server, and what the server's worker makes of them.
-/

namespace PomeloUdp

namespace Protocol

open Crypto

/-- The request of a client, whose token the backend sealed with `privateKey`. -/
def clientRequest (privateKey : Key) (nonce : TokenNonce) (token : ConnectToken) : Datagram :=
  .request 0 ⟨true, token.protocolId, token.expireTimestamp, nonce,
    .encrypted privateKey nonce ⟨token.protocolId, token.expireTimestamp⟩ token.token⟩

/-- A packet sealed with the client's key of a token. -/
def clientPacket (token : ConnectToken) (header : Header) (body : PacketBody) : Datagram :=
  .packet header (.encrypted token.token.clientToServerKey header.sequence
    ⟨token.protocolId, header.type, calcPackedUint64Bytes header.sequence⟩ body)

/-- The answer of a client to the challenge with number `tokenSequence`. -/
def clientResponse (challengeKey : Key) (token : ConnectToken) (sequence tokenSequence : UInt64) :
    Datagram :=
  clientPacket token ⟨.response, sequence⟩ (.response tokenSequence
    (.encrypted challengeKey tokenSequence () ⟨token.token.clientId, token.token.userData⟩))

theorem processEntry_clientRequest (ctx : CryptoContext) (nonce : TokenNonce)
    (token : ConnectToken) :
    processEntry ctx (clientRequest ctx.privateKey nonce token) =
      some (.request token.protocolId token.expireTimestamp token.token) := by
  simp [processEntry, clientRequest, requestDecode]

/-- A platform at time `now` whose pools never run out. -/
def Env.plentiful (now : UInt64) : Env where
  hrtime := now
  now := now
  acquirePeer := true
  pushEntry := true
  acquireReceiver := true
  acquirePacket := fun _ _ => true
  acquireSender := fun _ _ => true
  leftover := 0

/-- The datagram arrives and passes. -/
def arrive (address : Address) (datagram : Datagram) : Input :=
  ⟨.plentiful 0, .accept address datagram⟩

/-- The receiver made by step `id` completes. -/
def complete (id : ReceiverId) : Input := ⟨.plentiful 0, .receiverComplete id false⟩

/-- A server of protocol 7 with private key 1 that draws challenge key 2. -/
def sampleOptions (maxClients : ℕ) : ServerOptions := ⟨1, 2, maxClients, 7, 1000⟩

/-- A token of protocol 7 that expires at time 100. -/
def sampleToken (clientId : Int64) (clientToServerKey serverToClientKey : Key) : ConnectToken :=
  ⟨7, 100, ⟨clientId, 10, [], clientToServerKey, serverToClientKey, 0⟩⟩

/-- An address with the given host. -/
def sampleAddress (host : BitVec 32) : Address := .ipv4 host 5000

end Protocol

end PomeloUdp
