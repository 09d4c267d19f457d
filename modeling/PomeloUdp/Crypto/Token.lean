import PomeloUdp.Base.Address
import PomeloUdp.Library.Aead

/-!
# The codec of connect tokens

`encode` writes a connect token into 2048 bytes of memory, with its private part
encrypted in place from offset 60 on. The return codes of the writes and reads are
ignored, as in the source. `encode_eq` says what is written, `decodePublic_encode`
and `decodePrivate_eq` that it is read back.

The associated data of the private part are built from the token once when it is
encoded and once when it is decoded. The encryption of the crypto library never
fails, so the encoding does not either.
-/

namespace PomeloUdp

namespace Codec

open Memory LittleEndian Payload Aead

/-- `POMELO_VERSION_INFO` with its terminator. -/
def versionInfo : List UInt8 := [80, 79, 77, 69, 76, 79, 32, 49, 46, 48, 48, 0]

/-- `POMELO_CONNECT_TOKEN_BYTES`. -/
def connectTokenBytes : ℕ := 2048

/-- `POMELO_CONNECT_TOKEN_PRIVATE_BYTES`. -/
def connectTokenPrivateBytes : ℕ := 1024

/-- `POMELO_CONNECT_TOKEN_PRIVATE_OFFSET`. -/
def connectTokenPrivateOffset : ℕ := versionInfo.length + 8 + 8 + 8 + 24

/-- `crypto_aead_xchacha20poly1305_ietf_ABYTES`. -/
def tokenTagBytes : ℕ := 16

/-- `pomelo_connect_token_t`. The array of addresses has 32 entries; the entries from
32 on stand for the memory behind it. -/
structure ConnectToken where
  protocolId : UInt64
  createTimestamp : UInt64
  expireTimestamp : UInt64
  connectTokenNonce : Vector UInt8 24
  timeout : Int32
  naddresses : Int32
  addresses : ℕ → Address
  clientToServerKey : Vector UInt8 32
  serverToClientKey : Vector UInt8 32
  clientId : Int64
  userData : Vector UInt8 256

/-- The AEAD of the private part. -/
abbrev TokenCipher := Cipher (Vector UInt8 32) (Vector UInt8 24) tokenTagBytes

section Encoding

variable (order : ByteOrder) (p : Payload) (token : ConnectToken)

/-- `pomelo_payload_write_uint8` or `pomelo_payload_write_uint16` for each value. -/
def writeEach {α : Type} (write : α → Payload → Option Payload) (p : Payload) (values : List α) :
    Payload :=
  values.foldl (fun p value => p.attempt (write value)) p

/-- One server address: its type, its IP and its port. -/
def encodeServerAddress (address : Address) : Payload :=
  let p := p.attempt (writeUint8 address.type)
  let p := match address.ip order with
    | .v4 bytes => writeEach writeUint8 p bytes.toList
    | .v6 groups => writeEach writeUint16 p groups.toList
  p.attempt (writeUint16 (address.port order))

/-- `pomelo_codec_encode_server_addresses`. -/
def encodeServerAddresses : Payload :=
  (List.range token.naddresses.toInt.toNat).foldl
    (fun p i => encodeServerAddress order p (token.addresses i))
    (p.attempt (writeUint32 token.naddresses.toUInt32))

/-- `pomelo_codec_encode_connect_token_associated_data`. -/
def encodeAssociatedData : List UInt8 :=
  let p : Payload := ⟨fun _ => 0, 0, 0, versionInfo.length + 8 + 8⟩
  let p := p.attempt (writeBuffer versionInfo)
  let p := p.attempt (writeUint64 token.protocolId)
  let p := p.attempt (writeUint64 token.expireTimestamp)
  load p.memory 0 (versionInfo.length + 8 + 8)

variable (cipher : TokenCipher) (memory : ℕ → UInt8) (buffer : ℕ) (key : Vector UInt8 32)

/-- `pomelo_codec_encode_private_connect_token`: the memory after it. -/
def encodePrivate : ℕ → UInt8 :=
  let p : Payload := ⟨memory, buffer, 0, connectTokenPrivateBytes⟩
  let p := p.attempt (writeInt64 token.clientId)
  let p := p.attempt (writeInt32 token.timeout)
  let p := encodeServerAddresses order p token
  let p := p.attempt (writeBuffer token.clientToServerKey.toList)
  let p := p.attempt (writeBuffer token.serverToClientKey.toList)
  let p := p.attempt (writeBuffer token.userData.toList)
  let p := p.attempt (zeroPad connectTokenPrivateBytes)
  store p.memory buffer (cipher.encrypt
    (load p.memory buffer (connectTokenPrivateBytes - tokenTagBytes)) (encodeAssociatedData token)
    token.connectTokenNonce key)

/-- `pomelo_connect_token_encode`: the memory after it. -/
def encode : ℕ → UInt8 :=
  let p : Payload := ⟨memory, buffer, 0, connectTokenBytes⟩
  let p := p.attempt (writeBuffer versionInfo)
  let p := p.attempt (writeUint64 token.protocolId)
  let p := p.attempt (writeUint64 token.createTimestamp)
  let p := p.attempt (writeUint64 token.expireTimestamp)
  let p := p.attempt (writeBuffer token.connectTokenNonce.toList)
  let p := { p with memory := encodePrivate order token cipher p.memory p.address key }
  let p := p.advance connectTokenPrivateBytes
  let p := p.attempt (writeInt32 token.timeout)
  let p := encodeServerAddresses order p token
  let p := p.attempt (writeBuffer token.clientToServerKey.toList)
  let p := p.attempt (writeBuffer token.serverToClientKey.toList)
  (p.attempt (zeroPad connectTokenBytes)).memory

end Encoding

section Decoding

variable (order : ByteOrder) (p : Payload)

/-- The IP of a server address of the given type. -/
def decodeIp (type : UInt8) : AddressIp × Payload :=
  if type = 1 then
    let bytes := readVector readUint8 0 4 p
    (.v4 bytes.1, bytes.2)
  else
    let groups := readVector readUint16 0 8 p
    (.v6 groups.1, groups.2)

/-- `pomelo_codec_decode_server_address` into an address that had a value before. -/
def decodeServerAddress (old : Address) : Address × Payload :=
  let type := p.readUint8.getD (0, p)
  let ip := decodeIp type.2 type.1
  let port := ip.2.readUint16.getD (0, ip.2)
  (old.set order type.1 ip.1 port.1, port.2)

/-- `pomelo_codec_decode_server_addresses`: the number of addresses, the array and the
payload. The number is a local that is not set when its read fails. -/
def decodeServerAddresses (addresses : ℕ → Address) : Int32 × (ℕ → Address) × Payload :=
  let naddr := p.readUint32.getD (0, p)
  (naddr.1.toInt32, (List.range naddr.1.toNat).foldl
    (fun (r : (ℕ → Address) × Payload) i =>
      let address := decodeServerAddress order r.2 (r.1 i)
      (Function.update r.1 i address.1, address.2))
    (addresses, naddr.2))

variable (cipher : TokenCipher) (memory : ℕ → UInt8) (buffer : ℕ) (token : ConnectToken)
  (key : Vector UInt8 32)

/-- `pomelo_connect_token_decode_private`: the token, or none when the decryption
fails. -/
def decodePrivate : Option ConnectToken :=
  (cipher.decrypt (load memory buffer connectTokenPrivateBytes) (encodeAssociatedData token)
    token.connectTokenNonce key).map fun decrypted =>
      let p : Payload := ⟨store (fun _ => 0) 0 decrypted, 0, 0, connectTokenPrivateBytes⟩
      let clientId := p.readInt64.getD (token.clientId, p)
      let timeout := clientId.2.readInt32.getD (token.timeout, clientId.2)
      let addresses := decodeServerAddresses order timeout.2 token.addresses
      let clientToServerKey :=
        (addresses.2.2.readBuffer 32).getD (token.clientToServerKey, addresses.2.2)
      let serverToClientKey :=
        (clientToServerKey.2.readBuffer 32).getD (token.serverToClientKey, clientToServerKey.2)
      let userData :=
        (serverToClientKey.2.readBuffer 256).getD (token.userData, serverToClientKey.2)
      { token with
        clientId := clientId.1
        timeout := timeout.1
        naddresses := addresses.1
        addresses := addresses.2.1
        clientToServerKey := clientToServerKey.1
        serverToClientKey := serverToClientKey.1
        userData := userData.1 }

/-- `pomelo_connect_token_decode_public`, which returns 0 for another version too. -/
def decodePublic : ConnectToken :=
  let p : Payload := ⟨memory, buffer, 0, connectTokenBytes⟩
  if load memory buffer versionInfo.length ≠ versionInfo then token
  else
    let p := p.advance versionInfo.length
    let protocolId := p.readUint64.getD (token.protocolId, p)
    let createTimestamp := protocolId.2.readUint64.getD (token.createTimestamp, protocolId.2)
    let expireTimestamp :=
      createTimestamp.2.readUint64.getD (token.expireTimestamp, createTimestamp.2)
    let nonce :=
      (expireTimestamp.2.readBuffer 24).getD (token.connectTokenNonce, expireTimestamp.2)
    let p := nonce.2.advance connectTokenPrivateBytes
    let timeout := p.readInt32.getD (token.timeout, p)
    let addresses := decodeServerAddresses order timeout.2 token.addresses
    let clientToServerKey :=
      (addresses.2.2.readBuffer 32).getD (token.clientToServerKey, addresses.2.2)
    let serverToClientKey :=
      (clientToServerKey.2.readBuffer 32).getD (token.serverToClientKey, clientToServerKey.2)
    { token with
      protocolId := protocolId.1
      createTimestamp := createTimestamp.1
      expireTimestamp := expireTimestamp.1
      connectTokenNonce := nonce.1
      timeout := timeout.1
      naddresses := addresses.1
      addresses := addresses.2.1
      clientToServerKey := clientToServerKey.1
      serverToClientKey := serverToClientKey.1 }

end Decoding

section Wire

variable (order : ByteOrder) (token : ConnectToken)

/-- An IP on the wire. -/
def ipBytes : AddressIp → List UInt8
  | .v4 bytes => bytes.toList.flatMap fun byte => [byte]
  | .v6 groups => groups.toList.flatMap fun group => toLittleEndian 2 group.toUInt64

/-- An address on the wire. -/
def addressBytes (address : Address) : List UInt8 :=
  [address.type] ++ (ipBytes (address.ip order) ++
    toLittleEndian 2 (address.port order).toUInt64)

/-- The addresses from 0 to `n` on the wire. -/
def addressesBytes (n : ℕ) : List UInt8 :=
  (List.range n).flatMap fun i => addressBytes order (token.addresses i)

/-- The number of addresses. -/
def ConnectToken.count : ℕ := token.naddresses.toInt.toNat

/-- The number of addresses and the addresses on the wire. -/
def serverAddressesBytes : List UInt8 :=
  toLittleEndian 4 token.naddresses.toUInt32.toUInt64 ++ addressesBytes order token token.count

theorem length_ipBytes_le (address : Address) : (ipBytes (address.ip order)).length ≤ 16 := by
  cases address <;> simp [ipBytes, Address.ip, List.length_flatMap]

theorem length_addressBytes_le (address : Address) : (addressBytes order address).length ≤ 19 := by
  have hip := length_ipBytes_le order address
  simp only [addressBytes, List.length_append, List.length_singleton, length_toLittleEndian]
  omega

theorem addressesBytes_succ (n : ℕ) :
    addressesBytes order token (n + 1) =
      addressesBytes order token n ++ addressBytes order (token.addresses n) := by
  simp [addressesBytes, List.range_succ]

theorem length_addressesBytes_le (n : ℕ) : (addressesBytes order token n).length ≤ 19 * n := by
  induction n with
  | zero => simp [addressesBytes]
  | succ n ih =>
      have haddress := length_addressBytes_le order (token.addresses n)
      rw [addressesBytes_succ, List.length_append]
      omega

/-- A token with a number of addresses that the array has. -/
structure ConnectToken.Valid : Prop where
  one_le : 1 ≤ token.naddresses.toInt
  le : token.naddresses.toInt ≤ 32

theorem length_serverAddressesBytes_le (h : token.Valid) :
    (serverAddressesBytes order token).length ≤ 612 := by
  have haddresses := length_addressesBytes_le order token token.count
  have hcount : token.count ≤ 32 := by
    have := h.le
    unfold ConnectToken.count
    omega
  simp only [serverAddressesBytes, List.length_append, length_toLittleEndian]
  omega

/-- The private part before padding. -/
def privateBytes : List UInt8 :=
  toLittleEndian 8 token.clientId.toUInt64 ++ (toLittleEndian 4 token.timeout.toUInt32.toUInt64 ++
    (serverAddressesBytes order token ++ (token.clientToServerKey.toList ++
      (token.serverToClientKey.toList ++ token.userData.toList))))

theorem length_privateBytes_le (h : token.Valid) : (privateBytes order token).length ≤ 944 := by
  have haddresses := length_serverAddressesBytes_le order token h
  simp only [privateBytes, List.length_append, length_toLittleEndian, Vector.length_toList]
  omega

/-- The private part that is encrypted. -/
def paddedPrivate : List UInt8 :=
  privateBytes order token ++
    List.replicate (connectTokenPrivateBytes - tokenTagBytes - (privateBytes order token).length) 0

/-- The encrypted private part. -/
def sealedPrivate (cipher : TokenCipher) (key : Vector UInt8 32) : List UInt8 :=
  cipher.encrypt (paddedPrivate order token) (encodeAssociatedData token) token.connectTokenNonce
    key

theorem length_sealedPrivate (cipher : TokenCipher) (key : Vector UInt8 32) (h : token.Valid) :
    (sealedPrivate order token cipher key).length = connectTokenPrivateBytes := by
  have hlength := length_privateBytes_le order token h
  simp only [sealedPrivate, cipher.length_encrypt, paddedPrivate, List.length_append,
    List.length_replicate, connectTokenPrivateBytes, tokenTagBytes]
  omega

/-- The public part before the private one. -/
def headBytes : List UInt8 :=
  versionInfo ++ (toLittleEndian 8 token.protocolId ++ (toLittleEndian 8 token.createTimestamp ++
    (toLittleEndian 8 token.expireTimestamp ++ token.connectTokenNonce.toList)))

/-- The public part after the private one, before padding. -/
def tailBytes : List UInt8 :=
  toLittleEndian 4 token.timeout.toUInt32.toUInt64 ++ (serverAddressesBytes order token ++
    (token.clientToServerKey.toList ++ token.serverToClientKey.toList))

theorem length_headBytes : (headBytes token).length = connectTokenPrivateOffset := by
  simp [headBytes, connectTokenPrivateOffset]

theorem length_tailBytes_le (h : token.Valid) : (tailBytes order token).length ≤ 680 := by
  have haddresses := length_serverAddressesBytes_le order token h
  simp only [tailBytes, List.length_append, length_toLittleEndian, Vector.length_toList]
  omega

/-- The whole token before padding. -/
def unpaddedBytes (cipher : TokenCipher) (key : Vector UInt8 32) : List UInt8 :=
  headBytes token ++ (sealedPrivate order token cipher key ++ tailBytes order token)

/-- The token on the wire. -/
def tokenBytes (cipher : TokenCipher) (key : Vector UInt8 32) : List UInt8 :=
  unpaddedBytes order token cipher key ++
    List.replicate (connectTokenBytes - (unpaddedBytes order token cipher key).length) 0

theorem length_tokenBytes (cipher : TokenCipher) (key : Vector UInt8 32) (h : token.Valid) :
    (tokenBytes order token cipher key).length = connectTokenBytes := by
  have htail := length_tailBytes_le order token h
  simp only [tokenBytes, unpaddedBytes, List.length_append, List.length_replicate,
    length_headBytes, length_sealedPrivate order token cipher key h, connectTokenPrivateOffset,
    connectTokenPrivateBytes, connectTokenBytes, versionInfo, List.length_cons, List.length_nil]
  omega

end Wire

section Encoded

variable {order : ByteOrder} {p : Payload} {token : ConnectToken} {xs : List UInt8}

theorem writeEach_eq {α : Type} (write : α → Payload → Option Payload) (bytes : α → List UInt8)
    (hwrite : ∀ value p, write value p = p.tryWrite (bytes value)) (values : List α)
    (h : p.position + (xs.length + (values.flatMap bytes).length) ≤ p.capacity) :
    writeEach write (p.write xs) values = p.write (xs ++ values.flatMap bytes) := by
  induction values generalizing xs with
  | nil => simp [writeEach]
  | cons value values ih =>
      rw [List.flatMap_cons, List.length_append] at h
      have hfirst : (p.write xs).attempt (write value) = p.write (xs ++ bytes value) := by
        rw [← attempt_tryWrite (by omega)]
        simp only [attempt, hwrite]
      have hroom : p.position + ((xs ++ bytes value).length + (values.flatMap bytes).length) ≤
          p.capacity := by
        rw [List.length_append]
        omega
      rw [List.flatMap_cons, ← List.append_assoc, ← ih hroom]
      simp only [writeEach, List.foldl_cons, hfirst]

theorem encodeServerAddress_eq (address : Address)
    (h : p.position + (xs.length + (addressBytes order address).length) ≤ p.capacity) :
    encodeServerAddress order (p.write xs) address =
      p.write (xs ++ addressBytes order address) := by
  have htype : (p.write xs).attempt (writeUint8 address.type) = p.write (xs ++ [address.type]) :=
    attempt_tryWrite (by
      simp only [addressBytes, List.length_append, List.length_singleton] at h ⊢
      omega)
  have hport : ∀ ys : List UInt8, p.position + (ys.length + 2) ≤ p.capacity →
      (p.write ys).attempt (writeUint16 (address.port order)) =
        p.write (ys ++ toLittleEndian 2 (address.port order).toUInt64) :=
    fun ys hys => attempt_tryWrite (by simpa using hys)
  simp only [addressBytes, List.length_append, List.length_singleton, length_toLittleEndian] at h
  simp only [encodeServerAddress, htype]
  rw [show xs ++ addressBytes order address = xs ++ [address.type] ++ ipBytes (address.ip order) ++
    toLittleEndian 2 (address.port order).toUInt64 by simp [addressBytes]]
  cases hip : address.ip order with
  | v4 bytes =>
      rw [hip] at h
      simp only [ipBytes] at h ⊢
      rw [writeEach_eq writeUint8 (fun byte => [byte]) (fun _ _ => rfl), hport]
      · simp only [List.length_append, List.length_singleton]
        omega
      · simp only [List.length_append, List.length_singleton]
        omega
  | v6 groups =>
      rw [hip] at h
      simp only [ipBytes] at h ⊢
      rw [writeEach_eq writeUint16 (fun group => toLittleEndian 2 group.toUInt64) (fun _ _ => rfl),
        hport]
      · simp only [List.length_append, List.length_singleton]
        omega
      · simp only [List.length_append, List.length_singleton]
        omega

theorem encodeServerAddresses_eq
    (h : p.position + (xs.length + (serverAddressesBytes order token).length) ≤ p.capacity) :
    encodeServerAddresses order (p.write xs) token =
      p.write (xs ++ serverAddressesBytes order token) := by
  simp only [serverAddressesBytes, List.length_append, length_toLittleEndian] at h
  have hcount : (p.write xs).attempt (writeUint32 token.naddresses.toUInt32) =
      p.write (xs ++ toLittleEndian 4 token.naddresses.toUInt32.toUInt64) :=
    attempt_tryWrite (by simp; omega)
  have hloop : ∀ n, p.position + (xs.length + (4 + (addressesBytes order token n).length)) ≤
      p.capacity → (List.range n).foldl
        (fun p i => encodeServerAddress order p (token.addresses i))
        (p.write (xs ++ toLittleEndian 4 token.naddresses.toUInt32.toUInt64)) =
      p.write (xs ++ toLittleEndian 4 token.naddresses.toUInt32.toUInt64 ++
        addressesBytes order token n) := by
    intro n
    induction n with
    | zero => simp [addressesBytes]
    | succ n ih =>
        intro hn
        rw [addressesBytes_succ, List.length_append] at hn
        rw [List.range_succ, List.foldl_append, ih (by omega), addressesBytes_succ,
          ← List.append_assoc]
        exact encodeServerAddress_eq (token.addresses n) (by simp; omega)
  rw [encodeServerAddresses, hcount, serverAddressesBytes, ← List.append_assoc]
  exact hloop token.count h

theorem attempt_writeVector {n : ℕ} (v : Vector UInt8 n)
    (h : p.position + (xs.length + n) ≤ p.capacity) :
    (p.write xs).attempt (writeBuffer v.toList) = p.write (xs ++ v.toList) :=
  attempt_writeBuffer (by simpa using h)

variable (cipher : TokenCipher) (memory : ℕ → UInt8) (buffer : ℕ) (key : Vector UInt8 32)

theorem encodePrivate_eq (h : token.Valid) :
    encodePrivate order token cipher memory buffer key =
      store memory buffer (sealedPrivate order token cipher key) := by
  set p : Payload := ⟨memory, buffer, 0, connectTokenPrivateBytes⟩ with hp
  have haddresses := length_serverAddressesBytes_le order token h
  have hlength := length_privateBytes_le order token h
  have hid : p.attempt (writeInt64 token.clientId) =
      p.write (toLittleEndian 8 token.clientId.toUInt64) :=
    attempt_first (by simp [hp, connectTokenPrivateBytes])
  have htimeout : (p.write (toLittleEndian 8 token.clientId.toUInt64)).attempt
      (writeInt32 token.timeout) = p.write (toLittleEndian 8 token.clientId.toUInt64 ++
        toLittleEndian 4 token.timeout.toUInt32.toUInt64) :=
    attempt_tryWrite (by simp [hp, connectTokenPrivateBytes])
  have hwritten : (((encodeServerAddresses order ((p.attempt (writeInt64 token.clientId)).attempt
      (writeInt32 token.timeout)) token).attempt
        (writeBuffer token.clientToServerKey.toList)).attempt
        (writeBuffer token.serverToClientKey.toList)).attempt (writeBuffer token.userData.toList) =
      p.write (privateBytes order token) := by
    rw [hid, htimeout, encodeServerAddresses_eq, attempt_writeVector, attempt_writeVector,
      attempt_writeVector]
    · simp [privateBytes]
    all_goals
      simp only [hp, connectTokenPrivateBytes, List.length_append, length_toLittleEndian,
        Vector.length_toList]
      omega
  have hpadded : (p.write (privateBytes order token)).attempt (zeroPad connectTokenPrivateBytes) =
      p.write (privateBytes order token ++
        List.replicate (connectTokenPrivateBytes - (0 + (privateBytes order token).length)) 0) :=
    attempt_zeroPad (Nat.le_refl _)
  have htake : (privateBytes order token ++ List.replicate
      (connectTokenPrivateBytes - (0 + (privateBytes order token).length)) 0).take
        (connectTokenPrivateBytes - tokenTagBytes) = paddedPrivate order token := by
    rw [List.take_append, List.take_of_length_le, List.take_replicate]
    · have hpad : min (connectTokenPrivateBytes - tokenTagBytes - (privateBytes order token).length)
          (connectTokenPrivateBytes - (0 + (privateBytes order token).length)) =
          connectTokenPrivateBytes - tokenTagBytes - (privateBytes order token).length := by
        simp only [connectTokenPrivateBytes, tokenTagBytes]
        omega
      rw [hpad, paddedPrivate]
    · simp only [connectTokenPrivateBytes, tokenTagBytes]
      omega
  simp only [encodePrivate]
  rw [hwritten, hpadded]
  simp only [write, address, hp, Nat.add_zero]
  rw [load_store_take, htake, store_over]
  · rfl
  · have hsealed := length_sealedPrivate order token cipher key h
    rw [sealedPrivate] at hsealed
    rw [hsealed]
    simp only [List.length_append, List.length_replicate, connectTokenPrivateBytes]
    omega
  · simp only [List.length_append, List.length_replicate, connectTokenPrivateBytes, tokenTagBytes]
    omega

theorem encode_eq (h : token.Valid) :
    encode order token cipher memory buffer key =
      store memory buffer (tokenBytes order token cipher key) := by
  set p : Payload := ⟨memory, buffer, 0, connectTokenBytes⟩ with hp
  have haddresses := length_serverAddressesBytes_le order token h
  have hsealed := length_sealedPrivate order token cipher key h
  have hhead : ((((p.attempt (writeBuffer versionInfo)).attempt
      (writeUint64 token.protocolId)).attempt (writeUint64 token.createTimestamp)).attempt
        (writeUint64 token.expireTimestamp)).attempt
          (writeBuffer token.connectTokenNonce.toList) = p.write (headBytes token) := by
    have hversion : p.attempt (writeBuffer versionInfo) = p.write versionInfo := by
      have hwrite : (p.write []).attempt (writeBuffer versionInfo) = p.write ([] ++ versionInfo) :=
        attempt_writeBuffer (by simp [hp, versionInfo, connectTokenBytes])
      rwa [write_nil] at hwrite
    have huint64 : ∀ xs : List UInt8, ∀ value, xs.length ≤ 100 →
        (p.write xs).attempt (writeUint64 value) = p.write (xs ++ toLittleEndian 8 value) :=
      fun xs value hxs => attempt_tryWrite (by simp [hp, connectTokenBytes]; omega)
    rw [hversion, huint64, huint64, huint64, attempt_writeVector]
    · simp [headBytes]
    all_goals simp [hp, versionInfo, connectTokenBytes]
  have hprivate : ({ p.write (headBytes token) with
      memory := encodePrivate order token cipher (p.write (headBytes token)).memory
        (p.write (headBytes token)).address key }.advance connectTokenPrivateBytes) =
      p.write (headBytes token ++ sealedPrivate order token cipher key) := by
    rw [encodePrivate_eq cipher _ _ key h, ← write_write]
    simp only [write, advance, hsealed]
  have htail : ((encodeServerAddresses order ((p.write
      (headBytes token ++ sealedPrivate order token cipher key)).attempt
        (writeInt32 token.timeout)) token).attempt
          (writeBuffer token.clientToServerKey.toList)).attempt
            (writeBuffer token.serverToClientKey.toList) =
      p.write (unpaddedBytes order token cipher key) := by
    have htimeout : (p.write (headBytes token ++ sealedPrivate order token cipher key)).attempt
        (writeInt32 token.timeout) =
        p.write (headBytes token ++ sealedPrivate order token cipher key ++
          toLittleEndian 4 token.timeout.toUInt32.toUInt64) :=
      attempt_tryWrite (by
        simp [hp, length_headBytes, hsealed, connectTokenPrivateOffset, versionInfo,
          connectTokenPrivateBytes, connectTokenBytes])
    rw [htimeout, encodeServerAddresses_eq, attempt_writeVector, attempt_writeVector]
    · simp [unpaddedBytes, tailBytes]
    all_goals
      simp only [hp, List.length_append, length_headBytes, hsealed, connectTokenPrivateOffset,
        versionInfo, connectTokenPrivateBytes, connectTokenBytes, length_toLittleEndian,
        List.length_cons, List.length_nil, Vector.length_toList]
      omega
  have hpadded : (p.write (unpaddedBytes order token cipher key)).attempt
      (zeroPad connectTokenBytes) = p.write (unpaddedBytes order token cipher key ++
        List.replicate
          (connectTokenBytes - (0 + (unpaddedBytes order token cipher key).length)) 0) :=
    attempt_zeroPad (Nat.le_refl _)
  simp only [encode]
  rw [hhead, hprivate, htail, hpadded, Nat.zero_add]
  rfl

end Encoded

section Decoded

variable {order : ByteOrder} {p : Payload} {token : ConnectToken} {ys : List UInt8}

theorem decodeIp_eq (address : Address) (h : p.Holds (ipBytes (address.ip order) ++ ys)) :
    decodeIp p address.type =
      (address.ip order, p.advance (ipBytes (address.ip order)).length) := by
  cases address with
  | ipv4 ip port =>
      have hread := readVector_eq 0 (fun byte => [byte]) (fun q x zs hq => Holds.readUint8 hq) ip h
      simp only [decodeIp, Address.type, if_true, hread]
      rfl
  | ipv6 ip port =>
      have hread := readVector_eq 0 (fun group : UInt16 => toLittleEndian 2 group.toUInt64)
        (fun q x zs hq => Holds.readUint16 hq) (ip.map order.htons) h
      simp only [decodeIp, Address.type, hread]
      rfl

theorem decodeServerAddress_eq (address old : Address)
    (h : p.Holds (addressBytes order address ++ ys)) :
    decodeServerAddress order p old = (address, p.advance (addressBytes order address).length) := by
  rw [addressBytes, List.append_assoc, List.append_assoc] at h
  have hip := h.right
  have hport := hip.right
  have htype := h.readUint8
  simp only [List.length_singleton] at hip hport
  simp only [decodeServerAddress, htype, Option.getD_some, decodeIp_eq address hip,
    hport.readUint16]
  rw [Address.set_ip_port, advance_advance, advance_advance]
  simp [addressBytes, Nat.add_comm]

theorem toNat_naddresses (h : token.Valid) : token.naddresses.toUInt32.toNat = token.count := by
  have hbits := BitVec.toInt_eq_toNat_cond token.naddresses.toBitVec
  have hlt := token.naddresses.toBitVec.isLt
  have hone := h.one_le
  have hle := h.le
  unfold ConnectToken.count
  simp only [Int32.toInt] at hone hle ⊢
  rw [show token.naddresses.toUInt32.toNat = token.naddresses.toBitVec.toNat from rfl]
  split at hbits <;> omega

/-- The array of addresses whose first entries are those of the token. -/
def overwrite (token : ConnectToken) (old : ℕ → Address) (n : ℕ) : ℕ → Address :=
  fun i => if i < n then token.addresses i else old i

theorem decodeServerAddresses_eq (h : token.Valid) (old : ℕ → Address)
    (hp : p.Holds (serverAddressesBytes order token ++ ys)) :
    decodeServerAddresses order p old = (token.naddresses, overwrite token old token.count,
      p.advance (serverAddressesBytes order token).length) := by
  rw [serverAddressesBytes, List.append_assoc] at hp
  have haddresses := hp.right
  rw [length_toLittleEndian] at haddresses
  have hloop : ∀ n ys, (p.advance 4).Holds (addressesBytes order token n ++ ys) →
      (List.range n).foldl
        (fun (r : (ℕ → Address) × Payload) i =>
          let address := decodeServerAddress order r.2 (r.1 i)
          (Function.update r.1 i address.1, address.2))
        (old, p.advance 4) =
      (overwrite token old n, (p.advance 4).advance (addressesBytes order token n).length) := by
    intro n
    induction n with
    | zero =>
        intro ys _
        have hnone : overwrite token old 0 = old := by
          funext i
          simp [overwrite]
        simp [addressesBytes, hnone, advance]
    | succ n ih =>
        intro ys hn
        rw [addressesBytes_succ, List.append_assoc] at hn
        have hnext : Function.update (overwrite token old n) n (token.addresses n) =
            overwrite token old (n + 1) := by
          funext i
          by_cases hi : i = n
          · subst hi
            simp [overwrite]
          · simp [overwrite, Function.update_of_ne hi, show i < n + 1 ↔ i < n by omega]
        rw [List.range_succ, List.foldl_append, ih _ hn]
        simp only [List.foldl_cons, List.foldl_nil]
        rw [decodeServerAddress_eq _ _ hn.right, hnext, advance_advance, addressesBytes_succ,
          List.length_append]
  simp only [decodeServerAddresses, hp.readUint32, Option.getD_some, toNat_naddresses h]
  rw [hloop token.count ys haddresses, advance_advance]
  simp [serverAddressesBytes]

variable (cipher : TokenCipher) (memory : ℕ → UInt8) (buffer : ℕ) (key : Vector UInt8 32)

/-- The public fields of a token, put into another one. -/
def ConnectToken.withPublic (target token : ConnectToken) : ConnectToken :=
  { target with
    protocolId := token.protocolId
    createTimestamp := token.createTimestamp
    expireTimestamp := token.expireTimestamp
    connectTokenNonce := token.connectTokenNonce
    timeout := token.timeout
    naddresses := token.naddresses
    addresses := overwrite token target.addresses token.count
    clientToServerKey := token.clientToServerKey
    serverToClientKey := token.serverToClientKey }

/-- The fields of the private part of a token, put into another one. -/
def ConnectToken.withPrivate (target token : ConnectToken) : ConnectToken :=
  { target with
    clientId := token.clientId
    timeout := token.timeout
    naddresses := token.naddresses
    addresses := overwrite token target.addresses token.count
    clientToServerKey := token.clientToServerKey
    serverToClientKey := token.serverToClientKey
    userData := token.userData }

theorem decodePublic_eq (h : token.Valid) (target : ConnectToken) {middle rest : List UInt8}
    (hmiddle : middle.length = connectTokenPrivateBytes)
    (hp : Payload.Holds ⟨memory, buffer, 0, connectTokenBytes⟩
      (headBytes token ++ (middle ++ (tailBytes order token ++ rest)))) :
    decodePublic order memory buffer target = target.withPublic token := by
  simp only [headBytes, tailBytes, List.append_assoc] at hp
  have hversion : load memory buffer versionInfo.length = versionInfo := hp.left.load
  have hprotocolId := hp.right
  have hcreate := hprotocolId.right
  have hexpire := hcreate.right
  have hnonce := hexpire.right
  have hprivate := hnonce.right
  have htimeout := hprivate.right
  have haddresses := htimeout.right
  simp only [length_toLittleEndian, Vector.length_toList, hmiddle]
    at hcreate hexpire hnonce hprivate htimeout haddresses
  have hclientKey := haddresses.right
  have hserverKey := hclientKey.right
  simp only [Vector.length_toList] at hserverKey
  simp only [decodePublic, hversion, ne_eq, not_true_eq_false, if_false]
  rw [hprotocolId.readUint64, Option.getD_some, hcreate.readUint64, Option.getD_some,
    hexpire.readUint64, Option.getD_some, hnonce.readBuffer, Option.getD_some]
  simp only []
  rw [htimeout.readInt32, Option.getD_some]
  simp only []
  rw [decodeServerAddresses_eq h _ haddresses]
  simp only []
  rw [hclientKey.readBuffer, Option.getD_some]
  simp only []
  rw [hserverKey.readBuffer, Option.getD_some]
  rfl

theorem decodePublic_encode (h : token.Valid) (target : ConnectToken) :
    decodePublic order (encode order token cipher memory buffer key) buffer target =
      target.withPublic token := by
  have hlength := length_tokenBytes order token cipher key h
  have hp := holds_store memory buffer (tokenBytes order token cipher key) (Nat.le_of_eq hlength)
  rw [encode_eq cipher memory buffer key h]
  set m := store memory buffer (tokenBytes order token cipher key) with hm
  rw [tokenBytes, unpaddedBytes, List.append_assoc, List.append_assoc] at hp
  exact decodePublic_eq _ _ h target (length_sealedPrivate order token cipher key h) hp

theorem load_private (h : token.Valid) :
    load (encode order token cipher memory buffer key) (buffer + connectTokenPrivateOffset)
      connectTokenPrivateBytes = sealedPrivate order token cipher key := by
  have hlength := length_tokenBytes order token cipher key h
  have hp := holds_store memory buffer (tokenBytes order token cipher key) (Nat.le_of_eq hlength)
  rw [encode_eq cipher memory buffer key h]
  set m := store memory buffer (tokenBytes order token cipher key) with hm
  rw [tokenBytes, unpaddedBytes, List.append_assoc, List.append_assoc] at hp
  have hsealed := hp.right.left.load
  rw [length_sealedPrivate order token cipher key h, length_headBytes] at hsealed
  simpa [address, advance] using hsealed

theorem decodePrivate_eq (h : token.Valid) (target : ConnectToken)
    (hprotocolId : target.protocolId = token.protocolId)
    (hexpireTimestamp : target.expireTimestamp = token.expireTimestamp)
    (hnonce : target.connectTokenNonce = token.connectTokenNonce)
    (hload : load memory buffer connectTokenPrivateBytes =
      sealedPrivate order token cipher key) :
    decodePrivate order cipher memory buffer target key = some (target.withPrivate token) := by
  have had : encodeAssociatedData target = encodeAssociatedData token := by
    simp only [encodeAssociatedData, hprotocolId, hexpireTimestamp]
  have hlength : (paddedPrivate order token).length ≤ connectTokenPrivateBytes := by
    have hprivate := length_privateBytes_le order token h
    simp only [paddedPrivate, List.length_append, List.length_replicate, connectTokenPrivateBytes,
      tokenTagBytes]
    omega
  have hp := holds_store (fun _ => 0) 0 (paddedPrivate order token) hlength
  set m := store (fun _ => 0) 0 (paddedPrivate order token) with hm
  simp only [paddedPrivate, privateBytes, List.append_assoc] at hp
  have htimeout := hp.right
  have haddresses := htimeout.right
  simp only [length_toLittleEndian] at htimeout haddresses
  have hclientKey := haddresses.right
  have hserverKey := hclientKey.right
  have huserData := hserverKey.right
  simp only [Vector.length_toList] at hserverKey huserData
  rw [decodePrivate, hload, had, hnonce, sealedPrivate,
    cipher.decrypt_encrypt, Option.map_some, ← hm]
  simp only []
  rw [hp.readInt64, Option.getD_some]
  simp only []
  rw [htimeout.readInt32, Option.getD_some]
  simp only []
  rw [decodeServerAddresses_eq h _ haddresses]
  simp only []
  rw [hclientKey.readBuffer, Option.getD_some]
  simp only []
  rw [hserverKey.readBuffer, Option.getD_some]
  simp only []
  rw [huserData.readBuffer, Option.getD_some, ← hnonce]
  rfl

end Decoded

/-- Encoding a token with 1 to 32 addresses writes nothing outside its 2048 bytes, and
its private part nothing outside its 1024 bytes. Decoding the public part gives back
every public field, and decoding the private part under the same key gives back every
private one. -/
theorem encode_roundTrip (order : ByteOrder) (cipher : TokenCipher) (memory : ℕ → UInt8)
    (buffer : ℕ) (token : ConnectToken) (key : Vector UInt8 32) (h : token.Valid) :
    (∀ i, i < buffer ∨ buffer + connectTokenBytes ≤ i →
      encode order token cipher memory buffer key i = memory i) ∧
    (∀ (memory : ℕ → UInt8) (buffer i : ℕ),
      i < buffer ∨ buffer + connectTokenPrivateBytes ≤ i →
        encodePrivate order token cipher memory buffer key i = memory i) ∧
    (∀ target, decodePublic order (encode order token cipher memory buffer key) buffer target =
      target.withPublic token) ∧
    ∀ target : ConnectToken, target.protocolId = token.protocolId →
      target.expireTimestamp = token.expireTimestamp →
      target.connectTokenNonce = token.connectTokenNonce →
        decodePrivate order cipher (encode order token cipher memory buffer key)
          (buffer + connectTokenPrivateOffset) target key = some (target.withPrivate token) := by
  refine ⟨?_, ?_, decodePublic_encode cipher memory buffer key h, ?_⟩
  · intro i hi
    rw [encode_eq cipher memory buffer key h]
    apply store_outside
    rwa [length_tokenBytes order token cipher key h]
  · intro memory buffer i hi
    rw [encodePrivate_eq cipher memory buffer key h]
    apply store_outside
    rwa [length_sealedPrivate order token cipher key h]
  · intro target hprotocolId hexpireTimestamp hnonce
    exact decodePrivate_eq cipher _ _ key h target hprotocolId hexpireTimestamp hnonce
      (load_private cipher memory buffer key h)

/-- A token with an IPv4 and an IPv6 address. -/
def sampleToken : ConnectToken where
  protocolId := 7
  createTimestamp := 1
  expireTimestamp := 100
  connectTokenNonce := .replicate 24 9
  timeout := -1
  naddresses := 2
  addresses := fun i => if i = 0 then .ipv4 #v[127, 0, 0, 1] 8888 else .ipv6 (.replicate 8 1) 8889
  clientToServerKey := .replicate 32 11
  serverToClientKey := .replicate 32 12
  clientId := -5
  userData := .replicate 256 3

theorem encode_roundTrip_sampleToken :
    (∀ i, i < 0 ∨ 0 + connectTokenBytes ≤ i →
      encode .littleEndian sampleToken (Cipher.plain _ _ _) (fun _ => 0) 0 (.replicate 32 1) i =
        0) ∧
    (∀ (memory : ℕ → UInt8) (buffer i : ℕ),
      i < buffer ∨ buffer + connectTokenPrivateBytes ≤ i →
        encodePrivate .littleEndian sampleToken (Cipher.plain _ _ _) memory buffer
          (.replicate 32 1) i = memory i) ∧
    (∀ target, decodePublic .littleEndian (encode .littleEndian sampleToken (Cipher.plain _ _ _)
      (fun _ => 0) 0 (.replicate 32 1)) 0 target = target.withPublic sampleToken) ∧
    ∀ target : ConnectToken, target.protocolId = sampleToken.protocolId →
      target.expireTimestamp = sampleToken.expireTimestamp →
      target.connectTokenNonce = sampleToken.connectTokenNonce →
        decodePrivate .littleEndian (Cipher.plain _ _ _) (encode .littleEndian sampleToken
          (Cipher.plain _ _ _) (fun _ => 0) 0 (.replicate 32 1)) (0 + connectTokenPrivateOffset)
            target (.replicate 32 1) = some (target.withPrivate sampleToken) :=
  encode_roundTrip .littleEndian (Cipher.plain _ _ _) (fun _ => 0) 0 sampleToken (.replicate 32 1)
    ⟨by decide, by decide⟩

end Codec

end PomeloUdp
