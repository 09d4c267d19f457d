import PomeloUdp.Crypto.Token

/-!
# Decoding any buffer

`decodePublicResult` is run on 2048 bytes that may be anything. A buffer is acceptable if its
version is the known one, it announces 1 to 32 addresses, and each of them has a known type.
The bytes of an acceptable buffer are those of a token, so every public field is what its bytes
say.

The function returns 0 for every buffer, so it validates exactly the acceptable ones. In the
others the number of addresses may be as large as 32 bits allow, and the loop writes behind the
array.
-/

namespace PomeloUdp

namespace Codec

open Memory LittleEndian Payload

/-- `pomelo_connect_token_decode_public`: its return code and the token. -/
def decodePublicResult (order : ByteOrder) (memory : ℕ → UInt8) (buffer : ℕ)
    (token : ConnectToken) : Int32 × ConnectToken :=
  if load memory buffer versionInfo.length ≠ versionInfo then (0, token)
  else (0, decodePublic order memory buffer token)

/-- Where the timeout stands. -/
def timeoutOffset : ℕ := connectTokenPrivateOffset + connectTokenPrivateBytes

section Layout

variable (memory : ℕ → UInt8) (buffer : ℕ)

/-- The number of addresses that the bytes announce. -/
def publicCount : ℕ := (fromLittleEndian 0 0 (load memory (buffer + timeoutOffset + 4) 4)).toNat

/-- Where an address stands. Its length depends on its type. -/
def addressOffset : ℕ → ℕ
  | 0 => timeoutOffset + 8
  | i + 1 => addressOffset i + if memory (buffer + addressOffset i) = 1 then 7 else 19

/-- The bytes of a buffer that has to be accepted. -/
structure Acceptable : Prop where
  version : load memory buffer versionInfo.length = versionInfo
  one_le : 1 ≤ publicCount memory buffer
  le : publicCount memory buffer ≤ 32
  types : ∀ i < publicCount memory buffer,
    memory (buffer + addressOffset memory buffer i) = 1 ∨
      memory (buffer + addressOffset memory buffer i) = 2
  inside : addressOffset memory buffer (publicCount memory buffer) + 64 ≤ connectTokenBytes

/-- Every public field of the token has its bytes in the buffer. -/
structure Reads (order : ByteOrder) (token : ConnectToken) : Prop where
  head : load memory buffer connectTokenPrivateOffset = headBytes token
  tail : load memory (buffer + timeoutOffset) (tailBytes order token).length =
    tailBytes order token

/-- Decoding accepts an acceptable buffer with its fields, refuses any other one, and does not
write behind the array of addresses. -/
def Validates (order : ByteOrder) : Prop :=
  ∀ token, (Acceptable memory buffer →
      (decodePublicResult order memory buffer token).1 = 0 ∧
        Reads memory buffer order (decodePublicResult order memory buffer token).2) ∧
    (¬ Acceptable memory buffer → (decodePublicResult order memory buffer token).1 < 0) ∧
    ∀ i, 32 ≤ i →
      (decodePublicResult order memory buffer token).2.addresses i = token.addresses i

end Layout

section Wire

variable {order : ByteOrder} {memory : ℕ → UInt8} {buffer a : ℕ}

theorem length_load_le (memory : ℕ → UInt8) (a : ℕ) {n : ℕ} (h : n ≤ 8) :
    (load memory a n).length ≤ 8 := by
  rwa [length_load]

theorem exists_uint64 (memory : ℕ → UInt8) (a : ℕ) :
    ∃ value : UInt64, toLittleEndian 8 value = load memory a 8 := by
  obtain ⟨value, -, hvalue⟩ :=
    exists_toLittleEndian (length_load_le memory a (show 8 ≤ 8 by decide))
  exact ⟨value, by simpa using hvalue⟩

theorem exists_uint32 (memory : ℕ → UInt8) (a : ℕ) :
    ∃ value : UInt32, toLittleEndian 4 value.toUInt64 = load memory a 4 := by
  obtain ⟨value, hlt, hvalue⟩ :=
    exists_toLittleEndian (length_load_le memory a (show 4 ≤ 8 by decide))
  rw [length_load] at hlt hvalue
  refine ⟨value.toUInt32, ?_⟩
  rw [← hvalue]
  congr 1
  apply UInt64.toNat_inj.mp
  rw [UInt32.toNat_toUInt64, UInt64.toNat_toUInt32]
  exact Nat.mod_eq_of_lt hlt

theorem exists_uint16 (memory : ℕ → UInt8) (a : ℕ) :
    ∃ value : UInt16, toLittleEndian 2 value.toUInt64 = load memory a 2 := by
  obtain ⟨value, hlt, hvalue⟩ :=
    exists_toLittleEndian (length_load_le memory a (show 2 ≤ 8 by decide))
  rw [length_load] at hlt hvalue
  refine ⟨value.toUInt16, ?_⟩
  rw [← hvalue]
  congr 1
  apply UInt64.toNat_inj.mp
  rw [UInt16.toNat_toUInt64, UInt64.toNat_toUInt16]
  exact Nat.mod_eq_of_lt hlt

theorem exists_groups (memory : ℕ → UInt8) (a n : ℕ) :
    ∃ groups : Vector UInt16 n,
      groups.toList.flatMap (fun group => toLittleEndian 2 group.toUInt64) =
        load memory a (2 * n) := by
  induction n with
  | zero => exact ⟨#v[], rfl⟩
  | succ n ih =>
      obtain ⟨groups, hgroups⟩ := ih
      obtain ⟨group, hgroup⟩ := exists_uint16 memory (a + 2 * n)
      refine ⟨groups.push group, ?_⟩
      rw [Vector.toList_push, List.flatMap_append, List.flatMap_singleton, hgroups, hgroup,
        ← load_add, Nat.mul_succ]

theorem exists_address (order : ByteOrder) (htype : memory a = 1 ∨ memory a = 2) :
    ∃ address : Address, addressBytes order address =
      load memory a (if memory a = 1 then 7 else 19) := by
  have hfirst : load memory a 1 = [memory a] := by simp [load]
  rcases htype with htype | htype
  · obtain ⟨port, hport⟩ := exists_uint16 memory (a + 1 + 4)
    refine ⟨.ipv4 (loadVector memory (a + 1) 4) (order.htons port), ?_⟩
    have hip : ipBytes (.v4 (loadVector memory (a + 1) 4)) = load memory (a + 1) 4 := by
      simp [ipBytes, toList_loadVector]
    rw [if_pos htype, show 7 = 1 + (4 + 2) from rfl, load_add, load_add, hfirst, htype,
      addressBytes, Address.ip, hip, Address.port, ByteOrder.htons_htons, hport]
    rfl
  · obtain ⟨groups, hgroups⟩ := exists_groups memory (a + 1) 8
    obtain ⟨port, hport⟩ := exists_uint16 memory (a + 1 + 16)
    refine ⟨.ipv6 (groups.map order.htons) (order.htons port), ?_⟩
    have hmap : (groups.map order.htons).map order.htons = groups := by
      simp [Function.comp_def]
    rw [if_neg (by rw [htype]; decide), show 19 = 1 + (16 + 2) from rfl, load_add, load_add,
      hfirst, htype, addressBytes, Address.ip, hmap, ipBytes, hgroups, Address.port,
      ByteOrder.htons_htons, hport]
    rfl

theorem exists_addresses (order : ByteOrder) {n : ℕ} (htypes : ∀ i < n,
    memory (buffer + addressOffset memory buffer i) = 1 ∨
      memory (buffer + addressOffset memory buffer i) = 2) :
    ∃ addresses : ℕ → Address, ∀ i < n, addressBytes order (addresses i) =
      load memory (buffer + addressOffset memory buffer i)
        (if memory (buffer + addressOffset memory buffer i) = 1 then 7 else 19) := by
  have haddress : ∀ i, ∃ address : Address, i < n → addressBytes order address =
      load memory (buffer + addressOffset memory buffer i)
        (if memory (buffer + addressOffset memory buffer i) = 1 then 7 else 19) := by
    intro i
    by_cases hi : i < n
    · obtain ⟨address, heq⟩ := exists_address order (htypes i hi)
      exact ⟨address, fun _ => heq⟩
    · exact ⟨.ipv4 (.replicate 4 0) 0, fun h => absurd h hi⟩
  choose addresses haddresses using haddress
  exact ⟨addresses, haddresses⟩

theorem load_addresses {token : ConnectToken} {n : ℕ}
    (h : ∀ i < n, addressBytes order (token.addresses i) =
      load memory (buffer + addressOffset memory buffer i)
        (if memory (buffer + addressOffset memory buffer i) = 1 then 7 else 19)) :
    addressOffset memory buffer n = addressOffset memory buffer 0 +
        (addressesBytes order token n).length ∧
      load memory (buffer + addressOffset memory buffer 0)
        (addressesBytes order token n).length = addressesBytes order token n := by
  induction n with
  | zero => exact ⟨rfl, rfl⟩
  | succ n ih =>
      obtain ⟨hoffset, hload⟩ := ih fun i hi => h i (by omega)
      have hlast := h n (by omega)
      have hlength := congrArg List.length hlast
      rw [length_load] at hlength
      have hplace : buffer + addressOffset memory buffer 0 + (addressesBytes order token n).length =
          buffer + addressOffset memory buffer n := by omega
      rw [addressesBytes_succ, List.length_append]
      refine ⟨?_, ?_⟩
      · rw [hlength, ← Nat.add_assoc, ← hoffset]
        rfl
      · rw [load_add, hload, hplace, hlength, ← hlast]

theorem toInt_toInt32 {value : UInt32} (h : value.toNat ≤ 32) :
    value.toInt32.toInt = value.toNat := by
  rw [Int32.toInt, UInt32.toBitVec_toInt32, BitVec.toInt_eq_toNat_of_lt]
  · rfl
  · change 2 * value.toNat < 2 ^ 32
    omega

theorem exists_head (hversion : load memory buffer versionInfo.length = versionInfo) :
    ∃ protocolId createTimestamp expireTimestamp, ∃ nonce : Vector UInt8 24,
      load memory buffer connectTokenPrivateOffset =
        versionInfo ++ (toLittleEndian 8 protocolId ++ (toLittleEndian 8 createTimestamp ++
          (toLittleEndian 8 expireTimestamp ++ nonce.toList))) := by
  obtain ⟨protocolId, hprotocolId⟩ := exists_uint64 memory (buffer + versionInfo.length)
  obtain ⟨create, hcreate⟩ := exists_uint64 memory (buffer + versionInfo.length + 8)
  obtain ⟨expire, hexpire⟩ := exists_uint64 memory (buffer + versionInfo.length + 8 + 8)
  refine ⟨protocolId, create, expire,
    loadVector memory (buffer + versionInfo.length + 8 + 8 + 8) 24, ?_⟩
  rw [show connectTokenPrivateOffset = versionInfo.length + (8 + (8 + (8 + 24))) from rfl,
    load_add, load_add, load_add, load_add, hversion, hprotocolId, hcreate, hexpire,
    toList_loadVector]

theorem Acceptable.exists_token (h : Acceptable memory buffer) (order : ByteOrder) :
    ∃ token : ConnectToken, token.Valid ∧ Reads memory buffer order token := by
  obtain ⟨protocolId, create, expire, nonce, hhead⟩ := exists_head h.version
  obtain ⟨timeout, htimeout⟩ := exists_uint32 memory (buffer + timeoutOffset)
  obtain ⟨count, hcount⟩ := exists_uint32 memory (buffer + timeoutOffset + 4)
  obtain ⟨addresses, haddresses⟩ := exists_addresses order h.types
  have hpublic : publicCount memory buffer = count.toNat := by
    rw [publicCount, ← hcount, fromLittleEndian_toLittleEndian (by decide)]
    · exact UInt32.toNat_toUInt64 _
    · exact count.toNat_lt
  have hint : count.toInt32.toInt = publicCount memory buffer := by
    rw [hpublic]
    exact toInt_toInt32 (hpublic ▸ h.le)
  have hone := h.one_le
  have hle := h.le
  set keys := buffer + addressOffset memory buffer (publicCount memory buffer) with hkeys
  let token : ConnectToken :=
    { protocolId := protocolId
      createTimestamp := create
      expireTimestamp := expire
      connectTokenNonce := nonce
      timeout := timeout.toInt32
      naddresses := count.toInt32
      addresses := addresses
      clientToServerKey := loadVector memory keys 32
      serverToClientKey := loadVector memory (keys + 32) 32
      clientId := 0
      userData := .replicate 256 0 }
  have htoken : token.count = publicCount memory buffer := by
    change count.toInt32.toInt.toNat = _
    rw [hint, Int.toNat_natCast]
  have hplaces : addressOffset memory buffer (publicCount memory buffer) =
        addressOffset memory buffer 0 +
          (addressesBytes order token (publicCount memory buffer)).length ∧
      load memory (buffer + addressOffset memory buffer 0)
          (addressesBytes order token (publicCount memory buffer)).length =
        addressesBytes order token (publicCount memory buffer) := load_addresses haddresses
  obtain ⟨hoffset, hload⟩ := hplaces
  refine ⟨token, ⟨?_, ?_⟩, hhead, ?_⟩
  · change 1 ≤ count.toInt32.toInt
    omega
  · change count.toInt32.toInt ≤ 32
    omega
  · have hlength : (tailBytes order token).length = 4 + (4 +
        (addressesBytes order token (publicCount memory buffer)).length + (32 + 32)) := by
      simp only [tailBytes, serverAddressesBytes, List.length_append, length_toLittleEndian,
        Vector.length_toList, htoken]
    have hplace : buffer + timeoutOffset + 4 + (4 +
        (addressesBytes order token (publicCount memory buffer)).length) = keys := by
      rw [hkeys, hoffset, addressOffset]
      omega
    rw [hlength, load_add, load_add, hplace, load_add, load_add, ← htimeout, ← hcount,
      show buffer + timeoutOffset + 4 + 4 = buffer + addressOffset memory buffer 0 from rfl, hload,
      tailBytes, serverAddressesBytes, htoken]
    change _ = toLittleEndian 4 timeout.toInt32.toUInt32.toUInt64 ++
      (toLittleEndian 4 count.toInt32.toUInt32.toUInt64 ++ _ ++
        ((loadVector memory keys 32).toList ++ (loadVector memory (keys + 32) 32).toList))
    rw [toList_loadVector, toList_loadVector, UInt32.toUInt32_toInt32, UInt32.toUInt32_toInt32]

theorem Reads.decodePublic {token : ConnectToken} (h : Reads memory buffer order token)
    (hvalid : token.Valid) (target : ConnectToken) :
    Codec.decodePublic order memory buffer target = target.withPublic token := by
  have htail := length_tailBytes_le order token hvalid
  set rest := load memory (buffer + timeoutOffset + (tailBytes order token).length)
    (connectTokenBytes - (timeoutOffset + (tailBytes order token).length)) with hrest
  have hsum : timeoutOffset + (tailBytes order token).length ≤ connectTokenBytes := by
    simp only [timeoutOffset, connectTokenPrivateOffset, connectTokenPrivateBytes, versionInfo,
      connectTokenBytes, List.length_cons, List.length_nil]
    omega
  have hbytes : headBytes token ++ (load memory (buffer + connectTokenPrivateOffset)
      connectTokenPrivateBytes ++ (tailBytes order token ++ rest)) =
        load memory buffer connectTokenBytes := by
    have hsplit : connectTokenBytes = connectTokenPrivateOffset + (connectTokenPrivateBytes +
        ((tailBytes order token).length +
          (connectTokenBytes - (timeoutOffset + (tailBytes order token).length)))) := by
      rw [← Nat.add_assoc, ← timeoutOffset]
      omega
    rw [hsplit, load_add, load_add, load_add, h.head, Nat.add_assoc buffer, ← timeoutOffset, h.tail]
  have hp : Payload.Holds ⟨memory, buffer, 0, connectTokenBytes⟩ (headBytes token ++
      (load memory (buffer + connectTokenPrivateOffset) connectTokenPrivateBytes ++
        (tailBytes order token ++ rest))) := by
    rw [hbytes]
    refine ⟨?_, ?_⟩
    · exact Nat.le_of_eq ((Nat.zero_add _).trans (length_load _ _ _))
    · rw [length_load]
      rfl
  exact decodePublic_eq memory buffer hvalid target (length_load _ _ _) hp

theorem Reads.withPublic {token : ConnectToken} (h : Reads memory buffer order token)
    (target : ConnectToken) : Reads memory buffer order (target.withPublic token) := by
  have haddresses : addressesBytes order (target.withPublic token) token.count =
      addressesBytes order token token.count := by
    apply List.flatMap_congr
    intro i hi
    have hoverwrite : (target.withPublic token).addresses i = token.addresses i :=
      if_pos (List.mem_range.mp hi)
    rw [hoverwrite]
  have htail : tailBytes order (target.withPublic token) = tailBytes order token := by
    rw [tailBytes, serverAddressesBytes,
      show (target.withPublic token).count = token.count from rfl,
      haddresses]
    rfl
  exact ⟨h.head, by rw [htail, h.tail]⟩

end Wire

section Result

variable {order : ByteOrder} {memory : ℕ → UInt8} {buffer : ℕ}

theorem decodePublicResult_fst (token : ConnectToken) :
    (decodePublicResult order memory buffer token).1 = 0 := by
  rw [decodePublicResult]
  split <;> rfl

theorem decodePublicResult_snd (token : ConnectToken) :
    (decodePublicResult order memory buffer token).2 = decodePublic order memory buffer token := by
  by_cases hversion : load memory buffer versionInfo.length = versionInfo
  · simp [decodePublicResult, hversion]
  · simp [decodePublicResult, decodePublic, hversion]

theorem Acceptable.result (h : Acceptable memory buffer) (order : ByteOrder)
    (token : ConnectToken) :
    Reads memory buffer order (decodePublicResult order memory buffer token).2 ∧
      ∀ i, 32 ≤ i →
        (decodePublicResult order memory buffer token).2.addresses i = token.addresses i := by
  obtain ⟨source, hvalid, hreads⟩ := h.exists_token order
  rw [decodePublicResult_snd, hreads.decodePublic hvalid]
  refine ⟨hreads.withPublic token, fun i hi => ?_⟩
  have hcount : ¬ i < source.count := by
    have hle := hvalid.le
    unfold ConnectToken.count
    omega
  exact if_neg hcount

/-- Decoding validates a buffer exactly if the buffer is acceptable. -/
theorem validates_iff (order : ByteOrder) (memory : ℕ → UInt8) (buffer : ℕ) :
    Validates memory buffer order ↔ Acceptable memory buffer := by
  constructor
  · intro h
    by_contra hnot
    have hrefused := (h sampleToken).2.1 hnot
    rw [decodePublicResult_fst] at hrefused
    exact absurd hrefused (by decide)
  · intro h token
    obtain ⟨hreads, houtside⟩ := h.result order token
    exact ⟨fun _ => ⟨decodePublicResult_fst token, hreads⟩, fun hnot => absurd h hnot, houtside⟩

/-- 33 IPv4 addresses with the known version. -/
def crowdedBuffer (i : ℕ) : UInt8 :=
  if i < versionInfo.length then versionInfo.getD i 0
  else if i = timeoutOffset + 4 then 33
  else if timeoutOffset + 4 < i ∧ i < timeoutOffset + 8 then 0
  else 1

/-- The crowded buffer is decoded, and its last address is written behind the array. -/
theorem not_validates_crowdedBuffer :
    ¬ Validates crowdedBuffer 0 .littleEndian ∧
      (decodePublicResult .littleEndian crowdedBuffer 0 sampleToken).1 = 0 ∧
      (decodePublicResult .littleEndian crowdedBuffer 0 sampleToken).2.addresses 32 =
        .ipv4 (.replicate 4 1) 257 ∧
      sampleToken.addresses 32 = .ipv6 (.replicate 8 1) 8889 := by
  have hwritten : (decodePublicResult .littleEndian crowdedBuffer 0 sampleToken).2.addresses 32 =
      .ipv4 (.replicate 4 1) 257 := by
    decide +kernel
  refine ⟨fun h => ?_, by decide, hwritten, rfl⟩
  have houtside := (h sampleToken).2.2 32 (Nat.le_refl 32)
  rw [hwritten] at houtside
  cases houtside

end Result

end Codec

end PomeloUdp
