import PomeloUdp.Crypto.PublicToken
import PomeloUdp.Protocol.Client
import PomeloUdp.Protocol.Emitter

/-!
# Starting a client

`pomelo_protocol_client_start` acquires a peer, decodes the connect token, connects the adapter to
the first address and starts the request emitter. It returns an error as soon as one of them
fails, without undoing the steps before. `pomelo_protocol_socket_stop` would undo them, but it does
nothing to a socket whose start failed.

`failedStarts_iff` says that a start that fails leaves nothing behind exactly if it could not
acquire its peer.
-/

namespace PomeloUdp

namespace Protocol

open Machine

/-- The fields of `pomelo_protocol_crypto_context_t` that the start of a client writes. -/
structure StartContext where
  protocolId : UInt64
  packetEncryptKey : Vector UInt8 32
  packetDecryptKey : Vector UInt8 32
  privateKey : Vector UInt8 32
  challengeKey : Vector UInt8 32
  deriving DecidableEq

/-- The fields of `pomelo_protocol_peer_t` that the start of a client writes. -/
structure StartPeer where
  id : PeerId
  state : PeerState
  createdTimeNs : UInt64
  timeoutNs : UInt64
  address : Option Codec.Address
  cryptoCtx : Option StartContext
  deriving DecidableEq

/-- What the pools and the platform answer during a start. -/
structure StartEnv where
  /-- `pomelo_platform_hrtime` when the peer is acquired. -/
  acquiredTimeNs : UInt64
  /-- `pomelo_platform_hrtime` when its keys are set. -/
  createdTimeNs : UInt64
  /-- `pomelo_platform_now`. -/
  now : UInt64
  /-- The pools give a peer and its crypto context. -/
  acquirePeer : Bool
  /-- `pomelo_platform_udp_connect` gives a socket. -/
  udpConnect : Bool
  triggerOk : Bool
  timeoutOk : Bool
  deriving DecidableEq

/-- `pomelo_protocol_client_t` with its base socket, its adapter and the peers that were acquired
for it and not released. -/
structure ClientSocket where
  state : SocketState
  connectTokenData : ℕ → UInt8
  connectToken : Codec.ConnectToken
  addressIndex : ℕ
  peer : Option PeerId
  held : List StartPeer
  /-- The number of peers that were acquired, from which their names are taken. -/
  acquired : ℕ
  /-- The address of `adapter->udp`. -/
  adapter : Option Codec.Address
  emitters : EmitterName → FrequentEmitter

/-- A connect token of zeros. -/
def zeroToken : Codec.ConnectToken where
  protocolId := 0
  createTimestamp := 0
  expireTimestamp := 0
  connectTokenNonce := .replicate 24 0
  timeout := 0
  naddresses := 0
  addresses := fun _ => .ipv4 (.replicate 4 0) 0
  clientToServerKey := .replicate 32 0
  serverToClientKey := .replicate 32 0
  clientId := 0
  userData := .replicate 256 0

/-- The timeout of the request emitter: `POMELO_SECONDS_TO_MS` of a positive timeout. -/
def requestTimeoutMs (timeout : Int32) : UInt64 :=
  if 0 < timeout then timeout.toInt64.toUInt64 * 1000 else 0

/-- An emitter of a `Client` is one with its timers left out. -/
structure Emitter.Abstracts (x : Emitter) (e : FrequentEmitter) : Prop where
  running : x.running = e.running
  counter : x.triggerCounter = e.triggerCounter.toNat

namespace Emitter.Abstracts

variable {x : Emitter} {e : FrequentEmitter}

theorem stop (h : x.Abstracts e) : Abstracts { x with running := false } e.stop where
  running := FrequentEmitter.running_stop.symm
  counter := by rw [FrequentEmitter.triggerCounter_stop, ← h.counter]

theorem emitterStart {c : Client} {env : ClientEnv} {name : EmitterName}
    (h : (c.emitters name).Abstracts e) (hfrequency : e.frequency ≠ 0) :
    (c.emitterStart env name).2 = (e.start env.startTimer env.startTimer).2 ∧
      ((c.emitterStart env name).1.emitters name).Abstracts
        (e.start env.startTimer env.startTimer).1 := by
  unfold Client.emitterStart
  rw [h.running]
  cases hrunning : e.running with
  | true => simpa [FrequentEmitter.start, hrunning] using h
  | false =>
      rw [FrequentEmitter.start_eq hrunning hfrequency]
      cases env.startTimer with
      | false => simpa using h
      | true =>
          simp only [Bool.false_eq_true, if_false, if_true, Bool.true_eq_false,
            Client.modifyEmitter, Function.update_self]
          split <;> exact ⟨rfl, rfl, rfl⟩

theorem onTriggered (h : x.Abstracts e) {limit : ℕ} (hlimit : e.limit.toNat = limit)
    (hcounter : x.triggerCounter + 1 < 2 ^ 32) :
    Abstracts { x with
      triggerCounter := x.triggerCounter + 1
      running := x.running && !decide (0 < limit ∧ limit = x.triggerCounter + 1) }
        e.onTriggered := by
  have hnext : (e.triggerCounter + 1).toNat = x.triggerCounter + 1 := by
    rw [UInt32.toNat_add, ← h.counter]
    exact Nat.mod_eq_of_lt hcounter
  have hreached : 0 < e.limit ∧ e.limit = e.triggerCounter + 1 ↔
      0 < limit ∧ limit = x.triggerCounter + 1 := by
    rw [UInt32.lt_iff_toNat_lt, ← UInt32.toNat_inj, hnext, hlimit]
    rfl
  unfold FrequentEmitter.onTriggered
  dsimp only
  split
  · rename_i hstop
    refine ⟨?_, ?_⟩
    · rw [FrequentEmitter.running_stop, decide_eq_true (hreached.mp hstop)]
      simp
    · rw [FrequentEmitter.triggerCounter_stop, hnext]
  · rename_i hstop
    refine ⟨?_, hnext.symm⟩
    rw [decide_eq_false (mt hreached.mpr hstop)]
    simpa using h.running

end Emitter.Abstracts

namespace ClientSocket

/-- `pomelo_protocol_client_create`, with new emitters. -/
def create (data : ℕ → UInt8) : ClientSocket where
  state := .stopped
  connectTokenData := data
  connectToken := zeroToken
  addressIndex := 0
  peer := none
  held := []
  acquired := 0
  adapter := none
  emitters := fun name => .init 10 (UInt32.ofNat name.limit) 0 (name = .request)

section Start

variable (c : ClientSocket) (order : Codec.ByteOrder) (env : StartEnv)

/-- The peer of the client, that was just acquired. -/
def acquirePeer (time : UInt64) : ClientSocket :=
  { c with
    peer := some c.acquired
    held := c.held ++ [⟨c.acquired, .disconnected, time, 0, none, none⟩]
    acquired := c.acquired + 1 }

/-- Writing the peer of the client. -/
def modifyPeer (f : StartPeer → StartPeer) : ClientSocket :=
  { c with held := c.held.map fun p => if some p.id = c.peer then f p else p }

/-- Writing the state of the peer. -/
def setPeerState (state : PeerState) : ClientSocket :=
  c.modifyPeer fun p => { p with state := state }

/-- Writing an emitter. -/
def setEmitter (name : EmitterName) (e : FrequentEmitter) : ClientSocket :=
  { c with emitters := Function.update c.emitters name e }

/-- `pomelo_adapter_connect`. -/
def adapterConnect (address : Codec.Address) (udpConnect : Bool) : ClientSocket × Int32 :=
  if c.adapter.isSome then (c, -1)
  else if udpConnect then ({ c with adapter := some address }, 0)
  else (c, -1)

/-- `pomelo_protocol_client_connect_address`. -/
def connectAddress (address : Codec.Address) : ClientSocket × Int32 :=
  let c := c.modifyPeer fun p => { p with address := some address }
  let r := c.adapterConnect address env.udpConnect
  if r.2 < 0 then r
  else
    let c := r.1.setPeerState .request
    let request := { c.emitters .request with
      timeoutMs := requestTimeoutMs c.connectToken.timeout }
    let started := request.start env.triggerOk env.timeoutOk
    (c.setEmitter .request started.1, if started.2 then 0 else -1)

/-- The keys of the peer, from the connect token of the client. -/
def updateKeys : ClientSocket :=
  c.modifyPeer fun p => { p with
    createdTimeNs := env.createdTimeNs
    timeoutNs := secondsToNs c.connectToken.timeout
    cryptoCtx := some {
      protocolId := c.connectToken.protocolId
      packetEncryptKey := c.connectToken.clientToServerKey
      packetDecryptKey := c.connectToken.serverToClientKey
      privateKey := .replicate 32 0
      challengeKey := .replicate 32 0 } }

/-- `pomelo_protocol_client_start`. -/
def clientStart : ClientSocket × Int32 :=
  if !env.acquirePeer then (c, -1)
  else
    let c := c.acquirePeer env.acquiredTimeNs
    let decoded := Codec.decodePublicResult order c.connectTokenData 0 c.connectToken
    let c := { c with connectToken := decoded.2 }
    if decoded.1 < 0 then (c.setPeerState .invalidConnectToken, decoded.1)
    else if c.connectToken.expireTimestamp < env.now then
      (c.setPeerState .connectTokenExpire, -1)
    else if c.connectToken.naddresses ≤ 0 then (c.setPeerState .invalidConnectToken, -1)
    else
      { c.updateKeys env with addressIndex := 0 }.connectAddress env (c.connectToken.addresses 0)

/-- `pomelo_protocol_client_stop`. The peer of a client without traffic has no senders and no
receivers to be cancelled. -/
def clientStop : ClientSocket :=
  match c.peer with
  | none => c
  | some id =>
      let c := c.setPeerState .disconnected
      { c with
        adapter := none
        emitters := fun name => (c.emitters name).stop
        held := c.held.filter (·.id ≠ id)
        peer := none }

/-- `pomelo_protocol_socket_start`. -/
def socketStart : ClientSocket × Int32 :=
  if c.state ≠ .stopped then (c, -1)
  else
    let r := c.clientStart order env
    if r.2 = 0 then ({ r.1 with state := .running }, r.2) else r

/-- `pomelo_protocol_socket_stop`. Its task is pending as long as the socket is stopping. -/
def socketStop : ClientSocket :=
  if c.state ≠ .running then c else { c with state := .stopping }

/-- `pomelo_protocol_socket_stop_deferred`. -/
def socketStopDeferred : ClientSocket := { c with state := .stopped }.clientStop

end Start

end ClientSocket

/-- The calls of the application, and the stop task. -/
inductive ClientCall where
  | start (env : StartEnv)
  | stop
  | stopDeferred

namespace ClientSocket

/-- One call. -/
def step (order : Codec.ByteOrder) (c : ClientSocket) : ClientCall → ClientSocket
  | .start env => (c.socketStart order env).1
  | .stop => c.socketStop
  | .stopDeferred => if c.state = .stopping then c.socketStopDeferred else c

/-- No peer is held, the adapter is not connected, and no timer of an emitter is armed. -/
structure Clear (c : ClientSocket) : Prop where
  held : c.held = []
  adapter : c.adapter = none
  timers : ∀ name timer, ¬ (c.emitters name).Armed timer

/-- A start that fails leaves nothing behind, and any start after it returns what it would have
returned on the new client. -/
def LeavesNothing (order : Codec.ByteOrder) (c : ClientSocket) (call : ClientCall) : Prop :=
  ∀ env, call = .start env → c.state = .stopped → (c.clientStart order env).2 ≠ 0 →
    Clear (c.step order call) ∧ ∀ next, ((c.step order call).socketStart order next).2 =
      ((create c.connectTokenData).socketStart order next).2

/-- The token that the bytes give on a new client. -/
def opened (order : Codec.ByteOrder) (data : ℕ → UInt8) : Codec.ConnectToken :=
  (Codec.decodePublicResult order data 0 zeroToken).2

/-- Nothing fails after the peer was acquired: the token is not expired and has an address, the
adapter is connected, and the timers of the request emitter start. -/
structure Unhindered (order : Codec.ByteOrder) (data : ℕ → UInt8) (env : StartEnv) : Prop where
  unexpired : env.now ≤ (opened order data).expireTimestamp
  addresses : 0 < (opened order data).naddresses
  connect : env.udpConnect = true
  trigger : env.triggerOk = true
  timeout : (opened order data).timeout ≤ 0 ∨ env.timeoutOk = true

/-- A start of a stopped client cannot acquire a peer, or nothing fails after that. -/
def EarlyFailure (order : Codec.ByteOrder) (c : ClientSocket) : ClientCall → Prop
  | .start env => c.state = .stopped → env.acquirePeer = false ∨
      Unhindered order c.connectTokenData env
  | _ => True

section Decoded

variable {order : Codec.ByteOrder} {data : ℕ → UInt8} {token other : Codec.ConnectToken}

/-- The fields of a connect token that decide about a start. -/
def header (token : Codec.ConnectToken) : UInt64 × Int32 × Int32 :=
  (token.expireTimestamp, token.naddresses, token.timeout)

theorem header_decodePublic
    (hversion : Memory.load data 0 Codec.versionInfo.length = Codec.versionInfo) :
    header (Codec.decodePublic order data 0 token) =
      header (Codec.decodePublic order data 0 other) := by
  simp only [Codec.decodePublic, hversion, ne_eq, not_true_eq_false, if_false]
  generalize hstart : Payload.advance ⟨data, 0, 0, Codec.connectTokenBytes⟩
    Codec.versionInfo.length = p
  have hposition : p.position = 12 := by rw [← hstart]; rfl
  have hcapacity : p.capacity = 2048 := by rw [← hstart]; rfl
  have hread : ∀ (q : Payload) (n : ℕ), q.position + n ≤ q.capacity →
      q.tryRead n = some (Memory.load q.memory q.address n, q.advance n) :=
    fun q n h => if_neg (by omega)
  have hbuffer : ∀ (q : Payload) (n : ℕ), q.position + n ≤ q.capacity →
      q.readBuffer n = some (Memory.loadVector q.memory q.address n, q.advance n) :=
    fun q n h => if_neg (by omega)
  simp only [header, Codec.decodeServerAddresses, Payload.readUint64, Payload.readPackedUint64,
    Payload.readInt32, Payload.readUint32]
  rw [hread p]
  simp only [Option.map_some, Option.getD_some]
  rw [hread (p.advance 8)]
  simp only [Option.map_some, Option.getD_some]
  rw [hread ((p.advance 8).advance 8)]
  simp only [Option.map_some, Option.getD_some]
  rw [hbuffer]
  simp only [Option.getD_some]
  generalize htail : Payload.advance _ Codec.connectTokenPrivateBytes = tail
  have htail : tail.position + 4 ≤ tail.capacity := by
    rw [← htail]
    simp only [Payload.advance, hposition, hcapacity, Codec.connectTokenPrivateBytes]
    omega
  rw [hread tail 4 htail]
  simp only [Option.map_some, Option.getD_some]
  all_goals
    simp only [Payload.advance, hposition, hcapacity]
    omega

theorem header_decodePublicResult
    (h : header (Codec.decodePublicResult order data 0 token).2 = header (opened order data)) :
    header (Codec.decodePublicResult order data 0
      (Codec.decodePublicResult order data 0 token).2).2 = header (opened order data) := by
  by_cases hversion : Memory.load data 0 Codec.versionInfo.length = Codec.versionInfo
  · rw [Codec.decodePublicResult_snd, opened, Codec.decodePublicResult_snd zeroToken]
    exact header_decodePublic hversion
  · have hsame : Codec.decodePublicResult order data 0 token = (0, token) := by
      rw [Codec.decodePublicResult, if_pos hversion]
    rw [hsame] at h ⊢
    rw [hsame]
    exact h

end Decoded

section Parts

variable {c : ClientSocket} {order : Codec.ByteOrder} {env : StartEnv}

/-- The client has the one peer that is held. -/
def Owns (c : ClientSocket) : Prop := ∃ p, c.held = [p] ∧ c.peer = some p.id

theorem Owns.modifyPeer (h : Owns c) {f : StartPeer → StartPeer} (hf : ∀ p, (f p).id = p.id) :
    Owns (c.modifyPeer f) := by
  obtain ⟨p, hheld, hpeer⟩ := h
  refine ⟨f p, ?_, ?_⟩
  · simp [ClientSocket.modifyPeer, hheld, hpeer]
  · rw [hf]
    exact hpeer

theorem Owns.acquirePeer (h : c.held = []) (time : UInt64) : Owns (c.acquirePeer time) :=
  ⟨_, by rw [ClientSocket.acquirePeer, h, List.nil_append], rfl⟩

@[simp] theorem length_modifyPeer (c : ClientSocket) (f : StartPeer → StartPeer) :
    (c.modifyPeer f).held.length = c.held.length := List.length_map _

@[simp] theorem length_setPeerState (c : ClientSocket) (state : PeerState) :
    (c.setPeerState state).held.length = c.held.length := length_modifyPeer c _

theorem length_adapterConnect (address : Codec.Address) (udpConnect : Bool) :
    (c.adapterConnect address udpConnect).1.held.length = c.held.length := by
  rw [adapterConnect]
  split
  · rfl
  · split <;> rfl

theorem length_connectAddress (address : Codec.Address) :
    (c.connectAddress env address).1.held.length = c.held.length := by
  rw [connectAddress]
  dsimp only
  split
  · rw [length_adapterConnect, length_modifyPeer]
  · change (ClientSocket.setPeerState _ _).held.length = _
    rw [length_setPeerState, length_adapterConnect, length_modifyPeer]

theorem length_clientStart (hacquire : env.acquirePeer = true) :
    (c.clientStart order env).1.held.length = c.held.length + 1 := by
  have hacquired : (c.acquirePeer env.acquiredTimeNs).held.length = c.held.length + 1 := by
    simp [ClientSocket.acquirePeer]
  rw [clientStart, if_neg (by simp [hacquire])]
  dsimp only
  split
  · rw [length_setPeerState, ← hacquired]
  · split
    · rw [length_setPeerState, ← hacquired]
    · split
      · rw [length_setPeerState, ← hacquired]
      · rw [length_connectAddress, ← hacquired]
        exact length_modifyPeer _ _

theorem clientStart_of_not_acquired (hacquire : env.acquirePeer = false) :
    c.clientStart order env = (c, -1) := by
  rw [clientStart, if_pos (by simp [hacquire])]

theorem socketStart_of_success (hstopped : c.state = .stopped)
    (h : (c.clientStart order env).2 = 0) :
    c.socketStart order env =
      ({ (c.clientStart order env).1 with state := .running }, (c.clientStart order env).2) := by
  rw [socketStart, if_neg (by simp [hstopped])]
  exact if_pos h

theorem socketStart_of_failure (hstopped : c.state = .stopped)
    (h : (c.clientStart order env).2 ≠ 0) :
    c.socketStart order env = c.clientStart order env := by
  rw [socketStart, if_neg (by simp [hstopped])]
  exact if_neg h

theorem socketStart_snd (hstopped : c.state = .stopped) :
    (c.socketStart order env).2 = (c.clientStart order env).2 := by
  by_cases h : (c.clientStart order env).2 = 0
  · rw [socketStart_of_success hstopped h]
  · rw [socketStart_of_failure hstopped h]

theorem requestTimeoutMs_pos_iff (timeout : Int32) :
    0 < requestTimeoutMs timeout ↔ 0 < timeout := by
  rw [requestTimeoutMs]
  split
  next h =>
    refine iff_of_true ?_ h
    have hpos : 0 < timeout.toInt := by simpa [Int32.lt_iff_toInt_lt] using h
    have hlt := timeout.toInt_lt
    have hnat : timeout.toInt64.toUInt64.toNat = timeout.toInt.toNat := by
      have hint : timeout.toInt64.toBitVec.toInt = timeout.toInt := Int32.toInt_toInt64 timeout
      have hcond := BitVec.toInt_eq_toNat_cond timeout.toInt64.toBitVec
      have hbound := timeout.toInt64.toBitVec.isLt
      change timeout.toInt64.toBitVec.toNat = _
      split at hcond <;> omega
    rw [UInt64.lt_iff_toNat_lt, UInt64.toNat_mul, hnat, Nat.mod_eq_of_lt]
    · change 0 < _ * 1000
      omega
    · change _ * 1000 < _
      omega
  next h => exact iff_of_false (by decide) h

theorem adapterConnect_of_none (hadapter : c.adapter = none) (address : Codec.Address)
    (udpConnect : Bool) :
    c.adapterConnect address udpConnect =
      if udpConnect then ({ c with adapter := some address }, 0) else (c, -1) := by
  rw [adapterConnect, hadapter]
  rfl

theorem connectAddress_eq (hadapter : c.adapter = none) (address : Codec.Address) :
    c.connectAddress env address =
      let c := c.modifyPeer fun p => { p with address := some address }
      if env.udpConnect = true then
        let c := { c with adapter := some address }.setPeerState .request
        let started := { c.emitters .request with
          timeoutMs := requestTimeoutMs c.connectToken.timeout }.start env.triggerOk env.timeoutOk
        (c.setEmitter .request started.1, if started.2 then 0 else -1)
      else (c, -1) := by
  rw [connectAddress]
  generalize hd : c.modifyPeer (fun p => { p with address := some address }) = d
  have hnone : d.adapter = none := by
    rw [← hd]
    exact hadapter
  rw [adapterConnect_of_none hnone]
  cases env.udpConnect with
  | true => rfl
  | false => rfl

theorem connectAddress_snd (hadapter : c.adapter = none)
    (hrunning : (c.emitters .request).running = false)
    (hfrequency : (c.emitters .request).frequency ≠ 0)
    (hcallback : (c.emitters .request).hasTimeoutCb = true) (address : Codec.Address) :
    (c.connectAddress env address).2 =
      if env.udpConnect = true ∧ env.triggerOk = true ∧
        (c.connectToken.timeout ≤ 0 ∨ env.timeoutOk = true) then 0 else -1 := by
  rw [connectAddress_eq hadapter]
  cases hconnect : env.udpConnect with
  | false =>
      rw [if_neg (by simp)]
      rfl
  | true =>
      dsimp only
      rw [if_pos rfl]
      set e : FrequentEmitter := { c.emitters .request with
        timeoutMs := requestTimeoutMs c.connectToken.timeout } with he
      have htimes : ¬ e.timesOut ↔ c.connectToken.timeout ≤ 0 := by
        rw [FrequentEmitter.timesOut, and_iff_left hcallback, he, requestTimeoutMs_pos_iff,
          Int32.not_lt]
      have hstart := FrequentEmitter.start_snd (e := e) hrunning hfrequency env.triggerOk
        env.timeoutOk
      rw [htimes] at hstart
      change (if (e.start env.triggerOk env.timeoutOk).2 = true then (0 : Int32) else -1) = _
      exact if_congr (hstart.trans (and_iff_right rfl).symm) rfl rfl

end Parts

section Steps

variable {c : ClientSocket} {order : Codec.ByteOrder} {data : ℕ → UInt8} {env : StartEnv}

instance (order : Codec.ByteOrder) (data : ℕ → UInt8) (env : StartEnv) :
    Decidable (Unhindered order data env) :=
  decidable_of_iff (env.now ≤ (opened order data).expireTimestamp ∧
      0 < (opened order data).naddresses ∧ env.udpConnect = true ∧ env.triggerOk = true ∧
        ((opened order data).timeout ≤ 0 ∨ env.timeoutOk = true))
    ⟨fun h => ⟨h.1, h.2.1, h.2.2.1, h.2.2.2.1, h.2.2.2.2⟩,
      fun h => ⟨h.unexpired, h.addresses, h.connect, h.trigger, h.timeout⟩⟩

/-- The invariant of a client none of whose starts failed late. -/
structure Tidy (order : Codec.ByteOrder) (data : ℕ → UInt8) (c : ClientSocket) : Prop where
  bytes : c.connectTokenData = data
  token : header (Codec.decodePublicResult order data 0 c.connectToken).2 =
    header (opened order data)
  frequency : (c.emitters .request).frequency ≠ 0
  callback : (c.emitters .request).hasTimeoutCb = true
  paired : ∀ name, FrequentEmitter.Paired (c.emitters name)
  others : ∀ name, name ≠ .request → (c.emitters name).running = false
  stopped : c.state = .stopped →
    c.held = [] ∧ c.adapter = none ∧ (c.emitters .request).running = false
  active : c.state ≠ .stopped → Owns c

theorem tidy_create (order : Codec.ByteOrder) (data : ℕ → UInt8) :
    Tidy order data (create data) where
  bytes := rfl
  token := rfl
  frequency := show (10 : UInt64) ≠ 0 by decide
  callback := rfl
  paired _ := FrequentEmitter.paired_init _ _ _ _
  others _ _ := rfl
  stopped _ := ⟨rfl, rfl, rfl⟩
  active h := absurd rfl h

theorem Tidy.clear (h : Tidy order data c) (hstopped : c.state = .stopped) : Clear c where
  held := (h.stopped hstopped).1
  adapter := (h.stopped hstopped).2.1
  timers name timer := by
    have hrunning : (c.emitters name).running = false := by
      by_cases hname : name = .request
      · rw [hname]
        exact (h.stopped hstopped).2.2
      · exact h.others name hname
    rw [(h.paired name).armed, (h.paired name).free hrunning]
    decide

/-- The client with its peer, its token and the keys, before it connects. -/
def prepared (c : ClientSocket) (order : Codec.ByteOrder) (env : StartEnv) : ClientSocket :=
  { { c.acquirePeer env.acquiredTimeNs with
      connectToken := (Codec.decodePublicResult order c.connectTokenData 0 c.connectToken).2
      }.updateKeys env with addressIndex := 0 }

theorem owns_prepared (hheld : c.held = []) : Owns (c.prepared order env) := by
  have howns : Owns ({ c.acquirePeer env.acquiredTimeNs with
      connectToken := (Codec.decodePublicResult order c.connectTokenData 0 c.connectToken).2
      }.updateKeys env) := by
    apply Owns.modifyPeer
    · exact Owns.acquirePeer hheld env.acquiredTimeNs
    · exact fun _ => rfl
  exact howns

theorem Tidy.clientStart_eq (h : Tidy order data c) (hacquire : env.acquirePeer = true) :
    ((opened order data).expireTimestamp < env.now ∨ (opened order data).naddresses ≤ 0) ∧
        (c.clientStart order env).2 = -1 ∨
      (env.now ≤ (opened order data).expireTimestamp ∧ 0 < (opened order data).naddresses) ∧
        c.clientStart order env = (c.prepared order env).connectAddress env
          ((c.prepared order env).connectToken.addresses 0) := by
  have htoken := h.token
  have hzero : (Codec.decodePublicResult order data 0 c.connectToken).1 = 0 :=
    Codec.decodePublicResult_fst c.connectToken
  have hdata : (c.acquirePeer env.acquiredTimeNs).connectTokenData = data := h.bytes
  have hold : (c.acquirePeer env.acquiredTimeNs).connectToken = c.connectToken := rfl
  rw [prepared, clientStart, if_neg (by simp [hacquire]), h.bytes]
  dsimp only
  rw [hdata, hold]
  generalize Codec.decodePublicResult order data 0 c.connectToken = decoded at *
  have hexpire : decoded.2.expireTimestamp = (opened order data).expireTimestamp :=
    congrArg (·.1) htoken
  have hnaddresses : decoded.2.naddresses = (opened order data).naddresses :=
    congrArg (·.2.1) htoken
  rw [hzero, if_neg (by decide), hexpire, hnaddresses]
  by_cases hexpired : (opened order data).expireTimestamp < env.now
  · exact .inl ⟨.inl hexpired, by rw [if_pos hexpired]⟩
  · rw [if_neg hexpired]
    by_cases hnone : (opened order data).naddresses ≤ 0
    · exact .inl ⟨.inr hnone, by rw [if_pos hnone]⟩
    · rw [if_neg hnone]
      exact .inr ⟨⟨UInt64.not_lt.mp hexpired, Int32.not_le.mp hnone⟩, rfl⟩

theorem Tidy.timeout_prepared (h : Tidy order data c) :
    (c.prepared order env).connectToken.timeout = (opened order data).timeout := by
  have htoken := h.token
  rw [← h.bytes] at htoken ⊢
  exact congrArg (·.2.2) htoken

theorem Tidy.clientStart_snd (h : Tidy order data c) (hstopped : c.state = .stopped)
    (env : StartEnv) :
    (c.clientStart order env).2 =
      if env.acquirePeer = true ∧ Unhindered order data env then 0 else -1 := by
  obtain ⟨-, hadapter, hrunning⟩ := h.stopped hstopped
  cases hacquire : env.acquirePeer with
  | false =>
      rw [clientStart_of_not_acquired hacquire, if_neg (by simp)]
  | true =>
      rcases h.clientStart_eq hacquire with ⟨hbad, hcode⟩ | ⟨⟨hexpire, haddresses⟩, heq⟩
      · rw [hcode, if_neg]
        rintro ⟨-, hun⟩
        rcases hbad with hexpired | hnone
        · exact UInt64.not_le.mpr hexpired hun.unexpired
        · exact Int32.not_lt.mpr hnone hun.addresses
      · rw [heq, connectAddress_snd (c := c.prepared order env) hadapter hrunning h.frequency
          h.callback, h.timeout_prepared]
        refine if_congr ⟨?_, ?_⟩ rfl rfl
        · rintro ⟨hconnect, htrigger, htimes⟩
          exact ⟨rfl, hexpire, haddresses, hconnect, htrigger, htimes⟩
        · rintro ⟨-, hun⟩
          exact ⟨hun.connect, hun.trigger, hun.timeout⟩

theorem Tidy.started (h : Tidy order data c) (hstopped : c.state = .stopped)
    (hacquire : env.acquirePeer = true) (hun : Unhindered order data env) :
    Tidy order data { (c.clientStart order env).1 with state := .running } := by
  obtain ⟨hheld, hadapter, hrunning⟩ := h.stopped hstopped
  have heq : c.clientStart order env = (c.prepared order env).connectAddress env
      ((c.prepared order env).connectToken.addresses 0) := by
    rcases h.clientStart_eq hacquire with ⟨hbad, -⟩ | ⟨-, heq⟩
    · rcases hbad with hexpired | hnone
      · exact absurd hun.unexpired (UInt64.not_le.mpr hexpired)
      · exact absurd hun.addresses (Int32.not_lt.mpr hnone)
    · exact heq
  have htoken : header (Codec.decodePublicResult order data 0
      (c.prepared order env).connectToken).2 = header (opened order data) := by
    have hagain := header_decodePublicResult h.token
    rw [← h.bytes] at hagain ⊢
    exact hagain
  have htimeout : (c.prepared order env).connectToken.timeout = (opened order data).timeout :=
    h.timeout_prepared
  have howns : Owns (c.prepared order env) := owns_prepared hheld
  rw [heq]
  have hbytes : (c.prepared order env).connectTokenData = data := h.bytes
  have hemitters : (c.prepared order env).emitters = c.emitters := rfl
  have hnone : (c.prepared order env).adapter = none := hadapter
  generalize c.prepared order env = d at *
  rw [connectAddress_eq hnone]
  dsimp only
  rw [if_pos hun.connect]
  have hpaired : FrequentEmitter.Paired ({ d.emitters .request with
      timeoutMs := requestTimeoutMs d.connectToken.timeout }.start
        env.triggerOk env.timeoutOk).1 := by
    rw [hemitters, htimeout]
    refine ((h.paired .request).withTimeout hrunning _).start (.inr (.inr ?_))
    rcases hun.timeout with htimes | htimes
    · exact .inl fun ht => Int32.not_lt.mpr htimes ((requestTimeoutMs_pos_iff _).mp ht.1)
    · exact .inr htimes
  have hsettings : FrequentEmitter.settings ({ d.emitters .request with
      timeoutMs := requestTimeoutMs d.connectToken.timeout }.start
        env.triggerOk env.timeoutOk).1 = FrequentEmitter.settings (c.emitters .request) := by
    rw [FrequentEmitter.settings_start, hemitters]
    rfl
  refine ⟨hbytes, htoken, ?_, ?_, fun name => ?_, fun name hname => ?_, nofun, fun _ => ?_⟩
  · change (Function.update d.emitters .request _ .request).frequency ≠ 0
    rw [Function.update_self]
    exact (congrArg (·.1) hsettings).trans_ne h.frequency
  · change (Function.update d.emitters .request _ .request).hasTimeoutCb = true
    rw [Function.update_self]
    exact (congrArg (·.2.2) hsettings).trans h.callback
  · change FrequentEmitter.Paired (Function.update d.emitters .request _ name)
    by_cases hname : name = .request
    · rw [hname, Function.update_self]
      exact hpaired
    · rw [Function.update_of_ne hname, hemitters]
      exact h.paired name
  · change (Function.update d.emitters .request _ name).running = false
    rw [Function.update_of_ne hname, hemitters]
    exact h.others name hname
  · have hconnected := howns.modifyPeer
      (f := fun p => { p with address := some (d.connectToken.addresses 0) }) fun _ => rfl
    exact Owns.modifyPeer hconnected
      (f := fun p : StartPeer => { p with state := .request }) fun _ => rfl

/-- A started client and what `Client.start` makes of it have the same fields, where both have
them. -/
structure StartedAs (c : ClientSocket) (d : Client) : Prop where
  state : c.state = d.state
  addressIndex : c.addressIndex = d.addressIndex
  emitters : ∀ name, (d.emitters name).Abstracts (c.emitters name)
  peer : ∃ p q, c.held = [p] ∧ c.peer = some p.id ∧ d.peer = some q ∧ p.state = q.state ∧
    p.createdTimeNs = q.createdTimeNs ∧ p.timeoutNs = q.timeoutNs

theorem startedAs_socketStart (hsuccess : ((create data).socketStart order env).2 = 0)
    {token : ClientToken} (htoken : token.timeout = (opened order data).timeout)
    (address : Address) (payloadCapacity : ℕ) (leftover : UInt64) :
    StartedAs ((create data).socketStart order env).1
      (Client.start token address payloadCapacity env.createdTimeNs leftover) := by
  have htidy := tidy_create order data
  rw [socketStart_snd rfl] at hsuccess
  rw [socketStart_of_success rfl hsuccess]
  rw [htidy.clientStart_snd rfl] at hsuccess
  obtain ⟨hacquire, hun⟩ : env.acquirePeer = true ∧ Unhindered order data env := by
    by_contra hnot
    rw [if_neg hnot] at hsuccess
    exact absurd hsuccess (by decide)
  rcases htidy.clientStart_eq hacquire with ⟨hbad, -⟩ | ⟨-, heq⟩
  · rcases hbad with hexpired | hnone
    · exact absurd hun.unexpired (UInt64.not_le.mpr hexpired)
    · exact absurd hun.addresses (Int32.not_lt.mpr hnone)
  rw [heq, connectAddress_eq rfl]
  dsimp only
  rw [if_pos hun.connect]
  refine ⟨rfl, rfl, fun name => ?_, _, _, rfl, rfl, rfl, rfl, rfl, ?_⟩
  · by_cases hname : name = .request
    · subst hname
      dsimp only [setEmitter]
      rw [Function.update_self, FrequentEmitter.start_eq rfl (show (10 : UInt64) ≠ 0 by decide),
        hun.trigger, if_neg (by simp)]
      dsimp only
      split
      · rename_i htimes
        rcases hun.timeout with hle | htimeout
        · have hpos : 0 < ((create data).prepared order env).connectToken.timeout :=
            (requestTimeoutMs_pos_iff _).mp htimes.1
          rw [htidy.timeout_prepared] at hpos
          exact absurd hpos (Int32.not_lt.mpr hle)
        · rw [htimeout, if_neg (by simp)]
          exact ⟨rfl, rfl⟩
      · exact ⟨rfl, rfl⟩
    · dsimp only [setEmitter]
      rw [Function.update_of_ne hname]
      exact ⟨decide_eq_false hname, rfl⟩
  · have htimeout : ((create data).prepared order env).connectToken.timeout = token.timeout :=
      htidy.timeout_prepared.trans htoken.symm
    exact congrArg secondsToNs htimeout

theorem Tidy.socketStop (h : Tidy order data c) : Tidy order data c.socketStop := by
  rw [ClientSocket.socketStop]
  split
  · exact h
  next hrunning =>
    have howns := h.active fun hstopped => by simp [hstopped] at hrunning
    exact { h with stopped := nofun, active := fun _ => howns }

theorem Tidy.socketStopDeferred (h : Tidy order data c) (hstate : c.state ≠ .stopped) :
    Tidy order data c.socketStopDeferred := by
  obtain ⟨p, hheld, hpeer⟩ := h.active hstate
  have hstop : c.socketStopDeferred = { { c with state := .stopped }.setPeerState .disconnected with
      adapter := none
      emitters := fun name => (c.emitters name).stop
      held := []
      peer := none } := by
    rw [ClientSocket.socketStopDeferred, clientStop]
    dsimp only
    rw [hpeer]
    simp [setPeerState, modifyPeer, hheld]
  have hsettings := FrequentEmitter.settings_stop (e := c.emitters .request)
  rw [hstop]
  refine ⟨h.bytes, h.token, ?_, ?_, fun name => (h.paired name).stop,
    fun name _ => FrequentEmitter.running_stop, fun _ => ⟨rfl, rfl, FrequentEmitter.running_stop⟩,
    fun hne => absurd rfl hne⟩
  · exact (congrArg (·.1) hsettings).trans_ne h.frequency
  · exact (congrArg (·.2.2) hsettings).trans h.callback

theorem Tidy.step (h : Tidy order data c) {call : ClientCall} (hearly : EarlyFailure order c call) :
    Tidy order data (c.step order call) := by
  cases call with
  | start env =>
      change Tidy order data (c.socketStart order env).1
      by_cases hstopped : c.state = .stopped
      · have hearly := hearly hstopped
        rw [h.bytes] at hearly
        have hcode := h.clientStart_snd hstopped env
        cases hacquire : env.acquirePeer with
        | false =>
            have hsame : c.clientStart order env = (c, -1) := clientStart_of_not_acquired hacquire
            rw [if_neg (by simp [hacquire])] at hcode
            rw [socketStart_of_failure hstopped (by rw [hcode]; decide), hsame]
            exact h
        | true =>
            have hun := hearly.resolve_left (by simp [hacquire])
            rw [if_pos ⟨hacquire, hun⟩] at hcode
            rw [socketStart_of_success hstopped hcode]
            exact h.started hstopped hacquire hun
      · rw [socketStart, if_pos hstopped]
        exact h
  | stop => exact h.socketStop
  | stopDeferred =>
      rw [ClientSocket.step]
      split
      next hstopping => exact h.socketStopDeferred (by rw [hstopping]; decide)
      next => exact h

theorem Tidy.leavesNothing_iff (h : Tidy order data c) (call : ClientCall) :
    LeavesNothing order c call ↔ EarlyFailure order c call := by
  constructor
  · intro hleaves
    cases call with
    | start env =>
        intro hstopped
        by_contra hlate
        obtain ⟨hacquire, hnot⟩ := not_or.mp hlate
        have hacquire : env.acquirePeer = true := by simpa using hacquire
        rw [h.bytes] at hnot
        have hfailed : (c.clientStart order env).2 ≠ 0 := by
          rw [h.clientStart_snd hstopped, if_neg fun hun => hnot hun.2]
          decide
        obtain ⟨hclear, -⟩ := hleaves env rfl hstopped hfailed
        have hlength : (c.clientStart order env).1.held.length = c.held.length + 1 :=
          length_clientStart hacquire
        have hstep : c.step order (.start env) = (c.clientStart order env).1 := by
          change (c.socketStart order env).1 = _
          rw [socketStart_of_failure hstopped hfailed]
        rw [← hstep, hclear.held] at hlength
        cases hlength
    | stop => trivial
    | stopDeferred => trivial
  · rintro hearly env rfl hstopped hfailed
    have hsame : c.step order (.start env) = c := by
      have hacquire : env.acquirePeer = false := by
        rcases hearly hstopped with hacquire | hun
        · exact hacquire
        · rw [h.bytes] at hun
          by_contra hacquire
          rw [h.clientStart_snd hstopped, if_pos ⟨by simpa using hacquire, hun⟩] at hfailed
          exact hfailed rfl
      change (c.socketStart order env).1 = _
      rw [socketStart_of_failure hstopped hfailed, clientStart_of_not_acquired hacquire]
    have hnew := tidy_create order data
    rw [hsame, h.bytes]
    refine ⟨h.clear hstopped, fun next => ?_⟩
    rw [socketStart_snd hstopped, socketStart_snd rfl, h.clientStart_snd hstopped,
      hnew.clientStart_snd rfl]

/-- Every start that fails leaves nothing behind exactly if no start fails after it acquired its
peer. -/
theorem failedStarts_iff (order : Codec.ByteOrder) (data : ℕ → UInt8) (calls : List ClientCall) :
    Along (step order) (LeavesNothing order) (create data) calls ↔
      Along (step order) (EarlyFailure order) (create data) calls := by
  have hrun : ∀ (calls : List ClientCall) (c : ClientSocket), Tidy order data c →
      (Along (step order) (LeavesNothing order) c calls ↔
        Along (step order) (EarlyFailure order) c calls) := by
    intro calls
    induction calls with
    | nil => exact fun _ _ => Iff.rfl
    | cons call calls ih =>
        intro c h
        rw [along_cons, along_cons, h.leavesNothing_iff]
        exact and_congr_right fun hearly => ih _ (h.step hearly)
  exact hrun calls _ (tidy_create order data)

/-- A connect token with one IPv4 address, with a timeout and an expiry far ahead. -/
def loneBuffer (i : ℕ) : UInt8 :=
  if i < Codec.versionInfo.length then Codec.versionInfo.getD i 0
  else if Codec.timeoutOffset + 4 < i ∧ i < Codec.timeoutOffset + 8 then 0
  else 1

/-- A start whose timeout timer fails. -/
def timeoutFailed : StartEnv where
  acquiredTimeNs := 0
  createdTimeNs := 0
  now := 0
  acquirePeer := true
  udpConnect := true
  triggerOk := true
  timeoutOk := false

/-- The peer is held, the adapter stays connected and the trigger timer stays armed. -/
theorem not_leavesNothing_timeoutFailed :
    ¬ Along (step .littleEndian) (LeavesNothing .littleEndian) (create loneBuffer)
        [.start timeoutFailed] ∧
      (((create loneBuffer).step .littleEndian (.start timeoutFailed)).held.length = 1 ∧
        ((create loneBuffer).step .littleEndian (.start timeoutFailed)).adapter =
          some (.ipv4 (.replicate 4 1) 257) ∧
        (((create loneBuffer).step .littleEndian (.start timeoutFailed)).emitters
          .request).Armed .trigger) := by
  have hheld : ((create loneBuffer).step .littleEndian (.start timeoutFailed)).held.length = 1 := by
    decide +kernel
  have hadapter : ((create loneBuffer).step .littleEndian (.start timeoutFailed)).adapter =
      some (.ipv4 (.replicate 4 1) 257) := by
    decide +kernel
  have harmed : (((create loneBuffer).step .littleEndian (.start timeoutFailed)).emitters
      .request).Armed .trigger := by
    decide +kernel
  refine ⟨?_, hheld, hadapter, harmed⟩
  rintro ⟨hleaves, -⟩
  obtain ⟨hclear, -⟩ := hleaves timeoutFailed rfl rfl (by decide +kernel)
  exact hclear.timers .request .trigger harmed

end Steps

end ClientSocket

end Protocol

end PomeloUdp
