import Mathlib.Algebra.Order.Group.Nat
import PomeloUdp.Library.Run
import PomeloUdp.Protocol.Packet

/-!
# Peers

`Peer` is `pomelo_protocol_peer_t`; a pointer is an optional name. Names are
taken from the number of the step that makes the object, so a name denotes one
object for a whole run: a peer that is released and acquired again gets another
name. The lists of senders and receivers hold the names of the packets in
flight, and the entry of a peer is the list node that holds it. The memory of a
peer comes from a pool: `onAlloc` runs when it is allocated, `init`
when it is acquired and `cleanup` when it is released. The replay protector is
written by `protectReplay` only, apart from these three.
-/

namespace PomeloUdp

namespace Protocol

/-- `pomelo_protocol_peer_state`. -/
inductive PeerState where
  | disconnecting
  | connectTokenExpire
  | invalidConnectToken
  | timedOut
  | responseTimedOut
  | requestTimedOut
  | denied
  | disconnected
  | request
  | response
  | challenge
  | connected
  deriving DecidableEq, Repr

/-- The name of a peer between its acquisition and its release. -/
abbrev PeerId := ℕ

/-- The name of a receiver in flight. -/
abbrev ReceiverId := ℕ

/-- The name of a sender in flight: one step may make one for each peer and
type. -/
structure SenderId where
  tick : ℕ
  peer : PeerId
  type : PacketType
  deriving DecidableEq

/-- A node of one of the peer lists. -/
structure PeerEntry where
  tick : ℕ
  peer : PeerId
  deriving DecidableEq

/-- `pomelo_protocol_replay_protector_t`. -/
structure ReplayProtector where
  receivedSequence : Fin 256 → UInt64
  mostRecentSequence : UInt64

namespace ReplayProtector

/-- `POMELO_REPLAY_PROTECTED_BUFFER_SIZE`. -/
def bufferSize : UInt64 := 256

/-- The slot of a sequence number. -/
def slot (sequence : UInt64) : Fin 256 := Fin.ofNat 256 sequence.toNat

/-- The slots filled with `0xff` bytes. -/
def resetSlots : Fin 256 → UInt64 := fun _ => 0xffffffffffffffff

/-- The window check of `pomelo_protocol_peer_protect_replay`. -/
def tooOld (r : ReplayProtector) (sequence : UInt64) : Bool :=
  decide (sequence < r.mostRecentSequence) &&
    decide (bufferSize < r.mostRecentSequence - sequence)

/-- The slot check of `pomelo_protocol_peer_protect_replay`. -/
def slotFree (r : ReplayProtector) (sequence : UInt64) : Bool :=
  decide (r.receivedSequence (slot sequence) = 0xffffffffffffffff) ||
    decide (r.receivedSequence (slot sequence) < sequence)

theorem tooOld_iff (r : ReplayProtector) (sequence : UInt64) :
    r.tooOld sequence = true ↔ sequence.toNat + 256 < r.mostRecentSequence.toNat := by
  simp only [tooOld, bufferSize, Bool.and_eq_true, decide_eq_true_eq, UInt64.lt_iff_toNat_lt]
  constructor
  · rintro ⟨hlt, hdelta⟩
    rw [UInt64.toNat_sub_of_le _ _ (UInt64.le_iff_toNat_le.mpr hlt.le)] at hdelta
    simp at hdelta
    omega
  · intro h
    have hlt : sequence.toNat < r.mostRecentSequence.toNat := by omega
    refine ⟨hlt, ?_⟩
    rw [UInt64.toNat_sub_of_le _ _ (UInt64.le_iff_toNat_le.mpr hlt.le)]
    simp
    omega

/-- `pomelo_protocol_peer_protect_replay`: the protector afterwards, and whether
the sequence number passes. -/
def protectReplay (r : ReplayProtector) (sequence : UInt64) : ReplayProtector × Bool :=
  if r.tooOld sequence then (r, false)
  else if r.slotFree sequence then
    ({ receivedSequence := Function.update r.receivedSequence (slot sequence) sequence
       mostRecentSequence :=
        if r.mostRecentSequence < sequence then sequence else r.mostRecentSequence }, true)
  else (r, false)

end ReplayProtector

/-- The flags of a peer. -/
structure PeerFlags where
  confirmed : Bool
  processingResponse : Bool
  deriving DecidableEq

/-- `pomelo_protocol_peer_t`. -/
structure Peer where
  extra : Option ℕ
  clientId : Int64
  address : Option Address
  socket : Option ℕ
  state : PeerState
  lastRecvTime : UInt64
  lastRecvTimeKeepAlive : UInt64
  timeoutNs : UInt64
  sequenceNumber : UInt64
  replayProtector : ReplayProtector
  cryptoCtx : Option CryptoContext
  createdTimeNs : UInt64
  senders : List SenderId
  receivers : List ReceiverId
  entry : Option PeerEntry
  flags : PeerFlags
  remainRedundantDisconnect : ℤ
  userData : UserData

/-- `pomelo_protocol_peer_info_t`. -/
structure PeerInfo where
  socket : ℕ
  createdTimeNs : UInt64

namespace Peer

/-- Memory of a peer as the pool allocates it, filled with zero bytes. -/
def zero : Peer where
  extra := none
  clientId := 0
  address := none
  socket := none
  state := .disconnected
  lastRecvTime := 0
  lastRecvTimeKeepAlive := 0
  timeoutNs := 0
  sequenceNumber := 0
  replayProtector := ⟨fun _ => 0, 0⟩
  cryptoCtx := none
  createdTimeNs := 0
  senders := []
  receivers := []
  entry := none
  flags := ⟨false, false⟩
  remainRedundantDisconnect := 0
  userData := 0

/-- `pomelo_protocol_peer_on_alloc`. -/
def onAlloc (p : Peer) : Peer :=
  { p with
    replayProtector := { p.replayProtector with receivedSequence := ReplayProtector.resetSlots }
    senders := []
    receivers := [] }

/-- `pomelo_protocol_peer_init`, with the crypto context it acquires. -/
def init (p : Peer) (info : PeerInfo) (ctx : CryptoContext) : Peer :=
  { p with
    socket := some info.socket
    createdTimeNs := info.createdTimeNs
    cryptoCtx := some ctx }

/-- `pomelo_protocol_peer_cleanup`. Of the replay protector only the slots are
reset. -/
def cleanup (p : Peer) : Peer :=
  { p with
    extra := none
    clientId := 0
    address := none
    socket := none
    state := .disconnected
    lastRecvTime := 0
    lastRecvTimeKeepAlive := 0
    timeoutNs := 0
    sequenceNumber := 0
    replayProtector := { p.replayProtector with receivedSequence := ReplayProtector.resetSlots }
    cryptoCtx := none
    createdTimeNs := 0
    senders := []
    receivers := []
    entry := none
    flags := ⟨false, false⟩
    remainRedundantDisconnect := 0
    userData := 0 }

/-- A peer acquired from newly allocated memory. -/
def fresh (info : PeerInfo) (ctx : CryptoContext) : Peer := (zero.onAlloc).init info ctx

/-- A peer released to its pool and acquired again. -/
def recycle (p : Peer) (info : PeerInfo) (ctx : CryptoContext) : Peer :=
  p.cleanup.init info ctx

/-- `pomelo_protocol_peer_next_sequence`. -/
def nextSequence (p : Peer) : Peer × UInt64 :=
  ({ p with sequenceNumber := p.sequenceNumber + 1 }, p.sequenceNumber)

/-- `pomelo_protocol_peer_protect_replay`. -/
def protectReplay (p : Peer) (sequence : UInt64) : Peer × Bool :=
  let r := p.replayProtector.protectReplay sequence
  ({ p with replayProtector := r.1 }, r.2)

end Peer

end Protocol

end PomeloUdp
