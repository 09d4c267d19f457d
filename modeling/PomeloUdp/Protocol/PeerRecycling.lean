import PomeloUdp.Protocol.Peer

/-!
# A recycled peer against a new one

`pomelo_protocol_peer_cleanup` resets every field of a peer but the most recent
sequence number of its replay protector. A recycled peer therefore equals a new
one up to that number, and its protector accepts what a new one accepts exactly
when the number left over is at most the size of the window, that is when the
memory never accepted a sequence number above 256.
-/

namespace PomeloUdp

namespace Protocol

open Machine

namespace ReplayProtector

/-- The answers of a replay protector to sequence numbers presented in order. -/
def accepts (r : ReplayProtector) (sequences : List UInt64) : List Bool :=
  outputs protectReplay r sequences

/-- The protector of new memory. -/
def new : ReplayProtector := ⟨resetSlots, 0⟩

/-- `r` has the slots of `t` and its most recent sequence number raised to `m`. -/
structure RaisedTo (m : UInt64) (r t : ReplayProtector) : Prop where
  slots : r.receivedSequence = t.receivedSequence
  most : r.mostRecentSequence.toNat = max m.toNat t.mostRecentSequence.toNat

theorem RaisedTo.tooOld_eq {m : UInt64} (hm : m ≤ 256) {r t : ReplayProtector}
    (h : RaisedTo m r t) (sequence : UInt64) : r.tooOld sequence = t.tooOld sequence := by
  have hm : m.toNat ≤ 256 := UInt64.le_iff_toNat_le.mp hm
  rw [Bool.eq_iff_iff, tooOld_iff, tooOld_iff, h.most]
  omega

theorem RaisedTo.protectReplay {m : UInt64} (hm : m ≤ 256) {r t : ReplayProtector}
    (h : RaisedTo m r t) (sequence : UInt64) :
    RaisedTo m (r.protectReplay sequence).1 (t.protectReplay sequence).1 ∧
      (r.protectReplay sequence).2 = (t.protectReplay sequence).2 := by
  have hfree : r.slotFree sequence = t.slotFree sequence := by simp only [slotFree, h.slots]
  rw [ReplayProtector.protectReplay, ReplayProtector.protectReplay, h.tooOld_eq hm, hfree]
  split
  · exact ⟨h, rfl⟩
  · split
    · refine ⟨⟨by rw [h.slots], ?_⟩, rfl⟩
      have hmost := h.most
      simp only [UInt64.lt_iff_toNat_lt]
      split <;> split <;> omega
    · exact ⟨h, rfl⟩

theorem RaisedTo.accepts_eq {m : UInt64} (hm : m ≤ 256) {r t : ReplayProtector}
    (h : RaisedTo m r t) (sequences : List UInt64) :
    r.accepts sequences = t.accepts sequences := by
  induction sequences generalizing r t with
  | nil => rfl
  | cons sequence sequences ih =>
      obtain ⟨hnext, hanswer⟩ := h.protectReplay hm sequence
      rw [accepts, accepts, outputs_cons, outputs_cons, hanswer]
      exact congrArg _ (ih hnext)

theorem raisedTo_reset (m : UInt64) : RaisedTo m ⟨resetSlots, m⟩ new := by
  refine ⟨rfl, ?_⟩
  simp [new]

theorem accepts_reset_iff (m : UInt64) :
    (∀ sequences, (⟨resetSlots, m⟩ : ReplayProtector).accepts sequences =
      new.accepts sequences) ↔ m ≤ 256 := by
  constructor
  · intro h
    -- sequence number 0, the first one of a new connection, tells them apart
    have hzero := h [0]
    by_contra hm
    have hold : (⟨resetSlots, m⟩ : ReplayProtector).tooOld 0 = true := by
      rw [tooOld_iff]
      rw [UInt64.le_iff_toNat_le] at hm
      simpa using hm
    have hnew : new.accepts [0] = [true] := by decide
    rw [hnew, accepts, outputs_cons, protectReplay, hold] at hzero
    simp at hzero
  · intro hm sequences
    exact (raisedTo_reset m).accepts_eq hm sequences

end ReplayProtector

/-- What happens to the memory of a peer between its allocation and a release. -/
inductive PeerOp where
  /-- A packet reaches the replay protection. -/
  | receive (sequence : UInt64)
  /-- A packet is sent with the next sequence number. -/
  | send
  /-- The handlers write any of the other fields. -/
  | write (fields : Peer)
  /-- The peer is released to its pool and acquired for another connection. -/
  | recycle (info : PeerInfo) (ctx : CryptoContext)

namespace PeerOp

/-- The effect on the memory. -/
def apply (p : Peer) : PeerOp → Peer
  | receive sequence => (p.protectReplay sequence).1
  | send => p.nextSequence.1
  | write fields => { fields with replayProtector := p.replayProtector }
  | recycle info ctx => p.recycle info ctx

/-- The sequence number an operation makes the replay protector accept. -/
def accepted (p : Peer) : PeerOp → List UInt64
  | receive sequence => if (p.protectReplay sequence).2 then [sequence] else []
  | _ => []

/-- The sequence numbers accepted along a history. -/
def acceptedSequences (p : Peer) : List PeerOp → List UInt64
  | [] => []
  | op :: ops => accepted p op ++ acceptedSequences (apply p op) ops

theorem mostRecentSequence_apply_le_iff (p : Peer) (op : PeerOp) (b : UInt64) :
    (apply p op).replayProtector.mostRecentSequence ≤ b ↔
      p.replayProtector.mostRecentSequence ≤ b ∧ ∀ s ∈ accepted p op, s ≤ b := by
  cases op with
  | receive sequence =>
      simp only [apply, accepted, Peer.protectReplay, ReplayProtector.protectReplay]
      split
      · simp
      · split
        · simp only [UInt64.lt_iff_toNat_lt, UInt64.le_iff_toNat_le, if_true,
            List.mem_singleton, forall_eq]
          split <;> omega
        · simp
  | send => simp [apply, accepted, Peer.nextSequence]
  | write fields => simp [apply, accepted]
  | recycle info ctx => simp [apply, accepted, Peer.recycle, Peer.cleanup, Peer.init]

theorem mostRecentSequence_run_le_iff (p : Peer) (history : List PeerOp) (b : UInt64) :
    (run apply p history).replayProtector.mostRecentSequence ≤ b ↔
      p.replayProtector.mostRecentSequence ≤ b ∧ ∀ s ∈ acceptedSequences p history, s ≤ b := by
  induction history generalizing p with
  | nil => simp [acceptedSequences]
  | cons op history ih =>
      rw [run_cons, ih, mostRecentSequence_apply_le_iff, acceptedSequences]
      simp only [List.mem_append, or_imp, forall_and, and_assoc]

end PeerOp

/-- A peer recycled after a history starts as a new peer: its replay protector
accepts the same sequences of sequence numbers and its other fields are equal. -/
def StartsFresh (p : Peer) (info : PeerInfo) (ctx : CryptoContext) : Prop :=
  (∀ sequences, (p.recycle info ctx).replayProtector.accepts sequences =
    (Peer.fresh info ctx).replayProtector.accepts sequences) ∧
  { p.recycle info ctx with replayProtector := (Peer.fresh info ctx).replayProtector } =
    Peer.fresh info ctx

theorem recycle_replayProtector (p : Peer) (info : PeerInfo) (ctx : CryptoContext) :
    (p.recycle info ctx).replayProtector =
      ⟨ReplayProtector.resetSlots, p.replayProtector.mostRecentSequence⟩ := rfl

theorem fresh_replayProtector (info : PeerInfo) (ctx : CryptoContext) :
    (Peer.fresh info ctx).replayProtector = ReplayProtector.new := rfl

/-- Recycling starts fresh exactly when the memory never accepted a sequence
number above 256 since it was allocated. -/
theorem startsFresh_iff (info₀ : PeerInfo) (ctx₀ : CryptoContext) (history : List PeerOp)
    (info : PeerInfo) (ctx : CryptoContext) :
    StartsFresh (run PeerOp.apply (Peer.fresh info₀ ctx₀) history) info ctx ↔
      ∀ s ∈ PeerOp.acceptedSequences (Peer.fresh info₀ ctx₀) history, s ≤ 256 := by
  have hmost := PeerOp.mostRecentSequence_run_le_iff (Peer.fresh info₀ ctx₀) history 256
  rw [fresh_replayProtector] at hmost
  have hnew : ReplayProtector.new.mostRecentSequence ≤ 256 := by decide
  rw [StartsFresh, recycle_replayProtector, fresh_replayProtector,
    ReplayProtector.accepts_reset_iff, hmost]
  exact ⟨fun h => h.1.2, fun h => ⟨⟨hnew, h⟩, rfl⟩⟩

/-- After one packet with sequence number 257 the recycled peer drops the first
packet of its next connection. -/
theorem recycled_peer_drops_first_packet :
    ¬ ∀ (info₀ : PeerInfo) (ctx₀ : CryptoContext) (history : List PeerOp)
      (info : PeerInfo) (ctx : CryptoContext),
      StartsFresh (run PeerOp.apply (Peer.fresh info₀ ctx₀) history) info ctx := by
  intro h
  have hzero := (h ⟨0, 0⟩ .zero [.receive 257] ⟨0, 0⟩ .zero).1 [0]
  exact absurd hzero (by decide)

end Protocol

end PomeloUdp
