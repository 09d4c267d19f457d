import PomeloUdp.Protocol.Genuine
import PomeloUdp.Protocol.Grants

/-!
# Replayed payloads

The network may send any datagram again, from any address, at any time. While a
peer is connected its replay protector admits each sequence number once, so what
one peer receives are different packets. A released peer takes its protector
with it, and neither a connect token nor a challenge is remembered, so the
packets of a finished connection can be brought to a new peer by replaying its
handshake. `received_nodup` is the property that remains when no token key is
accepted twice and the last sequence number, which the protector uses to mark a
free slot, does not occur.
-/

namespace PomeloUdp

namespace Protocol

open Machine

theorem payload_of_processEntry {ctx : CryptoContext} {datagram : Datagram} {data : List UInt8}
    (h : processEntry ctx datagram = some (.payload data)) :
    ∃ header ad body, datagram =
      .packet header (.encrypted ctx.packetDecryptKey header.sequence ad body) ∧
        header.type = .payload := by
  have htype := type_of_processEntry h
  cases datagram with
  | request sequence body => cases htype
  | packet header sealedBody =>
      simp only [processEntry, Option.bind_eq_some_iff] at h
      obtain ⟨body, hbody, -⟩ := h
      rw [CryptoContext.decryptPacket_eq_some_iff] at hbody
      subst hbody
      exact ⟨header, _, body, rfl, htype⟩

namespace ReplayProtector

/-- The slot of an admitted number holds it or a later one. -/
def Holds (r : ReplayProtector) (sequence : UInt64) : Prop :=
  r.receivedSequence (slot sequence) ≠ 0xffffffffffffffff ∧
    sequence ≤ r.receivedSequence (slot sequence)

theorem protectReplay_accepted {r : ReplayProtector} {sequence : UInt64}
    (h : (r.protectReplay sequence).2 = true) :
    r.slotFree sequence = true ∧ (r.protectReplay sequence).1.receivedSequence =
      Function.update r.receivedSequence (slot sequence) sequence := by
  simp only [protectReplay] at h ⊢
  split at h
  · exact absurd h (by simp)
  · rename_i hold
    split at h
    · rename_i hfree
      exact ⟨hfree, by simp [hold, hfree]⟩
    · exact absurd h (by simp)

theorem Holds.not_accepted {r : ReplayProtector} {sequence : UInt64} (h : r.Holds sequence) :
    (r.protectReplay sequence).2 = false := by
  by_contra haccepted
  obtain ⟨hfree, -⟩ := protectReplay_accepted (by simpa using haccepted)
  obtain ⟨hsentinel, hle⟩ := h
  simp only [slotFree, Bool.or_eq_true, decide_eq_true_eq] at hfree
  rcases hfree with hfree | hfree
  · exact hsentinel hfree
  · exact absurd hfree (UInt64.not_lt.mpr hle)

theorem Holds.protectReplay {r : ReplayProtector} {sequence other : UInt64} (h : r.Holds other)
    (hlast : sequence ≠ 0xffffffffffffffff) (haccepted : (r.protectReplay sequence).2 = true) :
    (r.protectReplay sequence).1.Holds other := by
  obtain ⟨hfree, hslots⟩ := protectReplay_accepted haccepted
  unfold Holds
  rw [hslots]
  by_cases hslot : slot other = slot sequence
  · rw [hslot, Function.update_self]
    obtain ⟨hsentinel, hle⟩ := h
    rw [hslot] at hsentinel hle
    simp only [slotFree, Bool.or_eq_true, decide_eq_true_eq] at hfree
    exact ⟨hlast, UInt64.le_trans hle (UInt64.le_of_lt (hfree.resolve_left hsentinel))⟩
  · rw [Function.update_of_ne hslot]
    exact h

theorem holds_protectReplay {r : ReplayProtector} {sequence : UInt64}
    (hlast : sequence ≠ 0xffffffffffffffff) (haccepted : (r.protectReplay sequence).2 = true) :
    (r.protectReplay sequence).1.Holds sequence := by
  obtain ⟨-, hslots⟩ := protectReplay_accepted haccepted
  unfold Holds
  rw [hslots, Function.update_self]
  exact ⟨hlast, UInt64.le_refl _⟩

end ReplayProtector

namespace Server

/-- The datagram whose payload was passed to the application. -/
def receivedOf : Effect → Option Datagram
  | .received _ _ datagram => some datagram
  | _ => none

/-- The datagrams whose payloads were passed to the application so far. -/
def receivedDatagrams (s : Server) : List Datagram := s.log.filterMap receivedOf

/-- A datagram under replay protection with the last sequence number arrives for
a connected peer. -/
def lastNumberArrives (s : Server) (i : Input) : Bool :=
  match i.event with
  | .accept address datagram =>
      datagram.header.type.isProtected &&
        decide (datagram.header.sequence = 0xffffffffffffffff) &&
          match s.peerAddressMap address with
          | none => false
          | some p => decide ((s.peers p).state = .connected)
  | _ => false

/-- What a step must meet so that no payload is passed on twice. -/
structure ReplaySafe (s : Server) (i : Input) : Prop where
  token : ∀ x ∈ s.granting i, ∀ token ∈ s.grantedTokens,
    token.token.clientToServerKey ≠ x.2.token.clientToServerKey
  last : s.lastNumberArrives i = false

instance (s : Server) (i : Input) : Decidable (ReplaySafe s i) :=
  decidable_of_iff
    ((∀ x ∈ s.granting i, ∀ token ∈ s.grantedTokens,
      token.token.clientToServerKey ≠ x.2.token.clientToServerKey) ∧
        s.lastNumberArrives i = false)
    ⟨fun h => ⟨h.1, h.2⟩, fun h => ⟨h.token, h.last⟩⟩

/-- A datagram is sealed with the client's key of the token of a peer. -/
def SealedFor (s : Server) (p : PeerId) (datagram : Datagram) : Prop :=
  ∃ token now header ad body, .granted p token now ∈ s.log ∧
    datagram = .packet header
      (.encrypted token.token.clientToServerKey header.sequence ad body) ∧
    header.type.isProtected = true

/-- The record of validated and received datagrams agrees with the replay
protectors and the receivers in flight. -/
structure Receipts (s : Server) : Prop where
  keys : ∀ p token now p' token' now', .granted p token now ∈ s.log →
    .granted p' token' now' ∈ s.log →
      token'.token.clientToServerKey = token.token.clientToServerKey → p' = p
  window : ∀ id p datagram, .validated id p datagram ∈ s.log →
    datagram.header.type.isProtected = true →
      (s.peers p).state ≠ .request ∧ (s.peers p).state ≠ .challenge ∧
        ((s.peers p).state = .connected →
          (s.peers p).replayProtector.Holds datagram.header.sequence)
  once : ∀ id p datagram id' datagram', .validated id p datagram ∈ s.log →
    .validated id' p datagram' ∈ s.log → datagram.header.type.isProtected = true →
      datagram'.header.type.isProtected = true →
        datagram'.header.sequence = datagram.header.sequence → id' = id
  flight : ∀ id r p, s.receivers id = some r → r.peer = some p →
    .validated id p r.datagram ∈ s.log ∧
      (r.datagram.header.type.isProtected = true →
        ∃ token now, .granted p token now ∈ s.log ∧
          r.cryptoCtx.packetDecryptKey = token.token.clientToServerKey)
  received : ∀ id p datagram, .received id p datagram ∈ s.log →
    .validated id p datagram ∈ s.log ∧ s.receivers id = none ∧ SealedFor s p datagram
  distinct : s.receivedDatagrams.Nodup

section Acts

variable {s₀ s : Server} {i : Input} {a : Act}

theorem pass_protected {p : PeerId} {datagram : Datagram}
    (ha : Enabled s₀ i s (.pass p datagram)) (htype : datagram.header.type.isProtected = true)
    (hlast : s₀.lastNumberArrives i = false) :
    (s.peers p).state = .connected ∧
      ((s.peers p).replayProtector.protectReplay datagram.header.sequence).2 = true ∧
      datagram.header.sequence ≠ 0xffffffffffffffff := by
  obtain ⟨-, -, -, ⟨address, hevent, hmapped⟩, hstate⟩ := ha
  rw [if_pos htype] at hstate
  refine ⟨hstate.1, hstate.2, ?_⟩
  intro hsequence
  obtain ⟨hmap, hconnected⟩ := hmapped htype
  simp [lastNumberArrives, hevent, htype, hsequence, hmap, hconnected] at hlast

theorem receiver_of_received {id : ReceiverId} {p : PeerId} {datagram : Datagram}
    (ha : Enabled s₀ i s (.note (.received id p datagram))) :
    ∃ r data, s₀.receivers id = some r ∧ r.peer = some p ∧ r.datagram = datagram ∧
      processEntry r.cryptoCtx datagram = some (.payload data) := by
  obtain ⟨⟨data, hcompletion⟩, ⟨workerFailed, hevent⟩, -⟩ := ha
  obtain ⟨id', workerFailed', r, hevent', hreceiver, -, -, hpeer, hdatagram, hpacket⟩ :=
    completion_eq_some hcompletion
  rw [hevent] at hevent'
  obtain ⟨rfl, rfl⟩ := Event.receiverComplete.inj hevent'
  refine ⟨r, data, hreceiver, hpeer, hdatagram, ?_⟩
  split at hpacket
  · exact absurd hpacket (by simp)
  · exact hpacket.symm

@[simp] theorem mem_receivedDatagrams {datagram : Datagram} :
    datagram ∈ s.receivedDatagrams ↔ ∃ id p, .received id p datagram ∈ s.log := by
  simp only [receivedDatagrams, List.mem_filterMap]
  constructor
  · rintro ⟨effect, hmem, heq⟩
    cases effect with
    | received id p datagram' => exact ⟨id, p, Option.some.inj heq ▸ hmem⟩
    | _ => exact absurd heq (by simp [receivedOf])
  · rintro ⟨id, p, h⟩
    exact ⟨_, h, rfl⟩

theorem Receipts.fresh (hr₀ : Receipts s₀) {id : ReceiverId} {p : PeerId} {datagram : Datagram}
    (ha : Enabled s₀ i s (.note (.received id p datagram))) :
    SealedFor s₀ p datagram ∧ .validated id p datagram ∈ s₀.log ∧
      datagram ∉ s₀.receivedDatagrams := by
  obtain ⟨r, data, hreceiver, hpeer, rfl, hpacket⟩ := receiver_of_received ha
  obtain ⟨hvalidated, hkey⟩ := hr₀.flight id r p hreceiver hpeer
  obtain ⟨header, ad, body, hdatagram, htype⟩ := payload_of_processEntry hpacket
  have hprotected : header.type.isProtected = true := by rw [htype]; rfl
  have hprotected' : r.datagram.header.type.isProtected = true := by
    rw [hdatagram]
    exact hprotected
  obtain ⟨token, now, hgranted, hdecrypt⟩ := hkey hprotected'
  rw [hdecrypt] at hdatagram
  refine ⟨⟨token, now, header, ad, body, hgranted, hdatagram, hprotected⟩, hvalidated, ?_⟩
  rw [mem_receivedDatagrams]
  rintro ⟨id', p', hreceived⟩
  obtain ⟨hvalidated', hnone, token', now', header', ad', body', hgranted', hdatagram', -⟩ :=
    hr₀.received id' p' r.datagram hreceived
  rw [hdatagram] at hdatagram'
  simp only [Datagram.packet.injEq, Aead.Sealed.encrypted.injEq] at hdatagram'
  obtain rfl : p' = p := hr₀.keys p token now p' token' now' hgranted hgranted'
    hdatagram'.2.1.symm
  obtain rfl : id' = id := hr₀.once id p' r.datagram id' r.datagram hvalidated hvalidated'
    hprotected' hprotected' rfl
  rw [hreceiver] at hnone
  exact absurd hnone (by simp)

/-- Every act of a safe step keeps the receipts. -/
theorem Receipts.act (hr₀ : Receipts s₀) (hr : Receipts s) (hs : Grants s)
    (hsafe : ReplaySafe s₀ i) (ha : Enabled s₀ i s a) : Receipts (act i.env s a) := by
  have hgrantedMono : ∀ {p token now}, .granted p token now ∈ s.log →
      .granted p token now ∈ (Server.act i.env s a).log := fun h =>
    (granted_mem_act ha).mpr (.inl h)
  have hvalidatedMono : ∀ {id p datagram}, .validated id p datagram ∈ s.log →
      .validated id p datagram ∈ (Server.act i.env s a).log := fun h =>
    (validated_mem_act ha).mpr (.inl h)
  constructor
  · intro p token now p' token' now' h h' hkeys
    rcases (granted_mem_act ha).mp h with hold | ⟨rfl, rfl⟩
    · rcases (granted_mem_act ha).mp h' with hold' | ⟨rfl, rfl⟩
      · exact hr.keys p token now p' token' now' hold hold' hkeys
      · rw [ha.2.2.2] at hold
        exact absurd hkeys.symm (hsafe.token _ ha.1 token (mem_grantedTokens.mpr ⟨_, _, hold⟩))
    · rcases (granted_mem_act ha).mp h' with hold' | ⟨hsame, rfl⟩
      · rw [ha.2.2.2] at hold'
        exact absurd hkeys (hsafe.token _ ha.1 token' (mem_grantedTokens.mpr ⟨_, _, hold'⟩))
      · simp only [Act.grant.injEq] at hsame
        exact hsame.1.symm
  · intro id p datagram hmem htype
    rcases (validated_mem_act ha).mp hmem with hold | ⟨rfl, rfl⟩
    · obtain ⟨hrequest, hchallenge, hwindow⟩ := hr.window id p datagram hold htype
      cases change_of_act ha p with
      | kept _ _ state _ _ protector =>
          rw [state, protector]
          exact ⟨hrequest, hchallenge, hwindow⟩
      | pass other hother value =>
          obtain ⟨hstate, haccepted, hlast⟩ := pass_protected ha hother hsafe.last
          rw [value]
          exact ⟨hrequest, hchallenge, fun _ => (hwindow hstate).protectReplay hlast haccepted⟩
      | own _ _ state _ _ protector =>
          rw [state, protector]
          exact ⟨hrequest, hchallenge, hwindow⟩
      | acquire _ name =>
          subst name
          exact absurd (by simp [effectNames]) (ha.2.2.2.1 _ hold)
      | grant _ before => exact absurd before hrequest
      | moved _ _ state _ _ protector =>
          rw [protector]
          rcases state with ⟨before, -⟩ | ⟨before, -⟩ | ⟨-, state⟩
          · exact absurd before hrequest
          · exact absurd before hchallenge
          · rw [state]
            exact ⟨by decide, by decide, fun h => absurd h (by decide)⟩
      | released _ state =>
          rw [state]
          exact ⟨by decide, by decide, fun h => absurd h (by decide)⟩
    · obtain ⟨hstate, haccepted, hlast⟩ := pass_protected ha htype hsafe.last
      cases change_of_act ha p with
      | kept _ other => exact absurd (by simp [Act.writes, htype]) other
      | pass _ _ value =>
          rw [value]
          refine ⟨?_, ?_, fun _ => ReplayProtector.holds_protectReplay hlast haccepted⟩ <;>
          · simp only [Peer.protectReplay, hstate]
            decide
      | moved _ move => exact absurd move (by simp)
      | released _ state =>
          rw [state]
          exact ⟨by decide, by decide, fun h => absurd h (by decide)⟩
  · have hnew : ∀ {id p datagram datagram'}, .validated id p datagram ∈ s.log →
        a = .pass p datagram' → datagram.header.type.isProtected = true →
          datagram'.header.type.isProtected = true →
            datagram'.header.sequence ≠ datagram.header.sequence := by
      rintro id p datagram datagram' hold rfl htype htype' hsequence
      obtain ⟨hstate, haccepted, -⟩ := pass_protected ha htype' hsafe.last
      have hholds := (hr.window id p datagram hold htype).2.2 hstate
      rw [hsequence, hholds.not_accepted] at haccepted
      exact absurd haccepted (by simp)
    intro id p datagram id' datagram' h h' htype htype' hsequence
    rcases (validated_mem_act ha).mp h with hold | ⟨rfl, rfl⟩
    · rcases (validated_mem_act ha).mp h' with hold' | ⟨hpass, rfl⟩
      · exact hr.once id p datagram id' datagram' hold hold' htype htype' hsequence
      · exact absurd hsequence (hnew hold hpass htype htype')
    · rcases (validated_mem_act ha).mp h' with hold' | ⟨-, rfl⟩
      · exact absurd hsequence.symm (hnew hold' rfl htype' htype)
      · rfl
  · intro id r p hreceiver hpeer
    rcases receivers_of_act i.env s a id r hreceiver with ⟨-, hkept⟩ | ⟨q, datagram, rfl, rfl, rfl⟩
    · obtain ⟨hvalidated, hkey⟩ := hr.flight id r p (hkept (by simp [hpeer])) hpeer
      refine ⟨hvalidatedMono hvalidated, fun htype => ?_⟩
      obtain ⟨token, now, hgranted, hdecrypt⟩ := hkey htype
      exact ⟨token, now, hgrantedMono hgranted, hdecrypt⟩
    · obtain rfl := Option.some.inj hpeer
      obtain ⟨hvalidated, -, -, hconnected, -⟩ := ha
      refine ⟨hvalidatedMono hvalidated, fun htype => ?_⟩
      have hadmitted : Admitted (s.peers q).state := by
        rw [hconnected htype]
        trivial
      obtain ⟨token, now, ctx, hgranted, hctx, hdecrypt, -⟩ := hs.keyed q hadmitted
      refine ⟨token, now, hgrantedMono hgranted, ?_⟩
      simp [newReceiver, cryptoCtx, hctx, hdecrypt]
  · intro id p datagram hmem
    have hfor : ∀ {t : Server}, (∀ token now, .granted p token now ∈ t.log →
        .granted p token now ∈ (Server.act i.env s a).log) → SealedFor t p datagram →
          SealedFor (Server.act i.env s a) p datagram := by
      rintro t hmono ⟨token, now, header, ad, body, hgranted, hdatagram, htype⟩
      exact ⟨token, now, header, ad, body, hmono _ _ hgranted, hdatagram, htype⟩
    rcases (received_mem_act ha).mp hmem with hold | rfl
    · obtain ⟨hvalidated, hnone, hsealed⟩ := hr.received id p datagram hold
      refine ⟨hvalidatedMono hvalidated, ?_, hfor (fun _ _ => hgrantedMono) hsealed⟩
      rw [Option.eq_none_iff_forall_not_mem]
      intro r hreceiver
      rcases receivers_of_act i.env s a id r hreceiver with ⟨⟨r', hr'⟩, -⟩ | ⟨q, other, rfl, rfl, -⟩
      · rw [hnone] at hr'
        exact absurd hr' (by simp)
      · exact ha.2.2.1 p datagram hold
    · obtain ⟨hsealed, hvalidated, -⟩ := hr₀.fresh ha
      obtain ⟨-, -, hnone, hlog, -, -⟩ := ha
      refine ⟨hvalidatedMono (by rw [hlog]; exact hvalidated), hnone, hfor ?_ hsealed⟩
      intro token now hgranted
      exact hgrantedMono (by rw [hlog]; exact hgranted)
  · refine nodup_filterMap_act _ hr.distinct ?_
    intro effect hmem datagram hreceived
    cases effectOf_of_mem ha hmem with
    | received id p other =>
        obtain rfl : other = datagram := Option.some.inj hreceived
        have hlog : s.log = s₀.log := ha.2.2.2.1
        rw [hlog]
        exact (hr₀.fresh ha).2.2
    | _ => exact absurd hreceived (by simp [receivedOf])

end Acts

theorem Receipts.ticked {s : Server} (hr : Receipts s) : Receipts s.ticked :=
  ⟨hr.keys, hr.window, hr.once, hr.flight, hr.received, hr.distinct⟩

theorem receipts_step {s : Server} {i : Input} (h : Sound s) (hr : Receipts s)
    (hsafe : ReplaySafe s i) : Receipts (step s i) := by
  have hall := invariant_step (I := fun t => Receipts t ∧ Grants t) h.table h.named i
    ⟨hr.ticked, h.grants.ticked⟩ ?_
  · exact hall.1
  · rintro t a - - ⟨ht, hgrants⟩ ha
    exact ⟨hr.ticked.act ht hgrants ⟨hsafe.token, hsafe.last⟩ ha, hgrants.act ha⟩

theorem receipts_start (o : ServerOptions) : Receipts (start o) := by
  constructor <;> simp [start, receivedDatagrams]

/-- In every run whose steps are safe, each datagram is passed to the application
at most once. -/
theorem received_nodup (o : ServerOptions) (is : List Input)
    (h : Along step ReplaySafe (start o) is) : (run step (start o) is).receivedDatagrams.Nodup := by
  have hall := invariant_run (I := fun s => Sound s ∧ Receipts s)
    (fun s i ⟨hsound, hreceipts⟩ hsafe =>
      ⟨hsound.step i, receipts_step hsound hreceipts hsafe⟩)
    ⟨sound_start o, receipts_start o⟩ h
  exact hall.2.distinct

/-- A connection with one payload, then the disconnect of the client. -/
def oneConnection : List Input :=
  let token := sampleToken 1 11 12
  [arrive (sampleAddress 1) (clientRequest 1 0 token), complete 1,
    arrive (sampleAddress 1) (clientResponse 2 token 0 0), complete 3,
    arrive (sampleAddress 1) (clientPacket token ⟨.payload, 1⟩ (.payload [42])), complete 5,
    arrive (sampleAddress 1) (clientPacket token ⟨.disconnect, 2⟩ .disconnect), complete 7]

theorem received_nodup_oneConnection :
    Along step ReplaySafe (start (sampleOptions 1)) oneConnection ∧
      (run step (start (sampleOptions 1)) oneConnection).receivedDatagrams.Nodup := by
  have hsafe : Along step ReplaySafe (start (sampleOptions 1)) oneConnection := by
    decide +kernel
  exact ⟨hsafe, received_nodup _ _ hsafe⟩

/-- The datagrams of the connection are sent again from another address. -/
def sentAgain : List Input :=
  let token := sampleToken 1 11 12
  [arrive (sampleAddress 2) (clientRequest 1 0 token), complete 9,
    arrive (sampleAddress 2) (clientResponse 2 token 0 0), complete 11,
    arrive (sampleAddress 2) (clientPacket token ⟨.payload, 1⟩ (.payload [42])), complete 13]

theorem payload_received_twice :
    ¬ ∀ (o : ServerOptions) (is : List Input),
      (run step (start o) is).receivedDatagrams.Nodup := by
  intro h
  have hrun := h (sampleOptions 1) (oneConnection ++ sentAgain)
  revert hrun
  decide +kernel

end Server

end Protocol

end PomeloUdp
