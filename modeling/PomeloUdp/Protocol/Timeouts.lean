import Mathlib.Algebra.Group.Int.Defs
import PomeloUdp.Protocol.RecordedTimes
import PomeloUdp.Protocol.TokenExpiry

/-!
# The arithmetic of timeouts

A token has its timeout in seconds, signed; a peer has it in nanoseconds, unsigned. `Checked` says
what a comparison with the time that has passed since a recorded time should come to. No recorded
time lies ahead of the clock (`Clocked`), and an admitted peer has the timeout of the token on
which it was accepted (`TimeoutsGranted`), so every check of a run is one (`timely_runs`).
-/

namespace PomeloUdp

namespace Protocol

open Machine

/-- Three hundred years of 366 days, in nanoseconds. -/
def threeHundredYears : ℕ := 300 * 366 * 24 * 3600 * 10 ^ 9

theorem toNat_toUInt64 (timeout : Int32) :
    (timeout.toInt64.toUInt64.toNat : ℤ) = timeout.toInt % 2 ^ 64 := by
  have hint : timeout.toInt64.toBitVec.toInt = timeout.toInt := timeout.toInt_toInt64
  rw [BitVec.toInt_eq_toNat_cond] at hint
  have hlt := timeout.toInt64.toBitVec.isLt
  change (timeout.toInt64.toBitVec.toNat : ℤ) = _
  split at hint <;> omega

theorem toNat_secondsToNs (timeout : Int32) :
    ((secondsToNs timeout).toNat : ℤ) = timeout.toInt * 10 ^ 9 % 2 ^ 64 := by
  have hint := toNat_toUInt64 timeout
  have hbillion : (1000000000 : UInt64).toNat = 1000000000 := rfl
  rw [secondsToNs, UInt64.toNat_mul, hbillion]
  omega

theorem toNat_secondsToNs_of_nonneg {timeout : Int32} (h : 0 ≤ timeout) :
    (secondsToNs timeout).toNat = timeout.toInt.toNat * 10 ^ 9 := by
  have hns := toNat_secondsToNs timeout
  have hnonneg : 0 ≤ timeout.toInt := Int32.le_iff_toInt_le.mp h
  have hlt := timeout.toInt_lt
  omega

theorem lt_toNat_secondsToNs_of_neg {timeout : Int32} (h : timeout < 0) :
    threeHundredYears < (secondsToNs timeout).toNat := by
  have hns := toNat_secondsToNs timeout
  have hneg : timeout.toInt < 0 := Int32.lt_iff_toInt_lt.mp h
  have hle := timeout.le_toInt
  have hmod : timeout.toInt * 10 ^ 9 % 2 ^ 64 = timeout.toInt * 10 ^ 9 + 2 ^ 64 := by
    rw [← Int.add_emod_right]
    exact Int.emod_eq_of_lt (by omega) (by omega)
  rw [threeHundredYears]
  omega

/-- A check of a timeout at the time `now`, which finds the peer expired or not. -/
structure Checked (timeout : Int32) (recorded now : UInt64) (expired : Prop) : Prop where
  recorded_le : recorded ≤ now
  elapsed : (now - recorded).toNat = now.toNat - recorded.toNat
  expired_iff : 0 ≤ timeout →
    (expired ↔ timeout.toInt.toNat * 10 ^ 9 < now.toNat - recorded.toNat)
  not_expired : timeout < 0 → now.toNat - recorded.toNat ≤ threeHundredYears → ¬ expired

theorem checked_of_iff {timeout : Int32} {recorded now : UInt64} {expired : Prop}
    (hle : recorded ≤ now) (h : expired ↔ secondsToNs timeout < now - recorded) :
    Checked timeout recorded now expired := by
  have helapsed := UInt64.toNat_sub_of_le now recorded hle
  refine ⟨hle, helapsed, ?_, ?_⟩
  · intro htimeout
    rw [h, UInt64.lt_iff_toNat_lt, helapsed, toNat_secondsToNs_of_nonneg htimeout]
  · intro htimeout hyears
    rw [h, UInt64.lt_iff_toNat_lt, helapsed, Nat.not_lt]
    exact hyears.trans (lt_toNat_secondsToNs_of_neg htimeout).le

namespace Server

section Timeouts

variable {s₀ s : Server} {i : Input} {a : Act}

/-- An admitted peer has the timeout of the token on which it was accepted. -/
def TimeoutsGranted (s : Server) : Prop :=
  ∀ p, Admitted (s.peers p).state → ∃ token now, .granted p token now ∈ s.log ∧
    (s.peers p).timeoutNs = secondsToNs token.token.timeout

theorem timeoutNs_modifyPeer {p : PeerId} {f : Peer → Peer}
    (hf : (f (s.peers p)).timeoutNs = (s.peers p).timeoutNs) (q : PeerId) :
    ((s.modifyPeer p f).peers q).timeoutNs = (s.peers q).timeoutNs := by
  rw [modifyPeer_peers]
  split
  · subst q
    exact hf
  · rfl

theorem timeoutNs_pushBack (s : Server) (name : PeerListName) (p q : PeerId) :
    ((s.pushBack name p).peers q).timeoutNs = (s.peers q).timeoutNs := by
  rw [pushBack_peers]
  split
  · subst q
    rfl
  · rfl

theorem timeoutNs_move (s : Server) (name name' : PeerListName) (p q : PeerId) :
    (((s.unlink name p).pushBack name' p).peers q).timeoutNs = (s.peers q).timeoutNs := by
  rw [timeoutNs_pushBack, unlink_peers]

theorem timeoutNs_dispatch (env : Env) (s : Server) (p q : PeerId) (source : SequenceSource)
    (header : Header) (body : PacketBody) :
    ((dispatch env s p source header body).peers q).timeoutNs = (s.peers q).timeoutNs := by
  obtain ⟨senders, hpeers⟩ := dispatch_peers env s p q source header body
  rw [hpeers]

/-- Accepting a request writes the timeout of the peer, and a peer that is acquired or released
is not admitted. -/
theorem timeoutNs_of_act (ha : Enabled s₀ i s a) (q : PeerId) :
    ((act i.env s a).peers q).timeoutNs = (s.peers q).timeoutNs ∨
      (∃ token, a = .grant q token ∧
        ((act i.env s a).peers q).timeoutNs = secondsToNs token.token.timeout) ∨
      ¬ Admitted ((act i.env s a).peers q).state := by
  cases a with
  | pass p datagram =>
      left
      simp only [act, note]
      split
      · rw [timeoutNs_modifyPeer]
        rfl
      · rfl
  | acquire a =>
      simp only [act, modifyPeer_peers, pushBack_peers]
      split
      · exact .inr (.inr id)
      next hq =>
        left
        simp [acquirePeer, hq]
  | discard a =>
      simp only [act, releasePeer_peers]
      split
      · exact .inr (.inr id)
      next hq =>
        left
        simp [acquirePeer, hq]
  | submit p datagram =>
      left
      simp only [act, submitReceiver]
      rw [timeoutNs_modifyPeer]
      · rfl
      · rfl
  | take id => exact .inl rfl
  | drop id => exact .inl rfl
  | soft p f =>
      have hsoft : Soft f (s.peers p) := ha
      exact .inl (timeoutNs_modifyPeer hsoft.timeoutNs q)
  | grant p token =>
      simp only [act, note]
      rw [timeoutNs_move]
      by_cases hq : q = p
      · subst hq
        refine .inr (.inl ⟨token, rfl, ?_⟩)
        rw [modifyPeer_peers, if_pos rfl]
        rfl
      · left
        rw [modifyPeer_peers, if_neg hq]
  | challenge p token =>
      left
      simp only [act, sendChallenge]
      split
      · exact timeoutNs_dispatch _ _ _ _ _ _ _
      · rfl
  | deny p => exact .inl (timeoutNs_move _ _ _ _ _)
  | denied p =>
      left
      simp only [act, sendDenied]
      split
      · exact timeoutNs_dispatch _ _ _ _ _ _ _
      · rfl
  | connect p =>
      left
      simp only [act]
      rw [timeoutNs_modifyPeer, timeoutNs_move]
      rfl
  | own p type body =>
      left
      obtain ⟨senders, hpeers⟩ := sendOwn_peers i.env s p q type body
      rw [act, hpeers]
      change ((s.modifyPeer p fun peer => peer.nextSequence.1).peers q).timeoutNs = _
      rw [timeoutNs_modifyPeer]
      rfl
  | park p =>
      left
      simp only [act]
      rw [timeoutNs_modifyPeer, timeoutNs_move]
      rfl
  | release p name =>
      simp only [act, releasePeer_peers, unlink_peers]
      split
      · exact .inr (.inr id)
      · exact .inl rfl
  | note effect => exact .inl rfl
  | stopping => exact .inl rfl
  | stopped =>
      simp only [act]
      rcases stopDeferred_peers s q with ⟨peer, hq⟩ | ⟨hq, -⟩
      · rw [hq]
        exact .inr (.inr id)
      · rw [hq]
        exact .inl rfl

theorem admitted_before_act (ha : Enabled s₀ i s a) {q : PeerId}
    (hgrant : ∀ token, a ≠ .grant q token)
    (h : Admitted ((act i.env s a).peers q).state) : Admitted (s.peers q).state := by
  cases change_of_act ha q with
  | kept _ _ state => exact state ▸ h
  | pass datagram _ value =>
      rw [value] at h
      exact h
  | own _ _ state => exact state ▸ h
  | acquire _ _ state =>
      rw [state] at h
      exact absurd h id
  | grant token => exact absurd rfl (hgrant token)
  | moved _ _ state =>
      rcases state with ⟨-, state⟩ | ⟨state, -⟩ | ⟨state, -⟩
      · rw [state] at h
        exact absurd h id
      · rw [state]
        trivial
      · rw [state]
        trivial
  | released _ state =>
      rw [state] at h
      exact absurd h id

theorem TimeoutsGranted.act (hs : TimeoutsGranted s) (ha : Enabled s₀ i s a) :
    TimeoutsGranted (act i.env s a) := by
  intro q hq
  by_cases hgrant : ∃ token, a = .grant q token
  · obtain ⟨token, rfl⟩ := hgrant
    refine ⟨token, i.env.now, (granted_mem_act ha).mpr (.inr ⟨rfl, rfl⟩), ?_⟩
    simp only [Server.act, note]
    rw [timeoutNs_move, modifyPeer_peers, if_pos rfl]
    rfl
  · have hnot : ∀ token, a ≠ .grant q token := fun token h => hgrant ⟨token, h⟩
    obtain ⟨token, now, hgranted, htimeout⟩ := hs q (admitted_before_act ha hnot hq)
    refine ⟨token, now, (granted_mem_act ha).mpr (.inl hgranted), ?_⟩
    rcases timeoutNs_of_act ha q with hkept | ⟨token', hgrant', -⟩ | hstate
    · exact hkept.trans htimeout
    · exact absurd hgrant' (hnot token')
    · exact absurd hq hstate

theorem timeoutsGranted_step (h : Table s) (hn : Named s) (hs : TimeoutsGranted s) (i : Input) :
    TimeoutsGranted (step s i) :=
  invariant_step h hn i hs fun _ _ _ _ ht ha => ht.act ha

end Timeouts

section Checks

variable {s : Server} {i : Input}

/-- The body of a loop that looks at the entries of a list, and removes the entry of a peer which
has `expired`. -/
structure Looks (name : PeerListName) (expired : Peer → Prop)
    (body : Server → PeerEntry → Server) : Prop where
  table : ∀ t x, Table t → x ∈ t.lists name → Table (body t x)
  frame : ∀ t x q, q ≠ x.peer → (body t x).peers q = t.peers q
  mem_iff : ∀ t x, Table t → x ∈ t.lists name → ∀ y,
    y ∈ (body t x).lists name ↔ y ∈ t.lists name ∧ (y.peer = x.peer → ¬ expired (t.peers x.peer))

theorem Looks.mem_foldl_iff {name : PeerListName} {expired : Peer → Prop}
    {body : Server → PeerEntry → Server} (hbody : Looks name expired body)
    {entries : List PeerEntry} (h : Table s) (hnodup : entries.Nodup)
    (hentries : ∀ x ∈ entries, x ∈ s.lists name) (y : PeerEntry) :
    y ∈ (entries.foldl body s).lists name ↔
      y ∈ s.lists name ∧ (y ∈ entries → ¬ expired (s.peers y.peer)) := by
  induction entries generalizing s with
  | nil => simp
  | cons x entries ih =>
      obtain ⟨hnotin, hnodup⟩ := List.nodup_cons.mp hnodup
      have hx := hentries x (List.mem_cons_self ..)
      have hother : ∀ z ∈ entries, z.peer ≠ x.peer := by
        intro z hz heq
        exact hnotin (h.entry_unique (hentries z (List.mem_cons_of_mem _ hz)) hx heq ▸ hz)
      have hrest : ∀ z ∈ entries, z ∈ (body s x).lists name := by
        intro z hz
        rw [hbody.mem_iff s x h hx]
        exact ⟨hentries z (List.mem_cons_of_mem _ hz), fun heq => absurd heq (hother z hz)⟩
      rw [List.foldl_cons, ih (hbody.table s x h hx) hnodup hrest, hbody.mem_iff s x h hx,
        and_assoc]
      refine and_congr_right fun hy => ?_
      rw [List.mem_cons]
      constructor
      · rintro ⟨hfirst, hlater⟩ (rfl | hmem)
        · exact hfirst rfl
        · rw [← hbody.frame s x y.peer (hother y hmem)]
          exact hlater hmem
      · intro hlook
        refine ⟨?_, ?_⟩
        · intro heq
          rw [← heq]
          exact hlook (.inl (h.entry_unique hy hx heq))
        · intro hmem
          rw [hbody.frame s x y.peer (hother y hmem)]
          exact hlook (.inr hmem)

theorem Looks.notMem_iff {name : PeerListName} {expired : Peer → Prop}
    {body : Server → PeerEntry → Server} (hbody : Looks name expired body) (h : Table s)
    {x : PeerEntry} (hx : x ∈ s.lists name) :
    x ∉ ((s.lists name).foldl body s).lists name ↔ expired (s.peers x.peer) := by
  rw [hbody.mem_foldl_iff h (h.nodup name) (fun _ => id)]
  simp [hx]

theorem mem_released_iff {name : PeerListName} {t : Server} {x : PeerEntry} {expired : Prop}
    (h : Table t) (hx : x ∈ t.lists name) (hexpired : expired) (y : PeerEntry) :
    y ∈ ((t.removeEntry name x).releasePeer x.peer).lists name ↔
      y ∈ t.lists name ∧ (y.peer = x.peer → ¬ expired) := by
  rw [releasePeer_lists]
  refine ((h.unlisted_removeEntry hx).mem_iff name y).trans (and_congr_right fun _ => ?_)
  exact ⟨fun hne heq => absurd heq hne, fun hkept heq => hkept heq hexpired⟩

theorem looks_keepAliveEntry (env : Env) :
    Looks .connected (fun peer => peer.timeoutNs < env.hrtime - peer.lastRecvTime)
      (keepAliveEntry env) := by
  constructor
  · intro t x h hx
    unfold keepAliveEntry
    dsimp only
    split
    · exact h.of_same (sameTable_sendOwn env t x.peer _ _)
    · have hacts : Acts t ⟨env, .keepAliveTick⟩ t _ := acts_lose h hx
      exact hacts.table h
  · intro t x q hq
    unfold keepAliveEntry
    dsimp only
    split
    · exact sendOwn_peers_ne env t .keepAlive _ hq
    · rw [releasePeer_peers_ne _ hq]
      simp [removeEntry, note, modifyPeer, hq]
  · intro t x h hx y
    unfold keepAliveEntry
    dsimp only
    split
    next htime =>
      rw [sendKeepAlive, (sameTable_sendOwn env t x.peer _ _).lists]
      exact (and_iff_left fun _ => UInt64.not_lt.mpr htime).symm
    next htime =>
      refine Iff.trans ?_ (mem_released_iff h hx (UInt64.not_le.mp htime) y)
      rw [releasePeer_lists, releasePeer_lists]
      rfl

theorem looks_scanEntry (env : Env) :
    Looks .challenging (fun peer => peer.timeoutNs < env.hrtime - peer.createdTimeNs)
      (scanEntry env) := by
  constructor
  · intro t x h hx
    unfold scanEntry
    dsimp only
    split
    · rw [← unlink_eq .challenging (h.member_entry .challenging x hx)]
      have hacts : Acts t ⟨env, .scanTick⟩ t _ :=
        acts_release .challenging (h.member_state .challenging x hx)
      exact hacts.table h
    · exact h
  · intro t x q hq
    unfold scanEntry
    dsimp only
    split
    · exact releasePeer_peers_ne _ hq
    · rfl
  · intro t x h hx y
    unfold scanEntry
    dsimp only
    split
    next htime => exact mem_released_iff h hx htime y
    next htime => exact (and_iff_left fun _ => htime).symm

/-- The checks of a step: each peer of the list leaves it or stays, by the timeout of the token on
which it was accepted and the time recorded for it. -/
def ChecksTimely (s : Server) (i : Input) : Prop :=
  match i.event with
  | .keepAliveTick => ∀ x ∈ s.lists .connected,
      ∃ token now, .granted x.peer token now ∈ s.log ∧
        Checked token.token.timeout (s.peers x.peer).lastRecvTime i.env.hrtime
          (x ∉ (step s i).lists .connected)
  | .scanTick => ∀ x ∈ s.lists .challenging,
      ∃ token now, .granted x.peer token now ∈ s.log ∧
        Checked token.token.timeout (s.peers x.peer).createdTimeNs i.env.hrtime
          (x ∉ (step s i).lists .challenging)
  | _ => True

theorem timely_step {now : UInt64} (h : Table s) (hs : TimeoutsGranted s) (hclock : Clocked now s)
    (hle : now ≤ i.env.hrtime) : ChecksTimely s i := by
  unfold ChecksTimely
  have hstep : step s i = handle i.env s.ticked i.event := rfl
  rw [hstep]
  split
  next hevent =>
    intro x hx
    have hstate := h.member_state .connected x hx
    obtain ⟨token, granted, hgranted, htimeout⟩ := hs x.peer (hstate ▸ trivial)
    refine ⟨token, granted, hgranted, ?_⟩
    refine checked_of_iff (UInt64.le_trans (hclock.last x.peer) hle) ?_
    rw [hevent, ← htimeout]
    exact (looks_keepAliveEntry i.env).notMem_iff h.ticked hx
  next hevent =>
    intro x hx
    have hstate := h.member_state .challenging x hx
    obtain ⟨token, granted, hgranted, htimeout⟩ := hs x.peer (hstate ▸ trivial)
    refine ⟨token, granted, hgranted, ?_⟩
    refine checked_of_iff (UInt64.le_trans (hclock.created x.peer) hle) ?_
    rw [hevent, ← htimeout]
    exact (looks_scanEntry i.env).notMem_iff h.ticked hx
  next => trivial

theorem timeoutsGranted_start (o : ServerOptions) : TimeoutsGranted (start o) :=
  fun _ h => absurd h id

/-- A run under a clock that does not go back. -/
theorem timely_run {now : UInt64} (h : Sound s) (hs : TimeoutsGranted s) (hclock : Clocked now s)
    {is : List Input} (his : (now :: is.map (·.env.hrtime)).Pairwise (· ≤ ·)) :
    Along step ChecksTimely s is := by
  induction is generalizing s now with
  | nil => trivial
  | cons i is ih =>
      rw [List.map_cons, List.pairwise_cons] at his
      have hle := his.1 _ (List.mem_cons_self ..)
      refine ⟨timely_step h.table hs hclock hle, ?_⟩
      exact ih (h.step i) (timeoutsGranted_step h.table h.named hs i) (hclock.step hle) his.2

end Checks

end Server

namespace Client

variable {now : UInt64} {token : ClientToken} {c : Client} {i : ClientInput}

/-- The check of a step: the client finds its server gone or not, by the timeout of its token and
the time of the last packet. -/
def ChecksTimely (token : ClientToken) (c : Client) (i : ClientInput) : Prop :=
  ∀ peer, i.event = .triggered .keepAlive → (c.emitters .keepAlive).triggerTask = true →
    c.faulted = false → c.peer = some peer →
      Checked token.timeout peer.lastRecvTime i.env.hrtime
        ((step c i).log = c.log ++ [.disconnected])

theorem socketStop_log (c : Client) : c.socketStop.log = c.log := by
  unfold socketStop
  split <;> rfl

theorem dispatch_log (env : ClientEnv) (c : Client) (datagram : Datagram) :
    (dispatch env c datagram).log = c.log ∨
      (dispatch env c datagram).log = c.log ++ [.emitted datagram] := by
  unfold dispatch
  split
  · exact .inr rfl
  · exact .inl rfl

theorem sendOwn_log_ne (env : ClientEnv) (c : Client) (peer : Peer) (type : PacketType)
    (body : PacketBody) : (sendOwn env c peer type body).log ≠ c.log ++ [.disconnected] := by
  have hne : c.log ≠ c.log ++ [.disconnected] := by simp
  unfold sendOwn
  dsimp only
  split
  · rcases dispatch_log env (c.modifyPeer fun peer => peer.nextSequence.1)
      (sealedPacket peer ⟨type, peer.sequenceNumber⟩ body) with hlog | hlog
    · rw [hlog]
      exact hne
    · rw [hlog]
      intro heq
      have hlast := List.append_cancel_left heq
      simp at hlast
  · rw [socketStop_log]
    exact hne

theorem onTriggered_keepAlive_log_iff {env : ClientEnv} {peer : Peer} (hpeer : c.peer = some peer) :
    (onTriggered env c .keepAlive).log = c.log ++ [.disconnected] ↔
      peer.timeoutNs < env.hrtime - peer.lastRecvTime := by
  have hlog : (onTriggered env c .keepAlive).log = (sendKeepAlive env c).log := rfl
  rw [hlog]
  unfold sendKeepAlive
  rw [hpeer]
  dsimp only
  split
  next htime =>
    rw [socketStop_log]
    exact iff_of_true rfl htime
  next htime => exact iff_of_false (sendOwn_log_ne env c peer _ _) htime

theorem timely_step (hclock : Clocked now token c) (hle : now ≤ i.env.hrtime) :
    ChecksTimely token c i := by
  intro peer hevent htask hfaulted hpeer
  obtain ⟨hlast, htimeout⟩ := hclock.peer peer hpeer
  refine checked_of_iff (UInt64.le_trans hlast hle) ?_
  have hstep : step c i = onTriggered i.env ({ c with tick := c.tick + 1 }.modifyEmitter .keepAlive
      fun e => { e with triggerTask := false }) .keepAlive := by
    rw [step, hfaulted, hevent, if_neg Bool.false_ne_true, handle]
    exact if_pos htask
  rw [hstep, ← htimeout]
  exact onTriggered_keepAlive_log_iff hpeer

/-- A run under a clock that does not go back. -/
theorem timely_run (hclock : Clocked now token c) {is : List ClientInput}
    (his : (now :: is.map (·.env.hrtime)).Pairwise (· ≤ ·)) :
    Along step (ChecksTimely token) c is := by
  induction is generalizing c now with
  | nil => trivial
  | cons i is ih =>
      rw [List.map_cons, List.pairwise_cons] at his
      have hle := his.1 _ (List.mem_cons_self ..)
      exact ⟨timely_step hclock hle, ih (hclock.step hle) his.2⟩

end Client

/-- Under clocks that do not go back, every check of a server and of a client finds the peer
expired exactly when more time than its timeout has passed. -/
theorem timely_runs (o : ServerOptions) (is : List Input)
    (his : (is.map (·.env.hrtime)).Pairwise (· ≤ ·)) (token : ClientToken) (address : Address)
    (payloadCapacity : ℕ) (hrtime leftover : UInt64) (cs : List ClientInput)
    (hcs : (hrtime :: cs.map (·.env.hrtime)).Pairwise (· ≤ ·)) :
    Along Server.step Server.ChecksTimely (Server.start o) is ∧
      Along Client.step (Client.ChecksTimely token)
        (Client.start token address payloadCapacity hrtime leftover) cs := by
  refine ⟨?_, Client.timely_run (Client.clocked_start token address payloadCapacity _ _) hcs⟩
  refine Server.timely_run (Server.sound_start o) (Server.timeoutsGranted_start o)
    (Server.clocked_start o 0) ?_
  exact List.pairwise_cons.mpr ⟨fun _ _ => UInt64.zero_le, his⟩

/-- A server that scans after it has challenged a peer, and a client that sends keep-alive
packets. -/
theorem timely_runs_scan :
    let is := Server.lateRequest ++ [⟨.plentiful 200, .scanTick⟩]
    let cs : List ClientInput := [⟨.plentiful 0, .triggerTimer .keepAlive⟩,
      ⟨.plentiful 0, .triggered .keepAlive⟩]
    let token := (sampleToken 1 11 12).issue 1 0
    (is.map (·.env.hrtime)).Pairwise (· ≤ ·) ∧
      ((0 : UInt64) :: cs.map (·.env.hrtime)).Pairwise (· ≤ ·) ∧
        Along Server.step Server.ChecksTimely (Server.start (sampleOptions 1)) is ∧
          Along Client.step (Client.ChecksTimely token)
            (Client.start token (sampleAddress 9) 1000 0 0) cs :=
  ⟨by decide, by decide, timely_runs (sampleOptions 1) _ (by decide) _ (sampleAddress 9) 1000 0 0 _
    (by decide)⟩

end Protocol

end PomeloUdp
