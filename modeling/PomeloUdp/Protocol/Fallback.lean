import PomeloUdp.Protocol.Denial

/-!
# The next address of a connect token

A client that is denied, or whose requests time out, goes on to the next address
of its token. `pomelo_protocol_client_stop` has then released the peer, and
`pomelo_protocol_client_connect_address` writes the address through the null
pointer that is left. `fallsBack_iff` says which tokens never get there: those
with one address.
-/

namespace PomeloUdp

namespace Protocol

open Machine Crypto Aead

/-- How an address fails, with the sequence number of the denial and the times of
the two callbacks. -/
inductive Failure where
  | denied (sequence now now' : UInt64)
  | timedOut (now now' : UInt64)

namespace Failure

/-- What the client reports if this was the last address. -/
def result : Failure → ConnectResult
  | denied _ _ _ => .denied
  | timedOut _ _ => .timedOut

/-- Requests time out if the token has a timeout. -/
def Possible (token : ClientToken) : Failure → Prop
  | denied _ _ _ => True
  | timedOut _ _ => 0 < token.timeout

end Failure

namespace Client

/-- A denial as the server of the token seals it. -/
def denial (token : ClientToken) (sequence : UInt64) : Datagram :=
  .packet ⟨.denied, sequence⟩ (.encrypted token.serverToClientKey sequence
    ⟨token.protocolId, .denied, calcPackedUint64Bytes sequence⟩ .denied)

/-- The callbacks of a failure of that address: a denial arrives and is decrypted,
or the timer expires and its task runs. -/
def failureInputs (c : Client) (token : ClientToken) (a : Address) : Failure → List ClientInput
  | .denied sequence now now' =>
      [⟨.plentiful now, .accept a (denial token sequence)⟩,
        ⟨.plentiful now', .receiverComplete (c.tick + 1) false⟩]
  | .timedOut now now' => [⟨.plentiful now, .timeoutTimer⟩, ⟨.plentiful now', .timedOut⟩]

/-- The address that the client is connecting to fails. -/
def fail (token : ClientToken) (c : Client) (failure : Failure) : Client :=
  match token.addresses[c.addressIndex]? with
  | none => c
  | some a => run step c (failureInputs c token a failure)

/-- The client sends requests to an address. -/
structure Targets (c : Client) (token : ClientToken) (a : Address) : Prop where
  requesting : c.Requesting token a
  emitting : (c.emitters .request).running = true

/-- The client has reported a failure once, and stops. -/
structure GaveUp (c : Client) (result : ConnectResult) : Prop where
  reported : c.log = [.connectResult result]
  stopping : c.state = .stopping
  stops : ∀ env, (step c ⟨env, .stopDeferred⟩).state = .stopped ∧
    (step c ⟨env, .stopDeferred⟩).peer = none ∧
    ∀ name, ((step c ⟨env, .stopDeferred⟩).emitters name).running = false

/-- From the first address of the token on, each failure takes the client to the
next address, and the last one ends the attempt. -/
def FallsBack (token : ClientToken) : Prop :=
  ∀ first rest, token.addresses = first :: rest →
  ∀ (payloadCapacity : ℕ) (hrtime leftover : UInt64) (failures : List Failure),
    (∀ failure ∈ failures, failure.Possible token) →
    let c := failures.foldl (fail token) (start token first payloadCapacity hrtime leftover)
    (failures.length < token.addresses.length →
      ∃ a, token.addresses[failures.length]? = some a ∧ c.Targets token a) ∧
    ∀ before last, failures = before ++ [last] → failures.length = token.addresses.length →
      c.GaveUp last.result

section Failures

variable {c : Client} {token : ClientToken} {a first : Address} {payloadCapacity : ℕ}
  {hrtime leftover : UInt64}

theorem targets_start (token : ClientToken) (first : Address) (payloadCapacity : ℕ)
    (hrtime leftover : UInt64) :
    (start token first payloadCapacity hrtime leftover).Targets token first :=
  ⟨⟨rfl, rfl, _, rfl, rfl, rfl, rfl⟩, rfl⟩

theorem processEntry_denial (token : ClientToken) (sequence : UInt64) :
    processEntry (contextOf token) (denial token sequence) = some .denied := by
  simp [processEntry, denial, CryptoContext.decryptPacket, Sealed.open?, contextOf,
    CryptoContext.makeAssociatedData, packetDecode]

theorem faulted_recvDenied {next : Address}
    (h : c.connectToken.addresses[c.addressIndex + 1]? = some next) :
    (recvDenied c).faulted = true := by
  unfold recvDenied
  simp only [nextAddress, modifyPeer]
  rw [h]
  rfl

/-- A client whose last address fails reports that and stops. -/
structure Exhausted (c c' : Client) (result : ConnectResult) : Prop where
  log : c'.log = c.log ++ [.connectResult result]
  state : c'.state = .stopping
  alive : c'.faulted = false
  peer : c'.peer.isSome

theorem Exhausted.gaveUp {c' : Client} {result : ConnectResult} (h : Exhausted c c' result)
    (hlog : c.log = []) : c'.GaveUp result := by
  obtain ⟨peer, hpeer⟩ := Option.isSome_iff_exists.mp h.peer
  refine ⟨by rw [h.log, hlog]; rfl, h.state, fun env => ?_⟩
  have hstep : step c' ⟨env, .stopDeferred⟩ =
      ({ c' with tick := c'.tick + 1 } : Client).stopDeferred := by
    simp [step, handle, h.alive, h.state]
  rw [hstep]
  simp only [stopDeferred, stop, modifyPeer, hpeer, Option.map_some, releasePeer]
  refine ⟨rfl, trivial, fun name => ?_⟩
  cases name <;> simp [emitterStop, modifyEmitter]

theorem exhausted_recvDenied (halive : c.faulted = false) (hrunning : c.state = .running)
    (hpeer : c.peer.isSome) (hlast : c.connectToken.addresses[c.addressIndex + 1]? = none) :
    Exhausted c (recvDenied c) .denied := by
  unfold recvDenied
  simp only [nextAddress, modifyPeer]
  rw [hlast]
  constructor <;> simp [note, socketStop, hrunning, halive, hpeer]

theorem exhausted_handleRequestTimeout (halive : c.faulted = false) (hrunning : c.state = .running)
    (hpeer : c.peer.isSome) (hlast : c.connectToken.addresses[c.addressIndex + 1]? = none) :
    Exhausted c (handleRequestTimeout c) .timedOut := by
  obtain ⟨peer, hsome⟩ := Option.isSome_iff_exists.mp hpeer
  unfold handleRequestTimeout
  simp only [emitterStop, modifyEmitter, hsome, nextAddress, modifyPeer]
  rw [hlast]
  constructor <;> simp [note, socketStop, hrunning, halive]

theorem exhausted_fail (h : c.Targets token a) (htoken : c.connectToken = token)
    (haddress : token.addresses[c.addressIndex]? = some a)
    (hlast : token.addresses[c.addressIndex + 1]? = none) {failure : Failure}
    (hpossible : failure.Possible token) : Exhausted c (fail token c failure) failure.result := by
  unfold fail
  rw [haddress]
  subst htoken
  cases failure with
  | denied sequence now now' =>
      obtain ⟨peer, -, hhandled⟩ :=
        h.requesting.handles (.plentiful now) (.plentiful now') rfl rfl rfl
        (processEntry_denial c.connectToken sequence)
      simp only [failureInputs, denial, run_cons, run_nil]
      rw [hhandled]
      have hexhausted : Exhausted (c.denied peer now) (recvDenied (c.denied peer now)) .denied :=
        exhausted_recvDenied h.requesting.alive h.requesting.running rfl hlast
      exact ⟨hexhausted.log, hexhausted.state, hexhausted.alive, hexhausted.peer⟩
  | timedOut now now' =>
      obtain ⟨peer, hpeer, -⟩ := h.requesting.peer
      have hexhausted : ∀ c' : Client, c'.faulted = false → c'.state = .running →
          c'.peer = c.peer → c'.connectToken = c.connectToken → c'.addressIndex = c.addressIndex →
          c'.log = c.log → Exhausted c (handleRequestTimeout c') .timedOut := by
        intro c' halive hrunning hpeer' htoken hindex hlog
        have := exhausted_handleRequestTimeout halive hrunning (by rw [hpeer', hpeer]; rfl)
          (by rw [htoken, hindex]; exact hlast)
        exact ⟨hlog ▸ this.log, this.state, this.alive, this.peer⟩
      have htimeout : 0 < c.connectToken.timeout := hpossible
      simp only [failureInputs, run_cons, run_nil, step, handle, h.requesting.alive, h.emitting,
        htimeout, modifyEmitter]
      simp only [Bool.false_eq_true, if_false, and_self, if_true, Function.update_self]
      exact hexhausted _ rfl h.requesting.running rfl rfl rfl rfl

theorem faulted_fail (h : c.Targets token a) (htoken : c.connectToken = token)
    (haddress : token.addresses[c.addressIndex]? = some a) {next : Address}
    (hnext : token.addresses[c.addressIndex + 1]? = some next) (sequence now now' : UInt64) :
    (fail token c (.denied sequence now now')).faulted = true := by
  unfold fail
  rw [haddress]
  subst htoken
  obtain ⟨peer, -, hhandled⟩ := h.requesting.handles (.plentiful now) (.plentiful now') rfl rfl rfl
    (processEntry_denial c.connectToken sequence)
  simp only [failureInputs, denial, run_cons, run_nil]
  rw [hhandled]
  exact faulted_recvDenied hnext

/-- A token of one address falls back: there is nowhere to go. -/
theorem fallsBack_of_single (h : token.addresses.length ≤ 1) : FallsBack token := by
  intro first rest haddresses payloadCapacity hrtime leftover failures hpossible
  have hlength : token.addresses.length = 1 := by
    rw [haddresses] at h ⊢
    simp only [List.length_cons] at h ⊢
    omega
  have htargets := targets_start token first payloadCapacity hrtime leftover
  dsimp only
  rw [hlength]
  refine ⟨fun hshort => ?_, fun before last hfailures hfull => ?_⟩
  · obtain rfl : failures = [] := List.eq_nil_of_length_eq_zero (Nat.lt_one_iff.mp hshort)
    exact ⟨first, by rw [haddresses]; rfl, htargets⟩
  · obtain rfl : before = [] := by
      rw [hfailures, List.length_append, List.length_singleton] at hfull
      exact List.eq_nil_of_length_eq_zero (Nat.succ.inj hfull)
    rw [hfailures]
    refine (exhausted_fail htargets rfl (by rw [haddresses]; rfl) ?_
      (hpossible last (by rw [hfailures]; simp))).gaveUp rfl
    rw [List.getElem?_eq_none_iff, hlength]
    exact Nat.le_refl 1

/-- A client falls back to the next address of its token, and ends its attempt when
none is left, exactly if the token has one address. -/
theorem fallsBack_iff (token : ClientToken) : FallsBack token ↔ token.addresses.length ≤ 1 := by
  refine ⟨fun h => ?_, fallsBack_of_single⟩
  by_contra hmany
  obtain ⟨first, next, rest, haddresses⟩ : ∃ first next rest,
      token.addresses = first :: next :: rest := by
    match haddresses : token.addresses with
    | [] => simp [haddresses] at hmany
    | [_] => simp [haddresses] at hmany
    | first :: next :: rest => exact ⟨first, next, rest, rfl⟩
  obtain ⟨a, -, htargets⟩ := (h first (next :: rest) haddresses 0 0 0 [.denied 0 0 0]
    (by simp [Failure.Possible])).1 (by simpa using hmany)
  have hfaulted := faulted_fail (targets_start token first 0 0 0) rfl
    (by rw [haddresses]; rfl) (by rw [haddresses]; rfl) 0 0 0
  have halive := htargets.requesting.alive
  simp only [List.foldl_cons, List.foldl_nil] at halive
  rw [halive] at hfaulted
  cases hfaulted

end Failures

/-- A token for two servers, the first of which is full. -/
def twoAddresses : ClientToken where
  protocolId := 7
  expireTimestamp := 100
  connectTokenNonce := 0
  timeout := 5
  addresses := [.ipv4 9 5000, .ipv4 9 5001]
  clientToServerKey := 11
  serverToClientKey := 12
  encrypted := .forged 0 1024

theorem not_fallsBack_twoAddresses : ¬ FallsBack twoAddresses := by
  intro h
  obtain ⟨a, -, htargets⟩ := (h (.ipv4 9 5000) [.ipv4 9 5001] rfl 1000 0 0 [.denied 1 0 0]
    (by simp [Failure.Possible])).1 (by decide)
  have hfaulted := faulted_fail (targets_start twoAddresses (.ipv4 9 5000) 1000 0 0) rfl rfl rfl
    1 0 0
  have halive := htargets.requesting.alive
  simp only [List.foldl_cons, List.foldl_nil] at halive
  rw [halive] at hfaulted
  cases hfaulted

end Client

end Protocol

end PomeloUdp
