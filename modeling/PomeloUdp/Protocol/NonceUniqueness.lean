import PomeloUdp.Library.Counter
import PomeloUdp.Protocol.Genuine
import PomeloUdp.Protocol.Grants

/-!
# Nonces of the packets the server encrypts

The nonce of a packet is its sequence number. Challenges and denials are
numbered by one counter of the server, all other packets by a counter of their
peer, and both start at zero; the key is the one of the peer in either case.
Two packets under one key can therefore only meet in one of the ways that
`NonceSafe` excludes: the two counters meet, a counter wraps, or a token is
accepted twice.
-/

namespace PomeloUdp

namespace Protocol

open Machine

/-- The key and the nonce a packet was encrypted under. -/
def SealedBody.sealedUnder : SealedBody → Option (Key × UInt64)
  | .encrypted key nonce _ _ => some (key, nonce)
  | .forged _ _ => none

namespace Server

/-- The packets in the record. -/
def emissions (s : Server) : List Emission :=
  s.log.filterMap fun
    | .emitted e => some e
    | _ => none

@[simp] theorem mem_emissions {s : Server} {e : Emission} :
    e ∈ s.emissions ↔ .emitted e ∈ s.log := by
  simp only [emissions, List.mem_filterMap]
  constructor
  · rintro ⟨effect, hmem, heq⟩
    cases effect with
    | emitted e' => exact Option.some.inj heq ▸ hmem
    | _ => exact absurd heq (by simp)
  · exact fun h => ⟨_, h, rfl⟩

/-- The key and the nonce of a packet in the record. -/
def nonceOf : Effect → Option (Key × UInt64)
  | .emitted emission => SealedBody.sealedUnder emission.body
  | _ => none

/-- The keys and nonces of the packets the server encrypted so far. -/
def nonces (s : Server) : List (Key × UInt64) := s.log.filterMap nonceOf

/-- The next number of a peer is not the last one, and when a packet with it is
encrypted, no packet with a number of the server met it under the same key. -/
def OwnSafe (s : Server) (env : Env) (p : PeerId) (type : PacketType) (n : UInt64) : Prop :=
  n ≠ 0xffffffffffffffff ∧
    (env.acquirePacket p type = true → env.acquireSender p type = true →
      ∀ e ∈ s.emissions, e.source = .anonymous →
        e.key = (s.cryptoCtx p).packetEncryptKey → e.header.sequence ≠ n)

/-- What a step must meet so that no nonce is used twice under a key: the two
counters do not meet, none is at its last number, and no token is accepted whose
key belongs to a token accepted before. -/
structure NonceSafe (s : Server) (i : Input) : Prop where
  own : ∀ x ∈ s.ownNumbers i, OwnSafe s i.env x.1 x.2.1 x.2.2
  grant : ∀ x ∈ s.granting i, s.anonymousSequenceNumber ≠ 0xffffffffffffffff ∧
    ∀ token ∈ s.grantedTokens, token.token.serverToClientKey ≠ x.2.token.serverToClientKey
  deny : ∀ p ∈ s.denying i, s.anonymousSequenceNumber ≠ 0xffffffffffffffff ∧
    ∀ e ∈ s.emissions, e.source = .own → e.key = (s.cryptoCtx p).packetEncryptKey →
      e.header.sequence ≠ s.anonymousSequenceNumber

instance (s : Server) (env : Env) (p : PeerId) (type : PacketType) (n : UInt64) :
    Decidable (OwnSafe s env p type n) := by
  unfold OwnSafe
  infer_instance

instance (s : Server) (i : Input) : Decidable (NonceSafe s i) :=
  decidable_of_iff
    ((∀ x ∈ s.ownNumbers i, OwnSafe s i.env x.1 x.2.1 x.2.2) ∧
      (∀ x ∈ s.granting i, s.anonymousSequenceNumber ≠ 0xffffffffffffffff ∧
        ∀ token ∈ s.grantedTokens,
          token.token.serverToClientKey ≠ x.2.token.serverToClientKey) ∧
      ∀ p ∈ s.denying i, s.anonymousSequenceNumber ≠ 0xffffffffffffffff ∧
        ∀ e ∈ s.emissions, e.source = .own → e.key = (s.cryptoCtx p).packetEncryptKey →
          e.header.sequence ≠ s.anonymousSequenceNumber)
    ⟨fun h => ⟨h.1, h.2.1, h.2.2⟩, fun h => ⟨h.own, h.grant, h.deny⟩⟩

/-- The counters are ahead of the numbers they gave, and the keys of the tokens
accepted so far differ. -/
structure Counters (s : Server) : Prop where
  distinct : s.nonces.Nodup
  sealed : ∀ e, .emitted e ∈ s.log →
    SealedBody.sealedUnder e.body = some (e.key, e.header.sequence)
  ahead : ∀ e, .emitted e ∈ s.log → e.source = .own →
    (s.peers e.peer).state ≠ .disconnected →
      e.header.sequence < (s.peers e.peer).sequenceNumber
  granted : ∀ e, .emitted e ∈ s.log → e.source = .own →
    ∃ token now, .granted e.peer token now ∈ s.log ∧ e.key = token.token.serverToClientKey
  anonymous : s.state ≠ .stopped → ∀ e, .emitted e ∈ s.log → e.source = .anonymous →
    e.header.sequence < s.anonymousSequenceNumber
  keys : ∀ p token now p' token' now', .granted p token now ∈ s.log →
    .granted p' token' now' ∈ s.log →
      token'.token.serverToClientKey = token.token.serverToClientKey → p' = p

section Acts

variable {s₀ s : Server} {i : Input} {a : Act}

theorem emitted_of_effects (ha : Enabled s₀ i s a) {e : Emission}
    (he : .emitted e ∈ effects i.env s a) :
    SealedBody.sealedUnder e.body = some (e.key, e.header.sequence) ∧
      e.key = (s.cryptoCtx e.peer).packetEncryptKey ∧
      ((∃ type body, a = .own e.peer type body ∧ e.source = .own ∧
          e.header.sequence = (s.peers e.peer).sequenceNumber ∧
          i.env.acquirePacket e.peer type = true ∧ i.env.acquireSender e.peer type = true) ∨
        (((∃ token, a = .challenge e.peer token) ∨ a = .denied e.peer) ∧
          e.source = .anonymous ∧ e.header.sequence = s.anonymousSequenceNumber)) := by
  cases a with
  | challenge p token =>
      simp only [effects] at he
      split at he
      · obtain ⟨heq, -⟩ := submitted_source he
        obtain rfl := Effect.emitted.inj heq
        exact ⟨rfl, rfl, .inr ⟨.inl ⟨token, rfl⟩, rfl, rfl⟩⟩
      · exact absurd he (by simp)
  | denied p =>
      simp only [effects] at he
      split at he
      · obtain ⟨heq, -⟩ := submitted_source he
        obtain rfl := Effect.emitted.inj heq
        exact ⟨rfl, rfl, .inr ⟨.inr rfl, rfl, rfl⟩⟩
      · exact absurd he (by simp)
  | own p type body =>
      simp only [effects] at he
      split at he
      · rename_i hpacket
        obtain ⟨heq, hsender⟩ := submitted_source he
        obtain rfl := Effect.emitted.inj heq
        exact ⟨rfl, rfl, .inl ⟨type, body, rfl, rfl, rfl, hpacket, hsender⟩⟩
      · exact absurd he (by simp)
  | note effect =>
      obtain rfl := List.mem_singleton.mp he
      exact (ha : False).elim
  | _ => exact absurd he (by simp [effects])

theorem emitted_mem_act {e : Emission} :
    .emitted e ∈ (act i.env s a).log ↔
      .emitted e ∈ s.log ∨ .emitted e ∈ effects i.env s a := by
  rw [act_log, List.mem_append]

theorem Counters.distinct_act (hc : Counters s) (ha : Enabled s₀ i s a)
    (hnew : ∀ e, .emitted e ∈ effects i.env s a → ∀ e', .emitted e' ∈ s.log →
      e'.key = e.key → e'.header.sequence ≠ e.header.sequence) :
    (act i.env s a).nonces.Nodup := by
  refine nodup_filterMap_act _ hc.distinct ?_
  intro effect hmem x hx hold
  obtain ⟨effect', hmem', hx'⟩ := List.mem_filterMap.mp hold
  cases effect with
  | emitted e =>
      cases effect' with
      | emitted e' =>
          have hsealed := (emitted_of_effects ha hmem).1
          have hsealed' := hc.sealed e' hmem'
          have hboth : some (e'.key, e'.header.sequence) = some (e.key, e.header.sequence) := by
            rw [← hsealed, ← hsealed']
            exact hx'.trans hx.symm
          obtain ⟨hkey, hsequence⟩ := Prod.mk.inj (Option.some.inj hboth)
          exact hnew e hmem e' hmem' hkey hsequence
      | _ => exact absurd hx' (by simp [nonceOf])
  | _ => exact absurd hx (by simp [nonceOf])

theorem Grants.key (hs : Grants s) {p : PeerId} (hp : Admitted (s.peers p).state)
    {token : ConnectToken} {now : UInt64} (hgranted : .granted p token now ∈ s.log) :
    (s.cryptoCtx p).packetEncryptKey = token.token.serverToClientKey := by
  obtain ⟨token', now', ctx, hgranted', hctx, -, hkey⟩ := hs.keyed p hp
  obtain ⟨rfl, -⟩ := hs.once p _ _ _ _ hgranted hgranted'
  simp [cryptoCtx, hctx, hkey]

theorem ownNumbers_exclusive {p : PeerId} {type : PacketType} {n : UInt64}
    (h : (p, type, n) ∈ s₀.ownNumbers i) : s₀.granting i = none ∧ s₀.denying i = none := by
  have hcompletion : s₀.completion i = none ∨
      ∃ q datagram tokenSequence token,
        s₀.completion i = some (q, datagram, some (.response tokenSequence token)) := by
    cases hevent : i.event with
    | receiverComplete id workerFailed =>
        simp only [ownNumbers, hevent, connecting] at h
        split at h
        · rename_i q datagram tokenSequence token hsome
          exact .inr ⟨q, datagram, tokenSequence, token, hsome⟩
        · exact absurd h (by simp)
    | _ => exact .inl (by simp [completion, hevent])
  rcases hcompletion with hnone | ⟨q, datagram, tokenSequence, token, hsome⟩
  · simp [granting, denying, hnone]
  · simp [granting, denying, hsome]

end Acts

section Step

variable {s₀ s : Server} {i : Input}

/-- The packets with numbers of the server are those from before the step, as
long as the step sends none. -/
def AnonymousKept (s₀ : Server) (i : Input) (s : Server) : Prop :=
  s₀.granting i = none → s₀.denying i = none →
    ∀ e, .emitted e ∈ s.log → e.source = .anonymous → .emitted e ∈ s₀.log

theorem AnonymousKept.act (hk : AnonymousKept s₀ i s) {a : Act} (ha : Enabled s₀ i s a) :
    AnonymousKept s₀ i (act i.env s a) := by
  intro hgranting hdenying e he hsource
  rcases emitted_mem_act.mp he with hold | hnew
  · exact hk hgranting hdenying e hold hsource
  · obtain ⟨-, -, hown | ⟨hanonymous, -⟩⟩ := emitted_of_effects ha hnew
    · obtain ⟨-, -, -, hown, -⟩ := hown
      exact absurd (hsource.symm.trans hown) (by decide)
    · rcases hanonymous with ⟨token, rfl⟩ | rfl
      · exact absurd (ha.1.symm.trans hgranting) (by simp)
      · exact absurd (ha.1.symm.trans hdenying) (by simp)

theorem Counters.fresh_own (hc : Counters s) (hs : Grants s) (hk : AnonymousKept s₀ i s)
    (hsafe : NonceSafe s₀ i) {p : PeerId} {type : PacketType} {body : PacketBody}
    (ha : Enabled s₀ i s (.own p type body))
    (hpacket : i.env.acquirePacket p type = true) (hsender : i.env.acquireSender p type = true)
    {e : Emission} (he : .emitted e ∈ s.log)
    (hkey : e.key = (s.cryptoCtx p).packetEncryptKey) :
    e.header.sequence ≠ (s.peers p).sequenceNumber := by
  obtain ⟨hstate, hnumber, hctx, -⟩ := ha
  have hadmitted : Admitted (s.peers p).state := by
    rcases hstate with hstate | hstate <;> rw [hstate] <;> trivial
  cases hsource : e.source with
  | anonymous =>
      obtain ⟨hgranting, hdenying⟩ := ownNumbers_exclusive hnumber
      exact (hsafe.own _ hnumber).2 hpacket hsender e
        (mem_emissions.mpr (hk hgranting hdenying e he hsource)) hsource (hctx ▸ hkey)
  | own =>
      obtain ⟨token, now, hgranted, htoken⟩ := hc.granted e he hsource
      obtain ⟨token', now', -, hgranted', -⟩ := hs.keyed p hadmitted
      have hsame : e.peer = p := by
        refine hc.keys p token' now' e.peer token now hgranted' hgranted ?_
        rw [← htoken, hkey]
        exact hs.key hadmitted hgranted'
      have hahead := hc.ahead e he hsource
      rw [hsame] at hahead
      have hlive : (s.peers p).state ≠ .disconnected := by
        rcases hstate with hstate | hstate <;> rw [hstate] <;> decide
      exact UInt64.ne_of_lt (hahead hlive)

theorem Counters.fresh_anonymous (hc₀ : Counters s₀) (hc : Counters s) (hs : Grants s)
    (hsafe : NonceSafe s₀ i) {p : PeerId} {a : Act}
    (hact : (∃ token, a = .challenge p token) ∨ a = .denied p) (ha : Enabled s₀ i s a)
    {e : Emission} (he : .emitted e ∈ s.log)
    (hkey : e.key = (s.cryptoCtx p).packetEncryptKey) :
    e.header.sequence ≠ s.anonymousSequenceNumber := by
  cases hsource : e.source with
  | anonymous =>
      have hrunning : s.state ≠ .stopped := by
        have hstate : s.state = .running := by
          rcases hact with ⟨token, rfl⟩ | rfl
          · exact ha.2.2.2.2
          · exact ha.2.2.2.2.2
        rw [hstate]
        decide
      exact UInt64.ne_of_lt (hc.anonymous hrunning e he hsource)
  | own =>
      rcases hact with ⟨token, rfl⟩ | rfl
      · obtain ⟨hgranting, hstate, hlog, -, -⟩ := ha
        have hkey' : (s.cryptoCtx p).packetEncryptKey = token.token.serverToClientKey := by
          have hgranted : .granted p token i.env.now ∈ s.log := by
            rw [hlog]
            simp
          exact hs.key (by rw [hstate]; trivial) hgranted
        have hold : .emitted e ∈ s₀.log := by
          rw [hlog, List.mem_append] at he
          exact he.resolve_right (by simp)
        obtain ⟨token', now', hgranted, htoken⟩ := hc₀.granted e hold hsource
        exact absurd (htoken.symm.trans (hkey.trans hkey'))
          ((hsafe.grant _ hgranting).2 token' (mem_grantedTokens.mpr ⟨_, _, hgranted⟩))
      · obtain ⟨hdenying, -, hctx, hlog, hcounter, -⟩ := ha
        rw [hcounter]
        exact (hsafe.deny p hdenying).2 e (mem_emissions.mpr (hlog ▸ he)) hsource (hctx ▸ hkey)

/-- Every act of a safe step keeps the counters. -/
theorem Counters.act (hc₀ : Counters s₀) (hc : Counters s) (hs : Grants s)
    (hk : AnonymousKept s₀ i s) (hsafe : NonceSafe s₀ i) {a : Act} (ha : Enabled s₀ i s a) :
    Counters (act i.env s a) := by
  have hsettings := settings_act i.env s a
  constructor
  · refine hc.distinct_act ha ?_
    intro e he e' he' hkey
    obtain ⟨-, hkeyOf, hown | ⟨hact, -, hsequence⟩⟩ := emitted_of_effects ha he
    · obtain ⟨type, body, rfl, -, hsequence, hpacket, hsender⟩ := hown
      rw [hsequence]
      exact hc.fresh_own hs hk hsafe ha hpacket hsender he' (hkey.trans hkeyOf)
    · rw [hsequence]
      exact hc₀.fresh_anonymous hc hs hsafe hact ha he' (hkey.trans hkeyOf)
  · intro e he
    rcases emitted_mem_act.mp he with hold | hnew
    · exact hc.sealed e hold
    · exact (emitted_of_effects ha hnew).1
  · intro e he hsource hlive
    rcases emitted_mem_act.mp he with hold | hnew
    · have hahead := hc.ahead e hold hsource
      cases change_of_act ha e.peer with
      | kept _ _ state _ sequence =>
          rw [sequence]
          exact hahead (state ▸ hlive)
      | pass datagram _ value =>
          rw [value] at hlive ⊢
          exact hahead hlive
      | own type body state _ sequence =>
          rw [sequence]
          have hmax := (hsafe.own _ ha.2.1).1
          exact Counter.lt_add_one_of_le hmax (UInt64.le_of_lt (hahead (state ▸ hlive)))
      | acquire _ name =>
          exact absurd name (fun h => ha.2.2.2.1 _ hold (by simp [effectNames, h]))
      | grant _ before _ _ sequence =>
          rw [sequence]
          exact hahead (by rw [before]; decide)
      | moved _ _ state _ sequence =>
          rw [sequence]
          refine hahead ?_
          rcases state with ⟨state, -⟩ | ⟨state, -⟩ | ⟨state, -⟩ <;> rw [state] <;> decide
      | released _ state => exact absurd state hlive
    · obtain ⟨-, -, hown | ⟨-, hanonymous, -⟩⟩ := emitted_of_effects ha hnew
      · obtain ⟨type, body, rfl, -, hsequence, -⟩ := hown
        rw [hsequence]
        cases change_of_act ha e.peer with
        | kept _ other => exact absurd rfl other
        | own _ _ _ _ sequence =>
            rw [sequence]
            exact Counter.lt_add_one (hsafe.own _ ha.2.1).1
        | moved _ move => exact absurd move (by simp)
        | released _ state => exact absurd state hlive
      · exact absurd (hsource.symm.trans hanonymous) (by decide)
  · intro e he hsource
    have hmono : ∀ token now, .granted e.peer token now ∈ s.log →
        .granted e.peer token now ∈ (Server.act i.env s a).log := fun _ _ h =>
      (granted_mem_act ha).mpr (.inl h)
    rcases emitted_mem_act.mp he with hold | hnew
    · obtain ⟨token, now, hgranted, hkey⟩ := hc.granted e hold hsource
      exact ⟨token, now, hmono _ _ hgranted, hkey⟩
    · obtain ⟨-, hkey, hown | ⟨-, hanonymous, -⟩⟩ := emitted_of_effects ha hnew
      · obtain ⟨type, body, rfl, -⟩ := hown
        have hadmitted : Admitted (s.peers e.peer).state := by
          rcases ha.1 with hstate | hstate <;> rw [hstate] <;> trivial
        obtain ⟨token, now, -, hgranted, -⟩ := hs.keyed e.peer hadmitted
        exact ⟨token, now, hmono _ _ hgranted, hkey.trans (hs.key hadmitted hgranted)⟩
      · exact absurd (hsource.symm.trans hanonymous) (by decide)
  · intro hrunning e he hsource
    have hbefore : s.state ≠ .stopped := by
      rcases hsettings.state with hstate | ⟨rfl, -⟩ | hstate
      · rwa [hstate] at hrunning
      · have hstate : s.state = .running := ha
        rw [hstate]
        decide
      · exact absurd hstate hrunning
    have hmax : a.isAnonymous = true → s.anonymousSequenceNumber ≠ 0xffffffffffffffff := by
      intro hanonymous
      cases a with
      | challenge p token =>
          rw [ha.2.2.2.1]
          exact (hsafe.grant _ ha.1).1
      | denied p =>
          rw [ha.2.2.2.2.1]
          exact (hsafe.deny p ha.1).1
      | _ => exact absurd hanonymous (by simp [Act.isAnonymous])
    rw [hsettings.anonymous hrunning]
    rcases emitted_mem_act.mp he with hold | hnew
    · have hlt := hc.anonymous hbefore e hold hsource
      split
      · exact Counter.lt_add_one_of_le (hmax ‹_›) (UInt64.le_of_lt hlt)
      · exact hlt
    · obtain ⟨-, -, hown | ⟨hact, -, hsequence⟩⟩ := emitted_of_effects ha hnew
      · obtain ⟨-, -, -, hown, -⟩ := hown
        exact absurd (hsource.symm.trans hown) (by decide)
      · have hanonymous : a.isAnonymous = true := by
          rcases hact with ⟨token, rfl⟩ | rfl <;> rfl
        rw [if_pos hanonymous, hsequence]
        exact Counter.lt_add_one (hmax hanonymous)
  · intro p token now p' token' now' h h' hkeys
    rcases (granted_mem_act ha).mp h with hold | ⟨rfl, rfl⟩
    · rcases (granted_mem_act ha).mp h' with hold' | ⟨rfl, rfl⟩
      · exact hc.keys p token now p' token' now' hold hold' hkeys
      · rw [ha.2.2.2] at hold
        exact absurd hkeys.symm ((hsafe.grant _ ha.1).2 token (mem_grantedTokens.mpr ⟨_, _, hold⟩))
    · rcases (granted_mem_act ha).mp h' with hold' | ⟨hsame, rfl⟩
      · rw [ha.2.2.2] at hold'
        exact absurd hkeys ((hsafe.grant _ ha.1).2 token' (mem_grantedTokens.mpr ⟨_, _, hold'⟩))
      · simp only [Act.grant.injEq] at hsame
        exact hsame.1.symm

theorem Counters.ticked (hc : Counters s) : Counters s.ticked :=
  ⟨hc.distinct, hc.sealed, hc.ahead, hc.granted, hc.anonymous, hc.keys⟩

theorem NonceSafe.ticked (hsafe : NonceSafe s i) : NonceSafe s.ticked i :=
  ⟨hsafe.own, hsafe.grant, hsafe.deny⟩

theorem counters_step (h : Sound s) (hc : Counters s) (hsafe : NonceSafe s i) :
    Counters (step s i) := by
  have hall := invariant_step (I := fun t => Counters t ∧ Grants t ∧ AnonymousKept s.ticked i t)
    h.table h.named i ⟨hc.ticked, h.grants.ticked, fun _ _ e he _ => he⟩ ?_
  · exact hall.1
  · rintro t a - - ⟨ht, hgrants, hkept⟩ ha
    exact ⟨hc.ticked.act ht hgrants hkept hsafe.ticked ha, hgrants.act ha, hkept.act ha⟩

theorem counters_start (o : ServerOptions) : Counters (start o) := by
  constructor <;> simp [start, nonces]

end Step

/-- In every run whose steps are safe, no two packets are encrypted under the
same key and nonce. -/
theorem nonces_nodup (o : ServerOptions) (is : List Input)
    (h : Along step NonceSafe (start o) is) : (run step (start o) is).nonces.Nodup := by
  have hall := invariant_run (I := fun s => Sound s ∧ Counters s)
    (fun s i ⟨hsound, hcounters⟩ hsafe => ⟨hsound.step i, counters_step hsound hcounters hsafe⟩)
    ⟨sound_start o, counters_start o⟩ h
  exact hall.2.distinct

/-- Two clients are challenged with the numbers 0 and 1; the second one connects
and is sent a keep-alive with its number 0. -/
def secondConnects : List Input :=
  let second := sampleToken 2 21 22
  [arrive (sampleAddress 1) (clientRequest 1 0 (sampleToken 1 11 12)),
    arrive (sampleAddress 2) (clientRequest 1 0 second),
    complete 1, complete 2,
    arrive (sampleAddress 2) (clientResponse 2 second 0 1),
    complete 5]

theorem nonces_nodup_secondConnects :
    Along step NonceSafe (start (sampleOptions 2)) secondConnects ∧
      (run step (start (sampleOptions 2)) secondConnects).nonces.Nodup := by
  have hsafe : Along step NonceSafe (start (sampleOptions 2)) secondConnects := by
    decide +kernel
  exact ⟨hsafe, nonces_nodup _ _ hsafe⟩

/-- One client is challenged with the number 0 and connects. -/
def firstConnects : List Input :=
  let first := sampleToken 1 11 12
  [arrive (sampleAddress 1) (clientRequest 1 0 first), complete 1,
    arrive (sampleAddress 1) (clientResponse 2 first 0 0), complete 3]

theorem nonce_used_twice :
    ¬ ∀ (o : ServerOptions) (is : List Input), (run step (start o) is).nonces.Nodup := by
  intro h
  have hrun := h (sampleOptions 1) firstConnects
  revert hrun
  decide +kernel

end Server

end Protocol

end PomeloUdp
