import PomeloUdp.Protocol.ServerStep

/-!
# Granted requests

A peer leaves the state of a requesting peer through at most one accepted
request, and its keys are those of the token of that request. `Grants` says so
in terms of the record.
-/

namespace PomeloUdp

namespace Protocol

open Machine

namespace Server

/-- The states a peer reaches only through an accepted request. -/
def Admitted : PeerState → Prop
  | .challenge => True
  | .connected => True
  | .disconnecting => True
  | _ => False

/-- The keys of a context are those of a token. -/
def KeysOf (ctx : CryptoContext) (token : ConnectToken) : Prop :=
  ctx.packetDecryptKey = token.token.clientToServerKey ∧
    ctx.packetEncryptKey = token.token.serverToClientKey

/-- The tokens of the requests accepted so far. -/
def grantedTokens (s : Server) : List ConnectToken :=
  s.log.filterMap fun
    | .granted _ token _ => some token
    | _ => none

@[simp] theorem mem_grantedTokens {s : Server} {token : ConnectToken} :
    token ∈ s.grantedTokens ↔ ∃ p now, .granted p token now ∈ s.log := by
  simp only [grantedTokens, List.mem_filterMap]
  constructor
  · rintro ⟨effect, hmem, heq⟩
    cases effect with
    | granted p token' now => exact ⟨p, now, Option.some.inj heq ▸ hmem⟩
    | _ => exact absurd heq (by simp)
  · rintro ⟨p, now, h⟩
    exact ⟨_, h, rfl⟩

/-- The record of accepted requests agrees with the peers. -/
structure Grants (s : Server) : Prop where
  ctx : ∀ p, (s.peers p).state = .request → (s.peers p).cryptoCtx ≠ none
  fresh : ∀ p, (s.peers p).state = .request → ∀ token now, .granted p token now ∉ s.log
  keyed : ∀ p, Admitted (s.peers p).state → ∃ token now ctx,
    .granted p token now ∈ s.log ∧ (s.peers p).cryptoCtx = some ctx ∧ KeysOf ctx token
  once : ∀ p token now token' now', .granted p token now ∈ s.log →
    .granted p token' now' ∈ s.log → token' = token ∧ now' = now

section

variable {s₀ s : Server} {i : Input} {a : Act}

/-- Every act keeps the record of accepted requests. -/
theorem Grants.act (hs : Grants s) (ha : Enabled s₀ i s a) : Grants (act i.env s a) := by
  have hmono : ∀ p token now, .granted p token now ∈ s.log →
      .granted p token now ∈ (Server.act i.env s a).log := fun p token now h =>
    (granted_mem_act ha).mpr (.inl h)
  constructor
  · intro p hp
    cases change_of_act ha p with
    | kept _ _ state ctx =>
        rw [ctx]
        exact hs.ctx p (state.symm.trans hp)
    | pass datagram _ value =>
        rw [value] at hp ⊢
        exact hs.ctx p hp
    | own _ _ state ctx =>
        rw [ctx]
        exact hs.ctx p (state.symm.trans hp)
    | acquire _ _ _ ctx => exact ctx
    | grant _ _ state => exact absurd (state.symm.trans hp) (by decide)
    | moved _ _ state =>
        rcases state with ⟨-, state⟩ | ⟨-, state⟩ | ⟨-, state⟩ <;>
          exact absurd (state.symm.trans hp) (by decide)
    | released _ state => exact absurd (state.symm.trans hp) (by decide)
  · intro p hp token now hgranted
    rcases (granted_mem_act ha).mp hgranted with hold | ⟨rfl, -⟩
    · cases change_of_act ha p with
      | kept _ _ state => exact hs.fresh p (state.symm.trans hp) token now hold
      | pass datagram _ value =>
          rw [value] at hp
          exact hs.fresh p hp token now hold
      | own _ _ state => exact hs.fresh p (state.symm.trans hp) token now hold
      | acquire _ name =>
          subst name
          exact ha.2.2.2.1 _ hold (by simp [effectNames])
      | grant _ _ state => exact absurd (state.symm.trans hp) (by decide)
      | moved _ _ state =>
          rcases state with ⟨-, state⟩ | ⟨-, state⟩ | ⟨-, state⟩ <;>
            exact absurd (state.symm.trans hp) (by decide)
      | released _ state => exact absurd (state.symm.trans hp) (by decide)
    · cases change_of_act ha p with
      | kept _ other => exact other rfl
      | grant _ _ state => exact absurd (state.symm.trans hp) (by decide)
      | moved _ move => exact absurd move (by simp)
      | released _ state => exact absurd (state.symm.trans hp) (by decide)
  · intro p hp
    have hkeep : Admitted (s.peers p).state →
        ((Server.act i.env s a).peers p).cryptoCtx = (s.peers p).cryptoCtx →
          ∃ token now ctx, .granted p token now ∈ (Server.act i.env s a).log ∧
            ((Server.act i.env s a).peers p).cryptoCtx = some ctx ∧ KeysOf ctx token := by
      intro hadmitted hctx
      obtain ⟨token, now, ctx, hgranted, hsome, hkeys⟩ := hs.keyed p hadmitted
      exact ⟨token, now, ctx, hmono _ _ _ hgranted, hctx.trans hsome, hkeys⟩
    cases change_of_act ha p with
    | kept _ _ state ctx => exact hkeep (state ▸ hp) ctx
    | pass datagram _ value =>
        rw [value] at hp
        exact hkeep hp (by rw [value]; rfl)
    | own _ _ state ctx => exact hkeep (state ▸ hp) ctx
    | acquire _ _ state =>
        rw [state] at hp
        exact absurd hp id
    | grant token before _ ctx =>
        obtain ⟨ctx', hsome, hdecrypt, hencrypt⟩ := ctx (hs.ctx p before)
        exact ⟨token, i.env.now, ctx', (granted_mem_act ha).mpr (.inr ⟨rfl, rfl⟩), hsome,
          hdecrypt, hencrypt⟩
    | moved _ _ state ctx =>
        rcases state with ⟨-, state⟩ | ⟨state, -⟩ | ⟨state, -⟩
        · rw [state] at hp
          exact absurd hp id
        · exact hkeep (by rw [state]; trivial) ctx
        · exact hkeep (by rw [state]; trivial) ctx
    | released _ state =>
        rw [state] at hp
        exact absurd hp id
  · intro p token now token' now' h h'
    rcases (granted_mem_act ha).mp h with hold | ⟨rfl, rfl⟩
    · rcases (granted_mem_act ha).mp h' with hold' | ⟨rfl, rfl⟩
      · exact hs.once p token now token' now' hold hold'
      · exact absurd hold (hs.fresh p ha.2.1 token now)
    · rcases (granted_mem_act ha).mp h' with hold' | ⟨hsame, rfl⟩
      · exact absurd hold' (hs.fresh p ha.2.1 token' now')
      · simp only [Act.grant.injEq, true_and] at hsame
        exact ⟨hsame.symm, rfl⟩

end

theorem grants_start (o : ServerOptions) : Grants (start o) := by
  constructor
  · intro p hp
    exact absurd hp (by simp [start, Peer.zero])
  · intro p hp
    exact absurd hp (by simp [start, Peer.zero])
  · intro p hp
    exact absurd hp (by simp [start, Peer.zero, Admitted])
  · intro p token now token' now' h
    exact absurd h (by simp [start])

theorem Grants.ticked {s : Server} (hs : Grants s) : Grants s.ticked :=
  ⟨hs.ctx, hs.fresh, hs.keyed, hs.once⟩

theorem grants_step {s : Server} (h : Table s) (hn : Named s) (hs : Grants s) (i : Input) :
    Grants (step s i) :=
  invariant_step h hn i hs.ticked fun _ _ _ _ ht ha => ht.act ha

theorem step_granting_eq {s : Server} {i : Input} {p : PeerId} {token : ConnectToken}
    (h : s.granting i = some (p, token)) :
    ∃ t, SoftSame s.ticked t ∧
      step s i = Server.act i.env (Server.act i.env t (.grant p token)) (.challenge p token) := by
  unfold granting at h
  split at h
  · rename_i q datagram protocolId expireTimestamp privateToken hcompletion
    split at h
    · rename_i hready
      obtain ⟨rfl, rfl⟩ := Prod.mk.inj (Option.some.inj h)
      obtain ⟨hstate, hroom, hpush⟩ := hready
      obtain ⟨id, t, hsoft, hstep⟩ := step_completion hcompletion fun _ => rfl
      refine ⟨t, hsoft, ?_⟩
      rw [hstep]
      simp only [recvPacket, recvRequest]
      rw [if_neg (by simp [(hsoft.peers q).state, hstate]),
        if_neg (by simpa [hsoft.maxClients, hsoft.lists] using hroom), if_pos hpush]
      rfl
    · exact absurd h (by simp)
  · exact absurd h (by simp)

/-- What holds in every state of every run. -/
structure Sound (s : Server) : Prop where
  table : Table s
  named : Named s
  grants : Grants s

theorem sound_start (o : ServerOptions) : Sound (start o) :=
  ⟨table_start o, named_start o, grants_start o⟩

theorem Sound.step {s : Server} (h : Sound s) (i : Input) : Sound (step s i) :=
  ⟨(table_step h.table h.named i).1, (table_step h.table h.named i).2,
    grants_step h.table h.named h.grants i⟩

end Server

end Protocol

end PomeloUdp
