import PomeloUdp.Protocol.Genuine
import PomeloUdp.Protocol.Grants

/-!
# Expired connect tokens

A connect token carries the time at which it expires. The request handler of
the server does not look at it, so a peer is challenged, and then connected, on
an expired token too. `unexpired_iff` says for which runs this does not happen.
-/

namespace PomeloUdp

namespace Protocol

open Machine

namespace Server

/-- No peer was challenged or connected on a token that had expired when its
request was handled. -/
def Unexpired (s : Server) : Prop :=
  ∀ p, (s.peers p).state = .challenge ∨ (s.peers p).state = .connected →
    ∃ token now, .granted p token now ∈ s.log ∧ now ≤ token.expireTimestamp

/-- A request that gets accepted carries a token that has not expired. -/
def InTime (s : Server) (i : Input) : Prop :=
  ∀ p token, s.granting i = some (p, token) → i.env.now ≤ token.expireTimestamp

/-- Every request accepted so far carried a token that had not expired. -/
def GrantedInTime (s : Server) : Prop :=
  ∀ p token now, .granted p token now ∈ s.log → now ≤ token.expireTimestamp

theorem Sound.unexpired {s : Server} (h : Sound s) (ht : GrantedInTime s) : Unexpired s := by
  intro p hp
  have hadmitted : Admitted (s.peers p).state := by
    rcases hp with hp | hp <;> rw [hp] <;> trivial
  obtain ⟨token, now, _, hgranted, -⟩ := h.grants.keyed p hadmitted
  exact ⟨token, now, hgranted, ht p token now hgranted⟩

theorem grantedInTime_step {s : Server} (h : Sound s) {i : Input} (ht : GrantedInTime s)
    (hi : InTime s i) : GrantedInTime (step s i) := by
  refine invariant_step h.table h.named i ht ?_
  intro t a _ _ hold ha p token now hgranted
  rcases (granted_mem_act ha).mp hgranted with hgranted | ⟨rfl, rfl⟩
  · exact hold p token now hgranted
  · exact hi p token ha.1

theorem step_granting {s : Server} {i : Input} {p : PeerId} {token : ConnectToken}
    (h : s.granting i = some (p, token)) :
    ((step s i).peers p).state = .challenge ∧ .granted p token i.env.now ∈ (step s i).log := by
  obtain ⟨t, -, heq⟩ := step_granting_eq h
  have hsame := sameTable_sendChallenge i.env (act i.env t (.grant p token)) p token.token
  rw [heq]
  refine ⟨(hsame.state p).trans ?_, ?_⟩
  · simp [act, note, pushBack, PeerListName.state]
  · rw [act_log, act_log]
    simp [effects]

/-- In a run of a server no peer is challenged or connected on an expired token
exactly when every request that gets accepted comes before its token expires. -/
theorem unexpired_iff (o : ServerOptions) (is : List Input) :
    Along step (fun s i => Unexpired (step s i)) (start o) is ↔
      Along step InTime (start o) is := by
  suffices h : ∀ s, Sound s → GrantedInTime s →
      (Along step (fun s i => Unexpired (step s i)) s is ↔ Along step InTime s is) from
    h _ (sound_start o) (by simp [GrantedInTime, start])
  induction is with
  | nil => simp
  | cons i is ih =>
      intro s hsound htime
      have hnext := hsound.step i
      rw [along_cons, along_cons]
      constructor
      · rintro ⟨hunexpired, hrest⟩
        have hin : InTime s i := by
          intro p token hgranting
          obtain ⟨hstate, hgranted⟩ := step_granting hgranting
          obtain ⟨token', now', hgranted', htoken⟩ := hunexpired p (.inl hstate)
          obtain ⟨rfl, rfl⟩ := hnext.grants.once p _ _ _ _ hgranted hgranted'
          exact htoken
        exact ⟨hin, (ih _ hnext (grantedInTime_step hsound htime hin)).mp hrest⟩
      · rintro ⟨hin, hrest⟩
        have htime' := grantedInTime_step hsound htime hin
        exact ⟨hnext.unexpired htime', (ih _ hnext htime').mpr hrest⟩

/-- A request with a token that expired at time 100, handled at time 200. -/
def lateRequest : List Input :=
  [arrive (sampleAddress 1) (clientRequest 1 0 (sampleToken 1 11 12)),
    ⟨.plentiful 200, .receiverComplete 1 false⟩]

/-- Whether an effect does not speak of a token accepted in time. -/
def Effect.isLate : Effect → Bool
  | .granted _ token now => decide (token.expireTimestamp < now)
  | _ => true

theorem expired_token_accepted :
    ¬ ∀ (o : ServerOptions) (is : List Input), Unexpired (run step (start o) is) := by
  intro h
  have hstate : ((run step (start (sampleOptions 1)) lateRequest).peers 1).state = .challenge := by
    decide +kernel
  have hlate : ∀ effect ∈ (run step (start (sampleOptions 1)) lateRequest).log,
      Effect.isLate effect = true := by
    decide +kernel
  obtain ⟨token, now, hgranted, htime⟩ := h (sampleOptions 1) lateRequest 1 (.inl hstate)
  have hexpired := hlate _ hgranted
  simp only [Effect.isLate, decide_eq_true_eq] at hexpired
  exact absurd hexpired (UInt64.not_lt.mpr htime)

end Server

end Protocol

end PomeloUdp
