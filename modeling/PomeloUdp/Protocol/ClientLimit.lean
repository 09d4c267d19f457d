import PomeloUdp.Protocol.Genuine
import PomeloUdp.Protocol.ServerStep

/-!
# The number of connected peers

The limit `max_clients` is compared with the number of connected peers when a
request is handled; a peer enters the list of connected peers when its response
is handled, and there the limit is not compared again. `withinLimit_iff` says
for which runs the limit holds in every state: those where each response that
connects a peer finds the list below the limit.
-/

namespace PomeloUdp

namespace Protocol

open Machine

namespace Server

/-- The limit of connected peers is kept. -/
def WithinLimit (s : Server) : Prop := (s.lists .connected).length ≤ s.maxClients

/-- A response that connects a peer finds the list of connected peers below the
limit. -/
def HasRoom (s : Server) (i : Input) : Prop :=
  ∀ p, s.connecting i = some p → (s.lists .connected).length < s.maxClients

theorem unlink_lists_ne (s : Server) (name name' : PeerListName) (p : PeerId)
    (h : name' ≠ name) : (s.unlink name p).lists name' = s.lists name' := by
  unfold unlink
  split
  · rfl
  · exact Function.update_of_ne h _ _

theorem length_unlink_le (s : Server) (name name' : PeerListName) (p : PeerId) :
    ((s.unlink name p).lists name').length ≤ (s.lists name').length := by
  unfold unlink
  split
  · exact le_rfl
  · rename_i x _
    by_cases h : name' = name
    · subst h
      simpa [removeEntry] using List.length_erase_le
    · simp [removeEntry, h]

theorem length_connected_act (env : Env) (s : Server) (a : Act) (h : ∀ p, a ≠ .connect p) :
    ((act env s a).lists .connected).length ≤ (s.lists .connected).length := by
  cases a with
  | connect p => exact absurd rfl (h p)
  | pass p datagram =>
      simp only [act]
      split <;> exact le_rfl
  | acquire a => exact le_rfl
  | discard a => exact (congrArg List.length (congrFun (releasePeer_lists _ _) _)).le
  | grant p token =>
      exact length_unlink_le (s.modifyPeer p fun peer => peer.adoptToken token env.hrtime) _ _ _
  | challenge p token =>
      exact (congrArg List.length (congrFun (sameTable_sendChallenge env s p _).lists _)).le
  | deny p => exact length_unlink_le s _ _ _
  | denied p => exact (congrArg List.length (congrFun (sameTable_sendDenied env s p).lists _)).le
  | own p type body =>
      exact (congrArg List.length (congrFun (sameTable_sendOwn env s p type body).lists _)).le
  | park p => exact length_unlink_le s _ _ _
  | release p name =>
      simp only [act]
      rw [releasePeer_lists]
      exact length_unlink_le s _ _ _
  | stopped =>
      simp only [act]
      rw [stopDeferred_lists]
      exact Nat.zero_le _
  | submit p datagram => exact le_rfl
  | take id => exact le_rfl
  | drop id => exact le_rfl
  | soft p f => exact le_rfl
  | note effect => exact le_rfl
  | stopping => exact le_rfl

theorem length_connected_connect (env : Env) (s : Server) (p : PeerId) :
    ((act env s (.connect p)).lists .connected).length = (s.lists .connected).length + 1 := by
  have h := unlink_lists_ne s .challenging .connected p (by decide)
  simp [act, modifyPeer, pushBack, h]

theorem withinLimit_step {s : Server} (h : Table s) (hn : Named s) {i : Input}
    (hlimit : WithinLimit s) (hroom : HasRoom s i) : WithinLimit (step s i) := by
  have hkeeps := invariant_step (I := fun t => WithinLimit t ∧ t.maxClients = s.maxClients) h hn i
    ⟨hlimit, rfl⟩ ?_
  · exact hkeeps.1
  · rintro t a - - ⟨ht, hmax⟩ ha
    refine ⟨?_, (act_maxClients _ _ _).trans hmax⟩
    unfold WithinLimit at ht ⊢
    rw [act_maxClients]
    by_cases hconnect : ∀ p, a ≠ .connect p
    · exact (length_connected_act i.env t a hconnect).trans ht
    · push Not at hconnect
      obtain ⟨p, rfl⟩ := hconnect
      obtain ⟨hconnecting, -, hlists, -⟩ := ha
      rw [length_connected_connect, hlists, hmax]
      exact hroom p hconnecting

theorem step_connecting {s : Server} {i : Input} {p : PeerId} (h : s.connecting i = some p) :
    ((step s i).lists .connected).length = (s.lists .connected).length + 1 := by
  obtain ⟨t, hsoft, htable⟩ := step_of_connecting h
  rw [htable.lists, length_connected_connect, hsoft.lists]

/-- In a run of a server the limit holds after every step exactly when every
response that connects a peer finds the list of connected peers below it. -/
theorem withinLimit_iff (o : ServerOptions) (is : List Input) :
    Along step (fun s i => WithinLimit (step s i)) (start o) is ↔
      Along step HasRoom (start o) is := by
  suffices h : ∀ s, Table s → Named s → WithinLimit s →
      (Along step (fun s i => WithinLimit (step s i)) s is ↔ Along step HasRoom s is) from
    h _ (table_start o) (named_start o) (Nat.zero_le _)
  induction is with
  | nil => simp
  | cons i is ih =>
      intro s htable hnamed hlimit
      obtain ⟨htable', hnamed'⟩ := table_step htable hnamed i
      rw [along_cons, along_cons]
      constructor
      · rintro ⟨hnext, hrest⟩
        refine ⟨?_, (ih _ htable' hnamed' hnext).mp hrest⟩
        intro p hp
        have hlength := step_connecting hp
        have hmax : (step s i).maxClients = s.maxClients :=
          (invariant_step (I := fun t => t.maxClients = s.maxClients) htable hnamed i rfl
            fun _ _ _ _ ht _ => (act_maxClients _ _ _).trans ht)
        unfold WithinLimit at hnext
        omega
      · rintro ⟨hroom, hrest⟩
        have hnext := withinLimit_step htable hnamed hlimit hroom
        exact ⟨hnext, (ih _ htable' hnamed' hnext).mpr hrest⟩

/-- Two clients whose requests are both handled before either response is. -/
def twoHandshakes : List Input :=
  let first := sampleToken 1 11 12
  let second := sampleToken 2 21 22
  [arrive (sampleAddress 1) (clientRequest 1 0 first),
    arrive (sampleAddress 2) (clientRequest 1 0 second),
    complete 1, complete 2,
    arrive (sampleAddress 1) (clientResponse 2 first 0 0),
    arrive (sampleAddress 2) (clientResponse 2 second 0 1),
    complete 5, complete 6]

theorem limit_exceeded :
    ¬ ∀ (o : ServerOptions) (is : List Input), WithinLimit (run step (start o) is) := by
  intro h
  have hrun := h (sampleOptions 1) twoHandshakes
  unfold WithinLimit at hrun
  revert hrun
  decide +kernel

end Server

end Protocol

end PomeloUdp
