import PomeloUdp.Protocol.Ownership

/-!
# The belongings along a run

The record of the pipelines says which jobs are in flight, and `Named` that these are the ones
with belongings. `Tracked` says that a job is in flight as long as the pipelines have it. Together
they carry `Held` along every run: what a stage or a worker uses has not been given back, and what
is given back, is given back once. The exception is the packet of a sender that is refused.
-/

namespace PomeloUdp

namespace Protocol

open Machine

namespace Ownership

section Names

/-- What the record of the pipelines says of the belongings: a job is in flight from its
submission to its release, and its entry is removed only when it is cancelled, or when it is a
receiver that the socket handles. -/
structure Named (s : Ownership) (log : List JobEffect) : Prop where
  named : ∀ id, id ∈ s.inFlight.map Belonging.id ↔ .submitted id ∈ log ∧ .released id ∉ log
  unlisted : ∀ b ∈ s.inFlight, b.entry = none →
    .canceled b.id ∈ log ∨ b.kind = .receiver ∧ .handled b.id ∈ log

variable {s : Ownership} {log : List JobEffect}

theorem Named.kept (h : Named s log) {effect : JobEffect}
    (hsubmitted : ∀ id, effect ≠ .submitted id) (hreleased : ∀ id, effect ≠ .released id) :
    Named s (log ++ [effect]) := by
  refine ⟨fun id => ?_, fun b hb hentry => ?_⟩
  · rw [h.named]
    simp [(hsubmitted id).symm, (hreleased id).symm]
  · rcases h.unlisted b hb hentry with hcanceled | ⟨hkind, hhandled⟩
    · exact .inl (List.mem_append_left _ hcanceled)
    · exact .inr ⟨hkind, List.mem_append_left _ hhandled⟩

theorem Named.unlist (h : Named s log) (id : ℕ)
    (hreason : ∀ b ∈ s.inFlight, b.id = id →
      .canceled b.id ∈ log ∨ b.kind = .receiver ∧ .handled b.id ∈ log) :
    Named (s.unlist id) log := by
  unfold Ownership.unlist
  split
  · exact h
  · refine ⟨fun id => by rw [map_id_clearEntry]; exact h.named id, fun b hb hentry => ?_⟩
    obtain ⟨before, hbefore, rfl⟩ := List.mem_map.mp hb
    by_cases hid : before.id = id
    · have hreason := hreason before hbefore hid
      rw [clearEntry, if_pos hid]
      exact hreason
    · rw [clearEntry, if_neg hid] at hentry ⊢
      exact h.unlisted before hbefore hentry

theorem Named.cleanup (h : Named s log) (id : ℕ) :
    Named (s.cleanup id) (log ++ [.released id]) := by
  have hnot : ∀ x, (.submitted x ∈ log ++ [.released id] ∧ .released x ∉ log ++ [.released id]) ↔
      (.submitted x ∈ log ∧ .released x ∉ log) ∧ x ≠ id := by
    intro x
    simp only [List.mem_append, List.mem_singleton, reduceCtorEq, or_false, not_or,
      JobEffect.released.injEq]
    tauto
  have hwas : ∀ b ∈ s.inFlight, b.entry = none → .canceled b.id ∈ log ++ [.released id] ∨
      b.kind = .receiver ∧ .handled b.id ∈ log ++ [.released id] := by
    intro b hb hentry
    rcases h.unlisted b hb hentry with hcanceled | ⟨hkind, hhandled⟩
    · exact .inl (List.mem_append_left _ hcanceled)
    · exact .inr ⟨hkind, List.mem_append_left _ hhandled⟩
  unfold Ownership.cleanup
  split
  · next hfind =>
      refine ⟨fun x => ?_, hwas⟩
      rw [hnot, ← h.named]
      refine ⟨fun hx => ⟨hx, ?_⟩, And.left⟩
      rintro rfl
      obtain ⟨b, hb, hid⟩ := List.mem_map.mp hx
      simpa [hid] using List.find?_eq_none.mp hfind b hb
  · refine ⟨fun x => ?_, fun b hb => hwas b (List.mem_filter.mp hb).1⟩
    rw [hnot, ← h.named]
    simp only [List.mem_map, List.mem_filter, decide_eq_true_eq]
    constructor
    · rintro ⟨b, ⟨hb, hne⟩, rfl⟩
      exact ⟨⟨b, hb, rfl⟩, hne⟩
    · rintro ⟨⟨b, hb, rfl⟩, hne⟩
      exact ⟨b, ⟨hb, hne⟩, rfl⟩

theorem Named.absorb (h : Named s log) (hids : (s.inFlight.map Belonging.id).Nodup)
    {effect : JobEffect} (hsubmitted : ∀ id, effect ≠ .submitted id) :
    Named (s.absorb effect) (log ++ [effect]) := by
  cases effect with
  | submitted id => exact absurd rfl (hsubmitted id)
  | released id => exact h.cleanup id
  | peerRead id => exact h.kept hsubmitted fun _ => by simp
  | adapterSend id => exact h.kept hsubmitted fun _ => by simp
  | canceled id =>
      refine (h.kept hsubmitted fun _ => by simp).unlist id fun b _ hid => .inl ?_
      rw [hid]
      exact List.mem_append_right _ List.mem_cons_self
  | handled id =>
      have hkept := h.kept hsubmitted fun _ => by simp
      simp only [Ownership.absorb]
      split
      · exact hkept
      · next b hfind =>
          split
          · next hkind =>
              refine hkept.unlist id fun other hother hid => .inr ⟨?_, ?_⟩
              · have hb := List.mem_of_find?_eq_some hfind
                have hbid : b.id = id := by simpa using List.find?_some hfind
                rw [List.inj_on_of_nodup_map hids hother hb (hid.trans hbid.symm)]
                exact hkind
              · rw [hid]
                exact List.mem_append_right _ List.mem_cons_self
          · exact hkept

theorem absorb_eq (s : Ownership) (effect : JobEffect) :
    (s.absorb effect).jobs = s.jobs ∧ (s.absorb effect).nextJob = s.nextJob := by
  have hunlist : ∀ id, (s.unlist id).jobs = s.jobs ∧ (s.unlist id).nextJob = s.nextJob := by
    intro id
    unfold Ownership.unlist
    split <;> exact ⟨rfl, rfl⟩
  cases effect with
  | released id =>
      simp only [Ownership.absorb, Ownership.cleanup]
      split <;> exact ⟨rfl, rfl⟩
  | canceled id => exact hunlist id
  | handled id =>
      simp only [Ownership.absorb]
      split
      · exact ⟨rfl, rfl⟩
      · split
        · exact hunlist id
        · exact ⟨rfl, rfl⟩
  | submitted id => exact ⟨rfl, rfl⟩
  | peerRead id => exact ⟨rfl, rfl⟩
  | adapterSend id => exact ⟨rfl, rfl⟩

theorem absorb_all (h : Held s) (hn : Named s log) (new : List JobEffect)
    (hnew : ∀ id, .submitted id ∉ new) :
    Held (new.foldl Ownership.absorb s) ∧ Named (new.foldl Ownership.absorb s) (log ++ new) ∧
      (new.foldl Ownership.absorb s).jobs = s.jobs ∧
      (new.foldl Ownership.absorb s).nextJob = s.nextJob := by
  induction new generalizing s log with
  | nil => exact ⟨h, by simpa using hn, rfl, rfl⟩
  | cons effect new ih =>
      have hone : Named (s.absorb effect) (log ++ [effect]) :=
        hn.absorb h.ids fun id heq => hnew id (heq ▸ List.mem_cons_self)
      obtain ⟨hheld, hnamed, hjobs, hnext⟩ := ih (h.absorb effect) hone
        fun id hid => hnew id (List.mem_cons_of_mem _ hid)
      rw [List.append_assoc, List.singleton_append] at hnamed
      exact ⟨hheld, hnamed, hjobs.trans (absorb_eq s effect).1, hnext.trans (absorb_eq s effect).2⟩

end Names

section Runs

/-- The belongings and the pipelines agree. -/
structure Owned (s : Ownership) : Prop where
  held : Held s
  named : Named s s.jobs.log
  fresh : ∀ id, .submitted id ∈ s.jobs.log → id < s.nextJob
  tracked : Jobs.Tracked False none s.jobs
  controlled : Jobs.Controlled s.jobs

variable {s : Ownership}

theorem Owned.live (h : Owned s) (id : ℕ) :
    (∃ job, s.jobs.jobs id = some job) ↔ id ∈ s.inFlight.map Belonging.id := by
  have hcount := h.tracked.released id
  rw [h.named.named]
  constructor
  · rintro ⟨job, hjob⟩
    refine ⟨h.tracked.known id job hjob, List.count_eq_zero.mp ?_⟩
    rw [hcount, hjob, if_neg (by simp)]
  · rintro ⟨hsubmitted, hreleased⟩
    cases hjob : s.jobs.jobs id with
    | some job => exact ⟨job, rfl⟩
    | none =>
        rw [if_pos ⟨hsubmitted, hjob⟩] at hcount
        have hzero := List.count_eq_zero.mpr hreleased
        omega

theorem Owned.jobStep (h : Owned s) (i : JobInput)
    (hi : ∀ id kind noCrypt workerRequired,
      i.event ≠ .submit id kind noCrypt workerRequired) :
    Owned (s.jobStep i) := by
  obtain ⟨new, hlog, hnew⟩ := Jobs.appends_step s.jobs i hi
  obtain ⟨htracked, hcontrolled⟩ := h.tracked.step h.controlled i fun hfalse => hfalse.elim
  have hdrop : (s.jobs.step i).log.drop s.jobs.log.length = new := by
    rw [hlog, List.drop_left]
  have hbefore : Named { s with jobs := s.jobs.step i } s.jobs.log :=
    ⟨h.named.named, h.named.unlisted⟩
  obtain ⟨hheld, hnamed, hjobs, hnext⟩ :=
    absorb_all (h.held.withJobs (s.jobs.step i)) hbefore new hnew
  dsimp only [Ownership.jobStep]
  rw [hdrop]
  refine ⟨hheld, ?_, fun id hid => ?_, ?_, ?_⟩
  · rw [hjobs, hlog]
    exact hnamed
  · rw [hjobs, hlog] at hid
    rw [hnext]
    exact h.fresh id ((List.mem_append.mp hid).resolve_right (hnew id))
  · rw [hjobs]
    exact htracked
  · rw [hjobs]
    exact hcontrolled

theorem Owned.submitted (h : Owned s) {t : Ownership} (held : Held t) (hjobs : t.jobs = s.jobs)
    (hnext : t.nextJob = s.nextJob + 1) {b : Belonging} (hid : b.id = s.nextJob)
    (hentry : b.entry ≠ none) (hflight : t.inFlight = s.inFlight ++ [b]) (env : JobEnv)
    (noCrypt workerRequired : Bool) :
    Owned (t.jobStep ⟨env, .submit b.id b.kind noCrypt workerRequired⟩) := by
  set i : JobInput := ⟨env, .submit b.id b.kind noCrypt workerRequired⟩ with hi
  have hfresh : s.jobs.Fresh b.id := fun hmem =>
    Nat.lt_irrefl _ (hid ▸ h.fresh b.id hmem)
  have hunreleased : .released b.id ∉ s.jobs.log := by
    rw [← List.count_eq_zero, h.tracked.released b.id, if_neg fun hboth => hfresh hboth.1]
  obtain ⟨new, hlog, hnew⟩ := Jobs.appends_submit s.jobs env hfresh b.kind noCrypt workerRequired
  obtain ⟨htracked, hcontrolled⟩ := h.tracked.step h.controlled i fun hfalse => hfalse.elim
  have hdrop : (s.jobs.step i).log.drop s.jobs.log.length = .submitted b.id :: new := by
    rw [hlog, List.drop_left]
  have hnamed : Named { t with jobs := s.jobs.step i } (s.jobs.log ++ [.submitted b.id]) := by
    refine ⟨fun id => ?_, fun other hother hnone => ?_⟩
    · dsimp only
      rw [hflight, List.map_append, List.mem_append, h.named.named]
      by_cases heq : id = b.id
      · subst heq
        simp [hunreleased]
      · simp [heq]
    · dsimp only at hother
      rw [hflight] at hother
      rcases List.mem_append.mp hother with hold | hlast
      · rcases h.named.unlisted other hold hnone with hcanceled | ⟨hkind, hhandled⟩
        · exact .inl (List.mem_append_left _ hcanceled)
        · exact .inr ⟨hkind, List.mem_append_left _ hhandled⟩
      · rw [List.mem_singleton.mp hlast] at hnone
        exact absurd hnone hentry
  obtain ⟨hheld, hnamed, hjobs', hnext'⟩ :=
    absorb_all (held.withJobs (s.jobs.step i)) hnamed new hnew
  dsimp only [Ownership.jobStep]
  rw [hjobs, hdrop, List.foldl_cons]
  refine ⟨hheld, ?_, fun id hmem => ?_, ?_, ?_⟩
  · change Named _ (new.foldl absorb { t with jobs := s.jobs.step i }).jobs.log
    rw [hjobs', hlog]
    rwa [List.append_assoc, List.singleton_append] at hnamed
  · change .submitted id ∈ (new.foldl absorb { t with jobs := s.jobs.step i }).jobs.log at hmem
    change id < (new.foldl absorb { t with jobs := s.jobs.step i }).nextJob
    rw [hjobs', hlog] at hmem
    rw [hnext', hnext]
    rcases List.mem_append.mp hmem with hold | hlast
    · exact Nat.lt_succ_of_lt (h.fresh id hold)
    · rcases List.mem_cons.mp hlast with heq | hlast
      · rw [JobEffect.submitted.inj heq, hid]
        exact Nat.lt_succ_self _
      · exact absurd hlast (hnew id)
  · change Jobs.Tracked False none (new.foldl absorb { t with jobs := s.jobs.step i }).jobs
    rw [hjobs']
    exact htracked
  · change Jobs.Controlled (new.foldl absorb { t with jobs := s.jobs.step i }).jobs
    rw [hjobs']
    exact hcontrolled

theorem Owned.of_held (h : Owned s) {t : Ownership} (held : Held t) (hjobs : t.jobs = s.jobs)
    (hnext : t.nextJob = s.nextJob) (hflight : t.inFlight = s.inFlight) : Owned t := by
  refine ⟨held, ⟨?_, ?_⟩, ?_, ?_, ?_⟩
  · rw [hflight, hjobs]
    exact h.named.named
  · rw [hflight, hjobs]
    exact h.named.unlisted
  · rw [hnext, hjobs]
    exact h.fresh
  · rw [hjobs]
    exact h.tracked
  · rw [hjobs]
    exact h.controlled

theorem Owned.dispatch (h : Owned s) {peer : PeerHold} (hpeer : peer ∈ s.peers) (env : JobEnv)
    (answers : DispatchAnswers) (noCrypt workerRequired : Bool) :
    Owned (s.dispatch env answers noCrypt workerRequired peer) := by
  have hpos := h.held.peer_refs_pos hpeer
  have hgiven := h.held.releaseNew
  have hback : s.nextPacket ∈ s.packetsBack ++ [s.nextPacket] :=
    List.mem_append_right _ List.mem_cons_self
  have hrefused := hgiven.refuse hback h.held.not_mem_refused
  unfold Ownership.dispatch
  split
  · exact h
  dsimp only
  split
  · exact h.of_held hgiven rfl rfl rfl
  unfold senderInit
  cases answers.buffer with
  | none =>
      dsimp only
      have hsame := Held.unref_ref (s := { s with nextPacket := s.nextPacket + 1 }) hpos
      rw [hsame]
      exact h.of_held hrefused rfl rfl rfl
  | some buffer =>
      cases answers.entry with
      | false =>
          simp only [Bool.not_false, if_true]
          have hsame := Held.unref_ref_buffer (s := { s with nextPacket := s.nextPacket + 1 }) hpos
            buffer
          rw [hsame]
          exact h.of_held hrefused rfl rfl rfl
      | true =>
          simp only [Bool.not_true, Bool.false_eq_true, if_false]
          exact h.submitted (h.held.hold hpeer .sender buffer) rfl rfl rfl (by simp) rfl env
            noCrypt workerRequired

theorem Owned.accept (h : Owned s) {peer : PeerHold} (hpeer : peer ∈ s.peers) (env : JobEnv)
    (answers : AcceptAnswers) (noCrypt workerRequired : Bool) (buffer : ℕ) :
    Owned (s.accept env answers noCrypt workerRequired peer buffer) := by
  have hpos := h.held.peer_refs_pos hpeer
  unfold Ownership.accept
  split
  · exact h
  dsimp only
  split
  · rw [Held.unref_ref_buffer hpos buffer]
    exact h
  · exact h.submitted (h.held.hold hpeer .receiver buffer) rfl rfl rfl (by simp) rfl env noCrypt
      workerRequired

/-- The entries of `ids` are removed, and no other ones are added. -/
structure Unlists (s t : Ownership) (ids : List ℕ) : Prop where
  keys : t.peers.map PeerHold.key = s.peers.map PeerHold.key
  entries : ∀ b ∈ t.inFlight, ∃ before ∈ s.inFlight, before.id = b.id ∧ before.kind = b.kind ∧
    (b.entry = none ∨ b.entry = before.entry ∧ b.id ∉ ids)

theorem unlists_unlist (s : Ownership) (id : ℕ) : Unlists s (s.unlist id) [id] := by
  unfold Ownership.unlist
  split
  · next hfind =>
      refine ⟨rfl, fun b hb => ⟨b, hb, rfl, rfl, .inr ⟨rfl, fun hmem => ?_⟩⟩⟩
      simpa [List.mem_singleton.mp hmem] using List.find?_eq_none.mp hfind b hb
  · refine ⟨map_key_removeEntry, fun b hb => ?_⟩
    obtain ⟨before, hbefore, rfl⟩ := List.mem_map.mp hb
    by_cases hid : before.id = id
    · rw [clearEntry, if_pos hid]
      exact ⟨before, hbefore, rfl, rfl, .inl rfl⟩
    · rw [clearEntry, if_neg hid]
      exact ⟨before, hbefore, rfl, rfl, .inr ⟨rfl, by simpa using hid⟩⟩

theorem Owned.unlists_cancel (h : Owned s) (id : ℕ) :
    Unlists s (s.jobStep ⟨.plain, .cancel id⟩) [id] := by
  cases hjob : s.jobs.jobs id with
  | none =>
      have hsame : s.jobs.step ⟨.plain, .cancel id⟩ = s.jobs := by
        simp only [Jobs.step, hjob]
      dsimp only [Ownership.jobStep]
      rw [hsame, List.drop_length]
      refine ⟨rfl, fun b hb => ⟨b, hb, rfl, rfl, .inr ⟨rfl, fun hmem => ?_⟩⟩⟩
      obtain ⟨job, hlive⟩ := (h.live b.id).mpr (List.mem_map_of_mem hb)
      rw [List.mem_singleton.mp hmem, hjob] at hlive
      cases hlive
  | some job =>
      have hlog : (s.jobs.step ⟨.plain, .cancel id⟩).log = s.jobs.log ++ [.canceled id] := by
        simp only [Jobs.step, hjob]
        rfl
      dsimp only [Ownership.jobStep]
      rw [hlog, List.drop_left]
      have hunlists := unlists_unlist { s with jobs := s.jobs.step ⟨.plain, .cancel id⟩ } id
      exact ⟨hunlists.keys, hunlists.entries⟩

theorem Owned.cancel_all (h : Owned s) (ids : List ℕ) :
    Owned (ids.foldl (fun s id => s.jobStep ⟨.plain, .cancel id⟩) s) ∧
      Unlists s (ids.foldl (fun s id => s.jobStep ⟨.plain, .cancel id⟩) s) ids := by
  induction ids generalizing s with
  | nil => exact ⟨h, rfl, fun b hb => ⟨b, hb, rfl, rfl, .inr ⟨rfl, List.not_mem_nil⟩⟩⟩
  | cons id ids ih =>
      have hone := h.unlists_cancel id
      obtain ⟨howned, hkeys, hentries⟩ := ih (h.jobStep ⟨.plain, .cancel id⟩ fun _ _ _ _ => by simp)
      refine ⟨howned, hkeys.trans hone.keys, fun b hb => ?_⟩
      obtain ⟨mid, hmid, hmidid, hmidkind, hmidentry⟩ := hentries b hb
      obtain ⟨before, hbefore, hid, hkind, hentry⟩ := hone.entries mid hmid
      refine ⟨before, hbefore, hid.trans hmidid, hkind.trans hmidkind, ?_⟩
      rcases hmidentry with hnone | ⟨hsame, hnot⟩
      · exact .inl hnone
      · rcases hentry with hnone | ⟨hsame', hnot'⟩
        · exact .inl (hsame.trans hnone)
        · refine .inr ⟨hsame.trans hsame', fun hmem => ?_⟩
          rcases List.mem_cons.mp hmem with heq | hmem
          · exact hnot' (by rw [hmidid, heq]; exact List.mem_cons_self)
          · exact hnot hmem

theorem Owned.releasePeer (h : Owned s) {peer : PeerHold} (hpeer : peer ∈ s.peers) :
    Owned (s.releasePeer peer) := by
  obtain ⟨howned, hunlists⟩ := h.cancel_all (peer.lists .sender ++ peer.lists .receiver)
  have hmem : peer.key ∈ (s.cancelAll peer).peers.map PeerHold.key := by
    rw [cancelAll, hunlists.keys]
    exact List.mem_map_of_mem hpeer
  obtain ⟨same, hsame, hkey⟩ := List.mem_map.mp hmem
  have hid : same.id = peer.id := congrArg Prod.fst hkey
  have hcontext : same.cryptoContext = peer.cryptoContext := congrArg Prod.snd hkey
  have hnone : ∀ b ∈ (s.cancelAll peer).inFlight, b.entry ≠ some same.id := by
    intro b hb hentry
    obtain ⟨before, hbefore, hbid, hkind, hcases⟩ := hunlists.entries b hb
    rcases hcases with hcleared | ⟨hold, hnot⟩
    · rw [hcleared] at hentry
      cases hentry
    · refine hnot ?_
      have hlisted := (h.held.lists peer hpeer b.kind b.id).mpr
        ⟨before, hbefore, hbid, hkind, by rw [← hold, hentry, hid]⟩
      cases hk : b.kind with
      | sender => exact List.mem_append_left _ (hk ▸ hlisted)
      | receiver => exact List.mem_append_right _ (hk ▸ hlisted)
  have hheld := howned.held.dropPeer hsame hnone
  rw [hid, hcontext] at hheld
  exact howned.of_held hheld rfl rfl rfl

theorem Owned.step (h : Owned s) (i : OwnershipInput) : Owned (s.step i) := by
  obtain ⟨env, event⟩ := i
  have hpeer : ∀ {p : ℕ} {peer : PeerHold},
      (s.peers.find? fun peer => peer.id = p) = some peer → peer ∈ s.peers :=
    fun hfind => List.mem_of_find?_eq_some hfind
  cases event with
  | acquirePeer context =>
      refine h.of_held (h.held.acquirePeer context) ?_ ?_ ?_
      all_goals
        simp only [Ownership.step, Ownership.acquirePeer]
        split <;> rfl
  | releasePeer p =>
      simp only [Ownership.step]
      split
      · exact h
      · next hfind => exact h.releasePeer (hpeer hfind)
  | dispatch answers noCrypt workerRequired p =>
      simp only [Ownership.step]
      split
      · exact h
      · next hfind => exact h.dispatch (hpeer hfind) env answers noCrypt workerRequired
  | accept answers noCrypt workerRequired p buffer =>
      simp only [Ownership.step]
      split
      · exact h
      · next hfind => exact h.accept (hpeer hfind) env answers noCrypt workerRequired buffer
  | other id => exact h.jobStep ⟨env, .other id⟩ fun _ _ _ _ => by simp
  | workerDone id canceled success =>
      exact h.jobStep ⟨env, .workerDone id canceled success⟩ fun _ _ _ _ => by simp
  | finish => exact h.jobStep ⟨env, .finish⟩ fun _ _ _ _ => by simp

theorem owned_start (server : Bool) : Owned (start server) where
  held := held_start server
  named := ⟨by simp [start, Jobs.start], by simp [start]⟩
  fresh := by simp [start, Jobs.start]
  tracked := Jobs.tracked_start False server
  controlled := fun _ => ⟨rfl, rfl⟩

theorem owned_run (server : Bool) (is : List OwnershipInput) :
    Owned (run Ownership.step (start server) is) := by
  induction is using List.reverseRecOn with
  | nil => exact owned_start server
  | append_singleton is i ih =>
      rw [run_append]
      exact ih.step i

theorem Owned.at_rest (h : Owned s) (hcurrent : s.jobs.current = none)
    (hworker : ∀ id job, s.jobs.jobs id = some job → job.worker = false) : s.inFlight = [] := by
  obtain ⟨hqueue, houter⟩ := h.controlled hcurrent
  refine List.eq_nil_iff_forall_not_mem.mpr fun b hb => ?_
  obtain ⟨job, hjob⟩ := (h.live b.id).mpr (List.mem_map_of_mem hb)
  cases h.tracked.placed b.id job hjob (by simp) with
  | queued place =>
      rw [hqueue] at place
      exact List.not_mem_nil place
  | working _ _ _ worker =>
      rw [hworker b.id job hjob] at worker
      cases worker
  | requested _ outer =>
      rw [houter] at outer
      cases outer
  | handled _ current =>
      rw [hcurrent] at current
      cases current

/-- The belongings in every run, whatever the peers, the workers and the pools do. What a sender
or receiver holds is there as long as it is, also when its peer is not, and the peer is there as
long as the entry. A crypto context is given back by the last one who holds it, and a packet once,
except that the packet of a sender that could not be initialised is given back twice. When nothing
is left to be done, no sender or receiver is left. -/
theorem belongings_run (server : Bool) (is : List OwnershipInput) :
    let s := run Ownership.step (start server) is
    (∀ id, (∃ job, s.jobs.jobs id = some job) ↔ ∃ b ∈ s.inFlight, b.id = id) ∧
    (∀ b ∈ s.inFlight, b.cryptoContext ∉ s.contextsBack ∧ b.packet ∉ s.packetsBack ∧
      0 < s.bufferRefs b.buffer ∧
      (∀ p, b.entry = some p → ∃ peer ∈ s.peers, peer.id = p) ∧
      (b.entry = none → .canceled b.id ∈ s.jobs.log ∨
        b.kind = .receiver ∧ .handled b.id ∈ s.jobs.log)) ∧
    (∀ peer ∈ s.peers, peer.cryptoContext ∉ s.contextsBack) ∧
    (∀ context < s.nextContext,
      s.contextsBack.count context = if s.holders context = 0 then 1 else 0) ∧
    (∀ packet < s.nextPacket, s.packetsBack.count packet =
      if packet ∈ s.inFlight.map Belonging.packet then 0
      else if packet ∈ s.refused then 2 else 1) ∧
    (s.jobs.current = none → (∀ id job, s.jobs.jobs id = some job → job.worker = false) →
      s.inFlight = []) := by
  intro s
  have h : Owned s := owned_run server is
  obtain ⟨live, hbalanced, hlive⟩ := h.held.contexts
  obtain ⟨once, hpackets, hback, hrefused, honce⟩ := h.held.packets
  have hcontext : ∀ context, 0 < s.contextRefs context → context ∉ s.contextsBack :=
    fun context hpos => hbalanced.not_mem_settled ((hlive context).mpr hpos)
  refine ⟨fun id => (h.live id).trans List.mem_map, fun b hb => ⟨?_, ?_, ?_, ?_, ?_⟩,
    fun peer hpeer => hcontext _ (h.held.peer_refs_pos hpeer), fun context hlt => ?_,
    fun packet hlt => ?_, h.at_rest⟩
  · exact hcontext _ (h.held.refs_pos hb)
  · have hmem := List.mem_map_of_mem (f := Belonging.packet) hb
    intro hgiven
    rcases List.mem_append.mp (hback.mem_iff.mp hgiven) with hmem' | hmem'
    · exact hpackets.not_mem_settled hmem hmem'
    · exact hpackets.not_mem_settled hmem (honce _ hmem')
  · rw [h.held.buffers]
    exact List.countP_pos_iff.mpr ⟨b, hb, by simp⟩
  · intro p hentry
    obtain ⟨peer, hpeer, hid⟩ := List.mem_map.mp (h.held.entries b hb p hentry)
    exact ⟨peer, hpeer, hid⟩
  · exact h.named.unlisted b hb
  · have hcount := hbalanced.count hlt
    have hholders := h.held.refs context
    split
    · next hzero =>
        have hnot : context ∉ live := fun hmem => by
          have hpos := (hlive context).mp hmem
          omega
        rw [List.count_eq_zero.mpr hnot] at hcount
        omega
    · exact List.count_eq_zero.mpr (hcontext context (by omega))
  · have hcount := hpackets.count hlt
    rw [hback.count_eq, List.count_append]
    split
    · next hmem =>
        have hnot : packet ∉ once := hpackets.not_mem_settled hmem
        rw [List.count_eq_zero.mpr hnot,
          List.count_eq_zero.mpr fun hmem' => hnot (honce packet hmem')]
    · next hmem =>
        rw [List.count_eq_zero.mpr hmem] at hcount
        split
        · next hmem' => rw [List.count_eq_one_of_mem hrefused hmem']; omega
        · next hmem' => rw [List.count_eq_zero.mpr hmem']; omega

/-- No buffer is left for a sender: its packet is given back twice, and its context not at all. -/
example :
    let s := run Ownership.step (start true)
      [⟨.plain, .acquirePeer true⟩, ⟨.plain, .dispatch ⟨true, true, none, true⟩ true false 0⟩]
    s.packetsBack = [0, 0] ∧ s.contextsBack = [] := by
  decide

end Runs

end Ownership

end Protocol

end PomeloUdp
