import PomeloUdp.Library.Ledger
import PomeloUdp.Protocol.Cancellation

/-!
# What senders and receivers hold

A sender holds the crypto context of its peer, its packet, a buffer, and an entry in the list of
senders of the peer; a receiver holds the same. `Ownership` has them next to the pipelines of
`Jobs`: a step of the pipelines tells what was released, cancelled and handed to the socket, and
`absorb` does to the belongings what the code does there. So a peer may be released while a worker
still encrypts with its context, and the context is given back by the sender.

`pomelo_protocol_sender_init` takes the packet before it can fail, and the pool then calls
`pomelo_protocol_sender_cleanup`, which gives the packet back. `pomelo_protocol_socket_dispatch`
gives it back as well. So `Held` counts the packets of the senders that were refused twice, and
everything else that was given back once.
-/

namespace PomeloUdp

namespace Protocol

open Base (Pipeline)

open Machine

/-- What a sender or receiver holds. -/
structure Belonging where
  id : ℕ
  kind : JobKind
  /-- The peer in whose list `entry` is. -/
  entry : Option ℕ
  cryptoContext : ℕ
  packet : ℕ
  buffer : ℕ
  deriving DecidableEq

/-- What a peer holds: its crypto context, and the lists `senders` and `receivers`. -/
structure PeerHold where
  id : ℕ
  cryptoContext : ℕ
  lists : JobKind → List ℕ

namespace PeerHold

/-- What does not change while a peer is acquired. -/
def key (peer : PeerHold) : ℕ × ℕ := (peer.id, peer.cryptoContext)

/-- Appending to a list of a peer. -/
def push (peer : PeerHold) (kind : JobKind) (id : ℕ) : PeerHold :=
  { peer with lists := Function.update peer.lists kind (peer.lists kind ++ [id]) }

/-- Removing from a list of a peer. -/
def remove (peer : PeerHold) (kind : JobKind) (id : ℕ) : PeerHold :=
  { peer with lists := Function.update peer.lists kind ((peer.lists kind).filter (· ≠ id)) }

end PeerHold

/-- What the pools and lists answer to `pomelo_protocol_socket_dispatch` and its callers. -/
structure DispatchAnswers where
  /-- Whether the packet is acquired. -/
  packet : Bool
  /-- Whether there is memory for the sender. -/
  sender : Bool
  /-- The buffer that is acquired. -/
  buffer : Option ℕ
  /-- Whether the sender is appended to the list of the peer. -/
  entry : Bool

/-- What they answer to `pomelo_protocol_socket_accept`. -/
structure AcceptAnswers where
  receiver : Bool
  entry : Bool
  packet : Bool

/-- The peers, senders and receivers of a socket, and what was given back to the pools. A crypto
context and a buffer count their references. `refused` are the packets of the senders that were
not initialised; no function reads it. -/
structure Ownership where
  jobs : Jobs
  inFlight : List Belonging
  peers : List PeerHold
  contextRefs : ℕ → ℕ
  contextsBack : List ℕ
  packetsBack : List ℕ
  bufferRefs : ℕ → ℕ
  nextJob : ℕ
  nextPeer : ℕ
  nextContext : ℕ
  nextPacket : ℕ
  refused : List ℕ

namespace Ownership

/-- A new socket. -/
def start (server : Bool) : Ownership where
  jobs := .start server
  inFlight := []
  peers := []
  contextRefs := fun _ => 0
  contextsBack := []
  packetsBack := []
  bufferRefs := fun _ => 0
  nextJob := 0
  nextPeer := 0
  nextContext := 0
  nextPacket := 0
  refused := []

/-- `pomelo_protocol_crypto_context_ref`. -/
def refContext (s : Ownership) (context : ℕ) : Ownership :=
  { s with contextRefs := Function.update s.contextRefs context (s.contextRefs context + 1) }

/-- `pomelo_protocol_crypto_context_unref`, with `pomelo_protocol_crypto_context_on_finalize`. -/
def unrefContext (s : Ownership) (context : ℕ) : Ownership :=
  { s with
    contextRefs := Function.update s.contextRefs context (s.contextRefs context - 1)
    contextsBack :=
      if s.contextRefs context = 1 then s.contextsBack ++ [context] else s.contextsBack }

/-- `pomelo_protocol_context_release_packet`. -/
def releasePacket (s : Ownership) (packet : ℕ) : Ownership :=
  { s with packetsBack := s.packetsBack ++ [packet] }

/-- `pomelo_buffer_ref`, or the first reference. -/
def refBuffer (s : Ownership) (buffer : ℕ) : Ownership :=
  { s with bufferRefs := Function.update s.bufferRefs buffer (s.bufferRefs buffer + 1) }

/-- `pomelo_buffer_unref`. -/
def unrefBuffer (s : Ownership) (buffer : ℕ) : Ownership :=
  { s with bufferRefs := Function.update s.bufferRefs buffer (s.bufferRefs buffer - 1) }

/-- `pomelo_list_remove` from the list that the entry is in. -/
def removeEntry (peers : List PeerHold) (b : Belonging) : List PeerHold :=
  match b.entry with
  | none => peers
  | some p => peers.map fun peer => if peer.id = p then peer.remove b.kind b.id else peer

/-- The pointer to the entry is cleared. -/
def clearEntry (id : ℕ) (b : Belonging) : Belonging :=
  if b.id = id then { b with entry := none } else b

/-- The entry is removed, and the pointer to it is cleared. -/
def unlist (s : Ownership) (id : ℕ) : Ownership :=
  match s.inFlight.find? fun b => b.id = id with
  | none => s
  | some b =>
      { s with peers := removeEntry s.peers b, inFlight := s.inFlight.map (clearEntry id) }

/-- `pomelo_pool_release` with `pomelo_protocol_sender_cleanup` or
`pomelo_protocol_receiver_cleanup`. -/
def cleanup (s : Ownership) (id : ℕ) : Ownership :=
  match s.inFlight.find? fun b => b.id = id with
  | none => s
  | some b =>
      { ((s.unrefContext b.cryptoContext).unrefBuffer b.buffer).releasePacket b.packet with
        peers := removeEntry s.peers b
        inFlight := s.inFlight.filter fun other => other.id ≠ id }

/-- What happens to a job, as far as its belongings go. `pomelo_protocol_receiver_complete` takes
the receiver out of its list before the socket handles it. -/
def absorb (s : Ownership) : JobEffect → Ownership
  | .released id => s.cleanup id
  | .canceled id => s.unlist id
  | .handled id =>
      match s.inFlight.find? fun b => b.id = id with
      | none => s
      | some b => if b.kind = .receiver then s.unlist id else s
  | .submitted _ | .peerRead _ | .adapterSend _ => s

/-- A call that the pipelines see, and what it does to the belongings. -/
def jobStep (s : Ownership) (i : JobInput) : Ownership :=
  let jobs := s.jobs.step i
  (jobs.log.drop s.jobs.log.length).foldl absorb { s with jobs := jobs }

/-- The new job is submitted. -/
def submit (s : Ownership) (env : JobEnv) (noCrypt workerRequired : Bool) (p : ℕ)
    (b : Belonging) : Ownership :=
  jobStep
    { s with
      peers := s.peers.map fun peer => if peer.id = p then peer.push b.kind b.id else peer
      inFlight := s.inFlight ++ [b]
      nextJob := s.nextJob + 1 }
    ⟨env, .submit b.id b.kind noCrypt workerRequired⟩

/-- `pomelo_protocol_sender_init`, followed by `pomelo_protocol_sender_cleanup` if it fails. -/
def senderInit (s : Ownership) (answers : DispatchAnswers) (peer : PeerHold) (packet : ℕ) :
    Ownership × Option Belonging :=
  let s := s.refContext peer.cryptoContext
  match answers.buffer with
  | none => ((s.unrefContext peer.cryptoContext).releasePacket packet, none)
  | some buffer =>
      let s := s.refBuffer buffer
      if !answers.entry then
        (((s.unrefContext peer.cryptoContext).unrefBuffer buffer).releasePacket packet, none)
      else
        (s, some ⟨s.nextJob, .sender, some peer.id, peer.cryptoContext, packet, buffer⟩)

/-- A packet for the peer is acquired, and `pomelo_protocol_socket_dispatch`. -/
def dispatch (s : Ownership) (env : JobEnv) (answers : DispatchAnswers)
    (noCrypt workerRequired : Bool) (peer : PeerHold) : Ownership :=
  if !answers.packet then s
  else
    let packet := s.nextPacket
    let s := { s with nextPacket := s.nextPacket + 1 }
    if !answers.sender then s.releasePacket packet
    else
      match s.senderInit answers peer packet with
      | (s, none) => { s.releasePacket packet with refused := s.refused ++ [packet] }
      | (s, some b) => s.submit env noCrypt workerRequired peer.id b

/-- `pomelo_protocol_socket_accept` after the validation, with `pomelo_protocol_receiver_init`. -/
def accept (s : Ownership) (env : JobEnv) (answers : AcceptAnswers)
    (noCrypt workerRequired : Bool) (peer : PeerHold) (buffer : ℕ) : Ownership :=
  if !answers.receiver then s
  else
    let s := (s.refContext peer.cryptoContext).refBuffer buffer
    if !answers.entry || !answers.packet then
      (s.unrefContext peer.cryptoContext).unrefBuffer buffer
    else
      submit { s with nextPacket := s.nextPacket + 1 } env noCrypt workerRequired peer.id
        ⟨s.nextJob, .receiver, some peer.id, peer.cryptoContext, s.nextPacket, buffer⟩

/-- `pomelo_protocol_peer_init`. -/
def acquirePeer (s : Ownership) (context : Bool) : Ownership :=
  if !context then s
  else
    { s with
      peers := s.peers ++ [⟨s.nextPeer, s.nextContext, fun _ => []⟩]
      contextRefs := Function.update s.contextRefs s.nextContext 1
      nextPeer := s.nextPeer + 1
      nextContext := s.nextContext + 1 }

/-- `pomelo_protocol_peer_cancel_senders_and_receivers`. -/
def cancelAll (s : Ownership) (peer : PeerHold) : Ownership :=
  (peer.lists .sender ++ peer.lists .receiver).foldl
    (fun s id => s.jobStep ⟨.plain, .cancel id⟩) s

/-- The release of a peer, with `pomelo_protocol_peer_cleanup`. -/
def releasePeer (s : Ownership) (peer : PeerHold) : Ownership :=
  let s := (s.cancelAll peer).unrefContext peer.cryptoContext
  { s with peers := s.peers.filter fun other => other.id ≠ peer.id }

end Ownership

/-- The calls of a run. The peer of a call is one of those that are acquired. -/
inductive OwnershipEvent where
  | acquirePeer (context : Bool)
  | releasePeer (p : ℕ)
  | dispatch (answers : DispatchAnswers) (noCrypt workerRequired : Bool) (p : ℕ)
  | accept (answers : AcceptAnswers) (noCrypt workerRequired : Bool) (p buffer : ℕ)
  | other (id : ℕ)
  | workerDone (id : ℕ) (canceled success : Bool)
  | finish

/-- A call, with the answers to the stages that run in it. -/
structure OwnershipInput where
  env : JobEnv
  event : OwnershipEvent

namespace Ownership

/-- One call. -/
def step (s : Ownership) (i : OwnershipInput) : Ownership :=
  match i.event with
  | .acquirePeer context => s.acquirePeer context
  | .releasePeer p =>
      match s.peers.find? fun peer => peer.id = p with
      | none => s
      | some peer => s.releasePeer peer
  | .dispatch answers noCrypt workerRequired p =>
      match s.peers.find? fun peer => peer.id = p with
      | none => s
      | some peer => s.dispatch i.env answers noCrypt workerRequired peer
  | .accept answers noCrypt workerRequired p buffer =>
      match s.peers.find? fun peer => peer.id = p with
      | none => s
      | some peer => s.accept i.env answers noCrypt workerRequired peer buffer
  | .other id => s.jobStep ⟨i.env, .other id⟩
  | .workerDone id canceled success => s.jobStep ⟨i.env, .workerDone id canceled success⟩
  | .finish => s.jobStep ⟨i.env, .finish⟩

end Ownership

namespace Jobs

section Log

/-- What happens is added to the record, and none of it is a new job. -/
def Appends (s t : Jobs) : Prop :=
  ∃ new, t.log = s.log ++ new ∧ ∀ id, .submitted id ∉ new

variable {s t u : Jobs}

theorem Appends.refl (s : Jobs) : Appends s s := ⟨[], by simp, fun _ => List.not_mem_nil⟩

theorem Appends.of_log (h : Appends s t) (hlog : u.log = t.log) : Appends s u := by
  obtain ⟨new, hold, hnew⟩ := h
  exact ⟨new, hlog.trans hold, hnew⟩

theorem Appends.note (h : Appends s t) {effect : JobEffect}
    (heffect : ∀ id, effect ≠ .submitted id) : Appends s (t.note effect) := by
  obtain ⟨new, hlog, hnew⟩ := h
  refine ⟨new ++ [effect], by rw [Jobs.note, hlog, List.append_assoc], fun id hid => ?_⟩
  rcases List.mem_append.mp hid with hid | hid
  · exact hnew id hid
  · exact heffect id (List.mem_singleton.mp hid).symm

theorem Appends.modifyJob (h : Appends s t) (id : ℕ) (f : Job → Job) :
    Appends s (t.modifyJob id f) := h.of_log rfl

theorem Appends.setPipeline (h : Appends s t) (id : ℕ) (p : Pipeline) :
    Appends s (t.setPipeline id p) := h.of_log rfl

theorem Appends.enqueue (h : Appends s t) (task : SequencedTask) : Appends s (t.enqueue task) :=
  h.of_log rfl

theorem Appends.release (h : Appends s t) (id : ℕ) : Appends s (t.release id) := by
  have hjobs : Appends s { t with jobs := Function.update t.jobs id none } := h.of_log rfl
  exact hjobs.note fun _ => by simp

theorem Appends.executeBusy (h : Appends s t) (fuel id : ℕ) :
    Appends s (executeBusy fuel t id) := by
  induction fuel generalizing t with
  | zero => exact h
  | succ fuel ih =>
      simp only [Jobs.executeBusy]
      split
      · exact h.enqueue _
      · split
        · exact ih ((h.enqueue _).setPipeline id _)
        · exact (h.enqueue _).setPipeline id _

theorem Appends.executeIn (h : Appends s t) (id : ℕ) : Appends s (executeIn t id) :=
  (h.modifyJob id _).executeBusy 3 id

variable {ex : Jobs → ℕ → Jobs}
  (hex : ∀ {s t : Jobs}, Appends s t → ∀ id, Appends s (ex t id))

include hex

theorem Appends.pipelineNext (h : Appends s t) (id : ℕ) : Appends s (pipelineNext ex t id) := by
  simp only [Jobs.pipelineNext]
  split
  · exact h
  · split
    · exact hex (h.setPipeline id _) id
    · exact h.setPipeline id _

theorem Appends.pipelineFinish (h : Appends s t) (id : ℕ) :
    Appends s (pipelineFinish ex t id) := by
  simp only [Jobs.pipelineFinish]
  split
  · exact h
  · split
    · exact hex (h.setPipeline id _) id
    · exact h.setPipeline id _

theorem Appends.processComplete (h : Appends s t) (id : ℕ) (canceled success : Bool) :
    Appends s (processComplete ex t id canceled success) := by
  simp only [Jobs.processComplete]
  split
  · exact h.modifyJob id _
  · split
    · exact (h.modifyJob id _).pipelineFinish hex id
    · exact (h.modifyJob id _).pipelineNext hex id

omit hex

variable {env : JobEnv}

theorem Appends.process (h : Appends s t) (id : ℕ) : Appends s (process env t id) := by
  have hin : ∀ {s t : Jobs}, Appends s t → ∀ id, Appends s (Jobs.executeIn t id) :=
    fun h id => h.executeIn id
  simp only [Jobs.process]
  split
  · exact h
  · split
    · exact h.processComplete hin id _ _
    · split
      · exact h.modifyJob id _
      · exact (h.modifyJob id _).pipelineFinish hin id

theorem Appends.dispatch (h : Appends s t) (id : ℕ) : Appends s (dispatch env t id) := by
  have hin : ∀ {s t : Jobs}, Appends s t → ∀ id, Appends s (Jobs.executeIn t id) :=
    fun h id => h.executeIn id
  have hread : Appends s (if t.server then t.note (.peerRead id) else t) := by
    split
    · exact h.note fun _ => by simp
    · exact h
  have hsend : Appends s ((if t.server then t.note (.peerRead id) else t).note
      (.adapterSend id)) := hread.note fun _ => by simp
  simp only [Jobs.dispatch]
  split
  · exact hsend.pipelineNext hin id
  · exact (hsend.modifyJob id _).pipelineFinish hin id

theorem Appends.complete (h : Appends s t) (id : ℕ) : Appends s (complete t id) := by
  simp only [Jobs.complete]
  split
  · exact h
  · split
    · exact h.release id
    · exact (h.modifyJob id _).note fun _ => by simp

theorem Appends.executeCurrentTask (h : Appends s t) (id : ℕ) :
    Appends s (executeCurrentTask env t id) := by
  simp only [Jobs.executeCurrentTask]
  split
  · exact h
  · split
    · exact h.process id
    · exact h.dispatch id
    · exact h.complete id

theorem Appends.advance (h : Appends s t) : Appends s (advance env t) := by
  simp only [Jobs.advance]
  split
  · exact h.of_log rfl
  · next task rest _ =>
      have hnext : Appends s { t with queue := rest, current := some task } := h.of_log rfl
      cases task with
      | job id => exact hnext.executeCurrentTask id
      | other id => exact hnext

theorem Appends.drain (h : Appends s t) (id : ℕ) : Appends s (drain env t id) := by
  have hqueued : Appends s { t.enqueue (.job id) with outer := some id } := h.of_log rfl
  exact hqueued.advance

theorem Appends.resume (h : Appends s t) : Appends s (resume env t) := by
  simp only [Jobs.resume]
  split
  · exact h
  · have houter : Appends s { t with outer := none } := h.of_log rfl
    split
    · exact houter
    · split
      · exact (houter.setPipeline _ _).drain _
      · exact houter.setPipeline _ _

theorem Appends.execute (h : Appends s t) (id : ℕ) : Appends s (execute env t id) := by
  simp only [Jobs.execute]
  split
  · exact h.executeIn id
  · exact (h.modifyJob id _).drain id

theorem Appends.proceed (h : Appends s t) : Appends s (proceed env t) := by
  simp only [Jobs.proceed]
  split
  · exact h.advance
  · exact h.advance.resume

theorem appends_step (s : Jobs) (i : JobInput)
    (hi : ∀ id kind noCrypt workerRequired, i.event ≠ .submit id kind noCrypt workerRequired) :
    Appends s (step s i) := by
  obtain ⟨env, event⟩ := i
  cases event with
  | submit id kind noCrypt workerRequired => exact absurd rfl (hi id kind noCrypt workerRequired)
  | cancel id =>
      simp only [Jobs.step]
      split
      · exact .refl s
      · exact ((Appends.refl s).modifyJob id _).note fun _ => by simp
  | other id =>
      simp only [Jobs.step]
      split
      · exact (Appends.refl s).enqueue _
      · exact ((Appends.refl s).enqueue _).advance
  | workerDone id canceled success =>
      simp only [Jobs.step]
      split
      · exact .refl s
      · split
        · exact ((Appends.refl s).modifyJob id _).processComplete (fun h id => h.execute id) id _ _
        · exact .refl s
  | finish =>
      simp only [Jobs.step]
      split
      · exact .refl s
      · exact (Appends.refl s).proceed
      · split
        · exact (Appends.refl s).proceed
        · split
          · exact ((Appends.refl s).release _).proceed
          · exact (Appends.refl s).proceed

theorem appends_submit (s : Jobs) (env : JobEnv) {id : ℕ} (hfresh : s.Fresh id) (kind : JobKind)
    (noCrypt workerRequired : Bool) :
    ∃ new, (step s ⟨env, .submit id kind noCrypt workerRequired⟩).log =
      s.log ++ .submitted id :: new ∧ ∀ other, .submitted other ∉ new := by
  set t : Jobs := { s with
    jobs := Function.update s.jobs id (some (.init kind noCrypt workerRequired)) }.note
      (.submitted id) with ht
  have happends : Appends t (execute env t id) := (Appends.refl t).execute id
  obtain ⟨new, hlog, hnew⟩ := happends
  refine ⟨new, ?_, hnew⟩
  simp only [Jobs.step, if_pos hfresh]
  rw [← ht, hlog, ht, Jobs.note, List.append_assoc]
  rfl

end Log

end Jobs

namespace Ownership

section Lists

variable {peers : List PeerHold} {b : Belonging}

theorem mem_map_peer {f : PeerHold → PeerHold} {p : ℕ} (hf : ∀ peer, (f peer).id = peer.id)
    {peer' : PeerHold} :
    peer' ∈ peers.map (fun peer => if peer.id = p then f peer else peer) ↔
      ∃ peer ∈ peers, peer'.id = peer.id ∧ peer' = if peer'.id = p then f peer else peer := by
  rw [List.mem_map]
  constructor
  · rintro ⟨peer, hpeer, rfl⟩
    by_cases hp : peer.id = p
    · exact ⟨peer, hpeer, by rw [if_pos hp, hf], by rw [if_pos hp, if_pos ((hf peer).trans hp)]⟩
    · exact ⟨peer, hpeer, by rw [if_neg hp], by rw [if_neg hp, if_neg hp]⟩
  · rintro ⟨peer, hpeer, hid, heq⟩
    refine ⟨peer, hpeer, ?_⟩
    rw [← hid]
    exact heq.symm

theorem map_key_map {f : PeerHold → PeerHold} (hf : ∀ peer, (f peer).key = peer.key) (p : ℕ) :
    (peers.map fun peer => if peer.id = p then f peer else peer).map PeerHold.key =
      peers.map PeerHold.key := by
  rw [List.map_map]
  refine List.map_congr_left fun peer _ => ?_
  rw [Function.comp_apply]
  split
  · exact hf peer
  · rfl

theorem map_id_of_key {peers' : List PeerHold}
    (h : peers'.map PeerHold.key = peers.map PeerHold.key) :
    peers'.map PeerHold.id = peers.map PeerHold.id := by
  have hfst := congrArg (List.map Prod.fst) h
  rwa [List.map_map, List.map_map] at hfst

theorem countP_of_key {peers' : List PeerHold}
    (h : peers'.map PeerHold.key = peers.map PeerHold.key) (context : ℕ) :
    peers'.countP (·.cryptoContext = context) = peers.countP (·.cryptoContext = context) := by
  have hcount := congrArg (List.countP fun key => decide (key.2 = context)) h
  rwa [List.countP_map, List.countP_map] at hcount

theorem mem_lists_push {peer : PeerHold} {kind kind' : JobKind} {id id' : ℕ} :
    id' ∈ (peer.push kind id).lists kind' ↔ id' ∈ peer.lists kind' ∨ kind' = kind ∧ id' = id := by
  by_cases hkind : kind' = kind
  · subst hkind
    simp [PeerHold.push]
  · simp [PeerHold.push, hkind]

theorem mem_lists_remove {peer : PeerHold} {kind kind' : JobKind} {id id' : ℕ} :
    id' ∈ (peer.remove kind id).lists kind' ↔
      id' ∈ peer.lists kind' ∧ ¬ (kind' = kind ∧ id' = id) := by
  by_cases hkind : kind' = kind
  · subst hkind
    simp [PeerHold.remove]
  · simp [PeerHold.remove, hkind]

theorem map_key_removeEntry :
    (removeEntry peers b).map PeerHold.key = peers.map PeerHold.key := by
  unfold removeEntry
  split
  · rfl
  · exact map_key_map (f := fun peer => peer.remove b.kind b.id) (fun _ => rfl) _

theorem mem_removeEntry {peer' : PeerHold} (h : peer' ∈ removeEntry peers b) :
    ∃ peer ∈ peers, peer'.id = peer.id ∧ ∀ kind id, id ∈ peer'.lists kind ↔
      id ∈ peer.lists kind ∧ ¬ (b.entry = some peer.id ∧ kind = b.kind ∧ id = b.id) := by
  unfold removeEntry at h
  split at h
  · next hentry => exact ⟨peer', h, rfl, fun kind id => by simp [hentry]⟩
  · next p hentry =>
      obtain ⟨peer, hpeer, hid, heq⟩ :=
        (mem_map_peer (f := fun peer => peer.remove b.kind b.id) fun _ => rfl).mp h
      refine ⟨peer, hpeer, hid, fun kind id => ?_⟩
      rw [heq, hentry]
      by_cases hp : peer'.id = p
      · rw [if_pos hp, mem_lists_remove, ← hid, hp]
        simp
      · rw [if_neg hp, ← hid]
        simp [Ne.symm hp]

theorem map_id_clearEntry (id : ℕ) (bs : List Belonging) :
    (bs.map (clearEntry id)).map Belonging.id = bs.map Belonging.id := by
  rw [List.map_map]
  refine List.map_congr_left fun other _ => ?_
  rw [Function.comp_apply, clearEntry]
  split <;> rfl

end Lists

section Held

/-- The number of peers, senders and receivers that hold a crypto context. -/
def holders (s : Ownership) (context : ℕ) : ℕ :=
  s.peers.countP (·.cryptoContext = context) + s.inFlight.countP (·.cryptoContext = context)

/-- Every crypto context that was acquired is referred to by its holders or was given back; every
packet is in use or was given back, and twice only if its sender was refused; the lists of the
peers are those of their senders and receivers, and every entry is in a list of a peer. -/
structure Held (s : Ownership) : Prop where
  ids : (s.inFlight.map Belonging.id).Nodup
  old : ∀ b ∈ s.inFlight, b.id < s.nextJob
  contexts : ∃ live, Ledger.Balanced live s.contextsBack s.nextContext ∧
    ∀ context, context ∈ live ↔ 0 < s.contextRefs context
  refs : ∀ context, s.contextRefs context = s.holders context
  packets : ∃ once, Ledger.Balanced (s.inFlight.map Belonging.packet) once s.nextPacket ∧
    s.packetsBack.Perm (once ++ s.refused) ∧ s.refused.Nodup ∧ ∀ packet ∈ s.refused, packet ∈ once
  buffers : ∀ buffer, s.bufferRefs buffer = s.inFlight.countP (·.buffer = buffer)
  peers : (s.peers.map PeerHold.id).Nodup
  below : ∀ peer ∈ s.peers, peer.id < s.nextPeer
  lists : ∀ peer ∈ s.peers, ∀ kind id, id ∈ peer.lists kind ↔
    ∃ b ∈ s.inFlight, b.id = id ∧ b.kind = kind ∧ b.entry = some peer.id
  entries : ∀ b ∈ s.inFlight, ∀ p, b.entry = some p → p ∈ s.peers.map PeerHold.id

theorem held_start (server : Bool) : Held (start server) where
  ids := List.nodup_nil
  old := by simp [start]
  contexts := ⟨[], Ledger.Balanced.nil, by simp [start]⟩
  refs _ := rfl
  packets := ⟨[], Ledger.Balanced.nil, List.Perm.refl _, List.nodup_nil, by simp [start]⟩
  buffers _ := rfl
  peers := List.nodup_nil
  below := by simp [start]
  lists := by simp [start]
  entries := by simp [start]

namespace Held

variable {s : Ownership} {b : Belonging}

theorem eq_of_id (h : Held s) (hb : b ∈ s.inFlight) {other : Belonging}
    (hother : other ∈ s.inFlight) (hid : other.id = b.id) : other = b :=
  List.inj_on_of_nodup_map h.ids hother hb hid

theorem perm (h : Held s) (hb : b ∈ s.inFlight) :
    s.inFlight.Perm (b :: s.inFlight.filter fun other => other.id ≠ b.id) :=
  Ledger.perm_cons_filter h.ids hb

theorem refs_pos (h : Held s) (hb : b ∈ s.inFlight) : 0 < s.contextRefs b.cryptoContext := by
  have hpos : 0 < s.inFlight.countP (·.cryptoContext = b.cryptoContext) :=
    List.countP_pos_iff.mpr ⟨b, hb, by simp⟩
  rw [h.refs, holders]
  omega

theorem contexts_unref (h : Held s) {context : ℕ} (hpos : 0 < s.contextRefs context) :
    ∃ live, Ledger.Balanced live (s.unrefContext context).contextsBack s.nextContext ∧
      ∀ other, other ∈ live ↔ 0 < (s.unrefContext context).contextRefs other := by
  obtain ⟨live, hbalanced, hlive⟩ := h.contexts
  dsimp only [unrefContext]
  by_cases hone : s.contextRefs context = 1
  · refine ⟨live.filter (· ≠ context), ?_, fun other => ?_⟩
    · rw [if_pos hone]
      exact hbalanced.settle ((hlive context).mpr hpos)
    · rw [List.mem_filter, hlive other]
      by_cases heq : other = context
      · subst heq
        simp [hone]
      · simp [heq]
  · refine ⟨live, ?_, fun other => ?_⟩
    · rw [if_neg hone]
      exact hbalanced
    · rw [hlive other]
      by_cases heq : other = context
      · subst heq
        rw [Function.update_self]
        omega
      · rw [Function.update_of_ne heq]

theorem perm_release {back once refused : List ℕ} (h : back.Perm (once ++ refused)) (packet : ℕ) :
    (back ++ [packet]).Perm (once ++ [packet] ++ refused) := by
  have hcomm : (once ++ refused ++ [packet]).Perm (once ++ [packet] ++ refused) := by
    rw [List.append_assoc, List.append_assoc]
    exact List.perm_append_comm.append_left once
  exact (h.append_right _).trans hcomm

/-- A job whose entry is removed. -/
theorem unlist (h : Held s) (id : ℕ) : Held (s.unlist id) := by
  unfold Ownership.unlist
  split
  · exact h
  · next b hfind =>
      have hb := List.mem_of_find?_eq_some hfind
      obtain rfl : b.id = id := by simpa using List.find?_some hfind
      have hids := map_id_clearEntry b.id s.inFlight
      have hpackets : (s.inFlight.map (clearEntry b.id)).map Belonging.packet =
          s.inFlight.map Belonging.packet := by
        rw [List.map_map]
        refine List.map_congr_left fun other _ => ?_
        rw [Function.comp_apply, clearEntry]
        split <;> rfl
      have hcontexts : ∀ context, (s.inFlight.map (clearEntry b.id)).countP
          (·.cryptoContext = context) = s.inFlight.countP (·.cryptoContext = context) := by
        intro context
        rw [List.countP_map]
        refine List.countP_congr fun other _ => ?_
        rw [Function.comp_apply, clearEntry]
        split <;> rfl
      have hbuffers : ∀ buffer, (s.inFlight.map (clearEntry b.id)).countP
          (·.buffer = buffer) = s.inFlight.countP (·.buffer = buffer) := by
        intro buffer
        rw [List.countP_map]
        refine List.countP_congr fun other _ => ?_
        rw [Function.comp_apply, clearEntry]
        split <;> rfl
      refine ⟨by rw [hids]; exact h.ids, fun other hother => ?_, h.contexts, fun context => ?_,
        ?_, fun buffer => ?_, by rw [map_id_of_key map_key_removeEntry]; exact h.peers,
        fun peer hpeer => ?_,
        fun peer hpeer kind id => ?_, fun other hother p hentry => ?_⟩
      · have hmem : other.id ∈ s.inFlight.map Belonging.id :=
          hids ▸ List.mem_map_of_mem hother
        obtain ⟨before, hbefore, hid⟩ := List.mem_map.mp hmem
        rw [← hid]
        exact h.old before hbefore
      · rw [h.refs, holders, holders, hcontexts, countP_of_key map_key_removeEntry]
      · rw [hpackets]
        exact h.packets
      · rw [h.buffers, hbuffers]
      · obtain ⟨old, hold, hid, -⟩ := mem_removeEntry hpeer
        rw [hid]
        exact h.below old hold
      · obtain ⟨old, hold, hid, hlists⟩ := mem_removeEntry hpeer
        rw [hlists, h.lists old hold, hid]
        constructor
        · rintro ⟨⟨other, hother, rfl, rfl, hentry⟩, hne⟩
          have hdiffer : other.id ≠ b.id := fun heq => by
            obtain rfl := h.eq_of_id hb hother heq
            exact hne ⟨hentry, rfl, rfl⟩
          refine ⟨other, List.mem_map.mpr ⟨other, hother, ?_⟩, rfl, rfl, hentry⟩
          rw [clearEntry, if_neg hdiffer]
        · rintro ⟨other, hother, rfl, rfl, hentry⟩
          obtain ⟨before, hbefore, rfl⟩ := List.mem_map.mp hother
          by_cases heq : before.id = b.id
          · rw [clearEntry, if_pos heq] at hentry
            cases hentry
          · rw [clearEntry, if_neg heq] at hentry ⊢
            exact ⟨⟨before, hbefore, rfl, rfl, hentry⟩, fun hall => heq hall.2.2⟩
      · rw [map_id_of_key map_key_removeEntry]
        obtain ⟨before, hbefore, rfl⟩ := List.mem_map.mp hother
        by_cases heq : before.id = b.id
        · rw [clearEntry, if_pos heq] at hentry
          cases hentry
        · rw [clearEntry, if_neg heq] at hentry
          exact h.entries before hbefore p hentry

theorem cleanup (h : Held s) (id : ℕ) : Held (s.cleanup id) := by
  unfold Ownership.cleanup
  split
  · exact h
  · next b hfind =>
      have hb := List.mem_of_find?_eq_some hfind
      obtain rfl : b.id = id := by simpa using List.find?_some hfind
      have hperm := h.perm hb
      have hmem : ∀ other, other ∈ s.inFlight.filter (fun other => other.id ≠ b.id) ↔
          other ∈ s.inFlight ∧ other.id ≠ b.id := by simp [List.mem_filter]
      refine ⟨h.ids.sublist (List.filter_sublist.map _),
        fun other hother => h.old other ((hmem other).mp hother).1,
        h.contexts_unref (h.refs_pos hb), fun context => ?_, ?_, fun buffer => ?_,
        by rw [map_id_of_key map_key_removeEntry]; exact h.peers,
        fun peer hpeer => ?_, fun peer hpeer kind id => ?_, fun other hother p hentry => ?_⟩
      · have hcount := hperm.countP_eq (·.cryptoContext = context)
        have hrefs := h.refs context
        rw [holders, hcount, List.countP_cons] at hrefs
        rw [holders, countP_of_key map_key_removeEntry]
        dsimp only [releasePacket, unrefBuffer, unrefContext]
        by_cases heq : context = b.cryptoContext
        · subst heq
          rw [Function.update_self, hrefs]
          simp
        · rw [Function.update_of_ne heq, hrefs]
          simp [Ne.symm heq]
      · obtain ⟨once, hbalanced, hback, hrefused, honce⟩ := h.packets
        refine ⟨once ++ [b.packet], ?_, ?_, hrefused, fun packet hpacket =>
          List.mem_append_left _ (honce packet hpacket)⟩
        · have hpackets := hperm.map Belonging.packet
          rw [List.map_cons] at hpackets
          exact (hbalanced.of_perm hpackets.symm).settle_head
        · exact perm_release hback b.packet
      · have hcount := hperm.countP_eq (·.buffer = buffer)
        have hrefs := h.buffers buffer
        rw [hcount, List.countP_cons] at hrefs
        dsimp only [releasePacket, unrefBuffer, unrefContext]
        by_cases heq : buffer = b.buffer
        · subst heq
          rw [Function.update_self, hrefs]
          simp
        · rw [Function.update_of_ne heq, hrefs]
          simp [Ne.symm heq]
      · obtain ⟨old, hold, hid, -⟩ := mem_removeEntry hpeer
        rw [hid]
        exact h.below old hold
      · obtain ⟨old, hold, hid, hlists⟩ := mem_removeEntry hpeer
        rw [hlists, h.lists old hold, hid]
        constructor
        · rintro ⟨⟨other, hother, rfl, rfl, hentry⟩, hne⟩
          refine ⟨other, (hmem other).mpr ⟨hother, fun heq => ?_⟩, rfl, rfl, hentry⟩
          obtain rfl := h.eq_of_id hb hother heq
          exact hne ⟨hentry, rfl, rfl⟩
        · rintro ⟨other, hother, rfl, rfl, hentry⟩
          obtain ⟨hbefore, hne⟩ := (hmem other).mp hother
          exact ⟨⟨other, hbefore, rfl, rfl, hentry⟩, fun hall => hne hall.2.2⟩
      · rw [map_id_of_key map_key_removeEntry]
        exact h.entries other ((hmem other).mp hother).1 p hentry

theorem withJobs (h : Held s) (jobs : Jobs) : Held { s with jobs := jobs } :=
  ⟨h.ids, h.old, h.contexts, h.refs, h.packets, h.buffers, h.peers, h.below, h.lists, h.entries⟩

theorem absorb (h : Held s) (effect : JobEffect) : Held (s.absorb effect) := by
  cases effect with
  | released id => exact h.cleanup id
  | canceled id => exact h.unlist id
  | handled id =>
      simp only [Ownership.absorb]
      split
      · exact h
      · split
        · exact h.unlist id
        · exact h
  | submitted id => exact h
  | peerRead id => exact h
  | adapterSend id => exact h

theorem releaseNew (h : Held s) :
    Held ({ s with nextPacket := s.nextPacket + 1 }.releasePacket s.nextPacket) := by
  obtain ⟨once, hbalanced, hback, hrefused, honce⟩ := h.packets
  refine ⟨h.ids, h.old, h.contexts, h.refs, ⟨once ++ [s.nextPacket], ?_, ?_, hrefused, ?_⟩,
    h.buffers, h.peers, h.below, h.lists, h.entries⟩
  · exact hbalanced.issue_cons.settle_head
  · exact perm_release hback s.nextPacket
  · exact fun packet hpacket => List.mem_append_left _ (honce packet hpacket)

theorem refuse (h : Held s) {packet : ℕ} (hback : packet ∈ s.packetsBack)
    (hnew : packet ∉ s.refused) :
    Held { s.releasePacket packet with refused := s.refused ++ [packet] } := by
  obtain ⟨once, hbalanced, hperm, hrefused, honce⟩ := h.packets
  have hmem : packet ∈ once := by
    rcases List.mem_append.mp (hperm.mem_iff.mp hback) with hmem | hmem
    · exact hmem
    · exact honce packet hmem
  refine ⟨h.ids, h.old, h.contexts, h.refs, ⟨once, hbalanced, ?_, ?_, ?_⟩, h.buffers, h.peers,
    h.below, h.lists, h.entries⟩
  · have hboth := hperm.append_right [packet]
    rwa [List.append_assoc] at hboth
  · exact hrefused.append (List.nodup_singleton packet) (by simpa using hnew)
  · intro other hother
    rcases List.mem_append.mp hother with hold | hlast
    · exact honce other hold
    · rw [List.mem_singleton.mp hlast]
      exact hmem

theorem not_mem_refused (h : Held s) : s.nextPacket ∉ s.refused := by
  obtain ⟨once, hbalanced, -, -, honce⟩ := h.packets
  exact fun hmem => Nat.lt_irrefl _ (hbalanced.lt_of_settled (honce _ hmem))

theorem peer_refs_pos (h : Held s) {peer : PeerHold} (hpeer : peer ∈ s.peers) :
    0 < s.contextRefs peer.cryptoContext := by
  have hpos : 0 < s.peers.countP (·.cryptoContext = peer.cryptoContext) :=
    List.countP_pos_iff.mpr ⟨peer, hpeer, by simp⟩
  rw [h.refs, holders]
  omega

/-- A new sender or receiver of a peer. -/
theorem hold (h : Held s) {peer : PeerHold} (hpeer : peer ∈ s.peers) (kind : JobKind)
    (buffer : ℕ) :
    Held { (s.refContext peer.cryptoContext).refBuffer buffer with
      nextPacket := s.nextPacket + 1
      peers := s.peers.map fun other =>
        if other.id = peer.id then other.push kind s.nextJob else other
      inFlight := s.inFlight ++
        [⟨s.nextJob, kind, some peer.id, peer.cryptoContext, s.nextPacket, buffer⟩]
      nextJob := s.nextJob + 1 } := by
  have hkeys : (s.peers.map fun other =>
      if other.id = peer.id then other.push kind s.nextJob else other).map PeerHold.key =
        s.peers.map PeerHold.key :=
    map_key_map (f := fun other => other.push kind s.nextJob) (fun _ => rfl) peer.id
  have hpos := h.peer_refs_pos hpeer
  refine ⟨?_, fun b hb => ?_, ?_, fun context => ?_, ?_, fun other => ?_,
    by rw [map_id_of_key hkeys]; exact h.peers, fun other hother => ?_,
    fun other hother kind' id => ?_, fun b hb p hentry => ?_⟩
  · rw [List.map_append]
    refine h.ids.append (List.nodup_singleton _) ?_
    rw [List.map_singleton, List.disjoint_singleton]
    intro hmem
    obtain ⟨b, hb, hid⟩ := List.mem_map.mp hmem
    exact absurd (h.old b hb) (by rw [hid]; exact Nat.lt_irrefl _)
  · rcases List.mem_append.mp hb with hb | hb
    · exact Nat.lt_succ_of_lt (h.old b hb)
    · rw [List.mem_singleton.mp hb]
      exact Nat.lt_succ_self _
  · obtain ⟨live, hbalanced, hlive⟩ := h.contexts
    refine ⟨live, hbalanced, fun context => ?_⟩
    rw [hlive context]
    dsimp only [refContext, refBuffer]
    by_cases heq : context = peer.cryptoContext
    · subst heq
      rw [Function.update_self]
      omega
    · rw [Function.update_of_ne heq]
  · have hrefs := h.refs context
    rw [holders] at hrefs
    rw [holders, countP_of_key hkeys, List.countP_append, List.countP_singleton]
    dsimp only [refContext, refBuffer]
    by_cases heq : context = peer.cryptoContext
    · subst heq
      rw [Function.update_self, hrefs]
      simp [Nat.add_assoc]
    · rw [Function.update_of_ne heq, hrefs]
      simp [Ne.symm heq]
  · obtain ⟨once, hbalanced, hrest⟩ := h.packets
    refine ⟨once, ?_, hrest⟩
    rw [List.map_append]
    exact hbalanced.issue
  · have hrefs := h.buffers other
    rw [List.countP_append, List.countP_singleton]
    dsimp only [refContext, refBuffer]
    by_cases heq : other = buffer
    · subst heq
      rw [Function.update_self, hrefs]
      simp
    · rw [Function.update_of_ne heq, hrefs]
      simp [Ne.symm heq]
  · obtain ⟨old, hold, hid, -⟩ :=
      (mem_map_peer (f := fun other => other.push kind s.nextJob) fun _ => rfl).mp hother
    rw [hid]
    exact h.below old hold
  · obtain ⟨old, hold, hid, heq⟩ :=
      (mem_map_peer (f := fun other => other.push kind s.nextJob) fun _ => rfl).mp hother
    have hbefore := h.lists old hold kind' id
    simp only [List.mem_append, List.mem_singleton, or_and_right, exists_or, hid]
    rw [heq]
    by_cases hp : other.id = peer.id
    · rw [if_pos hp, mem_lists_push, hbefore]
      rw [hid] at hp
      refine or_congr Iff.rfl ⟨?_, ?_⟩
      · rintro ⟨rfl, rfl⟩
        exact ⟨_, rfl, rfl, rfl, by rw [hp]⟩
      · rintro ⟨b, rfl, rfl, rfl, -⟩
        exact ⟨rfl, rfl⟩
    · rw [if_neg hp, hbefore]
      refine (or_iff_left ?_).symm
      rintro ⟨b, rfl, -, -, hentry⟩
      exact hp (hid.trans (Option.some.inj hentry).symm)
  · rw [map_id_of_key hkeys]
    rcases List.mem_append.mp hb with hb | hb
    · exact h.entries b hb p hentry
    · rw [List.mem_singleton.mp hb] at hentry
      exact Option.some.inj hentry ▸ List.mem_map_of_mem hpeer

theorem unref_ref {context : ℕ} (hpos : 0 < s.contextRefs context) :
    (s.refContext context).unrefContext context = s := by
  simp [refContext, unrefContext, hpos.ne']

theorem unref_ref_buffer {context : ℕ} (hpos : 0 < s.contextRefs context) (buffer : ℕ) :
    (((s.refContext context).refBuffer buffer).unrefContext context).unrefBuffer buffer = s := by
  simp [refContext, unrefContext, refBuffer, unrefBuffer, hpos.ne']

theorem acquirePeer (h : Held s) (context : Bool) : Held (s.acquirePeer context) := by
  unfold Ownership.acquirePeer
  split
  · exact h
  obtain ⟨live, hbalanced, hlive⟩ := h.contexts
  have hzero : s.contextRefs s.nextContext = 0 := by
    by_contra hne
    exact Nat.lt_irrefl _ (hbalanced.lt_of_pending ((hlive _).mpr (Nat.pos_of_ne_zero hne)))
  have hholders := h.refs s.nextContext
  rw [hzero, holders] at hholders
  refine ⟨h.ids, h.old, ⟨live ++ [s.nextContext], hbalanced.issue, fun context => ?_⟩,
    fun context => ?_, h.packets, h.buffers, ?_, fun peer hpeer => ?_,
    fun peer hpeer kind id => ?_, fun b hb p hentry => ?_⟩
  · rw [List.mem_append, List.mem_singleton, hlive context]
    by_cases heq : context = s.nextContext
    · subst heq
      simp
    · simp [heq]
  · have hrefs := h.refs context
    rw [holders] at hrefs
    rw [holders, List.countP_append, List.countP_singleton]
    dsimp only
    by_cases heq : context = s.nextContext
    · subst heq
      rw [Function.update_self]
      simp
      omega
    · rw [Function.update_of_ne heq, hrefs]
      simp [Ne.symm heq]
  · rw [List.map_append]
    refine h.peers.append (List.nodup_singleton _) ?_
    rw [List.map_singleton, List.disjoint_singleton]
    intro hmem
    obtain ⟨peer, hpeer, hid⟩ := List.mem_map.mp hmem
    exact absurd (h.below peer hpeer) (by rw [hid]; exact Nat.lt_irrefl _)
  · rcases List.mem_append.mp hpeer with hpeer | hpeer
    · exact Nat.lt_succ_of_lt (h.below peer hpeer)
    · rw [List.mem_singleton.mp hpeer]
      exact Nat.lt_succ_self _
  · rcases List.mem_append.mp hpeer with hpeer | hpeer
    · exact h.lists peer hpeer kind id
    · rw [List.mem_singleton.mp hpeer]
      refine iff_of_false List.not_mem_nil ?_
      rintro ⟨b, hb, -, -, hentry⟩
      obtain ⟨peer, hold, hid⟩ := List.mem_map.mp (h.entries b hb _ hentry)
      exact absurd (h.below peer hold) (by rw [hid]; exact Nat.lt_irrefl _)
  · rw [List.map_append]
    exact List.mem_append_left _ (h.entries b hb p hentry)

theorem dropPeer (h : Held s) {peer : PeerHold} (hpeer : peer ∈ s.peers)
    (hnone : ∀ b ∈ s.inFlight, b.entry ≠ some peer.id) :
    Held { s.unrefContext peer.cryptoContext with
      peers := s.peers.filter fun other => other.id ≠ peer.id } := by
  have hperm := Ledger.perm_cons_filter h.peers hpeer
  have hmem : ∀ other, other ∈ s.peers.filter (fun other => other.id ≠ peer.id) ↔
      other ∈ s.peers ∧ other.id ≠ peer.id := by simp [List.mem_filter]
  refine ⟨h.ids, h.old, h.contexts_unref (h.peer_refs_pos hpeer), fun context => ?_, h.packets,
    h.buffers, h.peers.sublist (List.filter_sublist.map _),
    fun other hother => h.below other ((hmem other).mp hother).1,
    fun other hother => h.lists other ((hmem other).mp hother).1, fun b hb p hentry => ?_⟩
  · have hcount := hperm.countP_eq (·.cryptoContext = context)
    have hrefs := h.refs context
    rw [holders, hcount, List.countP_cons] at hrefs
    rw [holders]
    dsimp only [unrefContext]
    by_cases heq : context = peer.cryptoContext
    · subst heq
      rw [Function.update_self, hrefs]
      simp
    · rw [Function.update_of_ne heq, hrefs]
      simp [Ne.symm heq]
  · obtain ⟨other, hother, hid⟩ := List.mem_map.mp (h.entries b hb p hentry)
    refine List.mem_map.mpr ⟨other, (hmem other).mpr ⟨hother, fun heq => ?_⟩, hid⟩
    exact hnone b hb (by rw [hentry, ← hid, heq])

end Held

end Held

end Ownership

end Protocol

end PomeloUdp
