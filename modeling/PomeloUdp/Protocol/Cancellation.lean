import PomeloUdp.Protocol.Pipeline

/-!
# Senders and receivers that are cancelled

Every stage but `pomelo_protocol_sender_dispatch` looks at the flag of the cancellation.
A sender that is cancelled while its dispatch is due is sent all the same, and in a server
its peer is read through the pointer that was cleared. `silent_run` says that this is the
only way, and that each sender and receiver is released exactly once in any case.
-/

namespace PomeloUdp

namespace Protocol

open Base (Pipeline)

open Machine

/-- The dispatch of a sender is due: it is in the queue, or the outer pipeline is to
submit it. -/
def Job.Armed (job : Job) : Prop :=
  job.kind = .sender ∧
    (job.pipeline.taskIndex = 1 ∧ job.pipeline.next = false ∧ job.pipeline.finish = false ∨
      job.pipeline.taskIndex = 0 ∧ job.pipeline.next = true)

instance (job : Job) : Decidable job.Armed := by
  unfold Job.Armed
  infer_instance

/-- Every packet is processed and sent. -/
def JobEnv.plain : JobEnv := ⟨true, true, true⟩

namespace Jobs

/-- Nothing of the kind `e` happens to a job that was cancelled. -/
def Quiet (e : ℕ → JobEffect) (log : List JobEffect) : Prop :=
  ∀ id before after, log = before ++ e id :: after → .canceled id ∉ before

theorem quiet_nil (e : ℕ → JobEffect) : Quiet e [] := by
  intro id before after h
  simp at h

theorem Quiet.concat {e : ℕ → JobEffect} {log : List JobEffect} (h : Quiet e log)
    {effect : JobEffect} (heffect : ∀ id, effect = e id → .canceled id ∉ log) :
    Quiet e (log ++ [effect]) := by
  intro id before after heq
  rcases List.eq_nil_or_concat after with rfl | ⟨after, last, rfl⟩
  · have hlast : effect = e id := by simpa using List.append_inj_right' heq rfl
    rw [← List.append_inj_left' heq rfl]
    exact heffect id hlast
  · rw [List.concat_eq_append, ← List.cons_append, ← List.append_assoc] at heq
    exact h id before after (List.append_inj_left' heq rfl)

/-- A pipeline without requests. -/
def Idle (p : Pipeline) : Prop := p.next = false ∧ p.finish = false

/-- Where a job waits for its next stage: in the queue, at a worker, in the outer pipeline
that is to submit it again, or for the handlers of the socket to return. `queued`, `outer`
and `current` say where its name is in the state of the sequencer. -/
inductive Placed (queued outer current : Prop) (job : Job) : Prop where
  | queued (place : queued) (inner : ¬ outer) (free : job.pipeline.busy = false)
      (idle : Idle job.pipeline) (worker : job.worker = false) (handling : job.handling = false)
  | working (place : ¬ queued) (busy : job.pipeline.busy = true ↔ outer) (idle : Idle job.pipeline)
      (worker : job.worker = true) (index : job.pipeline.taskIndex = 0)
      (handling : job.handling = false)
  | requested (place : ¬ queued) (outer : outer) (busy : job.pipeline.busy = true)
      (request : job.pipeline.next ≠ job.pipeline.finish)
      (index : job.pipeline.taskIndex ≠ job.pipeline.last) (worker : job.worker = false)
      (handling : job.handling = false)
  | handled (place : ¬ queued) (current : current) (busy : job.pipeline.busy = true ↔ outer)
      (idle : Idle job.pipeline) (worker : job.worker = false) (handling : job.handling = true)
      (index : job.pipeline.taskIndex = job.pipeline.last)

/-- A job whose stage begins. -/
structure Bare (queued outer : Prop) (job : Job) : Prop where
  place : ¬ queued
  busy : job.pipeline.busy = true ↔ outer
  idle : Idle job.pipeline
  worker : job.worker = false
  handling : job.handling = false

/-- The names and counts of a run up to now, in which the stage of `bare` begins. `A` says
that no cancellation is late. -/
structure Tracked (A : Prop) (bare : Option ℕ) (s : Jobs) : Prop where
  nodup : s.queue.Nodup
  live : ∀ id, .job id ∈ s.queue → ∃ job, s.jobs id = some job
  placed : ∀ id job, s.jobs id = some job → bare ≠ some id →
    Placed (.job id ∈ s.queue) (s.outer = some id) (s.current = some (.job id)) job
  bared : ∀ id job, s.jobs id = some job → bare = some id →
    Bare (.job id ∈ s.queue) (s.outer = some id) job
  count : ∀ id job, s.jobs id = some job → job.pipeline.taskCount = job.kind.taskCount
  range : ∀ id job, s.jobs id = some job → job.pipeline.taskIndex ≤ job.pipeline.last
  known : ∀ id job, s.jobs id = some job → .submitted id ∈ s.log
  outer : ∀ id, s.outer = some id → .submitted id ∈ s.log
  released : ∀ id, s.log.count (.released id) =
    if .submitted id ∈ s.log ∧ s.jobs id = none then 1 else 0
  canceled : ∀ id job, s.jobs id = some job → .canceled id ∈ s.log → job.canceled = true
  old : ∀ id, .canceled id ∈ s.log → .submitted id ∈ s.log
  calm : A → ∀ id job, s.jobs id = some job → job.canceled = true → ¬ job.Armed
  handledQuiet : Quiet .handled s.log
  sendQuiet : A → Quiet .adapterSend s.log
  readQuiet : A → Quiet .peerRead s.log

section Writes

variable {A : Prop} {s s' : Jobs} {id : ℕ} {job : Job}

/-- A job is written, and takes a place or begins its stage. -/
theorem Tracked.replace {b : Option ℕ} (h : Tracked A b s) (hb : b = none ∨ b = some id)
    (hjob : s.jobs id = some job) (job' : Job) {b' : Option ℕ} (hb' : b' = none ∨ b' = some id)
    (hjobs : s'.jobs = Function.update s.jobs id (some job')) (hnodup : s'.queue.Nodup)
    (hqueue : ∀ t, t ≠ .job id → (t ∈ s'.queue ↔ t ∈ s.queue))
    (houter : ∀ j, j ≠ id → (s'.outer = some j ↔ s.outer = some j))
    (hcurrent : ∀ j, j ≠ id → (s'.current = some (.job j) ↔ s.current = some (.job j)))
    (hlog : s'.log = s.log)
    (hkind : job'.kind = job.kind) (hcount : job'.pipeline.taskCount = job.pipeline.taskCount)
    (hrange : job'.pipeline.taskIndex ≤ job'.pipeline.last)
    (hcanceled : job.canceled = true → job'.canceled = true)
    (hcalm : A → job'.canceled = true → ¬ job'.Armed)
    (hplaced : b' = none →
      Placed (.job id ∈ s'.queue) (s'.outer = some id) (s'.current = some (.job id)) job')
    (hbare : b' = some id → Bare (.job id ∈ s'.queue) (s'.outer = some id) job') :
    Tracked A b' s' := by
  have hself : s'.jobs id = some job' := by rw [hjobs, Function.update_self]
  have hother : ∀ j, j ≠ id → s'.jobs j = s.jobs j := fun j hj => by
    rw [hjobs, Function.update_of_ne hj]
  have hmem : ∀ j, j ≠ id → (.job j ∈ s'.queue ↔ .job j ∈ s.queue) := fun j hj =>
    hqueue _ fun heq => hj (SequencedTask.job.inj heq)
  have hne : ∀ j, j ≠ id → b ≠ some j := by
    rintro j hj rfl
    rcases hb with hb | hb
    · cases hb
    · exact hj (Option.some.inj hb)
  constructor
  · exact hnodup
  · intro j hj
    by_cases hid : j = id
    · exact ⟨job', by rw [hid, hself]⟩
    · rw [hother j hid]
      exact h.live j ((hmem j hid).mp hj)
  · intro j k hk hbj
    by_cases hid : j = id
    · subst hid
      rw [hself] at hk
      obtain rfl := Option.some.inj hk
      exact hplaced (hb'.resolve_right hbj)
    · rw [hother j hid] at hk
      have hplaced := h.placed j k hk (hne j hid)
      rw [houter j hid, hcurrent j hid, hmem j hid]
      exact hplaced
  · intro j k hk hbj
    by_cases hid : j = id
    · subst hid
      rw [hself] at hk
      obtain rfl := Option.some.inj hk
      exact hbare hbj
    · rcases hb' with rfl | rfl
      · cases hbj
      · exact absurd (Option.some.inj hbj).symm hid
  · intro j k hk
    by_cases hid : j = id
    · subst hid
      rw [hself] at hk
      obtain rfl := Option.some.inj hk
      rw [hcount, hkind]
      exact h.count j job hjob
    · exact h.count j k (by rwa [hother j hid] at hk)
  · intro j k hk
    by_cases hid : j = id
    · subst hid
      rw [hself] at hk
      obtain rfl := Option.some.inj hk
      exact hrange
    · exact h.range j k (by rwa [hother j hid] at hk)
  · intro j k hk
    rw [hlog]
    by_cases hid : j = id
    · subst hid
      exact h.known j job hjob
    · exact h.known j k (by rwa [hother j hid] at hk)
  · intro j hj
    rw [hlog]
    by_cases hid : j = id
    · subst hid
      exact h.known j job hjob
    · exact h.outer j ((houter j hid).mp hj)
  · intro j
    rw [hlog, h.released j]
    by_cases hid : j = id
    · subst hid
      simp [hself, hjob]
    · rw [hother j hid]
  · intro j k hk hc
    rw [hlog] at hc
    by_cases hid : j = id
    · subst hid
      rw [hself] at hk
      obtain rfl := Option.some.inj hk
      exact hcanceled (h.canceled j job hjob hc)
    · exact h.canceled j k (by rwa [hother j hid] at hk) hc
  · rw [hlog]
    exact h.old
  · intro hA j k hk
    by_cases hid : j = id
    · subst hid
      rw [hself] at hk
      obtain rfl := Option.some.inj hk
      exact hcalm hA
    · exact h.calm hA j k (by rwa [hother j hid] at hk)
  · rw [hlog]
    exact h.handledQuiet
  · rw [hlog]
    exact h.sendQuiet
  · rw [hlog]
    exact h.readQuiet

theorem Tracked.moved {b b' : Option ℕ} (h : Tracked A b s) (hjobs : s'.jobs = s.jobs)
    (hlog : s'.log = s.log) (houter : ∀ id, s'.outer = some id → s.outer = some id)
    (hnodup : s'.queue.Nodup) (hlive : ∀ id, .job id ∈ s'.queue → ∃ job, s.jobs id = some job)
    (hplaced : ∀ id job, s.jobs id = some job → b' ≠ some id →
      Placed (.job id ∈ s'.queue) (s'.outer = some id) (s'.current = some (.job id)) job)
    (hbared : ∀ id job, s.jobs id = some job → b' = some id →
      Bare (.job id ∈ s'.queue) (s'.outer = some id) job) : Tracked A b' s' := by
  constructor
  · exact hnodup
  · rwa [hjobs]
  · rwa [hjobs]
  · rwa [hjobs]
  · rw [hjobs]
    exact h.count
  · rw [hjobs]
    exact h.range
  · rw [hjobs, hlog]
    exact h.known
  · rw [hlog]
    exact fun id hid => h.outer id (houter id hid)
  · rw [hjobs, hlog]
    exact h.released
  · rw [hjobs, hlog]
    exact h.canceled
  · rw [hlog]
    exact h.old
  · rw [hjobs]
    exact h.calm
  · rw [hlog]
    exact h.handledQuiet
  · rw [hlog]
    exact h.sendQuiet
  · rw [hlog]
    exact h.readQuiet

theorem Tracked.note {b : Option ℕ} (h : Tracked A b s) {effect : JobEffect}
    (hsubmitted : ∀ j, effect ≠ .submitted j) (hreleased : ∀ j, effect ≠ .released j)
    (hcanceled : ∀ j, effect = .canceled j →
      .submitted j ∈ s.log ∧ ∀ k, s.jobs j = some k → k.canceled = true)
    (hhandled : ∀ j, effect = .handled j → .canceled j ∉ s.log)
    (hsend : A → ∀ j, effect = .adapterSend j → .canceled j ∉ s.log)
    (hread : A → ∀ j, effect = .peerRead j → .canceled j ∉ s.log) :
    Tracked A b (s.note effect) := by
  have hknown : ∀ j, .submitted j ∈ (s.note effect).log ↔ .submitted j ∈ s.log := fun j => by
    simp [Jobs.note, (hsubmitted j).symm]
  refine ⟨h.nodup, h.live, h.placed, h.bared, h.count, h.range, ?_, ?_, ?_, ?_, ?_, h.calm, ?_, ?_,
    ?_⟩
  · intro j k hk
    exact (hknown j).mpr (h.known j k hk)
  · intro j hj
    exact (hknown j).mpr (h.outer j hj)
  · intro j
    have hcount : (s.note effect).log.count (.released j) = s.log.count (.released j) := by
      simp [Jobs.note, hreleased j]
    simp only [hknown j, hcount]
    exact h.released j
  · intro j k hk hc
    rcases List.mem_append.mp hc with hc | hc
    · exact h.canceled j k hk hc
    · exact (hcanceled j (List.mem_singleton.mp hc).symm).2 k hk
  · intro j hc
    rw [hknown j]
    rcases List.mem_append.mp hc with hc | hc
    · exact h.old j hc
    · exact (hcanceled j (List.mem_singleton.mp hc).symm).1
  · exact h.handledQuiet.concat hhandled
  · exact fun hA => (h.sendQuiet hA).concat (hsend hA)
  · exact fun hA => (h.readQuiet hA).concat (hread hA)

theorem Tracked.release {b : Option ℕ} (h : Tracked A b s) (hjob : s.jobs id = some job)
    (hqueue : .job id ∉ s.queue) (hb : b = none ∨ b = some id) :
    Tracked A none (s.release id) := by
  have hself : (s.release id).jobs id = none := by simp [Jobs.release, Jobs.note]
  have hother : ∀ j, j ≠ id → (s.release id).jobs j = s.jobs j := fun j hj => by
    simp [Jobs.release, Jobs.note, hj]
  have hmem : ∀ j k, (s.release id).jobs j = some k → j ≠ id ∧ s.jobs j = some k := by
    intro j k hk
    have hj : j ≠ id := by
      rintro rfl
      rw [hself] at hk
      cases hk
    exact ⟨hj, by rwa [hother j hj] at hk⟩
  have hlog : (s.release id).log = s.log ++ [.released id] := rfl
  constructor
  · exact h.nodup
  · intro j hj
    have hne : j ≠ id := by
      rintro rfl
      exact hqueue hj
    rw [hother j hne]
    exact h.live j hj
  · intro j k hk _
    obtain ⟨hj, hk⟩ := hmem j k hk
    refine h.placed j k hk ?_
    rcases hb with rfl | rfl
    · simp
    · exact fun heq => hj (Option.some.inj heq).symm
  · intro j k _ hbj
    cases hbj
  · exact fun j k hk => h.count j k (hmem j k hk).2
  · exact fun j k hk => h.range j k (hmem j k hk).2
  · intro j k hk
    rw [hlog]
    exact List.mem_append_left _ (h.known j k (hmem j k hk).2)
  · intro j hj
    rw [hlog]
    exact List.mem_append_left _ (h.outer j hj)
  · intro j
    rw [hlog, List.count_append, h.released j]
    by_cases hj : j = id
    · subst hj
      simp [hself, hjob, h.known j job hjob]
    · rw [hother j hj]
      simp [Ne.symm hj]
  · intro j k hk hc
    rw [hlog] at hc
    exact h.canceled j k (hmem j k hk).2 (by simpa using hc)
  · intro j hc
    rw [hlog] at hc ⊢
    exact List.mem_append_left _ (h.old j (by simpa using hc))
  · exact fun hA j k hk => h.calm hA j k (hmem j k hk).2
  · exact h.handledQuiet.concat fun _ heq => nomatch heq
  · exact fun hA => (h.sendQuiet hA).concat fun _ heq => nomatch heq
  · exact fun hA => (h.readQuiet hA).concat fun _ heq => nomatch heq

end Writes

section Pipelines

variable {A : Prop} {s : Jobs} {id : ℕ} {job : Job}

theorem executeIn_eq (hjob : s.jobs id = some job) (hidle : Idle job.pipeline) :
    executeIn s id = { s.enqueue (.job id) with
      jobs := Function.update s.jobs id
        (some { job with pipeline := { job.pipeline with busy := false } }) } := by
  obtain ⟨hnext, hfinish⟩ := hidle
  have hreturned : ({ job.pipeline with busy := true } : Pipeline).returned =
      ({ job.pipeline with busy := false }, false) := by
    simp [Pipeline.returned, hnext, hfinish]
  simp [executeIn, executeBusy, modifyJob, enqueue, hjob, hreturned, setPipeline]

/-- What the `pomelo_pipeline_execute` of a job in its stage does, in a state with `P`. -/
def Executes (A : Prop) (P : Jobs → Prop) (ex : Jobs → ℕ → Jobs) : Prop :=
  ∀ s id job p, P s → Tracked A (some id) s → s.jobs id = some job →
    job.pipeline.busy = false → p.busy = false → Idle p →
    p.taskCount = job.pipeline.taskCount → p.taskIndex ≤ p.last →
    (A → job.canceled = true → ¬ ({ job with pipeline := p } : Job).Armed) →
    Tracked A none (ex (s.setPipeline id p) id)

/-- A job in its stage goes on to another one: it waits in the queue. -/
theorem executes_executeIn (A : Prop) (P : Jobs → Prop) : Executes A P executeIn := by
  intro s id job p _ h hjob hfree hbusy hidle hcount hrange hcalm
  have hset : (s.setPipeline id p).jobs id = some { job with pipeline := p } := by
    simp [setPipeline, modifyJob, hjob]
  obtain ⟨-, hown, -, hworker, hhandling⟩ := h.bared id job hjob rfl
  have hp : { p with busy := false } = p := by rw [← hbusy]
  rw [executeIn_eq hset hidle]
  simp only [hp]
  refine h.replace (.inr rfl) hjob { job with pipeline := p } (.inl rfl) ?_
    (Sequencer.nodup_submit h.nodup _) ?_ (fun _ _ => Iff.rfl) (fun _ _ => Iff.rfl) rfl rfl
    hcount hrange (fun hc => hc) hcalm ?_ nofun
  · simp [setPipeline, modifyJob]
  · intro t ht
    exact Sequencer.mem_submit.trans (or_iff_right ht)
  · intro _
    refine .queued (Sequencer.mem_submit.mpr (.inl rfl)) (fun houter => ?_) hbusy hidle hworker
      hhandling
    rw [hown.mpr houter] at hfree
    cases hfree

theorem Tracked.requested (h : Tracked A (some id) s) (hjob : s.jobs id = some job)
    (hbusy : job.pipeline.busy = true) {p : Pipeline} (hstill : p.busy = true)
    (hrequest : p.next ≠ p.finish) (hindex : p.taskIndex ≠ p.last)
    (hcount : p.taskCount = job.pipeline.taskCount) (hrange : p.taskIndex ≤ p.last)
    (hcalm : A → job.canceled = true → ¬ ({ job with pipeline := p } : Job).Armed) :
    Tracked A none (s.setPipeline id p) := by
  obtain ⟨hplace, hown, -, hworker, hhandling⟩ := h.bared id job hjob rfl
  refine h.replace (.inr rfl) hjob { job with pipeline := p } (.inl rfl) ?_ h.nodup
    (fun _ _ => Iff.rfl) (fun _ _ => Iff.rfl) (fun _ _ => Iff.rfl) rfl rfl hcount hrange
    (fun hc => hc) hcalm ?_ nofun
  · simp [setPipeline, modifyJob, hjob]
  · exact fun _ => .requested hplace (hown.mp hbusy) hstill hrequest hindex hworker hhandling

variable {P : Jobs → Prop} {ex : Jobs → ℕ → Jobs}

theorem Tracked.pipelineNext (hex : Executes A P ex) (hP : P s) (h : Tracked A (some id) s)
    (hjob : s.jobs id = some job) (hindex : job.pipeline.taskIndex ≠ job.pipeline.last)
    (hcalm : A → job.canceled = true → job.pipeline.taskIndex ≠ 0) :
    Tracked A none (pipelineNext ex s id) := by
  obtain ⟨-, -, ⟨hnext, hfinish⟩, -, -⟩ := h.bared id job hjob rfl
  have hrange := h.range id job hjob
  unfold Jobs.pipelineNext
  simp only [hjob, Pipeline.advance, if_neg hindex]
  cases hbusy : job.pipeline.busy with
  | true =>
      simp only [if_true, Bool.false_eq_true, if_false]
      refine h.requested hjob hbusy rfl ?_ hindex rfl hrange ?_
      · simp [hfinish]
      · rintro hA hcanceled ⟨-, ⟨-, hno, -⟩ | ⟨hzero, -⟩⟩
        · cases hno
        · exact hcalm hA hcanceled hzero
  | false =>
      simp only [Bool.false_eq_true, if_false, if_true]
      refine hex s id job _ hP h hjob hbusy rfl ⟨hnext, hfinish⟩ rfl ?_ ?_
      · exact Nat.lt_of_le_of_ne hrange hindex
      · rintro hA hcanceled ⟨-, ⟨hone, -⟩ | ⟨hzero, -⟩⟩
        · exact hcalm hA hcanceled (Nat.succ.inj hone)
        · exact absurd hzero (Nat.succ_ne_zero _)

theorem Tracked.pipelineFinish (hex : Executes A P ex) (hP : P s) (h : Tracked A (some id) s)
    (hjob : s.jobs id = some job) (hindex : job.pipeline.taskIndex ≠ job.pipeline.last) :
    Tracked A none (pipelineFinish ex s id) := by
  obtain ⟨-, -, ⟨hnext, hfinish⟩, -, -⟩ := h.bared id job hjob rfl
  have hrange := h.range id job hjob
  unfold Jobs.pipelineFinish
  simp only [hjob, Pipeline.conclude, if_neg hindex]
  cases hbusy : job.pipeline.busy with
  | true =>
      simp only [if_true, Bool.false_eq_true, if_false]
      refine h.requested hjob hbusy rfl ?_ hindex rfl hrange ?_
      · simp [hnext]
      · rintro hA hcanceled ⟨-, ⟨-, -, hno⟩ | ⟨-, hno⟩⟩
        · cases hno
        · rw [hnext] at hno
          cases hno
  | false =>
      simp only [Bool.false_eq_true, if_false, if_true]
      refine hex s id job _ hP h hjob hbusy rfl ⟨hnext, hfinish⟩ rfl (Nat.le_refl _) ?_
      rintro hA hcanceled ⟨hkind, ⟨hone, -⟩ | ⟨-, hno⟩⟩
      · have hcount := h.count id job hjob
        rw [hkind] at hcount
        simp only [Pipeline.last, hcount, JobKind.taskCount] at hone
        cases hone
      · rw [hnext] at hno
        cases hno

theorem Tracked.modified (h : Tracked A (some id) s) (hjob : s.jobs id = some job) {f : Job → Job}
    (hkind : (f job).kind = job.kind) (hpipeline : (f job).pipeline = job.pipeline)
    (hworker : (f job).worker = false) (hhandling : (f job).handling = false)
    (hcanceled : job.canceled = true → (f job).canceled = true)
    (hcalm : A → (f job).canceled = true → ¬ (f job).Armed) :
    Tracked A (some id) (s.modifyJob id f) := by
  obtain ⟨hplace, hown, hidle, -, -⟩ := h.bared id job hjob rfl
  refine h.replace (.inr rfl) hjob (f job) (.inr rfl) ?_ h.nodup (fun _ _ => Iff.rfl)
    (fun _ _ => Iff.rfl) (fun _ _ => Iff.rfl) rfl hkind (by rw [hpipeline])
    (by rw [hpipeline]; exact h.range id job hjob) hcanceled hcalm nofun ?_
  · simp [modifyJob, hjob]
  · intro _
    exact ⟨hplace, by rw [hpipeline]; exact hown,
      by rw [hpipeline]; exact hidle, hworker, hhandling⟩

theorem Tracked.first_ne_last {b : Option ℕ} (h : Tracked A b s) (hjob : s.jobs id = some job)
    (hindex : job.pipeline.taskIndex = 0) : job.pipeline.taskIndex ≠ job.pipeline.last := by
  rw [hindex, Pipeline.last, h.count id job hjob]
  cases job.kind <;> decide

theorem not_armed_of_first (hidle : Idle job.pipeline) (hindex : job.pipeline.taskIndex = 0) :
    ¬ job.Armed := by
  rintro ⟨-, ⟨hone, -⟩ | ⟨-, hno⟩⟩
  · rw [hindex] at hone
    cases hone
  · rw [hidle.1] at hno
    cases hno

theorem Tracked.processComplete (hex : Executes A P ex)
    (hP : ∀ f : Job → Job, P (s.modifyJob id f)) (h : Tracked A (some id) s)
    (hjob : s.jobs id = some job) (hindex : job.pipeline.taskIndex = 0) (canceled success : Bool) :
    Tracked A none (processComplete ex s id canceled success) := by
  obtain ⟨-, -, hidle, hworker, hhandling⟩ := h.bared id job hjob rfl
  have hlast := h.first_ne_last hjob hindex
  unfold Jobs.processComplete
  set f : Job → Job := fun job =>
    { job with
      task := false
      canceled := job.canceled || canceled
      failed := job.failed || !success } with hf
  have hset : (s.modifyJob id f).jobs id = some (f job) := by simp [modifyJob, hjob]
  have hmodified : Tracked A (some id) (s.modifyJob id f) := by
    refine h.modified hjob rfl rfl hworker hhandling ?_ ?_
    · intro hc
      simp [hf, hc]
    · exact fun _ _ => not_armed_of_first hidle hindex
  simp only [hset]
  split
  · exact hmodified.pipelineFinish hex (hP f) hset hlast
  · rename_i hno
    refine hmodified.pipelineNext hex (hP f) hset hlast fun _ hc => ?_
    rw [hc] at hno
    exact absurd rfl hno

end Pipelines

section Stages

variable {A : Prop} {s : Jobs} {id : ℕ} {job : Job} (env : JobEnv)

/-- The first stage of a job: it ends at once, or a worker takes it. -/
theorem Tracked.process (h : Tracked A (some id) s) (hjob : s.jobs id = some job)
    (hindex : job.pipeline.taskIndex = 0) : Tracked A none (process env s id) := by
  obtain ⟨hplace, hown, hidle, hworker, hhandling⟩ := h.bared id job hjob rfl
  have hcalm := not_armed_of_first hidle hindex
  have hlast := h.first_ne_last hjob hindex
  unfold Jobs.process
  simp only [hjob]
  split
  · exact h.processComplete (executes_executeIn A fun _ => True) (fun _ => trivial) hjob hindex _ _
  · split
    · refine h.replace (.inr rfl) hjob { job with task := true, worker := true } (.inl rfl) ?_
        h.nodup (fun _ _ => Iff.rfl) (fun _ _ => Iff.rfl) (fun _ _ => Iff.rfl) rfl rfl rfl
        (h.range id job hjob) (fun hc => hc) (fun _ _ => hcalm) ?_ nofun
      · simp [modifyJob, hjob]
      · exact fun _ => .working hplace hown hidle rfl hindex hhandling
    · have hfailed : Tracked A (some id) (s.modifyJob id fun job => { job with failed := true }) :=
        h.modified hjob rfl rfl hworker hhandling (fun hc => hc) fun _ _ => hcalm
      have hset : (s.modifyJob id fun job => { job with failed := true }).jobs id =
          some { job with failed := true } := by
        simp [modifyJob, hjob]
      exact hfailed.pipelineFinish (executes_executeIn A fun _ => True) trivial hset hlast

/-- The dispatch of a sender. Its dispatch was due before, so that it was not cancelled. -/
theorem Tracked.dispatch (h : Tracked A (some id) s) (hjob : s.jobs id = some job)
    (hkind : job.kind = .sender) (hindex : job.pipeline.taskIndex = 1) :
    Tracked A none (dispatch env s id) := by
  obtain ⟨-, -, hidle, hworker, hhandling⟩ := h.bared id job hjob rfl
  have harmed : job.Armed := ⟨hkind, .inl ⟨hindex, hidle⟩⟩
  have hfresh : A → .canceled id ∉ s.log := fun hA hc =>
    h.calm hA id job hjob (h.canceled id job hjob hc) harmed
  have hlast : job.pipeline.taskIndex ≠ job.pipeline.last := by
    rw [hindex, Pipeline.last, h.count id job hjob, hkind]
    decide
  set s' := (if s.server then s.note (.peerRead id) else s).note (.adapterSend id) with hs'
  have hnoted : Tracked A (some id) s' ∧ s'.jobs id = some job := by
    rw [hs']
    split
    · have hread : Tracked A (some id) (s.note (.peerRead id)) := by
        refine h.note nofun nofun nofun nofun nofun ?_
        rintro hA j hj
        rw [← JobEffect.peerRead.inj hj]
        exact hfresh hA
      refine ⟨hread.note nofun nofun nofun nofun ?_ nofun, hjob⟩
      rintro hA j hj
      rw [← JobEffect.adapterSend.inj hj]
      simpa [Jobs.note] using hfresh hA
    · refine ⟨h.note nofun nofun nofun nofun ?_ nofun, hjob⟩
      rintro hA j hj
      rw [← JobEffect.adapterSend.inj hj]
      exact hfresh hA
  obtain ⟨hsent, hjob'⟩ := hnoted
  have hex := executes_executeIn A fun _ => True
  change Tracked A none (if env.send then Jobs.pipelineNext executeIn s' id
    else Jobs.pipelineFinish executeIn
      (s'.modifyJob id fun job => { job with failed := true }) id)
  split
  · refine hsent.pipelineNext hex trivial hjob' hlast fun _ _ => ?_
    rw [hindex]
    exact Nat.one_ne_zero
  · have hfailed : Tracked A (some id)
        (s'.modifyJob id fun job => { job with failed := true }) :=
      hsent.modified hjob' rfl rfl hworker hhandling (fun hc => hc) fun hA hc =>
        h.calm hA id job hjob hc
    have hset : (s'.modifyJob id fun job => { job with failed := true }).jobs id =
        some { job with failed := true } := by
      simp [modifyJob, hjob']
    exact hfailed.pipelineFinish hex trivial hset hlast

theorem Tracked.complete (h : Tracked A (some id) s) (hcurrent : s.current = some (.job id))
    (hjob : s.jobs id = some job) (hindex : job.pipeline.taskIndex = job.pipeline.last) :
    Tracked A none (complete s id) := by
  obtain ⟨hplace, hown, hidle, hworker, hhandling⟩ := h.bared id job hjob rfl
  unfold Jobs.complete
  simp only [hjob]
  split
  · exact h.release hjob hplace (.inr rfl)
  · rename_i hno
    have hhandled : Tracked A none
        (s.modifyJob id fun job => { job with handling := true }) := by
      refine h.replace (.inr rfl) hjob { job with handling := true } (.inl rfl) ?_ h.nodup
        (fun _ _ => Iff.rfl) (fun _ _ => Iff.rfl) (fun _ _ => Iff.rfl) rfl rfl rfl
        (h.range id job hjob) (fun hc => hc) (fun hA => h.calm hA id job hjob) ?_ nofun
      · simp [modifyJob, hjob]
      · exact fun _ => .handled hplace hcurrent hown hidle hworker rfl hindex
    refine hhandled.note nofun nofun nofun ?_ nofun nofun
    rintro j hj hc
    rw [← JobEffect.handled.inj hj] at hc
    exact hno (h.canceled id job hjob hc)

theorem executeCurrentTask_eq (hjob : s.jobs id = some job) :
    Jobs.executeCurrentTask env s id =
      if job.pipeline.taskIndex = 0 then Jobs.process env s id
      else if job.kind = .sender ∧ job.pipeline.taskIndex = 1 then Jobs.dispatch env s id
      else Jobs.complete s id := by
  unfold Jobs.executeCurrentTask
  simp only [hjob]
  rcases job.pipeline.taskIndex with _ | _ | index
  · rfl
  · cases job.kind <;> rfl
  · cases job.kind <;> rfl

theorem Tracked.executeCurrentTask (h : Tracked A (some id) s)
    (hcurrent : s.current = some (.job id)) :
    Tracked A none (executeCurrentTask env s id) := by
  cases hjob : s.jobs id with
  | none =>
      simp only [Jobs.executeCurrentTask, hjob]
      refine h.moved rfl rfl (fun _ hid => hid) h.nodup h.live ?_ ?_
      · intro j k hk _
        refine h.placed j k hk fun heq => ?_
        rw [← Option.some.inj heq, hjob] at hk
        exact nomatch hk
      · intro j k _ heq
        exact nomatch heq
  | some job =>
      rw [executeCurrentTask_eq env hjob]
      split
      · rename_i hzero
        exact h.process env hjob hzero
      · rename_i hzero
        split
        · rename_i hdispatch
          exact h.dispatch env hjob hdispatch.1 hdispatch.2
        · rename_i hlater
          refine h.complete hcurrent hjob ?_
          have hrange := h.range id job hjob
          rw [Pipeline.last, h.count id job hjob] at hrange ⊢
          cases hkind : job.kind with
          | sender =>
              have hone : job.pipeline.taskIndex ≠ 1 := fun heq => hlater ⟨hkind, heq⟩
              simp only [hkind, JobKind.taskCount] at hrange ⊢
              omega
          | receiver =>
              simp only [hkind, JobKind.taskCount] at hrange ⊢
              omega

end Stages

section Current

theorem executeBusy_current (fuel : ℕ) (s : Jobs) (id : ℕ) :
    (executeBusy fuel s id).current = s.current := by
  induction fuel generalizing s with
  | zero => rfl
  | succ fuel ih =>
      unfold executeBusy
      dsimp only
      cases (s.enqueue (.job id)).jobs id with
      | none => rfl
      | some job =>
          dsimp only
          split
          · exact ih _
          · rfl

theorem executeIn_current (s : Jobs) (id : ℕ) : (executeIn s id).current = s.current :=
  executeBusy_current 3 _ id

theorem pipelineNext_current (s : Jobs) (id : ℕ) :
    (pipelineNext executeIn s id).current = s.current := by
  unfold pipelineNext
  cases s.jobs id with
  | none => rfl
  | some job =>
      dsimp only
      split
      · exact executeIn_current _ id
      · rfl

theorem pipelineFinish_current (s : Jobs) (id : ℕ) :
    (pipelineFinish executeIn s id).current = s.current := by
  unfold pipelineFinish
  cases s.jobs id with
  | none => rfl
  | some job =>
      dsimp only
      split
      · exact executeIn_current _ id
      · rfl

theorem processComplete_current (s : Jobs) (id : ℕ) (canceled success : Bool) :
    (processComplete executeIn s id canceled success).current = s.current := by
  unfold processComplete
  dsimp only
  split
  · rfl
  · split
    · exact pipelineFinish_current _ id
    · exact pipelineNext_current _ id

theorem executeCurrentTask_current (env : JobEnv) (s : Jobs) (id : ℕ) :
    (executeCurrentTask env s id).current = s.current := by
  cases hjob : s.jobs id with
  | none => simp only [executeCurrentTask, hjob]
  | some job =>
      rw [executeCurrentTask_eq env hjob]
      split
      · simp only [process, hjob]
        split
        · exact processComplete_current s id _ _
        · split
          · rfl
          · exact pipelineFinish_current _ id
      · split
        · unfold dispatch
          dsimp only
          split
          · rw [pipelineNext_current]
            split <;> rfl
          · rw [pipelineFinish_current]
            split <;> rfl
        · simp only [complete, hjob]
          split <;> rfl

end Current

section Sequencing

variable {A : Prop} {s : Jobs} {id : ℕ} {job : Job} (env : JobEnv)

/-- Outside of every callback nothing is queued and no pipeline is being executed. -/
def Controlled (s : Jobs) : Prop := s.current = none → s.queue = [] ∧ s.outer = none

theorem Tracked.handling_of_ne (h : Tracked A none s) (hjob : s.jobs id = some job)
    (hcurrent : s.current ≠ some (.job id)) : job.handling = false := by
  rcases h.placed id job hjob nofun with ⟨-, -, -, -, -, hhandling⟩ |
    ⟨-, -, -, -, -, hhandling⟩ | ⟨-, -, -, -, -, -, hhandling⟩ | ⟨-, hplace, -, -, -, -, -⟩
  · exact hhandling
  · exact hhandling
  · exact hhandling
  · exact absurd hplace hcurrent

theorem Placed.congr {queued queued' outer outer' current current' : Prop} {job : Job}
    (h : Placed queued outer current job) (hhandling : job.handling = false)
    (hqueue : queued' ↔ queued) (houter : outer' ↔ outer) : Placed queued' outer' current' job := by
  rw [hqueue, houter]
  cases h with
  | queued place inner free idle worker handling =>
      exact .queued place inner free idle worker handling
  | working place busy idle worker index handling =>
      exact .working place busy idle worker index handling
  | requested place outer busy request index worker handling =>
      exact .requested place outer busy request index worker handling
  | handled place current busy idle worker handling index =>
      rw [hhandling] at handling
      cases handling

theorem Tracked.advance (h : Tracked A none s)
    (hhandling : ∀ id job, s.jobs id = some job → job.handling = false) :
    Tracked A none (advance env s) ∧
      ((advance env s).current = none →
        s.queue = [] ∧ advance env s = { s with current := none }) := by
  unfold Jobs.advance
  cases hqueue : s.queue with
  | nil =>
      dsimp only
      refine ⟨h.moved rfl rfl (fun _ hid => hid) List.nodup_nil nofun ?_
        (fun _ _ _ heq => nomatch heq),
        fun _ => ⟨rfl, rfl⟩⟩
      intro j k hk hj
      exact (h.placed j k hk nofun).congr (hhandling j k hk) (by rw [hqueue]) Iff.rfl
  | cons task rest =>
      have hnodup := h.nodup
      rw [hqueue, List.nodup_cons] at hnodup
      have hlive : ∀ j, .job j ∈ rest → ∃ k, s.jobs j = some k := fun j hj =>
        h.live j (by rw [hqueue]; exact List.mem_cons_of_mem _ hj)
      have hstay : ∀ j, task ≠ .job j → (.job j ∈ rest ↔ .job j ∈ s.queue) := fun j hj => by
        rw [hqueue, List.mem_cons, or_iff_right (Ne.symm hj)]
      cases task with
      | other o =>
          refine ⟨h.moved rfl rfl (fun _ hid => hid) hnodup.2 hlive ?_
            (fun _ _ _ heq => nomatch heq), fun heq => nomatch heq⟩
          intro j k hk hj
          exact (h.placed j k hk hj).congr (hhandling j k hk) (hstay j nofun) Iff.rfl
      | job id =>
          dsimp only
          refine ⟨Tracked.executeCurrentTask env
            (h.moved rfl rfl (fun _ hid => hid) hnodup.2 hlive ?_ ?_) rfl, ?_⟩
          · intro j k hk hj
            have hne : SequencedTask.job id ≠ .job j := fun heq =>
              hj (congrArg some (SequencedTask.job.inj heq))
            exact (h.placed j k hk nofun).congr (hhandling j k hk) (hstay j hne) Iff.rfl
          · intro j k hk hj
            obtain rfl := Option.some.inj hj
            have hmem : .job id ∈ s.queue := by
              rw [hqueue]
              exact List.mem_cons_self
            cases h.placed id k hk nofun with
            | queued place inner free idle worker handling =>
                refine ⟨hnodup.1, ?_, idle, worker, handling⟩
                rw [free]
                exact ⟨nofun, fun houter => absurd houter inner⟩
            | working place => exact absurd hmem place
            | requested place => exact absurd hmem place
            | handled place => exact absurd hmem place
          · rw [executeCurrentTask_current]
            nofun

theorem drain_eq (s : Jobs) (id : ℕ) (hqueue : s.queue = []) :
    Jobs.drain env s id = Jobs.executeCurrentTask env
      { s with queue := [], current := some (.job id), outer := some id } id := by
  simp [Jobs.drain, Jobs.advance, enqueue, Sequencer.submit, hqueue]

theorem drain_controlled (s : Jobs) (id : ℕ) (hqueue : s.queue = []) :
    Controlled (Jobs.drain env s id) := by
  intro hcurrent
  rw [drain_eq env s id hqueue, executeCurrentTask_current] at hcurrent
  cases hcurrent

theorem Tracked.drain (h : Tracked A (some id) { s with outer := some id })
    (hqueue : s.queue = []) (hcurrent : s.current = none) :
    Tracked A none (Jobs.drain env s id) := by
  rw [drain_eq env s id hqueue]
  refine Tracked.executeCurrentTask env
    (h.moved rfl rfl (fun _ hid => hid) List.nodup_nil nofun ?_ ?_) rfl
  · intro j k hk hj
    have hplaced := h.placed j k hk hj
    simp only [hqueue, hcurrent] at hplaced
    cases hplaced with
    | queued place => exact absurd place List.not_mem_nil
    | working place busy idle worker index handling =>
        exact .working place busy idle worker index handling
    | requested place outer busy request index worker handling =>
        exact .requested place outer busy request index worker handling
    | handled _ current => cases current
  · intro j k hk hj
    have hbare := h.bared j k hk hj
    simp only [hqueue] at hbare
    exact hbare

/-- A job in its stage goes on to another one: it waits in the queue, or the stage begins. -/
theorem executes_execute (A : Prop) : Executes A Controlled (execute env) := by
  intro s id job p hcontrolled h hjob hfree hbusy hidle hcount hrange hcalm
  cases hcurrent : s.current with
  | some task =>
      have heq : execute env (s.setPipeline id p) id = executeIn (s.setPipeline id p) id :=
        if_pos (by simp [setPipeline, modifyJob, hcurrent])
      rw [heq]
      exact executes_executeIn A (fun _ => True) s id job p trivial h hjob hfree hbusy hidle hcount
        hrange hcalm
  | none =>
      obtain ⟨hqueue, houter⟩ := hcontrolled hcurrent
      obtain ⟨-, -, -, hworker, hhandling⟩ := h.bared id job hjob rfl
      have heq : execute env (s.setPipeline id p) id =
          Jobs.drain env ((s.setPipeline id p).modifyJob id fun job =>
            { job with pipeline := { job.pipeline with busy := true } }) id :=
        if_neg (by simp [setPipeline, modifyJob, hcurrent])
      rw [heq]
      refine Tracked.drain env ?_ hqueue hcurrent
      refine h.replace (.inr rfl) hjob { job with pipeline := { p with busy := true } } (.inr rfl)
        ?_ h.nodup (fun _ _ => Iff.rfl) ?_ (fun _ _ => Iff.rfl) rfl rfl hcount hrange
        (fun hc => hc) hcalm nofun ?_
      · simp [setPipeline, modifyJob, hjob]
      · intro j hj
        simp [houter, Ne.symm hj]
      · intro _
        refine ⟨?_, ⟨fun _ => rfl, fun _ => rfl⟩, hidle, hworker, hhandling⟩
        simp [setPipeline, modifyJob, hqueue]

theorem execute_controlled (h : Controlled s) : Controlled (execute env s id) := by
  unfold execute
  split
  · rename_i hsome
    intro hcurrent
    rw [executeIn_current] at hcurrent
    rw [hcurrent] at hsome
    cases hsome
  · rename_i hsome
    exact drain_controlled env _ id (h (Option.not_isSome_iff_eq_none.mp hsome)).1

theorem pipelineNext_controlled (h : Controlled s) :
    Controlled (pipelineNext (execute env) s id) := by
  unfold pipelineNext
  cases s.jobs id with
  | none => exact h
  | some job =>
      dsimp only
      split
      · exact execute_controlled env (s := s.setPipeline id _) h
      · exact h

theorem pipelineFinish_controlled (h : Controlled s) :
    Controlled (pipelineFinish (execute env) s id) := by
  unfold pipelineFinish
  cases s.jobs id with
  | none => exact h
  | some job =>
      dsimp only
      split
      · exact execute_controlled env (s := s.setPipeline id _) h
      · exact h

theorem processComplete_controlled (h : Controlled s) (canceled success : Bool) :
    Controlled (processComplete (execute env) s id canceled success) := by
  unfold processComplete
  dsimp only
  split
  · exact h
  · split
    · exact pipelineFinish_controlled env (s := s.modifyJob id _) h
    · exact pipelineNext_controlled env (s := s.modifyJob id _) h

theorem Tracked.returned (h : Tracked A none s) (hjob : s.jobs id = some job)
    (hrequest : job.pipeline.next ≠ job.pipeline.finish)
    (hindex : job.pipeline.taskIndex ≠ job.pipeline.last) :
    job.pipeline.returned.2 = true ∧ Idle job.pipeline.returned.1 ∧
      job.pipeline.returned.1.busy = job.pipeline.busy ∧
      job.pipeline.returned.1.taskCount = job.pipeline.taskCount ∧
      job.pipeline.returned.1.taskIndex ≤ job.pipeline.returned.1.last ∧
      (A → job.canceled = true →
        ¬ ({ job with pipeline := job.pipeline.returned.1 } : Job).Armed) := by
  have hrange := h.range id job hjob
  cases hfinish : job.pipeline.finish with
  | true =>
      have hnext : job.pipeline.next = false := by simpa [hfinish] using hrequest
      have heq : job.pipeline.returned =
          ({ job.pipeline with finish := false, taskIndex := job.pipeline.last }, true) := by
        simp [Pipeline.returned, hfinish, hindex]
      rw [heq]
      refine ⟨rfl, ⟨hnext, rfl⟩, rfl, rfl, Nat.le_refl _, ?_⟩
      rintro hA hc ⟨hkind, ⟨hone, -⟩ | ⟨-, hno⟩⟩
      · simp only [Pipeline.last, h.count id job hjob] at hone hkind
        rw [hkind] at hone
        cases hone
      · rw [hnext] at hno
        cases hno
  | false =>
      have hnext : job.pipeline.next = true := by simpa [hfinish] using hrequest
      have heq : job.pipeline.returned =
          ({ job.pipeline with
              finish := false, next := false, taskIndex := job.pipeline.taskIndex + 1 }, true) := by
        simp [Pipeline.returned, hfinish, hnext, hindex]
      rw [heq]
      refine ⟨rfl, ⟨rfl, rfl⟩, rfl, rfl, Nat.lt_of_le_of_ne hrange hindex, ?_⟩
      rintro hA hc ⟨hkind, ⟨hone, -⟩ | ⟨-, hno⟩⟩
      · exact h.calm hA id job hjob hc ⟨hkind, .inr ⟨Nat.succ.inj hone, hnext⟩⟩
      · cases hno

theorem Tracked.resume (h : Tracked A none s) (hqueue : s.queue = [])
    (hcurrent : s.current = none) :
    Tracked A none (resume env s) ∧ Controlled (resume env s) := by
  unfold Jobs.resume
  cases houter : s.outer with
  | none => exact ⟨h, fun _ => ⟨hqueue, houter⟩⟩
  | some id =>
      dsimp only
      have hne : ∀ j, j ≠ id → (none = some j ↔ s.outer = some j) := fun j hj => by
        rw [houter]
        simp [Ne.symm hj]
      cases hjob : s.jobs id with
      | none =>
          refine ⟨h.moved rfl rfl nofun h.nodup h.live ?_ (fun _ _ _ heq => nomatch heq),
            fun _ => ⟨hqueue, rfl⟩⟩
          intro j k hk hj
          have hid : j ≠ id := by
            rintro rfl
            rw [hjob] at hk
            cases hk
          refine (h.placed j k hk nofun).congr ?_ Iff.rfl (hne j hid)
          exact h.handling_of_ne hk (by rw [hcurrent]; nofun)
      | some job =>
          dsimp only
          have hrange := h.range id job hjob
          cases h.placed id job hjob nofun with
          | queued place =>
              rw [hqueue] at place
              exact absurd place List.not_mem_nil
          | working place busy idle worker index handling =>
              have heq : job.pipeline.returned = ({ job.pipeline with busy := false }, false) := by
                simp [Pipeline.returned, idle.1, idle.2]
              rw [heq, if_neg Bool.false_ne_true]
              refine ⟨h.replace (.inl rfl) hjob
                { job with pipeline := { job.pipeline with busy := false } } (.inl rfl) ?_ h.nodup
                (fun _ _ => Iff.rfl) hne (fun _ _ => Iff.rfl) rfl rfl rfl hrange
                (fun hc => hc) (fun hA => h.calm hA id job hjob) ?_ nofun, fun _ => ⟨hqueue, rfl⟩⟩
              · simp [setPipeline, modifyJob, hjob]
              · exact fun _ => .working place ⟨nofun, nofun⟩ idle worker index handling
          | requested place outer busy request index worker handling =>
              obtain ⟨hcontinue, hidle, hbusy, hcount, hlast, hcalm⟩ :=
                h.returned hjob request index
              rw [if_pos hcontinue]
              refine ⟨Tracked.drain env ?_ hqueue hcurrent, drain_controlled env _ id hqueue⟩
              refine h.replace (.inl rfl) hjob { job with pipeline := job.pipeline.returned.1 }
                (.inr rfl) ?_ h.nodup (fun _ _ => Iff.rfl) (fun _ _ => ?_) (fun _ _ => Iff.rfl) rfl
                rfl hcount hlast (fun hc => hc) hcalm nofun ?_
              · simp [setPipeline, modifyJob, hjob]
              · rw [houter]
              · intro _
                refine ⟨place, ?_, hidle, worker, handling⟩
                simp [hbusy, busy]
          | handled _ current =>
              rw [hcurrent] at current
              cases current

theorem Tracked.proceed (h : Tracked A none s)
    (hhandling : ∀ id job, s.jobs id = some job → job.handling = false) :
    Tracked A none (proceed env s) ∧ Controlled (proceed env s) := by
  obtain ⟨hadvanced, hend⟩ := h.advance env hhandling
  unfold Jobs.proceed
  dsimp only
  cases hcurrent : (Jobs.advance env s).current with
  | some task =>
      rw [if_pos Option.isSome_some]
      refine ⟨hadvanced, fun hnone => ?_⟩
      rw [hcurrent] at hnone
      cases hnone
  | none =>
      rw [if_neg (by simp)]
      obtain ⟨hqueue, heq⟩ := hend hcurrent
      rw [heq] at hadvanced ⊢
      exact hadvanced.resume env hqueue rfl

end Sequencing

section Steps

variable {A : Prop} {s : Jobs}

/-- The step cancels a sender whose dispatch is due. -/
def CancelsArmed (s : Jobs) (i : JobInput) : Prop :=
  match i.event with
  | .cancel id => ∃ job ∈ s.jobs id, job.Armed
  | _ => False

instance (s : Jobs) (i : JobInput) : Decidable (s.CancelsArmed i) :=
  match i with
  | ⟨_, .cancel id⟩ => inferInstanceAs (Decidable (∃ job ∈ s.jobs id, job.Armed))
  | ⟨_, .submit ..⟩ | ⟨_, .other _⟩ | ⟨_, .workerDone ..⟩ | ⟨_, .finish⟩ => .isFalse nofun

/-- A job that is submitted begins its first stage or waits for it. -/
theorem Tracked.submitted (h : Tracked A none s) (hcontrolled : Controlled s) (env : JobEnv)
    {id : ℕ} (hfresh : s.Fresh id) (kind : JobKind) (noCrypt workerRequired : Bool) :
    Tracked A none (execute env ({ s with
      jobs := Function.update s.jobs id (some (.init kind noCrypt workerRequired)) }.note
        (.submitted id)) id) := by
  set s' := { s with
    jobs := Function.update s.jobs id (some (.init kind noCrypt workerRequired)) }.note
      (.submitted id) with hs'
  have hself : s'.jobs id = some (.init kind noCrypt workerRequired) := Function.update_self ..
  have hother : ∀ j, j ≠ id → s'.jobs j = s.jobs j := fun j hj => Function.update_of_ne hj ..
  have hnone : s.jobs id = none := by
    cases hjob : s.jobs id with
    | none => rfl
    | some job => exact absurd (h.known id job hjob) hfresh
  have hlog : s'.log = s.log ++ [.submitted id] := rfl
  have hplace : .job id ∉ s.queue := fun hmem => by
    obtain ⟨job, hjob⟩ := h.live id hmem
    rw [hnone] at hjob
    cases hjob
  have hcases : ∀ {j : ℕ} {k : Job}, s'.jobs j = some k →
      j = id ∧ k = .init kind noCrypt workerRequired ∨ j ≠ id ∧ s.jobs j = some k := by
    intro j k hk
    by_cases hj : j = id
    · rw [hj, hself] at hk
      exact .inl ⟨hj, (Option.some.inj hk).symm⟩
    · exact .inr ⟨hj, by rwa [hother j hj] at hk⟩
  have hgrows : ∀ {e : JobEffect}, e ∈ s.log → e ∈ s'.log := fun he =>
    List.mem_append_left _ he
  have hbegun : Tracked A (some id) s' := by
    constructor
    · exact h.nodup
    · intro j hj
      have hne : j ≠ id := by
        rintro rfl
        exact hplace hj
      rw [hother j hne]
      exact h.live j hj
    · intro j k hk hj
      obtain ⟨rfl, -⟩ | ⟨-, hk⟩ := hcases hk
      · exact absurd rfl hj
      · exact h.placed j k hk nofun
    · intro j k hk hj
      obtain ⟨rfl, rfl⟩ | ⟨hne, -⟩ := hcases hk
      · refine ⟨hplace, ?_, ⟨rfl, rfl⟩, rfl, rfl⟩
        exact ⟨nofun, fun houter => absurd (h.outer j houter) hfresh⟩
      · exact absurd (Option.some.inj hj).symm hne
    · intro j k hk
      obtain ⟨-, rfl⟩ | ⟨-, hk⟩ := hcases hk
      · rfl
      · exact h.count j k hk
    · intro j k hk
      obtain ⟨-, rfl⟩ | ⟨-, hk⟩ := hcases hk
      · exact Nat.zero_le _
      · exact h.range j k hk
    · intro j k hk
      obtain ⟨rfl, -⟩ | ⟨-, hk⟩ := hcases hk
      · exact List.mem_append_right _ List.mem_cons_self
      · exact hgrows (h.known j k hk)
    · exact fun j hj => hgrows (h.outer j hj)
    · intro j
      rw [hlog, List.count_append, h.released j]
      by_cases hj : j = id
      · rw [hj, hself]
        simp [show .submitted id ∉ s.log from hfresh]
      · rw [hother j hj]
        simp [hj]
    · intro j k hk hc
      have hbefore : .canceled j ∈ s.log := by simpa [hlog] using hc
      obtain ⟨hj, -⟩ | ⟨-, hk⟩ := hcases hk
      · rw [hj] at hbefore
        exact absurd (h.old id hbefore) hfresh
      · exact h.canceled j k hk hbefore
    · intro j hc
      have hbefore : .canceled j ∈ s.log := by simpa [hlog] using hc
      exact hgrows (h.old j hbefore)
    · intro hA j k hk hc
      obtain ⟨-, rfl⟩ | ⟨-, hk⟩ := hcases hk
      · cases hc
      · exact h.calm hA j k hk hc
    · exact h.handledQuiet.concat fun _ heq => nomatch heq
    · exact fun hA => (h.sendQuiet hA).concat fun _ heq => nomatch heq
    · exact fun hA => (h.readQuiet hA).concat fun _ heq => nomatch heq
  have hset : s'.setPipeline id (.init kind.taskCount) = s' := by
    unfold setPipeline modifyJob
    rw [hself]
    have hkept : Function.update s'.jobs id (some (.init kind noCrypt workerRequired)) =
        s'.jobs := by
      rw [← hself, Function.update_eq_self]
    exact congrArg (fun jobs => { s' with jobs := jobs }) hkept
  have hgoes := executes_execute env A s' id _ (.init kind.taskCount) hcontrolled hbegun hself rfl
    rfl ⟨rfl, rfl⟩ rfl (Nat.zero_le _) nofun
  rwa [hset] at hgoes

theorem Tracked.cancel (h : Tracked A none s) {id : ℕ} {job : Job} (hjob : s.jobs id = some job)
    (hlate : A → ¬ job.Armed) :
    Tracked A none ((s.modifyJob id fun job =>
      if job.canceled then job
      else { job with canceled := true, task := false, peer := false }).note (.canceled id)) := by
  set f : Job → Job := fun job =>
    if job.canceled then job else { job with canceled := true, task := false, peer := false }
    with hf
  have hcanceled : (f job).canceled = true := by
    rw [hf]
    dsimp only
    split
    · assumption
    · rfl
  have hkept : (f job).kind = job.kind ∧ (f job).pipeline = job.pipeline ∧
      (f job).worker = job.worker ∧ (f job).handling = job.handling := by
    rw [hf]
    dsimp only
    split <;> exact ⟨rfl, rfl, rfl, rfl⟩
  obtain ⟨hkind, hpipeline, hworker, hhandling⟩ := hkept
  have harmed : (f job).Armed ↔ job.Armed := by
    unfold Job.Armed
    rw [hkind, hpipeline]
  have hmodified : Tracked A none (s.modifyJob id f) := by
    refine h.replace (.inl rfl) hjob (f job) (.inl rfl) ?_ h.nodup (fun _ _ => Iff.rfl)
      (fun _ _ => Iff.rfl) (fun _ _ => Iff.rfl) rfl hkind (by rw [hpipeline])
      (by rw [hpipeline]; exact h.range id job hjob) (fun _ => hcanceled)
      (fun hA _ => by rw [harmed]; exact hlate hA) ?_ nofun
    · simp [modifyJob, hjob]
    · intro _
      cases h.placed id job hjob nofun with
      | queued place inner free idle worker handling =>
          exact .queued place inner (by rw [hpipeline]; exact free) (by rw [hpipeline]; exact idle)
            (hworker.trans worker) (hhandling.trans handling)
      | working place busy idle worker index handling =>
          exact .working place (by rw [hpipeline]; exact busy) (by rw [hpipeline]; exact idle)
            (hworker.trans worker) (by rw [hpipeline]; exact index) (hhandling.trans handling)
      | requested place outer busy request index worker handling =>
          exact .requested place outer (by rw [hpipeline]; exact busy)
            (by rw [hpipeline]; exact request) (by rw [hpipeline]; exact index)
            (hworker.trans worker) (hhandling.trans handling)
      | handled place current busy idle worker handling index =>
          exact .handled place current (by rw [hpipeline]; exact busy)
            (by rw [hpipeline]; exact idle) (hworker.trans worker) (hhandling.trans handling)
            (by rw [hpipeline]; exact index)
  refine hmodified.note nofun nofun ?_ nofun nofun nofun
  intro j hj
  rw [← JobEffect.canceled.inj hj]
  refine ⟨h.known id job hjob, fun k hk => ?_⟩
  have hself : (s.modifyJob id f).jobs id = some (f job) := by simp [modifyJob, hjob]
  rw [hself] at hk
  rw [← Option.some.inj hk]
  exact hcanceled

theorem Tracked.other (h : Tracked A none s) (env : JobEnv) (id : ℕ) :
    Tracked A none (step s ⟨env, .other id⟩) ∧ Controlled (step s ⟨env, .other id⟩) := by
  have hmem : ∀ j, .job j ∈ (s.enqueue (.other id)).queue ↔ .job j ∈ s.queue := fun j =>
    Sequencer.mem_submit.trans (or_iff_right nofun)
  have henqueued : Tracked A none (s.enqueue (.other id)) := by
    refine h.moved rfl rfl (fun _ hid => hid) (Sequencer.nodup_submit h.nodup _) ?_ ?_
      fun _ _ _ heq => nomatch heq
    · exact fun j hj => h.live j ((hmem j).mp hj)
    · intro j k hk _
      rw [hmem j]
      exact h.placed j k hk nofun
  simp only [step]
  split
  · rename_i hsome
    refine ⟨henqueued, fun hnone => ?_⟩
    rw [show s.current = none from hnone] at hsome
    cases hsome
  · rename_i hsome
    have hcurrent : (s.enqueue (.other id)).current = none :=
      Option.not_isSome_iff_eq_none.mp hsome
    obtain ⟨hadvanced, hend⟩ := henqueued.advance env fun j k hk =>
      henqueued.handling_of_ne hk (by rw [hcurrent]; nofun)
    exact ⟨hadvanced, fun hnone => absurd (hend hnone).1 (Sequencer.submit_ne_nil _ _)⟩

theorem Tracked.workerDone (h : Tracked A none s) (hcontrolled : Controlled s) (env : JobEnv)
    (id : ℕ) (canceled success : Bool) :
    Tracked A none (step s ⟨env, .workerDone id canceled success⟩) ∧
      Controlled (step s ⟨env, .workerDone id canceled success⟩) := by
  simp only [step]
  cases hjob : s.jobs id with
  | none => exact ⟨h, hcontrolled⟩
  | some job =>
      dsimp only
      split
      · rename_i hdone
        rw [Bool.and_eq_true] at hdone
        obtain ⟨-, hworker⟩ := hdone
        obtain ⟨place, busy, idle, index, handling⟩ : .job id ∉ s.queue ∧
            (job.pipeline.busy = true ↔ s.outer = some id) ∧ Idle job.pipeline ∧
            job.pipeline.taskIndex = 0 ∧ job.handling = false := by
          cases h.placed id job hjob nofun with
          | working place busy idle _ index handling => exact ⟨place, busy, idle, index, handling⟩
          | queued _ _ _ _ worker => exact absurd (worker.symm.trans hworker) nofun
          | requested _ _ _ _ _ worker => exact absurd (worker.symm.trans hworker) nofun
          | handled _ _ _ _ worker => exact absurd (worker.symm.trans hworker) nofun
        have hset : (s.modifyJob id fun job => { job with worker := false }).jobs id =
            some { job with worker := false } := by
          simp [modifyJob, hjob]
        have hbegun : Tracked A (some id)
            (s.modifyJob id fun job => { job with worker := false }) := by
          refine h.replace (.inl rfl) hjob { job with worker := false } (.inr rfl) ?_ h.nodup
            (fun _ _ => Iff.rfl) (fun _ _ => Iff.rfl) (fun _ _ => Iff.rfl) rfl rfl rfl
            (h.range id job hjob) (fun hc => hc) (fun hA => h.calm hA id job hjob) nofun ?_
          · simp [modifyJob, hjob]
          · exact fun _ => ⟨place, busy, idle, rfl, handling⟩
        refine ⟨hbegun.processComplete (executes_execute env A) ?_ hset index canceled success, ?_⟩
        · exact fun _ => hcontrolled
        · refine processComplete_controlled env ?_ canceled success
          exact hcontrolled
      · exact ⟨h, hcontrolled⟩

/-- A callback returns. A job that the handlers of the socket had is released. -/
theorem Tracked.finish (h : Tracked A none s) (hcontrolled : Controlled s) (env : JobEnv) :
    Tracked A none (step s ⟨env, .finish⟩) ∧ Controlled (step s ⟨env, .finish⟩) := by
  have hfree : ∀ id, s.current = some (.job id) →
      ∀ j k, s.jobs j = some k → j ≠ id → k.handling = false := by
    intro id hcurrent j k hk hj
    refine h.handling_of_ne hk fun heq => hj ?_
    rw [hcurrent] at heq
    exact (SequencedTask.job.inj (Option.some.inj heq)).symm
  simp only [step]
  split
  · exact ⟨h, hcontrolled⟩
  · rename_i hcurrent
    exact h.proceed env fun j k hk => h.handling_of_ne hk (by rw [hcurrent]; nofun)
  · rename_i id hcurrent
    split
    · rename_i hjob
      refine h.proceed env fun j k hk => hfree id hcurrent j k hk ?_
      rintro rfl
      rw [hjob] at hk
      cases hk
    · rename_i job hjob
      split
      · rename_i hhandling
        have hplace : .job id ∉ s.queue := by
          cases h.placed id job hjob nofun with
          | queued _ _ _ _ _ handling => exact absurd (handling.symm.trans hhandling) nofun
          | working place => exact place
          | requested place => exact place
          | handled place => exact place
        refine (h.release hjob hplace (.inl rfl)).proceed env fun j k hk => ?_
        by_cases hj : j = id
        · rw [hj] at hk
          simp [Jobs.release, Jobs.note] at hk
        · refine hfree id hcurrent j k ?_ hj
          simpa [Jobs.release, Jobs.note, hj] using hk
      · rename_i hhandling
        refine h.proceed env fun j k hk => ?_
        by_cases hj : j = id
        · rw [hj, hjob] at hk
          rw [← Option.some.inj hk]
          exact Bool.eq_false_iff.mpr hhandling
        · exact hfree id hcurrent j k hk hj

theorem Tracked.step (h : Tracked A none s) (hcontrolled : Controlled s) (i : JobInput)
    (hlate : A → ¬ s.CancelsArmed i) : Tracked A none (step s i) ∧ Controlled (step s i) := by
  obtain ⟨env, event⟩ := i
  cases event with
  | submit id kind noCrypt workerRequired =>
      simp only [Jobs.step]
      split
      · rename_i hfresh
        exact ⟨h.submitted hcontrolled env hfresh kind noCrypt workerRequired,
          execute_controlled env hcontrolled⟩
      · exact ⟨h, hcontrolled⟩
  | cancel id =>
      simp only [Jobs.step]
      cases hjob : s.jobs id with
      | none => exact ⟨h, hcontrolled⟩
      | some job => exact ⟨h.cancel hjob fun hA harmed => hlate hA ⟨job, hjob, harmed⟩, hcontrolled⟩
  | other id => exact h.other env id
  | workerDone id canceled success => exact h.workerDone hcontrolled env id canceled success
  | finish => exact h.finish hcontrolled env

theorem tracked_start (A : Prop) (server : Bool) : Tracked A none (start server) := by
  have hnone : ∀ id job, (start server).jobs id ≠ some job := by
    intro id job hjob
    have hempty : (start server).jobs id = none := rfl
    rw [hempty] at hjob
    cases hjob
  constructor
  · exact List.nodup_nil
  · intro id hmem
    exact absurd hmem List.not_mem_nil
  · exact fun id job hjob _ => absurd hjob (hnone id job)
  · exact fun id job hjob _ => absurd hjob (hnone id job)
  · exact fun id job hjob => absurd hjob (hnone id job)
  · exact fun id job hjob => absurd hjob (hnone id job)
  · exact fun id job hjob => absurd hjob (hnone id job)
  · exact fun id houter => nomatch houter
  · intro id
    simp [start]
  · exact fun id job hjob _ => absurd hjob (hnone id job)
  · intro id hmem
    exact absurd hmem List.not_mem_nil
  · exact fun _ id job hjob _ => absurd hjob (hnone id job)
  · exact quiet_nil _
  · exact fun _ => quiet_nil _
  · exact fun _ => quiet_nil _

/-- Names and counts of a run, in which a cancellation may come at any time. -/
theorem tracked_run (h : Tracked A none s) (hcontrolled : Controlled s) {is : List JobInput}
    (hlate : A → Along step (fun s i => ¬ s.CancelsArmed i) s is) :
    Tracked A none (run step s is) ∧ Controlled (run step s is) := by
  induction is generalizing s with
  | nil => exact ⟨h, hcontrolled⟩
  | cons i is ih =>
      obtain ⟨hstep, hcontrolled⟩ := h.step hcontrolled i fun hA => (hlate hA).1
      exact ih hstep hcontrolled fun hA => (hlate hA).2

/-- In every run, a receiver or sender that was cancelled does not reach the handlers of
the socket, no one is released twice, and outside of every callback each one is released
that no worker has. If no sender is cancelled while its dispatch is due, a sender that
was cancelled is not sent either, and its peer not read. -/
theorem silent_run (server : Bool) (is : List JobInput) (s : Jobs)
    (hs : s = run step (start server) is) :
    (Along step (fun s i => ¬ s.CancelsArmed i) (start server) is →
      Quiet .adapterSend s.log ∧ Quiet .peerRead s.log) ∧
    Quiet .handled s.log ∧
    ∀ id, s.log.count (.released id) ≤ 1 ∧
      (s.current = none → .submitted id ∈ s.log →
        (∀ job, s.jobs id = some job → job.worker = false) → s.log.count (.released id) = 1) := by
  obtain ⟨htracked, hcontrolled⟩ := tracked_run
    (tracked_start (Along step (fun s i => ¬ s.CancelsArmed i) (start server) is) server)
    (fun _ => ⟨rfl, rfl⟩) (fun hA => hA)
  rw [← hs] at htracked hcontrolled
  refine ⟨fun hA => ⟨htracked.sendQuiet hA, htracked.readQuiet hA⟩, htracked.handledQuiet,
    fun id => ⟨?_, fun hcurrent hsubmitted hworker => ?_⟩⟩
  · rw [htracked.released id]
    split
    · exact Nat.le_refl 1
    · exact Nat.zero_le 1
  · rw [htracked.released id]
    refine if_pos ⟨hsubmitted, ?_⟩
    obtain ⟨hqueue, houter⟩ := hcontrolled hcurrent
    cases hjob : s.jobs id with
    | none => rfl
    | some job =>
        cases htracked.placed id job hjob nofun with
        | queued place =>
            rw [hqueue] at place
            exact absurd place List.not_mem_nil
        | working _ _ _ worker => exact absurd (worker.symm.trans (hworker job hjob)) nofun
        | requested _ outer =>
            rw [houter] at outer
            cases outer
        | handled _ current =>
            rw [hcurrent] at current
            cases current

end Steps

/-- A sender is cancelled while a worker has it, and a receiver while it is queued. -/
def cancelledInTime : List JobInput :=
  [⟨.plain, .submit 1 .sender false true⟩, ⟨.plain, .finish⟩, ⟨.plain, .cancel 1⟩,
    ⟨.plain, .workerDone 1 false true⟩, ⟨.plain, .submit 2 .receiver false true⟩,
    ⟨.plain, .cancel 2⟩, ⟨.plain, .finish⟩, ⟨.plain, .finish⟩, ⟨.plain, .workerDone 2 true true⟩,
    ⟨.plain, .finish⟩]

theorem silent_run_cancelledInTime :
    Quiet .adapterSend (run step (start true) cancelledInTime).log ∧
    Quiet .handled (run step (start true) cancelledInTime).log ∧
    (run step (start true) cancelledInTime).log.count (.released 1) = 1 ∧
    (run step (start true) cancelledInTime).log.count (.released 2) = 1 := by
  obtain ⟨hsilent, hhandled, hreleased⟩ := silent_run true cancelledInTime _ rfl
  have hcurrent : (run step (start true) cancelledInTime).current = none := by decide +kernel
  have hgone : (run step (start true) cancelledInTime).jobs 1 = none ∧
      (run step (start true) cancelledInTime).jobs 2 = none := by decide +kernel
  refine ⟨(hsilent (by decide +kernel)).1, hhandled, ?_, ?_⟩
  · refine (hreleased 1).2 hcurrent (by decide +kernel) fun job hjob => ?_
    rw [hgone.1] at hjob
    cases hjob
  · refine (hreleased 2).2 hcurrent (by decide +kernel) fun job hjob => ?_
    rw [hgone.2] at hjob
    cases hjob

/-- In a server without encryption a callback submits a sender behind another task, which
cancels it while its dispatch is queued. -/
def cancelledInQueue : List JobInput :=
  [⟨.plain, .other 1⟩, ⟨.plain, .submit 1 .sender true false⟩, ⟨.plain, .other 2⟩,
    ⟨.plain, .finish⟩, ⟨.plain, .finish⟩, ⟨.plain, .cancel 1⟩]

theorem not_quiet_cancelledInQueue :
    ¬ ∀ (server : Bool) (is : List JobInput),
      Quiet .adapterSend (run step (start server) is).log ∧
        Quiet .peerRead (run step (start server) is).log := by
  intro h
  have hquiet := (h true (cancelledInQueue ++ [⟨.plain, .finish⟩])).2
  have hlog : (run step (start true) (cancelledInQueue ++ [⟨.plain, .finish⟩])).log =
      [.submitted 1, .canceled 1, .peerRead 1, .adapterSend 1] := by decide +kernel
  rw [hlog] at hquiet
  exact hquiet 1 [.submitted 1, .canceled 1] [.adapterSend 1] rfl (by decide)

end Jobs

end Protocol

end PomeloUdp
