import Mathlib.Data.List.Basic
import PomeloUdp.Base.Pipeline
import PomeloUdp.Library.Run
import PomeloUdp.Library.Sequencer

/-!
# Runs of a pipeline

`PipelineSystem` is a `pomelo_pipeline_t` with the sequencer it may have and the calls
that have not returned. Stages and the other tasks of the sequencer may make any calls
in any order: the calls are the events of a run, and so are the steps of
`pomelo_pipeline_execute` and of the loop of `pomelo_sequencer_submit` in between. An
assertion that fails ends the run.

The invariant follows the index: the pipeline is due when its task waits in the
sequencer or is about to be run, and as long as it is due the current stage has not been
executed yet.
-/

namespace PomeloUdp

namespace Base

open Machine

/-- `pomelo_pipeline_t`; the numbers of type `size_t` have 64 bits. -/
structure PipelineState where
  taskCount : UInt64
  taskIndex : UInt64
  busy : Bool
  next : Bool
  finish : Bool
  deriving DecidableEq

/-- A call that has not returned. -/
inductive Frame where
  /-- A stage of the pipeline. -/
  | stage
  /-- Another task of the sequencer. -/
  | other
  /-- `pomelo_pipeline_execute` before it runs the task. -/
  | run
  /-- `pomelo_pipeline_execute` after the task was run or submitted. -/
  | check
  /-- The loop of `pomelo_sequencer_submit`. -/
  | drain
  deriving DecidableEq

/-- A task of the sequencer: the one of the pipeline or another one. -/
inductive QueuedTask where
  | pipeline
  | other (id : ℕ)
  deriving DecidableEq

/-- A pipeline, its sequencer and the calls on the stack, the innermost first. The
executed stages and the calls of `pomelo_pipeline_finish` are those since the last
start. -/
structure PipelineSystem where
  pipeline : PipelineState
  sequenced : Bool
  queue : List QueuedTask
  sequencerBusy : Bool
  stack : List Frame
  executed : List UInt64
  started : Bool
  finishIssued : Bool
  failed : Bool
  deriving DecidableEq

/-- The calls that stages, other tasks and code outside make, their return, and the
steps in between. -/
inductive PipelineEvent where
  | start
  | next
  | finish
  | submit (id : ℕ)
  | ret
  | internal
  deriving DecidableEq

namespace PipelineState

/-- The index of the last task, which is the largest number when there is none. -/
def last (p : PipelineState) : UInt64 := p.taskCount - 1

/-- The flags in `pomelo_pipeline_execute` after the task was run, and whether the loop
continues. -/
def checked (p : PipelineState) : PipelineState × Bool :=
  if p.finish ∧ p.taskIndex ≠ p.last then
    ({ p with finish := false, taskIndex := p.last }, true)
  else if p.next ∧ p.taskIndex ≠ p.last then
    ({ p with finish := false, next := false, taskIndex := p.taskIndex + 1 }, true)
  else ({ p with finish := false, next := false, busy := false }, false)

end PipelineState

namespace PipelineSystem

variable (s : PipelineSystem)

/-- After `pomelo_pipeline_init`, with or without a sequencer. -/
def init (taskCount : UInt64) (sequenced : Bool) : PipelineSystem :=
  ⟨⟨taskCount, 0, false, false, false⟩, sequenced, [], false, [], [], false, false, false⟩

/-- `pomelo_pipeline_execute_current_task` up to the call of the stage. -/
def executeCurrentTask : PipelineSystem :=
  if s.pipeline.taskIndex < s.pipeline.taskCount then
    { s with executed := s.executed ++ [s.pipeline.taskIndex], stack := .stage :: s.stack }
  else { s with failed := true }

/-- `pomelo_sequencer_submit` up to its loop. -/
def submit (task : QueuedTask) : PipelineSystem :=
  let s := { s with queue := Sequencer.submit s.queue task }
  if s.sequencerBusy then s else { s with sequencerBusy := true, stack := .drain :: s.stack }

/-- The call of `pomelo_pipeline_execute`. -/
def execute : PipelineSystem :=
  { s with pipeline := { s.pipeline with busy := true }, stack := .run :: s.stack }

/-- `pomelo_pipeline_start`. -/
def start : PipelineSystem :=
  let s := { s with
    pipeline := ⟨s.pipeline.taskCount, 0, false, false, false⟩
    executed := []
    started := true
    finishIssued := false }
  if s.pipeline.taskCount = 0 then s else s.execute

/-- `pomelo_pipeline_next`. -/
def next : PipelineSystem :=
  if s.pipeline.taskIndex = s.pipeline.last then s
  else if s.pipeline.busy then { s with pipeline := { s.pipeline with next := true } }
  else
    { s with pipeline := { s.pipeline with taskIndex := s.pipeline.taskIndex + 1 } }.execute

/-- `pomelo_pipeline_finish`. -/
def finish : PipelineSystem :=
  let s := { s with finishIssued := true }
  if s.pipeline.taskIndex = s.pipeline.last then s
  else if s.pipeline.busy then { s with pipeline := { s.pipeline with finish := true } }
  else { s with pipeline := { s.pipeline with taskIndex := s.pipeline.last } }.execute

/-- One step of the call on the top of the stack: of `pomelo_pipeline_execute` or of the loop of
`pomelo_sequencer_submit`. -/
def internal : PipelineSystem :=
  match s.stack with
  | .run :: rest =>
      let s := { s with stack := .check :: rest }
      if s.sequenced then s.submit .pipeline else s.executeCurrentTask
  | .check :: rest =>
      let checked := s.pipeline.checked
      { s with pipeline := checked.1, stack := if checked.2 then .run :: rest else rest }
  | .drain :: rest =>
      match s.queue with
      | [] => { s with sequencerBusy := false, stack := rest }
      | .pipeline :: queue => { s with queue }.executeCurrentTask
      | .other _ :: queue => { s with queue, stack := .other :: s.stack }
  | _ => s

def step : PipelineEvent → PipelineSystem
  | .start => s.start
  | .next => s.next
  | .finish => s.finish
  | .submit id => s.submit (.other id)
  | .ret => { s with stack := s.stack.tail }
  | .internal => s.internal

/-- Calls are made by stages, by other tasks or from outside, which is where the control
is between the steps of the pipeline and of the sequencer. -/
def Enabled (s : PipelineSystem) (event : PipelineEvent) : Prop :=
  s.failed = false ∧
    match event with
    | .ret => s.stack.head? = some .stage ∨ s.stack.head? = some .other
    | .internal =>
        s.stack.head? = some .run ∨ s.stack.head? = some .check ∨ s.stack.head? = some .drain
    | _ => s.stack.head? = none ∨ s.stack.head? = some .stage ∨ s.stack.head? = some .other

instance (s : PipelineSystem) (event : PipelineEvent) : Decidable (s.Enabled event) := by
  cases event <;> unfold Enabled <;> infer_instance

/-- The current stage is about to be executed, now or by the sequencer. -/
def Due : Prop := s.stack.head? = some .run ∨ .pipeline ∈ s.queue

/-- What holds between any two steps. -/
structure Advancing : Prop where
  inRange : s.pipeline.taskCount ≠ 0 → s.pipeline.taskIndex < s.pipeline.taskCount
  empty : s.pipeline.taskCount = 0 → s.executed = []
  idle : s.pipeline.busy = false → s.pipeline.next = false ∧ s.pipeline.finish = false
  owner : s.pipeline.busy = true → .run ∈ s.stack ∨ .check ∈ s.stack
  run_notMem : .run ∉ s.stack.tail
  nodup : s.queue.Nodup
  direct : s.sequenced = false → .pipeline ∉ s.queue
  increasing : s.executed.Pairwise (· < ·)
  upTo : ∀ i ∈ s.executed, i ≤ s.pipeline.taskIndex
  due : s.Due → ∀ i ∈ s.executed, i < s.pipeline.taskIndex
  current : s.started = true → s.pipeline.taskCount ≠ 0 →
    s.pipeline.taskIndex ∈ s.executed ∨ s.Due
  finishing : s.finishIssued = true →
    s.pipeline.taskIndex = s.pipeline.last ∨ s.pipeline.finish = true

section Indices

variable {p : PipelineState}

theorem last_lt (h : p.taskCount ≠ 0) : p.last < p.taskCount := by
  have hcount : p.taskCount.toNat ≠ 0 := fun hzero => h (UInt64.toNat_inj.mp hzero)
  have hlt := p.taskCount.toNat_lt
  rw [UInt64.lt_iff_toNat_lt, PipelineState.last, UInt64.toNat_sub]
  simp only [UInt64.reduceToNat]
  omega

theorem index_lt_succ (h : p.taskIndex < p.taskCount) (hlast : p.taskIndex ≠ p.last) :
    p.taskIndex < p.taskIndex + 1 ∧ p.taskIndex + 1 < p.taskCount := by
  have hne : p.taskIndex.toNat ≠ p.last.toNat := fun heq => hlast (UInt64.toNat_inj.mp heq)
  have hlt := p.taskCount.toNat_lt
  rw [UInt64.lt_iff_toNat_lt] at h
  simp only [UInt64.lt_iff_toNat_lt, UInt64.toNat_add, UInt64.reduceToNat]
  rw [PipelineState.last, UInt64.toNat_sub] at hne
  simp only [UInt64.reduceToNat] at hne
  omega

theorem index_lt_last (h : p.taskIndex < p.taskCount) (hlast : p.taskIndex ≠ p.last) :
    p.taskIndex < p.last := by
  have hne : p.taskIndex.toNat ≠ p.last.toNat := fun heq => hlast (UInt64.toNat_inj.mp heq)
  have hlt := p.taskCount.toNat_lt
  rw [UInt64.lt_iff_toNat_lt] at h ⊢
  rw [PipelineState.last, UInt64.toNat_sub] at hne ⊢
  simp only [UInt64.reduceToNat] at hne ⊢
  omega

end Indices

section Steps

variable {s : PipelineSystem}

theorem advancing_init (taskCount : UInt64) (sequenced : Bool) :
    (init taskCount sequenced).Advancing where
  inRange hcount := UInt64.pos_iff_ne_zero.mpr hcount
  empty _ := rfl
  idle _ := ⟨rfl, rfl⟩
  owner hbusy := by cases hbusy
  run_notMem := by simp [init]
  nodup := List.nodup_nil
  direct _ := by simp [init]
  increasing := List.Pairwise.nil
  upTo := by simp [init]
  due := by simp [init]
  current hstarted := by cases hstarted
  finishing hfinish := by cases hfinish

/-- The current stage has not been executed and nothing above is about to run it: the
state in which a call of `pomelo_pipeline_execute` is made. -/
structure Ready (s : PipelineSystem) : Prop where
  inRange : s.pipeline.taskCount ≠ 0 → s.pipeline.taskIndex < s.pipeline.taskCount
  empty : s.pipeline.taskCount = 0 → s.executed = []
  idle : s.pipeline.busy = false → s.pipeline.next = false ∧ s.pipeline.finish = false
  run_notMem : .run ∉ s.stack
  nodup : s.queue.Nodup
  direct : s.sequenced = false → .pipeline ∉ s.queue
  increasing : s.executed.Pairwise (· < ·)
  ahead : ∀ i ∈ s.executed, i < s.pipeline.taskIndex
  finishing : s.finishIssued = true →
    s.pipeline.taskIndex = s.pipeline.last ∨ s.pipeline.finish = true

theorem Ready.withStack (h : s.Ready) {stack : List Frame} (hrun : .run ∉ stack) :
    { s with stack }.Ready where
  inRange := h.inRange
  empty := h.empty
  idle := h.idle
  run_notMem := hrun
  nodup := h.nodup
  direct := h.direct
  increasing := h.increasing
  ahead := h.ahead
  finishing := h.finishing

/-- Putting the call on the stack. -/
theorem Ready.run (h : s.Ready) : { s with stack := .run :: s.stack }.Advancing where
  inRange := h.inRange
  empty := h.empty
  idle := h.idle
  owner _ := .inl (List.mem_cons_self ..)
  run_notMem := h.run_notMem
  nodup := h.nodup
  direct := h.direct
  increasing := h.increasing
  upTo i hi := UInt64.le_of_lt (h.ahead i hi)
  due _ := h.ahead
  current _ _ := .inr (.inl rfl)
  finishing := h.finishing

theorem Ready.execute (h : s.Ready) : s.execute.Advancing :=
  have hbusy : { s with pipeline := { s.pipeline with busy := true } }.Ready :=
    { h with idle := fun hbusy => by cases hbusy }
  hbusy.run

theorem Ready.executeCurrentTask (h : s.Ready) (hqueue : .pipeline ∉ s.queue)
    (howner : s.pipeline.busy = true → .check ∈ s.stack) : s.executeCurrentTask.Advancing := by
  unfold PipelineSystem.executeCurrentTask
  split
  · rename_i hlt
    exact {
      inRange := h.inRange
      empty := fun hcount => absurd (hcount ▸ hlt) UInt64.not_lt_zero
      idle := h.idle
      owner := fun hbusy => .inr (List.mem_cons_of_mem _ (howner hbusy))
      run_notMem := h.run_notMem
      nodup := h.nodup
      direct := h.direct
      increasing := List.pairwise_append.mpr
        ⟨h.increasing, List.pairwise_singleton _ _, fun i hi j hj =>
          List.mem_singleton.mp hj ▸ h.ahead i hi⟩
      upTo := fun i hi => (List.mem_append.mp hi).elim (fun hi => UInt64.le_of_lt (h.ahead i hi))
        fun hi => List.mem_singleton.mp hi ▸ UInt64.le_refl _
      due := fun hdue => hdue.elim (fun hrun => by cases hrun) fun hwaits => absurd hwaits hqueue
      current := fun _ _ => .inl (List.mem_append_right _ (List.mem_singleton_self _))
      finishing := h.finishing }
  · rename_i hge
    -- Only a pipeline without stages gets here.
    have hcount : s.pipeline.taskCount = 0 := by
      by_contra hcount
      exact hge (h.inRange hcount)
    exact {
      inRange := h.inRange
      empty := h.empty
      idle := h.idle
      owner := fun hbusy => .inr (howner hbusy)
      run_notMem := fun hmem => h.run_notMem (List.mem_of_mem_tail hmem)
      nodup := h.nodup
      direct := h.direct
      increasing := h.increasing
      upTo := fun i hi => UInt64.le_of_lt (h.ahead i hi)
      due := fun _ => h.ahead
      current := fun _ hne => absurd hcount hne
      finishing := h.finishing }

theorem Ready.submit (h : s.Ready) (hsequenced : s.sequenced = true)
    (howner : s.pipeline.busy = true → .check ∈ s.stack) : (s.submit .pipeline).Advancing := by
  have hqueued {stack : List Frame} {sequencerBusy : Bool} (hrun : .run ∉ stack)
      (hcheck : s.pipeline.busy = true → .check ∈ stack) :
      { s with
        queue := Sequencer.submit s.queue .pipeline
        stack
        sequencerBusy }.Advancing := {
    inRange := h.inRange
    empty := h.empty
    idle := h.idle
    owner := fun hbusy => .inr (hcheck hbusy)
    run_notMem := fun hmem => hrun (List.mem_of_mem_tail hmem)
    nodup := Sequencer.nodup_submit h.nodup _
    direct := fun hdirect => by rw [hsequenced] at hdirect; cases hdirect
    increasing := h.increasing
    upTo := fun i hi => UInt64.le_of_lt (h.ahead i hi)
    due := fun _ => h.ahead
    current := fun _ _ => .inr (.inr (Sequencer.mem_submit.mpr (.inl rfl)))
    finishing := h.finishing }
  unfold PipelineSystem.submit
  dsimp only
  split
  · exact hqueued h.run_notMem howner
  · exact hqueued (by simpa using h.run_notMem) fun hbusy => List.mem_cons_of_mem _ (howner hbusy)

theorem Advancing.ready (h : s.Advancing) (hrun : .run ∉ s.stack) {p : PipelineState}
    (hp : p.taskCount = s.pipeline.taskCount)
    (hindex : s.pipeline.taskCount ≠ 0 → s.pipeline.taskIndex < p.taskIndex ∧
      p.taskIndex < s.pipeline.taskCount)
    (hidle : p.busy = false → p.next = false ∧ p.finish = false)
    (hfinishing : s.finishIssued = true → p.taskIndex = p.last ∨ p.finish = true) :
    { s with pipeline := p }.Ready where
  inRange hcount := hp ▸ (hindex (hp ▸ hcount)).2
  empty hcount := h.empty (hp ▸ hcount)
  idle := hidle
  run_notMem := hrun
  nodup := h.nodup
  direct := h.direct
  increasing := h.increasing
  ahead i hi := by
    by_cases hcount : s.pipeline.taskCount = 0
    · rw [h.empty hcount] at hi
      cases hi
    · exact UInt64.lt_of_le_of_lt (h.upTo i hi) (hindex hcount).1
  finishing := hfinishing

theorem Advancing.notMem (h : s.Advancing) (hhead : s.stack.head? ≠ some .run) :
    .run ∉ s.stack := by
  have htail := h.run_notMem
  cases hstack : s.stack with
  | nil => exact List.not_mem_nil
  | cons frame rest =>
      rw [hstack] at hhead htail
      intro hmem
      obtain rfl | hmem := List.mem_cons.mp hmem
      · exact hhead rfl
      · exact htail hmem

theorem Advancing.start (h : s.Advancing) (hrun : .run ∉ s.stack) : s.start.Advancing := by
  unfold PipelineSystem.start
  dsimp only
  split
  · rename_i hcount
    exact {
      inRange := fun hne => absurd hcount hne
      empty := fun _ => rfl
      idle := fun _ => ⟨rfl, rfl⟩
      owner := fun hbusy => by cases hbusy
      run_notMem := h.run_notMem
      nodup := h.nodup
      direct := h.direct
      increasing := List.Pairwise.nil
      upTo := fun _ hi => by cases hi
      due := fun _ _ hi => by cases hi
      current := fun _ hne => absurd hcount hne
      finishing := fun hfinish => by cases hfinish }
  · refine Ready.execute {
      inRange := fun hne => UInt64.pos_iff_ne_zero.mpr hne
      empty := fun _ => rfl
      idle := fun _ => ⟨rfl, rfl⟩
      run_notMem := hrun
      nodup := h.nodup
      direct := h.direct
      increasing := List.Pairwise.nil
      ahead := fun _ hi => by cases hi
      finishing := fun hfinish => by cases hfinish }

theorem Advancing.flag (h : s.Advancing) (hbusy : s.pipeline.busy = true) {p : PipelineState}
    (hp : p = { s.pipeline with next := p.next, finish := p.finish })
    (hfinish : s.pipeline.finish = true → p.finish = true) :
    { s with pipeline := p }.Advancing := by
  rw [hp]
  exact {
    inRange := h.inRange
    empty := h.empty
    idle := fun hidle => by rw [hbusy] at hidle; cases hidle
    owner := h.owner
    run_notMem := h.run_notMem
    nodup := h.nodup
    direct := h.direct
    increasing := h.increasing
    upTo := h.upTo
    due := h.due
    current := h.current
    finishing := fun hissued => (h.finishing hissued).imp_right hfinish }

theorem Advancing.next (h : s.Advancing) (hrun : .run ∉ s.stack) : s.next.Advancing := by
  unfold PipelineSystem.next
  split
  · exact h
  rename_i hlast
  split
  · rename_i hbusy
    exact h.flag hbusy rfl id
  · rename_i hbusy
    have hidle := h.idle (Bool.not_eq_true _ ▸ hbusy)
    have hissued (hissued : s.finishIssued = true) : s.pipeline.finish = true :=
      (h.finishing hissued).resolve_left hlast
    have hready := h.ready hrun (p := { s.pipeline with taskIndex := s.pipeline.taskIndex + 1 }) rfl
      (fun hcount => index_lt_succ (h.inRange hcount) hlast) (fun _ => hidle)
      fun hfinish => .inr (hissued hfinish)
    exact hready.execute

theorem Advancing.finish (h : s.Advancing) (hrun : .run ∉ s.stack) : s.finish.Advancing := by
  unfold PipelineSystem.finish
  dsimp only
  split
  · rename_i hlast
    exact { h with finishing := fun _ => .inl hlast }
  rename_i hlast
  split
  · rename_i hbusy
    have hflag := h.flag hbusy (p := { s.pipeline with finish := true }) rfl fun _ => rfl
    exact { hflag with finishing := fun _ => .inr rfl }
  · rename_i hbusy
    have hready := h.ready hrun (p := { s.pipeline with taskIndex := s.pipeline.last }) rfl
      (fun hcount => ⟨index_lt_last (h.inRange hcount) hlast, last_lt hcount⟩)
      (fun _ => h.idle (Bool.not_eq_true _ ▸ hbusy)) fun _ => .inl rfl
    exact Ready.execute { hready with finishing := fun _ => .inl rfl }

theorem Advancing.congr (h : s.Advancing) {queue : List QueuedTask} {stack : List Frame}
    {sequencerBusy : Bool} (hrun : .run ∉ s.stack) (hrun' : .run ∉ stack)
    (hcheck : .check ∈ s.stack → .check ∈ stack) (hnodup : queue.Nodup)
    (hqueue : .pipeline ∈ queue ↔ .pipeline ∈ s.queue) :
    { s with queue, stack, sequencerBusy }.Advancing := by
  have hdue : { s with queue, stack, sequencerBusy }.Due ↔ s.Due :=
    or_congr (iff_of_false (fun hhead => hrun' (List.mem_of_mem_head? hhead))
      fun hhead => hrun (List.mem_of_mem_head? hhead)) hqueue
  exact {
    inRange := h.inRange
    empty := h.empty
    idle := h.idle
    owner := fun hbusy => .inr (hcheck ((h.owner hbusy).resolve_left hrun))
    run_notMem := fun hmem => hrun' (List.mem_of_mem_tail hmem)
    nodup := hnodup
    direct := fun hsequenced hmem => h.direct hsequenced (hqueue.mp hmem)
    increasing := h.increasing
    upTo := h.upTo
    due := fun hdue' => h.due (hdue.mp hdue')
    current := fun hstarted hcount => (h.current hstarted hcount).imp_right hdue.mpr
    finishing := h.finishing }

theorem Advancing.submitOther (h : s.Advancing) (hrun : .run ∉ s.stack) (id : ℕ) :
    (s.submit (.other id)).Advancing := by
  unfold submit
  dsimp only
  split
  · exact h.congr hrun hrun (fun hcheck => hcheck) (Sequencer.nodup_submit h.nodup _) (by simp)
  · exact h.congr hrun (by simpa using hrun) (List.mem_cons_of_mem _)
      (Sequencer.nodup_submit h.nodup _) (by simp)

theorem Advancing.ret (h : s.Advancing)
    (htop : s.stack.head? = some .stage ∨ s.stack.head? = some .other) :
    { s with stack := s.stack.tail }.Advancing := by
  have hrun := h.notMem (by rintro hhead; rw [hhead] at htop; simp at htop)
  refine h.congr hrun (fun hmem => hrun (List.mem_of_mem_tail hmem)) (fun hcheck => ?_) h.nodup
    Iff.rfl
  cases hstack : s.stack with
  | nil => rw [hstack] at hcheck; cases hcheck
  | cons frame rest =>
      rw [hstack] at hcheck htop
      obtain rfl | hcheck := List.mem_cons.mp hcheck
      · simp at htop
      · exact hcheck

variable {rest : List Frame}

/-- What the loop of `pomelo_pipeline_execute` does with the task. -/
theorem Advancing.internal_run (h : s.Advancing) (hstack : s.stack = .run :: rest) :
    s.internal.Advancing := by
  have hready : { s with stack := .check :: rest }.Ready := {
    inRange := h.inRange
    empty := h.empty
    idle := h.idle
    run_notMem := by
      have hrun := h.run_notMem
      rw [hstack] at hrun
      simpa using hrun
    nodup := h.nodup
    direct := h.direct
    increasing := h.increasing
    ahead := h.due (.inl (by rw [hstack]; rfl))
    finishing := h.finishing }
  unfold internal
  rw [hstack]
  dsimp only
  split
  · rename_i hsequenced
    exact hready.submit hsequenced fun _ => List.mem_cons_self ..
  · rename_i hdirect
    exact hready.executeCurrentTask (h.direct (Bool.not_eq_true _ ▸ hdirect))
      fun _ => List.mem_cons_self ..

theorem Advancing.internal_check (h : s.Advancing) (hstack : s.stack = .check :: rest) :
    s.internal.Advancing := by
  have hnone : .run ∉ s.stack := h.notMem (by rw [hstack]; simp)
  have hrun : .run ∉ rest := fun hmem => hnone (hstack ▸ List.mem_cons_of_mem _ hmem)
  have hbusy (hflag : s.pipeline.next = true ∨ s.pipeline.finish = true) :
      s.pipeline.busy = true := by
    by_contra hidle
    obtain ⟨hnext, hfinish⟩ := h.idle (Bool.not_eq_true _ ▸ hidle)
    rw [hnext, hfinish] at hflag
    simp at hflag
  unfold internal PipelineState.checked
  rw [hstack]
  dsimp only
  split
  · rename_i hfinish
    have hready := h.ready hnone
      (p := { s.pipeline with finish := false, taskIndex := s.pipeline.last }) rfl
      (fun hcount => ⟨index_lt_last (h.inRange hcount) hfinish.2, last_lt hcount⟩)
      (fun hidle => by rw [hbusy (.inr hfinish.1)] at hidle; cases hidle) fun _ => .inl rfl
    exact (hready.withStack hrun).run
  rename_i hfinish
  split
  · rename_i hnext
    -- With another stage than the last one ahead, no finish has been issued.
    have hissued : s.finishIssued ≠ true := fun hissued =>
      (h.finishing hissued).elim hnext.2 fun hflag => hfinish ⟨hflag, hnext.2⟩
    have hready := h.ready hnone
      (p := { s.pipeline with
        finish := false, next := false, taskIndex := s.pipeline.taskIndex + 1 }) rfl
      (fun hcount => index_lt_succ (h.inRange hcount) hnext.2) (fun _ => ⟨rfl, rfl⟩)
      fun hfinish => absurd hfinish hissued
    exact (hready.withStack hrun).run
  · have hdue : { s with stack := rest }.Due ↔ s.Due := by
      simp only [Due, hstack]
      exact or_congr (iff_of_false (fun hhead => hrun (List.mem_of_mem_head? hhead)) (by simp))
        Iff.rfl
    exact {
      inRange := h.inRange
      empty := h.empty
      idle := fun _ => ⟨rfl, rfl⟩
      owner := fun hidle => by cases hidle
      run_notMem := fun hmem => hrun (List.mem_of_mem_tail hmem)
      nodup := h.nodup
      direct := h.direct
      increasing := h.increasing
      upTo := h.upTo
      due := fun hdue' => h.due (hdue.mp hdue')
      current := fun hstarted hcount => (h.current hstarted hcount).imp_right hdue.mpr
      finishing := fun hissued => .inl ((h.finishing hissued).elim id fun hflag => by
        by_contra hlast
        exact hfinish ⟨hflag, hlast⟩) }

/-- What the loop of `pomelo_sequencer_submit` does. -/
theorem Advancing.internal_drain (h : s.Advancing) (hstack : s.stack = .drain :: rest) :
    s.internal.Advancing := by
  have hrun : .run ∉ s.stack := h.notMem (by rw [hstack]; simp)
  have hrest : .run ∉ rest := fun hmem => hrun (hstack ▸ List.mem_cons_of_mem _ hmem)
  have hcheck (hmem : .check ∈ s.stack) : .check ∈ rest := by
    rw [hstack] at hmem
    simpa using hmem
  have hnodup := h.nodup
  unfold internal
  rw [hstack]
  dsimp only
  split
  · exact h.congr hrun hrest hcheck h.nodup Iff.rfl
  · rename_i queue hqueue
    rw [hqueue] at hnodup
    refine Ready.executeCurrentTask {
      inRange := h.inRange
      empty := h.empty
      idle := h.idle
      run_notMem := by simpa using hrest
      nodup := hnodup.of_cons
      direct := fun hdirect => absurd (hqueue ▸ List.mem_cons_self ..) (h.direct hdirect)
      increasing := h.increasing
      ahead := h.due (.inr (hqueue ▸ List.mem_cons_self ..))
      finishing := h.finishing } (List.nodup_cons.mp hnodup).1 fun hbusy => ?_
    exact List.mem_cons_of_mem _ (hcheck ((h.owner hbusy).resolve_left hrun))
  · rename_i id queue hqueue
    rw [hqueue] at hnodup
    refine h.congr hrun (by simpa using hrest) (fun hmem => ?_) hnodup.of_cons
      (by rw [hqueue]; simp)
    exact List.mem_cons_of_mem _ (List.mem_cons_of_mem _ (hcheck hmem))

theorem advancing_step (h : s.Advancing) {event : PipelineEvent} (henabled : s.Enabled event) :
    (s.step event).Advancing := by
  obtain ⟨-, htop⟩ := henabled
  have hcalled (htop : s.stack.head? = none ∨ s.stack.head? = some .stage ∨
      s.stack.head? = some .other) : .run ∉ s.stack := by
    refine h.notMem fun hhead => ?_
    rw [hhead] at htop
    simp at htop
  cases event with
  | start => exact h.start (hcalled htop)
  | next => exact h.next (hcalled htop)
  | finish => exact h.finish (hcalled htop)
  | submit id => exact h.submitOther (hcalled htop) id
  | ret => exact h.ret htop
  | internal =>
      obtain hhead | hhead | hhead := htop
      · obtain ⟨rest, hstack⟩ := List.head?_eq_some_iff.mp hhead
        exact h.internal_run hstack
      · obtain ⟨rest, hstack⟩ := List.head?_eq_some_iff.mp hhead
        exact h.internal_check hstack
      · obtain ⟨rest, hstack⟩ := List.head?_eq_some_iff.mp hhead
        exact h.internal_drain hstack

theorem taskCount_step (s : PipelineSystem) (event : PipelineEvent) :
    (s.step event).pipeline.taskCount = s.pipeline.taskCount := by
  have hexecute (s : PipelineSystem) :
      s.executeCurrentTask.pipeline.taskCount = s.pipeline.taskCount := by
    unfold executeCurrentTask
    split <;> rfl
  have hsubmit (s : PipelineSystem) (task : QueuedTask) :
      (s.submit task).pipeline.taskCount = s.pipeline.taskCount := by
    unfold submit
    dsimp only
    split <;> rfl
  cases event with
  | start =>
      simp only [step, start]
      split <;> rfl
  | next =>
      simp only [step, next]
      split
      · rfl
      · split <;> rfl
  | finish =>
      simp only [step, finish]
      split
      · rfl
      · split <;> rfl
  | submit id => exact hsubmit s _
  | ret => rfl
  | internal =>
      simp only [step, internal]
      split
      · split
        · exact hsubmit _ _
        · exact hexecute _
      · simp only [PipelineState.checked]
        split
        · rfl
        · split <;> rfl
      · split
        · rfl
        · exact hexecute _
        · rfl
      · rfl

end Steps

section Plain

variable {p : PipelineState}

/-- The pipeline of a sender or of a receiver, with natural numbers. -/
def plain (p : PipelineState) : Pipeline :=
  ⟨p.taskCount.toNat, p.taskIndex.toNat, p.busy, p.next, p.finish⟩

theorem plain_last (h : p.taskCount ≠ 0) : (plain p).last = p.last.toNat := by
  have hcount : 1 ≤ p.taskCount := UInt64.le_iff_toNat_le.mpr
    (Nat.pos_of_ne_zero fun hzero => h (UInt64.toNat_inj.mp hzero))
  rw [PipelineState.last, UInt64.toNat_sub_of_le _ _ hcount]
  rfl

theorem plain_index_eq_iff (h : p.taskCount ≠ 0) :
    (plain p).taskIndex = (plain p).last ↔ p.taskIndex = p.last := by
  rw [plain_last h]
  exact UInt64.toNat_inj

theorem toNat_succ_index (h : p.taskIndex < p.taskCount) (hlast : p.taskIndex ≠ p.last) :
    (p.taskIndex + 1).toNat = p.taskIndex.toNat + 1 := by
  have hsucc := (index_lt_succ h hlast).1
  have hlt := p.taskIndex.toNat_lt
  rw [UInt64.lt_iff_toNat_lt, UInt64.toNat_add] at hsucc
  rw [UInt64.toNat_add]
  simp only [UInt64.reduceToNat] at hsucc ⊢
  omega

/-- The loop of `pomelo_pipeline_execute` is the one of the senders and receivers. -/
theorem plain_checked (hcount : p.taskCount ≠ 0) (hindex : p.taskIndex < p.taskCount) :
    (plain p).returned = (plain p.checked.1, p.checked.2) := by
  have hlast := plain_index_eq_iff hcount
  have hmoved : { plain p with finish := false, taskIndex := (plain p).last } =
      plain { p with finish := false, taskIndex := p.last } := by
    rw [plain_last hcount]
    rfl
  have hfinish : (plain p).finish = p.finish := rfl
  have hnext : (plain p).next = p.next := rfl
  unfold Pipeline.returned PipelineState.checked
  simp only [ne_eq, hlast, hfinish, hnext]
  split
  · exact Prod.ext hmoved rfl
  · split
    · rename_i hnext
      simp only [plain, toNat_succ_index hindex hnext.2]
    · rfl

theorem plain_next {s : PipelineSystem} (hcount : s.pipeline.taskCount ≠ 0)
    (hindex : s.pipeline.taskIndex < s.pipeline.taskCount) :
    let moved := (plain s.pipeline).advance
    plain s.next.pipeline = if moved.2 then { moved.1 with busy := true } else moved.1 := by
  have hlast := plain_index_eq_iff hcount
  have hbusy : (plain s.pipeline).busy = s.pipeline.busy := rfl
  unfold Pipeline.advance PipelineSystem.next
  simp only [hlast, hbusy]
  split
  · rfl
  · rename_i hne
    split
    · rfl
    · simp only [PipelineSystem.execute, plain, toNat_succ_index hindex hne, if_true]

theorem plain_finish {s : PipelineSystem} (hcount : s.pipeline.taskCount ≠ 0) :
    let moved := (plain s.pipeline).conclude
    plain s.finish.pipeline = if moved.2 then { moved.1 with busy := true } else moved.1 := by
  have hlast := plain_index_eq_iff hcount
  have hbusy : (plain s.pipeline).busy = s.pipeline.busy := rfl
  unfold Pipeline.conclude PipelineSystem.finish
  simp only [hlast, hbusy]
  split
  · rfl
  · split
    · rfl
    · simp only [if_true, plain_last hcount]
      rfl

end Plain

section Results

variable {s : PipelineSystem}

theorem Advancing.last_of_append (h : s.Advancing) {xs ys : List UInt64}
    (hexecuted : s.executed = xs ++ s.pipeline.last :: ys) :
    s.pipeline.last ∉ xs ∧ ys = [] := by
  have hincreasing := h.increasing
  rw [hexecuted, List.pairwise_append, List.pairwise_cons] at hincreasing
  obtain ⟨-, ⟨hafter, -⟩, hbefore⟩ := hincreasing
  refine ⟨fun hmem => ?_, List.eq_nil_iff_forall_not_mem.mpr fun i hi => ?_⟩
  · exact UInt64.lt_irrefl _ (hbefore _ hmem _ (List.mem_cons_self ..))
  · have hmem : i ∈ s.executed := by
      rw [hexecuted]
      exact List.mem_append_right _ (List.mem_cons_of_mem _ hi)
    by_cases hcount : s.pipeline.taskCount = 0
    · rw [h.empty hcount] at hmem
      cases hmem
    · have hlt := UInt64.lt_of_lt_of_le (hafter i hi) (h.upTo i hmem)
      by_cases hlast : s.pipeline.taskIndex = s.pipeline.last
      · exact UInt64.lt_irrefl _ (hlast ▸ hlt)
      · exact UInt64.lt_asymm hlt (index_lt_last (h.inRange hcount) hlast)

theorem Advancing.last_mem (h : s.Advancing) (hstarted : s.started = true)
    (hissued : s.finishIssued = true) (hstack : s.stack = []) (hqueue : s.queue = [])
    (hcount : s.pipeline.taskCount ≠ 0) : s.pipeline.last ∈ s.executed := by
  have hidle : s.pipeline.busy ≠ true := fun hbusy => by
    have howner := h.owner hbusy
    rw [hstack] at howner
    simp at howner
  have hfinish := (h.idle (Bool.not_eq_true _ ▸ hidle)).2
  have hindex := (h.finishing hissued).resolve_right (by rw [hfinish]; exact Bool.false_ne_true)
  have hdue : ¬s.Due := by simp [Due, hstack, hqueue]
  exact hindex ▸ (h.current hstarted hcount).resolve_right hdue

end Results

/-- Between two starts the executed stages strictly increase, the last one is executed
at most once and nothing after it, and it has been executed when a finish was issued and
no call and no task is left. -/
theorem pipeline_run (taskCount : UInt64) (sequenced : Bool) (events : List PipelineEvent)
    (h : Along step Enabled (init taskCount sequenced) events) :
    let s := run step (init taskCount sequenced) events
    s.executed.Pairwise (· < ·) ∧
      (∀ xs ys, s.executed = xs ++ (taskCount - 1) :: ys → taskCount - 1 ∉ xs ∧ ys = []) ∧
      (taskCount ≠ 0 → s.started = true → s.finishIssued = true → s.stack = [] →
        s.queue = [] → taskCount - 1 ∈ s.executed) := by
  intro s
  have hadvancing : s.Advancing ∧ s.pipeline.taskCount = taskCount :=
    invariant_run (I := fun s => s.Advancing ∧ s.pipeline.taskCount = taskCount)
      (fun s event hs henabled =>
        ⟨advancing_step hs.1 henabled, (taskCount_step s event).trans hs.2⟩)
      ⟨advancing_init taskCount sequenced, rfl⟩ h
  obtain ⟨hs, hcount⟩ := hadvancing
  have hlast : s.pipeline.last = taskCount - 1 := by rw [PipelineState.last, hcount]
  refine ⟨hs.increasing, fun xs ys hexecuted => ?_, fun hne hstarted hissued hstack hqueue => ?_⟩
  · rw [← hlast] at hexecuted ⊢
    exact hs.last_of_append hexecuted
  · rw [← hlast]
    exact hs.last_mem hstarted hissued hstack hqueue (hcount ▸ hne)

/-- A run behind another task, with a next and a finish from inside the first stage. -/
def deferredRun : List PipelineEvent :=
  [.submit 7, .internal, .start, .internal, .internal, .ret, .internal, .next, .internal, .internal,
    .finish, .internal, .internal, .ret, .internal, .ret, .internal]

theorem pipeline_run_deferred : 2 ∈ (run step (init 3 true) deferredRun).executed :=
  (pipeline_run 3 true deferredRun (by decide)).2.2 (by decide) (by decide) (by decide) (by decide)
    (by decide)

end PipelineSystem

end Base

end PomeloUdp
