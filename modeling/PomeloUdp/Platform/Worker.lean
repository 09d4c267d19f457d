import Mathlib.Algebra.Order.BigOperators.Group.List
import Mathlib.Algebra.Order.Ring.Nat
import Mathlib.Data.List.Induction
import PomeloUdp.Library.Ledger
import PomeloUdp.Library.Progress

/-!
# Worker tasks

A task has an entry, which runs on a thread of the pool, and a completion, which the loop calls
afterwards. Between the two the loop and the threads go on, so a task can be canceled while it
waits for a thread, while its entry runs, or while it waits for the loop.

The functions follow `worker.c`; each says as well whether it calls
`pomelo_platform_worker_controller_on_shutdown`. `uv_cancel` takes a task back that no thread has
begun, and does nothing to another one. The call of `complete` is cut out of
`pomelo_platform_worker_done`, since it may submit and cancel tasks.

`entered` and `completed` are the tasks whose entry has begun and whose completion has been
called. No function reads them.
-/

namespace PomeloUdp

namespace Platform

/-- How far the pool is with the work of a task. -/
inductive WorkStage where
  | queued
  | running
  | returned
  /-- `uv_cancel` has taken it back. -/
  | canceled
  deriving DecidableEq, Repr

/-- The steps that are left for a task and its completion. -/
def WorkStage.steps : WorkStage → ℕ
  | .queued => 4
  | .running => 3
  | .returned => 2
  | .canceled => 2

/-- `pomelo_platform_task_worker_t`. -/
structure WorkerTask where
  number : ℕ
  canceled : Bool
  work : WorkStage
  deriving DecidableEq, Repr

/-- `pomelo_platform_cancel_worker_task_ex`. -/
def WorkerTask.cancel (task : WorkerTask) : WorkerTask :=
  if task.canceled then task
  else
    { task with
      canceled := true
      work := if task.work = .queued then .canceled else task.work }

/-- `pomelo_platform_worker_controller_t`. -/
structure WorkerController where
  running : Bool
  tasks : List WorkerTask
  /-- Whether the loop is in the completion of a task. -/
  completing : Bool
  /-- Whether a task without an entry was removed from the list. -/
  fault : Bool
  nextTask : ℕ
  entered : List ℕ
  completed : List (ℕ × Bool)
  deriving DecidableEq, Repr

/-- What happens to a controller. -/
inductive WorkerEvent where
  | startup
  | shutdown
  /-- A submit; the answers of the task pool, of the list and of `uv_queue_work`. -/
  | submit (acquired added queued : Bool)
  | cancel (number : ℕ)
  /-- A thread begins the entry of a task, and the entry returns. -/
  | entry (number : ℕ)
  | entryReturn (number : ℕ)
  /-- `pomelo_platform_worker_done` up to the completion, and the rest of it. -/
  | done (number : ℕ)
  | doneReturn
  deriving DecidableEq, Repr

namespace WorkerController

/-- A new controller. -/
def create : WorkerController where
  running := false
  tasks := []
  completing := false
  fault := false
  nextTask := 0
  entered := []
  completed := []

/-- Writing a task. -/
def modifyTask (s : WorkerController) (number : ℕ) (f : WorkerTask → WorkerTask) :
    WorkerController :=
  { s with tasks := s.tasks.map fun task => if task.number = number then f task else task }

/-- How far the pool is with a task. -/
def workOf (s : WorkerController) (number : ℕ) : Option WorkStage :=
  (s.tasks.find? fun task => task.number = number).map WorkerTask.work

/-- `pomelo_platform_worker_controller_startup`. -/
def startup (s : WorkerController) : WorkerController := { s with running := true }

/-- `pomelo_platform_worker_controller_shutdown`. -/
def shutdown (s : WorkerController) : WorkerController × Bool :=
  if !s.running then (s, false)
  else if s.tasks.isEmpty then ({ s with running := false }, true)
  else ({ s with running := false, tasks := s.tasks.map WorkerTask.cancel }, false)

/-- `pomelo_platform_uv_submit_worker_task`. -/
def submit (s : WorkerController) (acquired added queued : Bool) : WorkerController :=
  if !s.running then s
  else if !acquired then s
  else if !added then { s with fault := true }
  else if !queued then s
  else
    { s with
      tasks := s.tasks ++ [⟨s.nextTask, false, .queued⟩]
      nextTask := s.nextTask + 1 }

/-- `pomelo_platform_uv_cancel_worker_task` of a task that is not done. -/
def cancel (s : WorkerController) (number : ℕ) : WorkerController :=
  s.modifyTask number WorkerTask.cancel

/-- `pomelo_platform_worker_entry`. -/
def entry (s : WorkerController) (number : ℕ) : WorkerController :=
  if s.workOf number = some .queued then
    { s with entered := s.entered ++ [number] }.modifyTask number fun task =>
      { task with work := .running }
  else s

/-- The entry returns. -/
def entryReturn (s : WorkerController) (number : ℕ) : WorkerController :=
  if s.workOf number = some .running then
    s.modifyTask number fun task => { task with work := .returned }
  else s

/-- `pomelo_platform_worker_done` up to the completion. -/
def done (s : WorkerController) (number : ℕ) : WorkerController :=
  if s.completing then s
  else
    match s.tasks.find? fun task => task.number = number with
    | none => s
    | some task =>
        if task.work = .returned ∨ task.work = .canceled then
          { s with
            tasks := s.tasks.filter fun other => other.number ≠ number
            completing := true
            completed := s.completed ++ [(number, task.work = .canceled || task.canceled)] }
        else s

/-- The end of `pomelo_platform_worker_done`. -/
def doneReturn (s : WorkerController) : WorkerController × Bool :=
  if s.completing then ({ s with completing := false }, !s.running && s.tasks.isEmpty)
  else (s, false)

/-- One step, and whether the controller is completely shut down. -/
def stepShutdown (s : WorkerController) : WorkerEvent → WorkerController × Bool
  | .startup => (s.startup, false)
  | .shutdown => s.shutdown
  | .submit acquired added queued => (s.submit acquired added queued, false)
  | .cancel number => (s.cancel number, false)
  | .entry number => (s.entry number, false)
  | .entryReturn number => (s.entryReturn number, false)
  | .done number => (s.done number, false)
  | .doneReturn => s.doneReturn

/-- One step. -/
def step (s : WorkerController) (event : WorkerEvent) : WorkerController :=
  (s.stepShutdown event).1

/-- A task that is in the list has begun if a thread has taken it, and work that was taken back
belongs to a canceled task. -/
structure InOrder (entered : List ℕ) (task : WorkerTask) : Prop where
  entered : task.number ∈ entered ↔ task.work = .running ∨ task.work = .returned
  canceled : task.work = .canceled → task.canceled = true

/-- Every task that was submitted is in the list or completed, and one completed as not
canceled has begun. -/
structure Accounted (s : WorkerController) : Prop where
  balanced : Ledger.Balanced (s.tasks.map WorkerTask.number) (s.completed.map Prod.fst) s.nextTask
  inOrder : ∀ task ∈ s.tasks, InOrder s.entered task
  entered : s.entered.Nodup
  begun : ∀ number ∈ s.entered, number < s.nextTask
  completed : ∀ number, (number, false) ∈ s.completed → number ∈ s.entered

theorem accounted_create : Accounted create where
  balanced := Ledger.Balanced.nil
  inOrder := by simp [create]
  entered := List.nodup_nil
  begun := by simp [create]
  completed := by simp [create]

theorem InOrder.cancel {entered : List ℕ} {task : WorkerTask} (h : InOrder entered task) :
    InOrder entered task.cancel := by
  unfold WorkerTask.cancel
  split
  · exact h
  · obtain ⟨hentered, hcanceled⟩ := h
    by_cases hqueued : task.work = .queued
    · refine ⟨?_, fun _ => rfl⟩
      rw [if_pos hqueued]
      rw [hqueued] at hentered
      simpa using hentered
    · refine ⟨?_, fun _ => rfl⟩
      rw [if_neg hqueued]
      exact hentered

theorem numbers_modifyTask (s : WorkerController) (number : ℕ) {f : WorkerTask → WorkerTask}
    (hnumber : ∀ task, (f task).number = task.number) :
    (s.modifyTask number f).tasks.map WorkerTask.number = s.tasks.map WorkerTask.number := by
  rw [modifyTask, List.map_map]
  refine List.map_congr_left fun task _ => ?_
  rw [Function.comp_apply]
  split
  · exact hnumber task
  · rfl

theorem number_cancel (task : WorkerTask) : task.cancel.number = task.number := by
  unfold WorkerTask.cancel
  split <;> rfl

namespace Accounted

variable {s : WorkerController}

theorem eq_of_number (h : Accounted s) {task other : WorkerTask} (htask : task ∈ s.tasks)
    (hother : other ∈ s.tasks) (hnumber : task.number = other.number) : task = other :=
  List.inj_on_of_nodup_map h.balanced.nodup_pending htask hother hnumber

theorem modifyTask (h : Accounted s) {number : ℕ} {f : WorkerTask → WorkerTask}
    (hnumber : ∀ task, (f task).number = task.number)
    (hinOrder : ∀ task ∈ s.tasks, task.number = number → InOrder s.entered (f task)) :
    Accounted (s.modifyTask number f) := by
  refine ⟨?_, ?_, h.entered, h.begun, h.completed⟩
  · rw [s.numbers_modifyTask number hnumber]
    exact h.balanced
  · intro task htask
    obtain ⟨before, hbefore, rfl⟩ := List.mem_map.mp htask
    split
    next heq => exact hinOrder before hbefore heq
    next => exact h.inOrder before hbefore

theorem exists_of_workOf {number : ℕ} {work : WorkStage} (hwork : s.workOf number = some work) :
    ∃ task ∈ s.tasks, task.number = number ∧ task.work = work := by
  obtain ⟨task, hfind, hwork⟩ := Option.map_eq_some_iff.mp hwork
  exact ⟨task, List.mem_of_find?_eq_some hfind, by simpa using List.find?_some hfind, hwork⟩

theorem submit (h : Accounted s) (acquired added queued : Bool) :
    Accounted (s.submit acquired added queued) := by
  unfold WorkerController.submit
  split
  · exact h
  · split
    · exact h
    · split
      · exact ⟨h.balanced, h.inOrder, h.entered, h.begun, h.completed⟩
      · split
        · exact h
        · refine ⟨?_, ?_, h.entered, fun number hnumber => ?_, h.completed⟩
          · rw [List.map_append]
            exact h.balanced.issue
          · intro task htask
            rcases List.mem_append.mp htask with htask | htask
            · exact h.inOrder task htask
            · rw [List.mem_singleton.mp htask]
              refine ⟨iff_of_false (fun hmem => ?_) (by simp), by simp⟩
              exact Nat.lt_irrefl _ (h.begun _ hmem)
          · exact (h.begun number hnumber).trans (Nat.lt_succ_self _)

theorem cancel (h : Accounted s) (number : ℕ) : Accounted (s.cancel number) :=
  h.modifyTask number_cancel fun task htask _ => (h.inOrder task htask).cancel

theorem shutdown (h : Accounted s) : Accounted s.shutdown.1 := by
  unfold WorkerController.shutdown
  split
  · exact h
  · split
    · exact ⟨h.balanced, h.inOrder, h.entered, h.begun, h.completed⟩
    · refine ⟨?_, ?_, h.entered, h.begun, h.completed⟩
      · have hsame : (s.tasks.map WorkerTask.cancel).map WorkerTask.number =
            s.tasks.map WorkerTask.number := by
          rw [List.map_map]
          exact List.map_congr_left fun task _ => number_cancel task
        exact hsame ▸ h.balanced
      · intro task htask
        obtain ⟨before, hbefore, rfl⟩ := List.mem_map.mp htask
        exact (h.inOrder before hbefore).cancel

theorem entry (h : Accounted s) (number : ℕ) : Accounted (s.entry number) := by
  unfold WorkerController.entry
  split
  next hwork =>
    obtain ⟨task, htask, rfl, hqueued⟩ := exists_of_workOf hwork
    have hnew : task.number ∉ s.entered := by
      rw [(h.inOrder task htask).entered, hqueued]
      simp
    have hother : ∀ other ∈ s.tasks, other.number ≠ task.number →
        InOrder (s.entered ++ [task.number]) other := by
      intro other hmem hne
      refine ⟨?_, (h.inOrder other hmem).canceled⟩
      rw [List.mem_append, List.mem_singleton, or_iff_left hne]
      exact (h.inOrder other hmem).entered
    refine ⟨?_, ?_, ?_, ?_, ?_⟩
    · rw [numbers_modifyTask]
      · exact h.balanced
      · exact fun _ => rfl
    · intro other hmem
      obtain ⟨before, hbefore, rfl⟩ := List.mem_map.mp hmem
      split
      next heq =>
        refine ⟨iff_of_true ?_ (.inl rfl), by simp⟩
        exact List.mem_append_right _ (List.mem_singleton.mpr heq)
      next hne => exact hother before hbefore hne
    · exact List.nodup_append.mpr ⟨h.entered, List.nodup_singleton _, fun a ha b hb heq =>
        hnew (List.mem_singleton.mp hb ▸ heq ▸ ha)⟩
    · intro other hmem
      rcases List.mem_append.mp hmem with hmem | hmem
      · exact h.begun other hmem
      · rw [List.mem_singleton.mp hmem]
        exact h.balanced.lt_of_pending (List.mem_map_of_mem htask)
    · intro other hmem
      exact List.mem_append_left _ (h.completed other hmem)
  next => exact h

theorem entryReturn (h : Accounted s) (number : ℕ) : Accounted (s.entryReturn number) := by
  unfold WorkerController.entryReturn
  split
  next hwork =>
    obtain ⟨task, htask, rfl, hrunning⟩ := exists_of_workOf hwork
    refine h.modifyTask (fun _ => rfl) fun other hother hnumber => ?_
    obtain rfl := h.eq_of_number hother htask hnumber
    refine ⟨iff_of_true ?_ (.inr rfl), by simp⟩
    exact (h.inOrder other hother).entered.mpr (.inl hrunning)
  next => exact h

theorem done (h : Accounted s) (number : ℕ) : Accounted (s.done number) := by
  unfold WorkerController.done
  split
  · exact h
  · split
    · exact h
    next task hfind =>
      have htask := List.mem_of_find?_eq_some hfind
      obtain rfl : task.number = number := by simpa using List.find?_some hfind
      split
      next hover =>
        refine ⟨?_, ?_, h.entered, h.begun, ?_⟩
        · rw [List.map_append]
          have hsettled := h.balanced.settle (List.mem_map_of_mem htask)
          rw [List.filter_map] at hsettled
          exact hsettled
        · intro other hother
          exact h.inOrder other (List.mem_of_mem_filter hother)
        · intro other hother
          rcases List.mem_append.mp hother with hother | hother
          · exact h.completed other hother
          · simp only [List.mem_singleton, Prod.mk.injEq] at hother
            obtain ⟨rfl, hflag⟩ := hother
            rw [(h.inOrder task htask).entered]
            rcases hover with hreturned | hcanceled
            · exact .inr hreturned
            · simp [hcanceled] at hflag
      next => exact h

theorem doneReturn (h : Accounted s) : Accounted s.doneReturn.1 := by
  unfold WorkerController.doneReturn
  split
  · exact ⟨h.balanced, h.inOrder, h.entered, h.begun, h.completed⟩
  · exact h

theorem step (h : Accounted s) (event : WorkerEvent) : Accounted (s.step event) := by
  cases event with
  | startup => exact ⟨h.balanced, h.inOrder, h.entered, h.begun, h.completed⟩
  | shutdown => exact h.shutdown
  | submit acquired added queued => exact h.submit acquired added queued
  | cancel number => exact h.cancel number
  | entry number => exact h.entry number
  | entryReturn number => exact h.entryReturn number
  | done number => exact h.done number
  | doneReturn => exact h.doneReturn

end Accounted

/-- The numbers of the tasks in the list. -/
def numbers (s : WorkerController) : List ℕ := s.tasks.map WorkerTask.number

/-- The event cancels the task: it is in the list, and it is canceled, or all are. -/
def Cancels (s : WorkerController) (number : ℕ) : WorkerEvent → Prop
  | .cancel number' => number' = number ∧ number ∈ s.numbers
  | .shutdown => s.running = true ∧ number ∈ s.numbers
  | _ => False

/-- Some event of the run cancels the task. -/
def Canceled (events : List WorkerEvent) (number : ℕ) : Prop :=
  Machine.Sometime step (fun s event => Cancels s number event) create events

theorem canceled_cancel (task : WorkerTask) : task.cancel.canceled = true := by
  unfold WorkerTask.cancel
  split
  next hcanceled => exact hcanceled
  next => rfl

/-- Every task of the list is marked as the events say. -/
structure Marked (s : WorkerController) (canceled : ℕ → Prop) : Prop where
  tasks : ∀ task ∈ s.tasks, task.canceled = true ↔ canceled task.number
  completed : ∀ c ∈ s.completed, c.2 = true ↔ canceled c.1
  fresh : ∀ number, s.nextTask ≤ number → ¬ canceled number

namespace Marked

variable {s : WorkerController} {canceled : ℕ → Prop}

theorem fresh_cancels (h : Accounted s) (event : WorkerEvent) {number : ℕ}
    (hnumber : s.nextTask ≤ number) : ¬ Cancels s number event := by
  have hlisted : number ∉ s.numbers := fun hmem =>
    Nat.not_lt.mpr hnumber (h.balanced.lt_of_pending hmem)
  cases event with
  | cancel other => exact fun hcancels => hlisted hcancels.2
  | shutdown => exact fun hcancels => hlisted hcancels.2
  | _ => exact id

theorem settled_cancels (h : Accounted s) (event : WorkerEvent) {number : ℕ}
    (hnumber : number ∈ s.completed.map Prod.fst) : ¬ Cancels s number event := by
  have hlisted : number ∉ s.numbers := fun hmem => h.balanced.not_mem_settled hmem hnumber
  cases event with
  | cancel other => exact fun hcancels => hlisted hcancels.2
  | shutdown => exact fun hcancels => hlisted hcancels.2
  | _ => exact id

theorem keep (h : Marked s canceled) {s' : WorkerController} {event : WorkerEvent}
    (hcancels : ∀ number, ¬ Cancels s number event) (hnext : s.nextTask ≤ s'.nextTask)
    (hcompleted : s'.completed = s.completed)
    (htasks : ∀ task ∈ s'.tasks, (task.canceled = false ∧ s.nextTask ≤ task.number) ∨
      ∃ before ∈ s.tasks, before.number = task.number ∧ before.canceled = task.canceled) :
    Marked s' fun number => canceled number ∨ Cancels s number event := by
  have hsame : ∀ number, canceled number ∨ Cancels s number event ↔ canceled number := fun number =>
    or_iff_left (hcancels number)
  refine ⟨fun task htask => ?_, fun c hc => ?_, fun number hnumber => ?_⟩
  · rw [hsame]
    rcases htasks task htask with ⟨hflag, hnew⟩ | ⟨before, hbefore, hnumber, hflag⟩
    · rw [hflag]
      exact iff_of_false Bool.false_ne_true (h.fresh _ hnew)
    · rw [← hnumber, ← hflag]
      exact h.tasks before hbefore
  · rw [hsame]
    exact h.completed c (hcompleted ▸ hc)
  · rw [hsame]
    exact h.fresh number (hnext.trans hnumber)

theorem modifyTask (h : Marked s canceled) {event : WorkerEvent}
    (hcancels : ∀ number, ¬ Cancels s number event) (number : ℕ) {f : WorkerTask → WorkerTask}
    (hnumber : ∀ task, (f task).number = task.number)
    (hflag : ∀ task, (f task).canceled = task.canceled) (entered : List ℕ) :
    Marked ({ s with entered := entered }.modifyTask number f) fun number =>
      canceled number ∨ Cancels s number event := by
  refine h.keep hcancels (Nat.le_refl _) rfl fun task htask => .inr ?_
  obtain ⟨before, hbefore, rfl⟩ := List.mem_map.mp htask
  refine ⟨before, hbefore, ?_, ?_⟩
  · split
    · exact (hnumber before).symm
    · rfl
  · split
    · exact (hflag before).symm
    · rfl

theorem same (h : Marked s canceled) {s' : WorkerController} {event : WorkerEvent}
    (hcancels : ∀ number, ¬ Cancels s number event) (hnext : s.nextTask = s'.nextTask)
    (hcompleted : s'.completed = s.completed) (htasks : s'.tasks = s.tasks) :
    Marked s' fun number => canceled number ∨ Cancels s number event := by
  refine h.keep hcancels hnext.le hcompleted fun task htask => .inr ?_
  rw [htasks] at htask
  exact ⟨task, htask, rfl, rfl⟩

theorem submit (h : Marked s canceled) (acquired added queued : Bool) :
    Marked (s.submit acquired added queued) fun number =>
      canceled number ∨ Cancels s number (.submit acquired added queued) := by
  have hcancels : ∀ number, ¬ Cancels s number (.submit acquired added queued) := fun _ => id
  unfold WorkerController.submit
  split
  · exact h.same hcancels rfl rfl rfl
  · split
    · exact h.same hcancels rfl rfl rfl
    · split
      · exact h.same hcancels rfl rfl rfl
      · split
        · exact h.same hcancels rfl rfl rfl
        · refine h.keep hcancels (Nat.le_succ _) rfl fun task htask => ?_
          rcases List.mem_append.mp htask with htask | htask
          · exact .inr ⟨task, htask, rfl, rfl⟩
          · rw [List.mem_singleton.mp htask]
            exact .inl ⟨rfl, Nat.le_refl _⟩

theorem cancel (h : Marked s canceled) (ha : Accounted s) (number : ℕ) :
    Marked (s.cancel number) fun other => canceled other ∨ Cancels s other (.cancel number) := by
  refine ⟨fun task htask => ?_, fun c hc => ?_, fun other hother => ?_⟩
  · obtain ⟨before, hbefore, rfl⟩ := List.mem_map.mp htask
    split
    next heq =>
      rw [canceled_cancel, number_cancel]
      exact iff_of_true rfl (.inr ⟨heq.symm, List.mem_map_of_mem hbefore⟩)
    next hne =>
      have hcancels : ¬ Cancels s before.number (.cancel number) := fun hcancels =>
        hne hcancels.1.symm
      rw [or_iff_left hcancels]
      exact h.tasks before hbefore
  · rw [or_iff_left (settled_cancels ha _ (List.mem_map_of_mem hc))]
    exact h.completed c hc
  · rw [or_iff_left (fresh_cancels ha _ hother)]
    exact h.fresh other hother

theorem shutdown (h : Marked s canceled) (ha : Accounted s) :
    Marked s.shutdown.1 fun number => canceled number ∨ Cancels s number .shutdown := by
  unfold WorkerController.shutdown
  split
  next hstopped =>
    refine h.same (fun number hcancels => ?_) rfl rfl rfl
    rw [hcancels.1] at hstopped
    cases hstopped
  next hrunning =>
    rw [Bool.not_eq_true, Bool.not_eq_false'] at hrunning
    split
    next hempty =>
      refine h.same (fun number hcancels => ?_) rfl rfl rfl
      have hlisted : number ∈ s.numbers := hcancels.2
      rw [numbers, List.isEmpty_iff.mp hempty] at hlisted
      cases hlisted
    next =>
      refine ⟨fun task htask => ?_, fun c hc => ?_, fun number hnumber => ?_⟩
      · obtain ⟨before, hbefore, rfl⟩ := List.mem_map.mp htask
        rw [canceled_cancel, number_cancel]
        exact iff_of_true rfl (.inr ⟨hrunning, List.mem_map_of_mem hbefore⟩)
      · rw [or_iff_left (settled_cancels ha _ (List.mem_map_of_mem hc))]
        exact h.completed c hc
      · rw [or_iff_left (fresh_cancels ha _ hnumber)]
        exact h.fresh number hnumber

theorem done (h : Marked s canceled) (ha : Accounted s) (number : ℕ) :
    Marked (s.done number) fun other => canceled other ∨ Cancels s other (.done number) := by
  have hcancels : ∀ other, ¬ Cancels s other (.done number) := fun _ => id
  unfold WorkerController.done
  split
  · exact h.same hcancels rfl rfl rfl
  · split
    · exact h.same hcancels rfl rfl rfl
    next task hfind =>
      have htask := List.mem_of_find?_eq_some hfind
      obtain rfl : task.number = number := by simpa using List.find?_some hfind
      split
      next =>
        have hflag : (decide (task.work = .canceled) || task.canceled) = task.canceled := by
          rw [Bool.or_eq_right_iff_imp, decide_eq_true_iff]
          exact (ha.inOrder task htask).canceled
        refine ⟨fun other hother => ?_, fun c hc => ?_, fun other hother => ?_⟩
        · rw [or_iff_left (hcancels other.number)]
          exact h.tasks other (List.mem_of_mem_filter hother)
        · rw [or_iff_left (hcancels c.1)]
          rcases List.mem_append.mp hc with hc | hc
          · exact h.completed c hc
          · rw [List.mem_singleton.mp hc]
            dsimp only
            rw [hflag]
            exact h.tasks task htask
        · rw [or_iff_left (hcancels other)]
          exact h.fresh other hother
      next => exact h.same hcancels rfl rfl rfl

theorem step (h : Marked s canceled) (ha : Accounted s) (event : WorkerEvent) :
    Marked (s.step event) fun number => canceled number ∨ Cancels s number event := by
  cases event with
  | startup => exact h.same (fun _ => id) rfl rfl rfl
  | shutdown => exact h.shutdown ha
  | submit acquired added queued => exact h.submit acquired added queued
  | cancel number => exact h.cancel ha number
  | entry number =>
      change Marked (s.entry number) _
      unfold WorkerController.entry
      split
      · refine h.modifyTask ?_ number ?_ ?_ _
        · exact fun _ => id
        · exact fun _ => rfl
        · exact fun _ => rfl
      · exact h.same (fun _ => id) rfl rfl rfl
  | entryReturn number =>
      change Marked (s.entryReturn number) _
      unfold WorkerController.entryReturn
      split
      · refine h.modifyTask ?_ number ?_ ?_ s.entered
        · exact fun _ => id
        · exact fun _ => rfl
        · exact fun _ => rfl
      · exact h.same (fun _ => id) rfl rfl rfl
  | done number => exact h.done ha number
  | doneReturn =>
      change Marked s.doneReturn.1 _
      unfold WorkerController.doneReturn
      split <;> exact h.same (fun _ => id) rfl rfl rfl

end Marked

/-- The accounts and the marks of every run. -/
theorem accountedMarked_run (events : List WorkerEvent) :
    Accounted (Machine.run step create events) ∧
      Marked (Machine.run step create events) (Canceled events) := by
  induction events using List.reverseRecOn with
  | nil => exact ⟨accounted_create, by simp [create], by simp [create], fun _ _ => id⟩
  | append_singleton events event ih =>
      obtain ⟨ha, hm⟩ := ih
      rw [Machine.run_concat]
      refine ⟨ha.step event, ?_⟩
      have hcanceled : Canceled (events ++ [event]) = fun number =>
          Canceled events number ∨ Cancels (Machine.run step create events) number event := by
        funext number
        exact propext (Machine.sometime_concat create events event)
      rw [hcanceled]
      exact hm.step ha event

/-- Only tasks of the list have begun since, and completions stay. -/
structure Grows (s s' : WorkerController) : Prop where
  entered : ∀ number ∈ s'.entered, number ∈ s.entered ∨ number ∈ s.numbers
  completed : s.completed <+: s'.completed

theorem Grows.of_eq {s s' : WorkerController} (hentered : s'.entered = s.entered)
    (hcompleted : s'.completed = s.completed) : Grows s s' where
  entered _ hnumber := .inl (hentered ▸ hnumber)
  completed := hcompleted ▸ List.prefix_rfl

theorem grows_step (s : WorkerController) (event : WorkerEvent) : Grows s (s.step event) := by
  cases event with
  | startup => exact .of_eq rfl rfl
  | cancel number => exact .of_eq rfl rfl
  | shutdown =>
      change Grows s s.shutdown.1
      unfold shutdown
      split
      · exact .of_eq rfl rfl
      · split <;> exact .of_eq rfl rfl
  | submit acquired added queued =>
      change Grows s (s.submit acquired added queued)
      unfold submit
      split
      · exact .of_eq rfl rfl
      · split
        · exact .of_eq rfl rfl
        · split
          · exact .of_eq rfl rfl
          · split <;> exact .of_eq rfl rfl
  | entry number =>
      change Grows s (s.entry number)
      unfold entry
      split
      next hwork =>
        obtain ⟨task, htask, rfl, -⟩ := Accounted.exists_of_workOf hwork
        refine ⟨fun other hother => ?_, List.prefix_rfl⟩
        rcases List.mem_append.mp hother with hbefore | hnew
        · exact .inl hbefore
        · rw [List.mem_singleton.mp hnew]
          exact .inr (List.mem_map_of_mem htask)
      next => exact .of_eq rfl rfl
  | entryReturn number =>
      change Grows s (s.entryReturn number)
      unfold entryReturn
      split <;> exact .of_eq rfl rfl
  | done number =>
      change Grows s (s.done number)
      unfold done
      split
      · exact .of_eq rfl rfl
      · split
        · exact .of_eq rfl rfl
        · split
          · exact ⟨fun other hother => .inl hother, List.prefix_append _ _⟩
          · exact .of_eq rfl rfl
  | doneReturn =>
      change Grows s s.doneReturn.1
      unfold doneReturn
      split <;> exact .of_eq rfl rfl

theorem entered_of_completed {s : WorkerController} (ha : Accounted s) {number : ℕ}
    (hcompleted : number ∈ s.completed.map Prod.fst) (later : List WorkerEvent)
    (hentered : number ∈ (Machine.run step s later).entered) : number ∈ s.entered := by
  induction later generalizing s with
  | nil => exact hentered
  | cons event later ih =>
      have hgrows := s.grows_step event
      have hstep := ih (ha.step event)
        ((hgrows.completed.map Prod.fst).subset hcompleted) hentered
      exact (hgrows.entered number hstep).resolve_right fun hlisted =>
        ha.balanced.not_mem_settled hlisted hcompleted

/-- In every run each task that was submitted is in the list, or was completed, once. A task is
begun at most once, and not after its completion; the completion is told whether it was
canceled before, and if not, then its entry has run. -/
theorem worker_tasks (events : List WorkerEvent) :
    let s := Machine.run step create events
    (∀ number < s.nextTask, s.numbers.count number + (s.completed.map Prod.fst).count number = 1) ∧
    s.entered.Nodup ∧
    ∀ number canceled, (number, canceled) ∈ s.completed →
      (canceled = true ↔ Canceled events number) ∧
      (canceled = false → number ∈ s.entered) ∧
      ∀ later, number ∈ (Machine.run step s later).entered → number ∈ s.entered := by
  obtain ⟨ha, hm⟩ := accountedMarked_run events
  refine ⟨fun number hnumber => ha.balanced.count hnumber, ha.entered, ?_⟩
  intro number canceled hcompleted
  refine ⟨hm.completed _ hcompleted, ?_, fun later => ?_⟩
  · rintro rfl
    exact ha.completed number hcompleted
  · exact entered_of_completed ha (List.mem_map_of_mem hcompleted) later

section Progress

/-- The steps that the threads and the loop have still to make for a task. -/
def stepsOf (task : WorkerTask) : ℕ := task.work.steps

/-- The steps that they have still to make. -/
def stepsLeft (s : WorkerController) : ℕ :=
  (s.tasks.map stepsOf).sum + if s.completing then 1 else 0

/-- The steps of the threads and of the loop. -/
def Progress : WorkerEvent → Prop
  | .entry _ | .entryReturn _ | .done _ | .doneReturn => True
  | _ => False

variable {s : WorkerController}

theorem stepsLeft_modifyTask (h : Accounted s) {task : WorkerTask} (htask : task ∈ s.tasks)
    {f : WorkerTask → WorkerTask} (hlt : stepsOf (f task) < stepsOf task) (entered : List ℕ) :
    ({ s with entered := entered }.modifyTask task.number f).stepsLeft < s.stepsLeft := by
  refine Nat.add_lt_add_right ?_ _
  change ((s.tasks.map fun other => if other.number = task.number then f other else other).map
    stepsOf).sum < _
  rw [List.map_map]
  refine List.sum_lt_sum _ _ (fun other hother => ?_) ⟨task, htask, ?_⟩
  · rw [Function.comp_apply]
    split
    next heq =>
      rw [h.eq_of_number hother htask heq]
      exact hlt.le
    next => exact Nat.le_refl _
  · rw [Function.comp_apply, if_pos rfl]
    exact hlt

theorem sum_filter_lt {tasks : List WorkerTask} {task : WorkerTask} (htask : task ∈ tasks) :
    ((tasks.filter fun other => other.number ≠ task.number).map stepsOf).sum + stepsOf task ≤
      (tasks.map stepsOf).sum := by
  have hsub : ∀ rest : List WorkerTask,
      ((rest.filter fun other => other.number ≠ task.number).map stepsOf).sum ≤
        (rest.map stepsOf).sum := fun rest =>
    (List.filter_sublist.map stepsOf).sum_le_sum fun _ _ => Nat.zero_le _
  induction tasks with
  | nil => cases htask
  | cons other rest ih =>
      rw [List.map_cons, List.sum_cons]
      rcases List.mem_cons.mp htask with rfl | hmem
      · have hrest := hsub rest
        rw [List.filter_cons_of_neg (by simp)]
        omega
      · have hrest := ih hmem
        by_cases hnumber : other.number = task.number
        · rw [List.filter_cons_of_neg (by simpa using hnumber)]
          omega
        · rw [List.filter_cons_of_pos (by simpa using hnumber), List.map_cons, List.sum_cons]
          omega

/-- A step of the threads or of the loop that does something. -/
theorem stepsLeft_step (h : Accounted s) {event : WorkerEvent} (hprogress : Progress event)
    (hne : s.step event ≠ s) : (s.step event).stepsLeft < s.stepsLeft := by
  cases event with
  | entry number =>
      change s.entry number ≠ s at hne
      change (s.entry number).stepsLeft < _
      unfold entry at hne ⊢
      split
      next hwork =>
        obtain ⟨task, htask, rfl, hqueued⟩ := Accounted.exists_of_workOf hwork
        refine stepsLeft_modifyTask h htask ?_ _
        change WorkStage.running.steps < task.work.steps
        rw [hqueued]
        decide
      next hwork => exact absurd (if_neg hwork) hne
  | entryReturn number =>
      change s.entryReturn number ≠ s at hne
      change (s.entryReturn number).stepsLeft < _
      unfold entryReturn at hne ⊢
      split
      next hwork =>
        obtain ⟨task, htask, rfl, hrunning⟩ := Accounted.exists_of_workOf hwork
        refine stepsLeft_modifyTask h htask ?_ s.entered
        change WorkStage.returned.steps < task.work.steps
        rw [hrunning]
        decide
      next hwork => exact absurd (if_neg hwork) hne
  | done number =>
      change s.done number ≠ s at hne
      change (s.done number).stepsLeft < _
      unfold done at hne ⊢
      split
      next hcompleting => exact absurd (if_pos hcompleting) hne
      next hcompleting =>
        rw [if_neg hcompleting] at hne
        split
        next hfind =>
          rw [hfind] at hne
          exact absurd rfl hne
        next task hfind =>
          rw [hfind] at hne
          obtain rfl : task.number = number := by simpa using List.find?_some hfind
          split
          next hover =>
            have hlt := sum_filter_lt (List.mem_of_find?_eq_some hfind)
            have hsteps : stepsOf task = 2 := by
              rcases hover with hreturned | hcanceled
              · rw [stepsOf, hreturned, WorkStage.steps]
              · rw [stepsOf, hcanceled, WorkStage.steps]
            rw [stepsLeft, stepsLeft, if_pos rfl, if_neg hcompleting]
            dsimp only
            omega
          next hover => exact absurd (if_neg hover) hne
  | doneReturn =>
      change s.doneReturn.1 ≠ s at hne
      change s.doneReturn.1.stepsLeft < _
      unfold doneReturn at hne ⊢
      split
      next hcompleting =>
        rw [stepsLeft, stepsLeft, if_pos hcompleting]
        exact Nat.lt_succ_self _
      next hcompleting =>
        rw [if_neg hcompleting] at hne
        exact absurd rfl hne
  | startup => cases hprogress
  | shutdown => cases hprogress
  | submit => cases hprogress
  | cancel => cases hprogress

theorem exists_progress (h : Accounted s) (hleft : s.tasks ≠ [] ∨ s.completing = true) :
    ∃ event, Progress event ∧ s.step event ≠ s := by
  by_cases hcompleting : s.completing = true
  · refine ⟨.doneReturn, trivial, fun heq => ?_⟩
    have hflag := congrArg WorkerController.completing heq
    change s.doneReturn.1.completing = _ at hflag
    rw [doneReturn, if_pos hcompleting, hcompleting] at hflag
    cases hflag
  · obtain ⟨task, rest, htasks⟩ := List.exists_cons_of_ne_nil (hleft.resolve_right hcompleting)
    have hfind : (s.tasks.find? fun other => other.number = task.number) = some task := by
      rw [htasks, List.find?_cons_of_pos (by simp)]
    have hwork : s.workOf task.number = some task.work := by
      rw [workOf, hfind, Option.map_some]
    have hdone : task.work = .returned ∨ task.work = .canceled →
        s.step (.done task.number) ≠ s := by
      intro hover heq
      have hlist := congrArg WorkerController.completing heq
      change (s.done task.number).completing = _ at hlist
      rw [done, if_neg hcompleting, hfind] at hlist
      simp only [if_pos hover] at hlist
      exact hcompleting hlist.symm
    cases hstage : task.work with
    | queued =>
        refine ⟨.entry task.number, trivial, fun heq => ?_⟩
        have hlength := congrArg (fun s => s.entered.length) heq
        change (s.entry task.number).entered.length = _ at hlength
        rw [entry, if_pos (hwork.trans (congrArg some hstage))] at hlength
        change (s.entered ++ [task.number]).length = _ at hlength
        rw [List.length_append, List.length_singleton] at hlength
        omega
    | running =>
        refine ⟨.entryReturn task.number, trivial, fun heq => ?_⟩
        have hsteps := congrArg stepsLeft heq
        change (s.entryReturn task.number).stepsLeft = _ at hsteps
        rw [entryReturn, if_pos (hwork.trans (congrArg some hstage))] at hsteps
        have hmem : task ∈ s.tasks := htasks ▸ List.mem_cons_self
        have hless : stepsOf { task with work := .returned } < stepsOf task := by
          change WorkStage.returned.steps < task.work.steps
          rw [hstage]
          decide
        exact absurd hsteps (stepsLeft_modifyTask h hmem hless s.entered).ne
    | returned => exact ⟨.done task.number, trivial, hdone (.inl hstage)⟩
    | canceled => exact ⟨.done task.number, trivial, hdone (.inr hstage)⟩

/-- Worker tasks are eventually done. Whatever has happened, the threads and the loop can take
only so many steps that do something, and when none is left, every task that was submitted
has been completed. -/
theorem worker_tasks_done (events progress : List WorkerEvent)
    (hprogress : Machine.Along step (fun s event => Progress event ∧ s.step event ≠ s)
      (Machine.run step create events) progress) :
    progress.length ≤ (Machine.run step create events).stepsLeft ∧
    ((∀ event, Progress event → (Machine.run step create (events ++ progress)).step event =
        Machine.run step create (events ++ progress)) →
      (Machine.run step create (events ++ progress)).tasks = [] ∧
      ∀ number, number ∈ (Machine.run step create (events ++ progress)).completed.map Prod.fst ↔
        number < (Machine.run step create (events ++ progress)).nextTask) := by
  constructor
  · have hkeeps : ∀ (s : WorkerController) (event : WorkerEvent), Accounted s →
        Progress event ∧ s.step event ≠ s → Accounted (s.step event) :=
      fun _ event ha _ => ha.step event
    have hsmaller : ∀ (s : WorkerController) (event : WorkerEvent), Accounted s →
        Progress event ∧ s.step event ≠ s → (s.step event).stepsLeft < s.stepsLeft :=
      fun _ _ ha hp => stepsLeft_step ha hp.1 hp.2
    have hless := Machine.along_run hkeeps hsmaller (accountedMarked_run events).1 hprogress
    have hlength := Machine.length_le_measure (fun _ _ hlt => hlt) hless
    exact (Nat.le_add_right _ _).trans hlength
  · intro hstuck
    obtain ⟨ha, -⟩ := accountedMarked_run (events ++ progress)
    have hnil : (Machine.run step create (events ++ progress)).tasks = [] := by
      by_contra hne
      obtain ⟨event, hevent, hchanges⟩ := exists_progress ha (.inl hne)
      exact hchanges (hstuck event hevent)
    refine ⟨hnil, fun number => ?_⟩
    rw [ha.balanced.mem_iff, hnil]
    simp

/-- One task that runs, and one that is canceled before a thread takes it. -/
theorem worker_tasks_done_two :
    6 ≤ (Machine.run step create
      [.startup, .submit true true true, .submit true true true, .cancel 1]).stepsLeft :=
  (worker_tasks_done _ [.entry 0, .entryReturn 0, .done 0, .doneReturn, .done 1, .doneReturn]
    ⟨⟨trivial, by decide⟩, ⟨trivial, by decide⟩, ⟨trivial, by decide⟩, ⟨trivial, by decide⟩,
      ⟨trivial, by decide⟩, ⟨trivial, by decide⟩, trivial⟩).1

end Progress

end WorkerController

end Platform

end PomeloUdp
