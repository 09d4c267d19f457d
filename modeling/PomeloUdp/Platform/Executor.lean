import Mathlib.Logic.Function.Basic
import PomeloUdp.Library.Run

/-!
# Thread-safe executors

An executor runs on the loop thread what other threads submit to it. It has two lists of
tasks: the submits append to the front list under the lock, and the async callback swaps the
lists under the lock and runs the tasks of the other one in order. A release is a task as
well; as it runs inside the callback, it sets a flag and the callback shuts the executor down
at its end. A closed executor goes back to its pool.

The functions follow `executor.c`, while the controller runs. A submit takes several steps,
between which the other threads and the loop may do anything: the checks, the append under
the lock, the signal and the count. What a callback does is cut where it takes the list and
between two tasks.

`submitted`, `taken` and `discarded` are the tasks of every executor whose submit has
returned, whose list a callback has taken, and which a shutdown has dropped. `pushed` and
`ran` are the tasks of an executor since it was acquired last; `life` counts how often that
was. No function reads them.
-/

namespace PomeloUdp

namespace Platform

/-- `pomelo_platform_task_threadsafe_t`, with the executor it was submitted to and the life
of the executor then. -/
structure ThreadsafeTask where
  executor : ℕ
  life : ℕ
  number : ℕ
  /-- Whether the entry is `release_threadsafe_executor`. -/
  release : Bool
  deriving DecidableEq, Repr

/-- How far `pomelo_threadsafe_executor_uv_submit` has come with a task. -/
inductive SubmitStage where
  | checked
  | pushed
  | signaled
  deriving DecidableEq, Repr

inductive ExecutorFault where
  /-- The assertion of `pomelo_threadsafe_executor_shutdown`. -/
  | shutdown
  /-- A task runs that has been returned to its pool. -/
  | task
  deriving DecidableEq, Repr

/-- `pomelo_threadsafe_executor_t`. -/
structure Executor where
  /-- Whether a user has it, or its handle is being closed: it is in no pool. -/
  acquired : Bool
  running : Bool
  tasksFront : List ThreadsafeTask
  tasksBack : List ThreadsafeTask
  /-- The flags of the executor. -/
  busy : Bool
  shutdown : Bool
  /-- Whether `uv_async` has been signaled, and whether it is closing. -/
  signaled : Bool
  closing : Bool
  life : ℕ
  pushed : List ThreadsafeTask
  ran : List ThreadsafeTask

/-- `pomelo_platform_threadsafe_controller_t` with the executors of its pool, the new ones
included, and the submits that are under way. -/
structure Controller where
  executors : ℕ → Executor
  taskCounter : UInt64
  submits : List (ThreadsafeTask × SubmitStage)
  nextTask : ℕ
  /-- Tasks that were returned to their pool and are in a list of an executor. -/
  dangling : List ThreadsafeTask
  fault : Option ExecutorFault
  submitted : List ThreadsafeTask
  taken : List ThreadsafeTask
  discarded : List ThreadsafeTask

/-- An executor that has not been used. -/
def Executor.new : Executor where
  acquired := false
  running := false
  tasksFront := []
  tasksBack := []
  busy := false
  shutdown := false
  signaled := false
  closing := false
  life := 0
  pushed := []
  ran := []

/-- The steps of the threads and of the loop. -/
inductive ExecutorEvent where
  /-- `pomelo_platform_uv_acquire_threadsafe_executor`; `started` says whether the list takes
  the executor and the handle can be made. -/
  | acquire (executor : ℕ) (started : Bool)
  /-- The first part of a submit, which has a task, or of a release. -/
  | submit (executor : ℕ) (release : Bool)
  /-- The task is appended under the lock, if the list takes it. -/
  | push (task : ThreadsafeTask) (added : Bool)
  /-- `uv_async_send`. -/
  | signal (task : ThreadsafeTask) (sent : Bool)
  /-- The task is counted. -/
  | count (task : ThreadsafeTask)
  /-- The loop calls `pomelo_platform_task_threadsafe_async_callback`. -/
  | callback (executor : ℕ)
  /-- The callback runs its next task. -/
  | task (executor : ℕ)
  | callbackEnd (executor : ℕ)
  /-- The loop has closed the handle. -/
  | shutdownComplete (executor : ℕ)

namespace Controller

/-- A controller that has started. -/
def start : Controller where
  executors _ := .new
  taskCounter := 0
  submits := []
  nextTask := 0
  dangling := []
  fault := none
  submitted := []
  taken := []
  discarded := []

/-- Writing an executor. -/
def modifyExecutor (s : Controller) (executor : ℕ) (f : Executor → Executor) : Controller :=
  { s with executors := Function.update s.executors executor (f (s.executors executor)) }

/-- How far the submit of a task is. -/
def stageOf (s : Controller) (task : ThreadsafeTask) : Option SubmitStage :=
  s.submits.lookup task

/-- The submit of a task is over. -/
def submitReturn (s : Controller) (task : ThreadsafeTask) : Controller :=
  { s with submits := s.submits.filter fun submit => submit.1 ≠ task }

/-- The submit of a task goes on. -/
def submitNext (s : Controller) (task : ThreadsafeTask) (stage : SubmitStage) : Controller :=
  { s with submits := (task, stage) :: s.submits.filter fun submit => submit.1 ≠ task }

/-- `pomelo_platform_uv_acquire_threadsafe_executor`, with
`pomelo_threadsafe_executor_startup`. The flags and the lists are what the last user left. -/
def acquire (s : Controller) (executor : ℕ) (started : Bool) : Controller :=
  if (s.executors executor).acquired || !started then s
  else
    s.modifyExecutor executor fun x =>
      { x with
        acquired := true
        running := true
        signaled := false
        life := x.life + 1
        pushed := []
        ran := [] }

section Submit

/-- The checks of `pomelo_threadsafe_executor_uv_submit`, and a new task. -/
def submit (s : Controller) (executor : ℕ) (release : Bool) : Controller :=
  if (s.executors executor).running then
    { s with
      submits := (⟨executor, (s.executors executor).life, s.nextTask, release⟩, .checked) ::
        s.submits
      nextTask := s.nextTask + 1 }
  else s

/-- The critical section of `pomelo_threadsafe_executor_uv_submit`. -/
def submitPush (s : Controller) (task : ThreadsafeTask) (added : Bool) : Controller :=
  if s.stageOf task ≠ some .checked then s
  else if added then
    (s.modifyExecutor task.executor fun x =>
      { x with tasksFront := x.tasksFront ++ [task], pushed := x.pushed ++ [task] }).submitNext
        task .pushed
  else s.submitReturn task

/-- Sending the signal. A task whose signal fails is released and stays in the list. -/
def submitSignal (s : Controller) (task : ThreadsafeTask) (sent : Bool) : Controller :=
  if s.stageOf task ≠ some .pushed then s
  else if sent then
    (s.modifyExecutor task.executor fun x => { x with signaled := true }).submitNext task .signaled
  else { s with dangling := task :: s.dangling }.submitReturn task

/-- The end of `pomelo_threadsafe_executor_uv_submit`. -/
def submitCount (s : Controller) (task : ThreadsafeTask) : Controller :=
  if s.stageOf task ≠ some .signaled then s
  else
    { s with
      taskCounter := s.taskCounter + 1
      submitted := s.submitted ++ [task] }.submitReturn task

end Submit

section Loop

/-- `pomelo_threadsafe_executor_shutdown`. -/
def executorShutdown (s : Controller) (executor : ℕ) : Controller :=
  let x := s.executors executor
  if x.busy then s.modifyExecutor executor fun x => { x with shutdown := true }
  else if !x.running then { s with fault := some .shutdown }
  else
    { s with
      taskCounter := s.taskCounter - UInt64.ofNat (x.tasksFront.length + x.tasksBack.length)
      discarded := s.discarded ++ (x.tasksFront ++ x.tasksBack) }.modifyExecutor executor fun x =>
        { x with running := false, closing := true, tasksFront := [], tasksBack := [] }

/-- `pomelo_platform_task_threadsafe_async_callback` up to the loop. -/
def asyncCallback (s : Controller) (executor : ℕ) : Controller :=
  let x := s.executors executor
  if x.acquired && !x.closing && x.signaled && !x.busy then
    { s with
      taskCounter := s.taskCounter - UInt64.ofNat x.tasksFront.length
      taken := s.taken ++ x.tasksFront }.modifyExecutor executor fun x =>
        { x with
          busy := true
          signaled := false
          tasksFront := x.tasksBack
          tasksBack := x.tasksFront }
  else s

/-- A turn of the loop in `pomelo_platform_task_threadsafe_async_callback`; the entry of a
release is `release_threadsafe_executor`. -/
def executeTask (s : Controller) (executor : ℕ) : Controller :=
  let x := s.executors executor
  if x.busy && !x.shutdown then
    match x.tasksBack with
    | [] => s
    | task :: tasks =>
        let s := s.modifyExecutor executor fun x =>
          { x with tasksBack := tasks, ran := x.ran ++ [task] }
        if task ∈ s.dangling then { s with fault := some .task }
        else if task.release then s.executorShutdown executor
        else s
  else s

/-- The end of `pomelo_platform_task_threadsafe_async_callback`. -/
def asyncCallbackEnd (s : Controller) (executor : ℕ) : Controller :=
  let x := s.executors executor
  if x.busy && (x.shutdown || x.tasksBack.isEmpty) then
    let s := s.modifyExecutor executor fun x => { x with busy := false }
    if x.shutdown then s.executorShutdown executor else s
  else s

/-- `executor_shutdown_complete`: the executor goes back to its pool. -/
def executorShutdownComplete (s : Controller) (executor : ℕ) : Controller :=
  if (s.executors executor).closing then
    s.modifyExecutor executor fun x => { x with acquired := false, closing := false }
  else s

end Loop

/-- One step. -/
def step (s : Controller) (event : ExecutorEvent) : Controller :=
  if s.fault.isSome then s
  else
    match event with
    | .acquire executor started => s.acquire executor started
    | .submit executor release => s.submit executor release
    | .push task added => s.submitPush task added
    | .signal task sent => s.submitSignal task sent
    | .count task => s.submitCount task
    | .callback executor => s.asyncCallback executor
    | .task executor => s.executeTask executor
    | .callbackEnd executor => s.asyncCallbackEnd executor
    | .shutdownComplete executor => s.executorShutdownComplete executor

end Controller

end Platform

end PomeloUdp
