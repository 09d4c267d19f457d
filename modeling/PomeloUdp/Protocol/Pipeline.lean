import Mathlib.Logic.Function.Basic
import PomeloUdp.Base.Pipeline
import PomeloUdp.Library.Run
import PomeloUdp.Library.Sequencer

/-!
# Senders and receivers in their pipelines

`Jobs` is the senders and receivers of a socket with the sequencer that their pipelines
submit to and the workers. A stage of a pipeline runs as a task of the sequencer; the
sequencer is the queue of `Sequencer.submit`, and a callback that begins stays `current`
until `finished`, so that the calls of a run made in between are those of that callback.
`outer` is the `pomelo_pipeline_execute` whose call of `pomelo_sequencer_submit` is the one
that drains the queue.

The completion of a worker task comes from the loop of the platform, outside of every
callback. The cancellation of a job comes from anywhere.
-/

namespace PomeloUdp

namespace Protocol

open Base (Pipeline)

/-- `pomelo_protocol_sender_t` or `pomelo_protocol_receiver_t`. -/
inductive JobKind where
  | sender
  | receiver
  deriving DecidableEq

/-- The lengths of `sender_tasks` and `receiver_tasks`. -/
def JobKind.taskCount : JobKind → ℕ
  | sender => 3
  | receiver => 2

/-- The fields of a sender or receiver that its stages read and write. -/
structure Job where
  kind : JobKind
  /-- The flag `NO_ENCRYPT` or `NO_DECRYPT`. -/
  noCrypt : Bool
  /-- `worker_required` of the type of the packet. -/
  workerRequired : Bool
  canceled : Bool
  failed : Bool
  /-- Whether `peer` is set. -/
  peer : Bool
  /-- Whether `task` is set. -/
  task : Bool
  /-- The platform has not called the completion of the worker task yet. -/
  worker : Bool
  /-- The last stage has handed the job to the socket and not released it yet. -/
  handling : Bool
  pipeline : Pipeline
  deriving DecidableEq

/-- `pomelo_protocol_sender_init` and `pomelo_protocol_receiver_init`. -/
def Job.init (kind : JobKind) (noCrypt workerRequired : Bool) : Job where
  kind := kind
  noCrypt := noCrypt
  workerRequired := workerRequired
  canceled := false
  failed := false
  peer := true
  task := false
  worker := false
  handling := false
  pipeline := .init kind.taskCount

/-- A task of the sequencer: the stage of a job, or any other. -/
inductive SequencedTask where
  | job (id : ℕ)
  | other (id : ℕ)
  deriving DecidableEq

/-- What happened to a job. -/
inductive JobEffect where
  /-- It was acquired and its pipeline started. -/
  | submitted (id : ℕ)
  /-- `pomelo_protocol_sender_cancel` or `pomelo_protocol_receiver_cancel`. -/
  | canceled (id : ℕ)
  /-- `sender->peer` was dereferenced for the address. -/
  | peerRead (id : ℕ)
  /-- `pomelo_adapter_send`. -/
  | adapterSend (id : ℕ)
  /-- `pomelo_protocol_socket_handle_sender_complete` or
  `pomelo_protocol_socket_handle_receiver_complete`. -/
  | handled (id : ℕ)
  /-- `pomelo_pool_release`. -/
  | released (id : ℕ)
  deriving DecidableEq

/-- What the platform and the adapter answer. -/
structure JobEnv where
  /-- Whether `pomelo_platform_submit_worker_task` succeeds. -/
  submitWorker : Bool
  /-- Whether the packet is processed, when no worker does it. -/
  process : Bool
  /-- Whether `pomelo_adapter_send` succeeds. -/
  send : Bool

/-- The senders and receivers of a socket, and the sequencer. -/
structure Jobs where
  /-- Whether the mode of the socket is that of a server. -/
  server : Bool
  jobs : ℕ → Option Job
  queue : List SequencedTask
  current : Option SequencedTask
  outer : Option ℕ
  log : List JobEffect

namespace Jobs

/-- The socket before its first packet. -/
def start (server : Bool) : Jobs := ⟨server, fun _ => none, [], none, none, []⟩

/-- Writing a job. -/
def modifyJob (s : Jobs) (id : ℕ) (f : Job → Job) : Jobs :=
  { s with jobs := Function.update s.jobs id ((s.jobs id).map f) }

/-- Writing the pipeline of a job. -/
def setPipeline (s : Jobs) (id : ℕ) (p : Pipeline) : Jobs :=
  s.modifyJob id fun job => { job with pipeline := p }

/-- Adding to the record of what happened. -/
def note (s : Jobs) (effect : JobEffect) : Jobs := { s with log := s.log ++ [effect] }

/-- `pomelo_sequencer_submit` while a callback is running. -/
def enqueue (s : Jobs) (task : SequencedTask) : Jobs :=
  { s with queue := Sequencer.submit s.queue task }

/-- `pomelo_pool_release`. -/
def release (s : Jobs) (id : ℕ) : Jobs :=
  { s with jobs := Function.update s.jobs id none }.note (.released id)

section Stages

/-- The loop of `pomelo_pipeline_execute` while a callback is running: the sequencer
returns at once. There are at most two requests to continue on. -/
def executeBusy : ℕ → Jobs → ℕ → Jobs
  | 0, s, _ => s
  | fuel + 1, s, id =>
      let s := s.enqueue (.job id)
      match s.jobs id with
      | none => s
      | some job =>
          let r := job.pipeline.returned
          if r.2 then executeBusy fuel (s.setPipeline id r.1) id else s.setPipeline id r.1

/-- `pomelo_pipeline_execute` while a callback is running. -/
def executeIn (s : Jobs) (id : ℕ) : Jobs :=
  executeBusy 3 (s.modifyJob id fun job =>
    { job with pipeline := { job.pipeline with busy := true } }) id

variable (execute : Jobs → ℕ → Jobs)

/-- `pomelo_pipeline_next`. -/
def pipelineNext (s : Jobs) (id : ℕ) : Jobs :=
  match s.jobs id with
  | none => s
  | some job =>
      let r := job.pipeline.advance
      if r.2 then execute (s.setPipeline id r.1) id else s.setPipeline id r.1

/-- `pomelo_pipeline_finish`. -/
def pipelineFinish (s : Jobs) (id : ℕ) : Jobs :=
  match s.jobs id with
  | none => s
  | some job =>
      let r := job.pipeline.conclude
      if r.2 then execute (s.setPipeline id r.1) id else s.setPipeline id r.1

/-- `sender_process_complete` and `receiver_process_complete`. -/
def processComplete (s : Jobs) (id : ℕ) (canceled success : Bool) : Jobs :=
  let s := s.modifyJob id fun job =>
    { job with
      task := false
      canceled := job.canceled || canceled
      failed := job.failed || !success }
  match s.jobs id with
  | none => s
  | some job =>
      if job.canceled || job.failed then pipelineFinish execute s id
      else pipelineNext execute s id

/-- `pomelo_protocol_sender_process` and `pomelo_protocol_receiver_process`. -/
def process (env : JobEnv) (s : Jobs) (id : ℕ) : Jobs :=
  match s.jobs id with
  | none => s
  | some job =>
      if job.noCrypt && !job.workerRequired then
        processComplete executeIn s id false env.process
      else if env.submitWorker then
        s.modifyJob id fun job => { job with task := true, worker := true }
      else
        pipelineFinish executeIn (s.modifyJob id fun job => { job with failed := true }) id

/-- `pomelo_protocol_sender_dispatch`, which does not look at the flags. -/
def dispatch (env : JobEnv) (s : Jobs) (id : ℕ) : Jobs :=
  let s := if s.server then s.note (.peerRead id) else s
  let s := s.note (.adapterSend id)
  if env.send then pipelineNext executeIn s id
  else pipelineFinish executeIn (s.modifyJob id fun job => { job with failed := true }) id

/-- `pomelo_protocol_sender_complete` and `pomelo_protocol_receiver_complete`, up to the
handlers of the socket. -/
def complete (s : Jobs) (id : ℕ) : Jobs :=
  match s.jobs id with
  | none => s
  | some job =>
      if job.canceled then s.release id
      else (s.modifyJob id fun job => { job with handling := true }).note (.handled id)

/-- `pomelo_pipeline_execute_current_task`. -/
def executeCurrentTask (env : JobEnv) (s : Jobs) (id : ℕ) : Jobs :=
  match s.jobs id with
  | none => s
  | some job =>
      match job.kind, job.pipeline.taskIndex with
      | _, 0 => process env s id
      | .sender, 1 => dispatch env s id
      | _, _ => complete s id

end Stages

section Sequencing

variable (env : JobEnv)

/-- The loop of `pomelo_sequencer_submit` up to the next callback or the end. -/
def advance (s : Jobs) : Jobs :=
  match s.queue with
  | [] => { s with current := none }
  | task :: rest =>
      let s := { s with queue := rest, current := some task }
      match task with
      | .job id => executeCurrentTask env s id
      | .other _ => s

/-- `pomelo_sequencer_submit` by a `pomelo_pipeline_execute` outside of every callback. -/
def drain (s : Jobs) (id : ℕ) : Jobs :=
  advance env { s.enqueue (.job id) with outer := some id }

/-- The return to the outer `pomelo_pipeline_execute`. The flags of a released pipeline are
not set. -/
def resume (s : Jobs) : Jobs :=
  match s.outer with
  | none => s
  | some id =>
      let s := { s with outer := none }
      match s.jobs id with
      | none => s
      | some job =>
          let r := job.pipeline.returned
          if r.2 then drain env (s.setPipeline id r.1) id else s.setPipeline id r.1

/-- `pomelo_pipeline_execute`. -/
def execute (s : Jobs) (id : ℕ) : Jobs :=
  if s.current.isSome then executeIn s id
  else
    drain env (s.modifyJob id fun job =>
      { job with pipeline := { job.pipeline with busy := true } }) id

/-- The loop goes on, and if it is over the outer pipeline does. -/
def proceed (s : Jobs) : Jobs :=
  let s := advance env s
  if s.current.isSome then s else resume env s

end Sequencing

end Jobs

/-- The calls of a run. -/
inductive JobEvent where
  /-- A sender or receiver is acquired and submitted. -/
  | submit (id : ℕ) (kind : JobKind) (noCrypt workerRequired : Bool)
  /-- `pomelo_protocol_sender_cancel` or `pomelo_protocol_receiver_cancel`. -/
  | cancel (id : ℕ)
  /-- Another task is submitted to the sequencer. -/
  | other (id : ℕ)
  /-- `pomelo_platform_worker_done`. -/
  | workerDone (id : ℕ) (canceled success : Bool)
  /-- The callback that is running returns. -/
  | finish

/-- A call, with the answers to the stages that run in it. -/
structure JobInput where
  env : JobEnv
  event : JobEvent

namespace Jobs

/-- A name is that of a new job. -/
def Fresh (s : Jobs) (id : ℕ) : Prop := .submitted id ∉ s.log

instance (s : Jobs) (id : ℕ) : Decidable (s.Fresh id) :=
  inferInstanceAs (Decidable (.submitted id ∉ s.log))

/-- One call. -/
def step (s : Jobs) (i : JobInput) : Jobs :=
  match i.event with
  | .submit id kind noCrypt workerRequired =>
      if s.Fresh id then
        execute i.env ({ s with
          jobs := Function.update s.jobs id (some (.init kind noCrypt workerRequired)) }.note
            (.submitted id)) id
      else s
  | .cancel id =>
      match s.jobs id with
      | none => s
      | some _ =>
          (s.modifyJob id fun job =>
            if job.canceled then job
            else { job with canceled := true, task := false, peer := false }).note (.canceled id)
  | .other id =>
      if s.current.isSome then s.enqueue (.other id) else advance i.env (s.enqueue (.other id))
  | .workerDone id canceled success =>
      match s.jobs id with
      | none => s
      | some job =>
          if s.current.isNone && job.worker then
            processComplete (execute i.env) (s.modifyJob id fun job => { job with worker := false })
              id canceled success
          else s
  | .finish =>
      match s.current with
      | none => s
      | some (.other _) => proceed i.env s
      | some (.job id) =>
          match s.jobs id with
          | none => proceed i.env s
          | some job => proceed i.env (if job.handling then s.release id else s)

end Jobs

end Protocol

end PomeloUdp
