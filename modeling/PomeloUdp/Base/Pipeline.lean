import Mathlib.Data.Nat.Notation

/-!
# Pipelines

`Pipeline` is a `pomelo_pipeline_t` between two calls of its sequencer: the index of the task and
the flags. The calls answer whether they go on to `pomelo_pipeline_execute`, which the owners of a
pipeline model with the sequencer they submit to.
-/

namespace PomeloUdp

namespace Base

/-- `pomelo_pipeline_t`: the index of the current task and the flags. -/
structure Pipeline where
  taskCount : ℕ
  taskIndex : ℕ
  busy : Bool
  next : Bool
  finish : Bool
  deriving DecidableEq

namespace Pipeline

/-- `pomelo_pipeline_init`. -/
def init (taskCount : ℕ) : Pipeline := ⟨taskCount, 0, false, false, false⟩

/-- The index of the last task. -/
def last (p : Pipeline) : ℕ := p.taskCount - 1

/-- `pomelo_pipeline_next`, and whether it goes on to `pomelo_pipeline_execute`. -/
def advance (p : Pipeline) : Pipeline × Bool :=
  if p.taskIndex = p.last then (p, false)
  else if p.busy then ({ p with next := true }, false)
  else ({ p with taskIndex := p.taskIndex + 1 }, true)

/-- `pomelo_pipeline_finish`, and whether it goes on to `pomelo_pipeline_execute`. -/
def conclude (p : Pipeline) : Pipeline × Bool :=
  if p.taskIndex = p.last then (p, false)
  else if p.busy then ({ p with finish := true }, false)
  else ({ p with taskIndex := p.last }, true)

/-- The loop of `pomelo_pipeline_execute` behind the call of the sequencer, and whether it
continues. -/
def returned (p : Pipeline) : Pipeline × Bool :=
  if p.finish ∧ p.taskIndex ≠ p.last then
    ({ p with finish := false, taskIndex := p.last }, true)
  else if p.next ∧ p.taskIndex ≠ p.last then
    ({ p with finish := false, next := false, taskIndex := p.taskIndex + 1 }, true)
  else ({ p with finish := false, next := false, busy := false }, false)

end Pipeline

end Base

end PomeloUdp
