import PomeloUdp.Library.Links
import PomeloUdp.Library.Run
import PomeloUdp.Library.SequencerLog

/-!
# The sequencer

`SequencerState` is `pomelo_sequencer_t` with its tasks and the callbacks that are being
executed. The callbacks are not fixed: the calls that they make are the inputs of a run,
so that a run is any program of callbacks. A callback is executed inside the call of
`pomelo_sequencer_submit` that popped its task, and `finish` is its return to the loop
there. An assertion that fails sets `failed`.

`sequenced_step` refines each call to the queue of `Sequencer.submit`.
-/

namespace PomeloUdp

namespace Base

open Links Machine

/-- `pomelo_sequencer_task_t` without its callback and data. -/
structure SequencerTask (τ : Type*) where
  next : Option τ
  prev : Option τ
  pending : Bool

/-- `pomelo_sequencer_t`. -/
structure SequencerState (τ : Type*) where
  tasks : τ → SequencerTask τ
  head : Option τ
  tail : Option τ
  busy : Bool
  /-- The callbacks being executed, the innermost first. -/
  running : List τ
  /-- The calls of `pomelo_sequencer_submit`, and the begin and end of each callback. -/
  log : List (Sequencer.Event τ)
  failed : Bool

/-- The calls of a program: `pomelo_sequencer_submit`, `pomelo_sequencer_task_init` and the
return of the innermost callback. -/
inductive SequencerInput (τ : Type*) where
  | submit (task : τ)
  | taskInit (task : τ)
  | finish

namespace SequencerState

variable {τ : Type*}

/-- The sequencer after `pomelo_sequencer_init`, with initialised tasks.
`pomelo_sequencer_task_init` leaves `prev` as it was. -/
def init (prev : τ → Option τ) : SequencerState τ where
  tasks t := ⟨none, prev t, false⟩
  head := none
  tail := none
  busy := false
  running := []
  log := []
  failed := false

section Operations

variable [DecidableEq τ]

/-- Writing a task. -/
def modifyTask (s : SequencerState τ) (task : τ) (f : SequencerTask τ → SequencerTask τ) :
    SequencerState τ :=
  { s with tasks := Function.update s.tasks task (f (s.tasks task)) }

/-- `task->next = next`. -/
def setNext (s : SequencerState τ) (task : τ) (next : Option τ) : SequencerState τ :=
  s.modifyTask task fun t => { t with next := next }

/-- `task->prev = prev`. -/
def setPrev (s : SequencerState τ) (task : τ) (prev : Option τ) : SequencerState τ :=
  s.modifyTask task fun t => { t with prev := prev }

/-- `task->pending = pending`. -/
def setPending (s : SequencerState τ) (task : τ) (pending : Bool) : SequencerState τ :=
  s.modifyTask task fun t => { t with pending := pending }

/-- Adding to the record of what happened. -/
def note (s : SequencerState τ) (event : Sequencer.Event τ) : SequencerState τ :=
  { s with log := s.log ++ [event] }

/-- Unlinking a pending task in `pomelo_sequencer_submit`. -/
def unlink (s : SequencerState τ) (task : τ) : SequencerState τ :=
  let s := match (s.tasks task).prev with
    | some prev => s.setNext prev (s.tasks task).next
    | none => { s with head := (s.tasks task).next }
  match (s.tasks task).next with
  | some next => s.setPrev next (s.tasks task).prev
  | none => { s with tail := (s.tasks task).prev }

/-- Appending a task in `pomelo_sequencer_submit`, with its two assertions. -/
def append (s : SequencerState τ) (task : τ) : SequencerState τ :=
  match s.head, s.tail with
  | none, none =>
      ({ s with head := some task, tail := some task }.setNext task none).setPrev task none
  | some _, some last =>
      { ((s.setNext last (some task)).setNext task none).setPrev task (some last) with
        tail := some task }
  | _, _ => { s with failed := true }

/-- The loop of `pomelo_sequencer_submit` up to the next callback, or to the return with
its assertions. -/
def advance (s : SequencerState τ) : SequencerState τ :=
  match s.head with
  | some current =>
      let s := { s with head := (s.tasks current).next }
      let s := match s.head with
        | some head => s.setPrev head none
        | none => { s with tail := none }
      let s := s.setPending current false
      { s with running := current :: s.running }.note (.started current)
  | none => { s with busy := false, failed := s.failed || s.tail.isSome }

/-- The part of `pomelo_sequencer_submit` that puts the task at the tail. -/
def link (s : SequencerState τ) (task : τ) : SequencerState τ :=
  let s := if (s.tasks task).pending then s.unlink task else s
  (s.append task).setPending task true

/-- `pomelo_sequencer_submit`, up to the first callback that it executes. -/
def submit (s : SequencerState τ) (task : τ) : SequencerState τ :=
  let s := (s.note (.submitted task)).link task
  if s.busy then s else advance { s with busy := true }

/-- `pomelo_sequencer_task_init`. -/
def taskInit (s : SequencerState τ) (task : τ) : SequencerState τ :=
  s.modifyTask task fun t => { t with next := none, pending := false }

/-- The innermost callback returns to the loop of its `pomelo_sequencer_submit`. -/
def finish (s : SequencerState τ) : SequencerState τ :=
  match s.running with
  | [] => s
  | current :: outer => advance ({ s with running := outer }.note (.finished current))

/-- One call. -/
def step (s : SequencerState τ) (i : SequencerInput τ) : SequencerState τ :=
  if s.failed then s
  else
    match i with
    | .submit task => s.submit task
    | .taskInit task => s.taskInit task
    | .finish => s.finish

/-- No task is re-initialised while it is pending. -/
def Proper (s : SequencerState τ) : SequencerInput τ → Prop
  | .taskInit task => (s.tasks task).pending = false
  | _ => True

end Operations

/-- The fields of the tasks as functions. -/
def next (s : SequencerState τ) (t : τ) : Option τ := (s.tasks t).next

def prev (s : SequencerState τ) (t : τ) : Option τ := (s.tasks t).prev

def pending (s : SequencerState τ) (t : τ) : Bool := (s.tasks t).pending

/-- The list of the sequencer holds the elements of `q`. -/
def Holds (s : SequencerState τ) (q : List τ) : Prop := Linked s.next s.prev s.head s.tail q

section Fields

variable [DecidableEq τ] (s : SequencerState τ) (task : τ)

theorem comp_modifyTask {α : Type*} (g : SequencerTask τ → α)
    (f : SequencerTask τ → SequencerTask τ) :
    (fun t => g ((s.modifyTask task f).tasks t)) =
      Function.update (fun t => g (s.tasks t)) task (g (f (s.tasks task))) :=
  Function.comp_update g s.tasks task _

theorem comp_modifyTask_of_same {α : Type*} (g : SequencerTask τ → α)
    (f : SequencerTask τ → SequencerTask τ) (h : ∀ t, g (f t) = g t) :
    (fun t => g ((s.modifyTask task f).tasks t)) = fun t => g (s.tasks t) := by
  rw [comp_modifyTask, h]
  exact Function.update_eq_self task _

@[simp] theorem setNext_next (v : Option τ) :
    (s.setNext task v).next = Function.update s.next task v :=
  comp_modifyTask s task SequencerTask.next _

@[simp] theorem setNext_prev (v : Option τ) : (s.setNext task v).prev = s.prev :=
  comp_modifyTask_of_same s task SequencerTask.prev _ fun _ => rfl

@[simp] theorem setNext_pending (v : Option τ) : (s.setNext task v).pending = s.pending :=
  comp_modifyTask_of_same s task SequencerTask.pending _ fun _ => rfl

@[simp] theorem setPrev_next (v : Option τ) : (s.setPrev task v).next = s.next :=
  comp_modifyTask_of_same s task SequencerTask.next _ fun _ => rfl

@[simp] theorem setPrev_prev (v : Option τ) :
    (s.setPrev task v).prev = Function.update s.prev task v :=
  comp_modifyTask s task SequencerTask.prev _

@[simp] theorem setPrev_pending (v : Option τ) : (s.setPrev task v).pending = s.pending :=
  comp_modifyTask_of_same s task SequencerTask.pending _ fun _ => rfl

@[simp] theorem setPending_next (v : Bool) : (s.setPending task v).next = s.next :=
  comp_modifyTask_of_same s task SequencerTask.next _ fun _ => rfl

@[simp] theorem setPending_prev (v : Bool) : (s.setPending task v).prev = s.prev :=
  comp_modifyTask_of_same s task SequencerTask.prev _ fun _ => rfl

@[simp] theorem setPending_pending (v : Bool) :
    (s.setPending task v).pending = Function.update s.pending task v :=
  comp_modifyTask s task SequencerTask.pending _

end Fields

/-- Two states that differ in the list only. -/
structure SameControl (s s' : SequencerState τ) : Prop where
  busy : s'.busy = s.busy
  running : s'.running = s.running
  log : s'.log = s.log
  failed : s'.failed = s.failed

/-- The state of the list and of the flags of its tasks. -/
structure Queued (s : SequencerState τ) (q : List τ) : Prop where
  holds : s.Holds q
  pending : ∀ t, s.pending t = true ↔ t ∈ q

section Linking

variable [DecidableEq τ] {s : SequencerState τ} {q : List τ} {task : τ}

omit [DecidableEq τ] in
theorem Holds.of_eq {s' : SequencerState τ} {next prev : τ → Option τ} {head tail : Option τ}
    (h : Linked next prev head tail q) (hnext : s'.next = next) (hprev : s'.prev = prev)
    (hhead : s'.head = head) (htail : s'.tail = tail) : s'.Holds q := by
  subst hnext hprev hhead htail
  exact h

theorem holds_unlink (h : s.Holds q) (htask : task ∈ q) :
    (s.unlink task).Holds (q.erase task) ∧ (s.unlink task).pending = s.pending ∧
      SameControl s (s.unlink task) := by
  have herase : Linked _ _ _ _ (q.erase task) := Linked.erase h htask
  cases hprev : s.prev task with
  | none =>
      have hprev' : (s.tasks task).prev = none := hprev
      cases hnext : s.next task with
      | none =>
          have hnext' : (s.tasks task).next = none := hnext
          simp only [hprev, hnext] at herase
          simp only [unlink, hprev', hnext']
          exact ⟨herase, rfl, rfl, rfl, rfl, rfl⟩
      | some n =>
          have hnext' : (s.tasks task).next = some n := hnext
          simp only [hprev, hnext] at herase
          simp only [unlink, hprev', hnext']
          exact ⟨.of_eq herase (setPrev_next _ n _) (setPrev_prev _ n _) rfl rfl,
            setPrev_pending _ n _, rfl, rfl, rfl, rfl⟩
  | some p =>
      have hprev' : (s.tasks task).prev = some p := hprev
      have hne : task ≠ p := fun heq => h.prev_ne htask (hprev.trans (congrArg some heq.symm))
      have hkept : ∀ v, ((s.setNext p v).tasks task) = s.tasks task := fun v =>
        Function.update_of_ne hne _ _
      cases hnext : s.next task with
      | none =>
          have hnext' : (s.tasks task).next = none := hnext
          simp only [hprev, hnext] at herase
          simp only [unlink, hprev', hnext', hkept]
          exact ⟨.of_eq herase (setNext_next _ p _) (setNext_prev _ p _) rfl rfl,
            setNext_pending _ p _, rfl, rfl, rfl, rfl⟩
      | some n =>
          have hnext' : (s.tasks task).next = some n := hnext
          simp only [hprev, hnext] at herase
          simp only [unlink, hprev', hnext', hkept]
          exact ⟨.of_eq herase ((setPrev_next _ n _).trans (setNext_next _ p _))
            (by rw [setPrev_prev, setNext_prev]) rfl rfl,
            (setPrev_pending _ n _).trans (setNext_pending _ p _), rfl, rfl, rfl, rfl⟩

theorem holds_append (h : s.Holds q) (htask : task ∉ q) :
    (s.append task).Holds (q ++ [task]) ∧ (s.append task).pending = s.pending ∧
      SameControl s (s.append task) := by
  have happend := Linked.append h htask
  rcases List.eq_nil_or_concat q with rfl | ⟨init, last, rfl⟩
  · have hhead : s.head = none := h.head_eq
    have htail : s.tail = none := h.tail_eq
    simp only [hhead, htail, Option.elim, Option.or] at happend
    simp only [append, hhead, htail]
    exact ⟨.of_eq happend (by rw [setPrev_next, setNext_next]; rfl)
      (by rw [setPrev_prev, setNext_prev]; rfl) rfl rfl,
      (setPrev_pending _ task _).trans (setNext_pending _ task _), rfl, rfl, rfl, rfl⟩
  · have htail : s.tail = some last := by simpa using h.tail_eq
    obtain ⟨first, hhead⟩ : ∃ first, s.head = some first := by
      rw [h.head_eq]
      cases init <;> exact ⟨_, rfl⟩
    simp only [hhead, htail, Option.elim, Option.or] at happend
    simp only [append, hhead, htail]
    exact ⟨.of_eq happend (by
        change SequencerState.next
          (((s.setNext last (some task)).setNext task none).setPrev task _) = _
        rw [setPrev_next, setNext_next, setNext_next])
      (by
        change SequencerState.prev
          (((s.setNext last (some task)).setNext task none).setPrev task _) = _
        rw [setPrev_prev, setNext_prev, setNext_prev]) hhead rfl,
      ((setPrev_pending _ task _).trans (setNext_pending _ task _)).trans
        (setNext_pending _ last _),
      rfl, rfl, rfl, rfl⟩

omit [DecidableEq τ] in
theorem Queued.nodup (h : s.Queued q) : q.Nodup := h.holds.nodup

/-- The part of `pomelo_sequencer_submit` before the loop is the submission of the queue. -/
theorem queued_link (h : s.Queued q) (task : τ) :
    (s.link task).Queued (Sequencer.submit q task) ∧ SameControl s (s.link task) := by
  obtain ⟨s', hs', herased, hpending, hcontrol⟩ : ∃ s', s' =
      (if (s.tasks task).pending then s.unlink task else s) ∧ s'.Holds (q.erase task) ∧
        s'.pending = s.pending ∧ SameControl s s' := by
    by_cases htask : task ∈ q
    · refine ⟨s.unlink task, ?_, holds_unlink h.holds htask⟩
      exact (if_pos ((h.pending task).mpr htask)).symm
    · refine ⟨s, ?_, ?_, rfl, rfl, rfl, rfl, rfl⟩
      · exact (if_neg fun hpending => htask ((h.pending task).mp hpending)).symm
      · rw [List.erase_of_not_mem htask]
        exact h.holds
  obtain ⟨happended, hpending', hcontrol'⟩ := holds_append herased h.nodup.not_mem_erase
  have hlink : s.link task = (s'.append task).setPending task true := by
    rw [link, ← hs']
  rw [hlink]
  refine ⟨⟨?_, fun t => ?_⟩, hcontrol'.busy.trans hcontrol.busy,
    hcontrol'.running.trans hcontrol.running, hcontrol'.log.trans hcontrol.log,
    hcontrol'.failed.trans hcontrol.failed⟩
  · exact .of_eq happended (setPending_next _ task _) (setPending_prev _ task _) rfl rfl
  · rw [setPending_pending, hpending', hpending, Sequencer.mem_submit]
    by_cases ht : t = task
    · simp [ht]
    · simp [ht, h.pending]

theorem queued_advance_cons (h : s.Queued (task :: q)) :
    (s.advance).Queued q ∧ s.advance.busy = s.busy ∧ s.advance.running = task :: s.running ∧
      s.advance.log = s.log ++ [.started task] ∧ s.advance.failed = s.failed := by
  have hhead : s.head = some task := h.holds.head_eq
  have hpop : Linked _ _ _ _ q := Linked.pop h.holds
  obtain ⟨s', hs', hpopped, hpending, hcontrol⟩ : ∃ s' : SequencerState τ,
      s.advance = ({ s'.setPending task false with running := task :: s.running } :
        SequencerState τ).note (.started task) ∧ s'.Holds q ∧ s'.pending = s.pending ∧
        SameControl s s' := by
    cases hnext : s.next task with
    | none =>
        have hnext' : (s.tasks task).next = none := hnext
        simp only [hnext] at hpop
        refine ⟨{ s with head := none, tail := none }, ?_, hpop, rfl, rfl, rfl, rfl, rfl⟩
        simp only [advance, hhead, hnext']
        rfl
    | some n =>
        have hnext' : (s.tasks task).next = some n := hnext
        simp only [hnext] at hpop
        refine ⟨{ s with head := some n }.setPrev n none, ?_, ?_, setPrev_pending _ n _, rfl, rfl,
          rfl, rfl⟩
        · simp only [advance, hhead, hnext']
          rfl
        · exact .of_eq hpop (setPrev_next _ n _) (setPrev_prev _ n _) rfl rfl
  rw [hs']
  refine ⟨⟨?_, fun t => ?_⟩, hcontrol.busy, rfl, congrArg (· ++ [_]) hcontrol.log, hcontrol.failed⟩
  · exact .of_eq hpopped (setPending_next _ task _) (setPending_prev _ task _) rfl rfl
  · change (s'.setPending task false).pending t = true ↔ t ∈ q
    rw [setPending_pending, hpending]
    by_cases ht : t = task
    · simpa [ht] using (List.nodup_cons.mp h.nodup).1
    · simp [ht, h.pending]

theorem advance_nil (h : s.Queued []) : s.advance = { s with busy := false } := by
  have hhead : s.head = none := h.holds.head_eq
  have htail : s.tail = none := h.holds.tail_eq
  simp [advance, hhead, htail]

theorem queued_taskInit (h : s.Queued q) (htask : task ∉ q) : (s.taskInit task).Queued q := by
  have hother : ∀ t, t ≠ task → (s.taskInit task).tasks t = s.tasks t := fun t ht =>
    Function.update_of_ne ht _ _
  refine ⟨⟨h.nodup, h.holds.head_eq, h.holds.tail_eq, ?_⟩, fun t => ?_⟩
  · refine h.holds.segment.congr (fun t ht => ?_) fun t ht => ?_
    · exact congrArg SequencerTask.next (hother t (ne_of_mem_of_not_mem ht htask))
    · exact congrArg SequencerTask.prev (hother t (ne_of_mem_of_not_mem ht htask))
  · by_cases ht : t = task
    · subst ht
      simpa [pending, taskInit, modifyTask] using htask
    · rw [show (s.taskInit task).pending t = s.pending t from
        congrArg SequencerTask.pending (hother t ht)]
      exact h.pending t

end Linking

/-- What holds between any two calls: the list is the queue that the history leaves, no
assertion has failed, and at most one callback is being executed, always in a busy
sequencer. -/
structure Sequenced [DecidableEq τ] (s : SequencerState τ) : Prop where
  queued : s.Queued (Sequencer.queueOf s.log)
  ordered : Sequencer.Ordered s.log
  alive : s.failed = false
  control : s.busy = false ∧ s.running = [] ∧ Sequencer.queueOf s.log = [] ∨
    s.busy = true ∧ ∃ t, s.running = [t]

section Steps

variable [DecidableEq τ] {s : SequencerState τ}

omit [DecidableEq τ] in
theorem Queued.congr {q : List τ} (h : s.Queued q) (s' : SequencerState τ)
    (htasks : s'.tasks = s.tasks) (hhead : s'.head = s.head) (htail : s'.tail = s.tail) :
    s'.Queued q := by
  have hfields : s'.next = s.next ∧ s'.prev = s.prev ∧ s'.pending = s.pending := by
    refine ⟨funext fun t => ?_, funext fun t => ?_, funext fun t => ?_⟩
    · exact congrArg (fun tasks => (tasks t).next) htasks
    · exact congrArg (fun tasks => (tasks t).prev) htasks
    · exact congrArg (fun tasks => (tasks t).pending) htasks
  obtain ⟨hnext, hprev, hpending⟩ := hfields
  exact ⟨.of_eq h.holds hnext hprev hhead htail, fun t => by rw [hpending, h.pending t]⟩

theorem sequenced_init (prev : τ → Option τ) : (init prev).Sequenced where
  queued := ⟨⟨List.nodup_nil, rfl, rfl, trivial⟩, fun t => by
    simp [init, SequencerState.pending, Sequencer.queueOf]⟩
  ordered := Sequencer.ordered_nil
  alive := rfl
  control := .inl ⟨rfl, rfl, rfl⟩

theorem sequenced_advance (hqueued : s.Queued (Sequencer.queueOf s.log))
    (hordered : Sequencer.Ordered s.log) (halive : s.failed = false) (hbusy : s.busy = true)
    (hrunning : s.running = []) : s.advance.Sequenced := by
  cases hqueue : Sequencer.queueOf s.log with
  | nil =>
      rw [hqueue] at hqueued
      rw [advance_nil hqueued]
      refine ⟨?_, hordered, halive, .inl ⟨rfl, hrunning, hqueue⟩⟩
      exact (hqueue.symm ▸ hqueued).congr _ rfl rfl rfl
  | cons t q =>
      rw [hqueue] at hqueued
      obtain ⟨hrest, hbusy', hrunning', hlog, hfailed⟩ := queued_advance_cons hqueued
      have hqueue' : Sequencer.queueOf s.advance.log = q := by
        rw [hlog, Sequencer.queueOf_concat, hqueue]
        exact List.erase_cons_head t q
      refine ⟨hqueue'.symm ▸ hrest, ?_, hfailed.trans halive,
        .inr ⟨hbusy'.trans hbusy, t, by rw [hrunning', hrunning]⟩⟩
      rw [hlog]
      refine hordered.concat fun u hu => ?_
      obtain rfl := Sequencer.Event.started.inj hu
      rw [hqueue]
      rfl

theorem Sequenced.submit (h : s.Sequenced) (task : τ) : (s.submit task).Sequenced := by
  obtain ⟨hlinked, hbusy, hrunning, hlog, hfailed⟩ :=
    queued_link (h.queued.congr (s.note (.submitted task)) rfl rfl rfl) task
  have hqueue : Sequencer.queueOf ((s.note (.submitted task)).link task).log =
      Sequencer.submit (Sequencer.queueOf s.log) task := by
    rw [hlog]
    exact Sequencer.queueOf_concat s.log (.submitted task)
  have hordered : Sequencer.Ordered ((s.note (.submitted task)).link task).log := by
    rw [hlog]
    exact h.ordered.concat fun t ht => nomatch ht
  simp only [SequencerState.submit]
  rw [show ((s.note (.submitted task)).link task).busy = s.busy from hbusy]
  rcases h.control with ⟨hidle, hnone, -⟩ | ⟨hactive, t, ht⟩
  · -- the call that drains the queue
    rw [hidle]
    exact sequenced_advance ((hqueue.symm ▸ hlinked).congr _ rfl rfl rfl) hordered
      (hfailed.trans h.alive) rfl (hrunning.trans hnone)
  · -- a call from a callback returns at once
    rw [hactive]
    exact ⟨hqueue.symm ▸ hlinked, hordered, hfailed.trans h.alive,
      .inr ⟨hbusy.trans hactive, t, hrunning.trans ht⟩⟩

theorem Sequenced.finish (h : s.Sequenced) : s.finish.Sequenced := by
  rcases h.control with ⟨-, hnone, -⟩ | ⟨hactive, t, ht⟩
  · simp only [SequencerState.finish, hnone]
    exact h
  · simp only [SequencerState.finish, ht]
    have hqueue : Sequencer.queueOf (s.log ++ [.finished t]) = Sequencer.queueOf s.log :=
      Sequencer.queueOf_concat s.log (.finished t)
    exact sequenced_advance ((hqueue.symm ▸ h.queued).congr _ rfl rfl rfl)
      (h.ordered.concat fun u hu => nomatch hu) h.alive hactive rfl

theorem Sequenced.taskInit (h : s.Sequenced) {task : τ} (hproper : s.pending task = false) :
    (s.taskInit task).Sequenced := by
  have htask : task ∉ Sequencer.queueOf s.log := fun hmem => by
    rw [(h.queued.pending task).mpr hmem] at hproper
    cases hproper
  exact ⟨queued_taskInit h.queued htask, h.ordered, h.alive, h.control⟩

theorem sequenced_step (h : s.Sequenced) {i : SequencerInput τ} (hi : s.Proper i) :
    (step s i).Sequenced := by
  unfold step
  rw [if_neg (by rw [h.alive]; decide)]
  cases i with
  | submit task => exact h.submit task
  | taskInit task => exact h.taskInit hi
  | finish => exact h.finish

/-- For every program that re-initialises no pending task, at any time: no assertion has
failed, at most one callback is being executed, each task that was started was waiting
and had the earliest last submission of those that were, each maximal run of submissions
has been run once or is waiting to be, and outside of every callback the list is empty,
the sequencer idle and nothing left waiting. -/
theorem sequencer_run (prev : τ → Option τ) (is : List (SequencerInput τ))
    (h : Along step Proper (init prev) is) (s : SequencerState τ)
    (hs : s = run step (init prev) is) :
    s.failed = false ∧ s.running.length ≤ 1 ∧
    (∀ before t after, s.log = before ++ .started t :: after → Sequencer.Waiting before t ∧
      ∀ u, u ≠ t → Sequencer.Waiting before u → Sequencer.SubmittedBefore before t u) ∧
    (∀ t, s.log.count (.started t) + (if Sequencer.Waiting s.log t then 1 else 0) =
      Sequencer.runs s.log t) ∧
    (s.running = [] → s.head = none ∧ s.tail = none ∧ s.busy = false ∧
      ∀ t, s.pending t = false ∧ ¬ Sequencer.Waiting s.log t) := by
  have hsequenced : s.Sequenced := by
    rw [hs]
    exact invariant_run (I := Sequenced) (fun s i hsequenced hi => sequenced_step hsequenced hi)
      (sequenced_init prev) h
  refine ⟨hsequenced.alive, ?_, fun before t after heq => hsequenced.ordered.started heq,
    fun t => hsequenced.ordered.count_started t, fun hrunning => ?_⟩
  · rcases hsequenced.control with ⟨-, hnone, -⟩ | ⟨-, t, ht⟩
    · simp [hnone]
    · simp [ht]
  · rcases hsequenced.control with ⟨hidle, -, hqueue⟩ | ⟨-, t, ht⟩
    · have hqueued := hsequenced.queued
      rw [hqueue] at hqueued
      refine ⟨hqueued.holds.head_eq, hqueued.holds.tail_eq, hidle, fun t => ⟨?_, fun ht => ?_⟩⟩
      · simpa using hqueued.pending t
      · have hmem := (Sequencer.mem_queueOf s.log t).mpr ht
        rw [hqueue] at hmem
        simp at hmem
    · rw [ht] at hrunning
      cases hrunning

/-- A task that submits another one, itself and the other one again before it returns. -/
def resubmission : List (SequencerInput ℕ) :=
  [.taskInit 1, .submit 1, .submit 2, .submit 1, .submit 2, .finish, .finish, .finish]

theorem sequencer_run_resubmission :
    (run step (init fun _ => none) resubmission).log =
      [.submitted 1, .started 1, .submitted 2, .submitted 1, .submitted 2, .finished 1,
        .started 1, .finished 1, .started 2, .finished 2] ∧
    (run step (init fun _ => none) resubmission).head = none ∧
    (run step (init fun _ => none) resubmission).tail = none ∧
    (run step (init fun _ => none) resubmission).busy = false := by
  have hrun := sequencer_run (fun _ => none) resubmission
    ⟨rfl, trivial, trivial, trivial, trivial, trivial, trivial, trivial, trivial⟩
    (run step (init fun _ => none) resubmission) rfl
  obtain ⟨-, -, -, -, hreturned⟩ := hrun
  obtain ⟨hhead, htail, hidle, -⟩ := hreturned (by decide)
  exact ⟨by decide, hhead, htail, hidle⟩

end Steps

end SequencerState

end Base

end PomeloUdp
