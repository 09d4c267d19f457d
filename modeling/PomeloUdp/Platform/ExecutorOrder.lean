import Mathlib.Data.List.Nodup
import Mathlib.Data.List.Perm.Subperm
import PomeloUdp.Platform.Executor

/-!
# What a thread-safe executor keeps

The lists of an executor that runs are what has been appended and has not run yet, in order,
and the callback that has taken a list is the only one. A shutdown comes from a release that
has run. The counter is that of the tasks whose submit has returned and that no callback has
taken and no shutdown has dropped: `orderly_run`.

A run has to avoid five things for this: an executor that is used again, since the flag that
shuts it down is never cleared; a submit that is cut by a callback or a shutdown between its
append and its count, or by a shutdown between its checks and its append; a signal that
fails; and a release that is not the last task of the list that a callback has taken.
-/

namespace PomeloUdp

namespace Platform

open Machine

/-- What the claims of the executor come to: its tasks run in the order in which they were
appended, each once and none of an earlier user; the ones that have not run are in its lists;
when it has shut down it has none and the last task that has run is a release. -/
structure Executor.Orderly (x : Executor) : Prop where
  order : ∃ rest, x.pushed = x.ran ++ rest ∧
    (x.running = true → rest = x.tasksBack ++ x.tasksFront)
  once : x.pushed.Nodup
  own : ∀ t ∈ x.pushed, t.life = x.life
  idle : x.running = false → x.busy = false ∧ x.tasksFront = [] ∧ x.tasksBack = []
  released : x.life ≠ 0 → x.running = false →
    ∃ before t, x.ran = before ++ [t] ∧ t.release = true

/-- What the steps of an executor keep. -/
structure Executor.Sound (x : Executor) : Prop where
  order : x.running = true → x.pushed = x.ran ++ (x.tasksBack ++ x.tasksFront)
  ran : x.ran <+: x.pushed
  once : x.pushed.Nodup
  own : ∀ t ∈ x.pushed, t.life = x.life
  idle : x.running = false → x.busy = false ∧ x.tasksFront = [] ∧ x.tasksBack = []
  waits : x.busy = false → x.tasksBack = []
  flag : x.shutdown = true → ∃ before t, x.ran = before ++ [t] ∧ t.release = true
  ended : x.life ≠ 0 → x.running = false → x.shutdown = true
  shut : x.shutdown = true → x.busy = true ∨ x.running = false
  attached : x.running = true → x.acquired = true ∧ x.closing = false
  acquired : x.acquired = true → x.running = true ∨ x.closing = true
  closing : x.closing = true → x.acquired = true

namespace Executor

variable {x : Executor}

theorem sound_new : new.Sound where
  order := nofun
  ran := List.prefix_rfl
  once := List.nodup_nil
  own _ h := nomatch h
  idle _ := ⟨rfl, rfl, rfl⟩
  waits _ := rfl
  flag := nofun
  ended h := absurd rfl h
  shut := nofun
  attached := nofun
  acquired := nofun
  closing := nofun

theorem Sound.orderly (h : x.Sound) : x.Orderly where
  order := by
    obtain ⟨rest, hrest⟩ := h.ran
    refine ⟨rest, hrest.symm, fun hrunning => ?_⟩
    exact List.append_cancel_left (hrest.trans (h.order hrunning))
  once := h.once
  own := h.own
  idle := h.idle
  released hlife hrunning := h.flag (h.ended hlife hrunning)

theorem Sound.mem_pushed (h : x.Sound) {t : ThreadsafeTask} (ht : t ∈ x.tasksFront) :
    t ∈ x.pushed := by
  cases hrunning : x.running with
  | true =>
      rw [h.order hrunning]
      exact List.mem_append_right _ (List.mem_append_right _ ht)
  | false =>
      rw [(h.idle hrunning).2.1] at ht
      cases ht

theorem Sound.nodup_tasksFront (h : x.Sound) : x.tasksFront.Nodup := by
  cases hrunning : x.running with
  | true =>
      have honce := h.once
      rw [h.order hrunning] at honce
      exact (List.nodup_append.mp (List.nodup_append.mp honce).2.1).2.1
  | false =>
      rw [(h.idle hrunning).2.1]
      exact List.nodup_nil

theorem Sound.running_of_busy (h : x.Sound) (hbusy : x.busy = true) : x.running = true := by
  cases hrunning : x.running with
  | true => rfl
  | false => exact absurd ((h.idle hrunning).1.symm.trans hbusy) nofun

theorem Sound.acquire (h : x.Sound) (hacquired : x.acquired = false)
    (hshutdown : x.shutdown = false) :
    Sound { x with
      acquired := true, running := true, signaled := false, life := x.life + 1,
      pushed := [], ran := [] } := by
  have hrunning : x.running = false := by
    cases hrunning : x.running with
    | false => rfl
    | true => exact absurd ((h.attached hrunning).1.symm.trans hacquired) nofun
  obtain ⟨-, hfront, hback⟩ := h.idle hrunning
  have hclosing : x.closing = false := by
    cases hclosing : x.closing with
    | false => rfl
    | true => exact absurd ((h.closing hclosing).symm.trans hacquired) nofun
  exact {
    order := fun _ => by simp [hfront, hback]
    ran := List.prefix_rfl
    once := List.nodup_nil
    own := fun _ ht => nomatch ht
    idle := nofun
    waits := h.waits
    flag := fun hflag => absurd (hshutdown.symm.trans hflag) nofun
    ended := fun _ => nofun
    shut := fun hflag => absurd (hshutdown.symm.trans hflag) nofun
    attached := fun _ => ⟨rfl, hclosing⟩
    acquired := fun _ => .inl rfl
    closing := fun _ => rfl }

theorem Sound.push (h : x.Sound) (hrunning : x.running = true) {task : ThreadsafeTask}
    (hlife : task.life = x.life) (hnew : task ∉ x.pushed) :
    Sound { x with tasksFront := x.tasksFront ++ [task], pushed := x.pushed ++ [task] } where
  order _ := by
    dsimp only
    rw [h.order hrunning]
    simp only [List.append_assoc]
  ran := h.ran.trans (List.prefix_append ..)
  once := List.nodup_append.mpr ⟨h.once, List.nodup_singleton task, fun t ht t' ht' heq => by
    rw [heq, List.mem_singleton.mp ht'] at ht
    exact hnew ht⟩
  own t ht := by
    rcases List.mem_append.mp ht with ht | ht
    · exact h.own t ht
    · rw [List.mem_singleton.mp ht]
      exact hlife
  idle hidle := absurd (hrunning.symm.trans hidle) nofun
  waits := h.waits
  flag := h.flag
  ended := h.ended
  shut := h.shut
  attached := h.attached
  acquired := h.acquired
  closing := h.closing

theorem Sound.callback (h : x.Sound) (hacquired : x.acquired = true) (hclosing : x.closing = false)
    (hbusy : x.busy = false) :
    x.tasksBack = [] ∧ Sound { x with
      busy := true, signaled := false, tasksFront := x.tasksBack, tasksBack := x.tasksFront } := by
  have hrunning : x.running = true :=
    (h.acquired hacquired).resolve_right fun hyes => absurd (hclosing.symm.trans hyes) nofun
  have hback := h.waits hbusy
  refine ⟨hback, { h with
    order := fun _ => ?_
    idle := fun hidle => absurd (hrunning.symm.trans hidle) nofun
    waits := nofun
    shut := fun _ => .inl rfl }⟩
  rw [h.order hrunning, hback]
  simp

theorem Sound.task (h : x.Sound) (hbusy : x.busy = true) (hshutdown : x.shutdown = false)
    {task : ThreadsafeTask} {tasks : List ThreadsafeTask} (hback : x.tasksBack = task :: tasks) :
    Sound { x with tasksBack := tasks, ran := x.ran ++ [task] } ∧
      (task.release = true →
        Sound { x with tasksBack := tasks, ran := x.ran ++ [task], shutdown := true }) := by
  have hrunning := h.running_of_busy hbusy
  have horder : x.pushed = (x.ran ++ [task]) ++ (tasks ++ x.tasksFront) := by
    rw [h.order hrunning, hback]
    simp
  have hran : x.ran ++ [task] <+: x.pushed := ⟨_, horder.symm⟩
  refine ⟨{ h with
    order := fun _ => horder
    ran := hran
    idle := fun hidle => absurd (hrunning.symm.trans hidle) nofun
    waits := fun hfree => absurd (hbusy.symm.trans hfree) nofun
    flag := fun hflag => absurd (hshutdown.symm.trans hflag) nofun }, fun hrelease => { h with
    order := fun _ => horder
    ran := hran
    idle := fun hidle => absurd (hrunning.symm.trans hidle) nofun
    waits := fun hfree => absurd (hbusy.symm.trans hfree) nofun
    flag := fun _ => ⟨x.ran, task, rfl, hrelease⟩
    ended := fun _ _ => rfl
    shut := fun _ => .inl hbusy }⟩

theorem Sound.callbackEnd (h : x.Sound) (hback : x.tasksBack = [])
    (hshutdown : x.shutdown = false) :
    Sound { x with busy := false } :=
  { h with
    idle := fun hidle => ⟨rfl, (h.idle hidle).2⟩
    waits := fun _ => hback
    shut := fun hflag => absurd (hshutdown.symm.trans hflag) nofun }

theorem Sound.shutdown (h : x.Sound) (hbusy : x.busy = true) (hshutdown : x.shutdown = true) :
    Sound { x with
      busy := false, running := false, closing := true, tasksFront := [], tasksBack := [] } := by
  obtain ⟨hacquired, -⟩ := h.attached (h.running_of_busy hbusy)
  exact { h with
    order := nofun
    idle := fun _ => ⟨rfl, rfl, rfl⟩
    waits := fun _ => rfl
    ended := fun _ _ => hshutdown
    shut := fun _ => .inr rfl
    attached := nofun
    acquired := fun _ => .inr rfl
    closing := fun _ => hacquired }

theorem Sound.closed (h : x.Sound) (hclosing : x.closing = true) :
    Sound { x with acquired := false, closing := false } := by
  have hrunning : x.running = false := by
    cases hrunning : x.running with
    | false => rfl
    | true => exact absurd ((h.attached hrunning).2.symm.trans hclosing) nofun
  exact { h with
    attached := fun hyes => absurd (hrunning.symm.trans hyes) nofun
    acquired := nofun
    closing := nofun }

theorem Sound.signal (h : x.Sound) : Sound { x with signaled := true } := { h with }

end Executor

namespace Controller

variable {s s' : Controller} {e : ℕ} {t task : ThreadsafeTask} {stage : SubmitStage}

/-- No submit to the executor is between its append and its count. -/
def Settled (s : Controller) (e : ℕ) : Prop :=
  ∀ submit ∈ s.submits, submit.2 ≠ .checked → submit.1.executor ≠ e

instance (s : Controller) (e : ℕ) : Decidable (s.Settled e) :=
  inferInstanceAs (Decidable (∀ submit ∈ s.submits, _))

/-- The executor that is acquired has never shut down; a task is appended to an executor that
has not shut down since the checks; the signal is sent; no submit to it is between its append
and its count when a callback takes the list of an executor or shuts it down, and then the
callback has run all that it has taken. -/
def Careful (s : Controller) : ExecutorEvent → Prop
  | .acquire e started =>
      started = true → (s.executors e).acquired = false → (s.executors e).shutdown = false
  | .push task added => added = true →
      (s.executors task.executor).running = true ∧ (s.executors task.executor).life = task.life
  | .signal _ sent => sent = true
  | .callback e => s.Settled e
  | .callbackEnd e => (s.executors e).busy = true → (s.executors e).shutdown = true →
      (s.executors e).tasksBack = [] ∧ s.Settled e
  | .submit .. | .count _ | .task _ | .shutdownComplete _ => True

instance (s : Controller) (event : ExecutorEvent) : Decidable (s.Careful event) := by
  cases event <;> unfold Careful <;> infer_instance

/-- The executors are in order; what has been submitted is in the right one of them; where
tasks wait, a callback is on its way; and the counter is that of the tasks that wait. -/
structure Orderly (s : Controller) : Prop where
  fault : s.fault = none
  executor : ∀ e, (s.executors e).Orderly
  returned : ∀ t ∈ s.submitted, t.life = (s.executors t.executor).life →
    t ∈ (s.executors t.executor).pushed
  wakes : ∀ e, (s.executors e).running = true → (s.executors e).tasksFront ≠ [] →
    (s.executors e).signaled = true ∨ ∃ t, (t, .pushed) ∈ s.submits ∧ t.executor = e
  counter : s.taskCounter =
    UInt64.ofNat (s.submitted.filter fun t => t ∉ s.taken ∧ t ∉ s.discarded).length

section Submits

theorem mem_submits_of_stageOf (h : s.stageOf task = some stage) : (task, stage) ∈ s.submits := by
  obtain ⟨before, after, heq, -⟩ := List.lookup_eq_some_iff.mp h
  rw [heq]
  exact List.mem_append_right _ List.mem_cons_self

theorem mem_submits_return {submit : ThreadsafeTask × SubmitStage} :
    submit ∈ (s.submitReturn task).submits ↔ submit ∈ s.submits ∧ submit.1 ≠ task := by
  simp [submitReturn, List.mem_filter]

theorem mem_submits_next {submit : ThreadsafeTask × SubmitStage} :
    submit ∈ (s.submitNext task stage).submits ↔
      submit = (task, stage) ∨ submit ∈ s.submits ∧ submit.1 ≠ task := by
  simp [submitNext, List.mem_filter]

theorem keys_filter (h : (s.submits.map Prod.fst).Nodup) (task : ThreadsafeTask) :
    ((s.submits.filter fun submit => submit.1 ≠ task).map Prod.fst).Nodup :=
  h.sublist (List.filter_sublist.map _)

theorem keys_next (h : (s.submits.map Prod.fst).Nodup) (task : ThreadsafeTask)
    (stage : SubmitStage) : ((s.submitNext task stage).submits.map Prod.fst).Nodup := by
  refine List.nodup_cons.mpr ⟨?_, keys_filter h task⟩
  simp [List.mem_map, List.mem_filter]

theorem stage_unique (h : (s.submits.map Prod.fst).Nodup) {stage' : SubmitStage}
    (hstage : (task, stage) ∈ s.submits) (hstage' : (task, stage') ∈ s.submits) : stage = stage' :=
  congrArg Prod.snd (List.inj_on_of_nodup_map h hstage hstage' rfl)

end Submits

section Ordered

/-- What the steps keep of the executors and of the submits under way. -/
structure Ordered (s : Controller) : Prop where
  executor : ∀ e, (s.executors e).Sound
  place : ∀ e, ∀ t ∈ (s.executors e).pushed, t.executor = e ∧ t.number < s.nextTask
  keys : (s.submits.map Prod.fst).Nodup
  numbers : ∀ submit ∈ s.submits, submit.1.number < s.nextTask
  checked : ∀ t, (t, .checked) ∈ s.submits → t ∉ (s.executors t.executor).pushed
  submits : ∀ submit ∈ s.submits, submit.1.life ≤ (s.executors submit.1.executor).life ∧
    (submit.2 ≠ .checked → submit.1.life = (s.executors submit.1.executor).life →
      submit.1 ∈ (s.executors submit.1.executor).pushed)
  submitted : ∀ t ∈ s.submitted, t.life ≤ (s.executors t.executor).life ∧
    (t.life = (s.executors t.executor).life → t ∈ (s.executors t.executor).pushed)
  wakes : ∀ e, (s.executors e).running = true → (s.executors e).tasksFront ≠ [] →
    (s.executors e).signaled = true ∨ ∃ t, (t, .pushed) ∈ s.submits ∧ t.executor = e
  dangling : s.dangling = []
  fault : s.fault = none

theorem ordered_start : Ordered start where
  executor _ := Executor.sound_new
  place _ _ h := nomatch h
  keys := List.nodup_nil
  numbers _ h := nomatch h
  checked _ h := nomatch h
  submits _ h := nomatch h
  submitted _ h := nomatch h
  wakes _ := nofun
  dangling := rfl
  fault := rfl

theorem Ordered.updated (h : Ordered s) {x : Executor} (hx : x.Sound)
    (hpushed : x.pushed = (s.executors e).pushed) (hlife : x.life = (s.executors e).life)
    (hwakes : x.running = true → x.tasksFront ≠ [] →
      x.signaled = true ∨ ∃ t, (t, .pushed) ∈ s.submits ∧ t.executor = e)
    (hexecutors : s'.executors = Function.update s.executors e x)
    (hsubmits : s'.submits = s.submits) (hnext : s'.nextTask = s.nextTask)
    (hsubmitted : s'.submitted = s.submitted) (hdangling : s'.dangling = s.dangling)
    (hfault : s'.fault = s.fault) : Ordered s' := by
  have hall : ∀ {P : Executor → Prop} (e' : ℕ), P (s.executors e') → (e' = e → P x) →
      P (s'.executors e') := by
    intro P e' hP hx'
    rw [hexecutors]
    by_cases he : e' = e
    · subst he
      rw [Function.update_self]
      exact hx' rfl
    · rw [Function.update_of_ne he]
      exact hP
  have hpushed' : ∀ e', (s'.executors e').pushed = (s.executors e').pushed := fun e' =>
    hall (P := fun x => x.pushed = (s.executors e').pushed) e' rfl fun he => he ▸ hpushed
  have hlife' : ∀ e', (s'.executors e').life = (s.executors e').life := fun e' =>
    hall (P := fun x => x.life = (s.executors e').life) e' rfl fun he => he ▸ hlife
  constructor
  · exact fun e' => hall e' (h.executor e') fun _ => hx
  · intro e'
    rw [hpushed', hnext]
    exact h.place e'
  · rw [hsubmits]
    exact h.keys
  · rw [hsubmits, hnext]
    exact h.numbers
  · intro t
    rw [hsubmits, hpushed']
    exact h.checked t
  · intro submit
    rw [hsubmits, hlife', hpushed']
    exact h.submits submit
  · intro t
    rw [hsubmitted, hlife', hpushed']
    exact h.submitted t
  · intro e'
    rw [hsubmits]
    exact hall (P := fun x => x.running = true → x.tasksFront ≠ [] → x.signaled = true ∨
      ∃ t, (t, .pushed) ∈ s.submits ∧ t.executor = e') e' (h.wakes e') fun he => he ▸ hwakes
  · rw [hdangling]
    exact h.dangling
  · rw [hfault]
    exact h.fault

/-- An executor that has never shut down is acquired. -/
theorem Ordered.acquire (h : Ordered s) (started : Bool)
    (hcareful : s.Careful (.acquire e started)) : Ordered (s.acquire e started) := by
  unfold Controller.acquire
  split
  · exact h
  · rename_i hfree
    simp only [Bool.or_eq_true, not_or, Bool.not_eq_true, Bool.not_eq_false'] at hfree
    obtain ⟨hacquired, hstarted⟩ := hfree
    have hsound := (h.executor e).acquire hacquired (hcareful (by simpa using hstarted) hacquired)
    set x : Executor := { s.executors e with
      acquired := true, running := true, signaled := false, life := (s.executors e).life + 1,
      pushed := [], ran := [] } with hx
    have hexecutors : (s.modifyExecutor e fun x => { x with
        acquired := true, running := true, signaled := false, life := x.life + 1,
        pushed := [], ran := [] }).executors = Function.update s.executors e x := rfl
    have hfront : x.tasksFront = [] := by
      have hrunning : (s.executors e).running = false := by
        cases hrunning : (s.executors e).running with
        | false => rfl
        | true =>
            exact absurd (((h.executor e).attached hrunning).1.symm.trans hacquired) nofun
      exact ((h.executor e).idle hrunning).2.1
    -- what was submitted before belongs to an earlier life
    have hold : ∀ {t : ThreadsafeTask} {P : Prop}, t.life ≤ (s.executors t.executor).life ∧
        (P → t.life = (s.executors t.executor).life → t ∈ (s.executors t.executor).pushed) →
        t.life ≤ (Function.update s.executors e x t.executor).life ∧
        (P → t.life = (Function.update s.executors e x t.executor).life →
          t ∈ (Function.update s.executors e x t.executor).pushed) := by
      intro t P ht
      by_cases he : t.executor = e
      · rw [he] at ht ⊢
        rw [Function.update_self]
        have hle : t.life ≤ (s.executors e).life := ht.1
        refine ⟨Nat.le_succ_of_le hle, fun _ heq => ?_⟩
        change t.life = (s.executors e).life + 1 at heq
        omega
      · rw [Function.update_of_ne he]
        exact ht
    constructor
    · intro e'
      rw [hexecutors]
      by_cases he : e' = e
      · rw [he, Function.update_self]
        exact hsound
      · rw [Function.update_of_ne he]
        exact h.executor e'
    · intro e' t ht
      rw [hexecutors] at ht
      by_cases he : e' = e
      · rw [he, Function.update_self] at ht
        cases ht
      · rw [Function.update_of_ne he] at ht
        exact h.place e' t ht
    · exact h.keys
    · exact h.numbers
    · intro t ht
      rw [hexecutors]
      by_cases he : t.executor = e
      · rw [he, Function.update_self]
        exact nofun
      · rw [Function.update_of_ne he]
        exact h.checked t ht
    · exact fun submit hsubmit => hold (h.submits submit hsubmit)
    · intro t ht
      obtain ⟨hle, hmem⟩ := hold (P := True) ⟨(h.submitted t ht).1, fun _ => (h.submitted t ht).2⟩
      exact ⟨hle, hmem trivial⟩
    · intro e'
      rw [hexecutors]
      by_cases he : e' = e
      · rw [he, Function.update_self, hfront]
        exact fun _ hne => absurd rfl hne
      · rw [Function.update_of_ne he]
        exact h.wakes e'
    · exact h.dangling
    · exact h.fault

theorem Ordered.submit (h : Ordered s) (release : Bool) : Ordered (s.submit e release) := by
  unfold Controller.submit
  split
  · set new : ThreadsafeTask := ⟨e, (s.executors e).life, s.nextTask, release⟩ with hnew
    have hfresh : ∀ {t : ThreadsafeTask}, t.number < s.nextTask → t ≠ new := by
      rintro t hlt rfl
      exact absurd hlt (Nat.lt_irrefl _)
    refine { h with
      place := fun e' t ht => ?_
      keys := List.nodup_cons.mpr ⟨fun hmem => ?_, h.keys⟩
      numbers := fun submit hsubmit => ?_
      checked := fun t ht => ?_
      submits := fun submit hsubmit => ?_
      wakes := fun e' hrunning hne => (h.wakes e' hrunning hne).imp_right ?_ }
    · exact ⟨(h.place e' t ht).1, Nat.lt_succ_of_lt (h.place e' t ht).2⟩
    · obtain ⟨submit, hsubmit, heq⟩ := List.mem_map.mp hmem
      exact hfresh (h.numbers submit hsubmit) heq
    · rcases List.mem_cons.mp hsubmit with rfl | hsubmit
      · exact Nat.lt_succ_self _
      · exact Nat.lt_succ_of_lt (h.numbers submit hsubmit)
    · rcases List.mem_cons.mp ht with heq | ht
      · rw [(Prod.mk.inj heq).1]
        exact fun hmem => hfresh (h.place e new hmem).2 rfl
      · exact h.checked t ht
    · rcases List.mem_cons.mp hsubmit with rfl | hsubmit
      · exact ⟨Nat.le_refl _, fun hne => absurd rfl hne⟩
      · exact h.submits submit hsubmit
    · exact fun ⟨t, ht, he⟩ => ⟨t, List.mem_cons_of_mem _ ht, he⟩
  · exact h

theorem Ordered.submitReturn (h : Ordered s) (hstage : (task, stage) ∈ s.submits)
    (hne : stage ≠ .pushed) : Ordered (s.submitReturn task) := by
  refine { h with
    keys := keys_filter h.keys task
    numbers := fun submit hsubmit => h.numbers submit (mem_submits_return.mp hsubmit).1
    checked := fun t ht => h.checked t (mem_submits_return.mp ht).1
    submits := fun submit hsubmit => h.submits submit (mem_submits_return.mp hsubmit).1
    wakes := fun e' hrunning hfront => (h.wakes e' hrunning hfront).imp_right ?_ }
  rintro ⟨t, ht, he⟩
  refine ⟨t, mem_submits_return.mpr ⟨ht, ?_⟩, he⟩
  rintro rfl
  exact hne (stage_unique h.keys hstage ht)

theorem Ordered.submitPush (h : Ordered s) (added : Bool)
    (hcareful : s.Careful (.push task added)) : Ordered (s.submitPush task added) := by
  unfold Controller.submitPush
  split
  · exact h
  · rename_i hstage
    have hmem := mem_submits_of_stageOf (not_not.mp hstage)
    split
    · rename_i hadded
      obtain ⟨hrunning, hlife⟩ := hcareful hadded
      have hnew := h.checked task hmem
      set x : Executor := { s.executors task.executor with
        tasksFront := (s.executors task.executor).tasksFront ++ [task]
        pushed := (s.executors task.executor).pushed ++ [task] } with hx
      have hsound : x.Sound := (h.executor task.executor).push hrunning hlife.symm hnew
      have hexecutors : ((s.modifyExecutor task.executor fun x => { x with
          tasksFront := x.tasksFront ++ [task], pushed := x.pushed ++ [task] }).submitNext task
            .pushed).executors = Function.update s.executors task.executor x := rfl
      have hsubmits : ∀ submit, submit ∈ ((s.modifyExecutor task.executor fun x => { x with
          tasksFront := x.tasksFront ++ [task], pushed := x.pushed ++ [task] }).submitNext task
            .pushed).submits ↔ submit = (task, .pushed) ∨ submit ∈ s.submits ∧ submit.1 ≠ task :=
        fun _ => mem_submits_next
      have hkept : ∀ {t : ThreadsafeTask} {P : Prop}, t.life ≤ (s.executors t.executor).life ∧
          (P → t.life = (s.executors t.executor).life → t ∈ (s.executors t.executor).pushed) →
          t.life ≤ (Function.update s.executors task.executor x t.executor).life ∧
          (P → t.life = (Function.update s.executors task.executor x t.executor).life →
            t ∈ (Function.update s.executors task.executor x t.executor).pushed) := by
        intro t P ht
        by_cases he : t.executor = task.executor
        · rw [he] at ht ⊢
          rw [Function.update_self]
          exact ⟨ht.1, fun hP heq => List.mem_append_left _ (ht.2 hP heq)⟩
        · rw [Function.update_of_ne he]
          exact ht
      constructor
      · intro e'
        rw [hexecutors]
        by_cases he : e' = task.executor
        · rw [he, Function.update_self]
          exact hsound
        · rw [Function.update_of_ne he]
          exact h.executor e'
      · intro e' t ht
        rw [hexecutors] at ht
        by_cases he : e' = task.executor
        · rw [he, Function.update_self] at ht
          rcases List.mem_append.mp ht with ht | ht
          · rw [he]
            exact h.place _ t ht
          · rw [List.mem_singleton.mp ht, he]
            exact ⟨rfl, h.numbers _ hmem⟩
        · rw [Function.update_of_ne he] at ht
          exact h.place e' t ht
      · exact keys_next h.keys task .pushed
      · intro submit hsubmit
        rcases (hsubmits submit).mp hsubmit with rfl | ⟨hsubmit, -⟩
        · exact h.numbers (task, .checked) hmem
        · exact h.numbers submit hsubmit
      · intro t ht
        rcases (hsubmits _).mp ht with heq | ⟨ht, hne⟩
        · cases (Prod.mk.inj heq).2
        · rw [hexecutors]
          by_cases he : t.executor = task.executor
          · rw [he, Function.update_self]
            intro hmem'
            rcases List.mem_append.mp hmem' with hmem' | hmem'
            · exact h.checked t ht (he ▸ hmem')
            · exact hne (List.mem_singleton.mp hmem')
          · rw [Function.update_of_ne he]
            exact h.checked t ht
      · intro submit hsubmit
        rw [hexecutors]
        rcases (hsubmits submit).mp hsubmit with rfl | ⟨hsubmit, -⟩
        · rw [Function.update_self]
          exact ⟨Nat.le_of_eq hlife.symm, fun _ _ => List.mem_append_right _ List.mem_cons_self⟩
        · exact hkept (h.submits submit hsubmit)
      · intro t ht
        obtain ⟨hle, hin⟩ := hkept (P := True)
          ⟨(h.submitted t ht).1, fun _ => (h.submitted t ht).2⟩
        exact ⟨hle, hin trivial⟩
      · intro e' hrunning' hfront
        rw [hexecutors] at hrunning' hfront ⊢
        by_cases he : e' = task.executor
        · exact .inr ⟨task, (hsubmits _).mpr (.inl rfl), he.symm⟩
        · rw [Function.update_of_ne he] at hrunning' hfront ⊢
          refine (h.wakes e' hrunning' hfront).imp_right ?_
          rintro ⟨t, ht, hte⟩
          refine ⟨t, (hsubmits _).mpr (.inr ⟨ht, ?_⟩), hte⟩
          rintro rfl
          exact he hte.symm
      · exact h.dangling
      · exact h.fault
    · exact h.submitReturn hmem nofun

theorem Ordered.submitSignal (h : Ordered s) {sent : Bool}
    (hcareful : s.Careful (.signal task sent)) : Ordered (s.submitSignal task sent) := by
  unfold Controller.submitSignal
  split
  · exact h
  · rename_i hstage
    have hmem := mem_submits_of_stageOf (not_not.mp hstage)
    rw [if_pos (show sent = true from hcareful)]
    have hsignaled : Ordered
        (s.modifyExecutor task.executor fun x => { x with signaled := true }) :=
      h.updated (h.executor _).signal rfl rfl (fun _ _ => .inl rfl) rfl rfl rfl rfl rfl rfl
    set s₁ := s.modifyExecutor task.executor fun x => { x with signaled := true } with hs₁
    have hmem₁ : (task, .pushed) ∈ s₁.submits := hmem
    refine { hsignaled with
      keys := keys_next hsignaled.keys task .signaled
      numbers := fun submit hsubmit => ?_
      checked := fun t ht => ?_
      submits := fun submit hsubmit => ?_
      wakes := fun e' hrunning hfront => ?_ }
    · rcases mem_submits_next.mp hsubmit with rfl | ⟨hsubmit, -⟩
      · exact hsignaled.numbers (task, .pushed) hmem₁
      · exact hsignaled.numbers submit hsubmit
    · rcases mem_submits_next.mp ht with heq | ⟨ht, -⟩
      · cases (Prod.mk.inj heq).2
      · exact hsignaled.checked t ht
    · rcases mem_submits_next.mp hsubmit with rfl | ⟨hsubmit, -⟩
      · obtain ⟨hle, hin⟩ := hsignaled.submits _ hmem₁
        exact ⟨hle, fun _ => hin nofun⟩
      · exact hsignaled.submits submit hsubmit
    · by_cases he : e' = task.executor
      · refine .inl ?_
        change (Function.update s.executors task.executor _ e').signaled = true
        rw [he, Function.update_self]
      · refine (hsignaled.wakes e' hrunning hfront).imp_right ?_
        rintro ⟨t, ht, hte⟩
        refine ⟨t, mem_submits_next.mpr (.inr ⟨ht, ?_⟩), hte⟩
        rintro rfl
        exact he hte.symm

theorem Ordered.submitCount (h : Ordered s) (task : ThreadsafeTask) :
    Ordered (s.submitCount task) := by
  unfold Controller.submitCount
  split
  · exact h
  · rename_i hstage
    have hmem := mem_submits_of_stageOf (not_not.mp hstage)
    have hcounted : Ordered { s with
        taskCounter := s.taskCounter + 1, submitted := s.submitted ++ [task] } := by
      refine { h with submitted := fun t ht => ?_ }
      rcases List.mem_append.mp ht with ht | ht
      · exact h.submitted t ht
      · rw [List.mem_singleton.mp ht]
        obtain ⟨hle, hin⟩ := h.submits _ hmem
        exact ⟨hle, hin nofun⟩
    exact hcounted.submitReturn hmem nofun

theorem Ordered.asyncCallback (h : Ordered s) (e : ℕ) : Ordered (s.asyncCallback e) := by
  unfold Controller.asyncCallback
  dsimp only
  split
  · rename_i hready
    simp only [Bool.and_eq_true, Bool.not_eq_true'] at hready
    obtain ⟨⟨⟨hacquired, hclosing⟩, -⟩, hbusy⟩ := hready
    obtain ⟨hback, hsound⟩ := (h.executor e).callback hacquired hclosing hbusy
    exact h.updated hsound rfl rfl (fun _ hne => absurd hback hne) rfl rfl rfl rfl rfl rfl
  · exact h

theorem Ordered.executeTask (h : Ordered s) (e : ℕ) : Ordered (s.executeTask e) := by
  unfold Controller.executeTask
  dsimp only
  split
  · rename_i hready
    simp only [Bool.and_eq_true, Bool.not_eq_true'] at hready
    obtain ⟨hbusy, hshutdown⟩ := hready
    cases hback : (s.executors e).tasksBack with
    | nil => exact h
    | cons task tasks =>
        dsimp only
        obtain ⟨hsound, hreleased⟩ := (h.executor e).task hbusy hshutdown hback
        have hran : Ordered (s.modifyExecutor e fun x =>
            { x with tasksBack := tasks, ran := x.ran ++ [task] }) :=
          h.updated hsound rfl rfl (h.wakes e) rfl rfl rfl rfl rfl rfl
        have hself : (s.modifyExecutor e fun x =>
            { x with tasksBack := tasks, ran := x.ran ++ [task] }).executors e =
              { s.executors e with tasksBack := tasks, ran := (s.executors e).ran ++ [task] } :=
          Function.update_self ..
        generalize (s.modifyExecutor e fun x =>
          { x with tasksBack := tasks, ran := x.ran ++ [task] }) = s₁ at hran hself ⊢
        rw [if_neg (show task ∉ s₁.dangling by rw [hran.dangling]; exact List.not_mem_nil)]
        split
        · rename_i hrelease
          unfold executorShutdown
          rw [hself]
          dsimp only
          rw [if_pos hbusy]
          refine hran.updated (e := e) (hreleased hrelease) ?_ ?_ ?_ ?_ rfl rfl rfl rfl rfl
          · rw [hself]
          · rw [hself]
          · have hwakes := hran.wakes e
            rw [hself] at hwakes
            exact hwakes
          · simp [modifyExecutor, hself]
        · exact hran
  · exact h

theorem asyncCallbackEnd_shutdown (hbusy : (s.executors e).busy = true)
    (hshutdown : (s.executors e).shutdown = true) (hrunning : (s.executors e).running = true) :
    s.asyncCallbackEnd e = { s with
      taskCounter := s.taskCounter -
        UInt64.ofNat ((s.executors e).tasksFront.length + (s.executors e).tasksBack.length)
      discarded := s.discarded ++ ((s.executors e).tasksFront ++ (s.executors e).tasksBack)
      executors := Function.update s.executors e { s.executors e with
        busy := false, running := false, closing := true,
        tasksFront := [], tasksBack := [] } } := by
  simp [asyncCallbackEnd, executorShutdown, modifyExecutor, hbusy, hshutdown, hrunning]

theorem Ordered.asyncCallbackEnd (h : Ordered s) (e : ℕ) : Ordered (s.asyncCallbackEnd e) := by
  by_cases hready : (s.executors e).busy && ((s.executors e).shutdown ||
      (s.executors e).tasksBack.isEmpty)
  · simp only [Bool.and_eq_true, Bool.or_eq_true, List.isEmpty_iff] at hready
    obtain ⟨hbusy, hdone⟩ := hready
    cases hshutdown : (s.executors e).shutdown with
    | true =>
        rw [asyncCallbackEnd_shutdown hbusy hshutdown ((h.executor e).running_of_busy hbusy)]
        exact h.updated ((h.executor e).shutdown hbusy hshutdown) rfl rfl nofun rfl rfl rfl rfl rfl
          rfl
    | false =>
        have hback := hdone.resolve_left (by rw [hshutdown]; nofun)
        have heq : s.asyncCallbackEnd e = s.modifyExecutor e fun x => { x with busy := false } := by
          simp [Controller.asyncCallbackEnd, hbusy, hshutdown, hback]
        rw [heq]
        exact h.updated ((h.executor e).callbackEnd hback hshutdown) rfl rfl (h.wakes e) rfl rfl rfl
          rfl rfl rfl
  · unfold Controller.asyncCallbackEnd
    dsimp only
    rw [if_neg hready]
    exact h

theorem Ordered.executorShutdownComplete (h : Ordered s) (e : ℕ) :
    Ordered (s.executorShutdownComplete e) := by
  unfold Controller.executorShutdownComplete
  split
  · rename_i hclosing
    exact h.updated ((h.executor e).closed hclosing) rfl rfl (h.wakes e) rfl rfl rfl rfl rfl rfl
  · exact h

theorem Ordered.step (h : Ordered s) (event : ExecutorEvent) (hcareful : s.Careful event) :
    Ordered (s.step event) := by
  unfold Controller.step
  split
  · exact h
  · cases event with
    | acquire e started => exact h.acquire started hcareful
    | submit e release => exact h.submit release
    | push task added => exact h.submitPush added hcareful
    | signal task sent => exact h.submitSignal hcareful
    | count task => exact h.submitCount task
    | callback e => exact h.asyncCallback e
    | task e => exact h.executeTask e
    | callbackEnd e => exact h.asyncCallbackEnd e
    | shutdownComplete e => exact h.executorShutdownComplete e

end Ordered

section Counted

/-- What the steps keep of the counter. -/
structure Counted (s : Controller) : Prop where
  once : s.submitted.Nodup
  known : ∀ t ∈ s.submitted, t.number < s.nextTask ∧ ∀ submit ∈ s.submits, submit.1 ≠ t
  done_once : (s.taken ++ s.discarded).Nodup
  done : ∀ t ∈ s.taken ++ s.discarded, t ∈ s.submitted
  front : ∀ e, ∀ t ∈ (s.executors e).tasksFront, t ∉ s.taken ++ s.discarded ∧
    (t ∈ s.submitted ∨ ∃ stage, stage ≠ .checked ∧ (t, stage) ∈ s.submits)
  counter : ∃ n, s.submitted.length = (s.taken ++ s.discarded).length + n ∧
    s.taskCounter = UInt64.ofNat n

theorem counted_start : Counted start where
  once := List.nodup_nil
  known _ h := nomatch h
  done_once := List.nodup_nil
  done _ h := nomatch h
  front _ _ h := nomatch h
  counter := ⟨0, rfl, rfl⟩

theorem Counted.counter_eq (h : Counted s) : s.taskCounter =
    UInt64.ofNat (s.submitted.filter fun t => t ∉ s.taken ∧ t ∉ s.discarded).length := by
  obtain ⟨n, hlength, hcounter⟩ := h.counter
  have hdone : (s.submitted.filter fun t => t ∈ s.taken ++ s.discarded).length =
      (s.taken ++ s.discarded).length := by
    refine List.Perm.length_eq ((List.perm_ext_iff_of_nodup (h.once.filter _) h.done_once).mpr ?_)
    intro t
    rw [List.mem_filter, decide_eq_true_eq]
    exact ⟨And.right, fun ht => ⟨h.done t ht, ht⟩⟩
  have hsplit := List.length_eq_length_filter_add (l := s.submitted)
    fun t => decide (t ∈ s.taken ++ s.discarded)
  have hwaiting : (s.submitted.filter fun t => t ∉ s.taken ∧ t ∉ s.discarded) =
      s.submitted.filter fun t => !decide (t ∈ s.taken ++ s.discarded) := by
    refine List.filter_congr fun t _ => ?_
    simp [List.mem_append]
  rw [hwaiting, hcounter]
  congr 1
  omega

theorem Counted.kept (h : Counted s) (hsubmitted : s'.submitted = s.submitted)
    (hnext : s.nextTask ≤ s'.nextTask) (htaken : s'.taken = s.taken)
    (hdiscarded : s'.discarded = s.discarded) (hcounter : s'.taskCounter = s.taskCounter)
    (hsubmits : ∀ submit ∈ s'.submits, (∃ stage, (submit.1, stage) ∈ s.submits) ∨
      s.nextTask ≤ submit.1.number)
    (hfront : ∀ e, ∀ t ∈ (s'.executors e).tasksFront, t ∉ s.taken ++ s.discarded ∧
      (t ∈ s.submitted ∨ ∃ stage, stage ≠ .checked ∧ (t, stage) ∈ s'.submits)) :
    Counted s' where
  once := hsubmitted ▸ h.once
  known t ht := by
    rw [hsubmitted] at ht
    obtain ⟨hlt, hne⟩ := h.known t ht
    refine ⟨Nat.lt_of_lt_of_le hlt hnext, fun submit hsubmit => ?_⟩
    rcases hsubmits submit hsubmit with ⟨stage, hmem⟩ | hnew
    · exact hne (submit.1, stage) hmem
    · rintro rfl
      omega
  done_once := by
    rw [htaken, hdiscarded]
    exact h.done_once
  done := by
    rw [htaken, hdiscarded, hsubmitted]
    exact h.done
  front := by
    rw [htaken, hdiscarded, hsubmitted]
    exact hfront
  counter := by
    rw [htaken, hdiscarded, hsubmitted, hcounter]
    exact h.counter

/-- The tasks of a front list are done; they have all been counted. -/
theorem Counted.finish (h : Counted s) (hordered : Ordered s) (hsettled : s.Settled e) :
    (s.executors e).tasksFront.Nodup ∧
      (∀ t ∈ (s.executors e).tasksFront, t ∈ s.submitted ∧ t ∉ s.taken ∧ t ∉ s.discarded) ∧
      (∀ e', e' ≠ e → ∀ t ∈ (s.executors e').tasksFront, t ∉ (s.executors e).tasksFront) ∧
      ∃ n, s.submitted.length =
          (s.taken ++ s.discarded).length + (s.executors e).tasksFront.length + n ∧
        s.taskCounter - UInt64.ofNat (s.executors e).tasksFront.length = UInt64.ofNat n := by
  have hsound := hordered.executor e
  have hplace : ∀ e', ∀ t ∈ (s.executors e').tasksFront, t.executor = e' := fun e' t ht =>
    (hordered.place e' t ((hordered.executor e').mem_pushed ht)).1
  have hall : ∀ t ∈ (s.executors e).tasksFront,
      t ∈ s.submitted ∧ t ∉ s.taken ∧ t ∉ s.discarded := by
    intro t ht
    obtain ⟨hdone, hsubmitted | ⟨stage, hstage, hmem⟩⟩ := h.front e t ht
    · rw [List.mem_append, not_or] at hdone
      exact ⟨hsubmitted, hdone⟩
    · exact absurd (hplace e t ht) (hsettled _ hmem hstage)
  refine ⟨hsound.nodup_tasksFront, hall, fun e' hne t ht ht' => ?_, ?_⟩
  · exact hne ((hplace e' t ht).symm.trans (hplace e t ht'))
  · obtain ⟨n, hlength, hcounter⟩ := h.counter
    have hnodup : ((s.taken ++ s.discarded) ++ (s.executors e).tasksFront).Nodup := by
      refine List.nodup_append.mpr ⟨h.done_once, hsound.nodup_tasksFront, fun t ht t' ht' heq => ?_⟩
      rw [heq, List.mem_append] at ht
      obtain ⟨-, htaken, hdiscarded⟩ := hall t' ht'
      exact ht.elim htaken hdiscarded
    have hle := (List.subperm_of_subset hnodup fun t ht => (List.mem_append.mp ht).elim
      (h.done t) fun ht => (hall t ht).1).length_le
    rw [List.length_append] at hle
    refine ⟨n - (s.executors e).tasksFront.length, by omega, ?_⟩
    rw [hcounter]
    exact (UInt64.ofNat_sub (by omega)).symm

theorem Counted.submitReturn (h : Counted s) (task : ThreadsafeTask)
    (hgone : ∀ e, task ∉ (s.executors e).tasksFront) : Counted (s.submitReturn task) := by
  refine h.kept rfl (Nat.le_refl _) rfl rfl rfl (fun submit hsubmit => ?_) fun e t ht => ?_
  · exact .inl ⟨submit.2, (mem_submits_return.mp hsubmit).1⟩
  · obtain ⟨hdone, hin⟩ := h.front e t ht
    refine ⟨hdone, hin.imp_right ?_⟩
    rintro ⟨stage, hstage, hmem⟩
    refine ⟨stage, hstage, mem_submits_return.mpr ⟨hmem, ?_⟩⟩
    rintro rfl
    exact hgone e ht

theorem Counted.updated (h : Counted s) {x : Executor}
    (hexecutors : s'.executors = Function.update s.executors e x)
    (hfront : x.tasksFront = (s.executors e).tasksFront)
    (hsubmits : s'.submits = s.submits) (hnext : s'.nextTask = s.nextTask)
    (hsubmitted : s'.submitted = s.submitted) (htaken : s'.taken = s.taken)
    (hdiscarded : s'.discarded = s.discarded) (hcounter : s'.taskCounter = s.taskCounter) :
    Counted s' := by
  refine h.kept hsubmitted (Nat.le_of_eq hnext.symm) htaken hdiscarded hcounter
    (fun submit hsubmit => .inl ⟨submit.2, by rwa [hsubmits] at hsubmit⟩) fun e' t ht => ?_
  rw [hexecutors] at ht
  rw [hsubmits]
  by_cases he : e' = e
  · rw [he, Function.update_self, hfront] at ht
    exact h.front e t ht
  · rw [Function.update_of_ne he] at ht
    exact h.front e' t ht

theorem Counted.acquire (h : Counted s) (e : ℕ) (started : Bool) :
    Counted (s.acquire e started) := by
  unfold Controller.acquire
  split
  · exact h
  · exact h.updated (e := e) rfl rfl rfl rfl rfl rfl rfl rfl

theorem Counted.submit (h : Counted s) (e : ℕ) (release : Bool) :
    Counted (s.submit e release) := by
  unfold Controller.submit
  split
  · refine h.kept rfl (Nat.le_succ _) rfl rfl rfl (fun submit hsubmit => ?_) fun e' t ht => ?_
    · rcases List.mem_cons.mp hsubmit with rfl | hsubmit
      · exact .inr (Nat.le_refl _)
      · exact .inl ⟨submit.2, hsubmit⟩
    · obtain ⟨hdone, hin⟩ := h.front e' t ht
      exact ⟨hdone, hin.imp_right fun ⟨stage, hstage, hmem⟩ =>
        ⟨stage, hstage, List.mem_cons_of_mem _ hmem⟩⟩
  · exact h

theorem Counted.submitNext (h : Counted s) {stage' : SubmitStage}
    (hmem : (task, stage) ∈ s.submits) (hstage' : stage' ≠ .checked) :
    Counted (s.submitNext task stage') := by
  refine h.kept rfl (Nat.le_refl _) rfl rfl rfl (fun submit hsubmit => ?_) fun e' t ht => ?_
  · rcases mem_submits_next.mp hsubmit with rfl | ⟨hsubmit, -⟩
    · exact .inl ⟨stage, hmem⟩
    · exact .inl ⟨submit.2, hsubmit⟩
  · obtain ⟨hdone, hin⟩ := h.front e' t ht
    refine ⟨hdone, hin.imp_right ?_⟩
    rintro ⟨stage₀, hstage₀, hmem₀⟩
    by_cases ht : t = task
    · exact ⟨stage', hstage', mem_submits_next.mpr (.inl (by rw [ht]))⟩
    · exact ⟨stage₀, hstage₀, mem_submits_next.mpr (.inr ⟨hmem₀, ht⟩)⟩

theorem Counted.submitPush (h : Counted s) (hordered : Ordered s) (task : ThreadsafeTask)
    (added : Bool) : Counted (s.submitPush task added) := by
  unfold Controller.submitPush
  split
  · exact h
  · rename_i hstage
    have hmem := mem_submits_of_stageOf (not_not.mp hstage)
    split
    · have hnot : task ∉ s.taken ++ s.discarded := fun hdone =>
        (h.known task (h.done task hdone)).2 _ hmem rfl
      refine h.kept rfl (Nat.le_refl _) rfl rfl rfl (fun submit hsubmit => ?_) fun e' t ht => ?_
      · rcases mem_submits_next.mp hsubmit with rfl | ⟨hsubmit, -⟩
        · exact .inl ⟨.checked, hmem⟩
        · exact .inl ⟨submit.2, hsubmit⟩
      · have hcases : t = task ∨ t ∈ (s.executors e').tasksFront := by
          change t ∈ (Function.update s.executors task.executor _ e').tasksFront at ht
          by_cases he : e' = task.executor
          · rw [he, Function.update_self] at ht
            rw [he]
            exact (List.mem_append.mp ht).symm.imp_left List.mem_singleton.mp
          · rw [Function.update_of_ne he] at ht
            exact .inr ht
        by_cases heq : t = task
        · rw [heq]
          exact ⟨hnot, .inr ⟨.pushed, nofun, mem_submits_next.mpr (.inl rfl)⟩⟩
        · obtain ⟨hdone, hin⟩ := h.front e' t (hcases.resolve_left heq)
          exact ⟨hdone, hin.imp_right fun ⟨stage, hstage, hmem⟩ =>
            ⟨stage, hstage, mem_submits_next.mpr (.inr ⟨hmem, heq⟩)⟩⟩
    · refine h.submitReturn task fun e' hfront => ?_
      have hpushed := (hordered.executor e').mem_pushed hfront
      have hnew := hordered.checked task hmem
      rw [(hordered.place e' task hpushed).1] at hnew
      exact hnew hpushed

theorem Counted.submitSignal (h : Counted s) {sent : Bool}
    (hcareful : s.Careful (.signal task sent)) : Counted (s.submitSignal task sent) := by
  unfold Controller.submitSignal
  split
  · exact h
  · rename_i hstage
    have hmem := mem_submits_of_stageOf (not_not.mp hstage)
    rw [if_pos (show sent = true from hcareful)]
    have hsignaled : Counted
        (s.modifyExecutor task.executor fun x => { x with signaled := true }) :=
      h.updated (e := task.executor) rfl rfl rfl rfl rfl rfl rfl rfl
    have hmem' : (task, .pushed) ∈
        (s.modifyExecutor task.executor fun x => { x with signaled := true }).submits := hmem
    exact hsignaled.submitNext hmem' nofun

theorem Counted.submitCount (h : Counted s) (hordered : Ordered s) (task : ThreadsafeTask) :
    Counted (s.submitCount task) := by
  unfold Controller.submitCount
  split
  · exact h
  · rename_i hstage
    have hmem := mem_submits_of_stageOf (not_not.mp hstage)
    have hnew : task ∉ s.submitted := fun hin => (h.known task hin).2 _ hmem rfl
    constructor
    · refine List.nodup_append.mpr ⟨h.once, List.nodup_singleton task, fun t ht t' ht' heq => ?_⟩
      rw [heq, List.mem_singleton.mp ht'] at ht
      exact hnew ht
    · intro t ht
      rcases List.mem_append.mp ht with ht | ht
      · obtain ⟨hlt, hne⟩ := h.known t ht
        exact ⟨hlt, fun submit hsubmit => hne submit (mem_submits_return.mp hsubmit).1⟩
      · rw [List.mem_singleton.mp ht]
        exact ⟨hordered.numbers _ hmem, fun submit hsubmit => (mem_submits_return.mp hsubmit).2⟩
    · exact h.done_once
    · exact fun t ht => List.mem_append_left _ (h.done t ht)
    · intro e' t ht
      obtain ⟨hdone, hin⟩ := h.front e' t ht
      refine ⟨hdone, ?_⟩
      rcases hin with hin | ⟨stage, hstage, hin⟩
      · exact .inl (List.mem_append_left _ hin)
      · by_cases heq : t = task
        · exact .inl (List.mem_append_right _ (List.mem_singleton.mpr heq))
        · exact .inr ⟨stage, hstage, mem_submits_return.mpr ⟨hin, heq⟩⟩
    · obtain ⟨n, hlength, hcounter⟩ := h.counter
      refine ⟨n + 1, ?_, ?_⟩
      · change (s.submitted ++ [task]).length = (s.taken ++ s.discarded).length + (n + 1)
        rw [List.length_append, hlength]
        rfl
      · change s.taskCounter + 1 = _
        rw [hcounter, UInt64.ofNat_add]
        rfl

theorem Counted.asyncCallback (h : Counted s) (hordered : Ordered s)
    (hsettled : s.Settled e) : Counted (s.asyncCallback e) := by
  unfold Controller.asyncCallback
  dsimp only
  split
  · rename_i hready
    simp only [Bool.and_eq_true, Bool.not_eq_true'] at hready
    obtain ⟨⟨⟨hacquired, hclosing⟩, -⟩, hbusy⟩ := hready
    obtain ⟨hback, -⟩ := (hordered.executor e).callback hacquired hclosing hbusy
    obtain ⟨hfront, hall, hother, n, hlength, hcounter⟩ := h.finish hordered hsettled
    constructor
    · exact h.once
    · exact h.known
    · change (s.taken ++ (s.executors e).tasksFront ++ s.discarded).Nodup
      have hperm : (s.taken ++ (s.executors e).tasksFront ++ s.discarded).Perm
          ((s.taken ++ s.discarded) ++ (s.executors e).tasksFront) := by
        rw [List.append_assoc, List.append_assoc]
        exact List.perm_append_comm.append_left _
      refine hperm.nodup_iff.mpr (List.nodup_append.mpr ⟨h.done_once, hfront,
        fun t ht t' ht' heq => ?_⟩)
      rw [heq, List.mem_append] at ht
      obtain ⟨-, htaken, hdiscarded⟩ := hall t' ht'
      exact ht.elim htaken hdiscarded
    · intro t ht
      change t ∈ s.taken ++ (s.executors e).tasksFront ++ s.discarded at ht
      simp only [List.mem_append] at ht
      rcases ht with (ht | ht) | ht
      · exact h.done t (List.mem_append_left _ ht)
      · exact (hall t ht).1
      · exact h.done t (List.mem_append_right _ ht)
    · intro e' t ht
      change t ∈ (Function.update s.executors e _ e').tasksFront at ht
      by_cases he : e' = e
      · rw [he, Function.update_self] at ht
        dsimp only at ht
        rw [hback] at ht
        cases ht
      · rw [Function.update_of_ne he] at ht
        obtain ⟨hdone, hin⟩ := h.front e' t ht
        refine ⟨?_, hin⟩
        change t ∉ s.taken ++ (s.executors e).tasksFront ++ s.discarded
        rw [List.mem_append, not_or] at hdone
        simp only [List.mem_append, not_or]
        exact ⟨⟨hdone.1, hother e' he t ht⟩, hdone.2⟩
    · refine ⟨n, ?_, hcounter⟩
      change s.submitted.length = (s.taken ++ (s.executors e).tasksFront ++ s.discarded).length + n
      rw [hlength]
      simp only [List.length_append]
      omega
  · exact h

theorem Counted.executeTask (h : Counted s) (e : ℕ) : Counted (s.executeTask e) := by
  unfold Controller.executeTask
  dsimp only
  split
  · rename_i hready
    split
    · exact h
    · rename_i task tasks hback
      have hran : Counted (s.modifyExecutor e fun x =>
          { x with tasksBack := tasks, ran := x.ran ++ [task] }) :=
        h.updated (e := e) rfl rfl rfl rfl rfl rfl rfl rfl
      have hbusy : ((s.modifyExecutor e fun x =>
          { x with tasksBack := tasks, ran := x.ran ++ [task] }).executors e).busy =
            (s.executors e).busy := by
        simp [modifyExecutor]
      rw [(Bool.and_eq_true_iff.mp hready).1] at hbusy
      generalize (s.modifyExecutor e fun x =>
        { x with tasksBack := tasks, ran := x.ran ++ [task] }) = s₁ at hran hbusy ⊢
      split
      · exact { hran with }
      · split
        · unfold executorShutdown
          dsimp only
          rw [if_pos hbusy]
          exact hran.updated (e := e) rfl rfl rfl rfl rfl rfl rfl rfl
        · exact hran
  · exact h

theorem Counted.asyncCallbackEnd (h : Counted s) (hordered : Ordered s)
    (hcareful : s.Careful (.callbackEnd e)) : Counted (s.asyncCallbackEnd e) := by
  by_cases hready : (s.executors e).busy && ((s.executors e).shutdown ||
      (s.executors e).tasksBack.isEmpty)
  · have hbusy : (s.executors e).busy = true := (Bool.and_eq_true_iff.mp hready).1
    cases hshutdown : (s.executors e).shutdown with
    | false =>
        unfold Controller.asyncCallbackEnd
        dsimp only
        rw [if_pos hready]
        simp only [hshutdown, Bool.false_eq_true, if_false]
        exact h.updated (e := e) rfl rfl rfl rfl rfl rfl rfl rfl
    | true =>
        obtain ⟨hback, hsettled⟩ := hcareful hbusy hshutdown
        rw [asyncCallbackEnd_shutdown hbusy hshutdown
          ((hordered.executor e).running_of_busy hbusy), hback]
        simp only [List.append_nil, List.length_nil, Nat.add_zero]
        obtain ⟨hfront, hall, hother, n, hlength, hcounter⟩ := h.finish hordered hsettled
        have hlists : s.taken ++ (s.discarded ++ (s.executors e).tasksFront) =
            (s.taken ++ s.discarded) ++ (s.executors e).tasksFront := (List.append_assoc ..).symm
        constructor
        · exact h.once
        · exact h.known
        · dsimp only
          rw [hlists]
          refine List.nodup_append.mpr ⟨h.done_once, hfront, fun t ht t' ht' heq => ?_⟩
          rw [heq, List.mem_append] at ht
          obtain ⟨-, htaken, hdiscarded⟩ := hall t' ht'
          exact ht.elim htaken hdiscarded
        · dsimp only
          rw [hlists]
          exact fun t ht => (List.mem_append.mp ht).elim (h.done t) fun ht => (hall t ht).1
        · intro e' t ht
          dsimp only at ht ⊢
          rw [hlists]
          by_cases he : e' = e
          · rw [he, Function.update_self] at ht
            cases ht
          · rw [Function.update_of_ne he] at ht
            obtain ⟨hdone, hin⟩ := h.front e' t ht
            refine ⟨fun hmem => ?_, hin⟩
            exact (List.mem_append.mp hmem).elim hdone (hother e' he t ht)
        · refine ⟨n, ?_, hcounter⟩
          dsimp only
          simp only [hlists, hlength, List.length_append]
  · unfold Controller.asyncCallbackEnd
    dsimp only
    rw [if_neg hready]
    exact h

theorem Counted.executorShutdownComplete (h : Counted s) (e : ℕ) :
    Counted (s.executorShutdownComplete e) := by
  unfold Controller.executorShutdownComplete
  split
  · exact h.updated (e := e) rfl rfl rfl rfl rfl rfl rfl rfl
  · exact h

theorem Counted.step (h : Counted s) (hordered : Ordered s) (event : ExecutorEvent)
    (hcareful : s.Careful event) : Counted (s.step event) := by
  unfold Controller.step
  split
  · exact h
  · cases event with
    | acquire e started => exact h.acquire e started
    | submit e release => exact h.submit e release
    | push task added => exact h.submitPush hordered task added
    | signal task sent => exact h.submitSignal hcareful
    | count task => exact h.submitCount hordered task
    | callback e => exact h.asyncCallback hordered hcareful
    | task e => exact h.executeTask e
    | callbackEnd e => exact h.asyncCallbackEnd hordered hcareful
    | shutdownComplete e => exact h.executorShutdownComplete e

end Counted

section Runs

/-- In every run of careful steps, of any number of threads and executors. -/
theorem orderly_run (events : List ExecutorEvent) (hcareful : Along step Careful start events) :
    Orderly (run step start events) := by
  obtain ⟨hordered, hcounted⟩ := invariant_run (I := fun s => Ordered s ∧ Counted s)
    (fun s event h hevent => ⟨h.1.step event hevent, h.2.step h.1 event hevent⟩)
    ⟨ordered_start, counted_start⟩ hcareful
  exact {
    fault := hordered.fault
    executor := fun e => (hordered.executor e).orderly
    returned := fun t ht => (hordered.submitted t ht).2
    wakes := hordered.wakes
    counter := hcounted.counter_eq }

/-- A submit to executor 0 that returns. -/
def submitTask (task : ThreadsafeTask) : List ExecutorEvent :=
  [.submit 0 task.release, .push task true, .signal task true, .count task]

/-- A task is submitted to a new executor, then the release; the loop runs both, one more task
arrives while the release runs, and the executor goes back to its pool. -/
def released : List ExecutorEvent :=
  [.acquire 0 true] ++ submitTask ⟨0, 1, 0, false⟩ ++ submitTask ⟨0, 1, 1, true⟩ ++
    [.callback 0, .task 0, .task 0] ++ submitTask ⟨0, 1, 2, false⟩ ++
      [.callbackEnd 0, .shutdownComplete 0]

theorem orderly_released : Orderly (run step start released) :=
  orderly_run released (by decide +kernel)

/-- The executor is acquired again and gets a task: its first callback shuts it down without
running it. -/
theorem not_orderly_recycled :
    ¬ ∀ events : List ExecutorEvent, Orderly (run step start events) := by
  intro h
  have horderly := (h (released ++ [.acquire 0 true] ++ submitTask ⟨0, 2, 3, false⟩ ++
    [.callback 0, .callbackEnd 0])).executor 0
  obtain ⟨before, t, hran, -⟩ := horderly.released (by decide +kernel) (by decide +kernel)
  have hnone : ((run step start (released ++ [.acquire 0 true] ++ submitTask ⟨0, 2, 3, false⟩ ++
      [.callback 0, .callbackEnd 0])).executors 0).ran = [] := by
    decide +kernel
  rw [hnone] at hran
  simp at hran

end Runs

end Controller

end Platform

end PomeloUdp
