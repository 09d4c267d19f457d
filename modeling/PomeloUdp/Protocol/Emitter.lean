import Mathlib.Data.List.Basic
import Mathlib.Logic.Function.Basic
import Mathlib.Order.Interval.Finset.Nat
import PomeloUdp.Library.Run

/-!
# The frequent emitter

An emitter triggers its callback with a frequency, and may time out. It has two handles, for the
platform timers that it starts one after the other. The platform keeps every timer that it has
started in a list, with the handle to be cleared when the timer stops.

`pomelo_protocol_emitter_stop` does nothing for an emitter that is not running, and the flag is
set when both timers have been started: where the second timer fails, the first one stays armed.
`emitter_run` says that nothing else goes wrong.
-/

namespace PomeloUdp

namespace Protocol

open Machine

/-- The timers of an emitter: `trigger_timer` and `timeout_timer`. -/
inductive EmitterTimer where
  | trigger
  | timeout
  deriving DecidableEq

/-- `pomelo_platform_timer_t`. The entry is `emitter_on_triggered` or `emitter_on_timeout`. -/
structure PlatformTimer where
  entry : EmitterTimer
  timeoutMs : UInt64
  repeatMs : UInt64
  isRepeat : Bool
  isRunning : Bool
  handle : Option EmitterTimer
  deriving DecidableEq

/-- `pomelo_protocol_emitter_t`, with the timers that the platform has started for it. A handle
has the position of its timer in the list. -/
structure FrequentEmitter where
  frequency : UInt64
  limit : UInt32
  timeoutMs : UInt64
  /-- `timeout_cb` is not null. -/
  hasTimeoutCb : Bool
  running : Bool
  triggerCounter : UInt32
  handles : EmitterTimer → Option ℕ
  timers : List PlatformTimer

namespace FrequentEmitter

/-- `pomelo_protocol_emitter_init`. -/
def init (frequency : UInt64) (limit : UInt32) (timeoutMs : UInt64) (hasTimeoutCb : Bool) :
    FrequentEmitter where
  frequency := frequency
  limit := limit
  timeoutMs := timeoutMs
  hasTimeoutCb := hasTimeoutCb
  running := false
  triggerCounter := 0
  handles := fun _ => none
  timers := []

/-- `POMELO_FREQ_TO_MS`. -/
def freqToMs (freq : UInt64) : UInt64 := 1000 / freq

/-- `pomelo_platform_uv_timer_start`: none if the pool, the list or the loop fails, which leaves
nothing behind. -/
def timerStart (e : FrequentEmitter) (ok : Bool) (timer : EmitterTimer)
    (timeoutMs repeatMs : UInt64) : Option FrequentEmitter :=
  if ok then
    some { e with
      handles := Function.update e.handles timer (some e.timers.length)
      timers := e.timers ++ [⟨timer, timeoutMs, repeatMs, repeatMs != 0, true, some timer⟩] }
  else none

/-- `pomelo_platform_uv_timer_stop_ex`. -/
def timerStopEx (e : FrequentEmitter) (i : ℕ) : FrequentEmitter :=
  match e.timers[i]? with
  | none => e
  | some t =>
      if !t.isRunning then e
      else
        { e with
          handles := match t.handle with
            | none => e.handles
            | some h => Function.update e.handles h none
          timers := e.timers.set i { t with isRunning := false, handle := none } }

/-- `pomelo_platform_uv_timer_stop`. -/
def timerStop (e : FrequentEmitter) (timer : EmitterTimer) : FrequentEmitter :=
  match e.handles timer with
  | none => e
  | some i =>
      let e := e.timerStopEx i
      { e with handles := Function.update e.handles timer none }

/-- `pomelo_protocol_emitter_stop`. -/
def stop (e : FrequentEmitter) : FrequentEmitter :=
  if !e.running then e
  else { (e.timerStop .trigger).timerStop .timeout with running := false }

/-- `pomelo_protocol_emitter_start`: whether it returns 0. The platform starts the trigger timer
if `triggerOk` and the timeout timer if `timeoutOk`. -/
def start (e : FrequentEmitter) (triggerOk timeoutOk : Bool) : FrequentEmitter × Bool :=
  if e.running then (e, false)
  else if e.frequency = 0 then (e, false)
  else
    match e.timerStart triggerOk .trigger 0 (freqToMs e.frequency) with
    | none => (e.stop, false)
    | some e =>
        if 0 < e.timeoutMs ∧ e.hasTimeoutCb then
          match e.timerStart timeoutOk .timeout e.timeoutMs e.timeoutMs with
          | none => (e.stop, false)
          | some e => ({ e with triggerCounter := 0, running := true }, true)
        else ({ e with triggerCounter := 0, running := true }, true)

/-- `pomelo_protocol_emitter_on_triggered`, less the calls of its callbacks. -/
def onTriggered (e : FrequentEmitter) : FrequentEmitter :=
  let e := { e with triggerCounter := e.triggerCounter + 1 }
  if 0 < e.limit ∧ e.limit = e.triggerCounter then e.stop else e

/-- `pomelo_platform_uv_timer_callback`, less the call of the entry. -/
def timerCallback (e : FrequentEmitter) (i : ℕ) : FrequentEmitter :=
  match e.timers[i]? with
  | none => e
  | some t => if t.isRunning ∧ !t.isRepeat then e.timerStopEx i else e

/-- A timer with that entry is armed. -/
def Armed (e : FrequentEmitter) (timer : EmitterTimer) : Prop :=
  ∃ t ∈ e.timers, t.entry = timer ∧ t.isRunning = true

instance (e : FrequentEmitter) (timer : EmitterTimer) : Decidable (e.Armed timer) :=
  inferInstanceAs (Decidable (∃ t ∈ _, _))

/-- The emitter has a timeout. -/
def timesOut (e : FrequentEmitter) : Prop := 0 < e.timeoutMs ∧ e.hasTimeoutCb = true

instance (e : FrequentEmitter) : Decidable e.timesOut := inferInstanceAs (Decidable (_ ∧ _))

end FrequentEmitter

/-- The calls of an emitter, and the timers of the platform that fire between them. -/
inductive EmitterEvent where
  | start (triggerOk timeoutOk : Bool)
  | stop
  | triggered
  | fired (i : ℕ)
  deriving DecidableEq

namespace FrequentEmitter

/-- One call. -/
def step (e : FrequentEmitter) : EmitterEvent → FrequentEmitter
  | .start triggerOk timeoutOk => (e.start triggerOk timeoutOk).1
  | .stop => e.stop
  | .triggered => e.onTriggered
  | .fired i => e.timerCallback i

/-- What is right of an emitter between its calls: the flag, the timers, and that an emitter that
is not running can be started. -/
structure Right (e : FrequentEmitter) : Prop where
  trigger : e.running = true ↔ e.Armed .trigger
  timeout : e.Armed .timeout ↔ e.running = true ∧ e.timesOut
  startable : e.running = false → (e.start true true).2 = true

/-- A call leaves the emitter right, and a start that fails leaves no timer armed, unless the
emitter was running. -/
def StepRight (e : FrequentEmitter) (ev : EmitterEvent) : Prop :=
  Right (e.step ev) ∧ ∀ triggerOk timeoutOk, ev = .start triggerOk timeoutOk →
    e.running = false → (e.start triggerOk timeoutOk).2 = false →
      ∀ timer, ¬ (e.step ev).Armed timer

/-- The frequency is valid, the timeout timer does not fail after the trigger timer was started,
and no timer fires that the platform does not repeat. -/
def Careful (e : FrequentEmitter) (ev : EmitterEvent) : Prop :=
  e.frequency ≠ 0 ∧ match ev with
    | .start triggerOk timeoutOk =>
        e.running = true ∨ triggerOk = false ∨ ¬ e.timesOut ∨ timeoutOk = true
    | .fired i => ∀ t, e.timers[i]? = some t → t.isRunning = true → t.isRepeat = true
    | _ => True

section Linked

variable {e : FrequentEmitter} {timer : EmitterTimer} {i : ℕ}

/-- The `i`-th timer runs for that handle. -/
def RunsAt (e : FrequentEmitter) (timer : EmitterTimer) (i : ℕ) : Prop :=
  ∃ t, e.timers[i]? = some t ∧ t.entry = timer ∧ t.isRunning = true

theorem armed_iff : e.Armed timer ↔ ∃ i, e.RunsAt timer i := by
  constructor
  · rintro ⟨t, ht, hentry, hrunning⟩
    obtain ⟨i, hi⟩ := List.mem_iff_getElem?.mp ht
    exact ⟨i, t, hi, hentry, hrunning⟩
  · rintro ⟨i, t, hi, hentry, hrunning⟩
    exact ⟨t, List.mem_of_getElem? hi, hentry, hrunning⟩

/-- Handles and running timers belong together. -/
structure Linked (e : FrequentEmitter) : Prop where
  runs : ∀ timer i, e.RunsAt timer i ↔ e.handles timer = some i
  back : ∀ t ∈ e.timers, t.isRunning = true → t.handle = some t.entry

theorem Linked.armed (h : Linked e) : e.Armed timer ↔ (e.handles timer).isSome = true := by
  rw [armed_iff, Option.isSome_iff_exists]
  exact exists_congr fun i => h.runs timer i

/-- The emitter after a timer was started. -/
def started (e : FrequentEmitter) (timer : EmitterTimer) (timeoutMs repeatMs : UInt64) :
    FrequentEmitter :=
  { e with
    handles := Function.update e.handles timer (some e.timers.length)
    timers := e.timers ++ [⟨timer, timeoutMs, repeatMs, repeatMs != 0, true, some timer⟩] }

theorem timerStart_eq (e : FrequentEmitter) (ok : Bool) (timer : EmitterTimer)
    (timeoutMs repeatMs : UInt64) :
    e.timerStart ok timer timeoutMs repeatMs =
      if ok then some (e.started timer timeoutMs repeatMs) else none := rfl

theorem runsAt_started (timeoutMs repeatMs : UInt64) (other : EmitterTimer) (i : ℕ) :
    (e.started timer timeoutMs repeatMs).RunsAt other i ↔
      e.RunsAt other i ∨ other = timer ∧ i = e.timers.length := by
  by_cases hlt : i < e.timers.length
  · have hget : (e.started timer timeoutMs repeatMs).timers[i]? = e.timers[i]? :=
      List.getElem?_append_left hlt
    rw [RunsAt, hget, or_iff_left fun h => hlt.ne h.2]
    rfl
  · have hnone : ¬ e.RunsAt other i := by
      rintro ⟨t, ht, -⟩
      exact hlt (List.getElem?_eq_some_iff.mp ht).1
    rw [or_iff_right hnone]
    constructor
    · rintro ⟨t, ht, hentry, -⟩
      have ht : (e.timers ++ [_])[i]? = some t := ht
      obtain ⟨hi, hget⟩ := List.getElem?_eq_some_iff.mp ht
      rw [List.length_append, List.length_singleton] at hi
      obtain rfl : i = e.timers.length := by omega
      rw [List.getElem_concat_length rfl] at hget
      exact ⟨by rw [← hentry, ← hget], rfl⟩
    · rintro ⟨rfl, rfl⟩
      exact ⟨_, List.getElem?_concat_length, rfl, rfl⟩

theorem Linked.started (h : Linked e) (hfree : e.handles timer = none)
    (timeoutMs repeatMs : UInt64) : Linked (e.started timer timeoutMs repeatMs) where
  runs other i := by
    rw [runsAt_started, h.runs]
    by_cases heq : other = timer
    · subst heq
      simp [FrequentEmitter.started, hfree, eq_comm]
    · simp [FrequentEmitter.started, heq]
  back t ht hrunning := by
    rcases List.mem_append.mp ht with hmem | hmem
    · exact h.back t hmem hrunning
    · rw [List.mem_singleton.mp hmem]

theorem runsAt_set {t : PlatformTimer} {timers : List PlatformTimer} (ht : e.timers[i]? = some t)
    (htimers : timers = e.timers.set i { t with isRunning := false, handle := none })
    (handles : EmitterTimer → Option ℕ) (other : EmitterTimer) (j : ℕ) :
    RunsAt { e with handles := handles, timers := timers } other j ↔
      e.RunsAt other j ∧ j ≠ i := by
  have hi := (List.getElem?_eq_some_iff.mp ht).1
  subst htimers
  by_cases hj : j = i
  · subst hj
    refine iff_of_false ?_ fun h => h.2 rfl
    rintro ⟨t', ht', -, hrunning⟩
    have ht' : (e.timers.set j _)[j]? = some t' := ht'
    rw [List.getElem?_set_self hi] at ht'
    rw [← Option.some.inj ht'] at hrunning
    cases hrunning
  · have hget : (e.timers.set i { t with isRunning := false, handle := none })[j]? =
        e.timers[j]? := List.getElem?_set_ne (Ne.symm hj)
    rw [and_iff_left hj, RunsAt]
    dsimp only
    rw [hget]
    rfl

theorem Linked.timerStop (h : Linked e) (timer : EmitterTimer) :
    ∃ timers, e.timerStop timer =
        { e with handles := Function.update e.handles timer none, timers := timers } ∧
      Linked { e with handles := Function.update e.handles timer none, timers := timers } := by
  cases hhandle : e.handles timer with
  | none =>
      have hsame : Function.update e.handles timer none = e.handles := by
        rw [← hhandle, Function.update_eq_self]
      refine ⟨e.timers, ?_, ?_⟩
      · rw [FrequentEmitter.timerStop, hhandle, hsame]
      · rw [hsame]
        exact h
  | some i =>
      obtain ⟨t, ht, rfl, hrunning⟩ := (h.runs timer i).mpr hhandle
      have hback := h.back t (List.mem_of_getElem? ht) hrunning
      refine ⟨e.timers.set i { t with isRunning := false, handle := none }, ?_, ?_, ?_⟩
      · simp [FrequentEmitter.timerStop, hhandle, timerStopEx, ht, hrunning, hback]
      · intro other j
        rw [runsAt_set ht rfl, h.runs]
        by_cases heq : other = t.entry
        · subst heq
          simp [hhandle, eq_comm]
        · dsimp only
          rw [Function.update_of_ne heq, and_iff_left_iff_imp]
          rintro hother rfl
          obtain ⟨t', ht', hentry, -⟩ := (h.runs other j).mpr hother
          rw [ht] at ht'
          exact heq (hentry.symm.trans (congrArg _ (Option.some.inj ht').symm))
      · intro t' ht' hrunning'
        rcases List.mem_or_eq_of_mem_set ht' with hmem | rfl
        · exact h.back t' hmem hrunning'
        · cases hrunning'

end Linked

section Steps

variable {e : FrequentEmitter}

/-- The invariant: the handles follow the flag. -/
structure Paired (e : FrequentEmitter) : Prop extends Linked e where
  trigger : (e.handles .trigger).isSome = true ↔ e.running = true
  timeout : (e.handles .timeout).isSome = true ↔ e.running = true ∧ e.timesOut
  valid : e.running = true → e.frequency ≠ 0

theorem paired_init (frequency : UInt64) (limit : UInt32) (timeoutMs : UInt64)
    (hasTimeoutCb : Bool) : Paired (init frequency limit timeoutMs hasTimeoutCb) where
  runs _ _ := iff_of_false (by rintro ⟨t, ht, -⟩; cases ht) nofun
  back := nofun
  trigger := iff_of_false nofun nofun
  timeout := iff_of_false nofun fun h => nomatch h.1
  valid := nofun

theorem Linked.stop (h : Linked e) (hrunning : e.running = true) :
    ∃ timers, e.stop = { e with
        running := false
        handles := fun _ => none
        timers := timers } ∧ Paired e.stop := by
  obtain ⟨timers, heq, hlinked⟩ := h.timerStop .trigger
  obtain ⟨timers', heq', hlinked'⟩ := hlinked.timerStop .timeout
  have hnone : Function.update (Function.update e.handles .trigger none) .timeout none =
      fun _ => none := by
    funext timer
    cases timer <;> rfl
  have hstop : e.stop = { e with
      running := false
      handles := fun _ => none
      timers := timers' } := by
    rw [FrequentEmitter.stop, hrunning, heq, heq']
    exact congrArg (fun handles => { e with
      running := false, handles := handles, timers := timers' }) hnone
  refine ⟨timers', hstop, ?_⟩
  rw [hstop]
  have hlinked' := hnone ▸ hlinked'
  exact ⟨⟨hlinked'.runs, hlinked'.back⟩, iff_of_false nofun nofun,
    iff_of_false nofun (fun h => nomatch h.1), nofun⟩

theorem stop_of_not_running (hrunning : e.running = false) : e.stop = e := by
  rw [FrequentEmitter.stop, hrunning]
  rfl

theorem Paired.stop (h : Paired e) : Paired e.stop := by
  cases hrunning : e.running with
  | true =>
      obtain ⟨-, -, hstop⟩ := h.toLinked.stop hrunning
      exact hstop
  | false => rwa [stop_of_not_running hrunning]

theorem Paired.free (h : Paired e) (hrunning : e.running = false) (timer : EmitterTimer) :
    e.handles timer = none := by
  rw [← Option.not_isSome_iff_eq_none]
  cases timer with
  | trigger => rw [h.trigger, hrunning]; simp
  | timeout => rw [h.timeout, hrunning]; simp

theorem start_eq (hrunning : e.running = false) (hfrequency : e.frequency ≠ 0)
    (triggerOk timeoutOk : Bool) :
    e.start triggerOk timeoutOk =
      if triggerOk = false then (e, false)
      else
        let e := e.started .trigger 0 (freqToMs e.frequency)
        if e.timesOut then
          if timeoutOk = false then (e, false)
          else ({ e.started .timeout e.timeoutMs e.timeoutMs with
            triggerCounter := 0, running := true }, true)
        else ({ e with triggerCounter := 0, running := true }, true) := by
  rw [start, hrunning, if_neg (by simp), if_neg hfrequency, timerStart_eq]
  cases triggerOk with
  | false =>
      simp [stop_of_not_running hrunning]
  | true =>
      rw [if_pos (rfl : true = true), if_neg (show ¬ true = false by decide)]
      generalize hone : e.started .trigger 0 (freqToMs e.frequency) = one
      have hstop : one.stop = one := stop_of_not_running (hone ▸ hrunning)
      by_cases htimes : one.timesOut
      · dsimp only
        rw [if_pos htimes, if_pos (show _ ∧ _ from htimes), timerStart_eq]
        cases timeoutOk with
        | true => rfl
        | false => exact congrArg (·, false) hstop
      · dsimp only
        rw [if_neg htimes, if_neg (show ¬ (_ ∧ _) from htimes)]

theorem start_snd (hrunning : e.running = false) (hfrequency : e.frequency ≠ 0)
    (triggerOk timeoutOk : Bool) :
    (e.start triggerOk timeoutOk).2 = true ↔
      triggerOk = true ∧ (¬ e.timesOut ∨ timeoutOk = true) := by
  have htimes : (e.started .trigger 0 (freqToMs e.frequency)).timesOut ↔ e.timesOut := Iff.rfl
  rw [start_eq hrunning hfrequency]
  dsimp only
  by_cases ht : e.timesOut <;> cases triggerOk <;> cases timeoutOk <;> simp [htimes, ht]

theorem running_stop : e.stop.running = false := by
  cases hrunning : e.running with
  | false => rw [stop_of_not_running hrunning, hrunning]
  | true =>
      rw [FrequentEmitter.stop, hrunning]
      rfl

theorem triggerCounter_timerStop (e : FrequentEmitter) (timer : EmitterTimer) :
    (e.timerStop timer).triggerCounter = e.triggerCounter := by
  unfold timerStop timerStopEx
  repeat' split
  all_goals rfl

theorem triggerCounter_stop (e : FrequentEmitter) : e.stop.triggerCounter = e.triggerCounter := by
  unfold stop
  split
  · rfl
  · exact (triggerCounter_timerStop _ _).trans (triggerCounter_timerStop _ _)

theorem Paired.withTimeout (h : Paired e) (hrunning : e.running = false) (timeoutMs : UInt64) :
    Paired { e with timeoutMs := timeoutMs } where
  runs := h.runs
  back := h.back
  trigger := h.trigger
  timeout := iff_of_false (by simp [h.free hrunning]) (by simp [hrunning])
  valid := h.valid

theorem Paired.counter (h : Paired e) (n : UInt32) : Paired { e with triggerCounter := n } :=
  { h with }

theorem Paired.onTriggered (h : Paired e) : Paired e.onTriggered := by
  rw [FrequentEmitter.onTriggered]
  dsimp only
  split
  · exact (h.counter _).stop
  · exact h.counter _

theorem Paired.start (h : Paired e) {triggerOk timeoutOk : Bool}
    (hcareful : e.running = true ∨ triggerOk = false ∨ ¬ e.timesOut ∨ timeoutOk = true) :
    Paired (e.start triggerOk timeoutOk).1 := by
  cases hrunning : e.running with
  | true =>
      rw [FrequentEmitter.start, hrunning, if_pos rfl]
      exact h
  | false =>
      by_cases hfrequency : e.frequency = 0
      · rw [FrequentEmitter.start, hrunning, if_neg (by simp), if_pos hfrequency]
        exact h
      · rw [start_eq hrunning hfrequency]
        split
        · exact h
        next htrigger =>
          have hone := h.toLinked.started (h.free hrunning .trigger) 0 (freqToMs e.frequency)
          have hfree : (e.started .trigger 0 (freqToMs e.frequency)).handles .timeout = none :=
            h.free hrunning .timeout
          dsimp only
          split
          next htimes =>
            have htimes : e.timesOut := htimes
            rw [if_neg (by simpa [hrunning, htrigger, htimes] using hcareful)]
            have htwo := hone.started hfree e.timeoutMs e.timeoutMs
            exact ⟨⟨htwo.runs, htwo.back⟩, iff_of_true rfl rfl, iff_of_true rfl ⟨rfl, htimes⟩,
              fun _ => hfrequency⟩
          next htimes =>
            have htimes : ¬ e.timesOut := htimes
            exact ⟨⟨hone.runs, hone.back⟩, iff_of_true rfl rfl,
              iff_of_false (by simp [FrequentEmitter.started, h.free hrunning]) fun ht =>
                htimes ht.2, fun _ => hfrequency⟩

theorem Paired.right (h : Paired e) (hfrequency : e.frequency ≠ 0) : Right e where
  trigger := h.trigger.symm.trans h.armed.symm
  timeout := h.armed.trans h.timeout
  startable hrunning := by
    rw [start_eq hrunning hfrequency, if_neg (by simp)]
    dsimp only
    split
    · rw [if_neg (by simp)]
    · rfl

theorem timerCallback_eq {i : ℕ}
    (hrepeat : ∀ t, e.timers[i]? = some t → t.isRunning = true → t.isRepeat = true) :
    e.timerCallback i = e := by
  rw [timerCallback]
  cases ht : e.timers[i]? with
  | none => rfl
  | some t => exact if_neg fun hfires => by simp [hrepeat t ht hfires.1] at hfires

theorem Paired.step (h : Paired e) {ev : EmitterEvent} (hcareful : e.Careful ev) :
    Paired (e.step ev) := by
  cases ev with
  | start triggerOk timeoutOk => exact h.start hcareful.2
  | stop => exact h.stop
  | triggered => exact h.onTriggered
  | fired i =>
      rw [FrequentEmitter.step, timerCallback_eq hcareful.2]
      exact h

/-- What no call changes. -/
def settings (e : FrequentEmitter) : UInt64 × UInt32 × Bool :=
  (e.frequency, e.limit, e.hasTimeoutCb)

theorem settings_timerStopEx (i : ℕ) : settings (e.timerStopEx i) = settings e := by
  rw [timerStopEx]
  split
  · rfl
  · split <;> rfl

theorem settings_timerStop (timer : EmitterTimer) : settings (e.timerStop timer) = settings e := by
  rw [timerStop]
  split
  · rfl
  · exact settings_timerStopEx _

theorem settings_stop : settings e.stop = settings e := by
  rw [stop]
  split
  · rfl
  · exact (settings_timerStop _).trans (settings_timerStop _)

theorem settings_start (triggerOk timeoutOk : Bool) :
    settings (e.start triggerOk timeoutOk).1 = settings e := by
  cases hrunning : e.running with
  | true => rw [start, hrunning, if_pos rfl]
  | false =>
      by_cases hfrequency : e.frequency = 0
      · rw [start, hrunning, if_neg (by simp), if_pos hfrequency]
      · rw [start_eq hrunning hfrequency]
        dsimp only
        split
        · rfl
        · split
          · split <;> rfl
          · rfl

theorem settings_step (ev : EmitterEvent) : settings (e.step ev) = settings e := by
  cases ev with
  | start triggerOk timeoutOk => exact settings_start triggerOk timeoutOk
  | stop => exact settings_stop
  | triggered =>
      rw [FrequentEmitter.step, onTriggered]
      dsimp only
      split
      · exact settings_stop
      · rfl
  | fired i =>
      rw [FrequentEmitter.step, timerCallback]
      split
      · rfl
      · split
        · exact settings_timerStopEx _
        · rfl

theorem frequency_step (ev : EmitterEvent) : (e.step ev).frequency = e.frequency :=
  congrArg (·.1) (settings_step ev)

theorem Paired.running_step_of_zero (h : Paired e) (hfrequency : e.frequency = 0)
    (ev : EmitterEvent) : (e.step ev).running = false := by
  have hrunning : e.running = false := by
    by_contra hrunning
    exact h.valid (by simpa using hrunning) hfrequency
  cases ev with
  | start triggerOk timeoutOk =>
      rw [FrequentEmitter.step, FrequentEmitter.start, if_neg (by simp [hrunning]),
        if_pos hfrequency]
      exact hrunning
  | stop => rw [FrequentEmitter.step, stop_of_not_running hrunning, hrunning]
  | triggered =>
      have hcounter : { e with triggerCounter := e.triggerCounter + 1 }.stop =
          { e with triggerCounter := e.triggerCounter + 1 } := stop_of_not_running hrunning
      rw [FrequentEmitter.step, FrequentEmitter.onTriggered]
      dsimp only
      rw [hcounter]
      split <;> exact hrunning
  | fired i =>
      rw [FrequentEmitter.step, timerCallback_eq, hrunning]
      intro t ht hruns
      have hhandle := (h.runs t.entry i).mp ⟨t, ht, rfl, hruns⟩
      rw [h.free hrunning] at hhandle
      cases hhandle

theorem armed_start_failed (hrunning : e.running = false) (hfrequency : e.frequency ≠ 0)
    (htimes : e.timesOut) :
    (e.start true false).1.running = false ∧ (e.start true false).1.Armed .trigger := by
  have htimes : (e.started .trigger 0 (freqToMs e.frequency)).timesOut := htimes
  rw [start_eq hrunning hfrequency, if_neg (by simp)]
  dsimp only
  rw [if_pos htimes, if_pos rfl]
  exact ⟨hrunning, armed_iff.mpr ⟨_, (runsAt_started _ _ _ _).mpr (.inr ⟨rfl, rfl⟩)⟩⟩

theorem Paired.not_armed_fired (h : Paired e) {i : ℕ} {t : PlatformTimer}
    (ht : e.timers[i]? = some t) (hrunning : t.isRunning = true) (hrepeat : t.isRepeat = false) :
    ¬ (e.step (.fired i)).Armed t.entry ∧ (e.step (.fired i)).running = e.running ∧
      ((e.step (.fired i)).timesOut ↔ e.timesOut) := by
  have hback := h.back t (List.mem_of_getElem? ht) hrunning
  have hstep : e.step (.fired i) = { e with
      handles := Function.update e.handles t.entry none
      timers := e.timers.set i { t with isRunning := false, handle := none } } := by
    simp [FrequentEmitter.step, timerCallback, ht, hrunning, hrepeat, timerStopEx, hback]
  rw [hstep]
  refine ⟨fun harmed => ?_, rfl, Iff.rfl⟩
  obtain ⟨j, hj⟩ := armed_iff.mp harmed
  obtain ⟨hruns, hne⟩ := (runsAt_set ht rfl _ _ _).mp hj
  have hsame := (h.runs _ _).mp hruns
  rw [(h.runs t.entry i).mp ⟨t, ht, rfl, hrunning⟩] at hsame
  exact hne (Option.some.inj hsame).symm

theorem running_start (hrunning : e.running = false) (triggerOk timeoutOk : Bool) :
    (e.start triggerOk timeoutOk).1.running = (e.start triggerOk timeoutOk).2 := by
  by_cases hfrequency : e.frequency = 0
  · rw [start, hrunning, if_neg (by simp), if_pos hfrequency, hrunning]
  · rw [start_eq hrunning hfrequency]
    split
    · exact hrunning
    · dsimp only
      split
      · split
        · exact hrunning
        · rfl
      · rfl

theorem Paired.stepRight_iff (h : Paired e) (ev : EmitterEvent) :
    e.StepRight ev ↔ e.Careful ev := by
  constructor
  · rintro ⟨hright, -⟩
    have hfrequency : e.frequency ≠ 0 := by
      intro hzero
      have hstartable := hright.startable (h.running_step_of_zero hzero ev)
      have hzero' := (frequency_step (e := e) ev).trans hzero
      rw [FrequentEmitter.start, if_neg (by simp [h.running_step_of_zero hzero ev]),
        if_pos hzero'] at hstartable
      cases hstartable
    refine ⟨hfrequency, ?_⟩
    cases ev with
    | start triggerOk timeoutOk =>
        by_contra hfails
        simp only [not_or, not_not, Bool.not_eq_true, Bool.not_eq_false] at hfails
        obtain ⟨hrunning, rfl, htimes, rfl⟩ := hfails
        obtain ⟨hnot, harmed⟩ := armed_start_failed hrunning hfrequency htimes
        have hruns := hright.trigger.mpr harmed
        exact Bool.false_ne_true (hnot.symm.trans hruns)
    | stop => trivial
    | triggered => trivial
    | fired i =>
        intro t ht hrunning
        by_contra hrepeat
        obtain ⟨hnot, hflag, htimes⟩ := h.not_armed_fired ht hrunning (by simpa using hrepeat)
        have hruns : e.Armed t.entry := armed_iff.mpr ⟨i, t, ht, rfl, hrunning⟩
        rw [h.armed] at hruns
        cases hentry : t.entry with
        | trigger =>
            rw [hentry] at hruns hnot
            exact hnot (hright.trigger.mp (hflag.trans (h.trigger.mp hruns)))
        | timeout =>
            rw [hentry] at hruns hnot
            obtain ⟨hon, hon'⟩ := h.timeout.mp hruns
            exact hnot (hright.timeout.mpr ⟨hflag.trans hon, htimes.mpr hon'⟩)
  · intro hcareful
    have hstep := h.step hcareful
    have hfrequency : (e.step ev).frequency ≠ 0 := by
      rw [frequency_step]
      exact hcareful.1
    refine ⟨hstep.right hfrequency, ?_⟩
    rintro triggerOk timeoutOk rfl hrunning hfailed timer harmed
    have hnot : (e.step (.start triggerOk timeoutOk)).running = false :=
      (running_start hrunning triggerOk timeoutOk).trans hfailed
    rw [hstep.armed, hstep.free hnot] at harmed
    cases harmed

/-- Every call of an emitter leaves it right exactly if its frequency is valid, no timeout timer
fails after its trigger timer was started, and no timer fires that is not repeated. -/
theorem emitter_run (frequency : UInt64) (limit : UInt32) (timeoutMs : UInt64)
    (hasTimeoutCb : Bool) (evs : List EmitterEvent) :
    Along step StepRight (init frequency limit timeoutMs hasTimeoutCb) evs ↔
      Along step Careful (init frequency limit timeoutMs hasTimeoutCb) evs := by
  have hrun : ∀ (evs : List EmitterEvent) (e : FrequentEmitter), Paired e →
      (Along step StepRight e evs ↔ Along step Careful e evs) := by
    intro evs
    induction evs with
    | nil => exact fun _ _ => Iff.rfl
    | cons ev evs ih =>
        intro e h
        rw [along_cons, along_cons, h.stepRight_iff]
        exact and_congr_right fun hcareful => ih _ (h.step hcareful)
  exact hrun evs _ (paired_init _ _ _ _)

/-- The request emitter of a client: its timeout timer fails, and the trigger timer is armed. -/
theorem not_stepRight_timeoutFailed :
    ¬ Along step StepRight (init 10 0 5000 true) [.start true false] := by
  rintro ⟨⟨hright, -⟩, -⟩
  have hrunning := hright.trigger.mpr (by decide)
  exact absurd hrunning (by decide)

end Steps

end FrequentEmitter

end Protocol

end PomeloUdp
