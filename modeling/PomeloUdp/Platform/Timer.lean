import Mathlib.Data.List.Induction
import Mathlib.Logic.Function.Basic
import PomeloUdp.Library.Ledger
import PomeloUdp.Library.Progress

/-!
# Timers

The user of a timer has a handle, which points to the timer as long as it runs. A timer that stops
is closed, and the loop releases it later, when its memory may become another timer. So a handle
must not point to it any more by then.

The functions follow `timer.c`; each says as well whether it calls
`pomelo_platform_timer_controller_on_shutdown`. The entry of a timer is the last call of
`pomelo_platform_uv_timer_callback`, so what it does are steps of their own. `started` are the
timers as they were started, `fired` those whose entry was called, and `released` those whose
memory was given back. No function reads them.
-/

namespace PomeloUdp

namespace Platform

/-- `pomelo_platform_timer_t`. -/
structure Timer where
  number : ℕ
  handle : Option ℕ
  isRepeat : Bool
  isRunning : Bool
  deriving DecidableEq, Repr

/-- `pomelo_platform_timer_controller_t`, with the timers that the handles point to. -/
structure TimerController where
  running : Bool
  timers : List Timer
  handles : ℕ → Option ℕ
  /-- Whether a handle was used whose timer has been released. -/
  fault : Bool
  nextTimer : ℕ
  started : List Timer
  fired : List ℕ
  released : List ℕ

/-- What happens to a controller. -/
inductive TimerEvent where
  | startup
  | shutdown
  /-- A start, with the handle if there is one; the answers of the timer pool, of the list and of
  `uv_timer_start`. -/
  | start (handle : Option ℕ) (isRepeat : Bool) (acquired added started : Bool)
  | stop (handle : ℕ)
  /-- The loop calls `pomelo_platform_uv_timer_callback`. -/
  | timeout (number : ℕ)
  /-- The loop calls `uv_timer_stop_complete`. -/
  | stopComplete (number : ℕ)
  deriving DecidableEq, Repr

namespace TimerController

/-- A new controller. -/
def create : TimerController where
  running := false
  timers := []
  handles := fun _ => none
  fault := false
  nextTimer := 0
  started := []
  fired := []
  released := []

/-- `pomelo_platform_timer_controller_startup`. -/
def startup (s : TimerController) : TimerController := { s with running := true }

/-- A timer that is stopped. -/
def stopTimer (timer : Timer) : Timer := { timer with isRunning := false, handle := none }

/-- `pomelo_platform_uv_timer_stop_ex`. -/
def stopEx (s : TimerController) (timer : Timer) : TimerController :=
  if !timer.isRunning then s
  else
    { s with
      timers := s.timers.map fun other =>
        if other.number = timer.number then stopTimer other else other
      handles :=
        match timer.handle with
        | none => s.handles
        | some handle => Function.update s.handles handle none }

/-- `pomelo_platform_timer_controller_shutdown`. -/
def shutdown (s : TimerController) : TimerController × Bool :=
  if !s.running then (s, false)
  else if s.timers.isEmpty then ({ s with running := false }, true)
  else (s.timers.foldl stopEx { s with running := false }, false)

/-- `pomelo_platform_uv_timer_start`. -/
def start (s : TimerController) (handle : Option ℕ) (isRepeat acquired added started : Bool) :
    TimerController :=
  if !acquired then s
  else if !added then s
  else if !started then s
  else
    { s with
      timers := s.timers ++ [⟨s.nextTimer, handle, isRepeat, true⟩]
      handles :=
        match handle with
        | none => s.handles
        | some handle => Function.update s.handles handle (some s.nextTimer)
      nextTimer := s.nextTimer + 1
      started := s.started ++ [⟨s.nextTimer, handle, isRepeat, true⟩] }

/-- `pomelo_platform_uv_timer_stop`. -/
def stop (s : TimerController) (handle : ℕ) : TimerController :=
  match s.handles handle with
  | none => s
  | some number =>
      match s.timers.find? fun timer => timer.number = number with
      | none => { s with fault := true }
      | some timer =>
          let stopped := s.stopEx timer
          { stopped with handles := Function.update stopped.handles handle none }

/-- `pomelo_platform_uv_timer_callback`, which the loop calls for a timer that runs. -/
def timeout (s : TimerController) (number : ℕ) : TimerController :=
  match s.timers.find? fun timer => timer.number = number with
  | none => s
  | some timer =>
      if !timer.isRunning then s
      else
        let stopped := if timer.isRepeat then s else s.stopEx timer
        { stopped with fired := stopped.fired ++ [number] }

/-- `uv_timer_stop_complete`, which the loop calls for a timer that was closed. -/
def stopComplete (s : TimerController) (number : ℕ) : TimerController × Bool :=
  match s.timers.find? fun timer => timer.number = number with
  | none => (s, false)
  | some timer =>
      if timer.isRunning then (s, false)
      else
        let timers := s.timers.filter fun other => other.number ≠ number
        ({ s with timers := timers, released := s.released ++ [number] },
          !s.running && timers.isEmpty)

/-- One step, and whether the controller is completely shut down. -/
def stepShutdown (s : TimerController) : TimerEvent → TimerController × Bool
  | .startup => (s.startup, false)
  | .shutdown => s.shutdown
  | .start handle isRepeat acquired added started =>
      (s.start handle isRepeat acquired added started, false)
  | .stop handle => (s.stop handle, false)
  | .timeout number => (s.timeout number, false)
  | .stopComplete number => s.stopComplete number

/-- One step. -/
def step (s : TimerController) (event : TimerEvent) : TimerController := (s.stepShutdown event).1

/-- The numbers of the timers that are not released. -/
def numbers (s : TimerController) : List ℕ := s.timers.map Timer.number

/-- The timer is in the list and was not stopped. -/
def Runs (s : TimerController) (number : ℕ) : Prop :=
  ∃ timer ∈ s.timers, timer.number = number ∧ timer.isRunning = true

/-- Every timer is in the list or was released, a handle points to a timer that runs and has
this handle, and a timer without repeat runs no more once it has fired. -/
structure Sound (s : TimerController) : Prop where
  balanced : Ledger.Balanced s.numbers s.released s.nextTimer
  handles : ∀ handle number, s.handles handle = some number →
    ∃ timer ∈ s.timers, timer.number = number ∧ timer.handle = some handle ∧
      timer.isRunning = true
  fault : s.fault = false
  numbered : s.started.map Timer.number = List.range s.nextTimer
  recorded : ∀ timer ∈ s.timers, timer.isRunning = true → timer ∈ s.started
  fired : ∀ number ∈ s.fired, number < s.nextTimer
  once : ∀ timer ∈ s.started, timer.isRepeat = false →
    s.fired.count timer.number ≤ 1 ∧ (s.Runs timer.number → s.fired.count timer.number = 0)

theorem sound_create : Sound create where
  balanced := Ledger.Balanced.nil
  handles := by simp [create]
  fault := rfl
  numbered := rfl
  recorded := by simp [create]
  fired := by simp [create]
  once := by simp [create]

/-- What stopping timers leaves as it was. -/
structure SameTimers (s t : TimerController) : Prop where
  numbers : t.numbers = s.numbers
  released : t.released = s.released
  fired : t.fired = s.fired
  started : t.started = s.started
  nextTimer : t.nextTimer = s.nextTimer
  fault : t.fault = s.fault

theorem sameTimers_stopEx (s : TimerController) (timer : Timer) :
    SameTimers s (s.stopEx timer) := by
  unfold stopEx
  split
  · exact ⟨rfl, rfl, rfl, rfl, rfl, rfl⟩
  · refine ⟨?_, rfl, rfl, rfl, rfl, rfl⟩
    rw [numbers, List.map_map]
    refine List.map_congr_left fun other _ => ?_
    rw [Function.comp_apply]
    split <;> rfl

theorem handles_stopEx {s : TimerController} {timer : Timer} (hrunning : timer.isRunning = true)
    {handle number : ℕ} (hhandle : (s.stopEx timer).handles handle = some number) :
    s.handles handle = some number ∧ timer.handle ≠ some handle := by
  rw [stopEx, hrunning] at hhandle
  simp only [Bool.not_true, Bool.false_eq_true, if_false] at hhandle
  cases hown : timer.handle with
  | none =>
      rw [hown] at hhandle
      exact ⟨hhandle, by simp⟩
  | some own =>
      rw [hown] at hhandle
      dsimp only at hhandle
      by_cases heq : handle = own
      · rw [heq, Function.update_self] at hhandle
        cases hhandle
      · rw [Function.update_of_ne heq] at hhandle
        exact ⟨hhandle, fun hsame => heq (Option.some.inj hsame).symm⟩

namespace Sound

variable {s : TimerController} {timer : Timer}

theorem eq_of_number (h : Sound s) (htimer : timer ∈ s.timers) {other : Timer}
    (hother : other ∈ s.timers) (hnumber : other.number = timer.number) : other = timer :=
  List.inj_on_of_nodup_map h.balanced.nodup_pending hother htimer hnumber

theorem eq_of_started (h : Sound s) (htimer : timer ∈ s.started) {other : Timer}
    (hother : other ∈ s.started) (hnumber : other.number = timer.number) : other = timer :=
  List.inj_on_of_nodup_map (by rw [h.numbered]; exact List.nodup_range) hother htimer hnumber

theorem lt_of_started (h : Sound s) (htimer : timer ∈ s.started) :
    timer.number < s.nextTimer := by
  rw [← List.mem_range, ← h.numbered]
  exact List.mem_map_of_mem htimer

theorem lt_of_timers (h : Sound s) (htimer : timer ∈ s.timers) :
    timer.number < s.nextTimer :=
  h.balanced.lt_of_pending (List.mem_map_of_mem htimer)

theorem find (h : Sound s) (htimer : timer ∈ s.timers) :
    (s.timers.find? fun other => other.number = timer.number) = some timer := by
  cases hfind : s.timers.find? fun other => other.number = timer.number with
  | none =>
      have hnone := List.find?_eq_none.mp hfind timer htimer
      simp at hnone
  | some other =>
      have hnumber : other.number = timer.number := by simpa using List.find?_some hfind
      rw [h.eq_of_number htimer (List.mem_of_find?_eq_some hfind) hnumber]

theorem mem_stopEx (h : Sound s) (htimer : timer ∈ s.timers) (hrunning : timer.isRunning = true)
    {other : Timer} :
    other ∈ (s.stopEx timer).timers ↔
      other = stopTimer timer ∨ other ∈ s.timers ∧ other.number ≠ timer.number := by
  rw [TimerController.stopEx, hrunning]
  simp only [Bool.not_true, Bool.false_eq_true, if_false, List.mem_map]
  constructor
  · rintro ⟨before, hbefore, rfl⟩
    split
    next heq => exact .inl (by rw [h.eq_of_number htimer hbefore heq])
    next hne => exact .inr ⟨hbefore, hne⟩
  · rintro (rfl | ⟨hother, hne⟩)
    · exact ⟨timer, htimer, if_pos rfl⟩
    · exact ⟨other, hother, if_neg hne⟩

theorem runs_stopEx (h : Sound s) (htimer : timer ∈ s.timers) (hrunning : timer.isRunning = true)
    (number : ℕ) : (s.stopEx timer).Runs number ↔ s.Runs number ∧ number ≠ timer.number := by
  constructor
  · rintro ⟨other, hother, rfl, hruns⟩
    rcases (h.mem_stopEx htimer hrunning).mp hother with rfl | ⟨hmem, hne⟩
    · cases hruns
    · exact ⟨⟨other, hmem, rfl, hruns⟩, hne⟩
  · rintro ⟨⟨other, hother, rfl, hruns⟩, hne⟩
    exact ⟨other, (h.mem_stopEx htimer hrunning).mpr (.inr ⟨hother, hne⟩), rfl, hruns⟩

theorem stopEx (h : Sound s) (htimer : timer ∈ s.timers) : Sound (s.stopEx timer) := by
  by_cases hrunning : timer.isRunning = true
  · have hmem : ∀ other, other ∈ (s.stopEx timer).timers ↔
        other = stopTimer timer ∨ other ∈ s.timers ∧ other.number ≠ timer.number :=
      fun _ => h.mem_stopEx htimer hrunning
    have hsame := sameTimers_stopEx s timer
    refine ⟨?_, fun handle number hhandle => ?_, ?_, ?_, fun other hother hruns => ?_, ?_,
      fun other hother hrepeat => ?_⟩
    · rw [hsame.numbers, hsame.released, hsame.nextTimer]
      exact h.balanced
    · obtain ⟨hbefore, hown⟩ := handles_stopEx hrunning hhandle
      obtain ⟨other, hother, rfl, hhandle', hruns⟩ := h.handles handle number hbefore
      refine ⟨other, (hmem other).mpr (.inr ⟨hother, fun heq => hown ?_⟩), rfl, hhandle', hruns⟩
      rw [← h.eq_of_number htimer hother heq, hhandle']
    · rw [hsame.fault]
      exact h.fault
    · rw [hsame.started, hsame.nextTimer]
      exact h.numbered
    · rw [hsame.started]
      rcases (hmem other).mp hother with rfl | ⟨hbefore, -⟩
      · cases hruns
      · exact h.recorded other hbefore hruns
    · rw [hsame.fired, hsame.nextTimer]
      exact h.fired
    · rw [hsame.started] at hother
      rw [hsame.fired, h.runs_stopEx htimer hrunning]
      exact ⟨(h.once other hother hrepeat).1, fun hboth => (h.once other hother hrepeat).2 hboth.1⟩
  · rw [TimerController.stopEx, if_pos (by simpa using hrunning)]
    exact h

theorem foldl_stopEx {P : TimerController → Prop}
    (hP : ∀ t timer, Sound t → timer ∈ t.timers → P t → P (t.stopEx timer)) (h : Sound s)
    (hs : P s) (timers : List Timer) (htimers : ∀ timer ∈ timers, timer ∈ s.timers)
    (hnodup : (timers.map Timer.number).Nodup) :
    Sound (timers.foldl TimerController.stopEx s) ∧
      P (timers.foldl TimerController.stopEx s) := by
  induction timers generalizing s with
  | nil => exact ⟨h, hs⟩
  | cons timer timers ih =>
      have htimer := htimers timer List.mem_cons_self
      rw [List.map_cons, List.nodup_cons] at hnodup
      refine ih (h.stopEx htimer) (hP s timer h htimer hs) (fun other hother => ?_) hnodup.2
      have hmem := htimers other (List.mem_cons_of_mem _ hother)
      by_cases hrunning : timer.isRunning = true
      · refine (h.mem_stopEx htimer hrunning).mpr (.inr ⟨hmem, fun heq => hnodup.1 ?_⟩)
        exact List.mem_map.mpr ⟨other, hother, heq⟩
      · rw [TimerController.stopEx, if_pos (by simpa using hrunning)]
        exact hmem

theorem of_running (h : Sound s) (running : Bool) : Sound { s with running := running } :=
  ⟨h.balanced, h.handles, h.fault, h.numbered, h.recorded, h.fired, h.once⟩

theorem shutdown {P : TimerController → Prop}
    (hP : ∀ t timer, Sound t → timer ∈ t.timers → P t → P (t.stopEx timer)) (h : Sound s)
    (hs : P s) (hrunning : P { s with running := false }) :
    Sound s.shutdown.1 ∧ P s.shutdown.1 := by
  unfold TimerController.shutdown
  split
  · exact ⟨h, hs⟩
  split
  · exact ⟨h.of_running false, hrunning⟩
  · exact foldl_stopEx hP (h.of_running false) hrunning s.timers (fun _ htimer => htimer)
      h.balanced.nodup_pending

theorem start (h : Sound s) (handle : Option ℕ) (isRepeat acquired added started : Bool) :
    Sound (s.start handle isRepeat acquired added started) := by
  unfold TimerController.start
  split
  · exact h
  split
  · exact h
  split
  · exact h
  refine ⟨?_, fun other number hother => ?_, h.fault, ?_, fun other hother hruns => ?_,
    fun number hnumber => Nat.lt_succ_of_lt (h.fired number hnumber),
    fun other hother hrepeat => ?_⟩
  · have hnumbers : (s.timers ++ [(⟨s.nextTimer, handle, isRepeat, true⟩ : Timer)]).map
        Timer.number = s.numbers ++ [s.nextTimer] := by simp [numbers]
    rw [numbers, hnumbers]
    exact h.balanced.issue
  · have hold : s.handles other = some number → ∃ timer ∈ s.timers ++
        [⟨s.nextTimer, handle, isRepeat, true⟩], timer.number = number ∧
          timer.handle = some other ∧ timer.isRunning = true := by
      intro hbefore
      obtain ⟨timer, htimer, hrest⟩ := h.handles other number hbefore
      exact ⟨timer, List.mem_append_left _ htimer, hrest⟩
    cases handle with
    | none => exact hold hother
    | some own =>
        dsimp only at hother
        by_cases heq : other = own
        · rw [heq, Function.update_self] at hother
          obtain rfl := Option.some.inj hother
          exact ⟨_, List.mem_append_right _ List.mem_cons_self, rfl, by rw [heq], rfl⟩
        · rw [Function.update_of_ne heq] at hother
          exact hold hother
  · rw [List.map_append, h.numbered, List.range_succ]
    rfl
  · rcases List.mem_append.mp hother with hold | hnew
    · exact List.mem_append_left _ (h.recorded other hold hruns)
    · exact List.mem_append_right _ hnew
  · rcases List.mem_append.mp hother with hold | hnew
    · refine ⟨(h.once other hold hrepeat).1, fun hruns => (h.once other hold hrepeat).2 ?_⟩
      obtain ⟨timer, htimer, hnumber, hrunning⟩ := hruns
      rcases List.mem_append.mp htimer with hbefore | hlast
      · exact ⟨timer, hbefore, hnumber, hrunning⟩
      · obtain rfl := List.mem_singleton.mp hlast
        exact absurd (h.lt_of_started hold) (by rw [← hnumber]; exact Nat.lt_irrefl _)
    · obtain rfl := List.mem_singleton.mp hnew
      have hzero : s.fired.count s.nextTimer = 0 :=
        List.count_eq_zero.mpr fun hmem => Nat.lt_irrefl _ (h.fired _ hmem)
      exact ⟨hzero.trans_le (Nat.zero_le 1), fun _ => hzero⟩

theorem stop_eq (h : Sound s) (handle : ℕ) :
    s.stop handle = s ∧ s.handles handle = none ∨
      ∃ timer ∈ s.timers, s.handles handle = some timer.number ∧ timer.isRunning = true ∧
        s.stop handle = s.stopEx timer ∧ (s.stop handle).handles handle = none := by
  cases hhandle : s.handles handle with
  | none =>
      rw [stop, hhandle]
      exact .inl ⟨rfl, rfl⟩
  | some number =>
      obtain ⟨timer, htimer, rfl, hown, hrunning⟩ := h.handles handle number hhandle
      have hcleared : (s.stopEx timer).handles handle = none := by
        cases hafter : (s.stopEx timer).handles handle with
        | none => rfl
        | some number => exact absurd hown (handles_stopEx hrunning hafter).2
      have hstop : s.stop handle = s.stopEx timer := by
        rw [stop, hhandle]
        simp only [h.find htimer]
        rw [← hcleared, Function.update_eq_self]
      exact .inr ⟨timer, htimer, rfl, hrunning, hstop, by rw [hstop, hcleared]⟩

theorem stop (h : Sound s) (handle : ℕ) : Sound (s.stop handle) := by
  rcases h.stop_eq handle with ⟨hstop, -⟩ | ⟨timer, htimer, -, -, hstop, -⟩
  · rw [hstop]
    exact h
  · rw [hstop]
    exact h.stopEx htimer

theorem fire (h : Sound s) {number : ℕ} (hnumber : number < s.nextTimer)
    (honce : ∀ timer ∈ s.started, timer.isRepeat = false → timer.number = number →
      ¬ s.Runs number ∧ s.fired.count number = 0) :
    Sound { s with fired := s.fired ++ [number] } := by
  refine ⟨h.balanced, h.handles, h.fault, h.numbered, h.recorded, fun other hother => ?_,
    fun timer htimer hrepeat => ?_⟩
  · rcases List.mem_append.mp hother with hbefore | hlast
    · exact h.fired other hbefore
    · rw [List.mem_singleton.mp hlast]
      exact hnumber
  · change (s.fired ++ [number]).count timer.number ≤ 1 ∧
      (s.Runs timer.number → (s.fired ++ [number]).count timer.number = 0)
    rw [List.count_append, List.count_singleton]
    by_cases heq : timer.number = number
    · obtain ⟨hstopped, hzero⟩ := honce timer htimer hrepeat heq
      rw [heq, hzero, beq_self_eq_true, if_pos rfl]
      exact ⟨Nat.le_refl 1, fun hruns => absurd hruns hstopped⟩
    · have hne : (number == timer.number) = false :=
        beq_eq_false_iff_ne.mpr fun hsame => heq hsame.symm
      simpa [hne] using h.once timer htimer hrepeat

theorem timeout_eq (h : Sound s) (htimer : timer ∈ s.timers) :
    s.timeout timer.number =
      if timer.isRunning then
        let stopped := if timer.isRepeat then s else s.stopEx timer
        { stopped with fired := stopped.fired ++ [timer.number] }
      else s := by
  unfold TimerController.timeout
  rw [h.find htimer]
  cases hrunning : timer.isRunning <;> simp [hrunning]

theorem timeout (h : Sound s) (number : ℕ) : Sound (s.timeout number) := by
  cases hfind : s.timers.find? fun timer => timer.number = number with
  | none =>
      rw [TimerController.timeout, hfind]
      exact h
  | some timer =>
      have htimer := List.mem_of_find?_eq_some hfind
      obtain rfl : timer.number = number := by simpa using List.find?_some hfind
      rw [h.timeout_eq htimer]
      by_cases hrunning : timer.isRunning = true
      · have hstarted := h.recorded timer htimer hrunning
        have hruns : s.Runs timer.number := ⟨timer, htimer, rfl, hrunning⟩
        rw [if_pos hrunning]
        by_cases hrepeat : timer.isRepeat = true
        · simp only [if_pos hrepeat]
          refine h.fire (h.lt_of_timers htimer) fun other hother hfalse hnumber => ?_
          rw [h.eq_of_started hstarted hother hnumber, hrepeat] at hfalse
          cases hfalse
        · have hsame := sameTimers_stopEx s timer
          simp only [if_neg hrepeat]
          refine (h.stopEx htimer).fire (by rw [hsame.nextTimer]; exact h.lt_of_timers htimer)
            fun other hother hfalse hnumber => ⟨fun hboth => ?_, ?_⟩
          · exact ((h.runs_stopEx htimer hrunning _).mp hboth).2 rfl
          · rw [hsame.fired]
            exact (h.once timer hstarted (by simpa using hrepeat)).2 hruns
      · rw [if_neg hrunning]
        exact h

theorem stopComplete (h : Sound s) (number : ℕ) : Sound (s.stopComplete number).1 := by
  cases hfind : s.timers.find? fun timer => timer.number = number with
  | none =>
      rw [TimerController.stopComplete, hfind]
      exact h
  | some timer =>
      have htimer := List.mem_of_find?_eq_some hfind
      obtain rfl : timer.number = number := by simpa using List.find?_some hfind
      rw [TimerController.stopComplete, h.find htimer]
      by_cases hrunning : timer.isRunning = true
      · simp only [hrunning, if_true]
        exact h
      · simp only [hrunning, if_false, Bool.false_eq_true]
        refine ⟨?_, fun handle number hhandle => ?_, h.fault, h.numbered,
          fun other hother => ?_, h.fired, fun other hother hrepeat => ?_⟩
        · exact h.balanced.settle_map htimer
        · obtain ⟨other, hother, rfl, hown, hruns⟩ := h.handles handle number hhandle
          refine ⟨other, List.mem_filter.mpr ⟨hother, decide_eq_true fun heq => hrunning ?_⟩,
            rfl, hown, hruns⟩
          rw [← h.eq_of_number htimer hother heq, hruns]
        · exact h.recorded other (List.mem_filter.mp hother).1
        · refine ⟨(h.once other hother hrepeat).1, fun hruns => (h.once other hother hrepeat).2 ?_⟩
          obtain ⟨found, hfound, hrest⟩ := hruns
          exact ⟨found, (List.mem_filter.mp hfound).1, hrest⟩

theorem step (h : Sound s) (event : TimerEvent) : Sound (s.step event) := by
  cases event with
  | startup => exact h.of_running true
  | shutdown =>
      exact (h.shutdown (P := fun _ => True) (fun _ _ _ _ _ => trivial) trivial trivial).1
  | start handle isRepeat acquired added started =>
      exact h.start handle isRepeat acquired added started
  | stop handle => exact h.stop handle
  | timeout number => exact h.timeout number
  | stopComplete number => exact h.stopComplete number

theorem run (h : Sound s) (es : List TimerEvent) :
    Sound (Machine.run TimerController.step s es) := by
  induction es generalizing s with
  | nil => exact h
  | cons event es ih => exact ih (h.step event)

end Sound

/-- What the handles and the timers come to, whatever the users and the loop do: no handle is ever
used after its timer was released. Every timer is in the list or released, and just once. A handle
points to a timer that runs and belongs to it. A timer without repeat fires once at most. -/
theorem timers_run (es : List TimerEvent) :
    let s := Machine.run step create es
    s.fault = false ∧
      (∀ number < s.nextTimer, s.numbers.count number + s.released.count number = 1) ∧
      (∀ handle number, s.handles handle = some number →
        ∃ timer ∈ s.timers, timer.number = number ∧ timer.handle = some handle ∧
          timer.isRunning = true) ∧
      ∀ timer ∈ s.started, timer.isRepeat = false → s.fired.count timer.number ≤ 1 := by
  have h := sound_create.run es
  exact ⟨h.fault, fun _ hnumber => h.balanced.count hnumber, h.handles,
    fun timer htimer hrepeat => (h.once timer htimer hrepeat).1⟩

/-- From `s` on, the timers of `s` that do not run neither run again nor fire. -/
structure Later (s t : TimerController) : Prop where
  nextTimer : s.nextTimer ≤ t.nextTimer
  runs : ∀ number < s.nextTimer, t.Runs number → s.Runs number
  fired : ∀ number < s.nextTimer, ¬ s.Runs number →
    t.fired.count number = s.fired.count number

namespace Later

variable {s t u : TimerController}

theorem refl (s : TimerController) : Later s s :=
  ⟨Nat.le_refl _, fun _ _ hruns => hruns, fun _ _ _ => rfl⟩

theorem trans (h : Later s t) (h' : Later t u) : Later s u where
  nextTimer := h.nextTimer.trans h'.nextTimer
  runs number hnumber hruns :=
    h.runs number hnumber (h'.runs number (hnumber.trans_le h.nextTimer) hruns)
  fired number hnumber hstopped :=
    (h'.fired number (hnumber.trans_le h.nextTimer) fun hruns =>
      hstopped (h.runs number hnumber hruns)).trans (h.fired number hnumber hstopped)

theorem stopEx (h : Sound s) {timer : Timer} (htimer : timer ∈ s.timers) :
    Later s (s.stopEx timer) := by
  have hsame := sameTimers_stopEx s timer
  refine ⟨hsame.nextTimer.ge, fun number _ hruns => ?_, fun _ _ _ => by rw [hsame.fired]⟩
  by_cases hrunning : timer.isRunning = true
  · exact ((h.runs_stopEx htimer hrunning number).mp hruns).1
  · rw [TimerController.stopEx, if_pos (by simpa using hrunning)] at hruns
    exact hruns

theorem of_running (s : TimerController) (running : Bool) :
    Later s { s with running := running } :=
  ⟨Nat.le_refl _, fun _ _ hruns => hruns, fun _ _ _ => rfl⟩

theorem shutdown (h : Sound s) : Later s s.shutdown.1 :=
  (h.shutdown (fun _ _ ht htimer hbefore => hbefore.trans (stopEx ht htimer)) (refl s)
    (of_running s false)).2

theorem start (s : TimerController) (handle : Option ℕ) (isRepeat acquired added started : Bool) :
    Later s (s.start handle isRepeat acquired added started) := by
  unfold TimerController.start
  split
  · exact refl s
  split
  · exact refl s
  split
  · exact refl s
  refine ⟨Nat.le_succ _, fun number hnumber hruns => ?_, fun _ _ _ => rfl⟩
  obtain ⟨timer, htimer, heq, hrunning⟩ := hruns
  rcases List.mem_append.mp htimer with hbefore | hlast
  · exact ⟨timer, hbefore, heq, hrunning⟩
  · obtain rfl := List.mem_singleton.mp hlast
    exact absurd hnumber (by rw [← heq]; exact Nat.lt_irrefl _)

theorem stop (h : Sound s) (handle : ℕ) : Later s (s.stop handle) := by
  rcases h.stop_eq handle with ⟨hstop, -⟩ | ⟨timer, htimer, -, -, hstop, -⟩
  · rw [hstop]
    exact refl s
  · rw [hstop]
    exact stopEx h htimer

theorem timeout (h : Sound s) (number : ℕ) : Later s (s.timeout number) := by
  cases hfind : s.timers.find? fun timer => timer.number = number with
  | none =>
      rw [TimerController.timeout, hfind]
      exact refl s
  | some timer =>
      have htimer := List.mem_of_find?_eq_some hfind
      obtain rfl : timer.number = number := by simpa using List.find?_some hfind
      rw [h.timeout_eq htimer]
      by_cases hrunning : timer.isRunning = true
      · have hstopped : Later s (if timer.isRepeat then s else s.stopEx timer) := by
          split
          · exact refl s
          · exact stopEx h htimer
        rw [if_pos hrunning]
        refine ⟨hstopped.nextTimer, hstopped.runs, fun other hother hends => ?_⟩
        have hne : other ≠ timer.number := fun heq =>
          hends (heq ▸ ⟨timer, htimer, rfl, hrunning⟩)
        rw [List.count_append, hstopped.fired other hother hends,
          List.count_eq_zero.mpr fun hmem => hne (List.mem_singleton.mp hmem), Nat.add_zero]
      · rw [if_neg hrunning]
        exact refl s

theorem stopComplete (s : TimerController) (number : ℕ) : Later s (s.stopComplete number).1 := by
  unfold TimerController.stopComplete
  split
  · exact refl s
  split
  · exact refl s
  refine ⟨Nat.le_refl _, fun other _ hruns => ?_, fun _ _ _ => rfl⟩
  obtain ⟨timer, htimer, hrest⟩ := hruns
  exact ⟨timer, (List.mem_filter.mp htimer).1, hrest⟩

theorem step (h : Sound s) (event : TimerEvent) : Later s (s.step event) := by
  cases event with
  | startup => exact of_running s true
  | shutdown => exact shutdown h
  | start handle isRepeat acquired added started =>
      exact start s handle isRepeat acquired added started
  | stop handle => exact stop h handle
  | timeout number => exact timeout h number
  | stopComplete number => exact stopComplete s number

theorem run (h : Sound s) (es : List TimerEvent) :
    Later s (Machine.run TimerController.step s es) := by
  induction es generalizing s with
  | nil => exact refl s
  | cons event es ih => exact (step h event).trans (ih (h.step event))

end Later

/-- A handle is passed to a start only while it points to no timer. -/
def HandleFree (s : TimerController) : TimerEvent → Prop
  | .start (some handle) _ _ _ _ => s.handles handle = none
  | _ => True

instance decidableHandleFree (s : TimerController) (event : TimerEvent) :
    Decidable (HandleFree s event) := by
  unfold HandleFree
  split <;> infer_instance

/-- The handle of a timer that runs points to it. -/
def Held (s : TimerController) : Prop :=
  ∀ timer ∈ s.timers, timer.isRunning = true → ∀ handle, timer.handle = some handle →
    s.handles handle = some timer.number

namespace Held

variable {s : TimerController}

theorem stopEx (h : Sound s) {timer : Timer} (htimer : timer ∈ s.timers) (held : Held s) :
    Held (s.stopEx timer) := by
  by_cases hrunning : timer.isRunning = true
  · intro other hother hruns handle hhandle
    rcases (h.mem_stopEx htimer hrunning).mp hother with rfl | ⟨hmem, hne⟩
    · cases hruns
    · have hpoints := held other hmem hruns handle hhandle
      rw [TimerController.stopEx, hrunning]
      simp only [Bool.not_true, Bool.false_eq_true, if_false]
      cases hown : timer.handle with
      | none => exact hpoints
      | some own =>
          dsimp only
          rw [Function.update_of_ne, hpoints]
          rintro rfl
          rw [held timer htimer hrunning handle hown] at hpoints
          exact hne (Option.some.inj hpoints).symm
  · rw [TimerController.stopEx, if_pos (by simpa using hrunning)]
    exact held

theorem start (held : Held s) (handle : Option ℕ) (isRepeat acquired added started : Bool)
    (hfree : HandleFree s (.start handle isRepeat acquired added started)) :
    Held (s.start handle isRepeat acquired added started) := by
  unfold TimerController.start
  split
  · exact held
  split
  · exact held
  split
  · exact held
  intro timer htimer hruns own hown
  rcases List.mem_append.mp htimer with hbefore | hlast
  · have hpoints := held timer hbefore hruns own hown
    cases handle with
    | none => exact hpoints
    | some handle =>
        dsimp only
        rw [Function.update_of_ne, hpoints]
        rintro rfl
        rw [HandleFree, hpoints] at hfree
        cases hfree
  · obtain rfl := List.mem_singleton.mp hlast
    dsimp only at hown
    rw [hown]
    exact Function.update_self _ _ _

theorem timeout (h : Sound s) (held : Held s) (number : ℕ) : Held (s.timeout number) := by
  cases hfind : s.timers.find? fun timer => timer.number = number with
  | none =>
      rw [TimerController.timeout, hfind]
      exact held
  | some timer =>
      have htimer := List.mem_of_find?_eq_some hfind
      obtain rfl : timer.number = number := by simpa using List.find?_some hfind
      rw [h.timeout_eq htimer]
      split
      · have hstopped : Held (if timer.isRepeat then s else s.stopEx timer) := by
          split
          · exact held
          · exact stopEx h htimer held
        exact hstopped
      · exact held

theorem stopComplete (held : Held s) (number : ℕ) : Held (s.stopComplete number).1 := by
  unfold TimerController.stopComplete
  split
  · exact held
  split
  · exact held
  intro timer htimer
  exact held timer (List.mem_filter.mp htimer).1

theorem step (h : Sound s) (held : Held s) (event : TimerEvent) (hfree : HandleFree s event) :
    Held (s.step event) := by
  cases event with
  | startup => exact held
  | shutdown => exact (h.shutdown (fun _ _ ht htimer => stopEx ht htimer) held held).2
  | start handle isRepeat acquired added started =>
      exact start held handle isRepeat acquired added started hfree
  | stop handle =>
      change Held (s.stop handle)
      rcases h.stop_eq handle with ⟨hstop, -⟩ | ⟨timer, htimer, -, -, hstop, -⟩
      · rw [hstop]
        exact held
      · rw [hstop]
        exact stopEx h htimer held
  | timeout number => exact timeout h held number
  | stopComplete number => exact stopComplete held number

end Held

theorem not_runs_stop {s : TimerController} (h : Sound s) (held : Held s) {handle : ℕ}
    {timer : Timer} (hstarted : timer ∈ s.started) (hhandle : timer.handle = some handle) :
    ¬ (s.stop handle).Runs timer.number := by
  have hbefore : s.Runs timer.number → s.handles handle = some timer.number := by
    rintro ⟨other, hother, hnumber, hruns⟩
    obtain rfl := h.eq_of_started hstarted (h.recorded other hother hruns) hnumber
    exact held other hother hruns handle hhandle
  intro hruns
  have hold := hbefore ((Later.stop h handle).runs _ (h.lt_of_started hstarted) hruns)
  rcases h.stop_eq handle with ⟨-, hnone⟩ | ⟨stopped, hmem, hpoints, hrunning, hstop, -⟩
  · rw [hnone] at hold
    cases hold
  · rw [hstop, h.runs_stopEx hmem hrunning] at hruns
    rw [hpoints] at hold
    exact hruns.2 (Option.some.inj hold).symm

theorem fired_stop {s : TimerController} (h : Sound s) (handle : ℕ) :
    (s.stop handle).fired = s.fired := by
  rcases h.stop_eq handle with ⟨hstop, -⟩ | ⟨timer, -, -, -, hstop, -⟩
  · rw [hstop]
  · rw [hstop, (sameTimers_stopEx s timer).fired]

/-- As long as a handle that points to a timer is not given to another one, a stop of the handle is
the end of all the timers that were started with it: none of them fires again, whatever follows. -/
theorem stop_silences (es : List TimerEvent) (hes : Machine.Along step HandleFree create es)
    (handle : ℕ) (fs : List TimerEvent) :
    ∀ timer ∈ (Machine.run step create es).started, timer.handle = some handle →
      (Machine.run step create (es ++ .stop handle :: fs)).fired.count timer.number =
        (Machine.run step create es).fired.count timer.number := by
  intro timer hstarted hhandle
  obtain ⟨h, held⟩ : Sound (Machine.run step create es) ∧ Held (Machine.run step create es) :=
    Machine.invariant_run (I := fun s => Sound s ∧ Held s)
      (fun s event hs hfree => ⟨hs.1.step event, hs.2.step hs.1 event hfree⟩)
      ⟨sound_create, by simp [Held, create]⟩ hes
  rw [Machine.run_append, Machine.run_cons]
  have hlater := Later.run (h.stop handle) fs
  have hnext := (h.lt_of_started hstarted).trans_le (Later.stop h handle).nextTimer
  rw [← fired_stop h handle]
  exact hlater.fired timer.number hnext (not_runs_stop h held hstarted hhandle)

/-- A timer that repeats is stopped after it has fired, and its handle is used again. -/
theorem stop_silences_sample :
    let es : List TimerEvent := [.startup, .start (some 3) true true true true, .timeout 0]
    let fs : List TimerEvent := [.start (some 3) false true true true, .timeout 0, .timeout 1]
    ∀ timer ∈ (Machine.run step create es).started, timer.handle = some 3 →
      (Machine.run step create (es ++ .stop 3 :: fs)).fired.count timer.number =
        (Machine.run step create es).fired.count timer.number :=
  stop_silences _ (by decide) 3 _

end TimerController

end Platform

end PomeloUdp
