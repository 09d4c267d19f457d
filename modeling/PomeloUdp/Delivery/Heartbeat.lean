import PomeloUdp.Platform.Timer
import PomeloUdp.Utils.List

/-!
# Heartbeats

The endpoints of a socket share one heartbeat. It has the list of the scheduled endpoints and one
timer, which runs while the list is not empty; each firing submits the heartbeat task of every
endpoint of the list, which sends a ping. The timers are those of the platform, where others start
and stop timers with handles of their own (`heartbeat.c`).
-/

namespace PomeloUdp

namespace Delivery

open Machine Platform Utils

/-- `timer_handle` of the heartbeat. The others have the handles from 1 on. -/
def timerHandle : ℕ := 0

/-- `pomelo_delivery_heartbeat_t`, with the timers of the platform. -/
structure Heartbeat where
  timers : TimerController
  endpoints : PomeloList ℕ
  /-- Whether the `entry` of the heartbeat handle of an endpoint is set. -/
  entries : ℕ → Bool
  /-- The timers whose entry is `pomelo_delivery_heartbeat_run`. -/
  own : List ℕ
  /-- The endpoints whose heartbeat task was submitted. No function reads it. -/
  beats : List ℕ

/-- What happens to a heartbeat. -/
inductive HeartbeatEvent where
  /-- The answers of the timer pool, of the list of timers, of `uv_timer_start` and of the list of
  endpoints. -/
  | schedule (endpoint : ℕ) (acquired added started pushed : Bool)
  | unschedule (endpoint : ℕ)
  | cleanup
  /-- What the loop and the other users of timers do. -/
  | timer (event : TimerEvent)
  deriving DecidableEq, Repr

/-- An event of the timers that comes from the loop or from the others. -/
def others : TimerEvent → TimerEvent
  | .start handle isRepeat acquired added started =>
      .start (handle.map (· + 1)) isRepeat acquired added started
  | .stop handle => .stop (handle + 1)
  | event => event

namespace Heartbeat

/-- A heartbeat that was initialised. -/
def create : Heartbeat where
  timers := .create
  endpoints := .create
  entries := fun _ => false
  own := []
  beats := []

/-- `pomelo_platform_timer_stop` of the handle of the heartbeat. -/
def stopTimer (s : Heartbeat) : Heartbeat := { s with timers := s.timers.stop timerHandle }

/-- `pomelo_platform_timer_start` with the handle of the heartbeat, when it succeeds. -/
def startTimer (s : Heartbeat) : Heartbeat :=
  { s with
    timers := s.timers.start (some timerHandle) true true true true
    own := s.own ++ [s.timers.nextTimer] }

/-- `pomelo_list_push_back` of an endpoint, whose handle is set. -/
def push (s : Heartbeat) (endpoint : ℕ) : Heartbeat :=
  { s with
    endpoints := s.endpoints.pushBack endpoint
    entries := Function.update s.entries endpoint true }

/-- `pomelo_delivery_heartbeat_schedule`. -/
def schedule (s : Heartbeat) (endpoint : ℕ) (acquired added started pushed : Bool) : Heartbeat :=
  if s.entries endpoint then s
  else if s.endpoints.elements.isEmpty then
    if acquired && added && started then
      if pushed then s.startTimer.push endpoint else s.startTimer.stopTimer
    else s
  else if pushed then s.push endpoint
  else s

/-- `pomelo_delivery_heartbeat_unschedule`. The entry of the endpoint is the one with it. -/
def unschedule (s : Heartbeat) (endpoint : ℕ) : Heartbeat :=
  if !s.entries endpoint then s
  else
    let s := { s with
      endpoints := s.endpoints.removeFirst fun other => other = endpoint
      entries := Function.update s.entries endpoint false }
    if s.endpoints.elements.isEmpty then s.stopTimer else s

/-- `pomelo_delivery_heartbeat_cleanup`. -/
def cleanup (s : Heartbeat) : Heartbeat :=
  { s.stopTimer with
    endpoints := s.endpoints.popAll
    entries := fun endpoint =>
      if endpoint ∈ s.endpoints.elements then false else s.entries endpoint }

/-- The loop of `pomelo_delivery_heartbeat_run`: the endpoints whose task is submitted. -/
def beatLoop (endpoints : PomeloList ℕ) : ℕ → ListIterator ℕ → List ℕ
  | 0, _ => []
  | fuel + 1, it =>
      match it.advance endpoints with
      | none => []
      | some (endpoint, it) => endpoint :: beatLoop endpoints fuel it

/-- `pomelo_delivery_heartbeat_run`. -/
def beat (s : Heartbeat) : Heartbeat :=
  { s with
    beats := s.beats ++
      beatLoop s.endpoints (s.endpoints.elements.length + 1) (ListIterator.init s.endpoints) }

/-- Whether the loop calls the entry of a timer of the heartbeat. -/
def fires (s : Heartbeat) : HeartbeatEvent → Bool
  | .timer (.timeout number) =>
      ((s.timers.timers.find? fun timer => timer.number = number).any Timer.isRunning) &&
        decide (number ∈ s.own)
  | _ => false

/-- One step. -/
def step (s : Heartbeat) (event : HeartbeatEvent) : Heartbeat :=
  match event with
  | .schedule endpoint acquired added started pushed =>
      s.schedule endpoint acquired added started pushed
  | .unschedule endpoint => s.unschedule endpoint
  | .cleanup => s.cleanup
  | .timer timerEvent =>
      let next := { s with timers := s.timers.step (others timerEvent) }
      if s.fires event then next.beat else next

/-- The firings of the timer of the heartbeat at which an endpoint is scheduled. -/
def firings (endpoint : ℕ) : Heartbeat → List HeartbeatEvent → ℕ
  | _, [] => 0
  | s, event :: es =>
      (if s.fires event && s.entries endpoint then 1 else 0) + firings endpoint (s.step event) es

end Heartbeat

section Timers

open TimerController

variable {t : TimerController} {own : List ℕ} {timer : Timer}

/-- The timers of the heartbeat are the running ones with its handle, they repeat, and the handle
points to them. -/
structure Owned (t : TimerController) (own : List ℕ) : Prop where
  sound : Sound t
  below : ∀ number ∈ own, number < t.nextTimer
  own_iff : ∀ timer ∈ t.timers, timer.isRunning = true →
    (timer.handle = some timerHandle ↔ timer.number ∈ own)
  held : ∀ timer ∈ t.timers, timer.isRunning = true → timer.handle = some timerHandle →
    t.handles timerHandle = some timer.number
  repeats : ∀ timer ∈ t.timers, timer.number ∈ own → timer.isRepeat = true

theorem owned_create : Owned TimerController.create [] where
  sound := sound_create
  below := by simp
  own_iff := by simp [TimerController.create]
  held := by simp [TimerController.create]
  repeats := by simp

namespace Owned

theorem runs_iff (h : Owned t own) (number : ℕ) :
    number ∈ own ∧ t.Runs number ↔ t.handles timerHandle = some number := by
  constructor
  · rintro ⟨hown, timer, htimer, rfl, hrunning⟩
    exact h.held timer htimer hrunning ((h.own_iff timer htimer hrunning).mpr hown)
  · intro hhandle
    obtain ⟨timer, htimer, rfl, hown, hrunning⟩ := h.sound.handles timerHandle number hhandle
    exact ⟨(h.own_iff timer htimer hrunning).mp hown, timer, htimer, rfl, hrunning⟩

theorem stopEx (h : Owned t own) (htimer : timer ∈ t.timers) : Owned (t.stopEx timer) own := by
  by_cases hrunning : timer.isRunning = true
  · have hmem : ∀ other, other ∈ (t.stopEx timer).timers ↔
        other = TimerController.stopTimer timer ∨
          other ∈ t.timers ∧ other.number ≠ timer.number :=
      fun _ => h.sound.mem_stopEx htimer hrunning
    refine ⟨h.sound.stopEx htimer, ?_, fun other hother hruns => ?_,
      fun other hother hruns hown => ?_, fun other hother hown => ?_⟩
    · rw [(sameTimers_stopEx t timer).nextTimer]
      exact h.below
    · rcases (hmem other).mp hother with rfl | ⟨hbefore, -⟩
      · cases hruns
      · exact h.own_iff other hbefore hruns
    · rcases (hmem other).mp hother with rfl | ⟨hbefore, hne⟩
      · cases hruns
      · have hpoints := h.held other hbefore hruns hown
        rw [TimerController.stopEx, hrunning]
        simp only [Bool.not_true, Bool.false_eq_true, if_false]
        cases hhandle : timer.handle with
        | none => exact hpoints
        | some handle =>
            dsimp only
            rw [Function.update_of_ne, hpoints]
            rintro rfl
            rw [h.held timer htimer hrunning hhandle] at hpoints
            exact hne (Option.some.inj hpoints).symm
    · rcases (hmem other).mp hother with rfl | ⟨hbefore, -⟩
      · exact h.repeats timer htimer hown
      · exact h.repeats other hbefore hown
  · rw [TimerController.stopEx, if_pos (by simpa using hrunning)]
    exact h

theorem handles_stopEx (h : Owned t own) (htimer : timer ∈ t.timers)
    (hother : timer.number ∉ own) :
    (t.stopEx timer).handles timerHandle = t.handles timerHandle := by
  by_cases hrunning : timer.isRunning = true
  · have hne : timer.handle ≠ some timerHandle := fun hown =>
      hother ((h.own_iff timer htimer hrunning).mp hown)
    rw [TimerController.stopEx, hrunning]
    simp only [Bool.not_true, Bool.false_eq_true, if_false]
    cases hhandle : timer.handle with
    | none => rfl
    | some handle =>
        dsimp only
        rw [Function.update_of_ne]
        rintro rfl
        exact hne hhandle
  · rw [TimerController.stopEx, if_pos (by simpa using hrunning)]

theorem of_running (h : Owned t own) (running : Bool) : Owned { t with running := running } own :=
  ⟨h.sound.of_running running, h.below, h.own_iff, h.held, h.repeats⟩

theorem startOther (h : Owned t own) (handle : Option ℕ) (isRepeat acquired added started : Bool) :
    Owned (t.start (handle.map (· + 1)) isRepeat acquired added started) own ∧
      (t.start (handle.map (· + 1)) isRepeat acquired added started).handles timerHandle =
        t.handles timerHandle := by
  have hsound := h.sound.start (handle.map (· + 1)) isRepeat acquired added started
  have hhandle : handle.map (· + 1) ≠ some timerHandle := by
    cases handle <;> simp [timerHandle]
  revert hsound hhandle
  generalize handle.map (· + 1) = other
  intro hsound hhandle
  by_cases hall : (acquired && added && started) = true
  swap
  · have hrefused : t.start other isRepeat acquired added started = t := by
      unfold TimerController.start
      revert hall
      cases acquired <;> cases added <;> cases started <;> simp
    rw [hrefused]
    exact ⟨h, rfl⟩
  obtain ⟨⟨rfl, rfl⟩, rfl⟩ : (acquired = true ∧ added = true) ∧ started = true := by
    simpa using hall
  have hpoints : (t.start other isRepeat true true true).handles timerHandle =
      t.handles timerHandle := by
    cases other with
    | none => rfl
    | some handle => exact Function.update_of_ne (fun heq => hhandle (congrArg some heq.symm)) _ _
  have hnew : t.nextTimer ∉ own := fun hmem => Nat.lt_irrefl _ (h.below _ hmem)
  refine ⟨⟨hsound, fun number hnumber => Nat.lt_succ_of_lt (h.below number hnumber),
    fun timer htimer hruns => ?_, fun timer htimer hruns hown => ?_,
    fun timer htimer hown => ?_⟩, hpoints⟩
  · rcases List.mem_append.mp htimer with hbefore | hlast
    · exact h.own_iff timer hbefore hruns
    · obtain rfl := List.mem_singleton.mp hlast
      exact ⟨fun heq => absurd heq hhandle, fun hmem => absurd hmem hnew⟩
  · rcases List.mem_append.mp htimer with hbefore | hlast
    · exact hpoints.trans (h.held timer hbefore hruns hown)
    · obtain rfl := List.mem_singleton.mp hlast
      exact absurd hown hhandle
  · rcases List.mem_append.mp htimer with hbefore | hlast
    · exact h.repeats timer hbefore hown
    · obtain rfl := List.mem_singleton.mp hlast
      exact absurd hown hnew

theorem startOwn (h : Owned t own) (hfree : t.handles timerHandle = none) :
    Owned (t.start (some timerHandle) true true true true) (own ++ [t.nextTimer]) ∧
      (t.start (some timerHandle) true true true true).handles timerHandle = some t.nextTimer := by
  have hsound := h.sound.start (some timerHandle) true true true true
  have hpoints : (t.start (some timerHandle) true true true true).handles timerHandle =
      some t.nextTimer := by simp [TimerController.start]
  refine ⟨⟨hsound, fun number hnumber => ?_, fun timer htimer hruns => ?_,
    fun timer htimer hruns hown => ?_, fun timer htimer hown => ?_⟩, hpoints⟩
  · rcases List.mem_append.mp hnumber with hbefore | hlast
    · exact Nat.lt_succ_of_lt (h.below number hbefore)
    · rw [List.mem_singleton.mp hlast]
      exact Nat.lt_succ_self _
  · rcases List.mem_append.mp htimer with hbefore | hlast
    · have hlt := h.sound.lt_of_timers hbefore
      rw [List.mem_append, List.mem_singleton, h.own_iff timer hbefore hruns]
      exact ⟨.inl, fun hboth => hboth.resolve_right hlt.ne⟩
    · obtain rfl := List.mem_singleton.mp hlast
      simp
  · rcases List.mem_append.mp htimer with hbefore | hlast
    · have hbusy := h.held timer hbefore hruns hown
      rw [hfree] at hbusy
      cases hbusy
    · obtain rfl := List.mem_singleton.mp hlast
      exact hpoints
  · rcases List.mem_append.mp htimer with hbefore | hlast
    · refine h.repeats timer hbefore ((List.mem_append.mp hown).resolve_right fun hmem => ?_)
      exact (h.sound.lt_of_timers hbefore).ne (List.mem_singleton.mp hmem)
    · obtain rfl := List.mem_singleton.mp hlast
      rfl

theorem stop (h : Owned t own) (handle : ℕ) : Owned (t.stop handle) own := by
  rcases h.sound.stop_eq handle with ⟨hstop, -⟩ | ⟨timer, htimer, -, -, hstop, -⟩
  · rw [hstop]
    exact h
  · rw [hstop]
    exact h.stopEx htimer

theorem handles_stop (h : Owned t own) : (t.stop timerHandle).handles timerHandle = none := by
  rcases h.sound.stop_eq timerHandle with ⟨hstop, hnone⟩ | ⟨timer, -, -, -, -, hnone⟩
  · rw [hstop]
    exact hnone
  · exact hnone

theorem handles_stopOther (h : Owned t own) (handle : ℕ) :
    (t.stop (handle + 1)).handles timerHandle = t.handles timerHandle := by
  rcases h.sound.stop_eq (handle + 1) with ⟨hstop, -⟩ | ⟨timer, htimer, hpoints, hruns, hstop, -⟩
  · rw [hstop]
  · rw [hstop]
    refine h.handles_stopEx htimer fun hmem => ?_
    obtain ⟨found, hfound, hnumber, hhandle, -⟩ := h.sound.handles _ _ hpoints
    obtain rfl := h.sound.eq_of_number htimer hfound hnumber
    have hown := (h.own_iff found htimer hruns).mpr hmem
    rw [hhandle] at hown
    cases hown

/-- The loop calls the callback of a timer. A timer of the heartbeat goes on. -/
theorem timeout (h : Owned t own) (number : ℕ) :
    Owned (t.timeout number) own ∧
      (t.timeout number).handles timerHandle = t.handles timerHandle := by
  cases hfind : t.timers.find? fun timer => timer.number = number with
  | none =>
      rw [TimerController.timeout, hfind]
      exact ⟨h, rfl⟩
  | some timer =>
      have htimer := List.mem_of_find?_eq_some hfind
      obtain rfl : timer.number = number := by simpa using List.find?_some hfind
      have hsound := h.sound.timeout timer.number
      rw [h.sound.timeout_eq htimer] at hsound ⊢
      split at hsound
      next hruns =>
        rw [if_pos hruns]
        have hstopped : Owned (if timer.isRepeat then t else t.stopEx timer) own ∧
            (if timer.isRepeat then t else t.stopEx timer).handles timerHandle =
              t.handles timerHandle := by
          split
          · exact ⟨h, rfl⟩
          next honce =>
            exact ⟨h.stopEx htimer, h.handles_stopEx htimer fun hmem =>
              honce (h.repeats timer htimer hmem)⟩
        exact ⟨⟨hsound, hstopped.1.below, hstopped.1.own_iff, hstopped.1.held,
          hstopped.1.repeats⟩, hstopped.2⟩
      next hstopped =>
        rw [if_neg hstopped]
        exact ⟨h, rfl⟩

theorem stopComplete (h : Owned t own) (number : ℕ) :
    Owned (t.stopComplete number).1 own ∧
      (t.stopComplete number).1.handles timerHandle = t.handles timerHandle := by
  have hsound := h.sound.stopComplete number
  unfold TimerController.stopComplete at hsound ⊢
  split
  · exact ⟨h, rfl⟩
  split
  · exact ⟨h, rfl⟩
  next hfind hruns =>
    rw [hfind] at hsound
    dsimp only at hsound
    rw [if_neg hruns] at hsound
    exact ⟨⟨hsound, h.below, fun other hother => h.own_iff other (List.mem_filter.mp hother).1,
      fun other hother => h.held other (List.mem_filter.mp hother).1,
      fun other hother => h.repeats other (List.mem_filter.mp hother).1⟩, rfl⟩

/-- What the loop and the others do. Only a shutdown of the timers takes the timer away. -/
theorem others (h : Owned t own) (event : TimerEvent) :
    Owned (t.step (others event)) own ∧ (event ≠ .shutdown →
      (t.step (Delivery.others event)).handles timerHandle = t.handles timerHandle) := by
  cases event with
  | startup => exact ⟨h.of_running true, fun _ => rfl⟩
  | shutdown =>
      refine ⟨?_, fun hne => absurd rfl hne⟩
      exact (h.sound.shutdown (P := fun t => Owned t own)
        (fun _ _ _ htimer hbefore => hbefore.stopEx htimer) h (h.of_running false)).2
  | start handle isRepeat acquired added started =>
      have hstart := h.startOther handle isRepeat acquired added started
      exact ⟨hstart.1, fun _ => hstart.2⟩
  | stop handle => exact ⟨h.stop (handle + 1), fun _ => h.handles_stopOther handle⟩
  | timeout number => exact ⟨(h.timeout number).1, fun _ => (h.timeout number).2⟩
  | stopComplete number => exact ⟨(h.stopComplete number).1, fun _ => (h.stopComplete number).2⟩

theorem handles_others_none (h : Owned t own) (hnone : t.handles timerHandle = none)
    (event : TimerEvent) : (t.step (Delivery.others event)).handles timerHandle = none := by
  cases hhandle : (t.step (Delivery.others event)).handles timerHandle with
  | none => rfl
  | some number =>
      obtain ⟨hown, hruns⟩ := ((h.others event).1.runs_iff number).mpr hhandle
      have hbefore := (Later.step h.sound (Delivery.others event)).runs number (h.below number hown)
        hruns
      rw [(h.runs_iff number).mp ⟨hown, hbefore⟩] at hnone
      cases hnone

end Owned

end Timers

namespace Heartbeat

variable {s : Heartbeat}

/-- The list of endpoints, their handles and the timer of a heartbeat agree. -/
structure Kept (s : Heartbeat) : Prop where
  owned : Owned s.timers s.own
  nodup : s.endpoints.elements.Nodup
  entries : ∀ endpoint, s.entries endpoint = true ↔ endpoint ∈ s.endpoints.elements
  empty : s.endpoints.elements = [] → s.timers.handles timerHandle = none

theorem kept_create : Kept create where
  owned := owned_create
  nodup := List.nodup_nil
  entries := by simp [create]
  empty := fun _ => rfl

theorem beatLoop_init (endpoints : PomeloList ℕ) :
    beatLoop endpoints (endpoints.elements.length + 1) (ListIterator.init endpoints) =
      endpoints.elements := by
  have hloop : ∀ (rest : List ℕ) (it : ListIterator ℕ), it.next = rest →
      it.modCount = endpoints.modCount → beatLoop endpoints (rest.length + 1) it = rest := by
    intro rest
    induction rest with
    | nil =>
        intro it hnext _
        rw [beatLoop, ListIterator.advance_nil hnext]
    | cons endpoint rest ih =>
        intro it hnext hcount
        rw [beatLoop, ListIterator.advance_cons hcount hnext]
        exact congrArg (endpoint :: ·) (ih _ rfl hcount)
  exact hloop _ _ rfl rfl

namespace Kept

theorem push (h : Owned s.timers s.own) (hnodup : s.endpoints.elements.Nodup)
    (hentries : ∀ endpoint, s.entries endpoint = true ↔ endpoint ∈ s.endpoints.elements)
    {endpoint : ℕ} (hentry : ¬ s.entries endpoint = true) : Kept (s.push endpoint) := by
  rw [hentries] at hentry
  refine ⟨h, ?_, fun other => ?_, fun hempty => ?_⟩
  · exact List.nodup_append.mpr ⟨hnodup, List.nodup_singleton _, fun a ha b hb heq =>
      hentry (by rwa [← List.mem_singleton.mp hb, ← heq])⟩
  · simp only [Heartbeat.push, PomeloList.pushBack_elements, List.mem_append, List.mem_singleton]
    by_cases heq : other = endpoint
    · simp [heq]
    · rw [Function.update_of_ne heq, hentries]
      simp [heq]
  · exact absurd hempty (by simp [Heartbeat.push])

theorem schedule (h : Kept s) (endpoint : ℕ) (acquired added started pushed : Bool) :
    Kept (s.schedule endpoint acquired added started pushed) := by
  unfold Heartbeat.schedule
  split
  · exact h
  next hentry =>
    split
    next hempty =>
      obtain ⟨howned, -⟩ := h.owned.startOwn (h.empty (List.isEmpty_iff.mp hempty))
      split
      · split
        · exact push (s := s.startTimer) howned h.nodup h.entries hentry
        · exact ⟨howned.stop timerHandle, h.nodup, h.entries, fun _ => howned.handles_stop⟩
      · exact h
    next =>
      split
      · exact push h.owned h.nodup h.entries hentry
      · exact h

theorem unschedule (h : Kept s) (endpoint : ℕ) : Kept (s.unschedule endpoint) := by
  have herase : (s.endpoints.removeFirst fun other => other = endpoint).elements =
      s.endpoints.elements.erase endpoint := (List.erase_eq_eraseP' _ _).symm
  have hnodup : (s.endpoints.elements.erase endpoint).Nodup := h.nodup.erase endpoint
  have hentries : ∀ other, Function.update s.entries endpoint false other = true ↔
      other ∈ s.endpoints.elements.erase endpoint := by
    intro other
    rw [h.nodup.mem_erase_iff]
    by_cases heq : other = endpoint
    · simp [heq]
    · rw [Function.update_of_ne heq, h.entries]
      simp [heq]
  unfold Heartbeat.unschedule
  split
  · exact h
  · dsimp only
    rw [herase]
    split
    · refine ⟨h.owned.stop timerHandle, ?_, fun other => ?_, fun _ => h.owned.handles_stop⟩
      · rw [← herase] at hnodup
        exact hnodup
      · rw [← herase] at hentries
        exact hentries other
    next hleft =>
      refine ⟨h.owned, ?_, fun other => ?_, fun hempty => ?_⟩
      · rw [← herase] at hnodup
        exact hnodup
      · rw [← herase] at hentries
        exact hentries other
      · rw [herase] at hempty
        exact absurd (List.isEmpty_iff.mpr hempty) hleft

theorem cleanup (h : Kept s) : Kept s.cleanup := by
  refine ⟨h.owned.stop timerHandle, List.nodup_nil, fun endpoint => ?_,
    fun _ => h.owned.handles_stop⟩
  simp only [Heartbeat.cleanup, Heartbeat.stopTimer, PomeloList.popAll_elements, List.not_mem_nil,
    iff_false]
  by_cases hmem : endpoint ∈ s.endpoints.elements
  · simp [hmem]
  · rw [if_neg hmem, h.entries]
    exact hmem

theorem beat (h : Kept s) : Kept s.beat := ⟨h.owned, h.nodup, h.entries, h.empty⟩

theorem step (h : Kept s) (event : HeartbeatEvent) : Kept (s.step event) := by
  cases event with
  | schedule endpoint acquired added started pushed =>
      exact h.schedule endpoint acquired added started pushed
  | unschedule endpoint => exact h.unschedule endpoint
  | cleanup => exact h.cleanup
  | timer event =>
      have hnext : Kept { s with timers := s.timers.step (others event) } :=
        ⟨(h.owned.others event).1, h.nodup, h.entries, fun hempty =>
          h.owned.handles_others_none (h.empty hempty) event⟩
      unfold Heartbeat.step
      dsimp only
      split
      · exact hnext.beat
      · exact hnext

theorem run (h : Kept s) (es : List HeartbeatEvent) : Kept (Machine.run Heartbeat.step s es) := by
  induction es generalizing s with
  | nil => exact h
  | cons event es ih => exact ih (h.step event)

theorem count_step (h : Kept s) (endpoint : ℕ) (event : HeartbeatEvent) :
    (s.step event).beats.count endpoint =
      s.beats.count endpoint + if s.fires event && s.entries endpoint then 1 else 0 := by
  by_cases hfires : s.fires event = true
  · have hbeats : (s.step event).beats = s.beats ++ s.endpoints.elements := by
      cases event with
      | timer event =>
          unfold Heartbeat.step
          dsimp only
          rw [if_pos hfires, Heartbeat.beat]
          dsimp only
          rw [beatLoop_init]
      | _ => cases hfires
    rw [hbeats, List.count_append, hfires, Bool.true_and, h.nodup.count]
    simp only [h.entries]
  · have hbeats : (s.step event).beats = s.beats := by
      cases event with
      | schedule endpoint acquired added started pushed =>
          unfold Heartbeat.step Heartbeat.schedule
          dsimp only
          split_ifs <;> rfl
      | unschedule endpoint =>
          unfold Heartbeat.step Heartbeat.unschedule
          dsimp only
          split_ifs <;> rfl
      | cleanup => rfl
      | timer event =>
          unfold Heartbeat.step
          dsimp only
          rw [if_neg hfires]
    have hfalse : s.fires event = false := by simpa using hfires
    rw [hbeats, hfalse]
    simp

theorem count_run (h : Kept s) (endpoint : ℕ) (es : List HeartbeatEvent) :
    (Machine.run Heartbeat.step s es).beats.count endpoint =
      s.beats.count endpoint + firings endpoint s es := by
  induction es generalizing s with
  | nil => rfl
  | cons event es ih =>
      rw [run_cons, ih (h.step event), h.count_step, firings, Nat.add_assoc]

end Kept

/-- The timers of the platform are not shut down while an endpoint is scheduled. -/
def NoShutdown (s : Heartbeat) (event : HeartbeatEvent) : Prop :=
  event = .timer .shutdown → s.endpoints.elements = []

instance (s : Heartbeat) (event : HeartbeatEvent) : Decidable (NoShutdown s event) := by
  unfold NoShutdown
  infer_instance

/-- While endpoints are scheduled, the handle points to a timer. -/
def Beating (s : Heartbeat) : Prop :=
  s.endpoints.elements ≠ [] → s.timers.handles timerHandle ≠ none

theorem Beating.step (hb : Beating s) (h : Kept s) {event : HeartbeatEvent}
    (hno : NoShutdown s event) : Beating (s.step event) := by
  cases event with
  | schedule endpoint acquired added started pushed =>
      unfold Heartbeat.step Heartbeat.schedule
      dsimp only
      split
      · exact hb
      · split
        next hempty =>
          obtain ⟨-, hpoints⟩ := h.owned.startOwn (h.empty (List.isEmpty_iff.mp hempty))
          split
          · split
            · intro _
              rw [show (s.startTimer.push endpoint).timers.handles timerHandle = _ from hpoints]
              simp
            · exact fun hne => absurd (List.isEmpty_iff.mp hempty) hne
          · exact hb
        next hne =>
          have hpoints := hb fun hempty => hne (List.isEmpty_iff.mpr hempty)
          split
          · exact fun _ => hpoints
          · exact fun _ => hpoints
  | unschedule endpoint =>
      unfold Heartbeat.step Heartbeat.unschedule
      dsimp only
      split
      · exact hb
      · split
        next hempty => exact fun hne => absurd (List.isEmpty_iff.mp hempty) hne
        next hleft =>
          intro _
          refine hb fun hnil => hleft ?_
          rw [PomeloList.removeFirst_elements, hnil]
          rfl
  | cleanup => exact fun hne => absurd rfl hne
  | timer event =>
      have hnext : Beating { s with timers := s.timers.step (others event) } := by
        intro hne
        by_cases hshutdown : event = .shutdown
        · exact absurd (hno (congrArg _ hshutdown)) hne
        · have hsame := (h.owned.others event).2 hshutdown
          rw [show ({ s with timers := s.timers.step (others event) } : Heartbeat).timers.handles
            timerHandle = _ from hsame]
          exact hb hne
      unfold Heartbeat.step
      dsimp only
      split
      · exact hnext
      · exact hnext

/-- What a heartbeat does in every run, whatever is scheduled and unscheduled, whatever fails and
whatever else happens to the timers of the platform. An endpoint is in the list once, exactly if its
handle is set. One timer of the heartbeat runs at most, the one its handle points to, and none while
the list is empty; one does run while it is not, unless the timers were shut down under it. Each
endpoint got one heartbeat for each firing of the timer at which it was scheduled. -/
theorem heartbeats_run (es : List HeartbeatEvent) :
    let s := run step create es
    (s.endpoints.elements.Nodup ∧
      ∀ endpoint, s.entries endpoint = true ↔ endpoint ∈ s.endpoints.elements) ∧
    (∀ number, number ∈ s.own ∧ s.timers.Runs number ↔
      s.timers.handles timerHandle = some number) ∧
    (s.endpoints.elements = [] → s.timers.handles timerHandle = none) ∧
    (Along step NoShutdown create es → s.endpoints.elements ≠ [] →
      ∃ number ∈ s.own, s.timers.Runs number) ∧
    ∀ endpoint, s.beats.count endpoint = firings endpoint create es := by
  intro s
  have h : Kept s := kept_create.run es
  refine ⟨⟨h.nodup, h.entries⟩, h.owned.runs_iff, h.empty, fun hes hne => ?_, fun endpoint => ?_⟩
  · have hall : Beating s ∧ Kept s := invariant_run (I := fun s => Beating s ∧ Kept s)
      (fun s event hs hno => ⟨hs.1.step hs.2 hno, hs.2.step event⟩)
      ⟨fun hne => absurd rfl hne, kept_create⟩ hes
    obtain ⟨number, hnumber⟩ := Option.ne_none_iff_exists'.mp (hall.1 hne)
    exact ⟨number, (h.owned.runs_iff number).mpr hnumber⟩
  · exact (kept_create.count_run endpoint es).trans (Nat.zero_add _)

/-- Two endpoints, of which the first one leaves between two firings. -/
def twoEndpoints : List HeartbeatEvent :=
  [.timer .startup, .schedule 5 true true true true, .schedule 6 true true true true,
    .timer (.timeout 0), .unschedule 5, .timer (.timeout 0)]

theorem heartbeats_run_twoEndpoints :
    (run step create twoEndpoints).beats = [5, 6, 6] ∧
      ∃ number ∈ (run step create twoEndpoints).own,
        (run step create twoEndpoints).timers.Runs number :=
  ⟨by decide +kernel,
    (heartbeats_run twoEndpoints).2.2.2.1 (by decide +kernel) (by decide +kernel)⟩

/-- After a shutdown of the timers an endpoint that stays scheduled gets no heartbeat, also when
they run again and other endpoints are scheduled. -/
example : (run step create [.timer .startup, .schedule 5 true true true true, .timer .shutdown,
    .timer .startup, .schedule 6 true true true true, .timer (.timeout 0)]).beats = [] := by
  decide +kernel

end Heartbeat

end Delivery

end PomeloUdp
