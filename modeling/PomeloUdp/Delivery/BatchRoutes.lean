import Mathlib.Data.List.Nodup
import Mathlib.Tactic.Convert
import Mathlib.Tactic.Set
import PomeloUdp.Delivery.Batch

/-!
# The routes of dispatchers

A dispatcher waits in the list of its bus, is sent and acknowledged, is in the queue for its last
stage, or is behind its report. `Routed` puts every dispatcher in one of these places, and each
step moves one dispatcher from its place to the next. A bus is blocked by one dispatcher at most,
which is reliable, not cancelled and on its way.

`Routed` takes the lists of the buses as an argument, since the loop over a list writes the list
only when it ends.
-/

namespace PomeloUdp

namespace Delivery

open Base (Pipeline)

namespace Batch

variable {s s' : Batch} {n d b : ℕ} {y : BatchDispatcher}

section Routes

theorem modifyDispatcher_eq (hy : s.dispatchers d = some y)
    (f : BatchDispatcher → BatchDispatcher) :
    s.modifyDispatcher d f =
      { s with dispatchers := Function.update s.dispatchers d (some (f y)) } := by
  rw [modifyDispatcher, hy, Option.map_some]

/-- The last stage of a dispatcher, which is not running. -/
def atLast : Pipeline := ⟨2, 1, false, false, false⟩

/-- Where a dispatcher is: in the list of its bus, on its way to be sent and acknowledged, in the
queue for its last stage, or behind its report. -/
inductive Place (pending : List ℕ) (incomplete : Option ℕ) (queued : Bool) (d : ℕ)
    (y : BatchDispatcher) : Prop
  | pending (pipeline : y.pipeline = .init 2) (completing : y.completing = none)
      (kept : y.canceled = false) (timer : y.resendTimer = false) (idle : queued = false)
      (listed : d ∈ pending) : Place pending incomplete queued d y
  | sending (pipeline : y.pipeline = .init 2) (completing : y.completing = none)
      (kept : y.canceled = false)
      (moving : queued = true ∨ y.mode = .reliable ∧ y.resendTimer = true)
      (blocking : y.mode = .reliable → incomplete = some d) (unlisted : d ∉ pending) :
      Place pending incomplete queued d y
  | last (pipeline : y.pipeline = atLast) (completing : y.completing = none)
      (moving : queued = true) (unlisted : d ∉ pending) : Place pending incomplete queued d y
  | done (pipeline : y.pipeline = atLast) (completing : y.completing ≠ none)
      (idle : queued = false) (unlisted : d ∉ pending) : Place pending incomplete queued d y

/-- The reliable dispatcher that blocks a bus. -/
abbrev incomplete (s : Batch) (b : ℕ) : Option ℕ := (s.buses b).incompleteReliableDispatcher

/-- Every dispatcher is in its place, where `pending` are the lists of the buses. -/
structure Routed (pending : ℕ → List ℕ) (s : Batch) : Prop where
  place : ∀ d y, s.dispatchers d = some y →
    Place (pending y.bus) (s.incomplete y.bus) (s.queued d) d y
  queued : ∀ d, s.queued d = true → ∃ y, s.dispatchers d = some y
  listed : ∀ b, ∀ d ∈ pending b, ∃ y, s.dispatchers d = some y ∧ y.bus = b
  nodup : ∀ b, (pending b).Nodup
  blocking : ∀ b d, s.incomplete b = some d →
    ∃ y, s.dispatchers d = some y ∧ y.bus = b ∧ y.canceled = false ∧ d ∉ pending b
  fresh : ∀ d, s.nextDispatcher ≤ d → s.dispatchers d = none

/-- The lists of the buses. -/
def pendings (s : Batch) (b : ℕ) : List ℕ := (s.buses b).pendingDispatchers

variable {pending : ℕ → List ℕ} {w : BatchDispatcher} {q : Bool}

/-- The state with a dispatcher written, and whether its stage is in the queue. -/
def place (s : Batch) (d : ℕ) (o : Option BatchDispatcher) (q : Bool) : Batch :=
  { s with
    dispatchers := Function.update s.dispatchers d o
    queued := Function.update s.queued d q }

/-- What no route depends on may differ. -/
structure SameRoutes (s s' : Batch) : Prop where
  dispatchers : s'.dispatchers = s.dispatchers
  queued : s'.queued = s.queued
  incomplete : ∀ b, s'.incomplete b = s.incomplete b
  nextDispatcher : s'.nextDispatcher = s.nextDispatcher

theorem Routed.same (h : Routed pending s) (hsame : SameRoutes s s') : Routed pending s' := by
  obtain ⟨hdispatchers, hqueued, hincomplete, hnext⟩ := hsame
  refine ⟨fun d y hy => ?_, fun d hd => ?_, fun b d hd => ?_, h.nodup, fun b d hd => ?_,
    fun d hd => ?_⟩
  · rw [hdispatchers] at hy
    rw [hqueued, hincomplete]
    exact h.place d y hy
  · rw [hqueued] at hd
    rw [hdispatchers]
    exact h.queued d hd
  · rw [hdispatchers]
    exact h.listed b d hd
  · rw [hincomplete] at hd
    rw [hdispatchers]
    exact h.blocking b d hd
  · rw [hdispatchers]
    exact h.fresh d (hnext ▸ hd)

theorem Routed.move (h : Routed pending s) (hy : s.dispatchers d = some y) (hbus : w.bus = y.bus)
    (hplace : Place (pending y.bus) (s.incomplete y.bus) q d w)
    (hblocking : s.incomplete y.bus = some d → w.canceled = false) :
    Routed pending (s.place d (some w) q) := by
  have hdispatchers : ∀ d', (s.place d (some w) q).dispatchers d' =
      if d' = d then some w else s.dispatchers d' := fun d' => Function.update_apply ..
  have hqueued : ∀ d', (s.place d (some w) q).queued d' = if d' = d then q else s.queued d' :=
    fun d' => Function.update_apply ..
  refine ⟨fun d' z hz => ?_, fun d' hd' => ?_, fun b d' hd' => ?_, h.nodup, fun b d' hd' => ?_,
    fun d' hd' => ?_⟩
  · rw [hdispatchers] at hz
    rw [hqueued]
    split at hz
    · rename_i heq
      obtain rfl := Option.some.inj hz
      rw [if_pos heq, heq, hbus]
      exact hplace
    · rename_i hne
      rw [if_neg hne]
      exact h.place d' z hz
  · rw [hqueued] at hd'
    rw [hdispatchers]
    split at hd'
    · rename_i heq
      exact ⟨w, if_pos heq⟩
    · rename_i hne
      rw [if_neg hne]
      exact h.queued d' hd'
  · obtain ⟨z, hz, hzbus⟩ := h.listed b d' hd'
    rw [hdispatchers]
    split
    · rename_i heq
      subst heq
      obtain rfl := Option.some.inj (hy.symm.trans hz)
      exact ⟨w, rfl, hbus.trans hzbus⟩
    · exact ⟨z, hz, hzbus⟩
  · obtain ⟨z, hz, hzbus, hkept, hunlisted⟩ := h.blocking b d' hd'
    rw [hdispatchers]
    split
    · rename_i heq
      subst heq
      obtain rfl := Option.some.inj (hy.symm.trans hz)
      subst hzbus
      exact ⟨w, rfl, hbus, hblocking hd', hunlisted⟩
    · exact ⟨z, hz, hzbus, hkept, hunlisted⟩
  · rw [hdispatchers, if_neg]
    · exact h.fresh d' hd'
    · rintro rfl
      rw [h.fresh d' hd'] at hy
      cases hy

theorem Routed.leave (h : Routed pending s) (hy : s.dispatchers d = some y)
    (hunlisted : d ∉ pending y.bus) (hblocking : ∀ b, s.incomplete b ≠ some d) :
    Routed pending (s.place d none false) := by
  have hdispatchers : ∀ d', (s.place d none false).dispatchers d' =
      if d' = d then none else s.dispatchers d' := fun d' => Function.update_apply ..
  have hqueued : ∀ d', (s.place d none false).queued d' =
      if d' = d then false else s.queued d' := fun d' => Function.update_apply ..
  have hother : ∀ {b d'}, d' ∈ pending b → d' ≠ d := by
    rintro b d' hd' rfl
    obtain ⟨z, hz, rfl⟩ := h.listed b d' hd'
    obtain rfl := Option.some.inj (hy.symm.trans hz)
    exact hunlisted hd'
  refine ⟨fun d' z hz => ?_, fun d' hd' => ?_, fun b d' hd' => ?_, h.nodup, fun b d' hd' => ?_,
    fun d' hd' => ?_⟩
  · rw [hdispatchers] at hz
    rw [hqueued]
    split at hz
    · cases hz
    · rename_i hne
      rw [if_neg hne]
      exact h.place d' z hz
  · rw [hqueued] at hd'
    rw [hdispatchers]
    split at hd'
    · cases hd'
    · rename_i hne
      rw [if_neg hne]
      exact h.queued d' hd'
  · rw [hdispatchers, if_neg (hother hd')]
    exact h.listed b d' hd'
  · rw [hdispatchers, if_neg]
    · exact h.blocking b d' hd'
    · rintro rfl
      exact hblocking b hd'
  · rw [hdispatchers]
    split
    · rfl
    · exact h.fresh d' hd'

theorem dispatcherExecute_eq (hy : s.dispatchers d = some y) :
    s.dispatcherExecute d ⟨2, 1, false, false, false⟩ =
      s.place d (some { y with pipeline := atLast }) true := by
  unfold dispatcherExecute
  rw [modifyDispatcher_eq hy]
  rfl

theorem dispatcherNext_first (hy : s.dispatchers d = some y) (hpipeline : y.pipeline = .init 2) :
    s.dispatcherNext d = s.place d (some { y with pipeline := atLast }) true := by
  rw [← dispatcherExecute_eq hy]
  simp only [dispatcherNext, hy, hpipeline]
  rfl

theorem dispatcherNext_last (hy : s.dispatchers d = some y) (hpipeline : y.pipeline = atLast) :
    s.dispatcherNext d = s := by
  simp only [dispatcherNext, hy, hpipeline]
  rfl

theorem dispatcherFinish_first (hy : s.dispatchers d = some y)
    (hpipeline : y.pipeline = .init 2) :
    s.dispatcherFinish d = s.place d (some { y with pipeline := atLast }) true := by
  rw [← dispatcherExecute_eq hy]
  simp only [dispatcherFinish, hy, hpipeline]
  rfl

theorem dispatcherFinish_last (hy : s.dispatchers d = some y) (hpipeline : y.pipeline = atLast) :
    s.dispatcherFinish d = s := by
  simp only [dispatcherFinish, hy, hpipeline]
  rfl

@[simp] theorem place_place (s : Batch) (d : ℕ) (o o' : Option BatchDispatcher) (q q' : Bool) :
    (s.place d o q).place d o' q' = s.place d o' q' := by
  simp [place]

theorem modifyDispatcher_place (hy : s.dispatchers d = some y)
    (f : BatchDispatcher → BatchDispatcher) :
    s.modifyDispatcher d f = s.place d (some (f y)) (s.queued d) := by
  rw [modifyDispatcher_eq hy]
  simp [place]

theorem dispatchers_place (s : Batch) (d : ℕ) (o : Option BatchDispatcher) (q : Bool) :
    (s.place d o q).dispatchers d = o := Function.update_self ..

theorem queued_place (s : Batch) (d : ℕ) (o : Option BatchDispatcher) (q : Bool) :
    (s.place d o q).queued d = q := Function.update_self ..

theorem Routed.first (h : Routed pending s) (hy : s.dispatchers d = some y)
    (hpipeline : y.pipeline = .init 2) :
    y.completing = none ∧ y.canceled = false ∧
      (y.resendTimer = false ∧ s.queued d = false ∧ d ∈ pending y.bus ∨
        (s.queued d = true ∨ y.mode = .reliable ∧ y.resendTimer = true) ∧
          (y.mode = .reliable → s.incomplete y.bus = some d) ∧ d ∉ pending y.bus) := by
  cases h.place d y hy with
  | pending _ hcompleting hkept htimer hidle hlisted =>
      exact ⟨hcompleting, hkept, .inl ⟨htimer, hidle, hlisted⟩⟩
  | sending _ hcompleting hkept hmoving hblocking hunlisted =>
      exact ⟨hcompleting, hkept, .inr ⟨hmoving, hblocking, hunlisted⟩⟩
  | last hlast => rw [hlast] at hpipeline; exact absurd hpipeline (by decide)
  | done hlast => rw [hlast] at hpipeline; exact absurd hpipeline (by decide)

theorem Routed.stage (h : Routed pending s) (hy : s.dispatchers d = some y) :
    y.pipeline = .init 2 ∨ y.pipeline = atLast ∧ d ∉ pending y.bus ∧
      (s.queued d = true ↔ y.completing = none) := by
  cases h.place d y hy with
  | pending hfirst => exact .inl hfirst
  | sending hfirst => exact .inl hfirst
  | last hlast hcompleting hmoving hunlisted =>
      exact .inr ⟨hlast, hunlisted, iff_of_true hmoving hcompleting⟩
  | done hlast hcompleting hidle hunlisted =>
      exact .inr ⟨hlast, hunlisted, iff_of_false (by simp [hidle]) hcompleting⟩

theorem Routed.stayLast (h : Routed pending s) (hy : s.dispatchers d = some y)
    (hpipeline : y.pipeline = atLast) (hbus : w.bus = y.bus) (hpipeline' : w.pipeline = atLast)
    (hcompleting : w.completing = y.completing)
    (hblocking : s.incomplete y.bus = some d → w.canceled = false) :
    Routed pending (s.place d (some w) (s.queued d)) := by
  obtain hfirst | ⟨-, hunlisted, hmoving⟩ := h.stage hy
  · rw [hpipeline] at hfirst
    exact absurd hfirst (by decide)
  refine h.move hy hbus ?_ hblocking
  by_cases hnone : y.completing = none
  · exact .last hpipeline' (hcompleting.trans hnone) (hmoving.mpr hnone) hunlisted
  · refine .done hpipeline' (hcompleting ▸ hnone) ?_ hunlisted
    rw [← Bool.not_eq_true]
    exact fun hq => hnone (hmoving.mp hq)

theorem Routed.toLast (h : Routed pending s) (hy : s.dispatchers d = some y)
    (hunlisted : d ∉ pending y.bus) (hbus : w.bus = y.bus) (hpipeline : w.pipeline = atLast)
    (hcompleting : w.completing = none)
    (hblocking : s.incomplete y.bus = some d → w.canceled = false) :
    Routed pending (s.place d (some w) true) :=
  h.move hy hbus (.last hpipeline hcompleting rfl hunlisted) hblocking

theorem Routed.dispatcherFail (h : Routed pending s) (hy : s.dispatchers d = some y)
    (hmoving : y.resendTimer = true) : Routed pending (s.dispatcherFail d) := by
  unfold Batch.dispatcherFail
  rw [modifyDispatcher_place hy]
  have hkept : s.incomplete y.bus = some d → y.canceled = false := by
    intro hblocking
    obtain ⟨z, hz, -, hkept, -⟩ := h.blocking y.bus d hblocking
    obtain rfl := Option.some.inj (hy.symm.trans hz)
    exact hkept
  obtain hfirst | ⟨hlast, -, -⟩ := h.stage hy
  · have hfirst' : ({ y with failed := true } : BatchDispatcher).pipeline = .init 2 := hfirst
    rw [dispatcherFinish_first (dispatchers_place ..) hfirst', place_place]
    obtain ⟨hcompleting, -, ⟨htimer, -⟩ | ⟨-, -, hunlisted⟩⟩ := h.first hy hfirst
    · exact absurd (hmoving.symm.trans htimer) (by decide)
    · exact h.toLast hy hunlisted rfl rfl hcompleting hkept
  · have hlast' : ({ y with failed := true } : BatchDispatcher).pipeline = atLast := hlast
    rw [dispatcherFinish_last (dispatchers_place ..) hlast']
    exact h.stayLast hy hlast rfl hlast rfl hkept

theorem Routed.dispatcherResend (h : Routed pending s)
    (hmoving : (s.dispatchers d).any fun y => y.resendTimer) (sent : Bool) :
    Routed pending (s.dispatcherResend d sent) := by
  obtain ⟨y, hy, htimer⟩ := (Option.any_eq_true ..).mp hmoving
  unfold Batch.dispatcherResend
  split
  · exact h
  · exact h.dispatcherFail hy htimer

theorem Routed.dispatcherRecvAck (h : Routed pending s) (hblocking : s.incomplete b = some d)
    (index : ℕ) : Routed pending (s.dispatcherRecvAck d index) := by
  obtain ⟨y, hy, hbus, hkept, hunlisted⟩ := h.blocking b d hblocking
  subst hbus
  unfold Batch.dispatcherRecvAck
  simp only [hy]
  split
  · exact h
  split
  · exact h
  · exact h
  rw [modifyDispatcher_place hy]
  set w : BatchDispatcher := { y with
    fragments := y.fragments.set index true, ackedCounter := y.ackedCounter + 1 } with hw
  obtain hfirst | ⟨hlast, -, -⟩ := h.stage hy
  · have hfirst' : w.pipeline = .init 2 := hfirst
    obtain ⟨hcompleting, -, ⟨-, -, hlisted⟩ | ⟨hmoving, hblocks, -⟩⟩ := h.first hy hfirst
    · exact absurd hlisted hunlisted
    split
    · exact h.move hy rfl (.sending hfirst hcompleting hkept hmoving hblocks hunlisted)
        fun _ => hkept
    · rw [dispatcherNext_first (dispatchers_place ..) hfirst', place_place]
      exact h.toLast hy hunlisted rfl rfl hcompleting fun _ => hkept
  · have hlast' : w.pipeline = atLast := hlast
    have hstay : Routed pending (s.place d (some w) (s.queued d)) :=
      h.stayLast hy hlast rfl hlast' rfl fun _ => hkept
    split
    · exact hstay
    · rw [dispatcherNext_last (dispatchers_place ..) hlast']
      exact hstay

theorem Routed.recvFragmentAck (h : Routed pending s) (b : ℕ) (sequence : UInt64) (index : ℕ) :
    Routed pending (s.recvFragmentAck b sequence index) := by
  unfold Batch.recvFragmentAck
  split
  · exact h
  rename_i hblocking
  split
  · exact h.dispatcherRecvAck hblocking index
  · exact h

theorem sameRoutes_modifyBus (s : Batch) (b : ℕ) {f : BatchBus → BatchBus}
    (hf : (f (s.buses b)).incompleteReliableDispatcher = s.incomplete b) :
    SameRoutes s (s.modifyBus b f) := by
  refine ⟨rfl, rfl, fun b' => ?_, rfl⟩
  by_cases hb : b' = b
  · subst hb
    simpa [incomplete, modifyBus] using hf
  · simp [incomplete, modifyBus, hb]

theorem incomplete_modifyBus (s : Batch) (b b' : ℕ) (f : BatchBus → BatchBus) :
    (s.modifyBus b f).incomplete b' =
      if b' = b then (f (s.buses b)).incompleteReliableDispatcher else s.incomplete b' := by
  by_cases hb : b' = b
  · subst hb
    simp [incomplete, modifyBus]
  · simp [incomplete, modifyBus, hb]

theorem Routed.unblock (h : Routed pending s) (hlast : ∀ d y, s.incomplete b = some d →
      s.dispatchers d = some y → y.pipeline = atLast) {f : BatchBus → BatchBus}
    (hf : (f (s.buses b)).incompleteReliableDispatcher = none) :
    Routed pending (s.modifyBus b f) := by
  refine ⟨fun d y hy => ?_, h.queued, h.listed, h.nodup, fun b' d hd => ?_, h.fresh⟩
  · rw [incomplete_modifyBus]
    split
    · rename_i hb
      rw [hf]
      have hplace := h.place d y hy
      rw [hb] at hplace ⊢
      cases hplace with
      | pending hpipeline hcompleting hkept htimer hidle hlisted =>
          exact .pending hpipeline hcompleting hkept htimer hidle hlisted
      | sending hpipeline hcompleting hkept hmoving hblocking hunlisted =>
          refine .sending hpipeline hcompleting hkept hmoving (fun hmode => ?_) hunlisted
          have hatLast := hlast d y (hblocking hmode) hy
          rw [hpipeline] at hatLast
          exact absurd hatLast (by decide)
      | last hpipeline hcompleting hmoving hunlisted =>
          exact .last hpipeline hcompleting hmoving hunlisted
      | done hpipeline hcompleting hidle hunlisted =>
          exact .done hpipeline hcompleting hidle hunlisted
    · exact h.place d y hy
  · rw [incomplete_modifyBus] at hd
    split at hd
    · rw [hf] at hd
      cases hd
    · exact h.blocking b' d hd

/-- The first dispatcher in the list of a bus goes to another place, and may block the bus. -/
theorem Routed.takeHead {l : List ℕ} {t : Batch} (h : Routed (Function.update pending b (d :: l)) s)
    (hy : s.dispatchers d = some y) (hbus : y.bus = b) (hbus' : w.bus = b)
    (hdispatchers : t.dispatchers = s.dispatchers) (hqueued : t.queued = s.queued)
    (hnext : t.nextDispatcher = s.nextDispatcher)
    (hother : ∀ b', b' ≠ b → t.incomplete b' = s.incomplete b')
    (hblocked : t.incomplete b = s.incomplete b ∨
      s.incomplete b = none ∧ t.incomplete b = some d ∧ w.canceled = false)
    (hplace : d ∉ l → Place l (t.incomplete b) q d w) :
    Routed (Function.update pending b l) (t.place d (some w) q) := by
  have hhead : ∀ b', Function.update pending b (d :: l) b' =
      if b' = b then d :: l else pending b' := fun b' => Function.update_apply ..
  have htail : ∀ b', Function.update pending b l b' = if b' = b then l else pending b' :=
    fun b' => Function.update_apply ..
  have hnodup := h.nodup b
  rw [hhead, if_pos rfl, List.nodup_cons] at hnodup
  have hsub : ∀ {b' d'}, d' ∈ Function.update pending b l b' →
      d' ∈ Function.update pending b (d :: l) b' ∧ d' ≠ d := by
    intro b' d' hd'
    rw [htail] at hd'
    rw [hhead]
    split at hd'
    · rename_i hb
      rw [if_pos hb]
      refine ⟨List.mem_cons_of_mem _ hd', ?_⟩
      rintro rfl
      exact hnodup.1 hd'
    · rename_i hb
      rw [if_neg hb]
      refine ⟨hd', ?_⟩
      rintro rfl
      obtain ⟨z, hz, hzbus⟩ := h.listed b' d' (by rw [hhead, if_neg hb]; exact hd')
      obtain rfl := Option.some.inj (hy.symm.trans hz)
      exact hb (hzbus.symm.trans hbus)
  have hsup : ∀ {b' d'}, d' ≠ d → d' ∈ Function.update pending b (d :: l) b' →
      d' ∈ Function.update pending b l b' := by
    intro b' d' hne hmem
    rw [hhead] at hmem
    rw [htail]
    split at hmem
    · rename_i hb
      rw [if_pos hb]
      exact (List.mem_cons.mp hmem).resolve_left hne
    · rename_i hb
      rw [if_neg hb]
      exact hmem
  have hblocks : ∀ b' d', s.incomplete b' = some d' → t.incomplete b' = some d' := by
    intro b' d' hd'
    by_cases hb : b' = b
    · subst hb
      rcases hblocked with hsame | ⟨hnone, -⟩
      · exact hsame.trans hd'
      · rw [hnone] at hd'
        cases hd'
    · exact (hother b' hb).trans hd'
  have hwritten : ∀ d', (t.place d (some w) q).dispatchers d' =
      if d' = d then some w else s.dispatchers d' := by
    intro d'
    change Function.update t.dispatchers d (some w) d' = _
    rw [Function.update_apply, hdispatchers]
  have hmoved : ∀ d', (t.place d (some w) q).queued d' = if d' = d then q else s.queued d' := by
    intro d'
    change Function.update t.queued d q d' = _
    rw [Function.update_apply, hqueued]
  refine ⟨fun d' z hz => ?_, fun d' hd' => ?_, fun b' d' hd' => ?_, fun b' => ?_,
    fun b' d' hd' => ?_, fun d' hd' => ?_⟩
  · rw [hwritten] at hz
    rw [hmoved]
    change Place _ (t.incomplete z.bus) _ d' z
    by_cases hd' : d' = d
    · subst hd'
      rw [if_pos rfl] at hz
      obtain rfl := Option.some.inj hz
      rw [if_pos rfl, hbus', htail, if_pos rfl]
      exact hplace hnodup.1
    · rw [if_neg hd'] at hz
      rw [if_neg hd']
      cases h.place d' z hz with
      | pending hpipeline hcompleting hkept htimer hidle hlisted =>
          exact .pending hpipeline hcompleting hkept htimer hidle (hsup hd' hlisted)
      | sending hpipeline hcompleting hkept hmoving hblocking hunlisted =>
          exact .sending hpipeline hcompleting hkept hmoving
            (fun hmode => hblocks _ _ (hblocking hmode)) fun hlisted => hunlisted (hsub hlisted).1
      | last hpipeline hcompleting hmoving hunlisted =>
          exact .last hpipeline hcompleting hmoving fun hlisted => hunlisted (hsub hlisted).1
      | done hpipeline hcompleting hidle hunlisted =>
          exact .done hpipeline hcompleting hidle fun hlisted => hunlisted (hsub hlisted).1
  · rw [hmoved] at hd'
    rw [hwritten]
    split
    · exact ⟨w, rfl⟩
    · rename_i hne
      rw [if_neg hne] at hd'
      exact h.queued d' hd'
  · obtain ⟨hold, hne⟩ := hsub hd'
    rw [hwritten, if_neg hne]
    exact h.listed b' d' hold
  · rw [htail]
    split
    · exact hnodup.2
    · rename_i hb
      have hkept := h.nodup b'
      rwa [hhead, if_neg hb] at hkept
  · change t.incomplete b' = some d' at hd'
    have hcases : s.incomplete b' = some d' ∨ b' = b ∧ d' = d ∧ w.canceled = false := by
      by_cases hb : b' = b
      · subst hb
        rcases hblocked with hsame | ⟨-, hnew, hkept⟩
        · exact .inl (hsame.symm.trans hd')
        · exact .inr ⟨rfl, Option.some.inj (hd'.symm.trans hnew), hkept⟩
      · exact .inl ((hother b' hb).symm.trans hd')
    rw [hwritten]
    rcases hcases with hold | ⟨rfl, rfl, hkept⟩
    · obtain ⟨z, hz, hzbus, hkept, hunlisted⟩ := h.blocking b' d' hold
      have hne : d' ≠ d := by
        rintro rfl
        obtain rfl := Option.some.inj (hy.symm.trans hz)
        rw [← hzbus, hbus, hhead, if_pos rfl] at hunlisted
        exact hunlisted (List.mem_cons_self ..)
      rw [if_neg hne]
      exact ⟨z, hz, hzbus, hkept, fun hmem => hunlisted (hsub hmem).1⟩
    · rw [if_pos rfl]
      exact ⟨w, rfl, hbus', hkept, fun hmem => (hsub hmem).2 rfl⟩
  · rw [hwritten, if_neg]
    · exact h.fresh d' (hnext ▸ hd')
    · rintro rfl
      rw [h.fresh d' (hnext ▸ hd')] at hy
      cases hy

theorem Routed.head {l : List ℕ} (h : Routed (Function.update pending b (d :: l)) s) :
    ∃ y, s.dispatchers d = some y ∧ y.bus = b ∧ y.pipeline = .init 2 ∧ y.completing = none ∧
      y.canceled = false := by
  have hmem : d ∈ Function.update pending b (d :: l) b := by
    rw [Function.update_self]
    exact List.mem_cons_self ..
  obtain ⟨y, hy, rfl⟩ := h.listed b d hmem
  refine ⟨y, hy, rfl, ?_⟩
  cases h.place d y hy with
  | pending hpipeline hcompleting hkept => exact ⟨hpipeline, hcompleting, hkept⟩
  | sending _ _ _ _ _ hunlisted => exact absurd hmem hunlisted
  | last _ _ _ hunlisted => exact absurd hmem hunlisted
  | done _ _ _ hunlisted => exact absurd hmem hunlisted

theorem Routed.submit {l : List ℕ} (h : Routed (Function.update pending b (d :: l)) s)
    (hfree : s.incomplete b = none) :
    Routed (Function.update pending b l)
      ((if (s.dispatchers d).any fun y => y.mode = .reliable then
        s.modifyBus b fun bus => { bus with incompleteReliableDispatcher := some d }
      else s).dispatcherSubmit d) := by
  obtain ⟨y, hy, hbus, hpipeline, hcompleting, hkept⟩ := h.head
  have hsubmit : ∀ t : Batch, t.dispatchers d = some y →
      t.dispatcherSubmit d = t.place d (some y) true := by
    intro t ht
    unfold dispatcherSubmit dispatcherExecute
    rw [modifyDispatcher_eq ht]
    change t.place d (some { y with pipeline := .init 2 }) true = _
    rw [← hpipeline]
  by_cases hmode : y.mode = .reliable
  · rw [if_pos (by simpa [hy] using hmode)]
    set t := s.modifyBus b fun bus => { bus with incompleteReliableDispatcher := some d } with ht
    have hblocks : t.incomplete b = some d := by rw [ht, incomplete_modifyBus, if_pos rfl]
    rw [hsubmit t hy]
    refine h.takeHead hy hbus hbus rfl rfl rfl (fun b' hb => ?_) (.inr ⟨hfree, hblocks, hkept⟩) ?_
    · rw [ht, incomplete_modifyBus, if_neg hb]
    · exact fun hnew => .sending hpipeline hcompleting hkept (.inl rfl) (fun _ => hblocks) hnew
  · rw [if_neg (by simpa [hy] using hmode), hsubmit _ hy]
    refine h.takeHead hy hbus hbus rfl rfl rfl (fun _ _ => rfl) (.inl rfl) ?_
    exact fun hnew =>
      .sending hpipeline hcompleting hkept (.inl rfl) (fun h' => absurd h' hmode) hnew

theorem Routed.cancelHead {l : List ℕ} (h : Routed (Function.update pending b (d :: l)) s) :
    Routed (Function.update pending b l) (s.dispatcherCancel d) := by
  obtain ⟨y, hy, hbus, hpipeline, hcompleting, hkept⟩ := h.head
  set w : BatchDispatcher := { y with canceled := true, resendTimer := false } with hw
  have hpipeline' : w.pipeline = .init 2 := hpipeline
  have hcancel : s.dispatcherCancel d = s.place d (some { w with pipeline := atLast }) true := by
    unfold dispatcherCancel
    simp only [hy, hkept, Bool.false_eq_true, if_false]
    rw [modifyDispatcher_place hy, dispatcherFinish_first (dispatchers_place ..) hpipeline',
      place_place]
  rw [hcancel]
  refine h.takeHead hy hbus hbus rfl rfl rfl (fun _ _ => rfl) (.inl rfl) ?_
  exact fun hnew => .last rfl hcompleting rfl hnew

theorem Routed.cancelBlocking (h : Routed pending s) (hblocking : s.incomplete b = some d)
    {f : BatchBus → BatchBus} (hf : ∀ bus, (f bus).incompleteReliableDispatcher = none) :
    Routed pending ((s.dispatcherCancel d).modifyBus b f) := by
  obtain ⟨y, hy, rfl, hkept, hunlisted⟩ := h.blocking b d hblocking
  set w : BatchDispatcher := { y with canceled := true, resendTimer := false } with hw
  have hcancel : s.dispatcherCancel d = (s.place d (some w) (s.queued d)).dispatcherFinish d := by
    unfold dispatcherCancel
    simp only [hy, hkept, Bool.false_eq_true, if_false]
    rw [modifyDispatcher_place hy]
  have hfree : ∀ u : Batch, (u.modifyBus y.bus f).incomplete y.bus = none := by
    intro u
    rw [incomplete_modifyBus, if_pos rfl, hf]
  rw [hcancel]
  obtain hfirst | ⟨hlast, -, -⟩ := h.stage hy
  · -- it goes to its last stage first, and the flag is written when the bus is free
    have hfirst' : w.pipeline = .init 2 := hfirst
    rw [dispatcherFinish_first (dispatchers_place ..) hfirst', place_place]
    set w' : BatchDispatcher := { y with pipeline := atLast, resendTimer := false } with hw'
    have hmoved : Routed pending (s.place d (some w') true) :=
      h.toLast hy hunlisted rfl rfl (h.first hy hfirst).1 fun _ => hkept
    have hthere : ∀ d' z, (s.place d (some w') true).incomplete y.bus = some d' →
        (s.place d (some w') true).dispatchers d' = some z → z.pipeline = atLast := by
      intro d' z hd' hz
      obtain rfl : d = d' := Option.some.inj (hblocking.symm.trans hd')
      rw [dispatchers_place] at hz
      rw [← Option.some.inj hz]
    have hunblocked := hmoved.unblock hthere (hf _)
    have hwritten := hunblocked.stayLast (w := { w with pipeline := atLast })
      (dispatchers_place s d (some w') true) rfl rfl rfl rfl fun hblocked => by
        have hnone := hfree (s.place d (some w') true)
        exact absurd (hnone.symm.trans hblocked) (by simp)
    convert hwritten using 1
    change (s.place d (some { w with pipeline := atLast }) true).modifyBus y.bus f =
      ((s.place d (some w') true).place d (some { w with pipeline := atLast })
        ((s.place d (some w') true).queued d)).modifyBus y.bus f
    rw [place_place, queued_place]
  · have hlast' : w.pipeline = atLast := hlast
    rw [dispatcherFinish_last (dispatchers_place ..) hlast']
    have hunblocked := h.unblock (b := y.bus) (f := f) (fun d' z hd' hz => by
      obtain rfl : d = d' := Option.some.inj (hblocking.symm.trans hd')
      rw [← Option.some.inj (hy.symm.trans hz)]
      exact hlast) (hf _)
    exact hunblocked.stayLast (w := w) hy hlast rfl hlast' rfl fun hblocked =>
      absurd ((hfree s).symm.trans hblocked) (by simp)

/-- Every dispatcher is in its place. -/
abbrev OnWay (s : Batch) : Prop := Routed s.pendings s

theorem pendings_modifyBus (s : Batch) (b : ℕ) (f : BatchBus → BatchBus) :
    (s.modifyBus b f).pendings =
      Function.update s.pendings b (f (s.buses b)).pendingDispatchers := by
  funext b'
  by_cases hb : b' = b
  · subst hb
    simp [pendings, modifyBus]
  · simp [pendings, modifyBus, hb]

theorem Routed.flags (h : OnWay s) (b : ℕ) {f : BatchBus → BatchBus}
    (hlist : ∀ bus, (f bus).pendingDispatchers = bus.pendingDispatchers)
    (hincomplete : ∀ bus, (f bus).incompleteReliableDispatcher =
      bus.incompleteReliableDispatcher) : OnWay (s.modifyBus b f) := by
  have hpendings : (s.modifyBus b f).pendings = s.pendings := by
    rw [pendings_modifyBus, hlist]
    exact Function.update_eq_self ..
  rw [OnWay, hpendings]
  exact h.same (sameRoutes_modifyBus s b (hincomplete _))

theorem Routed.processSending (h : OnWay s) (b : ℕ) : OnWay (s.processSending b) := by
  unfold Batch.processSending
  split
  · exact h
  · exact h.flags b (fun _ => rfl) fun _ => rfl

theorem buses_dispatcherNext (s : Batch) (d : ℕ) : (s.dispatcherNext d).buses = s.buses := by
  unfold dispatcherNext
  split
  · rfl
  · split <;> rfl

theorem buses_dispatcherFinish (s : Batch) (d : ℕ) : (s.dispatcherFinish d).buses = s.buses := by
  unfold dispatcherFinish
  split
  · rfl
  · split <;> rfl

theorem buses_dispatcherFail (s : Batch) (d : ℕ) : (s.dispatcherFail d).buses = s.buses :=
  buses_dispatcherFinish ..

theorem buses_dispatcherCancel (s : Batch) (d : ℕ) : (s.dispatcherCancel d).buses = s.buses := by
  unfold dispatcherCancel
  split
  · rfl
  · split
    · rfl
    · exact buses_dispatcherFinish ..

theorem buses_dispatcherDispatch (s : Batch) (d : ℕ) (sent timer : Bool) :
    (s.dispatcherDispatch d sent timer).buses = s.buses := by
  unfold dispatcherDispatch
  split
  · rfl
  · split
    · exact buses_dispatcherFail s d
    · split
      · exact buses_dispatcherNext s d
      · split
        · rfl
        · exact buses_dispatcherFail s d

theorem pendings_congr (hbuses : s'.buses = s.buses) : s'.pendings = s.pendings := by
  funext b
  rw [pendings, pendings, hbuses]

theorem Routed.cancelAll {l : List ℕ} (h : Routed (Function.update pending b l) s) :
    Routed (Function.update pending b []) (l.foldl dispatcherCancel s) := by
  induction l generalizing s with
  | nil => exact h
  | cons d l ih => exact ih h.cancelHead

theorem buses_cancelAll (s : Batch) (l : List ℕ) :
    (l.foldl dispatcherCancel s).buses = s.buses := by
  induction l generalizing s with
  | nil => rfl
  | cons d l ih =>
      rw [List.foldl_cons]
      exact (ih _).trans (buses_dispatcherCancel s d)

theorem Routed.stopDispatchers (h : OnWay s) (b : ℕ) : OnWay (s.stopDispatchers b) := by
  have hlist : s.pendings = Function.update s.pendings b (s.buses b).pendingDispatchers :=
    (Function.update_eq_self ..).symm
  rw [OnWay, hlist] at h
  have hcanceled := h.cancelAll
  have hbuses := buses_cancelAll s (s.buses b).pendingDispatchers
  unfold Batch.stopDispatchers
  dsimp only
  set t := (s.buses b).pendingDispatchers.foldl dispatcherCancel s with ht
  split
  · rename_i hnone
    rw [OnWay, pendings_modifyBus, pendings_congr hbuses]
    refine hcanceled.unblock (fun d y hd _ => ?_) rfl
    rw [incomplete, hbuses, hnone] at hd
    cases hd
  · rename_i d hsome
    rw [OnWay, pendings_modifyBus, pendings_congr ((buses_dispatcherCancel t d).trans hbuses)]
    exact hcanceled.cancelBlocking (by rw [incomplete, hbuses, hsome]) fun _ => rfl

theorem Routed.stop (h : OnWay s) (b : ℕ) : OnWay (s.stop b) := by
  unfold Batch.stop
  split
  · exact h.flags b (fun _ => rfl) fun _ => rfl
  · exact h.stopDispatchers b

theorem Routed.submitPending {l : List ℕ} (h : Routed (Function.update s.pendings b l) s) :
    OnWay (submitPending b l s) := by
  induction l generalizing s with
  | nil =>
      rw [Batch.submitPending, OnWay, pendings_modifyBus]
      exact h.same (sameRoutes_modifyBus s b rfl)
  | cons d l ih =>
      rw [Batch.submitPending]
      split
      · rw [OnWay, pendings_modifyBus]
        exact h.same (sameRoutes_modifyBus s b rfl)
      · rename_i hfree
        have hsubmit := h.submit (by simpa using hfree)
        refine ih ?_
        convert hsubmit using 2
        split
        · change (s.modifyBus b fun bus =>
            { bus with incompleteReliableDispatcher := some d }).pendings = s.pendings
          rw [pendings_modifyBus]
          exact Function.update_eq_self ..
        · rfl

theorem Routed.processSendingDeferred (h : OnWay s) (b : ℕ) :
    OnWay (s.processSendingDeferred b) := by
  have htask := h.flags b (f := fun bus => { bus with sendTask := false }) (fun _ => rfl)
    fun _ => rfl
  unfold Batch.processSendingDeferred
  dsimp only
  generalize s.modifyBus b (fun bus => { bus with sendTask := false }) = t at htask
  have hloop : OnWay (if (t.buses b).stopping = true then t
      else Batch.submitPending b (t.buses b).pendingDispatchers t) := by
    split
    · exact htask
    · refine Routed.submitPending ?_
      have hlist : Function.update t.pendings b (t.buses b).pendingDispatchers = t.pendings :=
        Function.update_eq_self ..
      rw [hlist]
      exact htask
  generalize (if (t.buses b).stopping = true then t
    else Batch.submitPending b (t.buses b).pendingDispatchers t) = u at hloop ⊢
  have hidle := hloop.flags b (f := fun bus => { bus with processing := false }) (fun _ => rfl)
    fun _ => rfl
  split
  · exact hidle.stop b
  · exact hidle

/-- A dispatcher is made, and waits in the list of its bus. -/
theorem Routed.create (h : Routed pending s) (hpipeline : y.pipeline = .init 2)
    (hcompleting : y.completing = none) (hkept : y.canceled = false)
    (htimer : y.resendTimer = false) :
    Routed (Function.update pending y.bus (pending y.bus ++ [s.nextDispatcher])) { s with
      dispatchers := Function.update s.dispatchers s.nextDispatcher (some y)
      nextDispatcher := s.nextDispatcher + 1 } := by
  set d := s.nextDispatcher with hd
  have hnone : s.dispatchers d = none := h.fresh d (Nat.le_refl _)
  have hidle : s.queued d = false := by
    rw [← Bool.not_eq_true]
    intro hq
    obtain ⟨z, hz⟩ := h.queued d hq
    rw [hnone] at hz
    cases hz
  have hnew : ∀ b, d ∉ pending b := by
    intro b hmem
    obtain ⟨z, hz, -⟩ := h.listed b d hmem
    rw [hnone] at hz
    cases hz
  have hlists : ∀ b, Function.update pending y.bus (pending y.bus ++ [d]) b =
      if b = y.bus then pending y.bus ++ [d] else pending b := fun b => Function.update_apply ..
  have hmem : ∀ {b d'}, d' ≠ d → (d' ∈ Function.update pending y.bus (pending y.bus ++ [d]) b ↔
      d' ∈ pending b) := by
    intro b d' hne
    rw [hlists]
    split
    · rename_i hb
      rw [hb, List.mem_append, List.mem_singleton]
      exact or_iff_left hne
    · exact Iff.rfl
  have hwritten : ∀ d', Function.update s.dispatchers d (some y) d' =
      if d' = d then some y else s.dispatchers d' := fun d' => Function.update_apply ..
  have hold : ∀ {d' z}, s.dispatchers d' = some z → d' ≠ d := by
    rintro d' z hz rfl
    rw [hnone] at hz
    cases hz
  refine ⟨fun d' z hz => ?_, fun d' hd' => ?_, fun b d' hd' => ?_, fun b => ?_,
    fun b d' hd' => ?_, fun d' hd' => ?_⟩
  · change Function.update s.dispatchers d (some y) d' = some z at hz
    change Place _ (s.incomplete z.bus) (s.queued d') d' z
    rw [hwritten] at hz
    split at hz
    · rename_i heq
      obtain rfl := Option.some.inj hz
      subst heq
      refine .pending hpipeline hcompleting hkept htimer hidle ?_
      rw [hlists, if_pos rfl]
      exact List.mem_append_right _ (List.mem_singleton_self _)
    · rename_i hne
      cases h.place d' z hz with
      | pending hpipeline hcompleting hkept htimer hidle hlisted =>
          exact .pending hpipeline hcompleting hkept htimer hidle ((hmem hne).mpr hlisted)
      | sending hpipeline hcompleting hkept hmoving hblocking hunlisted =>
          exact .sending hpipeline hcompleting hkept hmoving hblocking
            fun hlisted => hunlisted ((hmem hne).mp hlisted)
      | last hpipeline hcompleting hmoving hunlisted =>
          exact .last hpipeline hcompleting hmoving fun hlisted => hunlisted ((hmem hne).mp hlisted)
      | done hpipeline hcompleting hidle hunlisted =>
          exact .done hpipeline hcompleting hidle fun hlisted => hunlisted ((hmem hne).mp hlisted)
  · change ∃ z, Function.update s.dispatchers d (some y) d' = some z
    obtain ⟨z, hz⟩ := h.queued d' hd'
    exact ⟨z, by rw [hwritten, if_neg (hold hz)]; exact hz⟩
  · change ∃ z, Function.update s.dispatchers d (some y) d' = some z ∧ z.bus = b
    rw [hwritten]
    split
    · rename_i heq
      subst heq
      rw [hlists] at hd'
      split at hd'
      · rename_i hb
        exact ⟨y, rfl, hb.symm⟩
      · exact absurd hd' (hnew b)
    · rename_i hne
      exact h.listed b d' ((hmem hne).mp hd')
  · rw [hlists]
    split
    · rw [List.nodup_append]
      refine ⟨h.nodup y.bus, List.nodup_singleton d, fun a ha a' ha' heq => ?_⟩
      rw [heq, List.mem_singleton.mp ha'] at ha
      exact hnew y.bus ha
    · exact h.nodup b
  · change ∃ z, Function.update s.dispatchers d (some y) d' = some z ∧ _
    obtain ⟨z, hz, hbus, hzkept, hunlisted⟩ := h.blocking b d' hd'
    rw [hwritten, if_neg (hold hz)]
    exact ⟨z, hz, hbus, hzkept, fun hlisted => hunlisted ((hmem (hold hz)).mp hlisted)⟩
  · have hlt : d + 1 ≤ d' := hd'
    change Function.update s.dispatchers d (some y) d' = none
    rw [hwritten, if_neg (by omega)]
    exact h.fresh d' (by omega)

/-- The dispatchers and the buses are as they were. -/
structure SameWay (s s' : Batch) : Prop where
  dispatchers : s'.dispatchers = s.dispatchers
  queued : s'.queued = s.queued
  buses : s'.buses = s.buses
  nextDispatcher : s'.nextDispatcher = s.nextDispatcher

theorem SameWay.refl (s : Batch) : SameWay s s := ⟨rfl, rfl, rfl, rfl⟩

theorem SameWay.trans {s s' s'' : Batch} (h : SameWay s s') (h' : SameWay s' s'') :
    SameWay s s'' :=
  ⟨h'.dispatchers.trans h.dispatchers, h'.queued.trans h.queued, h'.buses.trans h.buses,
    h'.nextDispatcher.trans h.nextDispatcher⟩

theorem SameWay.routed (hsame : SameWay s s') (h : OnWay s) : OnWay s' := by
  rw [OnWay, pendings_congr hsame.buses]
  exact h.same ⟨hsame.dispatchers, hsame.queued, fun b => by rw [incomplete, hsame.buses],
    hsame.nextDispatcher⟩

theorem sameWay_modifySender (s : Batch) (n : ℕ) (f : BatchSender → BatchSender) :
    SameWay s (s.modifySender n f) := ⟨rfl, rfl, rfl, rfl⟩

theorem sameWay_senderExecute (s : Batch) (n : ℕ) (p : Pipeline) :
    SameWay s (s.senderExecute n p) := by
  unfold senderExecute
  refine (sameWay_modifySender s n fun x => { x with pipeline := { p with busy := true } }).trans ?_
  dsimp only
  split
  · unfold senderComplete
    split
    · exact .refl _
    · split
      · exact ⟨rfl, rfl, rfl, rfl⟩
      · split <;> exact ⟨rfl, rfl, rfl, rfl⟩
  · exact sameWay_modifySender _ n _

theorem sameWay_senderReturned (s : Batch) (n : ℕ) : SameWay s (s.senderReturned n) := by
  unfold senderReturned
  split
  · exact .refl s
  · split
    · exact sameWay_senderExecute s n _
    · exact sameWay_modifySender s n _

theorem sameWay_senderNext (s : Batch) (n : ℕ) : SameWay s (s.senderNext n) := by
  unfold senderNext
  split
  · exact .refl s
  · split
    · exact sameWay_senderExecute s n _
    · exact sameWay_modifySender s n _

theorem sameWay_senderFinish (s : Batch) (n : ℕ) : SameWay s (s.senderFinish n) := by
  unfold senderFinish
  split
  · exact .refl s
  · split
    · exact sameWay_senderExecute s n _
    · exact sameWay_modifySender s n _

theorem sameWay_senderSubmit (s : Batch) (n : ℕ) (worker : Bool) :
    SameWay s (s.senderSubmit n worker) := by
  unfold senderSubmit
  refine ((sameWay_modifySender s n fun x => { x with
    pipeline := { Pipeline.init 3 with busy := true } }).trans ?_).trans
      (sameWay_senderReturned _ n)
  unfold updateChecksum
  split
  · exact .refl _
  · split
    · exact sameWay_senderNext _ n
    · split
      · exact sameWay_modifySender _ n _
      · exact (sameWay_modifySender _ n _).trans (sameWay_senderFinish _ n)

theorem sameWay_updateChecksumComplete (s : Batch) (n : ℕ) (canceled computed : Bool) :
    SameWay s (s.updateChecksumComplete n canceled computed) := by
  unfold updateChecksumComplete
  split
  · exact .refl s
  · refine (sameWay_modifySender s n fun x => { x with
      checksumUpdateTask := false
      failed := x.failed || !computed
      canceled := x.canceled || canceled }).trans ?_
    dsimp only
    split
    · exact sameWay_senderFinish _ n
    · exact sameWay_senderNext _ n

theorem sameWay_dispatched (s : Batch) (n : ℕ) : SameWay s (s.dispatched n) := by
  unfold dispatched
  split
  · exact .refl s
  · split
    · exact .refl s
    · exact .refl s
    · rename_i failedCounter _
      refine ((sameWay_modifySender s n fun x => { x with
        loop := none
        completedCounter := x.completedCounter + failedCounter }).trans ?_).trans
          (sameWay_senderReturned _ n)
      split
      · exact sameWay_senderNext _ n
      · exact .refl _

theorem sameWay_onDispatcherResult (s : Batch) (n d : ℕ) (success : Bool) :
    SameWay s (s.onDispatcherResult n d success) := by
  unfold onDispatcherResult
  split
  · exact ⟨rfl, rfl, rfl, rfl⟩
  · have hcount : ∀ f g, SameWay s ((s.note n f).modifySender n g) :=
      fun f g => ⟨rfl, rfl, rfl, rfl⟩
    dsimp only
    split
    · exact (hcount _ _).trans (sameWay_senderNext _ n)
    · exact hcount _ _

theorem Routed.createAndSubmitDispatcher (h : OnWay s) (n : ℕ) (acquired extra : Bool) :
    OnWay (s.createAndSubmitDispatcher n acquired extra) := by
  unfold Batch.createAndSubmitDispatcher
  split
  · exact h
  rename_i x hx
  split
  · exact h
  · exact h
  rename_i t rest failedCounter hloop
  have hbus := h.flags t.bus (f := fun bus =>
    { bus with sequenceGenerator := bus.sequenceGenerator + 1 }) (fun _ => rfl) fun _ => rfl
  dsimp only
  generalize s.modifyBus t.bus (fun bus =>
    { bus with sequenceGenerator := bus.sequenceGenerator + 1 }) = u at hbus ⊢
  split
  · refine Routed.processSending ?_ t.bus
    set y : BatchDispatcher := .init n t (u.buses t.bus).sequenceGenerator x.chunks extra with hy
    have hmade := hbus.create (y := y) rfl rfl rfl rfl
    have hlisted : ∀ v : Batch, v.dispatchers = Function.update u.dispatchers u.nextDispatcher
        (some y) → v.queued = u.queued → v.buses = u.buses →
        v.nextDispatcher = u.nextDispatcher + 1 →
        OnWay (v.modifyBus t.bus fun bus => { bus with
          pendingDispatchers := bus.pendingDispatchers ++ [u.nextDispatcher] }) := by
      intro v hdispatchers hqueued hbuses hnext
      rw [OnWay, pendings_modifyBus, pendings_congr hbuses, hbuses]
      refine Routed.same ?_ (sameRoutes_modifyBus v t.bus rfl)
      exact hmade.same ⟨hdispatchers, hqueued, fun b => by rw [incomplete, hbuses], hnext⟩
    exact hlisted _ rfl rfl rfl rfl
  · exact (sameWay_modifySender u n _).routed hbus

theorem Routed.dispatcherDispatch (h : Routed pending s) (hy : s.dispatchers d = some y)
    (hpipeline : y.pipeline = .init 2) (hqueued : s.queued d = true) (sent timer : Bool) :
    Routed pending ({ s with
      queued := Function.update s.queued d false }.dispatcherDispatch d sent timer) := by
  obtain ⟨hcompleting, hkept, ⟨-, hidle, -⟩ | ⟨-, hblocking, hunlisted⟩⟩ := h.first hy hpipeline
  · exact absurd (hqueued.symm.trans hidle) (by decide)
  set t : Batch := { s with queued := Function.update s.queued d false } with ht
  have hty : t.dispatchers d = some y := hy
  have hplace : ∀ o q, t.place d o q = s.place d o q := by
    intro o q
    simp [ht, Batch.place]
  have hqt : t.queued d = false := Function.update_self ..
  have hfail : Routed pending (t.dispatcherFail d) := by
    unfold Batch.dispatcherFail
    have hfirst' : ({ y with failed := true } : BatchDispatcher).pipeline = .init 2 := hpipeline
    rw [modifyDispatcher_place hty, dispatcherFinish_first (dispatchers_place ..) hfirst',
      place_place, hplace]
    exact h.toLast hy hunlisted rfl rfl hcompleting fun _ => hkept
  unfold Batch.dispatcherDispatch
  simp only [hty]
  split
  · exact hfail
  split
  · rw [dispatcherNext_first hty hpipeline, hplace]
    exact h.toLast hy hunlisted rfl rfl hcompleting fun _ => hkept
  · rename_i hmode
    split
    · rw [modifyDispatcher_place hty, hplace, hqt]
      exact h.move hy rfl (.sending hpipeline hcompleting hkept (.inr ⟨not_not.mp hmode, rfl⟩)
        hblocking hunlisted) fun _ => hkept
    · exact hfail

theorem Routed.onDispatcherCompleted (h : OnWay s) (hy : s.dispatchers d = some y)
    (hlast : y.pipeline = atLast) : OnWay (s.onDispatcherCompleted y.bus d) ∧
      (s.onDispatcherCompleted y.bus d).dispatchers = s.dispatchers ∧
      ∀ b, (s.onDispatcherCompleted y.bus d).incomplete b ≠ some d := by
  have hsending : ∀ (t : Batch) (b : ℕ), (t.processSending b).dispatchers = t.dispatchers ∧
      ∀ b', (t.processSending b).incomplete b' = t.incomplete b' := by
    intro t b
    unfold Batch.processSending
    split
    · exact ⟨rfl, fun _ => rfl⟩
    · exact ⟨rfl, fun b' => (sameRoutes_modifyBus t b rfl).incomplete b'⟩
  have hbus : ∀ b, s.incomplete b = some d → b = y.bus := by
    intro b hblocking
    obtain ⟨z, hz, hzbus, -⟩ := h.blocking b d hblocking
    obtain rfl := Option.some.inj (hy.symm.trans hz)
    exact hzbus.symm
  unfold Batch.onDispatcherCompleted
  dsimp only
  split
  · rename_i hblocking
    have hfree : OnWay (s.modifyBus y.bus fun bus =>
        { bus with incompleteReliableDispatcher := none }) := by
      have hpendings : (s.modifyBus y.bus fun bus =>
          { bus with incompleteReliableDispatcher := none }).pendings = s.pendings := by
        rw [pendings_modifyBus]
        exact Function.update_eq_self ..
      rw [OnWay, hpendings]
      refine h.unblock (fun d' z hd' hz => ?_) rfl
      obtain rfl : d = d' := Option.some.inj (hblocking.symm.trans hd')
      rw [← Option.some.inj (hy.symm.trans hz)]
      exact hlast
    refine ⟨hfree.processSending y.bus, (hsending _ _).1, fun b hd => ?_⟩
    rw [(hsending _ _).2, incomplete_modifyBus] at hd
    split at hd
    · cases hd
    · rename_i hb
      exact hb (hbus b hd)
  · rename_i hblocking
    refine ⟨h.processSending y.bus, (hsending _ _).1, fun b hd => ?_⟩
    rw [(hsending _ _).2] at hd
    obtain rfl := hbus b hd
    exact hblocking hd

theorem sameWay_dispatcherRelease (hy : s.dispatchers d = some y) :
    SameWay { s with dispatchers := Function.update s.dispatchers d none }
      (s.dispatcherRelease d) := by
  unfold dispatcherRelease
  simp only [hy]
  split
  · split <;> exact ⟨rfl, rfl, rfl, rfl⟩
  · exact .refl _

theorem Routed.dispatcherCompleted (h : OnWay s) (d : ℕ)
    (hcanceled : ∀ y, s.dispatchers d = some y → y.completing = some true → y.canceled = true) :
    OnWay (s.dispatcherCompleted d) := by
  unfold Batch.dispatcherCompleted
  split
  · exact h
  rename_i y hy
  have hrelease : ∀ {t : Batch}, OnWay t → t.dispatchers = s.dispatchers →
      (∀ b, t.incomplete b ≠ some d) → y.completing ≠ none → OnWay (t.dispatcherRelease d) := by
    intro t ht hdispatchers hblocking hcompleting
    have hty : t.dispatchers d = some y := hdispatchers ▸ hy
    refine (sameWay_dispatcherRelease hty).routed ?_
    cases ht.place d y hty with
    | pending _ hnone => exact absurd hnone hcompleting
    | sending _ hnone => exact absurd hnone hcompleting
    | last _ hnone => exact absurd hnone hcompleting
    | done _ _ hidle hunlisted =>
        have hleft := ht.leave hty hunlisted hblocking
        have hqueued : t.place d none false =
            { t with dispatchers := Function.update t.dispatchers d none } := by
          rw [Batch.place, ← hidle, Function.update_eq_self]
        rwa [hqueued] at hleft
  split
  · exact h
  · rename_i hcompleting
    refine hrelease h rfl (fun b hblocking => ?_) (by rw [hcompleting]; decide)
    obtain ⟨z, hz, -, hkept, -⟩ := h.blocking b d hblocking
    obtain rfl := Option.some.inj (hy.symm.trans hz)
    exact absurd (hkept.symm.trans (hcanceled y hy hcompleting)) (by decide)
  · rename_i hcompleting
    have hlast : y.pipeline = atLast := by
      cases h.place d y hy with
      | pending _ hnone => rw [hcompleting] at hnone; cases hnone
      | sending _ hnone => rw [hcompleting] at hnone; cases hnone
      | last hlast => exact hlast
      | done hlast => exact hlast
    obtain ⟨hfree, hdispatchers, hblocking⟩ := h.onDispatcherCompleted hy hlast
    exact hrelease hfree hdispatchers hblocking (by rw [hcompleting]; decide)

theorem sameWay_dispatcherComplete (hy : s.dispatchers d = some y) :
    ∃ w : BatchDispatcher, w.bus = y.bus ∧ w.pipeline = y.pipeline ∧
      w.canceled = y.canceled ∧ w.completing = some y.canceled ∧
      SameWay { s with dispatchers := Function.update s.dispatchers d (some w) }
        (s.dispatcherComplete d) := by
  unfold Batch.dispatcherComplete
  simp only [hy]
  cases hcanceled : y.canceled with
  | true =>
      refine ⟨{ y with completing := some true }, rfl, rfl, hcanceled, rfl, ?_⟩
      refine SameWay.trans ?_ (sameWay_onDispatcherResult ..)
      simp only [if_true]
      rw [modifyDispatcher_eq hy, hcanceled]
      exact .refl _
  | false =>
      cases y.senderEntry with
      | true =>
          refine ⟨{ y with senderEntry := false, completing := some false }, rfl, rfl, hcanceled,
            rfl, ?_⟩
          refine SameWay.trans ?_ (sameWay_onDispatcherResult ..)
          simp only [Bool.false_eq_true, if_false, if_true]
          refine ⟨?_, rfl, rfl, rfl⟩
          simp [modifyDispatcher, modifySender, hy, hcanceled]
      | false =>
          refine ⟨{ y with completing := some false }, rfl, rfl, hcanceled, rfl, ?_⟩
          refine SameWay.trans ?_ (sameWay_onDispatcherResult ..)
          simp only [Bool.false_eq_true, if_false]
          refine ⟨?_, rfl, rfl, rfl⟩
          simp [modifyDispatcher, hy, hcanceled]

theorem Routed.dispatcherTask (h : OnWay s) (hqueued : s.queued d = true) (sent timer : Bool) :
    OnWay (s.dispatcherTask d sent timer) := by
  obtain ⟨y, hy⟩ := h.queued d hqueued
  unfold Batch.dispatcherTask
  simp only [hy]
  obtain hfirst | ⟨hlast, hunlisted, hcompleting⟩ := h.stage hy
  · rw [if_neg (by rw [hfirst]; decide)]
    have hdispatched := Routed.dispatcherDispatch h hy hfirst hqueued sent timer
    convert hdispatched using 1
    exact pendings_congr (buses_dispatcherDispatch ..)
  · rw [if_pos (by rw [hlast]; decide)]
    set t : Batch := { s with queued := Function.update s.queued d false } with ht
    have hty : t.dispatchers d = some y := hy
    obtain ⟨w, hbus, hpipeline, hcanceled, hcompleting', hsame⟩ := sameWay_dispatcherComplete hty
    have hcomplete : OnWay (t.dispatcherComplete d) := by
      refine hsame.routed ?_
      have hmoved : Routed s.pendings (s.place d (some w) false) := by
        refine h.move hy hbus (.done (hpipeline.trans hlast) ?_ rfl hunlisted) fun hblocking => ?_
        · rw [hcompleting']
          exact Option.some_ne_none _
        · obtain ⟨z, hz, -, hkept, -⟩ := h.blocking y.bus d hblocking
          obtain rfl := Option.some.inj (hy.symm.trans hz)
          exact hcanceled.trans hkept
      exact hmoved
    split
    · exact hcomplete
    · refine hcomplete.dispatcherCompleted d fun z hz hdone => ?_
      have hwritten : (t.dispatcherComplete d).dispatchers d = some w := by
        rw [hsame.dispatchers]
        exact Function.update_self ..
      obtain rfl := Option.some.inj (hwritten.symm.trans hz)
      rw [hcompleting'] at hdone
      exact hcanceled.trans (Option.some.inj hdone)

end Routes

end Batch

end Delivery

end PomeloUdp
