import Mathlib.Algebra.BigOperators.Fin
import Mathlib.Algebra.Order.BigOperators.Group.Finset
import PomeloUdp.Library.Run

/-!
# Reference counters

`References` is a `pomelo_reference_t` with the threads that use it. Each thread goes
through the loads and the compare-exchanges of its call one at a time, in any
interleaving with the others, and a compare-exchange may fail without a reason. What is
not in the memory of the program is which references a thread holds: it may give one up
with `pomelo_reference_unref`, take another one with `pomelo_reference_ref` as long as it
holds one, and hand one over to another thread.

The counter is the number of references that are held or being given up. It has 63 bits
for them, so the runs in question are those in which there are fewer than `2 ^ 63`.
-/

namespace PomeloUdp

namespace Base

open Machine

/-- Where a thread is. -/
inductive RefPc where
  | idle
  /-- In `pomelo_reference_ref`, before the load. -/
  | refLoad
  /-- In `pomelo_reference_ref`, before the compare-exchange. -/
  | refExchange (ref : Int64)
  /-- In `pomelo_reference_unref`, before the load. -/
  | unrefLoad
  /-- In `pomelo_reference_unref`, before the compare-exchange. -/
  | unrefExchange (ref : Int64)
  /-- Before the call of the finalizer. -/
  | finalize
  deriving DecidableEq

namespace RefPc

def loading : RefPc → Bool
  | refLoad | unrefLoad => true
  | _ => false

def exchanging : RefPc → Bool
  | refExchange _ | unrefExchange _ => true
  | _ => false

/-- In `pomelo_reference_ref`. -/
def referring : RefPc → Bool
  | refLoad | refExchange _ => true
  | _ => false

/-- In `pomelo_reference_unref`, with the reference still in the counter. -/
def unreferring : RefPc → Bool
  | unrefLoad | unrefExchange _ => true
  | _ => false

end RefPc

/-- A thread and the number of references that it holds. -/
structure RefThread where
  pc : RefPc
  held : ℕ
  deriving DecidableEq

namespace RefThread

/-- The references of a thread: those that it holds and one that it is giving up. -/
def references (thread : RefThread) : ℕ := thread.held + if thread.pc.unreferring then 1 else 0

/-- One for a thread that is about to call the finalizer. -/
def finalizing (thread : RefThread) : ℕ := if thread.pc = .finalize then 1 else 0

end RefThread

/-- `pomelo_reference_t` with its threads and the number of calls of the finalizer. -/
structure References (τ : Type*) where
  refCounter : Int64
  threads : τ → RefThread
  finalized : ℕ

/-- What a thread does next. -/
inductive RefEvent (τ : Type*) where
  | ref (t : τ)
  | unref (t : τ)
  | hand (t u : τ)
  | load (t : τ)
  | exchange (t : τ) (spurious : Bool)
  | finalize (t : τ)

namespace References

variable {τ : Type*} [DecidableEq τ]

/-- Writing the state of a thread. -/
def setThread (s : References τ) (t : τ) (thread : RefThread) : References τ :=
  { s with threads := Function.update s.threads t thread }

@[simp] theorem refCounter_setThread (s : References τ) (t : τ) (thread : RefThread) :
    (s.setThread t thread).refCounter = s.refCounter := rfl

@[simp] theorem finalized_setThread (s : References τ) (t : τ) (thread : RefThread) :
    (s.setThread t thread).finalized = s.finalized := rfl

@[simp] theorem threads_setThread_self (s : References τ) (t : τ) (thread : RefThread) :
    (s.setThread t thread).threads t = thread := Function.update_self ..

theorem threads_setThread_of_ne (s : References τ) {t u : τ} (thread : RefThread)
    (h : u ≠ t) : (s.setThread t thread).threads u = s.threads u := Function.update_of_ne h ..

theorem setThread_setThread (s : References τ) (t : τ) (first second : RefThread) :
    (s.setThread t first).setThread t second = s.setThread t second := by
  simp only [setThread, Function.update_idem]

theorem setThread_threads (s : References τ) (t : τ) : s.setThread t (s.threads t) = s := by
  simp only [setThread, Function.update_eq_self]

/-- The counter after `pomelo_reference_init` by a thread, which holds the reference. -/
def init (t : τ) : References τ := setThread ⟨1, fun _ => ⟨.idle, 0⟩, 0⟩ t ⟨.idle, 1⟩

/-- Moving a thread on. -/
def goto (s : References τ) (t : τ) (pc : RefPc) : References τ :=
  s.setThread t ⟨pc, (s.threads t).held⟩

/-- The load of `pomelo_reference_ref` and `pomelo_reference_unref`; with a counter that is not
positive the call returns. -/
def load (s : References τ) (t : τ) : References τ :=
  match (s.threads t).pc with
  | .refLoad => s.goto t (if s.refCounter ≤ 0 then .idle else .refExchange s.refCounter)
  | .unrefLoad => s.goto t (if s.refCounter ≤ 0 then .idle else .unrefExchange s.refCounter)
  | _ => s

/-- The compare-exchange of `pomelo_reference_ref` and `pomelo_reference_unref`, after which the
loop ends or loads again. -/
def exchange (s : References τ) (t : τ) (spurious : Bool) : References τ :=
  match (s.threads t).pc with
  | .refExchange ref =>
      if s.refCounter = ref ∧ spurious = false then
        { s with refCounter := ref + 1 }.setThread t ⟨.idle, (s.threads t).held + 1⟩
      else s.goto t .refLoad
  | .unrefExchange ref =>
      if s.refCounter = ref ∧ spurious = false then
        { s with refCounter := ref - 1 }.goto t (if ref - 1 = 0 then .finalize else .idle)
      else s.goto t .unrefLoad
  | _ => s

/-- The step of an event. -/
def step (s : References τ) : RefEvent τ → References τ
  | .ref t => s.goto t .refLoad
  | .unref t => s.setThread t ⟨.unrefLoad, (s.threads t).held - 1⟩
  | .hand t u =>
      let s := s.setThread t ⟨(s.threads t).pc, (s.threads t).held - 1⟩
      s.setThread u ⟨(s.threads u).pc, (s.threads u).held + 1⟩
  | .load t => s.load t
  | .exchange t spurious => s.exchange t spurious
  | .finalize t => { s with finalized := s.finalized + 1 }.goto t .idle

/-- A thread calls only when it is not in a call, and only as a holder. -/
def Enabled (s : References τ) : RefEvent τ → Prop
  | .ref t | .unref t | .hand t _ => (s.threads t).pc = .idle ∧ 0 < (s.threads t).held
  | .load t => (s.threads t).pc.loading
  | .exchange t _ => (s.threads t).pc.exchanging
  | .finalize t => (s.threads t).pc = .finalize

instance (s : References τ) : ∀ e, Decidable (s.Enabled e)
  | .ref t | .unref t | .hand t _ =>
      inferInstanceAs (Decidable ((s.threads t).pc = .idle ∧ 0 < (s.threads t).held))
  | .load t => inferInstanceAs (Decidable ((s.threads t).pc.loading = true))
  | .exchange t _ => inferInstanceAs (Decidable ((s.threads t).pc.exchanging = true))
  | .finalize t => inferInstanceAs (Decidable ((s.threads t).pc = .finalize))

theorem holder_setThread {s : References τ}
    (h : ∀ u, (s.threads u).pc.referring → 0 < (s.threads u).held) {t : τ} {thread : RefThread}
    (ht : thread.pc.referring → 0 < thread.held) (u : τ)
    (hu : ((s.setThread t thread).threads u).pc.referring) :
    0 < ((s.setThread t thread).threads u).held := by
  by_cases hut : u = t
  · subst hut
    rw [threads_setThread_self] at hu ⊢
    exact ht hu
  · rw [threads_setThread_of_ne s thread hut] at hu ⊢
    exact h u hu

section Counts

variable [Fintype τ]

/-- The references that are held or being given up. -/
def references (s : References τ) : ℕ := ∑ t, (s.threads t).references

/-- The calls of the finalizer that were made or are about to be. -/
def finalizations (s : References τ) : ℕ := s.finalized + ∑ t, (s.threads t).finalizing

theorem sum_setThread (s : References τ) (t : τ) (thread : RefThread) (g : RefThread → ℕ) :
    ∑ u, g ((s.setThread t thread).threads u) + g (s.threads t) =
      ∑ u, g (s.threads u) + g thread := by
  have hrest : ∑ u ∈ Finset.univ.erase t, g ((s.setThread t thread).threads u) =
      ∑ u ∈ Finset.univ.erase t, g (s.threads u) := by
    refine Finset.sum_congr rfl fun u hu => ?_
    rw [threads_setThread_of_ne s thread (Finset.ne_of_mem_erase hu)]
  rw [← Finset.add_sum_erase _ _ (Finset.mem_univ t), hrest, threads_setThread_self,
    ← Finset.add_sum_erase _ (fun u => g (s.threads u)) (Finset.mem_univ t)]
  omega

theorem references_setThread (s : References τ) (t : τ) (thread : RefThread) :
    (s.setThread t thread).references + (s.threads t).references =
      s.references + thread.references :=
  sum_setThread s t thread RefThread.references

theorem finalizations_setThread (s : References τ) (t : τ) (thread : RefThread) :
    (s.setThread t thread).finalizations + (s.threads t).finalizing =
      s.finalizations + thread.finalizing := by
  have := sum_setThread s t thread RefThread.finalizing
  simp only [finalizations, finalized_setThread]
  omega

omit [DecidableEq τ] in
theorem references_le (s : References τ) (t : τ) : (s.threads t).references ≤ s.references :=
  Finset.single_le_sum (f := fun u => (s.threads u).references) (fun _ _ => Nat.zero_le _)
    (Finset.mem_univ t)

/-- The counter counts the references, a thread refers to what it holds, and the finalizer
belongs to the state without references. -/
structure Counting (s : References τ) : Prop where
  counter : s.refCounter.toInt = s.references
  holder : ∀ t, (s.threads t).pc.referring → 0 < (s.threads t).held
  final : s.finalizations = if s.references = 0 then 1 else 0

theorem counting_init (t : τ) : (init t).Counting := by
  have hone : (init t).references = 1 := by
    have := references_setThread ⟨1, fun _ => ⟨.idle, 0⟩, 0⟩ t ⟨.idle, 1⟩
    have hzero : (⟨1, fun _ => ⟨.idle, 0⟩, 0⟩ : References τ).references = 0 :=
      Finset.sum_eq_zero fun _ _ => rfl
    rw [hzero] at this
    exact this
  have hnone : (init t).finalizations = 0 := by
    have := finalizations_setThread ⟨1, fun _ => ⟨.idle, 0⟩, 0⟩ t ⟨.idle, 1⟩
    have hzero : (⟨1, fun _ => ⟨.idle, 0⟩, 0⟩ : References τ).finalizations = 0 :=
      congrArg (0 + ·) (Finset.sum_eq_zero fun _ _ => rfl)
    rw [hzero] at this
    exact this
  refine ⟨by rw [hone]; rfl, ?_, by rw [hone, hnone]; rfl⟩
  refine holder_setThread (fun u hu => ?_) (fun h => ?_)
  · cases hu
  · cases h

theorem Counting.written {s : References τ} (hs : s.Counting) {t : τ} {thread : RefThread}
    {refCounter : Int64} {finalized n : ℕ}
    (hreferences : s.references + thread.references = n + (s.threads t).references)
    (hcounter : refCounter.toInt = n) (hholder : thread.pc.referring → 0 < thread.held)
    (hfinal : finalized + s.finalizations + thread.finalizing =
      s.finalized + (if n = 0 then 1 else 0) + (s.threads t).finalizing) :
    (setThread ⟨refCounter, s.threads, finalized⟩ t thread).Counting := by
  have hn : (setThread ⟨refCounter, s.threads, finalized⟩ t thread).references = n := by
    have := references_setThread ⟨refCounter, s.threads, finalized⟩ t thread
    change _ + (s.threads t).references = s.references + _ at this
    omega
  have hcalls : (setThread ⟨refCounter, s.threads, finalized⟩ t thread).finalizations =
      if n = 0 then 1 else 0 := by
    have := finalizations_setThread ⟨refCounter, s.threads, finalized⟩ t thread
    simp only [finalizations] at this hfinal ⊢
    omega
  refine ⟨?_, holder_setThread hs.holder hholder, ?_⟩
  · rw [hn]
    exact hcounter
  · rw [hn, hcalls]

theorem Counting.moved {s : References τ} (hs : s.Counting) {t : τ} {thread : RefThread}
    (hreferences : thread.references = (s.threads t).references)
    (hfinalizing : thread.finalizing = (s.threads t).finalizing)
    (hholder : thread.pc.referring → 0 < thread.held) : (s.setThread t thread).Counting := by
  refine hs.written (n := s.references) (by omega) hs.counter hholder ?_
  rw [hs.final, hfinalizing]

omit [DecidableEq τ] in
theorem Counting.positive {s : References τ} (hs : s.Counting) {t : τ}
    (ht : 0 < (s.threads t).references) : ¬ s.refCounter ≤ 0 := by
  have hle := references_le s t
  have hcounter := hs.counter
  rw [Int64.le_iff_toInt_le, Int64.toInt_zero]
  omega

/-- A call of `pomelo_reference_ref` or `pomelo_reference_unref` by a thread that holds a
reference never finds the counter at zero. -/
theorem Counting.loaded {s : References τ} (hs : s.Counting) {t : τ}
    (he : s.Enabled (.load t)) : (s.load t).Counting := by
  cases hpc : (s.threads t).pc with
  | refLoad =>
      have hheld : 0 < (s.threads t).held := hs.holder t (by rw [hpc]; rfl)
      have hpos : ¬ s.refCounter ≤ 0 :=
        hs.positive (Nat.lt_of_lt_of_le hheld (Nat.le_add_right ..))
      simp only [load, hpc, if_neg hpos]
      refine hs.moved ?_ ?_ fun _ => hheld
      · simp [RefThread.references, RefPc.unreferring, hpc]
      · simp [RefThread.finalizing, hpc]
  | unrefLoad =>
      have hpos : ¬ s.refCounter ≤ 0 := by
        refine hs.positive (t := t) ?_
        simp [RefThread.references, RefPc.unreferring, hpc]
      simp only [load, hpc, if_neg hpos]
      refine hs.moved ?_ ?_ fun h => ?_
      · simp [RefThread.references, RefPc.unreferring, hpc]
      · simp [RefThread.finalizing, hpc]
      · cases h
  | idle => simp [Enabled, RefPc.loading, hpc] at he
  | refExchange ref => simp [Enabled, RefPc.loading, hpc] at he
  | unrefExchange ref => simp [Enabled, RefPc.loading, hpc] at he
  | finalize => simp [Enabled, RefPc.loading, hpc] at he

theorem toInt_add_one {ref : Int64} {n : ℕ} (h : ref.toInt = n) (hn : n + 1 < 2 ^ 63) :
    (ref + 1).toInt = (n + 1 : ℕ) := by
  rw [Int64.toInt_add, h, Int64.toInt_one, Int.bmod_eq_of_le (by omega) (by omega)]
  rfl

theorem toInt_sub_one {ref : Int64} {n : ℕ} (h : ref.toInt = (n + 1 : ℕ)) :
    (ref - 1).toInt = n := by
  have hlt := ref.toInt_lt
  rw [Int64.toInt_sub, h, Int64.toInt_one, Int.bmod_eq_of_le (by omega) (by omega)]
  omega

/-- A compare-exchange of `pomelo_reference_ref` that succeeds. -/
theorem Counting.gained {s : References τ} (hs : s.Counting) {t : τ}
    (ht : (s.threads t).pc = .refExchange s.refCounter)
    (hbound : (setThread { s with refCounter := s.refCounter + 1 } t
      ⟨.idle, (s.threads t).held + 1⟩).references < 2 ^ 63) :
    (setThread { s with refCounter := s.refCounter + 1 } t
      ⟨.idle, (s.threads t).held + 1⟩).Counting := by
  have hheld : 0 < (s.threads t).held := hs.holder t (by rw [ht]; rfl)
  have hreferences : (s.threads t).references = (s.threads t).held := by
    simp [RefThread.references, RefPc.unreferring, ht]
  have hmore : (⟨.idle, (s.threads t).held + 1⟩ : RefThread).references =
      (s.threads t).held + 1 := rfl
  have hle := references_le s t
  have hnone : s.finalizations = 0 := by
    rw [hs.final, if_neg (by omega)]
  have hnext : s.references + 1 < 2 ^ 63 := by
    have := references_setThread { s with refCounter := s.refCounter + 1 } t
      ⟨.idle, (s.threads t).held + 1⟩
    change _ + (s.threads t).references = s.references + _ at this
    omega
  refine hs.written (n := s.references + 1) (by omega) (toInt_add_one hs.counter hnext) ?_ ?_
  · intro h
    cases h
  · rw [hnone, if_neg (by omega)]
    simp [RefThread.finalizing, ht]

/-- A compare-exchange of `pomelo_reference_unref` that succeeds. -/
theorem Counting.lost {s : References τ} (hs : s.Counting) {t : τ}
    (ht : (s.threads t).pc = .unrefExchange s.refCounter) :
    (goto { s with refCounter := s.refCounter - 1 } t
      (if s.refCounter - 1 = 0 then .finalize else .idle)).Counting := by
  have hreferences : (s.threads t).references = (s.threads t).held + 1 := by
    simp [RefThread.references, RefPc.unreferring, ht]
  have hle := references_le s t
  obtain ⟨n, hn⟩ : ∃ n, s.references = n + 1 := ⟨s.references - 1, by omega⟩
  have hcounter : (s.refCounter - 1).toInt = n := toInt_sub_one (by rw [hs.counter, hn])
  have hnone : s.finalizations = 0 := by
    rw [hs.final, if_neg (by omega)]
  have hlast : s.refCounter - 1 = 0 ↔ n = 0 := by
    rw [← Int64.toInt_inj, hcounter, Int64.toInt_zero]
    omega
  refine hs.written (n := n) ?_ hcounter ?_ ?_
  · rw [hreferences, hn, RefThread.references]
    split <;> simp only [RefPc.unreferring, Bool.false_eq_true, if_false] <;> omega
  · split <;> exact fun h => nomatch h
  · rw [hnone]
    by_cases hzero : n = 0
    · simp [RefThread.finalizing, ht, hlast, hzero]
    · simp [RefThread.finalizing, ht, hlast, hzero]

theorem Counting.exchanged {s : References τ} (hs : s.Counting) {t : τ} {spurious : Bool}
    (he : s.Enabled (.exchange t spurious))
    (hbound : (s.exchange t spurious).references < 2 ^ 63) :
    (s.exchange t spurious).Counting := by
  cases hpc : (s.threads t).pc with
  | refExchange ref =>
      simp only [exchange, hpc] at hbound ⊢
      by_cases hsuccess : s.refCounter = ref ∧ spurious = false
      · rw [if_pos hsuccess] at hbound ⊢
        obtain ⟨rfl, -⟩ := hsuccess
        exact hs.gained hpc hbound
      · rw [if_neg hsuccess]
        have hheld : 0 < (s.threads t).held := hs.holder t (by rw [hpc]; rfl)
        refine hs.moved ?_ ?_ fun _ => hheld
        · simp [RefThread.references, RefPc.unreferring, hpc]
        · simp [RefThread.finalizing, hpc]
  | unrefExchange ref =>
      simp only [exchange, hpc]
      by_cases hsuccess : s.refCounter = ref ∧ spurious = false
      · rw [if_pos hsuccess]
        obtain ⟨rfl, -⟩ := hsuccess
        exact hs.lost hpc
      · rw [if_neg hsuccess]
        refine hs.moved ?_ ?_ fun h => nomatch h
        · simp [RefThread.references, RefPc.unreferring, hpc]
        · simp [RefThread.finalizing, hpc]
  | idle => simp [Enabled, RefPc.exchanging, hpc] at he
  | refLoad => simp [Enabled, RefPc.exchanging, hpc] at he
  | unrefLoad => simp [Enabled, RefPc.exchanging, hpc] at he
  | finalize => simp [Enabled, RefPc.exchanging, hpc] at he

theorem Counting.handed {s : References τ} (hs : s.Counting) {t u : τ}
    (he : s.Enabled (.hand t u)) : (s.step (.hand t u)).Counting := by
  obtain ⟨hidle, hheld⟩ := he
  let given : RefThread := ⟨(s.threads t).pc, (s.threads t).held - 1⟩
  let between := s.setThread t given
  let taken : RefThread := ⟨(between.threads u).pc, (between.threads u).held + 1⟩
  have hgiven : given.references + 1 = (s.threads t).references := by
    simp only [given, RefThread.references]
    omega
  have htaken : taken.references = (between.threads u).references + 1 := by
    simp only [taken, RefThread.references]
    omega
  have hreferences : (between.setThread u taken).references = s.references := by
    have hfirst := references_setThread s t given
    have hsecond := references_setThread between u taken
    change between.references + _ = _ at hfirst
    omega
  have hfinal : (between.setThread u taken).finalizations = s.finalizations := by
    have hfirst : between.finalizations + (s.threads t).finalizing =
      s.finalizations + (s.threads t).finalizing := finalizations_setThread s t given
    have hsecond : (between.setThread u taken).finalizations + (between.threads u).finalizing =
      between.finalizations + (between.threads u).finalizing :=
      finalizations_setThread between u taken
    omega
  change (between.setThread u taken).Counting
  refine ⟨?_, holder_setThread (holder_setThread hs.holder fun h => ?_) fun _ => ?_, ?_⟩
  · rw [hreferences]
    exact hs.counter
  · rw [hidle] at h
    cases h
  · exact Nat.succ_pos _
  · rw [hreferences, hfinal]
    exact hs.final

theorem Counting.stepped {s : References τ} (hs : s.Counting) {e : RefEvent τ}
    (he : s.Enabled e) (hbound : (s.step e).references < 2 ^ 63) : (s.step e).Counting := by
  cases e with
  | ref t =>
      obtain ⟨hidle, hheld⟩ := he
      refine hs.moved ?_ ?_ fun _ => hheld
      · simp [RefThread.references, RefPc.unreferring, hidle]
      · simp [RefThread.finalizing, hidle]
  | unref t =>
      obtain ⟨hidle, hheld⟩ := he
      refine hs.moved ?_ ?_ fun h => nomatch h
      · simp only [RefThread.references, RefPc.unreferring, hidle, if_true, Bool.false_eq_true,
          if_false]
        omega
      · simp [RefThread.finalizing, hidle]
  | hand t u => exact hs.handed he
  | load t => exact hs.loaded he
  | exchange t spurious => exact hs.exchanged he hbound
  | finalize t =>
      have hfinalize : (s.threads t).pc = .finalize := he
      refine hs.written (n := s.references) ?_ hs.counter (fun h => nomatch h) ?_
      · simp [RefThread.references, RefPc.unreferring, hfinalize]
      · rw [hs.final]
        simp only [RefThread.finalizing, hfinalize, reduceCtorEq, if_true, if_false]
        omega

/-- A step that is enabled and leaves fewer than `2 ^ 63` references. -/
def Admitted (s : References τ) (e : RefEvent τ) : Prop :=
  s.Enabled e ∧ (s.step e).references < 2 ^ 63

instance (s : References τ) (e : RefEvent τ) : Decidable (s.Admitted e) :=
  inferInstanceAs (Decidable (_ ∧ _))

theorem counting_run {t₀ : τ} {es : List (RefEvent τ)}
    (hes : Along step Admitted (init t₀) es) : (run step (init t₀) es).Counting :=
  invariant_run (fun _ _ hs he => hs.stepped he.1 he.2) (counting_init t₀) hes

omit [DecidableEq τ] in
theorem Counting.finalized_le {s : References τ} (hs : s.Counting) : s.finalized ≤ 1 := by
  have hfinal := hs.final
  rw [finalizations] at hfinal
  split at hfinal <;> omega

omit [DecidableEq τ] in
theorem Counting.not_finalized {s : References τ} (hs : s.Counting) (hleft : s.references ≠ 0) :
    s.finalized = 0 ∧ ∀ t, (s.threads t).pc ≠ .finalize := by
  have hfinal := hs.final
  rw [finalizations, if_neg hleft] at hfinal
  refine ⟨by omega, fun t ht => ?_⟩
  have hone : (s.threads t).finalizing ≤ ∑ u, (s.threads u).finalizing :=
    Finset.single_le_sum (f := fun u => (s.threads u).finalizing) (fun _ _ => Nat.zero_le _)
      (Finset.mem_univ t)
  rw [RefThread.finalizing, if_pos ht] at hone
  omega

omit [DecidableEq τ] in
theorem Counting.finalized_or {s : References τ} (hs : s.Counting) (hnone : s.references = 0) :
    s.finalized = 1 ∨ ∃ t, (s.threads t).pc = .finalize := by
  have hfinal := hs.final
  rw [finalizations, if_pos hnone] at hfinal
  rcases Nat.eq_zero_or_pos (∑ t, (s.threads t).finalizing) with hzero | hpos
  · exact Or.inl (by omega)
  · obtain ⟨t, -, ht⟩ := Finset.exists_ne_zero_of_sum_ne_zero (Nat.pos_iff_ne_zero.mp hpos)
    refine Or.inr ⟨t, ?_⟩
    by_contra hne
    exact ht (if_neg hne)

omit [DecidableEq τ] in
theorem Counting.ended {s : References τ} (hs : s.Counting) (hdone : 0 < s.finalized) (t : τ) :
    s.threads t = ⟨.idle, 0⟩ := by
  have hnone : s.references = 0 := by
    by_contra hleft
    have := (hs.not_finalized hleft).1
    omega
  have hsum : ∑ u, (s.threads u).finalizing = 0 := by
    have hfinal := hs.final
    rw [finalizations, if_pos hnone] at hfinal
    omega
  have hweight : (s.threads t).references = 0 := by
    have := references_le s t
    omega
  have hcall : (s.threads t).finalizing = 0 :=
    (Finset.sum_eq_zero_iff.mp hsum) t (Finset.mem_univ t)
  have hholder := hs.holder t
  generalize s.threads t = thread at *
  obtain ⟨pc, held⟩ := thread
  have hheld : held = 0 := by
    simp only [RefThread.references] at hweight
    omega
  subst hheld
  cases pc with
  | idle => rfl
  | refLoad => exact absurd (hholder rfl) (lt_irrefl 0)
  | refExchange ref => exact absurd (hholder rfl) (lt_irrefl 0)
  | unrefLoad => cases hweight
  | unrefExchange ref => cases hweight
  | finalize => cases hcall

omit [DecidableEq τ] in
theorem Counting.counter_zero {s : References τ} (hs : s.Counting) (hnone : s.references = 0) :
    s.refCounter = 0 := by
  rw [← Int64.toInt_inj, hs.counter, hnone]
  rfl

/-- After the finalizer a call of `pomelo_reference_ref` returns at its load. -/
theorem Counting.refused {s : References τ} (hs : s.Counting) (hdone : 0 < s.finalized) (t : τ) :
    (s.goto t .refLoad).load t = s := by
  have hnone : s.references = 0 := by
    by_contra hleft
    have := (hs.not_finalized hleft).1
    omega
  have hzero : (s.goto t .refLoad).refCounter ≤ 0 := by
    change s.refCounter ≤ 0
    rw [hs.counter_zero hnone]
    decide
  have hpc : ((s.goto t .refLoad).threads t).pc = .refLoad := by
    rw [goto, threads_setThread_self]
  simp only [load, hpc, if_pos hzero]
  rw [goto, goto, setThread_setThread, threads_setThread_self]
  rw [show (⟨.idle, (s.threads t).held⟩ : RefThread) = s.threads t by rw [hs.ended hdone t]]
  exact setThread_threads s t

/-- The finalizer is called exactly once. -/
structure FinalizesOnce (s : References τ) : Prop where
  once : s.finalized ≤ 1
  /-- While a reference is held or being given up it is not called. -/
  held : s.references ≠ 0 → s.finalized = 0 ∧ ∀ t, (s.threads t).pc ≠ .finalize
  /-- The thread that gave up the last one calls it. -/
  last : s.references = 0 → s.finalized = 1 ∨ ∃ t, (s.threads t).pc = .finalize
  /-- Afterwards no thread is in a call or holds a reference. -/
  after : 0 < s.finalized → ∀ t, s.threads t = ⟨.idle, 0⟩
  /-- A call of `pomelo_reference_ref` that comes all the same fails. -/
  late : 0 < s.finalized → ∀ t, (s.goto t .refLoad).load t = s

theorem finalizer_once (t₀ : τ) (es : List (RefEvent τ))
    (hes : Along step Admitted (init t₀) es) : (run step (init t₀) es).FinalizesOnce := by
  have hs := counting_run hes
  generalize run step (init t₀) es = s at hs
  refine ⟨hs.finalized_le, hs.not_finalized, hs.finalized_or, hs.ended, fun hdone t => ?_⟩
  exact hs.refused hdone t

/-- Two threads: the first one refers and hands the reference over, both give up theirs, and
the compare-exchange of the second one comes in between. -/
theorem finalizer_once_two : (run step (init (0 : Fin 2))
    [.ref 0, .load 0, .exchange 0 true, .load 0, .exchange 0 false, .hand 0 1, .unref 0, .load 0,
      .unref 1, .load 1, .exchange 1 false, .exchange 0 false, .load 0, .exchange 0 false,
      .finalize 0]).FinalizesOnce :=
  finalizer_once 0 _ (by decide)

end Counts

section Overflow

/-- One thread outside of its calls, without a finalizer called. -/
def alone (refCounter : Int64) (held : ℕ) : References Unit :=
  ⟨refCounter, fun _ => ⟨.idle, held⟩, 0⟩

/-- A number of calls of `pomelo_reference_ref` one after the other. -/
def refCalls : ℕ → List (RefEvent Unit)
  | 0 => []
  | n + 1 => .ref () :: .load () :: .exchange () false :: refCalls n

/-- A number of calls of `pomelo_reference_unref` that return at their load. -/
def unrefCalls : ℕ → List (RefEvent Unit)
  | 0 => []
  | n + 1 => .unref () :: .load () :: unrefCalls n

theorem setThread_unit (refCounter : Int64) (thread thread' : RefThread) (finalized : ℕ) :
    setThread ⟨refCounter, fun _ => thread, finalized⟩ () thread' =
      (⟨refCounter, fun _ => thread', finalized⟩ : References Unit) := by
  have hthreads : Function.update (fun _ : Unit => thread) () thread' = fun _ => thread' :=
    funext fun _ => Function.update_self ..
  rw [setThread, hthreads]

/-- Calls of `pomelo_reference_ref` by a holder, up to the last value of the counter and one
further. -/
theorem run_refCalls {held : ℕ} (n : ℕ) (hheld : 0 < held) (hn : held + n ≤ 2 ^ 63) :
    Along step Enabled (alone (Int64.ofNat held) held) (refCalls n) ∧
      run step (alone (Int64.ofNat held) held) (refCalls n) =
        alone (Int64.ofNat (held + n)) (held + n) := by
  induction n generalizing held with
  | zero => exact ⟨trivial, rfl⟩
  | succ n ih =>
      have hpos : ¬ Int64.ofNat held ≤ 0 := by
        rw [Int64.le_iff_toInt_le, Int64.toInt_zero, Int64.toInt_ofNat_of_lt (by omega)]
        omega
      obtain ⟨halong, hrun⟩ := ih (Nat.succ_pos held) (by omega)
      have hcall : (((alone (Int64.ofNat held) held).step (.ref ())).step (.load ())).step
          (.exchange () false) = alone (Int64.ofNat (held + 1)) (held + 1) := by
        simp [alone, step, goto, load, exchange, setThread_unit, hpos, Int64.ofNat_add]
      refine ⟨⟨⟨rfl, hheld⟩, ?_, ?_, ?_⟩, ?_⟩
      · simp [alone, step, goto, setThread_unit, Enabled, RefPc.loading]
      · simp [alone, step, goto, load, setThread_unit, Enabled, RefPc.exchanging, hpos]
      · rw [hcall]
        exact halong
      · rw [refCalls, run_cons, run_cons, run_cons, hcall, hrun]
        rw [show held + 1 + n = held + (n + 1) by omega]

/-- Calls of `pomelo_reference_unref` with a counter that is not positive. -/
theorem run_unrefCalls {refCounter : Int64} (n : ℕ) (hcounter : refCounter ≤ 0) :
    Along step Enabled (alone refCounter n) (unrefCalls n) ∧
      run step (alone refCounter n) (unrefCalls n) = alone refCounter 0 := by
  induction n with
  | zero => exact ⟨trivial, rfl⟩
  | succ n ih =>
      have hcall : ((alone refCounter (n + 1)).step (.unref ())).step (.load ()) =
          alone refCounter n := by
        simp [alone, step, goto, load, setThread_unit, hcounter]
      refine ⟨⟨⟨rfl, Nat.succ_pos n⟩, ?_, ?_⟩, ?_⟩
      · simp [alone, step, setThread_unit, Enabled, RefPc.loading]
      · rw [hcall]
        exact ih.1
      · rw [unrefCalls, run_cons, run_cons, hcall]
        exact ih.2

/-- With `2 ^ 63` references the counter is negative, every call that gives one up returns at
its load, and the finalizer is never called. -/
theorem finalizer_never : ¬ ∀ es : List (RefEvent Unit), Along step Enabled (init ()) es →
    (∀ t, (run step (init ()) es).threads t = ⟨.idle, 0⟩) →
      (run step (init ()) es).finalized = 1 := by
  intro h
  have hinit : init () = alone (Int64.ofNat 1) 1 := setThread_unit ..
  -- the two lists stay names, so that nothing evaluates them
  obtain ⟨refs, hrefs, hrefsRun⟩ : ∃ es, Along step Enabled (alone (Int64.ofNat 1) 1) es ∧
      run step (alone (Int64.ofNat 1) 1) es = alone (Int64.ofNat (2 ^ 63)) (2 ^ 63) := by
    refine ⟨refCalls (2 ^ 63 - 1), ?_⟩
    rw [show 2 ^ 63 = 1 + (2 ^ 63 - 1) by omega]
    exact run_refCalls (2 ^ 63 - 1) Nat.one_pos (by omega)
  obtain ⟨unrefs, hunrefs, hunrefsRun⟩ : ∃ es,
      Along step Enabled (alone (Int64.ofNat (2 ^ 63)) (2 ^ 63)) es ∧
        run step (alone (Int64.ofNat (2 ^ 63)) (2 ^ 63)) es = alone (Int64.ofNat (2 ^ 63)) 0 :=
    ⟨unrefCalls (2 ^ 63), run_unrefCalls (2 ^ 63) (by decide)⟩
  have hrun := h (refs ++ unrefs)
  rw [hinit, run_append, along_append, hrefsRun, hunrefsRun] at hrun
  have hone : (alone (Int64.ofNat (2 ^ 63)) 0).finalized = 1 :=
    hrun ⟨hrefs, hunrefs⟩ fun _ => rfl
  cases hone

end Overflow

end References

end Base

end PomeloUdp
